import BetaTrader.Exchange.FixSession
import BetaTrader.Exchange.FramingSpec
import BetaTrader.Exchange.MarketDataRequests

/-!
# Two ways to read a field

The session and the converter of market data requests search the text of a message for
keys such as `34=`.  The other way is to take the fields apart and to look at their
tags.  Both give a value at a place of the message, and they give the same one where no
key occurs too early in the middle of a field.
-/

namespace BetaTrader

namespace FieldSearch

/-- `34=` for the tag 34. -/
def key (tag : ℕ) : Message := Decimal.natText tag ++ ['=']

/-- A value, and the fields behind it, which tell its place in the message. -/
abbrev View := Message × List Message

/-! ## Searching -/

/-- The value behind the first place where the key of the tag occurs. -/
def searchView (tag : ℕ) (s : Message) : Option View :=
  (Text.search (key tag) soh s).map fun found => (found.1, Text.pieces soh found.2)

/-- So many values, each searched for behind the one before it. -/
def searchViews (tag : ℕ) : ℕ → Message → List View
  | 0, _ => []
  | n + 1, s =>
      match Text.search (key tag) soh s with
      | none => []
      | some (value, rest) => (value, Text.pieces soh rest) :: searchViews tag n rest

/-! ## Splitting -/

/-- The value of the first field with the tag. -/
def fieldView (tag : ℕ) : List Message → Option View
  | [] => none
  | token :: tokens =>
      match Text.splitFirst '=' token with
      | none => fieldView tag tokens
      | some (name, value) =>
          if name = Decimal.natText tag then some (value, tokens) else fieldView tag tokens

/-- The values of the first fields with the tag, at most so many. -/
def fieldViews (tag : ℕ) : ℕ → List Message → List View
  | 0, _ => []
  | n + 1, tokens =>
      match fieldView tag tokens with
      | none => []
      | some (value, tokens) => (value, tokens) :: fieldViews tag n tokens

/-! ## What is read -/

/-- The values that the session and the converter read. -/
structure Reading where
  msgSeqNum : Option View
  senderCompID : Option View
  testReqID : Option View
  mdReqID : Option View
  subscriptionRequestType : Option View
  marketDepth : Option View
  noRelatedSym : Option View
  symbols : List View
  deriving DecidableEq

/-- What `handleFixMessage` and `convert` find.  Of SubscriptionRequestType this is
the character behind the `=`, and of the symbols as many as NoRelatedSym announces. -/
def searched (s : Message) : Reading where
  msgSeqNum := searchView 34 s
  senderCompID := searchView 49 s
  testReqID := searchView 112 s
  mdReqID := searchView 262 s
  subscriptionRequestType := (searchView 263 s).map fun view => ([view.1.headD soh], view.2)
  marketDepth := searchView 264 s
  noRelatedSym := searchView 146 s
  symbols :=
    match Text.search (key 146) soh s with
    | none => []
    | some (numSymbolsStr, rest) =>
        match Strtoul.fromChars numSymbolsStr with
        | none => []
        | some numSymbols => searchViews 55 numSymbols.toNat rest

/-- The fields of the message. -/
def split (s : Message) : Reading where
  msgSeqNum := fieldView 34 (Text.pieces soh s)
  senderCompID := fieldView 49 (Text.pieces soh s)
  testReqID := fieldView 112 (Text.pieces soh s)
  mdReqID := fieldView 262 (Text.pieces soh s)
  subscriptionRequestType := fieldView 263 (Text.pieces soh s)
  marketDepth := fieldView 264 (Text.pieces soh s)
  noRelatedSym := fieldView 146 (Text.pieces soh s)
  symbols :=
    match fieldView 146 (Text.pieces soh s) with
    | none => []
    | some (numSymbolsStr, tokens) =>
        match Strtoul.fromChars numSymbolsStr with
        | none => []
        | some numSymbols => fieldViews 55 numSymbols.toNat tokens

/-- Of the first fields in which the key occurs, so many, each begins with it. -/
def KeyBegins (tag n : ℕ) (tokens : List Message) : Prop :=
  ∀ token ∈ (tokens.filter (key tag <:+: ·)).take n, key tag <+: token

/-- No key leads astray, and SubscriptionRequestType is one character. -/
structure Unambiguous (s : Message) : Prop where
  keys : ∀ tag ∈ [34, 49, 112, 262, 263, 264, 146], KeyBegins tag 1 (Text.pieces soh s)
  oneCharacter : ∀ view, fieldView 263 (Text.pieces soh s) = some view → view.1.length = 1
  /-- The symbols stand behind their number. -/
  symbols : ∀ numSymbolsStr tokens numSymbols,
    fieldView 146 (Text.pieces soh s) = some (numSymbolsStr, tokens) →
      Strtoul.fromChars numSymbolsStr = some numSymbols → KeyBegins 55 numSymbols.toNat tokens

section Views

variable {tag n : ℕ} {s t rest token : Message} {tokens : List Message}

theorem soh_notMem_key (tag : ℕ) : soh ∉ key tag := by
  rw [key, List.mem_append, not_or]
  exact ⟨FixUtils.notMem_natText (by decide) tag, by decide⟩

theorem key_ne_nil (tag : ℕ) : key tag ≠ [] := by simp [key]

/-- A field with the tag begins with its key. -/
theorem splitFirst_key (tag : ℕ) (value : Message) :
    Text.splitFirst '=' (key tag ++ value) = some (Decimal.natText tag, value) := by
  rw [key, List.append_assoc, List.singleton_append]
  apply Text.splitFirst_append
  exact FixUtils.notMem_natText (by decide) tag

theorem fieldView_key (tag : ℕ) (value : Message) (tokens : List Message) :
    fieldView tag ((key tag ++ value) :: tokens) = some (value, tokens) := by
  rw [fieldView, splitFirst_key]
  exact if_pos rfl

theorem fieldView_skip (h : ¬key tag <+: token) :
    fieldView tag (token :: tokens) = fieldView tag tokens := by
  rw [fieldView]
  cases hsplit : Text.splitFirst '=' token with
  | none => rfl
  | some parts =>
      obtain ⟨name, value⟩ := parts
      dsimp only
      apply if_neg
      rintro rfl
      obtain ⟨rfl, _⟩ := Text.splitFirst_eq_some_iff.mp hsplit
      exact h ⟨value, by simp [key]⟩

theorem fieldViews_skip (h : ¬key tag <+: token) :
    fieldViews tag n (token :: tokens) = fieldViews tag n tokens := by
  cases n with
  | zero => rfl
  | succ n => rw [fieldViews, fieldViews, fieldView_skip h]

theorem searchViews_skip (h : ¬key tag <:+: t) :
    searchViews tag n (t ++ soh :: rest) = searchViews tag n rest := by
  cases n with
  | zero => rfl
  | succ n => rw [searchViews, searchViews, Text.search_skip (soh_notMem_key tag) h]

/-- Fewer fields stand behind a field than behind all those in front of it. -/
theorem length_lt_of_fieldView {view : View} (h : fieldView tag tokens = some view) :
    view.2.length < tokens.length := by
  induction tokens with
  | nil => cases h
  | cons token tokens ih =>
      rw [List.length_cons]
      by_cases hkey : key tag <+: token
      · obtain ⟨value, rfl⟩ := hkey
        rw [fieldView_key] at h
        rw [← Option.some.inj h]
        exact Nat.lt_succ_self _
      · rw [fieldView_skip hkey] at h
        exact (ih h).trans (Nat.lt_succ_self _)

theorem KeyBegins.skip (h : ¬key tag <:+: token) :
    KeyBegins tag n (token :: tokens) ↔ KeyBegins tag n tokens := by
  rw [KeyBegins, List.filter_cons_of_neg (by simpa using h), KeyBegins]

theorem KeyBegins.cons (h : key tag <:+: token) :
    KeyBegins tag (n + 1) (token :: tokens) ↔ key tag <+: token ∧ KeyBegins tag n tokens := by
  rw [KeyBegins, List.filter_cons_of_pos (by simpa using h), List.take_succ_cons,
    List.forall_mem_cons, KeyBegins]

/-- Where the keys begin their fields, both ways give the same. -/
theorem searchViews_eq (h : KeyBegins tag n (Text.pieces soh s)) :
    searchViews tag n s = fieldViews tag n (Text.pieces soh s) := by
  induction s using Text.pieces_induction soh generalizing n with
  | last s hs =>
      rw [Text.pieces_of_notMem hs]
      cases n with
      | zero => rfl
      | succ n => rw [searchViews, Text.search_of_notMem hs, fieldViews, fieldView]
  | piece t rest ht ih =>
      rw [Text.pieces_append ht] at h ⊢
      by_cases hkey : key tag <:+: t
      · cases n with
        | zero => rfl
        | succ n =>
            obtain ⟨⟨value, rfl⟩, hrest⟩ := (KeyBegins.cons hkey).mp h
            have hvalue : soh ∉ value := fun hmem => ht (List.mem_append_right _ hmem)
            rw [searchViews, Text.search_append_self (key_ne_nil tag) hvalue, fieldViews,
              fieldView_key]
            dsimp only
            rw [ih hrest]
      · have hbegin : ¬key tag <+: t := fun hbegins => hkey hbegins.isInfix
        rw [searchViews_skip hkey, fieldViews_skip hbegin]
        exact ih ((KeyBegins.skip hkey).mp h)

/-- Where both ways lead to the same places, the keys begin their fields. -/
theorem keyBegins_of_places (h : (searchViews tag n s).map Prod.snd =
    (fieldViews tag n (Text.pieces soh s)).map Prod.snd) :
    KeyBegins tag n (Text.pieces soh s) := by
  induction s using Text.pieces_induction soh generalizing n with
  | last s hs =>
      rw [Text.pieces_of_notMem hs]
      simp [KeyBegins]
  | piece t rest ht ih =>
      rw [Text.pieces_append ht] at h ⊢
      by_cases hkey : key tag <:+: t
      · cases n with
        | zero => simp [KeyBegins]
        | succ n =>
            rw [KeyBegins.cons hkey]
            by_cases hbegin : key tag <+: t
            · refine ⟨hbegin, ih ?_⟩
              obtain ⟨value, rfl⟩ := hbegin
              have hvalue : soh ∉ value := fun hmem => ht (List.mem_append_right _ hmem)
              rw [searchViews, Text.search_append_self (key_ne_nil tag) hvalue, fieldViews,
                fieldView_key] at h
              exact List.tail_eq_of_cons_eq h
            · -- the search stops in this field, which the other way passes over
              obtain ⟨value, hvalue⟩ := Text.search_of_isInfix (soh_notMem_key tag) ht hkey
              rw [searchViews, hvalue, fieldViews_skip hbegin, fieldViews] at h
              cases hview : fieldView tag (Text.pieces soh rest) with
              | none =>
                  rw [hview] at h
                  cases h
              | some view =>
                  rw [hview] at h
                  have hplace : Text.pieces soh rest = view.2 := List.head_eq_of_cons_eq h
                  have hlt := length_lt_of_fieldView hview
                  rw [← hplace] at hlt
                  exact absurd hlt (lt_irrefl _)
      · have hbegin : ¬key tag <+: t := fun hbegins => hkey hbegins.isInfix
        rw [searchViews_skip hkey, fieldViews_skip hbegin] at h
        exact (KeyBegins.skip hkey).mpr (ih h)

/-- A single search is a run of one. -/
theorem searchViews_one (tag : ℕ) (s : Message) :
    searchViews tag 1 s = (searchView tag s).toList := by
  rw [searchViews, searchView]
  cases Text.search (key tag) soh s <;> rfl

theorem fieldViews_one (tag : ℕ) (tokens : List Message) :
    fieldViews tag 1 tokens = (fieldView tag tokens).toList := by
  rw [fieldViews]
  cases fieldView tag tokens <;> rfl

theorem searchView_eq (h : KeyBegins tag 1 (Text.pieces soh s)) :
    searchView tag s = fieldView tag (Text.pieces soh s) := by
  have heq := searchViews_eq h
  rw [searchViews_one, fieldViews_one] at heq
  have hhead := congrArg List.head? heq
  rwa [Option.head?_toList, Option.head?_toList] at hhead

theorem keyBegins_of_place (h : (searchView tag s).map Prod.snd =
    (fieldView tag (Text.pieces soh s)).map Prod.snd) : KeyBegins tag 1 (Text.pieces soh s) := by
  apply keyBegins_of_places
  rw [searchViews_one, fieldViews_one, ← Option.toList_map, ← Option.toList_map, h]

theorem searchView_eq_iff : searchView tag s = fieldView tag (Text.pieces soh s) ↔
    KeyBegins tag 1 (Text.pieces soh s) :=
  ⟨fun h => keyBegins_of_place (by rw [h]), searchView_eq⟩

theorem searchViews_eq_iff : searchViews tag n s = fieldViews tag n (Text.pieces soh s) ↔
    KeyBegins tag n (Text.pieces soh s) :=
  ⟨fun h => keyBegins_of_places (by rw [h]), searchViews_eq⟩

/-- The character behind the key is the whole value only if there is no other. -/
theorem firstCharacter_eq_iff :
    (searchView tag s).map (fun view => ([view.1.headD soh], view.2)) =
        fieldView tag (Text.pieces soh s) ↔
      KeyBegins tag 1 (Text.pieces soh s) ∧
        ∀ view, fieldView tag (Text.pieces soh s) = some view → view.1.length = 1 := by
  constructor
  · intro h
    constructor
    · apply keyBegins_of_place
      rw [← h, Option.map_map]
      rfl
    · intro view hview
      rw [hview] at h
      obtain ⟨found, _, rfl⟩ := Option.map_eq_some_iff.mp h
      rfl
  · rintro ⟨hkey, hone⟩
    rw [searchView_eq hkey]
    cases hview : fieldView tag (Text.pieces soh s) with
    | none => rfl
    | some view =>
        obtain ⟨c, hc⟩ := List.length_eq_one_iff.mp (hone view hview)
        have hpair : view = ([c], view.2) := Prod.ext hc rfl
        rw [hpair]
        rfl

/-- The symbols that are searched for behind a number which both ways find. -/
theorem symbols_eq_iff (h : KeyBegins 146 1 (Text.pieces soh s)) :
    (searched s).symbols = (split s).symbols ↔ ∀ numSymbolsStr tokens numSymbols,
      fieldView 146 (Text.pieces soh s) = some (numSymbolsStr, tokens) →
        Strtoul.fromChars numSymbolsStr = some numSymbols →
          KeyBegins 55 numSymbols.toNat tokens := by
  have hview := searchView_eq h
  rw [searchView] at hview
  rw [searched, split]
  dsimp only
  cases hsearch : Text.search (key 146) soh s with
  | none =>
      rw [hsearch, Option.map_none] at hview
      rw [← hview]
      simp
  | some found =>
      obtain ⟨numSymbolsStr, rest⟩ := found
      rw [hsearch, Option.map_some] at hview
      rw [← hview]
      dsimp only
      cases hnumber : Strtoul.fromChars numSymbolsStr with
      | none =>
          refine iff_of_true rfl ?_
          rintro _ _ numSymbols ⟨rfl, rfl⟩ heq
          rw [hnumber] at heq
          cases heq
      | some numSymbols =>
          dsimp only
          rw [searchViews_eq_iff]
          constructor
          · rintro hkeys _ _ number ⟨rfl, rfl⟩ heq
            rw [hnumber] at heq
            rw [← Option.some.inj heq]
            exact hkeys
          · exact fun hkeys => hkeys _ _ _ rfl hnumber

end Views

/-! ## The readers -/

/-- The number that `convert` makes of MarketDepth, if it has found one. -/
def Reading.depth (reading : Reading) : Option (Option ℤ) :=
  match reading.marketDepth with
  | none => some none
  | some view => (Strtoul.fromChars view.1).map some

/-- The symbols, if there are as many as it looks for. -/
def Reading.related (reading : Reading) : Option (List Instrument) :=
  match reading.noRelatedSym with
  | none => some []
  | some view => (Strtoul.fromChars view.1).bind fun numSymbols =>
      if reading.symbols.length < numSymbols.toNat then none
      else reading.symbols.mapM fun symbol => Instrument.fromString symbol.1

/-- The request that `convert` makes of what it has found. -/
def Reading.request (reading : Reading) : Option MarketDataRequest := do
  let marketDepth ← reading.depth
  let symbols ← reading.related
  return {
    mdReqID := String.ofList ((reading.mdReqID.map Prod.fst).getD [])
    subscriptionRequestType := reading.subscriptionRequestType.bind fun view => view.1.head?
    marketDepth := marketDepth
    symbols := symbols }

theorem msgSeqNum_eq (s : Message) : FixSession.msgSeqNum s =
    match (searched s).msgSeqNum with
    | none => some 0
    | some view => (Strtoul.stoul (String.ofList view.1)).map UInt32.ofNat := by
  have hkey : "34=".toList = key 34 := rfl
  rw [FixSession.msgSeqNum, Text.between_eq_map_search, hkey, searched]
  dsimp only
  rw [searchView]
  cases Text.search (key 34) soh s <;> rfl

theorem senderCompId_eq (s : Message) :
    FixSession.senderCompId s = ((searched s).senderCompID.map Prod.fst).getD [] := by
  have hkey : "49=".toList = key 49 := rfl
  rw [FixSession.senderCompId, Text.between_eq_map_search, hkey, searched]
  dsimp only
  rw [searchView, Option.map_map]
  rfl

theorem handleTestRequest_eq (ctx : HandlerContext) (manager : FixSessionManager)
    (sessionId : ConnectionID) (s : Message) :
    FixSession.handleTestRequest ctx manager sessionId s =
      FixSession.buildNext ctx manager sessionId fun outSeq now =>
        OutboundMessageBuilder.buildHeartbeat "BETA_EXCHANGE".toList (FixSession.senderCompId s)
          outSeq (((searched s).testReqID.map Prod.fst).getD []) now := by
  have hkey : "112=".toList = key 112 := rfl
  rw [FixSession.handleTestRequest, Text.between_eq_map_search, hkey, searched]
  dsimp only
  rw [searchView, Option.map_map]
  rfl

open BinaryToMarketDataRequestConverter in
/-- The loop of the converter, which stops where a symbol is missing. -/
theorem symbols_eq (n : ℕ) (s : Message) : symbols n s =
    if (searchViews 55 n s).length < n then none
    else (searchViews 55 n s).mapM fun symbol => Instrument.fromString symbol.1 := by
  induction n generalizing s with
  | zero => rfl
  | succ n ih =>
      have hkey : BinaryToMarketDataRequestConverter.key .symbol = key 55 := rfl
      have hsearch : Text.search (key 55) soh s =
          (Text.afterFirst (key 55) s).bind (Text.splitFirst soh) := rfl
      rw [symbols, searchViews, hkey]
      simp only [Option.bind_eq_bind]
      rw [← Option.bind_assoc, ← hsearch]
      cases Text.search (key 55) soh s with
      | none => simp
      | some found =>
          obtain ⟨symbolStr, rest⟩ := found
          simp only [Option.bind_some, List.length_cons, Nat.add_lt_add_iff_right,
            List.mapM_cons, Option.bind_eq_bind, Option.pure_def]
          rw [ih]
          split_ifs
          · cases Instrument.fromString symbolStr <;> rfl
          · rfl

open BinaryToMarketDataRequestConverter in
theorem marketDepth_eq (s : Message) : marketDepth s = (searched s).depth := by
  have hkey : BinaryToMarketDataRequestConverter.key .marketDepth = key 264 := rfl
  rw [marketDepth, Text.between_eq_map_search, hkey, Reading.depth, searched]
  dsimp only
  rw [searchView]
  cases Text.search (key 264) soh s <;> rfl

open BinaryToMarketDataRequestConverter in
theorem relatedSymbols_eq (s : Message) : relatedSymbols s = (searched s).related := by
  have hkey : BinaryToMarketDataRequestConverter.key .noRelatedSym = key 146 := rfl
  have hsearch : Text.search (key 146) soh s =
      (Text.afterFirst (key 146) s).bind (Text.splitFirst soh) := rfl
  rw [relatedSymbols, hkey, ← hsearch, Reading.related, searched]
  dsimp only
  rw [searchView]
  cases Text.search (key 146) soh s with
  | none => rfl
  | some found =>
      obtain ⟨numSymbolsStr, rest⟩ := found
      simp only [Option.map_some]
      cases hnumber : Strtoul.fromChars numSymbolsStr with
      | none => rfl
      | some numSymbols => exact symbols_eq numSymbols.toNat rest

/-- The request is made of the values that are searched for. -/
theorem convert_eq (s : Message) :
    BinaryToMarketDataRequestConverter.convert s = (searched s).request := by
  have hid : Text.between (BinaryToMarketDataRequestConverter.key .mdReqID) soh s =
      (searched s).mdReqID.map Prod.fst := by
    have hkey : BinaryToMarketDataRequestConverter.key .mdReqID = key 262 := rfl
    rw [Text.between_eq_map_search, hkey, searched]
    dsimp only
    rw [searchView, Option.map_map]
    rfl
  have htype : (Text.between (BinaryToMarketDataRequestConverter.key .subscriptionRequestType)
      soh s).map (List.headD · soh) =
        (searched s).subscriptionRequestType.bind fun view => view.1.head? := by
    have hkey : BinaryToMarketDataRequestConverter.key .subscriptionRequestType = key 263 := rfl
    rw [Text.between_eq_map_search, hkey, searched]
    dsimp only
    rw [searchView]
    cases Text.search (key 263) soh s <;> rfl
  rw [BinaryToMarketDataRequestConverter.convert, Reading.request, marketDepth_eq,
    relatedSymbols_eq, hid, htype]

/-- The session and the converter read what the fields hold exactly where no key leads
astray. -/
theorem searched_eq_split_iff (s : Message) : searched s = split s ↔ Unambiguous s := by
  have hsymbols (h : KeyBegins 146 1 (Text.pieces soh s)) := symbols_eq_iff h
  constructor
  · intro h
    obtain ⟨hseq, hsender, htest, hreq, htype, hdepth, hnumber, hlist⟩ := Reading.mk.inj h
    obtain ⟨htypeKey, hone⟩ := firstCharacter_eq_iff.mp htype
    rw [searchView_eq_iff] at hseq hsender htest hreq hdepth hnumber
    refine ⟨?_, hone, (hsymbols hnumber).mp hlist⟩
    simp only [List.forall_mem_cons, List.not_mem_nil, false_imp_iff, implies_true, and_true]
    exact ⟨hseq, hsender, htest, hreq, htypeKey, hdepth, hnumber⟩
  · intro h
    have hkeys := h.keys
    simp only [List.forall_mem_cons, List.not_mem_nil, false_imp_iff, implies_true, and_true]
      at hkeys
    obtain ⟨hseq, hsender, htest, hreq, htype, hdepth, hnumber⟩ := hkeys
    have hlist := (hsymbols hnumber).mpr h.symbols
    have htypeView := firstCharacter_eq_iff.mpr ⟨htype, h.oneCharacter⟩
    rw [← searchView_eq_iff] at hseq hsender htest hreq hdepth hnumber
    exact Reading.mk.injEq .. ▸ ⟨hseq, hsender, htest, hreq, htypeView, hdepth, hnumber, hlist⟩

/-! ## A number out of a comment -/

/-- The tags of the fields. -/
def tags (s : Message) : List Message :=
  ((Text.pieces soh s).filterMap (Text.splitFirst '=')).map Prod.fst

namespace Sample

/-- A heartbeat with a text that looks like a sequence number. -/
def commented : Message :=
  "8=FIX.4.4|9=28|35=0|58=34=99|49=ALICE|34=5|10=124|".toList.map fun c =>
    if c = '|' then soh else c

open FixMessageFramer in
theorem validFrame_commented : ValidFrame commented := by
  have hlength : IsNumber "28".toList 28 :=
    ⟨List.all_eq_true.mp (by decide), by decide, by decide⟩
  have hchecksum : IsNumber "124".toList (checksum (checked "28".toList
      ((commented.drop 15).take 28))) :=
    ⟨List.all_eq_true.mp (by decide), by decide, by decide +kernel⟩
  have htext : commented =
      checked "28".toList ((commented.drop 15).take 28) ++ trailer "124".toList := by
    decide +kernel
  rw [htext]
  exact .mk hlength rfl hchecksum

end Sample

/-- The session takes 99 for the number of a message whose field says 5. -/
theorem comment_counts : ¬∀ frame : Message, FixMessageFramer.ValidFrame frame →
    (tags frame).Nodup →
      (searched frame).msgSeqNum.map Prod.fst = (split frame).msgSeqNum.map Prod.fst := by
  intro h
  have heq := h Sample.commented Sample.validFrame_commented (by decide +kernel)
  have hsearched : (searched Sample.commented).msgSeqNum.map Prod.fst = some "99".toList := by
    decide +kernel
  have hsplit : (split Sample.commented).msgSeqNum.map Prod.fst = some "5".toList := by
    decide +kernel
  rw [hsearched, hsplit] at heq
  revert heq
  decide

end FieldSearch

end BetaTrader
