import BetaTrader.Exchange.MarketDataRequests
import BetaTrader.Lib.Levels

/-!
# The fan-out of refreshes

`MarketDataPublisher` with its map from symbols to vectors of sessions and its vectors of
callbacks.  The map represents the subscriptions that have been made and not taken back,
and every refresh is given to every callback once for each of its addressees; but an
addressee is named in 32 of the 64 bits of its id.
-/

namespace BetaTrader

/-- The order of the keys in a map. -/
def Instrument.before (a b : Instrument) : Prop := a.ctorIdx < b.ctorIdx

instance : DecidableRel Instrument.before := fun a b =>
  inferInstanceAs (Decidable (a.ctorIdx < b.ctorIdx))

instance : IsStrictTotalOrder Instrument Instrument.before where
  irrefl := fun a => Nat.lt_irrefl a.ctorIdx
  trans := fun _ _ _ hab hbc => Nat.lt_trans hab hbc
  trichotomous := by
    intro a b hab hba
    have heq : a.ctorIdx = b.ctorIdx := Nat.le_antisymm (Nat.le_of_not_lt hba) (Nat.le_of_not_lt hab)
    cases a <;> cases b <;> first | rfl | cases heq

namespace MarketDataPublisher

/-- The members of the publisher that refreshes go through.  A callback is a value of `C`,
and `none` is a `std::function` that is not set. -/
structure Tables (C : Type) where
  /-- The entries of `mSubscriptions` in the order of their keys. -/
  subscriptions : List (Instrument × List SessionID)
  sessionIncrementalCallbacks : List (Option C)
  generalIncrementalCallbacks : List (Option C)

/-- The calls that a refresh leads to, with what is passed on in each of them. -/
structure Calls (C P : Type) where
  general : List (C × MarketDataIncrementalRefresh P)
  session : List (C × MarketDataIncrementalRefresh P)

/-- `if (cb) cb(refresh);` for each of the callbacks. -/
def callEach {C P : Type} (callbacks : List (Option C)) (refresh : MarketDataIncrementalRefresh P) :
    List (C × MarketDataIncrementalRefresh P) :=
  callbacks.filterMap fun callback => callback.map fun c => (c, refresh)

/-- The erasure from the vector of one symbol, and of its entry if it has become empty. -/
def eraseIn (symbol : Instrument) (sessionId : SessionID) :
    List (Instrument × List SessionID) → List (Instrument × List SessionID)
  | [] => []
  | (key, sessions) :: entries =>
      if key = symbol then
        if (sessions.filter (· ≠ sessionId)).isEmpty then entries
        else (key, sessions.filter (· ≠ sessionId)) :: entries
      else (key, sessions) :: eraseIn symbol sessionId entries

namespace Tables

variable {C P : Type} (tables : Tables C)

def empty : Tables C := ⟨[], [], []⟩

/-- What `mSubscriptions.find` leads to. -/
def sessionsOf (symbol : Instrument) : List SessionID :=
  (tables.subscriptions.find? fun entry => entry.1 = symbol).elim [] Prod.snd

def addSubscription (symbol : Instrument) (sessionId : SessionID) : Tables C :=
  if sessionId ∈ tables.sessionsOf symbol then tables
  else
    -- `operator[]` makes the entry if there is none
    { tables with
      subscriptions :=
        Levels.pushBack Instrument.before symbol sessionId tables.subscriptions }

def removeSubscription (symbol : Instrument) (sessionId : SessionID) : Tables C :=
  { tables with subscriptions := eraseIn symbol sessionId tables.subscriptions }

/-- The loop over all entries, which erases those that have become empty. -/
def removeSession (sessionId : SessionID) : Tables C :=
  { tables with subscriptions := Levels.prune (fun id => id ≠ sessionId) tables.subscriptions }

def subscribeToIncrementals (callback : Option C) : Tables C :=
  { tables with
    sessionIncrementalCallbacks := tables.sessionIncrementalCallbacks ++ [callback] }

def addGeneralIncrementalSubscriber (callback : Option C) : Tables C :=
  { tables with
    generalIncrementalCallbacks := tables.generalIncrementalCallbacks ++ [callback] }

/-- The session id is narrowed to the 32 bits of `targetSessionID`. -/
def publishIncremental (refresh : MarketDataIncrementalRefresh P) : Calls C P where
  general := callEach tables.generalIncrementalCallbacks refresh
  session :=
    if tables.sessionIncrementalCallbacks.isEmpty ∨ (tables.sessionsOf refresh.symbol).isEmpty then
      []
    else (tables.sessionsOf refresh.symbol).flatMap fun sessionId =>
      callEach tables.sessionIncrementalCallbacks
        { refresh with targetSessionID := some sessionId.toUInt32 }

end Tables

/-- A call that changes the tables. -/
inductive TableCall (C : Type) where
  | addSubscription (symbol : Instrument) (sessionId : SessionID)
  | removeSubscription (symbol : Instrument) (sessionId : SessionID)
  | removeSession (sessionId : SessionID)
  | subscribeToIncrementals (callback : Option C)
  | addGeneralIncrementalSubscriber (callback : Option C)

variable {C P : Type}

def Tables.step (tables : Tables C) : TableCall C → Tables C
  | .addSubscription symbol sessionId => tables.addSubscription symbol sessionId
  | .removeSubscription symbol sessionId => tables.removeSubscription symbol sessionId
  | .removeSession sessionId => tables.removeSession sessionId
  | .subscribeToIncrementals callback => tables.subscribeToIncrementals callback
  | .addGeneralIncrementalSubscriber callback => tables.addGeneralIncrementalSubscriber callback

/-- The tables of a new publisher after some calls. -/
def Tables.after (calls : List (TableCall C)) : Tables C := calls.foldl step .empty

/-! ## What the calls ask for -/

/-- The call takes the session's subscription of the symbol back. -/
def TableCall.Removes (symbol : Instrument) (id : SessionID) : TableCall C → Prop
  | .removeSubscription symbol' id' => symbol' = symbol ∧ id' = id
  | .removeSession id' => id' = id
  | _ => False

/-- The subscription has been made, and not been taken back since. -/
def Subscribed (calls : List (TableCall C)) (symbol : Instrument) (id : SessionID) : Prop :=
  ∃ made later, calls = made ++ .addSubscription symbol id :: later ∧
    ∀ call ∈ later, ¬call.Removes symbol id

/-- The map represents the subscriptions. -/
structure Represents (calls : List (TableCall C)) (tables : Tables C) : Prop where
  keys : (tables.subscriptions.map Prod.fst).Nodup
  pairs : ∀ symbol id, (∃ entry ∈ tables.subscriptions, entry.1 = symbol ∧ id ∈ entry.2) ↔
    Subscribed calls symbol id
  once : ∀ entry ∈ tables.subscriptions, entry.2.Nodup
  noEmpty : ∀ entry ∈ tables.subscriptions, entry.2 ≠ []

section Messages

variable [DecidableEq C]

/-- What a callback is given. -/
def messagesTo (c : C) (calls : List (C × MarketDataIncrementalRefresh P)) :
    List (MarketDataIncrementalRefresh P) :=
  (calls.filter fun call => call.1 = c).map Prod.snd

/-- The session that a message names. -/
def addressee (message : MarketDataIncrementalRefresh P) : Option SessionID :=
  message.targetSessionID.map UInt32.toUInt64

/-- A refresh is given unchanged to every general callback, and to every session callback
once for each subscribed session, each time as often as the callback is registered. -/
structure FansOut (calls : List (TableCall C)) (tables : Tables C)
    (refresh : MarketDataIncrementalRefresh P) : Prop where
  general : ∀ c, messagesTo c (tables.publishIncremental refresh).general =
    List.replicate (tables.generalIncrementalCallbacks.count (some c)) refresh
  subscribed : ∀ c id, Subscribed calls refresh.symbol id →
    (messagesTo c (tables.publishIncremental refresh).session).countP
      (fun message => addressee message = some id) =
        tables.sessionIncrementalCallbacks.count (some c)
  others : ∀ c, ∀ message ∈ messagesTo c (tables.publishIncremental refresh).session,
    ∃ id, addressee message = some id ∧ Subscribed calls refresh.symbol id
  unchanged : ∀ c, ∀ message ∈ messagesTo c (tables.publishIncremental refresh).session,
    { message with targetSessionID := refresh.targetSessionID } = refresh

/-- No session callback is set, or the ids of the subscribed sessions have 32 bits. -/
def IdsFit (calls : List (TableCall C)) (tables : Tables C) (symbol : Instrument) : Prop :=
  (∀ c, some c ∉ tables.sessionIncrementalCallbacks) ∨
    ∀ id, Subscribed calls symbol id → id.toNat < 2 ^ 32

end Messages

/-! ## The map and the subscriptions -/

section Entries

variable {entries : List (Instrument × List SessionID)} {symbol other : Instrument}
  {id : SessionID}

theorem sorted_iff : Levels.Sorted Instrument.before entries ↔
    (entries.map Prod.fst).Pairwise Instrument.before := List.pairwise_map.symm

theorem find_eq_level (h : Levels.Sorted Instrument.before entries) (symbol : Instrument) :
    (entries.find? fun entry => entry.1 = symbol).elim [] Prod.snd =
      Levels.level symbol entries := by
  induction entries with
  | nil => rfl
  | cons entry entries ih =>
      by_cases hkey : entry.1 = symbol
      · subst hkey
        rw [List.find?_cons_of_pos (by simp), Levels.level_head h]
        rfl
      · rw [List.find?_cons_of_neg (by simpa using hkey), ih h.of_cons, Levels.level_cons,
          if_neg hkey, List.nil_append]

theorem keys_eraseIn (symbol : Instrument) (id : SessionID)
    (entries : List (Instrument × List SessionID)) :
    ((eraseIn symbol id entries).map Prod.fst).Sublist (entries.map Prod.fst) := by
  induction entries with
  | nil => exact List.Sublist.refl []
  | cons entry entries ih =>
      rw [eraseIn]
      split_ifs
      · exact List.sublist_cons_self _ _
      · exact List.Sublist.refl _
      · exact ih.cons_cons entry.1

theorem sorted_eraseIn (h : Levels.Sorted Instrument.before entries) :
    Levels.Sorted Instrument.before (eraseIn symbol id entries) :=
  sorted_iff.mpr ((sorted_iff.mp h).sublist (keys_eraseIn symbol id entries))

theorem noEmpty_eraseIn (h : Levels.NoEmpty entries) :
    Levels.NoEmpty (eraseIn symbol id entries) := by
  induction entries with
  | nil => exact Levels.noEmpty_nil
  | cons entry entries ih =>
      obtain ⟨hentry, hentries⟩ := Levels.noEmpty_cons.mp h
      rw [eraseIn]
      split_ifs with hkey hempty
      · exact hentries
      · exact Levels.noEmpty_cons.mpr ⟨by simpa using hempty, hentries⟩
      · exact Levels.noEmpty_cons.mpr ⟨hentry, ih hentries⟩

theorem level_eraseIn (h : Levels.Sorted Instrument.before entries) :
    Levels.level other (eraseIn symbol id entries) =
      if other = symbol then (Levels.level other entries).filter (· ≠ id)
      else Levels.level other entries := by
  induction entries with
  | nil => simp [eraseIn]
  | cons entry entries ih =>
      obtain ⟨key, sessions⟩ := entry
      rw [eraseIn]
      by_cases hkey : key = symbol
      · subst hkey
        have hnone : Levels.level key entries = [] := by
          refine Levels.level_eq_nil fun later hlater heq => ?_
          have hbefore : Instrument.before key later.1 := List.rel_of_pairwise_cons h hlater
          exact irrefl_of Instrument.before key (heq ▸ hbefore)
        rw [if_pos rfl]
        by_cases hother : other = key
        · subst hother
          rw [if_pos rfl, Levels.level_head h]
          split_ifs with hempty
          · rw [hnone, List.isEmpty_iff.mp hempty]
          · rw [Levels.level_cons, if_pos rfl, hnone, List.append_nil]
        · rw [if_neg hother, Levels.level_cons, if_neg (Ne.symm hother), List.nil_append]
          split_ifs
          · rfl
          · rw [Levels.level_cons, if_neg (Ne.symm hother), List.nil_append]
      · rw [if_neg hkey, Levels.level_cons, Levels.level_cons, ih h.of_cons]
        by_cases hother : other = symbol
        · subst hother
          rw [if_pos rfl, if_pos rfl, if_neg hkey, List.nil_append, List.nil_append]
        · rw [if_neg hother, if_neg hother]

end Entries

/-- The publisher whose lists are those in the map. -/
def Tables.publisher (tables : Tables C) : MarketDataPublisher := ⟨tables.sessionsOf⟩

/-- What holds between two calls. -/
structure Tables.Tidy (tables : Tables C) : Prop where
  sorted : Levels.Sorted Instrument.before tables.subscriptions
  noEmpty : Levels.NoEmpty tables.subscriptions
  nodup : ∀ symbol, (tables.sessionsOf symbol).Nodup

section Steps

variable {tables : Tables C} {symbol : Instrument} {id : SessionID}

theorem publisher_addSubscription (h : tables.Tidy) :
    (tables.addSubscription symbol id).publisher = tables.publisher.addSubscription symbol id := by
  rw [Tables.addSubscription, MarketDataPublisher.addSubscription]
  by_cases hmem : id ∈ tables.sessionsOf symbol
  · rw [if_pos hmem]
    exact (if_pos hmem).symm
  · rw [if_neg hmem]
    refine Eq.trans ?_ (if_neg hmem).symm
    apply congrArg MarketDataPublisher.mk
    funext other
    have hlevel (symbol : Instrument) : tables.sessionsOf symbol =
        Levels.level symbol tables.subscriptions := find_eq_level h.sorted symbol
    have hpushed := find_eq_level (Levels.sorted_pushBack Instrument.before symbol id h.sorted)
      other
    refine hpushed.trans ?_
    rw [Levels.level_pushBack h.sorted, Function.update_apply, ← hlevel other]
    by_cases hother : other = symbol
    · rw [if_pos hother, if_pos hother, hother]
      rfl
    · rw [if_neg hother, if_neg hother, List.append_nil]
      rfl

theorem publisher_removeSubscription (h : tables.Tidy) :
    (tables.removeSubscription symbol id).publisher =
      tables.publisher.removeSubscription symbol id := by
  apply congrArg MarketDataPublisher.mk
  funext other
  have hlevel (symbol : Instrument) : tables.publisher.subscriptions symbol =
      Levels.level symbol tables.subscriptions := find_eq_level h.sorted symbol
  refine (find_eq_level (sorted_eraseIn h.sorted) other).trans ?_
  rw [level_eraseIn h.sorted, Function.update_apply, hlevel, hlevel]
  by_cases hother : other = symbol
  · rw [if_pos hother, if_pos hother, hother]
  · rw [if_neg hother, if_neg hother]

theorem publisher_removeSession (h : tables.Tidy) :
    (tables.removeSession id).publisher = tables.publisher.removeSession id := by
  apply congrArg MarketDataPublisher.mk
  funext other
  refine (find_eq_level (Levels.sorted_prune h.sorted) other).trans ?_
  rw [Levels.level_prune, ← find_eq_level h.sorted other]
  rfl

/-- What a call does to the lists of sessions. -/
theorem mem_sessionsOf_step (h : tables.Tidy) (call : TableCall C) :
    id ∈ (tables.step call).sessionsOf symbol ↔
      call = .addSubscription symbol id ∨
        id ∈ tables.sessionsOf symbol ∧ ¬call.Removes symbol id := by
  have hsessions (tables : Tables C) : tables.sessionsOf = tables.publisher.subscriptions := rfl
  cases call with
  | addSubscription symbol' id' =>
      rw [Tables.step, hsessions, publisher_addSubscription h, mem_addSubscription]
      simp only [TableCall.addSubscription.injEq, TableCall.Removes, not_false_eq_true, and_true,
        hsessions, or_comm, eq_comm]
  | removeSubscription symbol' id' =>
      rw [Tables.step, hsessions, publisher_removeSubscription h, mem_removeSubscription]
      simp only [TableCall.Removes, reduceCtorEq, false_or, hsessions, eq_comm]
  | removeSession id' =>
      rw [Tables.step, hsessions, publisher_removeSession h, mem_removeSession]
      simp only [TableCall.Removes, reduceCtorEq, false_or, hsessions, ne_eq, eq_comm]
  | subscribeToIncrementals callback =>
      simp only [TableCall.Removes, reduceCtorEq, false_or, not_false_eq_true, and_true]
      rfl
  | addGeneralIncrementalSubscriber callback =>
      simp only [TableCall.Removes, reduceCtorEq, false_or, not_false_eq_true, and_true]
      rfl

theorem tidy_step (h : tables.Tidy) (call : TableCall C) : (tables.step call).Tidy := by
  have hsessions (tables : Tables C) : tables.sessionsOf = tables.publisher.subscriptions := rfl
  cases call with
  | addSubscription symbol id =>
      refine ⟨?_, ?_, fun other => ?_⟩
      · rw [Tables.step, Tables.addSubscription]
        split_ifs
        · exact h.sorted
        · exact Levels.sorted_pushBack _ _ _ h.sorted
      · rw [Tables.step, Tables.addSubscription]
        split_ifs
        · exact h.noEmpty
        · exact Levels.noEmpty_pushBack _ _ _ h.noEmpty
      · rw [Tables.step, hsessions, publisher_addSubscription h,
          MarketDataPublisher.addSubscription]
        split_ifs with hmem
        · exact h.nodup other
        · dsimp only
          rw [Function.update_apply]
          split_ifs
          · exact List.Nodup.append (h.nodup symbol) (List.nodup_singleton id)
              (by simpa using hmem)
          · exact h.nodup other
  | removeSubscription symbol id =>
      refine ⟨sorted_eraseIn h.sorted, noEmpty_eraseIn h.noEmpty, fun other => ?_⟩
      rw [Tables.step, hsessions, publisher_removeSubscription h,
        MarketDataPublisher.removeSubscription]
      dsimp only
      rw [Function.update_apply]
      split_ifs
      · exact (h.nodup symbol).filter _
      · exact h.nodup other
  | removeSession id =>
      refine ⟨Levels.sorted_prune h.sorted, Levels.noEmpty_prune _, fun other => ?_⟩
      rw [Tables.step, hsessions, publisher_removeSession h]
      exact (h.nodup other).filter _
  | subscribeToIncrementals callback => exact ⟨h.sorted, h.noEmpty, h.nodup⟩
  | addGeneralIncrementalSubscriber callback => exact ⟨h.sorted, h.noEmpty, h.nodup⟩

theorem subscribed_concat {calls : List (TableCall C)} {call : TableCall C} :
    Subscribed (calls ++ [call]) symbol id ↔ call = .addSubscription symbol id ∨
      Subscribed calls symbol id ∧ ¬call.Removes symbol id := by
  constructor
  · rintro ⟨made, later, heq, hlater⟩
    rcases List.eq_nil_or_concat' later with rfl | ⟨later, last, rfl⟩
    · exact Or.inl (List.singleton_inj.mp (List.append_inj' heq rfl).2)
    · have hsplit : calls ++ [call] =
          (made ++ .addSubscription symbol id :: later) ++ [last] := by
        rw [heq, List.append_assoc, List.cons_append]
      obtain ⟨rfl, hlast⟩ := List.append_inj' hsplit rfl
      obtain rfl := List.singleton_inj.mp hlast
      exact Or.inr ⟨⟨made, later, rfl, fun c hc => hlater c (List.mem_append_left _ hc)⟩,
        hlater call List.mem_concat_self⟩
  · rintro (rfl | ⟨⟨made, later, rfl, hlater⟩, hkeeps⟩)
    · exact ⟨calls, [], rfl, by simp⟩
    · refine ⟨made, later ++ [call], by simp, ?_⟩
      simpa [or_imp, forall_and] using ⟨hlater, hkeeps⟩

end Steps

theorem tidy_after (calls : List (TableCall C)) : (Tables.after calls).Tidy := by
  induction calls using List.reverseRecOn with
  | nil => exact ⟨List.Pairwise.nil, Levels.noEmpty_nil, fun _ => List.nodup_nil⟩
  | append_singleton calls call ih =>
      rw [Tables.after, List.foldl_concat]
      exact tidy_step ih call

/-- The lists of sessions are those that have subscribed. -/
theorem mem_sessionsOf_after {calls : List (TableCall C)} {symbol : Instrument}
    {id : SessionID} :
    id ∈ (Tables.after calls).sessionsOf symbol ↔ Subscribed calls symbol id := by
  induction calls using List.reverseRecOn with
  | nil =>
      refine iff_of_false List.not_mem_nil ?_
      rintro ⟨made, later, heq, _⟩
      exact absurd heq.symm (by simp)
  | append_singleton calls call ih =>
      rw [subscribed_concat, ← ih, Tables.after, List.foldl_concat]
      exact mem_sessionsOf_step (tidy_after calls) call

theorem represents_after (calls : List (TableCall C)) :
    Represents calls (Tables.after calls) where
  keys := by
    apply (sorted_iff.mp (tidy_after calls).sorted).imp
    rintro a b hab rfl
    exact irrefl_of Instrument.before a hab
  pairs := by
    intro symbol id
    rw [← mem_sessionsOf_after, Tables.sessionsOf, find_eq_level (tidy_after calls).sorted]
    exact Levels.mem_level.symm
  once := by
    intro entry hentry
    obtain ⟨_, hlevel⟩ :=
      (Levels.mem_iff_level (tidy_after calls).sorted (tidy_after calls).noEmpty).mp hentry
    have hnodup := (tidy_after calls).nodup entry.1
    rwa [Tables.sessionsOf, find_eq_level (tidy_after calls).sorted, hlevel] at hnodup
  noEmpty := (tidy_after calls).noEmpty

/-! ## The messages -/

section Messages

variable [DecidableEq C] {calls : List (TableCall C)} {tables : Tables C}
  {refresh message : MarketDataIncrementalRefresh P} {c : C} {id : SessionID}

/-- The copy of a refresh for a session. -/
def targeted (refresh : MarketDataIncrementalRefresh P) (id : SessionID) :
    MarketDataIncrementalRefresh P :=
  { refresh with targetSessionID := some id.toUInt32 }

theorem toUInt32_toUInt64_iff : id.toUInt32.toUInt64 = id ↔ id.toNat < 2 ^ 32 := by
  rw [← UInt64.toNat_inj, UInt32.toNat_toUInt64, UInt64.toNat_toUInt32]
  exact Nat.mod_eq_iff_lt (by decide)

theorem messagesTo_callEach (c : C) (callbacks : List (Option C))
    (refresh : MarketDataIncrementalRefresh P) :
    messagesTo c (callEach callbacks refresh) =
      List.replicate (callbacks.count (some c)) refresh := by
  induction callbacks with
  | nil => rfl
  | cons callback callbacks ih =>
      cases callback with
      | none => simpa [callEach, messagesTo] using ih
      | some d =>
          by_cases hd : d = c
          · subst hd
            simpa [callEach, messagesTo, List.replicate_succ] using ih
          · simpa [callEach, messagesTo, hd] using ih

theorem messagesTo_flatMap {sessions : List SessionID}
    {f : SessionID → List (C × MarketDataIncrementalRefresh P)} :
    messagesTo c (sessions.flatMap f) = sessions.flatMap fun id => messagesTo c (f id) := by
  rw [messagesTo, List.filter_flatMap, List.map_flatMap]
  rfl

/-- Nothing is lost by looking at the vectors before the loop. -/
theorem messagesTo_session (tables : Tables C) (refresh : MarketDataIncrementalRefresh P) (c : C) :
    messagesTo c (tables.publishIncremental refresh).session =
      (tables.sessionsOf refresh.symbol).flatMap fun id =>
        List.replicate (tables.sessionIncrementalCallbacks.count (some c))
          (targeted refresh id) := by
  rw [Tables.publishIncremental]
  dsimp only
  split_ifs with hempty
  · rcases hempty with hnone | hnone
    · simp [List.isEmpty_iff.mp hnone, messagesTo]
    · simp [List.isEmpty_iff.mp hnone, messagesTo]
  · simp only [messagesTo_flatMap, messagesTo_callEach]
    rfl

theorem mem_messagesTo_session :
    message ∈ messagesTo c (tables.publishIncremental refresh).session ↔
      some c ∈ tables.sessionIncrementalCallbacks ∧
        ∃ id ∈ tables.sessionsOf refresh.symbol, message = targeted refresh id := by
  simp only [messagesTo_session, List.mem_flatMap, List.mem_replicate, ne_eq,
    List.count_eq_zero, not_not]
  constructor
  · rintro ⟨id, hid, hset, rfl⟩
    exact ⟨hset, id, hid, rfl⟩
  · rintro ⟨hset, id, hid, rfl⟩
    exact ⟨id, hid, hset, rfl⟩

theorem addressee_targeted : addressee (targeted refresh id) = some id.toUInt32.toUInt64 := rfl

theorem countP_addressee {sessions : List SessionID} (n : ℕ)
    (hfit : ∀ id ∈ sessions, id.toNat < 2 ^ 32) :
    (sessions.flatMap fun id => List.replicate n (targeted refresh id)).countP
      (fun message => addressee message = some id) = sessions.count id * n := by
  induction sessions with
  | nil => simp
  | cons first sessions ih =>
      obtain ⟨hfirst, hsessions⟩ := List.forall_mem_cons.mp hfit
      rw [List.flatMap_cons, List.countP_append, ih hsessions, List.countP_replicate,
        addressee_targeted, toUInt32_toUInt64_iff.mpr hfirst, List.count_cons]
      by_cases hid : first = id
      · simp [hid, Nat.add_mul, Nat.add_comm]
      · simp [hid]

end Messages

namespace Sample

/-- A session whose id needs more than 32 bits. -/
def wideCalls : List (TableCall Unit) :=
  [.subscribeToIncrementals (some ()), .addSubscription .eurusd 4294967297]

def eurusdRefresh : MarketDataIncrementalRefresh Double where
  targetSessionID := none
  mdReqID := ""
  symbol := .eurusd
  entries := []

end Sample

end MarketDataPublisher

end BetaTrader
