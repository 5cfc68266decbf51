import BetaTrader.Common.Types
import BetaTrader.Lib.Calendar
import BetaTrader.Lib.Decimal
import BetaTrader.Lib.Text
import Mathlib.Logic.Function.Basic

/-!
# FIX fields

The parts of `common_fix` that take messages apart.  A text on the wire is the
list of its bytes, each as the character with that code.  `none` stands for an
exception.
-/

namespace BetaTrader

abbrev Message := List Char

/-- `fix::SOH`. -/
def soh : Char := Char.ofNat 1

/-- The tags that the gateway reads or writes. -/
inductive Tag where
  | beginString | bodyLength | msgType | senderCompID | targetCompID | msgSeqNum | sendingTime
  | clOrdID | origClOrdID | symbol | side | ordType | orderQty | price | timeInForce
  | orderID | text | transactTime | checkSum
  | mdReqID | subscriptionRequestType | marketDepth | noRelatedSym
  deriving DecidableEq

def Tag.number : Tag → ℕ
  | .beginString => 8
  | .bodyLength => 9
  | .msgType => 35
  | .senderCompID => 49
  | .targetCompID => 56
  | .msgSeqNum => 34
  | .sendingTime => 52
  | .clOrdID => 11
  | .origClOrdID => 41
  | .symbol => 55
  | .side => 54
  | .ordType => 40
  | .orderQty => 38
  | .price => 44
  | .timeInForce => 59
  | .orderID => 37
  | .text => 58
  | .transactTime => 60
  | .checkSum => 10
  | .mdReqID => 262
  | .subscriptionRequestType => 263
  | .marketDepth => 264
  | .noRelatedSym => 146

namespace FixUtils

/-- `std::map<int, std::string_view>`. -/
abbrev TagMap := ℤ → Option Message

/-- `result[tag] = value`. -/
def TagMap.insert (map : TagMap) (tag : ℤ) (value : Message) : TagMap :=
  Function.update map tag (some value)

/-- The body of the loop of `splitToMap`; a token without `=` is passed over. -/
def addField (map : TagMap) (token : Message) : Option TagMap :=
  match Text.splitFirst '=' token with
  | none => some map
  | some (tag, value) => (Strtoul.stoi tag).map (map.insert · value)

/-- Of several fields with one tag the last stays.  What follows the last
delimiter is not read. -/
def splitToMap (s : Message) (delimiter : Char) : Option TagMap :=
  (Text.pieces delimiter s).foldlM addField fun _ => none

/-- `map::at`. -/
def TagMap.get (map : TagMap) (tag : Tag) : Option Message := map tag.number

/-- `front()` of a value.  The view of an empty value has the delimiter behind
it, and that is what is read. -/
def front (value : Message) : Char := value.headD soh

def charToOrderSide (c : Char) : Option OrderSide :=
  if c = '1' then some .buy else if c = '2' then some .sell else none

def charToOrderType (c : Char) : Option OrderType :=
  if c = '1' then some .market else if c = '2' then some .limit else none

/-- A number of the format, whose digits are all there. -/
def getNumber (digits : List Char) (low high : ℕ) : Option ℤ :=
  let n := Strtoul.value digits
  if digits.all Char.isDigit ∧ low ≤ n ∧ n ≤ high then some n else none

/-- `std::get_time` with the format `%Y%m%d-%H:%M:%S`. -/
def getTime : List Char → Option Calendar.DateTime
  | [y₁, y₂, y₃, y₄, mo₁, mo₂, d₁, d₂, '-', h₁, h₂, ':', mi₁, mi₂, ':', s₁, s₂] => do
      let year ← getNumber [y₁, y₂, y₃, y₄] 0 9999
      let month ← getNumber [mo₁, mo₂] 1 12
      let day ← getNumber [d₁, d₂] 1 31
      let hour ← getNumber [h₁, h₂] 0 23
      let minute ← getNumber [mi₁, mi₂] 0 59
      let second ← getNumber [s₁, s₂] 0 60
      return { year := year, month := month, day := day, hour := hour, minute := minute,
               second := second }
  | _ => none

/-- `mktime` takes the fields as local time; `utcOffset` is what local time is
ahead of UTC, in seconds. -/
def parseTimestamp (utcOffset : ℤ) (timestampStr : Message) : Option Timestamp := do
  let tm ← getTime (timestampStr.take 17)
  let millis ← match Text.splitFirst '.' timestampStr with
    | none => some 0
    | some (_, fraction) => Strtoul.stoi (fraction.take 3)
  return (Calendar.timegm tm - utcOffset) * 1000000000 + millis * 1000000

/-! ## Messages that are put together from fields -/

/-- `tag=value`. -/
def field (tag : ℕ) (value : Message) : Message := Decimal.natText tag ++ '=' :: value

theorem notMem_natText {c : Char} (hc : c.isDigit = false) (n : ℕ) : c ∉ Decimal.natText n :=
  fun hmem => by simp [Decimal.isDigit_of_mem_natText hmem] at hc

theorem notMem_field {c : Char} (hdigit : c.isDigit = false) (hequals : c ≠ '=') {tag : ℕ}
    {value : Message} (h : c ∉ value) : c ∉ field tag value := by
  simp only [field, List.mem_append, List.mem_cons, not_or]
  exact ⟨notMem_natText hdigit tag, hequals, h⟩

theorem soh_notMem_field {tag : ℕ} {value : Message} (h : soh ∉ value) : soh ∉ field tag value :=
  notMem_field (by decide) (by decide) h

theorem addField_field (map : TagMap) {tag : ℕ} (htag : tag < 2 ^ 31) (value : Message) :
    addField map (field tag value) = some (map.insert tag value) := by
  rw [addField, field, Text.splitFirst_append (notMem_natText (by decide) tag)]
  simp [Decimal.stoi_natText htag]

/-- What stands in front of the first `=` of a token is a number. -/
def Splits (s : Message) (delimiter : Char) : Prop :=
  ∀ token ∈ Text.pieces delimiter s, ∀ tag value, Text.splitFirst '=' token = some (tag, value) →
    ∃ n, Strtoul.stoi tag = some n

theorem addField_isSome_iff (map : TagMap) (token : Message) : (addField map token).isSome ↔
    ∀ tag value, Text.splitFirst '=' token = some (tag, value) →
      ∃ n, Strtoul.stoi tag = some n := by
  rw [addField]
  cases Text.splitFirst '=' token with
  | none => simp
  | some parts =>
      obtain ⟨tag, value⟩ := parts
      simp [Option.isSome_iff_exists]

theorem splitToMap_isSome_iff (s : Message) (delimiter : Char) :
    (splitToMap s delimiter).isSome ↔ Splits s delimiter := by
  have hfold (tokens : List Message) (map : TagMap) : (tokens.foldlM addField map).isSome ↔
      ∀ token ∈ tokens, ∀ tag value, Text.splitFirst '=' token = some (tag, value) →
        ∃ n, Strtoul.stoi tag = some n := by
    induction tokens generalizing map with
    | nil => simp
    | cons token tokens ih =>
        rw [List.foldlM_cons, List.forall_mem_cons, ← addField_isSome_iff map]
        cases addField map token with
        | none => simp
        | some map' => simpa using ih map'
  exact hfold _ _

@[simp] theorem insert_self (map : TagMap) (tag : ℤ) (value : Message) :
    map.insert tag value tag = some value :=
  Function.update_self _ _ _

theorem insert_of_ne (map : TagMap) {tag tag' : ℤ} (h : tag' ≠ tag) (value : Message) :
    map.insert tag value tag' = map tag' :=
  Function.update_of_ne h _ _

/-! ## Messages that are put together from tokens -/

/-- What stands before a delimiter: a field, or a text that is none. -/
inductive Token where
  | field (tag : ℕ) (value : Message)
  | junk (text : Message)
  deriving DecidableEq

namespace Token

def text : Token → Message
  | .field tag value => FixUtils.field tag value
  | .junk text => text

/-- The tag is one that an `int` holds, and the delimiter is not part of the token. -/
def Fits (delimiter : Char) : Token → Prop
  | .field tag value => tag < 2 ^ 31 ∧ delimiter ∉ value
  | .junk text => '=' ∉ text ∧ delimiter ∉ text

instance (delimiter : Char) : DecidablePred (Fits delimiter)
  | .field tag value => inferInstanceAs (Decidable (tag < 2 ^ 31 ∧ delimiter ∉ value))
  | .junk text => inferInstanceAs (Decidable ('=' ∉ text ∧ delimiter ∉ text))

theorem notMem_text {delimiter : Char} (hdigit : delimiter.isDigit = false)
    (hequals : delimiter ≠ '=') {token : Token} (h : token.Fits delimiter) :
    delimiter ∉ token.text := by
  cases token with
  | field tag value => exact notMem_field hdigit hequals h.2
  | junk text => exact h.2

end Token

/-- What a token adds to the map. -/
def TagMap.addToken (map : TagMap) : Token → TagMap
  | .field tag value => map.insert tag value
  | .junk _ => map

theorem addField_text (map : TagMap) {delimiter : Char} {token : Token}
    (h : token.Fits delimiter) : addField map token.text = some (map.addToken token) := by
  cases token with
  | field tag value => exact addField_field map h.1 value
  | junk text =>
      rw [addField, Token.text, Text.splitFirst_eq_none_iff.mpr h.1]
      rfl

/-- The map of a message is filled token by token. -/
theorem foldlM_addField {delimiter : Char} {tokens : List Token}
    (h : ∀ token ∈ tokens, token.Fits delimiter) (map : TagMap) :
    (tokens.map Token.text).foldlM addField map = some (tokens.foldl TagMap.addToken map) := by
  induction tokens generalizing map with
  | nil => rfl
  | cons token tokens ih =>
      obtain ⟨htoken, htokens⟩ := List.forall_mem_cons.mp h
      rw [List.map_cons, List.foldlM_cons, addField_text map htoken, Option.bind_eq_bind,
        Option.bind_some, ih htokens, List.foldl_cons]

theorem splitToMap_close_append {delimiter : Char} (hdigit : delimiter.isDigit = false)
    (hequals : delimiter ≠ '=') {tokens : List Token}
    (h : ∀ token ∈ tokens, token.Fits delimiter) {tail : Message} (htail : delimiter ∉ tail) :
    splitToMap (Text.close delimiter (tokens.map Token.text) ++ tail) delimiter =
      some (tokens.foldl TagMap.addToken fun _ => none) := by
  rw [splitToMap, Text.pieces_close_append _ htail, foldlM_addField h]
  intro text htext
  obtain ⟨token, htoken, rfl⟩ := List.mem_map.mp htext
  exact Token.notMem_text hdigit hequals (h token htoken)

theorem splitToMap_close {fields : List (ℕ × Message)} (htag : ∀ f ∈ fields, f.1 < 2 ^ 31)
    (hvalue : ∀ f ∈ fields, soh ∉ f.2) :
    splitToMap (Text.close soh (fields.map fun f => field f.1 f.2)) soh =
      some (fields.foldl (fun map f => TagMap.insert map f.1 f.2) fun _ => none) := by
  have hfits : ∀ token ∈ fields.map fun f => Token.field f.1 f.2, token.Fits soh := by
    intro token htoken
    obtain ⟨f, hf, rfl⟩ := List.mem_map.mp htoken
    exact ⟨htag f hf, hvalue f hf⟩
  have hsplit := splitToMap_close_append (by decide) (by decide) hfits (List.not_mem_nil (a := soh))
  rwa [List.append_nil, List.map_map, List.foldl_map] at hsplit

/-- The value is that of the last field with the tag. -/
def IsLastValue (tokens : List Token) (tag : ℤ) (value : Message) : Prop :=
  ∃ (n : ℕ) (before after : List Token), tag = n ∧ tokens = before ++ .field n value :: after ∧
    ∀ value', Token.field n value' ∉ after

theorem isLastValue_concat_iff {tokens : List Token} {token : Token} {tag : ℤ} {value : Message} :
    IsLastValue (tokens ++ [token]) tag value ↔
      (∃ n : ℕ, tag = n ∧ token = .field n value) ∨
        (∀ (n : ℕ) value', tag = n → token ≠ .field n value') ∧ IsLastValue tokens tag value := by
  constructor
  · rintro ⟨n, before, after, htag, heq, hlast⟩
    rcases List.eq_nil_or_concat after with rfl | ⟨after, last, rfl⟩
    · exact Or.inl ⟨n, htag, (List.append_inj' heq rfl).2 |> List.singleton_inj.mp⟩
    · rw [List.concat_eq_append, ← List.cons_append, ← List.append_assoc] at heq
      obtain ⟨htokens, hlasts⟩ := List.append_inj' heq rfl
      obtain rfl := List.singleton_inj.mp hlasts
      refine Or.inr ⟨fun m value' hm htoken => ?_, n, before, after, htag, htokens, ?_⟩
      · have hmn : m = n := by omega
        exact hlast value' (by simp [htoken, hmn])
      · exact fun value' hmem => hlast value' (by simp [hmem])
  · rintro (⟨n, htag, rfl⟩ | ⟨hother, n, before, after, htag, rfl, hlast⟩)
    · exact ⟨n, tokens, [], htag, rfl, by simp⟩
    · refine ⟨n, before, after ++ [token], htag, by simp, fun value' hmem => ?_⟩
      rcases List.mem_append.mp hmem with hmem | hmem
      · exact hlast value' hmem
      · exact hother n value' htag (List.mem_singleton.mp hmem).symm

/-- The map that the tokens fill has the last values, and nothing else. -/
theorem foldl_addToken_eq_some_iff {tokens : List Token} {tag : ℤ} {value : Message} :
    tokens.foldl TagMap.addToken (fun _ => none) tag = some value ↔
      IsLastValue tokens tag value := by
  induction tokens using List.reverseRecOn with
  | nil => simp [IsLastValue]
  | append_singleton tokens token ih =>
      rw [List.foldl_append, List.foldl_cons, List.foldl_nil, isLastValue_concat_iff, ← ih]
      cases token with
      | field n last =>
          by_cases htag : tag = n
          · subst htag
            simp [TagMap.addToken, eq_comm]
          · have hnot : ¬∃ m : ℕ, tag = m ∧ Token.field n last = .field m value := by
              rintro ⟨m, hm, heq⟩
              cases heq
              exact htag hm
            rw [TagMap.addToken, insert_of_ne _ htag, or_iff_right hnot, and_iff_right]
            rintro m value' hm heq
            cases heq
            exact htag hm
      | junk text => simp [TagMap.addToken]

/-- Splitting is the inverse of joining. -/
theorem splitToMap_joined {delimiter : Char} (hdigit : delimiter.isDigit = false)
    (hequals : delimiter ≠ '=') {tokens : List Token}
    (htokens : ∀ token ∈ tokens, token.Fits delimiter) {tail : Message}
    (htail : delimiter ∉ tail) :
    ∃ map, splitToMap (Text.close delimiter (tokens.map Token.text) ++ tail) delimiter = some map ∧
      ∀ tag value, map tag = some value ↔ IsLastValue tokens tag value :=
  ⟨_, splitToMap_close_append hdigit hequals htokens htail, fun _ _ => foldl_addToken_eq_some_iff⟩

/-- A tag that comes twice, an empty value, one with `=` in it, and an unterminated field. -/
theorem splitToMap_joined_sample :
    let tokens : List Token := [.field 8 "FIX.4.4".toList, .field 58 "a=b".toList,
      .junk "INVALID_TOKEN".toList, .field 35 "8".toList, .field 58 []]
    ∃ map, splitToMap (Text.close '|' (tokens.map Token.text) ++ "10=128".toList) '|' = some map ∧
      ∀ tag value, map tag = some value ↔ IsLastValue tokens tag value :=
  splitToMap_joined (by decide) (by decide) (by decide) (by decide)

end FixUtils

end BetaTrader
