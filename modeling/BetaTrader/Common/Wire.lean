import BetaTrader.Common.Timestamps

/-!
# Reports and market data on the wire

The converters of the exchange and the parser of the client share the tags, the
way of counting the checksum, and the form of a message: fields, the last of
which is the checksum.
-/

namespace BetaTrader

open Decimal

/-! ## Tags of reports and market data -/

namespace Tag

abbrev execID : ℕ := 17
abbrev ordStatus : ℕ := 39
abbrev cumQty : ℕ := 14
abbrev leavesQty : ℕ := 151
abbrev lastPx : ℕ := 31
abbrev lastQty : ℕ := 32
abbrev mdUpdateAction : ℕ := 279
abbrev mdEntryType : ℕ := 269
abbrev mdEntryPx : ℕ := 270
abbrev mdEntrySize : ℕ := 271
abbrev mdEntryTime : ℕ := 273
abbrev noMDEntries : ℕ := 268
abbrev mdEntryPositionNo : ℕ := 290

end Tag

namespace Wire

open OutboundMessageBuilder

/-- The characters, each cast to `unsigned int`, are added up in 32 bits. -/
def checksum (s : Message) : ℕ :=
  (s.map fun c => (charValue c % 2 ^ 32).toNat).sum % 2 ^ 32 % 256

theorem checksum_lt (s : Message) : checksum s < 256 := Nat.mod_lt _ (by decide)

/-- The signs of the characters do not matter. -/
theorem checksum_eq (s : Message) : checksum s = (s.map Char.toNat).sum % 256 := by
  have hsum : (s.map fun c => (charValue c % 2 ^ 32).toNat).sum % 256 =
      (s.map Char.toNat).sum % 256 := by
    induction s with
    | nil => rfl
    | cons c s ih =>
        have hc : (charValue c % 2 ^ 32).toNat % 256 = c.toNat % 256 := by
          unfold charValue
          split_ifs <;> omega
        simp only [List.map_cons, List.sum_cons]
        omega
  rw [checksum, Nat.mod_mod_of_dvd _ (by decide), hsum]

/-- The fields with the checksum behind them. -/
def sealed (fields : List (ℕ × Message)) : List (ℕ × Message) :=
  fields ++ [(Tag.checkSum.number, pad 3 (natText (checksum (ofFields fields))))]

variable {fields : List (ℕ × Message)} {tag : ℕ} {value : Message}

/-! ## The fields that are read -/

/-- The map that `splitToMap` makes of the fields. -/
def mapOf (fields : List (ℕ × Message)) : FixUtils.TagMap :=
  fields.foldl (fun map f => FixUtils.TagMap.insert map f.1 f.2) fun _ => none

theorem splitToMap_ofFields (htag : ∀ f ∈ fields, f.1 < 2 ^ 31) (hvalue : ∀ f ∈ fields, soh ∉ f.2) :
    FixUtils.splitToMap (ofFields fields) soh = some (mapOf fields) :=
  FixUtils.splitToMap_close htag hvalue

theorem foldl_insert_of_notMem (map : FixUtils.TagMap) (h : tag ∉ fields.map Prod.fst) :
    fields.foldl (fun map f => FixUtils.TagMap.insert map f.1 f.2) map tag = map tag := by
  induction fields generalizing map with
  | nil => rfl
  | cons f fields ih =>
      rw [List.map_cons, List.mem_cons, not_or] at h
      rw [List.foldl_cons, ih _ h.2, FixUtils.insert_of_ne _ (by exact_mod_cast h.1)]

theorem mapOf_of_notMem (h : tag ∉ fields.map Prod.fst) : mapOf fields tag = none :=
  foldl_insert_of_notMem _ h

/-- The last field of a tag is found. -/
theorem mapOf_append_cons (before : List (ℕ × Message)) (h : tag ∉ fields.map Prod.fst) :
    mapOf (before ++ (tag, value) :: fields) tag = some value := by
  rw [mapOf, List.foldl_append, List.foldl_cons, foldl_insert_of_notMem _ h, FixUtils.insert_self]

/-- A tag that comes once is found. -/
theorem mapOf_of_mem (hnodup : (fields.map Prod.fst).Nodup) (h : (tag, value) ∈ fields) :
    mapOf fields tag = some value := by
  obtain ⟨before, behind, rfl⟩ := List.append_of_mem h
  rw [List.map_append, List.map_cons] at hnodup
  exact mapOf_append_cons before (List.nodup_cons.mp hnodup.of_append_right).1

/-! ## Values that look like nothing -/

/-- Neither a separator nor an equals sign. -/
structure Inert (value : Message) : Prop where
  soh : soh ∉ value
  equals : '=' ∉ value

namespace Inert

theorem of_isDigit {digits : Message} (h : ∀ c ∈ digits, c.isDigit = true) : Inert digits where
  soh := fun hmem => absurd (h _ hmem) (by decide)
  equals := fun hmem => absurd (h _ hmem) (by decide)

theorem natText (n : ℕ) : Inert (natText n) := of_isDigit fun _ => isDigit_of_mem_natText

theorem intText (n : ℤ) : Inert (intText n) where
  soh := FixUtils.notMem_intText (by decide) (by decide) n
  equals := FixUtils.notMem_intText (by decide) (by decide) n

theorem pad (h : Inert value) (width : ℕ) : Inert (pad width value) where
  soh := FixUtils.notMem_pad (by decide) h.soh width
  equals := FixUtils.notMem_pad (by decide) h.equals width

theorem cons {c : Char} (hsoh : BetaTrader.soh ≠ c) (hequals : '=' ≠ c) (h : Inert value) :
    Inert (c :: value) where
  soh := List.not_mem_cons_of_ne_of_not_mem hsoh h.soh
  equals := List.not_mem_cons_of_ne_of_not_mem hequals h.equals

theorem append {value' : Message} (h : Inert value) (h' : Inert value') :
    Inert (value ++ value') where
  soh := fun hmem => (List.mem_append.mp hmem).elim h.soh h'.soh
  equals := fun hmem => (List.mem_append.mp hmem).elim h.equals h'.equals

theorem fixedText (digits : ℕ) (x : Double) : Inert (fixedText digits x) := by
  cases x with
  | finite q =>
      have htext (m k : ℕ) :
          Inert (Decimal.natText m ++ '.' :: Decimal.pad digits (Decimal.natText k)) :=
        (natText m).append (cons (by decide) (by decide) ((natText k).pad digits))
      simp only [Decimal.fixedText]
      split_ifs
      · exact cons (by decide) (by decide) (htext _ _)
      · exact htext _ _
  | posInf => exact ⟨by simp [Decimal.fixedText, BetaTrader.soh], by simp [Decimal.fixedText]⟩
  | negInf => exact ⟨by simp [Decimal.fixedText, BetaTrader.soh], by simp [Decimal.fixedText]⟩
  | nan => exact ⟨by simp [Decimal.fixedText, BetaTrader.soh], by simp [Decimal.fixedText]⟩

theorem generateTimestamp (now : Timestamp) :
    Inert (OutboundMessageBuilder.generateTimestamp now) where
  soh := FixUtils.notMem_generateTimestamp (by decide) (by decide) now
  equals := FixUtils.notMem_generateTimestamp (by decide) (by decide) now

theorem name (symbol : Instrument) : Inert symbol.name := by
  cases symbol <;> exact ⟨by decide, by decide⟩

end Inert

/-! ## Texts that are searched for -/

section Search

variable {mark t : Message}

/-- Where the tag does not end like it, it is only found in the value. -/
theorem isInfix_field_iff {p : Message} (hp : '=' ∉ p) (h : ¬p <:+ natText tag) :
    (p ++ ['=']) <:+: FixUtils.field tag value ↔ (p ++ ['=']) <:+: value := by
  constructor
  · rintro ⟨u, v, huv⟩
    rw [FixUtils.field, List.append_assoc, List.append_assoc, List.singleton_append,
      ← List.append_assoc] at huv
    have htag : '=' ∉ natText tag := FixUtils.notMem_natText (by decide) tag
    rcases List.append_eq_append_iff.mp huv with ⟨w, hw, hrest⟩ | ⟨w, hw, hrest⟩
    · cases w with
      | nil =>
          rw [List.append_nil] at hw
          exact absurd (hw ▸ List.suffix_append u p) h
      | cons c w =>
          obtain ⟨rfl, _⟩ := List.cons.inj hrest
          exact absurd (hw ▸ by simp) htag
    · cases w with
      | nil =>
          rw [List.append_nil] at hw
          exact absurd (hw ▸ List.suffix_append u p) h
      | cons c w =>
          obtain ⟨rfl, rfl⟩ := List.cons.inj hrest
          have hsuffix : '=' :: w <:+ u ++ p := hw ▸ List.suffix_append (natText tag) ('=' :: w)
          have hpw : p <:+ w := by
            rcases List.suffix_or_suffix_of_suffix (List.suffix_append u p) hsuffix with hall | hall
            · rcases List.suffix_cons_iff.mp hall with rfl | hpw
              · exact absurd (by simp) hp
              · exact hpw
            · exact absurd (hall.subset (by simp)) hp
          obtain ⟨x, rfl⟩ := hpw
          exact ⟨x, v, by simp⟩
  · intro hvalue
    exact hvalue.trans ⟨natText tag ++ ['='], [], by simp [FixUtils.field]⟩

theorem not_isInfix_field {p : Message} (hvalue : '=' ∉ value) (hp : '=' ∉ p)
    (h : ¬p <:+ natText tag) : ¬(p ++ ['=']) <:+: FixUtils.field tag value := by
  rw [isInfix_field_iff hp h]
  exact fun hinside => hvalue (hinside.subset (by simp))

/-- Fields without the mark are passed over. -/
theorem afterFirst_ofFields (hmark : soh ∉ mark)
    (h : ∀ f ∈ fields, ¬mark <:+: FixUtils.field f.1 f.2) :
    Text.afterFirst mark (ofFields fields ++ t) = Text.afterFirst mark t := by
  induction fields with
  | nil => rfl
  | cons f fields ih =>
      rw [ofFields_cons, List.append_assoc, List.cons_append,
        Text.afterFirst_skip hmark (h f (by simp)),
        ih fun g hg => h g (List.mem_cons_of_mem f hg)]

theorem cutFirst_ofFields (hmark : soh ∉ mark)
    (h : ∀ f ∈ fields, ¬mark <:+: FixUtils.field f.1 f.2) :
    Text.cutFirst mark (ofFields fields ++ t) =
      (ofFields fields ++ (Text.cutFirst mark t).1, (Text.cutFirst mark t).2) := by
  induction fields with
  | nil => rfl
  | cons f fields ih =>
      rw [ofFields_cons, List.append_assoc, List.cons_append,
        Text.cutFirst_skip hmark (h f (by simp)),
        ih fun g hg => h g (List.mem_cons_of_mem f hg)]
      simp

theorem find_ofFields (hmark : soh ∉ mark) (h : ∀ f ∈ fields, ¬mark <:+: FixUtils.field f.1 f.2) :
    Text.find mark (ofFields fields ++ t) =
      (Text.find mark t).map ((ofFields fields).length + ·) := by
  induction fields with
  | nil => cases hfind : Text.find mark t <;> simp [hfind]
  | cons f fields ih =>
      rw [ofFields_cons, List.append_assoc, List.cons_append, Text.find_skip hmark (h f (by simp)),
        ih fun g hg => h g (List.mem_cons_of_mem f hg), Option.map_map]
      refine Option.map_congr fun n _ => ?_
      simp only [Function.comp_apply, List.length_append, List.length_cons]
      omega

/-- Fields that do not end like the mark are passed over when the mark is searched
for with its separator. -/
theorem afterFirst_closed_ofFields (hmark : soh ∉ mark) (hvalue : ∀ f ∈ fields, soh ∉ f.2)
    (h : ∀ f ∈ fields, ¬mark <:+ FixUtils.field f.1 f.2) :
    Text.afterFirst (mark ++ [soh]) (ofFields fields ++ t) =
      Text.afterFirst (mark ++ [soh]) t := by
  induction fields with
  | nil => rfl
  | cons f fields ih =>
      rw [ofFields_cons, List.append_assoc, List.cons_append,
        Text.afterFirst_closed_skip hmark (FixUtils.soh_notMem_field (hvalue f (by simp)))
          (h f (by simp)),
        ih (fun g hg => hvalue g (List.mem_cons_of_mem f hg))
          fun g hg => h g (List.mem_cons_of_mem f hg)]

end Search

/-! ## The checksum that is read -/

/-- The last checksum field is the trailer. -/
theorem splitLast_trailer (hne : fields ≠ []) {digits : Message}
    (hdigits : ∀ c ∈ digits, c.isDigit = true) :
    ∃ before, ofFields fields = before ++ [soh] ∧
      Text.splitLast (soh :: "10=".toList) (ofFields (fields ++ [(10, digits)])) =
        some (before, digits ++ [soh]) := by
  obtain ⟨before, hbefore⟩ := exists_ofFields_eq hne
  have hmessage : ofFields (fields ++ [(10, digits)]) =
      before ++ (soh :: "10=".toList) ++ (digits ++ [soh]) := by
    have htag : natText 10 = ['1', '0'] := rfl
    rw [ofFields_append, hbefore]
    simp [FixUtils.field, htag]
  have hlast : ¬(soh :: "10=".toList) <:+: (soh :: "10=".toList).tail ++ (digits ++ [soh]) := by
    rw [← List.append_assoc]
    refine Text.not_cons_isInfix (by decide) ?_
    rw [List.tail_cons, List.mem_append, not_or]
    refine ⟨by decide, fun hmem => ?_⟩
    exact absurd (hdigits soh hmem) (by decide)
  exact ⟨before, hbefore, by rw [hmessage, Text.splitLast_append (by simp) hlast]⟩

theorem stoi_pad {n : ℕ} (hn : n < 256) :
    Strtoul.stoi (pad 3 (natText n) ++ [soh]) = some (n : ℤ) := by
  have hlength : (natText n).length ≤ 3 :=
    (Nat.length_toDigits_le_iff (by decide) (by decide)).mpr (by omega)
  have hvalue : Strtoul.value (pad 3 (natText n)) = n := value_pad.trans value_natText
  rw [stoi_digits_append (fun _ => isDigit_of_mem_pad)
    (List.ne_nil_of_length_pos (by rw [length_pad hlength]; decide)) (by omega) [soh]
    (by simp [soh]), hvalue]

end Wire

end BetaTrader
