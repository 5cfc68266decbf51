import BetaTrader.Common.Wire
import BetaTrader.Lib.Framing

/-!
# The client's read loop

`FixClientSession::doRead` looks for the begin of a message, from there for the
text of the checksum field, and from there for the next separator.  What it finds
in one read it would find in any other cutting of the stream.
-/

namespace BetaTrader

namespace FixClientSession

open Framing

/-- `beginStrings`. -/
def beginStrings : List Message :=
  ["8=FIX.4.4".toList ++ soh :: "9=".toList, "8=FIXT.1.1".toList ++ soh :: "9=".toList]

/-- `std::min` of `firstStart`, which is `npos` at first, and a candidate. -/
def minStart : Option ℕ → ℕ → ℕ
  | none, candidate => candidate
  | some firstStart, candidate => min firstStart candidate

def findMessageStart (readBuffer : Message) : Option ℕ :=
  beginStrings.foldl (fun firstStart beginString =>
    match Text.find beginString readBuffer with
    | none => firstStart
    | some candidate => some (minStart firstStart candidate)) none

/-- One turn of the loop of `doRead`: the message that is handed to
`handleProtocolMessage`, and what is left of the buffer. -/
def readRound (readBuffer : Message) : Round Char Message :=
  match findMessageStart readBuffer with
  | none => .wait
  | some pos =>
      match Text.find "10=".toList (readBuffer.drop pos) with
      | none => .wait
      | some offset =>
          let checksumEnd := pos + offset
          match Text.splitFirst soh (readBuffer.drop checksumEnd) with
          | none => .wait
          | some (checksum, _) =>
              let endOfMessage := checksumEnd + checksum.length + 1
              .next ((readBuffer.drop pos).take (endOfMessage - pos))
                (readBuffer.drop endOfMessage)

/-! ## What a round finds -/

variable {buffer t : Message} {pos : ℕ}

theorem length_beginStrings : ∀ b ∈ beginStrings, 12 ≤ b.length ∧ b.length ≤ 13 := by
  decide

theorem beginStrings_ne_nil {b : Message} (hb : b ∈ beginStrings) : b ≠ [] := by
  rintro rfl
  exact absurd (length_beginStrings [] hb).1 (by decide)

theorem findMessageStart_eq (buffer : Message) : findMessageStart buffer =
    match Text.find ("8=FIX.4.4".toList ++ soh :: "9=".toList) buffer,
      Text.find ("8=FIXT.1.1".toList ++ soh :: "9=".toList) buffer with
    | none, none => none
    | some n, none => some n
    | none, some m => some m
    | some n, some m => some (min n m) := by
  simp only [findMessageStart, beginStrings, List.foldl_cons, List.foldl_nil]
  split <;> split <;> simp_all [minStart]

/-- The first begin is found: one that no other precedes. -/
theorem findMessageStart_eq_some_iff : findMessageStart buffer = some pos ↔
    (∃ b ∈ beginStrings, Text.find b buffer = some pos) ∧
      ∀ b ∈ beginStrings, ∀ m, Text.find b buffer = some m → pos ≤ m := by
  simp only [findMessageStart_eq, beginStrings, List.mem_cons, List.not_mem_nil, or_false,
    exists_eq_or_imp, exists_eq_left, forall_eq_or_imp, forall_eq]
  generalize Text.find ("8=FIX.4.4".toList ++ soh :: "9=".toList) buffer = first
  generalize Text.find ("8=FIXT.1.1".toList ++ soh :: "9=".toList) buffer = second
  cases first with
  | none =>
      cases second with
      | none => simp
      | some m => simpa using le_of_eq ∘ Eq.symm
  | some n =>
      cases second with
      | none => simpa using le_of_eq ∘ Eq.symm
      | some m =>
          simp only [Option.some.injEq, forall_eq']
          omega

theorem findMessageStart_eq_none_iff : findMessageStart buffer = none ↔
    ∀ b ∈ beginStrings, Text.find b buffer = none := by
  simp only [findMessageStart_eq, beginStrings, List.forall_mem_cons, List.not_mem_nil,
    IsEmpty.forall_iff, implies_true, and_true]
  generalize Text.find ("8=FIX.4.4".toList ++ soh :: "9=".toList) buffer = first
  generalize Text.find ("8=FIXT.1.1".toList ++ soh :: "9=".toList) buffer = second
  cases first <;> cases second <;> simp

/-- The begins are about as long as each other, so that one that is not complete
does not start in front of one that is. -/
theorem findMessageStart_append (h : findMessageStart buffer = some pos) (t : Message) :
    findMessageStart (buffer ++ t) = some pos := by
  obtain ⟨⟨b, hb, hfind⟩, hfirst⟩ := findMessageStart_eq_some_iff.mp h
  refine findMessageStart_eq_some_iff.mpr ⟨⟨b, hb, Text.find_append_of_some hfind t⟩, ?_⟩
  intro b' hb' m hm
  cases hold : Text.find b' buffer with
  | some m' =>
      obtain rfl := Option.some.inj ((Text.find_append_of_some hold t).symm.trans hm)
      exact hfirst b' hb' m' hold
  | none =>
      have hlate := Text.length_lt_of_find_append hold hm (beginStrings_ne_nil hb')
      obtain ⟨rest, hsplit, _⟩ := Text.find_eq_some hfind
      have hlength := congrArg List.length hsplit
      have hwidth := length_beginStrings b hb
      have hwidth' := length_beginStrings b' hb'
      simp only [List.length_append, List.length_take] at hlength
      omega

/-- What a round takes: the text from the begin to the separator behind the first
`10=`. -/
structure Taken (buffer skipped message left checksum : Message) (offset : ℕ) : Prop where
  start : findMessageStart buffer = some skipped.length
  split : buffer = skipped ++ (message ++ left)
  finds : Text.find "10=".toList (message ++ left) = some offset
  ends : message.drop offset = checksum ++ [soh]
  first : soh ∉ checksum

theorem Taken.round {skipped message left checksum : Message} {offset : ℕ}
    (h : Taken buffer skipped message left checksum offset) :
    readRound buffer = .next message left := by
  obtain ⟨hstart, rfl, hfind, hends, hfirst⟩ := h
  have hlength : message.length = offset + (checksum.length + 1) := by
    have hdrop := congrArg List.length hends
    rw [List.length_drop, List.length_append, List.length_singleton] at hdrop
    omega
  have hbehind : (skipped ++ (message ++ left)).drop (skipped.length + offset) =
      checksum ++ soh :: left := by
    rw [List.drop_length_add_append, List.drop_append_of_le_length (by omega), hends]
    simp
  simp only [readRound, hstart, List.drop_left, hfind, hbehind, Text.splitFirst_append hfirst]
  rw [show skipped.length + offset + checksum.length + 1 - skipped.length = message.length by
    omega, show skipped.length + offset + checksum.length + 1 = skipped.length + message.length by
    omega, List.take_left, List.drop_length_add_append, List.drop_left]

theorem exists_taken {message left : Message} (h : readRound buffer = .next message left) :
    ∃ skipped checksum offset, Taken buffer skipped message left checksum offset := by
  rw [readRound] at h
  cases hstart : findMessageStart buffer with
  | none =>
      rw [hstart] at h
      cases h
  | some pos =>
      rw [hstart] at h
      dsimp only at h
      cases hfind : Text.find "10=".toList (buffer.drop pos) with
      | none =>
          rw [hfind] at h
          cases h
      | some offset =>
          rw [hfind] at h
          dsimp only at h
          cases hsplit : Text.splitFirst soh (buffer.drop (pos + offset)) with
          | none =>
              rw [hsplit] at h
              cases h
          | some parts =>
              obtain ⟨checksum, behind⟩ := parts
              rw [hsplit] at h
              simp only [Round.next.injEq] at h
              obtain ⟨rfl, rfl⟩ := h
              obtain ⟨hbehind, hfirst⟩ := Text.splitFirst_eq_some_iff.mp hsplit
              have hpos : (buffer.take pos).length = pos := by
                rw [List.length_take]
                have hlength := congrArg List.length hbehind
                simp only [List.length_drop, List.length_append, List.length_cons] at hlength
                omega
              have hend : pos + offset + checksum.length + 1 =
                  pos + (offset + (checksum.length + 1)) := by omega
              have hmessage : (buffer.drop pos).take (offset + (checksum.length + 1)) ++
                  buffer.drop (pos + (offset + (checksum.length + 1))) = buffer.drop pos := by
                rw [← List.drop_drop, List.take_append_drop]
              rw [hend, Nat.add_sub_cancel_left]
              refine ⟨buffer.take pos, checksum, offset, by rw [hstart, hpos], ?_, ?_, ?_, hfirst⟩
              · rw [hmessage, List.take_append_drop]
              · rw [hmessage, hfind]
              · rw [List.drop_take, List.drop_drop, hbehind, Nat.add_sub_cancel_left]
                have hclosed : checksum ++ soh :: behind = checksum ++ [soh] ++ behind := by simp
                rw [hclosed, List.take_left' (by simp)]

theorem readRound_ne_stop (buffer : Message) : readRound buffer ≠ .stop := by
  rw [readRound]
  split
  · simp
  · split
    · simp
    · dsimp only
      split <;> simp

theorem readRound_stays {message left : Message} (h : readRound buffer = .next message left)
    (t : Message) : readRound (buffer ++ t) = .next message (left ++ t) := by
  obtain ⟨skipped, checksum, offset, hstart, hsplit, hfind, hends, hfirst⟩ := exists_taken h
  have htaken : Taken (buffer ++ t) skipped message (left ++ t) checksum offset := by
    refine ⟨findMessageStart_append hstart t, by rw [hsplit]; simp, ?_, hends, hfirst⟩
    rw [← List.append_assoc]
    exact Text.find_append_of_some hfind t
  exact htaken.round

/-- The loop of `doRead`. -/
def readLoop : Loop Char Message where
  round := readRound
  round_nil := rfl
  shrinks := by
    intro buffer message left h
    obtain ⟨skipped, checksum, offset, _, hsplit, _, hends, _⟩ := exists_taken h
    have hdrop := congrArg List.length hends
    have hlength := congrArg List.length hsplit
    simp only [List.length_drop, List.length_append, List.length_singleton] at hdrop hlength
    omega

theorem stable_readLoop : readLoop.Stable := ⟨readRound_ne_stop, readRound_stays⟩

/-- What the loop takes from a stream does not depend on the reads. -/
theorem readAll_eq_feed (reads : List Message) :
    readLoop.readAll (some []) reads = readLoop.feed reads.flatten :=
  stable_readLoop.readAll_eq_feed readLoop.round_nil reads

/-! ## Messages that are fields -/

section Fields

open OutboundMessageBuilder

variable {fields before behind : List (ℕ × Message)} {f : ℕ × Message}

/-- The fields that a begin is not found in. -/
structure Skippable (f : ℕ × Message) : Prop where
  tag : f.1 ≠ 9
  value : soh ∉ f.2

theorem not_prefix_field (htag : f.1 ≠ 9) :
    ¬"9=".toList <+: FixUtils.field f.1 f.2 ++ t := by
  have hmark : "9=".toList = ['9'] ++ ['='] := rfl
  rw [FixUtils.field, List.append_assoc, List.cons_append, hmark,
    Text.closed_prefix_iff (by decide) (FixUtils.notMem_natText (by decide) f.1)]
  intro h
  have hvalue := congrArg Strtoul.value h
  rw [Decimal.value_natText] at hvalue
  exact htag (hvalue.symm.trans (by decide))

theorem not_prefix_ofFields (h : ∀ g ∈ fields, Skippable g) (ht : ¬"9=".toList <+: t) :
    ¬"9=".toList <+: ofFields fields ++ t := by
  cases fields with
  | nil => exact ht
  | cons g fields =>
      rw [ofFields_cons, List.append_assoc]
      exact not_prefix_field (h g (by simp)).tag

theorem find_begin_ofFields {b : Message} (hb : b ∈ beginStrings)
    (h : ∀ g ∈ fields, Skippable g) (ht : ¬"9=".toList <+: t) :
    Text.find b (ofFields fields ++ t) = (Text.find b t).map ((ofFields fields).length + ·) := by
  obtain ⟨x, hx, rfl⟩ : ∃ x, soh ∉ x ∧ b = x ++ soh :: "9=".toList := by
    rcases List.mem_cons.mp hb with rfl | hb
    · exact ⟨_, by decide, rfl⟩
    · exact ⟨_, by decide, List.mem_singleton.mp hb⟩
  induction fields with
  | nil => simp only [ofFields_nil, List.nil_append, List.length_nil, Nat.zero_add, Option.map_id']
  | cons g fields ih =>
      have hfields : ∀ g ∈ fields, Skippable g := fun g' hg' => h g' (List.mem_cons_of_mem g hg')
      rw [ofFields_cons, List.append_assoc, List.cons_append,
        Text.find_closed_skip hx (FixUtils.soh_notMem_field (h g (by simp)).value)
          (not_prefix_ofFields hfields ht), ih hfields, Option.map_map]
      refine Option.map_congr fun n _ => ?_
      simp only [Function.comp_apply, List.length_append, List.length_cons]
      omega

/-- What is left of a message does not hide the begin of the next one. -/
theorem findMessageStart_ofFields (h : ∀ g ∈ fields, Skippable g) (ht : ¬"9=".toList <+: t) :
    findMessageStart (ofFields fields ++ t) =
      (findMessageStart t).map ((ofFields fields).length + ·) := by
  simp only [findMessageStart_eq, find_begin_ofFields (List.mem_cons_self) h ht,
    find_begin_ofFields (List.mem_cons_of_mem _ (List.mem_singleton_self _)) h ht]
  generalize Text.find ("8=FIX.4.4".toList ++ soh :: "9=".toList) t = first
  generalize Text.find ("8=FIXT.1.1".toList ++ soh :: "9=".toList) t = second
  cases first <;> cases second <;> simp [Nat.add_min_add_left]

theorem findMessageStart_begin {b : Message} (hb : b ∈ beginStrings) (h : b <+: t) :
    findMessageStart t = some 0 := by
  obtain ⟨rest, rfl⟩ := h
  exact findMessageStart_eq_some_iff.mpr
    ⟨⟨b, hb, Text.find_append_self (beginStrings_ne_nil hb)⟩, fun _ _ _ _ => Nat.zero_le _⟩

/-- A message is taken up to the first field that has the text of the checksum's
tag in it. -/
theorem readRound_ofFields (hfields : ∀ g ∈ fields, Skippable g) {b : Message}
    (hb : b ∈ beginStrings) (hbegin : b <+: ofFields (before ++ f :: behind) ++ t)
    (hbefore : ∀ g ∈ before, ¬"10=".toList <:+: FixUtils.field g.1 g.2)
    (hf : "10=".toList <:+: FixUtils.field f.1 f.2) (hvalue : soh ∉ f.2) :
    readRound (ofFields fields ++ (ofFields (before ++ f :: behind) ++ t)) =
      .next (ofFields (before ++ [f])) (ofFields behind ++ t) := by
  have hnot : ¬"9=".toList <+: ofFields (before ++ f :: behind) ++ t := by
    intro h9
    obtain ⟨rest, hrest⟩ := hbegin
    obtain ⟨rest', hrest'⟩ := h9
    have hhead := congrArg List.head? (hrest.trans hrest'.symm)
    have hb8 : ∀ b ∈ beginStrings, b.head? = some '8' := by decide
    rw [List.head?_append_of_ne_nil _ (beginStrings_ne_nil hb), hb8 b hb] at hhead
    exact absurd hhead (by simp)
  have hsplit : ofFields (before ++ f :: behind) ++ t =
      ofFields before ++ (FixUtils.field f.1 f.2 ++ soh :: (ofFields behind ++ t)) := by
    rw [ofFields_append, ofFields_cons]
    simp
  have hmessage : ofFields (before ++ [f]) =
      ofFields before ++ (FixUtils.field f.1 f.2 ++ [soh]) := by
    rw [ofFields_append, ofFields_cons, ofFields_nil]
  cases hfind : Text.find "10=".toList (FixUtils.field f.1 f.2) with
  | none => exact absurd hf ((Text.find_eq_none_iff (by decide)).mp hfind)
  | some n =>
      obtain ⟨rest, hfield, hdrop⟩ := Text.find_eq_some hfind
      have hlength := congrArg List.length hdrop
      simp only [List.length_drop, List.length_append] at hlength
      have htaken : Taken (ofFields fields ++ (ofFields (before ++ f :: behind) ++ t))
          (ofFields fields) (ofFields (before ++ [f])) (ofFields behind ++ t)
          ("10=".toList ++ rest) ((ofFields before).length + n) := by
        refine ⟨?_, ?_, ?_, ?_, ?_⟩
        · rw [findMessageStart_ofFields hfields hnot, findMessageStart_begin hb hbegin]
          rfl
        · rw [hsplit, hmessage]
          simp
        · rw [hmessage]
          have hrest : ofFields before ++ (FixUtils.field f.1 f.2 ++ [soh]) ++
              (ofFields behind ++ t) = ofFields before ++ (FixUtils.field f.1 f.2 ++
                soh :: (ofFields behind ++ t)) := by simp
          rw [hrest, Wire.find_ofFields (by decide) hbefore, Text.find_append_of_some hfind]
          rfl
        · rw [hmessage, List.drop_length_add_append, List.drop_append_of_le_length, hdrop]
          simp at hlength
          omega
        · intro hmem
          exact FixUtils.soh_notMem_field hvalue (List.mem_of_mem_drop (hdrop ▸ hmem))
      exact htaken.round

end Fields

end FixClientSession

end BetaTrader
