import Mathlib.Data.List.Basic
import Mathlib.Data.List.Infix

/-!
# Searching and splitting texts

What `find`, `rfind` and `substr` are put together for: the text behind the
first occurrence of a pattern, the parts before and behind its last occurrence,
a value between a pattern and the next separator, and the pieces that a
separator closes.
-/

namespace Text

variable {α : Type*}

/-- The pieces, each closed by a separator. -/
def close (sep : α) (texts : List (List α)) : List α := texts.flatMap fun text => text ++ [sep]

@[simp] theorem close_nil (sep : α) : close sep [] = [] := rfl

@[simp] theorem close_cons (sep : α) (text : List α) (texts : List (List α)) :
    close sep (text :: texts) = text ++ sep :: close sep texts := by
  simp [close]

@[simp] theorem close_append (sep : α) (texts texts' : List (List α)) :
    close sep (texts ++ texts') = close sep texts ++ close sep texts' := by
  simp [close]

variable [DecidableEq α]

/-- What follows the first occurrence of `pat`. -/
def afterFirst (pat : List α) : List α → Option (List α)
  | [] => if pat = [] then some [] else none
  | c :: s => if pat <+: c :: s then some ((c :: s).drop pat.length) else afterFirst pat s

/-- The parts before and behind the last occurrence of `pat`. -/
def splitLast (pat : List α) : List α → Option (List α × List α)
  | [] => if pat = [] then some ([], []) else none
  | c :: s =>
      match splitLast pat s with
      | some (before, behind) => some (c :: before, behind)
      | none => if pat <+: c :: s then some ([], (c :: s).drop pat.length) else none

/-- What stands between the first occurrence of `pat` and the next `sep`. -/
def between (pat : List α) (sep : α) (s : List α) : Option (List α) :=
  (afterFirst pat s).bind fun rest =>
    if sep ∈ rest then some (rest.takeWhile (· ≠ sep)) else none

/-- The part before the first occurrence of `pat`, and the text from there on. -/
def cutFirst (pat : List α) : List α → List α × List α
  | [] => ([], [])
  | c :: s =>
      if pat <+: c :: s then ([], c :: s)
      else (c :: (cutFirst pat s).1, (cutFirst pat s).2)

/-- The position of the first occurrence of `pat`. -/
def find (pat : List α) : List α → Option ℕ
  | [] => if pat = [] then some 0 else none
  | c :: s => if pat <+: c :: s then some 0 else (find pat s).map (· + 1)

/-- The pieces of a text that a separator closes.  What follows the last
separator belongs to none of them. -/
def pieces (sep : α) : List α → List (List α)
  | [] => []
  | c :: s =>
      if c = sep then [] :: pieces sep s
      else match pieces sep s with
        | [] => []
        | piece :: rest => (c :: piece) :: rest

/-- The parts before and behind the first `sep`. -/
def splitFirst (sep : α) (s : List α) : Option (List α × List α) :=
  if sep ∈ s then some (s.takeWhile (· ≠ sep), (s.dropWhile (· ≠ sep)).tail) else none

/-- What stands between the first occurrence of `pat` and the next `sep`, and what
stands behind that `sep`. -/
def search (pat : List α) (sep : α) (s : List α) : Option (List α × List α) :=
  (afterFirst pat s).bind (splitFirst sep)

section Split

variable {sep : α} {t rest : List α}

theorem takeWhile_ne_append (h : sep ∉ t) :
    (t ++ sep :: rest).takeWhile (· ≠ sep) = t := by
  induction t with
  | nil => simp
  | cons c t ih =>
      have hc : c ≠ sep := fun heq => h (by simp [heq])
      rw [List.cons_append, List.takeWhile_cons_of_pos (by simpa using hc),
        ih fun hmem => h (List.mem_cons_of_mem c hmem)]

theorem dropWhile_ne_append (h : sep ∉ t) :
    (t ++ sep :: rest).dropWhile (· ≠ sep) = sep :: rest := by
  induction t with
  | nil => simp
  | cons c t ih =>
      have hc : c ≠ sep := fun heq => h (by simp [heq])
      rw [List.cons_append, List.dropWhile_cons_of_pos (by simpa using hc),
        ih fun hmem => h (List.mem_cons_of_mem c hmem)]

theorem splitFirst_append (h : sep ∉ t) : splitFirst sep (t ++ sep :: rest) = some (t, rest) := by
  rw [splitFirst, if_pos (by simp), takeWhile_ne_append h, dropWhile_ne_append h, List.tail_cons]

theorem splitFirst_eq_some_iff {s : List α} :
    splitFirst sep s = some (t, rest) ↔ s = t ++ sep :: rest ∧ sep ∉ t := by
  constructor
  · intro h
    by_cases hmem : sep ∈ s
    · obtain ⟨before, behind, rfl, hbefore⟩ := List.eq_append_cons_of_mem hmem
      rw [splitFirst_append hbefore, Option.some.injEq, Prod.mk.injEq] at h
      obtain ⟨rfl, rfl⟩ := h
      exact ⟨rfl, hbefore⟩
    · rw [splitFirst, if_neg hmem] at h
      cases h
  · rintro ⟨rfl, h⟩
    exact splitFirst_append h

theorem splitFirst_eq_none_iff {s : List α} : splitFirst sep s = none ↔ sep ∉ s := by
  rw [splitFirst, ite_eq_right_iff]
  simp

theorem pieces_append (h : sep ∉ t) : pieces sep (t ++ sep :: rest) = t :: pieces sep rest := by
  induction t with
  | nil => simp [pieces]
  | cons c t ih =>
      have hc : c ≠ sep := fun heq => h (by simp [heq])
      rw [List.cons_append, pieces, if_neg hc, ih fun hmem => h (List.mem_cons_of_mem c hmem)]

theorem pieces_of_notMem {s : List α} (h : sep ∉ s) : pieces sep s = [] := by
  induction s with
  | nil => rfl
  | cons c s ih =>
      rw [List.mem_cons, not_or] at h
      rw [pieces, if_neg (Ne.symm h.1), ih h.2]

/-- A text is cut off piece by piece. -/
theorem pieces_induction (sep : α) {motive : List α → Prop}
    (last : ∀ s, sep ∉ s → motive s)
    (piece : ∀ t rest, sep ∉ t → motive rest → motive (t ++ sep :: rest)) (s : List α) :
    motive s := by
  by_cases h : sep ∈ s
  · obtain ⟨t, rest, rfl, ht⟩ := List.eq_append_cons_of_mem h
    have hlt : rest.length < (t ++ sep :: rest).length := by
      simp only [List.length_append, List.length_cons]
      omega
    exact piece t rest ht (pieces_induction sep last piece rest)
  · exact last s h
termination_by s.length

/-- Closing and cutting are inverse on pieces without a separator; a text that has
none is left over. -/
theorem pieces_close_append {texts : List (List α)} (h : ∀ text ∈ texts, sep ∉ text)
    {tail : List α} (htail : sep ∉ tail) : pieces sep (close sep texts ++ tail) = texts := by
  induction texts with
  | nil => exact pieces_of_notMem htail
  | cons text texts ih =>
      rw [close_cons, List.append_assoc, List.cons_append, pieces_append (h text (by simp)),
        ih fun text' htext' => h text' (List.mem_cons_of_mem text htext')]

theorem pieces_close {texts : List (List α)} (h : ∀ text ∈ texts, sep ∉ text) :
    pieces sep (close sep texts) = texts := by
  simpa using pieces_close_append h (List.not_mem_nil (a := sep))

end Split

section Search

variable {pat s t : List α}

theorem afterFirst_append_self (h : pat ≠ []) : afterFirst pat (pat ++ t) = some t := by
  obtain ⟨c, cs, rfl⟩ := List.exists_cons_of_ne_nil h
  rw [List.cons_append, afterFirst, if_pos (by simp), ← List.cons_append, List.drop_left]

/-- What stands before the first occurrence, and that it is the first. -/
theorem afterFirst_eq_some {rest : List α} (h : afterFirst pat s = some rest) :
    ∃ before, s = before ++ (pat ++ rest) := by
  induction s with
  | nil =>
      rw [afterFirst] at h
      split_ifs at h with hpat
      exact ⟨[], by simp [hpat, Option.some.inj h]⟩
  | cons c s ih =>
      rw [afterFirst] at h
      split_ifs at h with hstarts
      · obtain ⟨behind, hbehind⟩ := hstarts
        rw [← hbehind, List.drop_left, Option.some.injEq] at h
        exact ⟨[], by rw [List.nil_append, ← h, hbehind]⟩
      · obtain ⟨before, rfl⟩ := ih h
        exact ⟨c :: before, rfl⟩

theorem afterFirst_eq_none_iff (hpat : pat ≠ []) : afterFirst pat s = none ↔ ¬pat <:+: s := by
  induction s with
  | nil => simp [afterFirst, hpat]
  | cons c s ih =>
      rw [afterFirst, List.infix_cons_iff, not_or]
      split_ifs with hstarts
      · simp [hstarts]
      · simp [hstarts, ih]

/-- What has been found is found whatever follows. -/
theorem afterFirst_append_of_some {rest : List α} (h : afterFirst pat s = some rest)
    (t : List α) : afterFirst pat (s ++ t) = some (rest ++ t) := by
  induction s with
  | nil =>
      rw [afterFirst] at h
      split_ifs at h with hpat
      obtain rfl := Option.some.inj h
      cases t <;> simp [afterFirst, hpat]
  | cons c s ih =>
      rw [afterFirst] at h
      split_ifs at h with hstarts
      · have hstarts' : pat <+: c :: (s ++ t) := hstarts.trans (List.prefix_append (c :: s) t)
        rw [List.cons_append, afterFirst, if_pos hstarts', ← Option.some.inj h,
          ← List.cons_append, List.drop_append_of_le_length hstarts.length_le]
      · obtain ⟨before, hbefore⟩ := afterFirst_eq_some h
        have hlength : pat.length ≤ (c :: s).length := by
          rw [hbefore]
          simp only [List.length_cons, List.length_append]
          omega
        have hstarts' : ¬pat <+: c :: (s ++ t) := fun hstarts' => hstarts
          (List.prefix_of_prefix_length_le hstarts' (List.prefix_append (c :: s) t) hlength)
        rw [List.cons_append, afterFirst, if_neg hstarts', ih h]

/-- A part of the text in which no occurrence starts may be skipped. -/
theorem afterFirst_append (h : ∀ u v, s = u ++ v → v ≠ [] → ¬pat <+: v ++ t) :
    afterFirst pat (s ++ t) = afterFirst pat t := by
  induction s with
  | nil => rfl
  | cons c s ih =>
      have hhead : ¬pat <+: c :: (s ++ t) := h [] (c :: s) rfl (by simp)
      rw [List.cons_append, afterFirst, if_neg hhead]
      exact ih fun u v huv hv => h (c :: u) v (by rw [huv, List.cons_append]) hv

theorem find_append_self (h : pat ≠ []) : find pat (pat ++ t) = some 0 := by
  obtain ⟨c, cs, rfl⟩ := List.exists_cons_of_ne_nil h
  rw [List.cons_append, find, if_pos (by simp)]

/-- Where the pattern has been found. -/
theorem find_eq_some {n : ℕ} (h : find pat s = some n) :
    ∃ rest, s = s.take n ++ (pat ++ rest) ∧ s.drop n = pat ++ rest := by
  induction s generalizing n with
  | nil =>
      rw [find] at h
      split_ifs at h with hpat
      exact ⟨[], by simp [hpat], by simp [hpat]⟩
  | cons c s ih =>
      rw [find] at h
      split_ifs at h with hstarts
      · obtain ⟨rest, hrest⟩ := hstarts
        obtain rfl := Option.some.inj h
        exact ⟨rest, by rw [List.take_zero, List.nil_append, hrest], by rw [List.drop_zero, hrest]⟩
      · obtain ⟨m, hm, rfl⟩ := Option.map_eq_some_iff.mp h
        obtain ⟨rest, hsplit, hdrop⟩ := ih hm
        refine ⟨rest, ?_, by rwa [List.drop_succ_cons]⟩
        rw [List.take_succ_cons, List.cons_append, ← hsplit]

theorem find_eq_none_iff (hpat : pat ≠ []) : find pat s = none ↔ ¬pat <:+: s := by
  induction s with
  | nil => simp [find, hpat]
  | cons c s ih =>
      rw [find, List.infix_cons_iff, not_or]
      split_ifs with hstarts
      · simp [hstarts]
      · simp [hstarts, ih]

/-- A part of the text in which no occurrence starts is passed over. -/
theorem find_append (h : ∀ u v, s = u ++ v → v ≠ [] → ¬pat <+: v ++ t) :
    find pat (s ++ t) = (find pat t).map (s.length + ·) := by
  induction s with
  | nil => cases hfind : find pat t <;> simp [hfind]
  | cons c s ih =>
      have hhead : ¬pat <+: c :: (s ++ t) := h [] (c :: s) rfl (by simp)
      rw [List.cons_append, find, if_neg hhead,
        ih fun u v huv hv => h (c :: u) v (by rw [huv, List.cons_append]) hv, Option.map_map]
      refine Option.map_congr fun n _ => ?_
      simp only [Function.comp_apply, List.length_cons]
      omega

/-- What has been found is found whatever follows, and nothing in front of it. -/
theorem find_append_of_some {n : ℕ} (h : find pat s = some n) (t : List α) :
    find pat (s ++ t) = some n := by
  induction s generalizing n with
  | nil =>
      rw [find] at h
      split_ifs at h with hpat
      cases t <;> simp [find, hpat, ← Option.some.inj h]
  | cons c s ih =>
      rw [find] at h
      split_ifs at h with hstarts
      · have hstarts' : pat <+: c :: (s ++ t) := hstarts.trans (List.prefix_append (c :: s) t)
        rw [List.cons_append, find, if_pos hstarts', h]
      · obtain ⟨m, hm, rfl⟩ := Option.map_eq_some_iff.mp h
        obtain ⟨rest, hsplit, _⟩ := find_eq_some hm
        have hlength : pat.length ≤ (c :: s).length := by
          rw [hsplit]
          simp only [List.length_cons, List.length_append]
          omega
        have hstarts' : ¬pat <+: c :: (s ++ t) := fun hstarts' => hstarts
          (List.prefix_of_prefix_length_le hstarts' (List.prefix_append (c :: s) t) hlength)
        rw [List.cons_append, find, if_neg hstarts', ih hm, Option.map_some]

/-- A position that is found only in a longer text ends behind the shorter one. -/
theorem length_lt_of_find_append {n : ℕ} (hshort : find pat s = none)
    (h : find pat (s ++ t) = some n) (hpat : pat ≠ []) : s.length < n + pat.length := by
  by_contra hle
  obtain ⟨rest, _, hdrop⟩ := find_eq_some h
  refine (find_eq_none_iff hpat).mp hshort ⟨s.take n, s.drop (n + pat.length), ?_⟩
  rw [List.drop_append_of_le_length (by omega)] at hdrop
  have htake := congrArg (List.take pat.length) hdrop
  rw [List.take_left, List.take_append_of_le_length (by rw [List.length_drop]; omega)] at htake
  have hbehind : pat ++ s.drop (n + pat.length) = s.drop n := by
    rw [← List.drop_drop]
    nth_rewrite 1 [← htake]
    exact List.take_append_drop _ _
  rw [List.append_assoc, hbehind, List.take_append_drop]

/-- The text is cut at an occurrence at its beginning. -/
theorem cutFirst_append_self (h : pat ≠ []) : cutFirst pat (pat ++ t) = ([], pat ++ t) := by
  obtain ⟨c, cs, rfl⟩ := List.exists_cons_of_ne_nil h
  rw [List.cons_append, cutFirst, if_pos (by simp)]

theorem cutFirst_append (h : ∀ u v, s = u ++ v → v ≠ [] → ¬pat <+: v ++ t) :
    cutFirst pat (s ++ t) = (s ++ (cutFirst pat t).1, (cutFirst pat t).2) := by
  induction s with
  | nil => rfl
  | cons c s ih =>
      have hhead : ¬pat <+: c :: (s ++ t) := h [] (c :: s) rfl (by simp)
      rw [List.cons_append, cutFirst, if_neg hhead,
        ih fun u v huv hv => h (c :: u) v (by rw [huv, List.cons_append]) hv, List.cons_append]

section Separator

variable {sep : α}

omit [DecidableEq α] in
/-- An occurrence that starts in a piece does not reach its separator. -/
theorem prefix_of_prefix_sep (hsep : sep ∉ pat) (h : pat <+: s ++ sep :: t) : pat <+: s := by
  rcases List.prefix_or_prefix_of_prefix h (List.prefix_append s (sep :: t)) with
    hstarts | ⟨r, rfl⟩
  · exact hstarts
  · cases r with
    | nil => simp
    | cons c r =>
        obtain ⟨rfl, _⟩ := List.cons_prefix_cons.mp ((List.prefix_append_right_inj s).mp h)
        exact absurd (by simp) hsep

omit [DecidableEq α] in
/-- No occurrence starts in a piece that has none, or at its separator. -/
theorem not_prefix_of_piece (hsep : sep ∉ pat) (h : ¬pat <:+: s) {u v : List α}
    (huv : s ++ [sep] = u ++ v) (hv : v ≠ []) : ¬pat <+: v ++ t := by
  intro hstarts
  obtain ⟨w, x, rfl⟩ := v.eq_nil_or_concat'.resolve_left hv
  obtain ⟨rfl, hx⟩ : s = u ++ w ∧ [sep] = [x] :=
    List.append_inj' (huv.trans (List.append_assoc u w [x]).symm) rfl
  obtain rfl := List.singleton_inj.mp hx
  rw [List.append_assoc, List.singleton_append] at hstarts
  exact h ((prefix_of_prefix_sep hsep hstarts).isInfix.trans (List.suffix_append u w).isInfix)

/-- A piece in which the pattern does not occur is skipped with its separator. -/
theorem afterFirst_skip (hsep : sep ∉ pat) (h : ¬pat <:+: s) :
    afterFirst pat (s ++ sep :: t) = afterFirst pat t := by
  have hsplit : s ++ sep :: t = (s ++ [sep]) ++ t := by simp
  rw [hsplit]
  exact afterFirst_append fun _ _ huv hv => not_prefix_of_piece hsep h huv hv

theorem cutFirst_skip (hsep : sep ∉ pat) (h : ¬pat <:+: s) : cutFirst pat (s ++ sep :: t) =
    (s ++ sep :: (cutFirst pat t).1, (cutFirst pat t).2) := by
  have hsplit : s ++ sep :: t = (s ++ [sep]) ++ t := by simp
  rw [hsplit, cutFirst_append fun _ _ huv hv => not_prefix_of_piece hsep h huv hv]
  simp

theorem find_skip (hsep : sep ∉ pat) (h : ¬pat <:+: s) :
    find pat (s ++ sep :: t) = (find pat t).map (s.length + 1 + ·) := by
  have hsplit : s ++ sep :: t = (s ++ [sep]) ++ t := by simp
  rw [hsplit, find_append fun _ _ huv hv => not_prefix_of_piece hsep h huv hv, List.length_append,
    List.length_singleton]

/-- An occurrence in a piece is found whatever follows the piece. -/
theorem afterFirst_of_isInfix (hsep : sep ∉ pat) (h : pat <:+: s) :
    ∃ rest, rest <:+ s ∧ ∀ t, afterFirst pat (s ++ sep :: t) = some (rest ++ sep :: t) := by
  induction s with
  | nil =>
      obtain rfl := List.infix_nil.mp h
      exact ⟨[], List.suffix_rfl, fun t => by simp [afterFirst]⟩
  | cons c s ih =>
      by_cases hhead : pat <+: c :: s
      · refine ⟨(c :: s).drop pat.length, List.drop_suffix _ _, fun t => ?_⟩
        have hhead' : pat <+: c :: (s ++ sep :: t) := hhead.trans (List.prefix_append (c :: s) _)
        rw [List.cons_append, afterFirst, if_pos hhead', ← List.cons_append,
          List.drop_append_of_le_length hhead.length_le]
      · obtain ⟨rest, hsuffix, hrest⟩ := ih ((List.infix_cons_iff.mp h).resolve_left hhead)
        refine ⟨rest, hsuffix.trans (List.suffix_cons c s), fun t => ?_⟩
        have hhead' : ¬pat <+: c :: (s ++ sep :: t) := fun hstarts =>
          hhead (prefix_of_prefix_sep hsep hstarts)
        rw [List.cons_append, afterFirst, if_neg hhead', hrest]

omit [DecidableEq α] in
/-- A pattern that ends with the separator is found at the end of a piece. -/
theorem closed_prefix_iff (hpat : sep ∉ pat) (hs : sep ∉ s) :
    pat ++ [sep] <+: s ++ sep :: t ↔ pat = s := by
  constructor
  · rintro ⟨r, hr⟩
    rw [List.append_assoc, List.singleton_append] at hr
    rcases List.append_eq_append_iff.mp hr with ⟨u, rfl, hu⟩ | ⟨u, rfl, hu⟩
    · cases u with
      | nil => simp
      | cons c u =>
          obtain ⟨rfl, _⟩ := List.cons.inj hu
          exact absurd (by simp) hs
    · cases u with
      | nil => simp
      | cons c u =>
          obtain ⟨rfl, _⟩ := List.cons.inj hu
          exact absurd (by simp) hpat
  · rintro rfl
    exact ⟨t, by simp⟩

theorem afterFirst_closed_of_isSuffix (hpat : sep ∉ pat) (hs : sep ∉ s) (h : pat <:+ s) :
    afterFirst (pat ++ [sep]) (s ++ sep :: t) = some t := by
  induction s with
  | nil =>
      obtain rfl := List.suffix_nil.mp h
      simp [afterFirst]
  | cons c s ih =>
      by_cases hall : pat = c :: s
      · subst hall
        have hsplit : c :: s ++ sep :: t = (c :: s ++ [sep]) ++ t := by simp
        rw [hsplit, afterFirst_append_self (by simp)]
      · have hhead : ¬pat ++ [sep] <+: c :: (s ++ sep :: t) := fun hstarts =>
          hall ((closed_prefix_iff hpat hs).mp hstarts)
        rw [List.cons_append, afterFirst, if_neg hhead]
        exact ih (fun hmem => hs (List.mem_cons_of_mem c hmem))
          ((List.suffix_cons_iff.mp h).resolve_left hall)

theorem afterFirst_closed_skip (hpat : sep ∉ pat) (hs : sep ∉ s) (h : ¬pat <:+ s) :
    afterFirst (pat ++ [sep]) (s ++ sep :: t) = afterFirst (pat ++ [sep]) t := by
  have hsplit : s ++ sep :: t = (s ++ [sep]) ++ t := by simp
  rw [hsplit]
  refine afterFirst_append fun u v huv hv hstarts => ?_
  obtain ⟨w, x, rfl⟩ := v.eq_nil_or_concat'.resolve_left hv
  obtain ⟨rfl, hx⟩ : s = u ++ w ∧ [sep] = [x] :=
    List.append_inj' (huv.trans (List.append_assoc u w [x]).symm) rfl
  obtain rfl := List.singleton_inj.mp hx
  rw [List.append_assoc, List.singleton_append,
    closed_prefix_iff hpat fun hmem => hs (List.mem_append_right u hmem)] at hstarts
  exact h (hstarts ▸ List.suffix_append u w)

/-- A pattern around the separator begins at the end of a piece only where the
next piece begins like its second part. -/
theorem find_closed_skip {pat' : List α} (hpat : sep ∉ pat) (hs : sep ∉ s) (ht : ¬pat' <+: t) :
    find (pat ++ sep :: pat') (s ++ sep :: t) =
      (find (pat ++ sep :: pat') t).map (s.length + 1 + ·) := by
  have hsplit : s ++ sep :: t = (s ++ [sep]) ++ t := by simp
  rw [hsplit, find_append, List.length_append, List.length_singleton]
  intro u v huv hv hstarts
  obtain ⟨w, x, rfl⟩ := v.eq_nil_or_concat'.resolve_left hv
  obtain ⟨rfl, hx⟩ : s = u ++ w ∧ [sep] = [x] :=
    List.append_inj' (huv.trans (List.append_assoc u w [x]).symm) rfl
  obtain rfl := List.singleton_inj.mp hx
  have hw : sep ∉ w := fun hmem => hs (List.mem_append_right u hmem)
  rw [List.append_assoc, List.singleton_append] at hstarts
  have hclosed : pat ++ [sep] <+: w ++ sep :: t :=
    List.IsPrefix.trans ⟨pat', by simp⟩ hstarts
  obtain rfl := (closed_prefix_iff hpat hw).mp hclosed
  exact ht (List.cons_prefix_cons.mp ((List.prefix_append_right_inj pat).mp hstarts)).2

theorem between_skip (hsep : sep ∉ pat) (h : ¬pat <:+: s) :
    between pat sep (s ++ sep :: t) = between pat sep t := by
  rw [between, afterFirst_skip hsep h, between]

theorem between_eq_map_search : between pat sep s = (search pat sep s).map Prod.fst := by
  rw [between, search, Option.map_bind]
  refine Option.bind_congr fun rest _ => ?_
  rw [Function.comp_apply, splitFirst]
  split_ifs <;> rfl

theorem search_of_notMem (h : sep ∉ s) : search pat sep s = none := by
  rw [search, Option.bind_eq_none_iff]
  intro rest hrest
  obtain ⟨before, rfl⟩ := afterFirst_eq_some hrest
  rw [splitFirst_eq_none_iff]
  exact fun hmem => h (by simp [hmem])

theorem search_skip (hsep : sep ∉ pat) (h : ¬pat <:+: s) :
    search pat sep (s ++ sep :: t) = search pat sep t := by
  rw [search, afterFirst_skip hsep h, search]

theorem search_append_self (hpat : pat ≠ []) (hs : sep ∉ s) :
    search pat sep (pat ++ s ++ sep :: t) = some (s, t) := by
  rw [search, List.append_assoc, afterFirst_append_self hpat, Option.bind_some,
    splitFirst_append hs]

theorem search_of_isInfix (hsep : sep ∉ pat) (hs : sep ∉ s) (h : pat <:+: s) :
    ∃ value, ∀ t, search pat sep (s ++ sep :: t) = some (value, t) := by
  obtain ⟨rest, hsuffix, hrest⟩ := afterFirst_of_isInfix hsep h
  refine ⟨rest, fun t => ?_⟩
  rw [search, hrest, Option.bind_some, splitFirst_append fun hmem => hs (hsuffix.subset hmem)]

theorem notMem_of_between {value : List α} (h : between pat sep s = some value) : sep ∉ value := by
  obtain ⟨rest, _, h⟩ := Option.bind_eq_some_iff.mp h
  split_ifs at h
  rw [← Option.some.inj h]
  intro hmem
  simpa using List.all_eq_true.mp List.all_takeWhile _ hmem

theorem between_of_isInfix (hsep : sep ∉ pat) (hs : sep ∉ s) (h : pat <:+: s) :
    ∃ value, ∀ t, between pat sep (s ++ sep :: t) = some value := by
  obtain ⟨rest, hsuffix, hrest⟩ := afterFirst_of_isInfix hsep h
  refine ⟨rest, fun t => ?_⟩
  rw [between, hrest, Option.bind_some, if_pos (by simp),
    takeWhile_ne_append fun hmem => hs (hsuffix.subset hmem)]

end Separator

theorem splitLast_eq_none (h : ¬pat <:+: s) : splitLast pat s = none := by
  induction s with
  | nil =>
      have hpat : pat ≠ [] := fun heq => h (by simp [heq])
      rw [splitLast, if_neg hpat]
  | cons c s ih =>
      rw [splitLast, ih fun hoccurs => h (hoccurs.trans (List.infix_cons (List.infix_refl s)))]
      exact if_neg fun hstarts => h hstarts.isInfix

omit [DecidableEq α] in
/-- A pattern that begins with a separator does not occur where only the end is
one. -/
theorem not_cons_isInfix {sep : α} (hpat : pat ≠ []) (h : sep ∉ s) :
    ¬(sep :: pat) <:+: s ++ [sep] := by
  rintro ⟨u, v, huv⟩
  obtain ⟨r, x, hr⟩ := (pat ++ v).eq_nil_or_concat'.resolve_left (by simp [hpat])
  have hsplit : (u ++ sep :: r) ++ [x] = s ++ [sep] := by
    rw [← huv, List.append_assoc, List.append_assoc, List.cons_append, ← hr, List.cons_append]
  obtain ⟨rfl, _⟩ := List.append_inj' hsplit rfl
  exact h (by simp)

/-- The last occurrence is the one behind which no other ends. -/
theorem splitLast_append (hpat : pat ≠ []) (h : ¬pat <:+: pat.tail ++ t) :
    splitLast pat (s ++ pat ++ t) = some (s, t) := by
  induction s with
  | nil =>
      obtain ⟨c, cs, rfl⟩ := List.exists_cons_of_ne_nil hpat
      rw [List.tail_cons] at h
      rw [List.nil_append, List.cons_append, splitLast, splitLast_eq_none h]
      simp
  | cons c s ih =>
      rw [List.cons_append, List.cons_append, splitLast, ih]

end Search

end Text
