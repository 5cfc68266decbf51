import Mathlib.Data.List.Chain
import Mathlib.Data.List.DropRight

/-!
# The latest entries of a list that is revised at its end

A list changes at its end alone: its last entry is replaced by one with the same key,
or an entry with another key is put behind it.  Whoever is told only of the new entries
can keep the last so many of the list.
-/

namespace Latest

variable {α κ : Type*} (key : α → κ) {xs ys : List α} {x y : α}

/-- The second list is the first one after a new entry. -/
def Grows (xs : List α) (x : α) (ys : List α) : Prop :=
  (ys = xs ++ [x] ∧ ∀ y ∈ xs.getLast?, key y ≠ key x) ∨
    ∃ before y, xs = before ++ [y] ∧ key y = key x ∧ ys = before ++ [x]

variable {key}

theorem Grows.length_le (h : Grows key xs x ys) : xs.length ≤ ys.length := by
  obtain ⟨rfl, _⟩ | ⟨before, y, rfl, _, rfl⟩ := h <;> simp

theorem Grows.append_left (h : Grows key xs x ys) {before : List α}
    (hbefore : xs = [] → ∀ y ∈ before.getLast?, key y ≠ key x) :
    Grows key (before ++ xs) x (before ++ ys) := by
  obtain ⟨rfl, hnew⟩ | ⟨pre, y, rfl, hkey, rfl⟩ := h
  · refine Or.inl ⟨(List.append_assoc ..).symm, ?_⟩
    cases xs using List.reverseRecOn with
    | nil => simpa using hbefore rfl
    | append_singleton pre y => simpa [← List.append_assoc] using hnew
  · exact Or.inr ⟨before ++ pre, y, by simp, hkey, by simp⟩

/-- Without its first entries, the list grows in the same way, or the new entry is the only
one that is left. -/
theorem Grows.drop (h : Grows key xs x ys) {k : ℕ} (hk : k ≤ xs.length) :
    Grows key (xs.drop k) x (ys.drop k) ∨
      k = xs.length ∧ xs.drop k = [] ∧ 0 < k ∧ ys.drop (k - 1) = [x] := by
  obtain ⟨rfl, hnew⟩ | ⟨before, y, rfl, hkey, rfl⟩ := h
  · refine Or.inl (Or.inl ⟨List.drop_append_of_le_length hk, fun y hy => hnew y ?_⟩)
    rw [List.getLast?_drop] at hy
    split_ifs at hy
    · cases hy
    · exact hy
  · rcases Nat.lt_or_eq_of_le hk with hlt | rfl
    · have hle : k ≤ before.length := by simpa using Nat.lt_succ_iff.mp (by simpa using hlt)
      exact Or.inl (Or.inr ⟨before.drop k, y, List.drop_append_of_le_length hle, hkey,
        List.drop_append_of_le_length hle⟩)
    · exact Or.inr ⟨rfl, List.drop_length, by simp, by simp⟩

theorem mem_of_mem_rtake {n : ℕ} (h : x ∈ xs.rtake n) : x ∈ xs := List.mem_of_mem_drop h

variable [DecidableEq κ] (key) (limit : ℕ)

/-- The entries that are kept, after a new one. -/
def keep (xs : List α) (x : α) : List α :=
  if xs.getLast?.map key = some (key x) then xs.dropLast ++ [x]
  else if limit < (xs ++ [x]).length then (xs ++ [x]).tail
  else xs ++ [x]

variable {key limit}

/-- To keep the last entries it is enough to be told of the new ones. -/
theorem keep_rtake (h : Grows key xs x ys) (hlimit : 0 < limit) :
    keep key limit (xs.rtake limit) x = ys.rtake limit := by
  obtain ⟨n, rfl⟩ : ∃ n, limit = n + 1 := ⟨limit - 1, by omega⟩
  obtain ⟨rfl, hnew⟩ | ⟨before, y, rfl, hkey, rfl⟩ := h
  · have hlast : (xs.rtake (n + 1)).getLast?.map key ≠ some (key x) := by
      cases xs using List.reverseRecOn with
      | nil => simp
      | append_singleton pre y =>
          rw [List.rtake_concat_succ, List.getLast?_concat]
          simpa using hnew y List.getLast?_concat
    have hlength : (xs.rtake (n + 1) ++ [x]).length = min xs.length (n + 1) + 1 := by
      simp only [List.rtake, List.length_append, List.length_drop, List.length_singleton]
      omega
    rw [keep, if_neg hlast, hlength, List.rtake_concat_succ]
    split_ifs with hlong
    · have hle : n + 1 ≤ xs.length := by omega
      have hne : xs.rtake (n + 1) ≠ [] := by
        rw [← List.length_pos_iff, List.rtake, List.length_drop]
        omega
      rw [List.tail_append_of_ne_nil hne, List.rtake, List.rtake, List.tail_drop,
        show xs.length - (n + 1) + 1 = xs.length - n by omega]
    · rw [List.rtake, List.rtake, Nat.sub_eq_zero_of_le (by omega : xs.length ≤ n + 1),
        Nat.sub_eq_zero_of_le (by omega : xs.length ≤ n)]
  · rw [keep, List.rtake_concat_succ, List.rtake_concat_succ, if_pos (by simp [hkey]),
      List.dropLast_concat]

/-- Entries of which no two in a row have one key are all kept, as far as they fit. -/
theorem foldl_keep (hlimit : 0 < limit) (hkeys : xs.IsChain (key · ≠ key ·)) :
    xs.foldl (keep key limit) [] = xs.rtake limit := by
  induction xs using List.reverseRecOn with
  | nil => simp
  | append_singleton xs x ih =>
      obtain ⟨hinit, _, hlast⟩ := List.isChain_append.mp hkeys
      rw [List.foldl_concat, ih hinit]
      exact keep_rtake (Or.inl ⟨rfl, fun y hy => hlast y hy x rfl⟩) hlimit

end Latest
