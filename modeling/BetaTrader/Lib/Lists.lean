import Mathlib.Algebra.Order.BigOperators.Group.List
import Mathlib.Algebra.Order.Ring.Nat
import Mathlib.Data.List.Chain
import Mathlib.Data.List.Nodup

/-!
# Lists, zips and folds
-/

namespace Lists

variable {α β γ : Type*}

theorem zip_map_snd (xs : List α) (ys : List β) :
    (xs.zip ys).map Prod.snd = ys.take xs.length := by
  induction xs generalizing ys with
  | nil => rfl
  | cons x xs ih => cases ys <;> simp [ih]

theorem mem_zip_of_prefix {xs' xs : List α} (h : xs' <+: xs) {ys : List β}
    {p : α × β} (hp : p ∈ xs'.zip ys) : p ∈ xs.zip ys := by
  obtain ⟨rest, rfl⟩ := h
  induction xs' generalizing ys with
  | nil => simp at hp
  | cons x xs' ih =>
      cases ys with
      | nil => simp at hp
      | cons y ys =>
          rw [List.zip_cons_cons, List.mem_cons] at hp
          rw [List.cons_append, List.zip_cons_cons, List.mem_cons]
          exact hp.imp_right ih

/-- A list that is in order stays so if the next element follows on the last. -/
theorem pairwise_concat_iff {r : α → α → Prop} [IsTrans α r] {xs : List α} {x : α} :
    (xs ++ [x]).Pairwise r ↔ xs.Pairwise r ∧ ∀ y ∈ xs.getLast?, r y x := by
  rw [← List.isChain_iff_pairwise, ← List.isChain_iff_pairwise, List.isChain_append]
  simp

theorem filter_fst_eq [DecidableEq α] {calls : List (α × β)}
    (hnodup : (calls.map Prod.fst).Nodup) {call : α × β} (hcall : call ∈ calls) :
    calls.filter (fun c => c.1 = call.1) = [call] := by
  induction calls with
  | nil => simp at hcall
  | cons c calls ih =>
      rw [List.map_cons, List.nodup_cons] at hnodup
      rcases List.mem_cons.mp hcall with rfl | hcall
      · rw [List.filter_cons_of_pos (by simp), List.filter_eq_nil_iff.mpr fun c hc => ?_]
        have hne : c.1 ≠ call.1 := fun heq => hnodup.1 (heq ▸ List.mem_map_of_mem hc)
        simpa using hne
      · have hne : c.1 ≠ call.1 := fun heq => hnodup.1 (heq ▸ List.mem_map_of_mem hcall)
        rw [List.filter_cons_of_neg (by simpa using hne), ih hnodup.2 hcall]

/-- Appending the same elements, or fewer of them, to a shorter list. -/
theorem append_eq_append_iff_of_sublist {xs xs' ys ys' : List α}
    (hxs : xs.Sublist xs') (hys : ys.Sublist ys') :
    xs ++ ys = xs' ++ ys' ↔ xs = xs' ∧ ys = ys' := by
  constructor
  · intro heq
    have hlength := congrArg List.length heq
    rw [List.length_append, List.length_append] at hlength
    have hx := hxs.length_le
    have hy := hys.length_le
    exact ⟨hxs.eq_of_length (by omega), hys.eq_of_length (by omega)⟩
  · rintro ⟨rfl, rfl⟩
    rfl

/-- A fold over steps that change nothing. -/
theorem foldl_eq_self {g : γ → α → γ} {xs : List α} (h : ∀ x ∈ xs, ∀ c, g c x = c) (c : γ) :
    xs.foldl g c = c := by
  induction xs with
  | nil => rfl
  | cons x xs ih =>
      rw [List.foldl_cons, h x (by simp) c]
      exact ih fun y hy => h y (List.mem_cons_of_mem x hy)

/-- A fold that comes to an element whose step does not look at what was before. -/
theorem foldl_eq_of_reset {g : γ → α → γ} {xs : List α}
    (h : ∃ x ∈ xs, ∀ c c', g c x = g c' x) (c c' : γ) : xs.foldl g c = xs.foldl g c' := by
  induction xs generalizing c c' with
  | nil => simp at h
  | cons x xs ih =>
      obtain ⟨y, hy, hreset⟩ := h
      rcases List.mem_cons.mp hy with rfl | hy
      · rw [List.foldl_cons, List.foldl_cons, hreset c c']
      · exact ih ⟨y, hy, hreset⟩ _ _

/-- Two lists with the same elements are equal if there is one element at most. -/
theorem eq_of_mem_iff {xs ys : List α} (hxs : xs.Nodup) (hys : ys.Nodup)
    (hmem : ∀ x, x ∈ xs ↔ x ∈ ys) (hone : ∀ x ∈ ys, ∀ y ∈ ys, x = y) : xs = ys := by
  have hperm : xs.Perm ys := (List.perm_ext_iff_of_nodup hxs hys).mpr hmem
  cases ys with
  | nil => exact hperm.eq_nil
  | cons y ys =>
      cases ys with
      | nil => exact List.perm_singleton.mp hperm
      | cons z ys =>
          have heq : y = z := hone y (by simp) z (by simp)
          simp [heq] at hys

/-- A list without repetitions that is its own reverse has one element at most. -/
theorem eq_of_mem_of_reverse_eq {xs : List α} (hxs : xs.Nodup) (hreverse : xs.reverse = xs)
    {x y : α} (hx : x ∈ xs) (hy : y ∈ xs) : x = y := by
  cases xs with
  | nil => exact (List.not_mem_nil hx).elim
  | cons z xs =>
      have hlength : xs.length = 0 := by
        have hlast : (z :: xs)[xs.length]? = some z := by
          rw [← hreverse, List.getElem?_reverse (by simp)]
          simp
        have hfirst : (z :: xs)[0]? = some z := rfl
        exact (List.getElem?_inj (Nat.lt_succ_self _) hxs).mp (hlast.trans hfirst.symm)
      have hnil : xs = [] := List.eq_nil_of_length_eq_zero hlength
      rw [hnil, List.mem_singleton] at hx hy
      rw [hx, hy]

theorem rel_imp {r r' : α → β → Prop} {a : Option α} {b : Option β} (h : Option.Rel r a b)
    (himp : ∀ x y, a = some x → b = some y → r x y → r' x y) : Option.Rel r' a b := by
  cases h with
  | none => exact Option.Rel.none
  | some h => exact Option.Rel.some (himp _ _ rfl rfl h)

theorem exists_of_rel_some {r : α → β → Prop} {a : Option α} {b : β}
    (h : Option.Rel r a (some b)) : ∃ x, a = some x ∧ r x b := by
  cases h with
  | some h => exact ⟨_, rfl, h⟩

theorem exists_of_some_rel {r : α → β → Prop} {a : α} {b : Option β}
    (h : Option.Rel r (some a) b) : ∃ y, b = some y ∧ r a y := by
  cases h with
  | some h => exact ⟨_, rfl, h⟩

/-- A sum shrinks when terms leave it or become smaller, and one that counted
does. -/
theorem sum_map_lt_of_subperm {xs xs' : List α} (hsub : xs'.Subperm xs) {f f' : α → ℕ}
    (hle : ∀ x ∈ xs', f' x ≤ f x) {x : α} (hx : x ∈ xs) (hpos : 0 < f x)
    (hlt : x ∈ xs' → f' x < f x) : (xs'.map f').sum < (xs.map f).sum := by
  obtain ⟨kept, hkept, hsublist⟩ := hsub
  obtain ⟨rest, hrest⟩ := hsublist.exists_perm_append
  have hsum : (xs.map f).sum = (xs'.map f).sum + (rest.map f).sum := by
    have hperm : xs.Perm (xs' ++ rest) := hrest.trans (hkept.append_right rest)
    rw [(hperm.map f).sum_eq, List.map_append, List.sum_append]
  have hsmaller : (xs'.map f').sum ≤ (xs'.map f).sum := List.sum_le_sum hle
  by_cases hmem : x ∈ xs'
  · have hless : (xs'.map f').sum < (xs'.map f).sum :=
      List.sum_lt_sum f' f hle ⟨x, hmem, hlt hmem⟩
    omega
  · have hleft : x ∈ rest := by
      have hperm : x ∈ kept ++ rest := hrest.mem_iff.mp hx
      exact (List.mem_append.mp hperm).resolve_left fun h => hmem (hkept.mem_iff.mp h)
    have hterm : f x ≤ (rest.map f).sum :=
      List.single_le_sum (by simp) _ (List.mem_map_of_mem hleft)
    omega

end Lists
