import Mathlib.Algebra.BigOperators.Group.List.Basic
import Mathlib.Algebra.Order.Group.Nat
import Mathlib.Tactic.Ring

/-!
# Greedy allocation along a queue

A demand is served by a queue of suppliers, each with a capacity: the first
supplier gives as much as it can, then the second, and so on until the demand
is met or the queue ends.  `fills` lists what each touched supplier gives and
`exhausted` the suppliers that have given everything they had.
-/

namespace Allocation

variable {α : Type*} (cap : α → ℕ)

/-- The total capacity of a queue. -/
def total (queue : List α) : ℕ := (queue.map cap).sum

/-- The suppliers the demand reaches, each with the amount it gives. -/
def fills : ℕ → List α → List (α × ℕ)
  | _, [] => []
  | demand, x :: queue =>
      if demand = 0 then []
      else (x, min demand (cap x)) :: fills (demand - min demand (cap x)) queue

/-- The suppliers the demand uses up. -/
def exhausted : ℕ → List α → List α
  | _, [] => []
  | demand, x :: queue =>
      if demand = 0 then []
      else if cap x ≤ demand then x :: exhausted (demand - cap x) queue
      else []

variable {cap}

@[simp] theorem total_nil : total cap [] = 0 := rfl

@[simp] theorem total_cons (x : α) (queue : List α) :
    total cap (x :: queue) = cap x + total cap queue := by
  simp [total]

@[simp] theorem total_append (xs ys : List α) :
    total cap (xs ++ ys) = total cap xs + total cap ys := by
  simp [total]

@[simp] theorem fills_nil (demand : ℕ) : fills cap demand [] = [] := rfl

@[simp] theorem fills_zero (queue : List α) : fills cap 0 queue = [] := by
  cases queue <;> simp [fills]

theorem fills_cons {demand : ℕ} (hd : demand ≠ 0) (x : α) (queue : List α) :
    fills cap demand (x :: queue) =
      (x, min demand (cap x)) :: fills cap (demand - min demand (cap x)) queue := by
  simp [fills, hd]

theorem fills_eq_nil_iff {demand : ℕ} {queue : List α} :
    fills cap demand queue = [] ↔ demand = 0 ∨ queue = [] := by
  cases queue with
  | nil => simp
  | cons x queue => simp [fills]

/-- What is asked of a supplier depends on its capacity alone. -/
theorem fills_map {β : Type*} (f : β → α) (demand : ℕ) (queue : List β) :
    fills cap demand (queue.map f) =
      (fills (fun y => cap (f y)) demand queue).map fun g => (f g.1, g.2) := by
  induction queue generalizing demand with
  | nil => rfl
  | cons y queue ih =>
      by_cases hd : demand = 0
      · simp [hd]
      · rw [List.map_cons, fills_cons hd, fills_cons hd, ih, List.map_cons]

/-- One supplier suffices if it is alone or can serve the whole demand. -/
theorem length_fills_le_one_iff {demand : ℕ} {queue : List α} :
    (fills cap demand queue).length ≤ 1 ↔
      queue.length ≤ 1 ∨ ∀ x ∈ queue.head?, demand ≤ cap x := by
  cases queue with
  | nil => simp
  | cons x queue =>
      by_cases hd : demand = 0
      · simp [hd]
      · have hone : ∀ n, n + 1 ≤ 1 ↔ n = 0 := fun n => by omega
        rw [fills_cons hd, List.length_cons, List.length_cons]
        simp only [hone, List.length_eq_zero_iff, fills_eq_nil_iff, List.head?_cons,
          Option.mem_def, Option.some.injEq, forall_eq']
        constructor
        · rintro (hzero | hnil)
          · exact Or.inr (by omega)
          · exact Or.inl hnil
        · rintro (hnil | hle)
          · exact Or.inr hnil
          · exact Or.inl (by omega)

/-- Fewer suppliers with less each have less in total. -/
theorem total_le_of_sublist {cap' : α → ℕ} {xs ys : List α} (h : xs.Sublist ys)
    (hle : ∀ x ∈ xs, cap x ≤ cap' x) : total cap xs ≤ total cap' ys := by
  induction h with
  | slnil => exact Nat.le_refl 0
  | cons y _ ih =>
      rw [total_cons]
      exact (ih hle).trans (Nat.le_add_left _ _)
  | cons_cons x _ ih =>
      obtain ⟨hx, hrest⟩ := List.forall_mem_cons.mp hle
      rw [total_cons, total_cons]
      exact Nat.add_le_add hx (ih hrest)

theorem total_congr {cap' : α → ℕ} {xs : List α} (h : ∀ x ∈ xs, cap x = cap' x) :
    total cap xs = total cap' xs := congrArg List.sum (List.map_congr_left h)

theorem total_pos {queue : List α} (hpos : ∀ x ∈ queue, 0 < cap x) (h : queue ≠ []) :
    0 < total cap queue := by
  cases queue with
  | nil => exact (h rfl).elim
  | cons x queue =>
      rw [total_cons]
      exact Nat.add_pos_left (hpos x (by simp)) _

@[simp] theorem exhausted_nil (demand : ℕ) : exhausted cap demand [] = [] := rfl

@[simp] theorem exhausted_zero (queue : List α) : exhausted cap 0 queue = [] := by
  cases queue <;> simp [exhausted]

/-- The amounts add up to the demand, or to the whole queue if that is less. -/
theorem sum_fills (demand : ℕ) (queue : List α) :
    ((fills cap demand queue).map Prod.snd).sum = min demand (total cap queue) := by
  induction queue generalizing demand with
  | nil => simp
  | cons x queue ih =>
      by_cases hd : demand = 0
      · simp [hd]
      · rw [fills_cons hd, List.map_cons, List.sum_cons, ih, total_cons]
        omega

/-- A demand that exceeds the queue takes all that there is. -/
theorem fills_of_total_lt {demand : ℕ} {queue : List α} (h : total cap queue < demand) :
    fills cap demand queue = queue.map fun x => (x, cap x) := by
  induction queue generalizing demand with
  | nil => rfl
  | cons x queue ih =>
      rw [total_cons] at h
      have hmin : min demand (cap x) = cap x := by omega
      rw [fills_cons (by omega), hmin, ih (by omega), List.map_cons]

theorem fills_append (demand : ℕ) (xs ys : List α) :
    fills cap demand (xs ++ ys) =
      fills cap demand xs ++ fills cap (demand - total cap xs) ys := by
  induction xs generalizing demand with
  | nil => simp
  | cons x xs ih =>
      by_cases hd : demand = 0
      · simp [hd]
      · rw [List.cons_append, fills_cons hd, fills_cons hd, ih, List.cons_append, total_cons]
        have hsub : demand - min demand (cap x) - total cap xs =
            demand - (cap x + total cap xs) := by omega
        rw [hsub]

/-- What is left of the demand after one queue is asked of the next. -/
theorem exhausted_append {xs : List α} (hpos : ∀ x ∈ xs, 0 < cap x) (demand : ℕ)
    (ys : List α) :
    exhausted cap demand (xs ++ ys) =
      exhausted cap demand xs ++ exhausted cap (demand - total cap xs) ys := by
  induction xs generalizing demand with
  | nil => simp
  | cons x xs ih =>
      have hcap := hpos x (by simp)
      simp only [List.cons_append, exhausted, total_cons]
      split_ifs with hd hle
      · simp [hd]
      · have hsub : demand - cap x - total cap xs = demand - (cap x + total cap xs) := by omega
        rw [ih (fun y hy => hpos y (List.mem_cons_of_mem x hy)), hsub, List.cons_append]
      · have hzero : demand - (cap x + total cap xs) = 0 := by omega
        rw [hzero, exhausted_zero, List.append_nil]

theorem exhausted_of_total_le {demand : ℕ} {queue : List α} (h : total cap queue ≤ demand)
    (hpos : ∀ x ∈ queue, 0 < cap x) : exhausted cap demand queue = queue := by
  induction queue generalizing demand with
  | nil => rfl
  | cons x queue ih =>
      rw [total_cons] at h
      have hcap := hpos x (by simp)
      rw [exhausted, if_neg (by omega), if_pos (by omega),
        ih (by omega) fun y hy => hpos y (List.mem_cons_of_mem x hy)]

/-- The exhausted suppliers stand at the front of the queue. -/
theorem exhausted_prefix_queue (demand : ℕ) (queue : List α) :
    exhausted cap demand queue <+: queue := by
  induction queue generalizing demand with
  | nil => simp
  | cons x queue ih =>
      simp only [exhausted]
      split_ifs
      · exact List.nil_prefix
      · exact (List.prefix_cons_inj x).mpr (ih _)
      · exact List.nil_prefix

/-- The touched suppliers stand at the front of the queue. -/
theorem fills_prefix_queue (demand : ℕ) (queue : List α) :
    (fills cap demand queue).map Prod.fst <+: queue := by
  induction queue generalizing demand with
  | nil => simp
  | cons x queue ih =>
      by_cases hd : demand = 0
      · simp [hd]
      · rw [fills_cons hd, List.map_cons]
        exact (List.prefix_cons_inj x).mpr (ih _)

theorem mem_queue_of_mem_fills {demand : ℕ} {queue : List α} {f : α × ℕ}
    (hf : f ∈ fills cap demand queue) : f.1 ∈ queue :=
  (fills_prefix_queue demand queue).subset (List.mem_map_of_mem hf)

/-- The demand reaches a supplier if those in front of it do not meet it. -/
theorem mem_map_fst_fills_iff {demand : ℕ} {queue : List α} {x : α} :
    x ∈ (fills cap demand queue).map Prod.fst ↔
      ∃ before behind, queue = before ++ x :: behind ∧ total cap before < demand := by
  induction queue generalizing demand with
  | nil => simp
  | cons y queue ih =>
      by_cases hd : demand = 0
      · simp [hd]
      · rw [fills_cons hd, List.map_cons, List.mem_cons, ih]
        constructor
        · rintro (rfl | ⟨before, behind, rfl, hlt⟩)
          · exact ⟨[], queue, rfl, Nat.pos_of_ne_zero hd⟩
          · refine ⟨y :: before, behind, rfl, ?_⟩
            rw [total_cons]
            omega
        · rintro ⟨before, behind, heq, hlt⟩
          cases before with
          | nil => exact Or.inl (List.cons.inj heq).1.symm
          | cons z before =>
              obtain ⟨rfl, rfl⟩ := List.cons.inj heq
              rw [total_cons] at hlt
              exact Or.inr ⟨before, behind, rfl, by omega⟩

/-- Whoever stands in front of a touched supplier gives all it has. -/
theorem mem_fills_of_sublist {demand : ℕ} {queue : List α} {x y : α} (hnodup : queue.Nodup)
    (hsub : [x, y].Sublist queue) (hy : y ∈ (fills cap demand queue).map Prod.fst) :
    (x, cap x) ∈ fills cap demand queue := by
  obtain ⟨front, behind, rfl, hlt⟩ := mem_map_fst_fills_iff.mp hy
  rw [fills_append, fills_of_total_lt hlt]
  refine List.mem_append_left _ (List.mem_map_of_mem ?_)
  have hy' : y ∉ behind := (List.nodup_cons.mp (List.nodup_append.mp hnodup).2.1).1
  obtain ⟨us, vs, heq, hus, hvs⟩ := List.sublist_append_iff.mp hsub
  cases us with
  | nil =>
      -- nothing stands in front of `y` in the part that begins with it
      rw [List.nil_append] at heq
      rw [← heq] at hvs
      cases hvs with
      | cons _ h => exact (hy' (h.subset (by simp))).elim
      | cons_cons _ h => exact (hy' (h.subset (by simp))).elim
  | cons u us =>
      have hxu : x = u := (List.cons.inj heq).1
      exact hxu ▸ hus.subset List.mem_cons_self

/-- Nobody gives more than it has, and whoever is touched gives something. -/
theorem fills_amount {demand : ℕ} {queue : List α} (hpos : ∀ x ∈ queue, 0 < cap x) :
    ∀ f ∈ fills cap demand queue, 0 < f.2 ∧ f.2 ≤ cap f.1 := by
  induction queue generalizing demand with
  | nil => simp
  | cons x queue ih =>
      by_cases hd : demand = 0
      · simp [hd]
      · intro f hf
        rw [fills_cons hd, List.mem_cons] at hf
        rcases hf with rfl | hf
        · have := hpos x (by simp)
          dsimp only
          omega
        · exact ih (fun y hy => hpos y (List.mem_cons_of_mem x hy)) f hf

/-- The exhausted suppliers are those that give all they have. -/
theorem exhausted_eq_filter {demand : ℕ} {queue : List α} (hpos : ∀ x ∈ queue, 0 < cap x) :
    exhausted cap demand queue =
      ((fills cap demand queue).filter fun f => f.2 = cap f.1).map Prod.fst := by
  induction queue generalizing demand with
  | nil => rfl
  | cons x queue ih =>
      have hcap := hpos x (by simp)
      by_cases hd : demand = 0
      · simp [hd]
      · rw [fills_cons hd, exhausted, if_neg hd]
        split_ifs with hle
        · have hmin : min demand (cap x) = cap x := by omega
          rw [hmin, List.filter_cons_of_pos (by simp), List.map_cons,
            ih fun y hy => hpos y (List.mem_cons_of_mem x hy)]
        · have hzero : demand - min demand (cap x) = 0 := by omega
          have hne : ¬min demand (cap x) = cap x := by omega
          simp [hzero, hne]

/-- Whoever is touched but not exhausted stands right behind the exhausted. -/
theorem exhausted_of_partial {demand : ℕ} {queue : List α} {f : α × ℕ}
    (hf : f ∈ fills cap demand queue) (hlt : f.2 < cap f.1) :
    exhausted cap demand queue ++ [f.1] <+: queue := by
  induction queue generalizing demand with
  | nil => simp at hf
  | cons x queue ih =>
      by_cases hd : demand = 0
      · simp [hd] at hf
      · rw [fills_cons hd, List.mem_cons] at hf
        rw [exhausted, if_neg hd]
        split_ifs with hle
        · have hmin : min demand (cap x) = cap x := by omega
          rcases hf with rfl | hf
          · dsimp only at hlt
            omega
          · exact (List.prefix_cons_inj x).mpr (ih (hmin ▸ hf))
        · have hzero : demand - min demand (cap x) = 0 := by omega
          rw [hzero, fills_zero] at hf
          rcases hf with rfl | hf
          · exact ⟨queue, rfl⟩
          · simp at hf

/-- Nobody but the first is exhausted exactly when the first two together hold
more than is asked for. -/
theorem tail_fills_lt_iff {demand : ℕ} {queue : List α} (hpos : ∀ x ∈ queue, 0 < cap x) :
    (∀ f ∈ (fills cap demand queue).drop 1, f.2 < cap f.1) ↔
      ∀ first second rest, queue = first :: second :: rest →
        demand < cap first + cap second := by
  match queue with
  | [] => simp
  | [x] =>
      by_cases hd : demand = 0
      · simp [hd]
      · simp [fills_cons hd]
  | x :: y :: queue =>
      have hx := hpos x (by simp)
      have hy := hpos y (by simp)
      have hhead : (∀ first second rest, x :: y :: queue = first :: second :: rest →
          demand < cap first + cap second) ↔ demand < cap x + cap y := by
        refine ⟨fun h => h x y queue rfl, fun h first second rest heq => ?_⟩
        cases heq
        exact h
      rw [hhead]
      by_cases hd : demand = 0
      · simp only [hd, fills_zero, List.drop_nil, List.not_mem_nil, false_imp_iff, implies_true,
          true_iff]
        omega
      rw [fills_cons hd, List.drop_one, List.tail_cons]
      by_cases hle : demand ≤ cap x
      · have hzero : demand - min demand (cap x) = 0 := by omega
        simp only [hzero, fills_zero, List.not_mem_nil, false_imp_iff, implies_true, true_iff]
        omega
      · -- the second supplier is asked for what the first has left over
        rw [fills_cons (by omega)]
        constructor
        · intro h
          have hlt := h _ List.mem_cons_self
          dsimp only at hlt
          omega
        · intro h f hf
          have hzero : demand - min demand (cap x) - min (demand - min demand (cap x)) (cap y) =
              0 := by omega
          rw [hzero, fills_zero, List.mem_singleton] at hf
          subst hf
          dsimp only
          omega

end Allocation
