import BetaTrader.Lib.Levels

/-!
# Levels and stable sorting

Elements that arrive one after another are kept in levels of their keys, or in
one list in the order of arrival.  The levels hold the list sorted by keys, with
the order of arrival inside a key: both are lists in key order, and such a list
is determined by what it holds of each key.
-/

namespace Levels

variable {K α β : Type*}

/-- No element stands in front of one whose key comes before its own. -/
def InKeyOrder (before : K → K → Prop) (key : α → K) (xs : List α) : Prop :=
  xs.Pairwise fun a b => ¬before (key b) (key a)

/-- The elements in the order of their keys, those of one key as they were. -/
def sortByKey (before : K → K → Prop) [DecidableRel before] (key : α → K) (xs : List α) :
    List α :=
  xs.insertionSort fun a b => ¬before (key b) (key a)

variable {before : K → K → Prop} {key : α → K} {xs ys : List α}

theorem InKeyOrder.sublist (h : InKeyOrder before key ys) (hsub : xs.Sublist ys) :
    InKeyOrder before key xs := List.Pairwise.sublist hsub h

theorem perm_sortByKey [DecidableRel before] (xs : List α) :
    (sortByKey before key xs).Perm xs := List.perm_insertionSort _ xs

@[simp] theorem mem_sortByKey [DecidableRel before] {x : α} :
    x ∈ sortByKey before key xs ↔ x ∈ xs := (perm_sortByKey xs).mem_iff

variable [IsStrictTotalOrder K before]

theorem inKeyOrder_sortByKey [DecidableRel before] (xs : List α) :
    InKeyOrder before key (sortByKey before key xs) := by
  have htotal : Std.Total fun a b : α => ¬before (key b) (key a) := by
    refine ⟨fun a b => ?_⟩
    by_contra hnot
    rw [not_or, not_not, not_not] at hnot
    exact asymm_of before hnot.1 hnot.2
  have htrans : IsTrans α fun a b : α => ¬before (key b) (key a) := by
    refine ⟨fun a b c hab hbc hca => ?_⟩
    rcases trichotomous_of before (key b) (key c) with h | h | h
    · exact hab (trans_of before h hca)
    · exact hab (h ▸ hca)
    · exact hbc h
  exact List.pairwise_insertionSort _ xs

theorem inKeyOrder_queue {levels : List (K × List α)} (hsorted : Sorted before levels)
    (hkey : All (fun k x => key x = k) levels) : InKeyOrder before key (queue levels) := by
  refine List.pairwise_flatMap.mpr ⟨fun l hl => ?_, hsorted.imp_of_mem fun {l m} hl hm h => ?_⟩
  · refine List.Pairwise.imp_of_mem (fun {a b} ha hb _ => ?_)
      (List.pairwise_of_forall fun _ _ => trivial)
    rw [hkey l hl a ha, hkey l hl b hb]
    exact irrefl_of before l.1
  · intro a ha b hb
    rw [hkey l hl a ha, hkey m hm b hb]
    exact asymm_of before h

variable [DecidableEq K]

/-- A list in key order is determined by what it holds of each key. -/
theorem InKeyOrder.ext (hxs : InKeyOrder before key xs) (hys : InKeyOrder before key ys)
    (h : ∀ k, xs.filter (fun x => key x = k) = ys.filter fun y => key y = k) : xs = ys := by
  induction xs generalizing ys with
  | nil =>
      refine (List.eq_nil_iff_forall_not_mem.mpr fun y hy => ?_).symm
      have hmem : y ∈ ys.filter fun z => key z = key y := List.mem_filter.mpr ⟨hy, by simp⟩
      rw [← h (key y)] at hmem
      exact List.not_mem_nil hmem
  | cons x xs ih =>
      obtain ⟨hx, hxs⟩ := List.pairwise_cons.mp hxs
      cases ys with
      | nil =>
          have hnil := h (key x)
          rw [List.filter_cons_of_pos (by simp)] at hnil
          exact (List.cons_ne_nil _ _ hnil).elim
      | cons y ys =>
          obtain ⟨hy, hys'⟩ := List.pairwise_cons.mp hys
          -- neither key comes before the other, since both heads occur in both lists
          have hmem : ∀ {u v : α} {us vs : List α},
              (u :: us).filter (fun x => key x = key u) =
                (v :: vs).filter (fun y => key y = key u) → u ∈ v :: vs := by
            intro u v us vs heq
            apply List.mem_of_mem_filter
            rw [← heq]
            exact List.mem_filter.mpr ⟨List.mem_cons_self, by simp⟩
          have hxy : ¬before (key x) (key y) := by
            rcases List.mem_cons.mp (hmem (h (key x))) with rfl | hmem
            · exact irrefl_of before _
            · exact hy x hmem
          have hyx : ¬before (key y) (key x) := by
            rcases List.mem_cons.mp (hmem (h (key y)).symm) with rfl | hmem
            · exact irrefl_of before _
            · exact hx y hmem
          have hkey : key x = key y :=
            ((trichotomous_of before (key x) (key y)).resolve_left hxy).resolve_right hyx
          have hhead := h (key x)
          rw [List.filter_cons_of_pos (by simp), List.filter_cons_of_pos (by simp [hkey])] at hhead
          obtain ⟨rfl, htail⟩ := List.cons.inj hhead
          refine congrArg _ (ih hxs hys' fun k => ?_)
          by_cases hk : key x = k
          · exact hk ▸ htail
          · simpa [hk] using h k

variable [DecidableRel before]

/-- Sorting leaves the elements of one key in their order. -/
theorem filter_key_sortByKey (xs : List α) (k : K) :
    (sortByKey before key xs).filter (fun x => key x = k) = xs.filter fun x => key x = k := by
  have hsub : (xs.filter fun x => key x = k).Sublist (sortByKey before key xs) := by
    refine List.sublist_insertionSort ?_ List.filter_sublist
    refine List.pairwise_filter.mpr (List.pairwise_of_forall fun a b ha hb => ?_)
    rw [of_decide_eq_true ha, of_decide_eq_true hb]
    exact irrefl_of before k
  have hfilter := hsub.filter fun x => key x = k
  rw [List.filter_filter] at hfilter
  simp only [Bool.and_self] at hfilter
  exact (hfilter.eq_of_length ((perm_sortByKey xs).filter _).length_eq.symm).symm

theorem eq_sortByKey (h : InKeyOrder before key ys)
    (heq : ∀ k, ys.filter (fun y => key y = k) = xs.filter fun x => key x = k) :
    ys = sortByKey before key xs := by
  apply h.ext (inKeyOrder_sortByKey xs)
  intro k
  rw [heq, filter_key_sortByKey]

theorem filter_sortByKey (p : α → Bool) (xs : List α) :
    (sortByKey before key xs).filter p = sortByKey before key (xs.filter p) := by
  apply eq_sortByKey ((inKeyOrder_sortByKey xs).sublist List.filter_sublist)
  intro k
  rw [List.filter_comm, filter_key_sortByKey, List.filter_comm]

/-- The level of a key is what the queue holds of it. -/
theorem filter_key_queue {levels : List (K × List α)}
    (hkey : All (fun k x => key x = k) levels) (k : K) :
    (queue levels).filter (fun x => key x = k) = level k levels := by
  induction levels with
  | nil => rfl
  | cons l levels ih =>
      obtain ⟨hl, hlevels⟩ := all_cons.mp hkey
      rw [queue_cons, List.filter_append, ih hlevels, level_cons]
      split_ifs with h
      · rw [List.filter_eq_self.mpr fun x hx => by simpa using (hl x hx).trans h]
      · rw [List.filter_eq_nil_iff.mpr fun x hx => by simpa using (hl x hx) ▸ h]

section Regroup

variable {levels : List (K × List β)}

/-- The elements of `xs` under the keys of `levels`. -/
def regroup (key : α → K) (xs : List α) (levels : List (K × List β)) : List (K × List α) :=
  levels.map fun l => (l.1, xs.filter fun x => key x = l.1)

omit [DecidableRel before] in
theorem level_regroup (hsorted : Sorted before levels) {k : K} (hk : ∃ l ∈ levels, l.1 = k) :
    level k (regroup key xs levels) = xs.filter fun x => key x = k := by
  induction levels with
  | nil => simp at hk
  | cons l levels ih =>
      obtain ⟨hl, hlevels⟩ := List.pairwise_cons.mp hsorted
      rw [regroup, List.map_cons, level_cons]
      by_cases hkey : l.1 = k
      · have hnil : level k (regroup key xs levels) = [] := by
          refine level_eq_nil fun m hm heq => ?_
          obtain ⟨n, hn, rfl⟩ := List.mem_map.mp hm
          have hbefore : before l.1 n.1 := hl n hn
          rw [hkey, ← heq] at hbefore
          exact irrefl_of before _ hbefore
        rw [if_pos hkey, ← regroup, hnil, List.append_nil, hkey]
      · obtain ⟨m, hm, hmk⟩ := hk
        have hmem : m ∈ levels :=
          (List.mem_cons.mp hm).resolve_left fun heq => hkey (heq ▸ hmk)
        rw [if_neg hkey, List.nil_append]
        exact ih hlevels ⟨m, hmem, hmk⟩

theorem all_regroup : All (fun k x => key x = k) (regroup key xs levels) := by
  intro l hl x hx
  obtain ⟨m, _, rfl⟩ := List.mem_map.mp hl
  exact of_decide_eq_true (List.mem_filter.mp hx).2

/-- Levels that hold of each key what a list holds of it form the sorted list. -/
theorem queue_eq_map_sortByKey {g : α → β} (hsorted : Sorted before levels)
    (hne : NoEmpty levels)
    (hlevel : ∀ k, level k levels = (xs.filter fun x => key x = k).map g) :
    queue levels = (sortByKey before key xs).map g := by
  have hqueue : queue levels = (queue (regroup key xs levels)).map g := by
    rw [queue, queue, regroup, List.flatMap_map, List.map_flatMap]
    refine List.flatMap_congr fun l hl => ?_
    rw [← hlevel, ((mem_iff_level hsorted hne).mp hl).2]
  rw [hqueue]
  refine congrArg _ (eq_sortByKey (inKeyOrder_queue ?_ all_regroup) fun k => ?_)
  · exact List.pairwise_map.mpr hsorted
  rw [filter_key_queue all_regroup]
  by_cases hk : ∃ l ∈ levels, l.1 = k
  · exact level_regroup hsorted hk
  · -- a key without a level has no elements
    rw [not_exists] at hk
    have hnone : level k levels = [] := level_eq_nil fun l hl heq => hk l ⟨hl, heq⟩
    rw [hlevel, List.map_eq_nil_iff] at hnone
    rw [hnone]
    refine level_eq_nil fun m hm heq => ?_
    obtain ⟨l, hl, rfl⟩ := List.mem_map.mp hm
    exact hk l ⟨hl, heq⟩

end Regroup

end Levels
