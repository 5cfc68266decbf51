import Mathlib.Order.Defs.Unbundled
import Mathlib.Order.RelClasses
import Mathlib.Data.List.Pairwise
import Mathlib.Data.List.Nodup
import Mathlib.Data.List.Perm.Basic
import Mathlib.Data.List.Sort

/-!
# Keyed levels of queues

An ordered map from keys to queues, held as the list of its entries in the
order of a comparison `before`.  `pushBack` appends to the queue of a key and
creates the entry when it is missing; `prune` drops elements and the entries
that become empty.  The elements in key order, and in queue order inside a
key, form the queue of the whole map.
-/

namespace Levels

variable {K α : Type*}

/-- All elements, first key first and oldest first inside a key. -/
def queue (levels : List (K × List α)) : List α := levels.flatMap Prod.snd

/-- Append `x` to the queue at `key`. -/
def pushBack (before : K → K → Prop) [DecidableRel before] (key : K) (x : α) :
    List (K × List α) → List (K × List α)
  | [] => [(key, [x])]
  | (k, xs) :: levels =>
      if before k key then (k, xs) :: pushBack before key x levels
      else if before key k then (key, [x]) :: (k, xs) :: levels
      else (k, xs ++ [x]) :: levels

/-- The queue that `pushBack` appends to; empty if it creates the entry. -/
def joined (before : K → K → Prop) [DecidableRel before] (key : K) :
    List (K × List α) → List α
  | [] => []
  | (k, xs) :: levels =>
      if before k key then joined before key levels
      else if before key k then []
      else xs

/-- Keep the elements that satisfy `keep`, and the entries that have any. -/
def prune (keep : α → Bool) : List (K × List α) → List (K × List α)
  | [] => []
  | (k, xs) :: levels =>
      if (xs.filter keep).isEmpty then prune keep levels
      else (k, xs.filter keep) :: prune keep levels

/-- The keys stand in the order of the map. -/
def Sorted (before : K → K → Prop) (levels : List (K × List α)) : Prop :=
  levels.Pairwise fun a b => before a.1 b.1

/-- No entry has an empty queue. -/
def NoEmpty (levels : List (K × List α)) : Prop := ∀ l ∈ levels, l.2 ≠ []

/-- Every element is related to the key it is stored under. -/
def All (R : K → α → Prop) (levels : List (K × List α)) : Prop :=
  ∀ l ∈ levels, ∀ x ∈ l.2, R l.1 x

@[simp] theorem queue_nil : queue ([] : List (K × List α)) = [] := rfl

@[simp] theorem queue_cons (l : K × List α) (levels : List (K × List α)) :
    queue (l :: levels) = l.2 ++ queue levels := rfl

@[simp] theorem queue_append (xs ys : List (K × List α)) :
    queue (xs ++ ys) = queue xs ++ queue ys := by
  simp [queue]

theorem mem_queue {levels : List (K × List α)} {x : α} :
    x ∈ queue levels ↔ ∃ l ∈ levels, x ∈ l.2 := by
  simp [queue]

theorem noEmpty_nil : NoEmpty ([] : List (K × List α)) := by
  simp [NoEmpty]

theorem all_nil {R : K → α → Prop} : All R [] := by
  simp [All]

theorem noEmpty_cons {l : K × List α} {levels : List (K × List α)} :
    NoEmpty (l :: levels) ↔ l.2 ≠ [] ∧ NoEmpty levels := by
  simp [NoEmpty]

theorem all_cons {R : K → α → Prop} {l : K × List α} {levels : List (K × List α)} :
    All R (l :: levels) ↔ (∀ x ∈ l.2, R l.1 x) ∧ All R levels := by
  simp [All]

theorem All.of_mem {R : K → α → Prop} {levels : List (K × List α)} (h : All R levels) {x : α}
    (hx : x ∈ queue levels) : ∃ k, R k x := by
  obtain ⟨l, hl, hx⟩ := mem_queue.mp hx
  exact ⟨l.1, h l hl x hx⟩

theorem All.mono {R S : K → α → Prop} {levels : List (K × List α)} (h : All R levels)
    (hRS : ∀ k x, x ∈ queue levels → R k x → S k x) : All S levels :=
  fun l hl x hx => hRS l.1 x (mem_queue.mpr ⟨l, hl, hx⟩) (h l hl x hx)

/-- If nobody behind a refused element is accepted, the accepted ones are a prefix. -/
theorem takeWhile_eq_filter {p : α → Bool} {xs : List α}
    (h : xs.Pairwise fun a b => p b = true → p a = true) : xs.takeWhile p = xs.filter p := by
  induction xs with
  | nil => rfl
  | cons x xs ih =>
      obtain ⟨hx, hxs⟩ := List.pairwise_cons.mp h
      by_cases hp : p x = true
      · rw [List.takeWhile_cons_of_pos hp, List.filter_cons_of_pos hp, ih hxs]
      · rw [List.takeWhile_cons_of_neg hp]
        refine (List.filter_eq_nil_iff.mpr fun y hy hpy => ?_).symm
        rcases List.mem_cons.mp hy with rfl | hy
        · exact hp hpy
        · exact hp (hx y hy hpy)

section PushBack

variable (before : K → K → Prop) [DecidableRel before] (key : K) (x : α)

theorem queue_pushBack_perm (levels : List (K × List α)) :
    (queue (pushBack before key x levels)).Perm (x :: queue levels) := by
  induction levels with
  | nil => simp [pushBack]
  | cons l levels ih =>
      simp only [pushBack]
      split_ifs
      · exact (ih.append_left l.2).trans List.perm_middle
      · simp
      · simp [List.perm_middle]

theorem mem_queue_pushBack {levels : List (K × List α)} {y : α} :
    y ∈ queue (pushBack before key x levels) ↔ y = x ∨ y ∈ queue levels := by
  rw [(queue_pushBack_perm before key x levels).mem_iff, List.mem_cons]

theorem nodup_queue_pushBack {levels : List (K × List α)} :
    (queue (pushBack before key x levels)).Nodup ↔
      x ∉ queue levels ∧ (queue levels).Nodup := by
  rw [(queue_pushBack_perm before key x levels).nodup_iff, List.nodup_cons]

/-- Every key of the new map is the key of the push or an old one. -/
theorem key_pushBack {levels : List (K × List α)} {l : K × List α}
    (hl : l ∈ pushBack before key x levels) : l.1 = key ∨ ∃ m ∈ levels, m.1 = l.1 := by
  induction levels with
  | nil =>
      have hl' : l = (key, [x]) := by simpa [pushBack] using hl
      exact Or.inl (by rw [hl'])
  | cons m levels ih =>
      simp only [pushBack] at hl
      split_ifs at hl
      · rcases List.mem_cons.mp hl with rfl | hl
        · exact Or.inr ⟨m, by simp, rfl⟩
        · rcases ih hl with h | ⟨n, hn, h⟩
          · exact Or.inl h
          · exact Or.inr ⟨n, List.mem_cons_of_mem m hn, h⟩
      · rcases List.mem_cons.mp hl with rfl | hl
        · exact Or.inl rfl
        · exact Or.inr ⟨l, hl, rfl⟩
      · rcases List.mem_cons.mp hl with rfl | hl
        · exact Or.inr ⟨m, by simp, rfl⟩
        · exact Or.inr ⟨l, List.mem_cons_of_mem m hl, rfl⟩

theorem joined_eq_nil_or_mem (levels : List (K × List α)) :
    joined before key levels = [] ∨ ∃ l ∈ levels, joined before key levels = l.2 := by
  induction levels with
  | nil => exact Or.inl rfl
  | cons l levels ih =>
      rw [joined]
      split_ifs
      · rcases ih with hnil | ⟨m, hm, heq⟩
        · exact Or.inl hnil
        · exact Or.inr ⟨m, List.mem_cons_of_mem l hm, heq⟩
      · exact Or.inl rfl
      · exact Or.inr ⟨l, List.mem_cons_self, rfl⟩

/-- What holds of all queues holds after a push if it holds of the queue that has got
longer. -/
theorem forall_pushBack_iff {p : List α → Prop} {levels : List (K × List α)}
    (h : ∀ l ∈ levels, p l.2) :
    (∀ l ∈ pushBack before key x levels, p l.2) ↔ p (joined before key levels ++ [x]) := by
  induction levels with
  | nil => simp [pushBack, joined]
  | cons l levels ih =>
      obtain ⟨hl, hlevels⟩ := List.forall_mem_cons.mp h
      rw [pushBack, joined]
      split_ifs
      · rw [List.forall_mem_cons, ih hlevels, and_iff_right hl]
      · rw [List.forall_mem_cons, and_iff_left h, List.nil_append]
      · rw [List.forall_mem_cons, and_iff_left hlevels]

theorem noEmpty_pushBack {levels : List (K × List α)} (h : NoEmpty levels) :
    NoEmpty (pushBack before key x levels) := by
  induction levels with
  | nil => simp [pushBack, NoEmpty]
  | cons l levels ih =>
      obtain ⟨hl, hlevels⟩ := noEmpty_cons.mp h
      simp only [pushBack]
      split_ifs
      · exact noEmpty_cons.mpr ⟨hl, ih hlevels⟩
      · exact noEmpty_cons.mpr ⟨by simp, h⟩
      · exact noEmpty_cons.mpr ⟨by simp, hlevels⟩

/-- What is stored keeps its key, if keys of which neither stands before the
other are equal. -/
theorem all_pushBack_of_eq {R : K → α → Prop} {levels : List (K × List α)}
    (heq : ∀ l ∈ levels, ¬before l.1 key → ¬before key l.1 → l.1 = key) (h : All R levels)
    (hx : R key x) : All R (pushBack before key x levels) := by
  induction levels with
  | nil => simpa [pushBack, All] using hx
  | cons l levels ih =>
      obtain ⟨hl, hlevels⟩ := all_cons.mp h
      simp only [pushBack]
      split_ifs with hlt hgt
      · exact all_cons.mpr ⟨hl, ih (fun m hm => heq m (List.mem_cons_of_mem l hm)) hlevels⟩
      · exact all_cons.mpr ⟨by simpa using hx, h⟩
      · refine all_cons.mpr ⟨fun y hy => ?_, hlevels⟩
        rcases List.mem_append.mp hy with hy | hy
        · exact hl y hy
        · rw [List.mem_singleton.mp hy, heq l (by simp) hlt hgt]
          exact hx

variable [IsStrictTotalOrder K before]

theorem sorted_pushBack {levels : List (K × List α)} (h : Sorted before levels) :
    Sorted before (pushBack before key x levels) := by
  induction levels with
  | nil => simp [pushBack, Sorted]
  | cons l levels ih =>
      obtain ⟨hl, hlevels⟩ := List.pairwise_cons.mp h
      simp only [pushBack]
      split_ifs with hlt hgt
      · refine List.pairwise_cons.mpr ⟨fun m hm => ?_, ih hlevels⟩
        rcases key_pushBack before key x hm with hkey | ⟨n, hn, hkey⟩
        · exact hkey ▸ hlt
        · exact hkey ▸ hl n hn
      · refine List.pairwise_cons.mpr ⟨fun m hm => ?_, h⟩
        rcases List.mem_cons.mp hm with rfl | hm
        · exact hgt
        · exact trans_of before hgt (hl m hm)
      · exact List.pairwise_cons.mpr ⟨hl, hlevels⟩

theorem all_pushBack {R : K → α → Prop} {levels : List (K × List α)} (h : All R levels)
    (hx : R key x) : All R (pushBack before key x levels) :=
  all_pushBack_of_eq before key x (fun l _ hlt hgt =>
    ((trichotomous_of before l.1 key).resolve_left hlt).resolve_right hgt) h hx

end PushBack

section Level

variable [DecidableEq K] {key : K} {levels levels' : List (K × List α)}

/-- The queue at a key; empty if there is no entry for it. -/
def level (key : K) (levels : List (K × List α)) : List α :=
  queue (levels.filter fun l => l.1 = key)

@[simp] theorem level_nil : level key ([] : List (K × List α)) = [] := rfl

theorem level_cons (l : K × List α) :
    level key (l :: levels) = (if l.1 = key then l.2 else []) ++ level key levels := by
  by_cases hkey : l.1 = key <;> simp [level, hkey]

theorem mem_level {x : α} : x ∈ level key levels ↔ ∃ l ∈ levels, l.1 = key ∧ x ∈ l.2 := by
  simp [level, mem_queue, and_assoc]

theorem level_sublist : (level key levels).Sublist (queue levels) := by
  induction levels with
  | nil => exact List.Sublist.refl []
  | cons l levels ih =>
      rw [level_cons, queue_cons]
      split_ifs
      · exact ih.append_left l.2
      · exact ih.trans (List.sublist_append_right l.2 _)

theorem level_eq_nil (h : ∀ l ∈ levels, l.1 ≠ key) : level key levels = [] := by
  rw [level, List.filter_eq_nil_iff.mpr (by simpa using h), queue_nil]

variable {before : K → K → Prop} [IsStrictTotalOrder K before]

theorem level_head {l : K × List α} (h : Sorted before (l :: levels)) :
    level l.1 (l :: levels) = l.2 := by
  have hbehind : ∀ m ∈ levels, m.1 ≠ l.1 := fun m hm heq =>
    irrefl_of before l.1 (heq ▸ List.rel_of_pairwise_cons h hm)
  rw [level_cons, if_pos rfl, level_eq_nil hbehind, List.append_nil]

/-- The entries are the keys whose queues are not empty. -/
theorem mem_iff_level (h : Sorted before levels) (hne : NoEmpty levels) {l : K × List α} :
    l ∈ levels ↔ l.2 ≠ [] ∧ level l.1 levels = l.2 := by
  induction levels with
  | nil => simp [eq_comm]
  | cons m levels ih =>
      have ih := ih h.of_cons (noEmpty_cons.mp hne).2
      by_cases hkey : m.1 = l.1
      · have hnot : l ∉ levels := by
          intro hl
          have hbefore : before m.1 l.1 := List.rel_of_pairwise_cons h hl
          rw [hkey] at hbefore
          exact irrefl_of before l.1 hbefore
        rw [List.mem_cons, or_iff_left hnot, ← hkey, level_head h]
        constructor
        · rintro rfl
          exact ⟨(noEmpty_cons.mp hne).1, rfl⟩
        · exact fun heq => Prod.ext hkey.symm heq.2.symm
      · have hne : l ≠ m := fun heq => hkey (congrArg Prod.fst heq.symm)
        rw [List.mem_cons, or_iff_right hne, ih, level_cons, if_neg hkey, List.nil_append]

/-- A map is determined by its queues. -/
theorem ext_level (h : Sorted before levels) (h' : Sorted before levels')
    (hne : NoEmpty levels) (hne' : NoEmpty levels')
    (heq : ∀ key, level key levels = level key levels') : levels = levels' := by
  have hirrefl : Std.Irrefl fun a b : K × List α => before a.1 b.1 :=
    ⟨fun a => irrefl_of before a.1⟩
  have hasymm : Std.Antisymm fun a b : K × List α => before a.1 b.1 :=
    ⟨fun a b hab hba => (asymm_of before hab hba).elim⟩
  refine List.Pairwise.eq_of_mem_iff h h' fun l => ?_
  rw [mem_iff_level h hne, mem_iff_level h' hne', heq]

theorem level_pushBack [DecidableRel before] (h : Sorted before levels) (key' : K) (x : α) :
    level key (pushBack before key' x levels) =
      level key levels ++ if key = key' then [x] else [] := by
  induction levels with
  | nil =>
      by_cases hkey : key' = key
      · simp [pushBack, level_cons, hkey]
      · simp [pushBack, level_cons, hkey, Ne.symm hkey]
  | cons l levels ih =>
      have ih := ih h.of_cons
      have hbehind : ∀ m ∈ levels, before l.1 m.1 := fun m hm => List.rel_of_pairwise_cons h hm
      rw [pushBack]
      by_cases hlt : before l.1 key'
      · rw [if_pos hlt, level_cons, ih, level_cons, List.append_assoc]
      · rw [if_neg hlt]
        by_cases hgt : before key' l.1
        · -- the new entry stands before all others
          have hnil : level key' (l :: levels) = [] := by
            refine level_eq_nil fun m hm heq => irrefl_of before key' ?_
            rcases List.mem_cons.mp hm with rfl | hm
            · exact heq ▸ hgt
            · exact heq ▸ trans_of before hgt (hbehind m hm)
          rw [if_pos hgt, level_cons]
          by_cases hkey : key = key'
          · simp [hkey, hnil]
          · simp [hkey, Ne.symm hkey]
        · have heq : l.1 = key' :=
            ((trichotomous_of before l.1 key').resolve_left hlt).resolve_right hgt
          have hnil : level key' levels = [] := by
            refine level_eq_nil fun m hm hkey => irrefl_of before m.1 ?_
            exact hkey.trans heq.symm ▸ hbehind m hm
          rw [if_neg hgt, level_cons, level_cons]
          by_cases hkey : key = key'
          · simp [hkey, heq, hnil]
          · simp [hkey, heq, Ne.symm hkey]

end Level

section Prune

variable {keep keep' : α → Bool}

theorem mem_prune {levels : List (K × List α)} {l : K × List α} :
    l ∈ prune keep levels ↔ ∃ m ∈ levels, m.2.filter keep ≠ [] ∧ l = (m.1, m.2.filter keep) := by
  induction levels with
  | nil => simp [prune]
  | cons m levels ih =>
      simp only [prune, List.isEmpty_iff, List.exists_mem_cons_iff]
      split_ifs with hm
      · rw [ih]
        exact ⟨Or.inr, fun h => h.resolve_left fun h' => h'.1 hm⟩
      · rw [List.mem_cons, ih]
        exact or_congr_left ⟨fun h => ⟨hm, h⟩, And.right⟩

theorem sublist_of_mem_prune {levels : List (K × List α)} {l : K × List α}
    (h : l ∈ prune keep levels) : ∃ m ∈ levels, l.2.Sublist m.2 := by
  obtain ⟨m, hm, _, rfl⟩ := mem_prune.mp h
  exact ⟨m, hm, List.filter_sublist⟩

theorem queue_prune (levels : List (K × List α)) :
    queue (prune keep levels) = (queue levels).filter keep := by
  induction levels with
  | nil => rfl
  | cons l levels ih =>
      simp only [prune, List.isEmpty_iff]
      split_ifs with hl
      · simp [ih, hl]
      · simp [ih]

theorem noEmpty_prune (levels : List (K × List α)) : NoEmpty (prune keep levels) := by
  intro l hl
  obtain ⟨m, _, hne, rfl⟩ := mem_prune.mp hl
  exact hne

theorem sorted_prune {before : K → K → Prop} {levels : List (K × List α)}
    (h : Sorted before levels) : Sorted before (prune keep levels) := by
  induction levels with
  | nil => exact h
  | cons l levels ih =>
      obtain ⟨hl, hlevels⟩ := List.pairwise_cons.mp h
      simp only [prune]
      split_ifs
      · exact ih hlevels
      · refine List.pairwise_cons.mpr ⟨fun m hm => ?_, ih hlevels⟩
        obtain ⟨n, hn, _, rfl⟩ := mem_prune.mp hm
        exact hl n hn

theorem all_prune {R : K → α → Prop} {levels : List (K × List α)} (h : All R levels) :
    All R (prune keep levels) := by
  intro l hl x hx
  obtain ⟨m, hm, _, rfl⟩ := mem_prune.mp hl
  exact h m hm x (List.mem_of_mem_filter hx)

theorem prune_eq_self {levels : List (K × List α)} (hne : NoEmpty levels)
    (h : ∀ x ∈ queue levels, keep x = true) : prune keep levels = levels := by
  induction levels with
  | nil => rfl
  | cons l levels ih =>
      obtain ⟨hl, hlevels⟩ := noEmpty_cons.mp hne
      have hfilter : l.2.filter keep = l.2 :=
        List.filter_eq_self.mpr fun x hx => h x (by simp [hx])
      simp only [prune, hfilter, List.isEmpty_iff, if_neg hl]
      rw [ih hlevels fun x hx => h x (by simp [hx])]

theorem prune_congr {levels : List (K × List α)}
    (h : ∀ x ∈ queue levels, keep x = keep' x) : prune keep levels = prune keep' levels := by
  induction levels with
  | nil => rfl
  | cons l levels ih =>
      have hfilter : l.2.filter keep = l.2.filter keep' :=
        List.filter_congr fun x hx => h x (by simp [hx])
      simp only [prune, hfilter, ih fun x hx => h x (by simp [hx])]

/-- Level by level. -/
theorem prune_eq_filter_map (levels : List (K × List α)) : prune keep levels =
    (levels.map fun l => (l.1, l.2.filter keep)).filter fun l => !l.2.isEmpty := by
  induction levels with
  | nil => rfl
  | cons l levels ih =>
      rw [prune, List.map_cons, List.filter_cons, ih]
      by_cases hl : (l.2.filter keep).isEmpty = true
      · simp [hl]
      · simp [hl]

theorem prune_prune (levels : List (K × List α)) :
    prune keep (prune keep' levels) = prune (fun x => keep x && keep' x) levels := by
  induction levels with
  | nil => rfl
  | cons l levels ih =>
      have hfilter : l.2.filter (fun x => keep x && keep' x) = (l.2.filter keep').filter keep :=
        (List.filter_filter ..).symm
      rw [prune, prune, hfilter]
      by_cases hl : l.2.filter keep' = []
      · simp [hl, ih]
      · rw [if_neg (by simpa using hl), prune, ih]

theorem prune_comm (levels : List (K × List α)) :
    prune keep (prune keep' levels) = prune keep' (prune keep levels) := by
  rw [prune_prune, prune_prune]
  exact prune_congr fun x _ => Bool.and_comm _ _

theorem level_prune [DecidableEq K] (key : K) (levels : List (K × List α)) :
    level key (prune keep levels) = (level key levels).filter keep := by
  induction levels with
  | nil => rfl
  | cons l levels ih =>
      rw [prune, level_cons, List.filter_append, ← ih]
      by_cases hl : l.2.filter keep = []
      · rw [if_pos (by simpa using hl)]
        split_ifs
        · rw [hl, List.nil_append]
        · rw [List.filter_nil, List.nil_append]
      · rw [if_neg (by simpa using hl), level_cons]
        split_ifs
        · rfl
        · rw [List.filter_nil]

/-- A new element is taken out again with the entry that was made for it. -/
theorem prune_pushBack [DecidableEq α] (before : K → K → Prop) [DecidableRel before] (key : K)
    {x : α} {levels : List (K × List α)} (hne : NoEmpty levels) (hx : x ∉ queue levels) :
    prune (fun y => y ≠ x) (pushBack before key x levels) = levels := by
  have hkeep (levels : List (K × List α)) (hne : NoEmpty levels) (hx : x ∉ queue levels) :
      prune (fun y => y ≠ x) levels = levels := by
    refine prune_eq_self hne fun y hy => ?_
    have hyx : y ≠ x := fun heq => hx (heq ▸ hy)
    simpa using hyx
  induction levels with
  | nil => simp [pushBack, prune]
  | cons l levels ih =>
      obtain ⟨hl, hlevels⟩ := noEmpty_cons.mp hne
      rw [queue_cons, List.mem_append, not_or] at hx
      have hlevel : l.2.filter (fun y => y ≠ x) = l.2 := by
        refine List.filter_eq_self.mpr fun y hy => ?_
        have hyx : y ≠ x := fun heq => hx.1 (heq ▸ hy)
        simpa using hyx
      rw [pushBack]
      split_ifs
      · rw [prune, hlevel, if_neg (by simpa using hl), ih hlevels hx.2]
      · rw [prune, if_pos (by simp)]
        exact hkeep _ hne (by simpa using hx)
      · rw [prune, List.filter_append, hlevel, hkeep _ hlevels hx.2]
        simp [hl]

end Prune

end Levels
