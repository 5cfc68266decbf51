import Mathlib.Data.List.Basic
import Mathlib.Data.List.Induction
import Mathlib.Order.Lattice
import Mathlib.Order.Monotone.Defs

/-!
# Windows over a stream

A stream of inputs with keys is summarized window by window: an input whose key is
above that of the current window closes it and opens the next one, and any other
input, a late one too, is added to the current window.  If the inputs come in the
order of their keys, the windows are the groups of inputs with the same key.
-/

namespace Windows

variable {α κ ω κ' ω' : Type*}

/-- How inputs are summarized: the key of an input and of a window, the window that an
input opens, and a window to which an input is added. -/
structure Rule (α κ ω : Type*) where
  keyOf : α → κ
  key : ω → κ
  start : α → ω
  add : ω → α → ω
  key_start : ∀ x, key (start x) = keyOf x
  key_add : ∀ w x, key (add w x) = key w

attribute [simp] Rule.key_start Rule.key_add

namespace Rule

variable [LinearOrder κ] [LinearOrder κ'] (rule : Rule α κ ω) (rule' : Rule α κ' ω')

/-- The input opens a window. -/
def Opens (current : Option ω) (x : α) : Prop := ∀ w ∈ current, rule.key w < rule.keyOf x

instance (current : Option ω) (x : α) : Decidable (rule.Opens current x) :=
  match current with
  | none => .isTrue (by simp [Opens])
  | some w => decidable_of_iff (rule.key w < rule.keyOf x) (by simp [Opens])

/-- The current window after an input. -/
def next (current : Option ω) (x : α) : ω :=
  if rule.Opens current x then rule.start x else current.elim (rule.start x) (rule.add · x)

/-- The windows that have been closed, and the current one. -/
def step (s : List ω × Option ω) (x : α) : List ω × Option ω :=
  (if rule.Opens s.2 x then s.1 ++ s.2.toList else s.1, some (rule.next s.2 x))

def run (xs : List α) : List ω × Option ω := xs.foldl rule.step ([], none)

/-- All windows in the order in which they were opened. -/
def windows (xs : List α) : List ω := (rule.run xs).1 ++ (rule.run xs).2.toList

/-- One window for all the inputs. -/
def summary : List α → Option ω
  | [] => none
  | x :: xs => some (xs.foldl rule.add (rule.start x))

section Step

variable {rule} {current : Option ω} {w : ω} {x : α}

@[simp] theorem opens_none (x : α) : rule.Opens none x := by
  simp [Opens]

@[simp] theorem opens_some_iff : rule.Opens (some w) x ↔ rule.key w < rule.keyOf x := by
  simp [Opens]

@[simp] theorem next_none (x : α) : rule.next none x = rule.start x := by
  simp [next]

theorem next_of_opens (h : rule.Opens current x) : rule.next current x = rule.start x :=
  if_pos h

theorem next_of_not_opens (h : ¬rule.Opens (some w) x) :
    rule.next (some w) x = rule.add w x :=
  if_neg h

/-- What the start of a window has, and what adding to a window keeps. -/
theorem next_induction {Q : ω → Prop} (hcurrent : ∀ w ∈ current, Q w) (hstart : Q (rule.start x))
    (hadd : ∀ w, Q w → Q (rule.add w x)) : Q (rule.next current x) := by
  rw [next]
  split_ifs
  · exact hstart
  · cases current with
    | none => exact hstart
    | some w => exact hadd w (hcurrent w rfl)

@[simp] theorem run_nil : rule.run [] = ([], none) := rfl

theorem run_concat (xs : List α) (x : α) : rule.run (xs ++ [x]) = rule.step (rule.run xs) x := by
  rw [run, List.foldl_append]
  rfl

theorem windows_concat_of_opens {xs : List α} (h : rule.Opens (rule.run xs).2 x) :
    rule.windows (xs ++ [x]) = rule.windows xs ++ [rule.start x] := by
  rw [windows, run_concat, step, if_pos h, next_of_opens h]
  rfl

theorem windows_concat_of_not_opens {xs : List α} (hw : (rule.run xs).2 = some w)
    (h : ¬rule.Opens (some w) x) :
    rule.windows xs = (rule.run xs).1 ++ [w] ∧
      rule.windows (xs ++ [x]) = (rule.run xs).1 ++ [rule.add w x] := by
  rw [windows, windows, run_concat, step, hw, if_neg h, next_of_not_opens h]
  exact ⟨rfl, rfl⟩

omit [LinearOrder κ] in
theorem summary_eq_none_iff {xs : List α} : rule.summary xs = none ↔ xs = [] := by
  cases xs <;> simp [summary]

omit [LinearOrder κ] in
theorem summary_concat (xs : List α) (x : α) :
    rule.summary (xs ++ [x]) =
      some ((rule.summary xs).elim (rule.start x) (rule.add · x)) := by
  cases xs with
  | nil => rfl
  | cons y ys =>
      rw [List.cons_append, summary, List.foldl_append]
      rfl

end Step

/-! ## Inputs in order -/

/-- There is one window for every key, in the order of the keys, with all the inputs of
that key. -/
structure IsGroupBy (xs : List α) (ws : List ω) : Prop where
  increasing : (ws.map rule.key).Pairwise (· < ·)
  mem_key_iff : ∀ k, k ∈ ws.map rule.key ↔ k ∈ xs.map rule.keyOf
  summary : ∀ w ∈ ws, rule.summary (xs.filter fun x => rule.keyOf x = rule.key w) = some w

variable {rule}

/-- An input with a new key opens a window of its own. -/
theorem IsGroupBy.open {xs : List α} {ws : List ω} (h : rule.IsGroupBy xs ws) {x : α}
    (hnew : ∀ w ∈ ws, rule.key w < rule.keyOf x) :
    rule.IsGroupBy (xs ++ [x]) (ws ++ [rule.start x]) where
  increasing := by
    rw [List.map_append, List.pairwise_append]
    refine ⟨h.increasing, List.pairwise_singleton _ _, fun k hk k' hk' => ?_⟩
    obtain ⟨w, hw, rfl⟩ := List.mem_map.mp hk
    obtain rfl : k' = rule.keyOf x := by simpa using hk'
    exact hnew w hw
  mem_key_iff k := by
    have hiff := h.mem_key_iff k
    simp only [List.map_append, List.mem_append, hiff]
    simp
  summary := by
    intro w hw
    have hold : ∀ y ∈ xs, rule.keyOf y < rule.keyOf x := by
      intro y hy
      obtain ⟨w', hw', heq⟩ := List.mem_map.mp
        ((h.mem_key_iff (rule.keyOf y)).mpr (List.mem_map_of_mem hy))
      exact heq ▸ hnew w' hw'
    rcases List.mem_append.mp hw with hw | hw
    · have hne : ¬rule.keyOf x = rule.key w := (hnew w hw).ne'
      simpa [hne] using h.summary w hw
    · obtain rfl := List.mem_singleton.mp hw
      have hnil : xs.filter (fun y => rule.keyOf y = rule.keyOf x) = [] := by
        rw [List.filter_eq_nil_iff]
        intro y hy
        simpa using (hold y hy).ne
      rw [key_start, List.filter_append, hnil]
      simp [Rule.summary]

/-- An input with the last key is added to the last window. -/
theorem IsGroupBy.add {xs : List α} {ws : List ω} {w : ω} (h : rule.IsGroupBy xs (ws ++ [w]))
    {x : α} (hlast : rule.keyOf x = rule.key w) :
    rule.IsGroupBy (xs ++ [x]) (ws ++ [rule.add w x]) where
  increasing := by
    have hincreasing := h.increasing
    simpa using hincreasing
  mem_key_iff k := by
    have hiff := h.mem_key_iff k
    have hw := h.mem_key_iff (rule.key w)
    have hmem : rule.key w ∈ xs.map rule.keyOf := hw.mp (by simp)
    simp only [List.map_append, List.mem_append, List.map_cons, List.map_nil, List.mem_singleton,
      key_add] at hiff ⊢
    rw [hiff, hlast]
    constructor
    · exact Or.inl
    · rintro (hk | rfl)
      · exact hk
      · exact hmem
  summary := by
    intro w' hw'
    rcases List.mem_append.mp hw' with hmem | hmem
    · have hlt : rule.key w' < rule.key w := by
        have hincreasing := h.increasing
        rw [List.map_append, List.pairwise_append] at hincreasing
        exact hincreasing.2.2 _ (List.mem_map_of_mem hmem) _ (by simp)
      have hne : ¬rule.keyOf x = rule.key w' := by
        rw [hlast]
        exact hlt.ne'
      simpa [hne] using h.summary w' (List.mem_append_left _ hmem)
    · obtain rfl := List.mem_singleton.mp hmem
      have hsummary := h.summary w (by simp)
      have hx : [x].filter (fun y => rule.keyOf y = rule.key w) = [x] := by simp [hlast]
      rw [key_add, List.filter_append, hx, summary_concat, hsummary]
      rfl

/-- The current window is the last one; there is none before the first input. -/
theorem run_snd_eq_none_iff {xs : List α} : (rule.run xs).2 = none ↔ xs = [] := by
  induction xs using List.reverseRecOn with
  | nil => simp
  | append_singleton xs x ih => simp [run_concat, step]

theorem key_le_of_mem_windows {xs : List α} (h : rule.IsGroupBy xs (rule.windows xs)) {w w' : ω}
    (hw : (rule.run xs).2 = some w) (hw' : w' ∈ rule.windows xs) : rule.key w' ≤ rule.key w := by
  have hincreasing := h.increasing
  rw [windows, hw, Option.toList_some] at hincreasing hw'
  rw [List.map_append, List.pairwise_append] at hincreasing
  rcases List.mem_append.mp hw' with hmem | hmem
  · exact (hincreasing.2.2 _ (List.mem_map_of_mem hmem) _ (by simp)).le
  · rw [List.mem_singleton.mp hmem]

/-- Inputs in the order of their keys are grouped by the keys. -/
theorem isGroupBy_windows {xs : List α} (h : (xs.map rule.keyOf).Pairwise (· ≤ ·)) :
    rule.IsGroupBy xs (rule.windows xs) := by
  induction xs using List.reverseRecOn with
  | nil => exact ⟨by simp [windows], by simp [windows], by simp [windows]⟩
  | append_singleton xs x ih =>
      rw [List.map_append, List.pairwise_append] at h
      obtain ⟨hxs, _, hle⟩ := h
      have ih := ih hxs
      cases hcurrent : (rule.run xs).2 with
      | none =>
          obtain rfl := run_snd_eq_none_iff.mp hcurrent
          rw [windows_concat_of_opens (by simp)]
          exact ih.open (by simp [windows])
      | some w =>
          by_cases hopens : rule.Opens (some w) x
          · rw [windows_concat_of_opens (hcurrent ▸ hopens)]
            refine ih.open fun w' hw' => ?_
            have hle : rule.key w' ≤ rule.key w := key_le_of_mem_windows ih hcurrent hw'
            exact hle.trans_lt (opens_some_iff.mp hopens)
          · obtain ⟨hwindows, hwindows'⟩ := windows_concat_of_not_opens hcurrent hopens
            rw [hwindows] at ih
            rw [hwindows']
            refine ih.add (le_antisymm ?_ ?_)
            · exact not_lt.mp (mt opens_some_iff.mpr hopens)
            · refine hle _ ((ih.mem_key_iff _).mp (by simp)) _ (by simp)

/-! ## Coarser windows -/

/-- The keys of the second rule are those of the first, made coarser. -/
structure Coarsens (f : κ → κ') (rule : Rule α κ ω) (rule' : Rule α κ' ω') : Prop where
  monotone : Monotone f
  keyOf : ∀ x, rule'.keyOf x = f (rule.keyOf x)

/-- The current window of the coarser rule is that of the other one's key. -/
def Aligned (f : κ → κ') (rule : Rule α κ ω) (rule' : Rule α κ' ω') :
    Option ω → Option ω' → Prop :=
  Option.Rel fun w w' => rule'.key w' = f (rule.key w)

section Coarser

variable {f : κ → κ'} {rule' : Rule α κ' ω'} {current : Option ω} {current' : Option ω'}

/-- A coarser window is opened together with a finer one. -/
theorem Coarsens.opens (h : Coarsens f rule rule')
    (haligned : Aligned f rule rule' current current') {x : α} (hopens : rule'.Opens current' x) : rule.Opens current x := by
  cases haligned with
  | none => exact opens_none x
  | some hkey =>
      rw [opens_some_iff, hkey, h.keyOf] at hopens
      exact opens_some_iff.mpr (h.monotone.reflect_lt hopens)

theorem Coarsens.aligned_next (h : Coarsens f rule rule')
    (haligned : Aligned f rule rule' current current') (x : α) :
    Aligned f rule rule' (some (rule.next current x)) (some (rule'.next current' x)) := by
  refine Option.Rel.some ?_
  by_cases hopens' : rule'.Opens current' x
  · rw [next_of_opens hopens', next_of_opens (h.opens haligned hopens')]
    simpa using h.keyOf x
  · cases haligned with
    | none => exact (hopens' (opens_none x)).elim
    | @some w w' hkey =>
        rw [next_of_not_opens hopens', key_add, hkey]
        by_cases hopens : rule.Opens (some w) x
        · rw [next_of_opens hopens, key_start]
          rw [opens_some_iff, not_lt, hkey, h.keyOf] at hopens'
          exact le_antisymm (h.monotone (opens_some_iff.mp hopens).le) hopens'
        · rw [next_of_not_opens hopens, key_add]

end Coarser

end Rule

end Windows
