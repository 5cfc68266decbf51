import Mathlib.Data.List.Basic

/-!
# Inputs that are delivered again

A machine that remembers inputs and passes over those it remembers ends in the same
state whatever copies of earlier inputs are put among its inputs.
-/

namespace Redelivery

variable {σ α : Type*}

/-- The second list is the first with copies put in, each after the input that it is a
copy of; `earlier` are the inputs before both lists. -/
inductive Redelivered (copy : α → α → Prop) : List α → List α → List α → Prop
  | nil (earlier : List α) : Redelivered copy earlier [] []
  | next {earlier as as' : List α} (a : α) (rest : Redelivered copy (a :: earlier) as as') :
      Redelivered copy earlier (a :: as) (a :: as')
  | again {earlier as as' : List α} {a b : α} (mem : a ∈ earlier) (copied : copy a b)
      (rest : Redelivered copy earlier as as') : Redelivered copy earlier as (b :: as')

variable {copy : α → α → Prop} {earlier as as' : List α}

/-- The two runs stay together: the copies of what has been delivered are passed over
in the state that both have come to. -/
theorem foldl_redelivered {step : σ → α → σ} {Remembers : σ → α → Prop}
    (hpasses : ∀ s a b, Remembers s a → copy a b → step s b = s)
    (hkeeps : ∀ s a b, Remembers s a → Remembers (step s b) a)
    (h : Redelivered copy earlier as as') (hmarks : ∀ a ∈ as, ∀ s, Remembers (step s a) a)
    {s : σ} (hearlier : ∀ a ∈ earlier, Remembers s a) :
    as'.foldl step s = as.foldl step s := by
  induction h generalizing s with
  | nil earlier => rfl
  | next a rest ih =>
      obtain ⟨hmark, hmarks⟩ := List.forall_mem_cons.mp hmarks
      rw [List.foldl_cons, List.foldl_cons]
      refine ih hmarks (List.forall_mem_cons.mpr ⟨hmark s, ?_⟩)
      intro b hb
      exact hkeeps s b a (hearlier b hb)
  | again mem copied rest ih =>
      rw [List.foldl_cons, hpasses s _ _ (hearlier _ mem) copied]
      exact ih hmarks hearlier

end Redelivery
