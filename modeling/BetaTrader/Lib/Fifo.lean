import Mathlib.Data.List.Basic

/-!
# First in, first out

A part of a system that items enter, stay in and leave in one order.  The steps
say what enters and what leaves; over a run, what has left and what is still
there are what was there and what has entered.
-/

namespace Fifo

variable {σ ε α : Type*}

/-- What the steps of a run put out, one after another. -/
def outputs (step : σ → ε → σ) (out : σ → ε → List α) : σ → List ε → List α
  | _, [] => []
  | s, e :: es => out s e ++ outputs step out (step s e) es

section Outputs

variable {step : σ → ε → σ} {out : σ → ε → List α} {s : σ} {es es' : List ε}

theorem outputs_append : outputs step out s (es ++ es') =
    outputs step out s es ++ outputs step out (es.foldl step s) es' := by
  induction es generalizing s with
  | nil => rfl
  | cons e es ih => rw [List.cons_append, outputs, ih, outputs, List.append_assoc, List.foldl_cons]

/-- An item that a run puts out is put out by one of its steps, after all that
stands before it. -/
theorem exists_step_of_outputs {xs ys : List α} {x : α}
    (h : outputs step out s es = xs ++ x :: ys) : ∃ before e after xs' ys',
      es = before ++ e :: after ∧ out (before.foldl step s) e = xs' ++ x :: ys' ∧
        xs = outputs step out s before ++ xs' := by
  induction es generalizing s xs with
  | nil => simp [outputs] at h
  | cons e es ih =>
      rw [outputs] at h
      rcases List.append_eq_append_iff.mp h with ⟨zs, rfl, hrest⟩ | ⟨zs, hout, hrest⟩
      · obtain ⟨before, e', after, xs', ys', rfl, hstep, rfl⟩ := ih hrest
        refine ⟨e :: before, e', after, xs', ys', rfl, hstep, ?_⟩
        rw [outputs, List.append_assoc]
      · cases zs with
        | nil =>
            have hnext : outputs step out (step s e) es = [] ++ x :: ys := hrest.symm
            obtain ⟨before, e', after, xs', ys', rfl, hstep, hxs'⟩ := ih hnext
            refine ⟨e :: before, e', after, xs', ys', rfl, hstep, ?_⟩
            rw [outputs, List.append_assoc, ← hxs', hout, List.append_nil, List.append_nil]
        | cons z zs =>
            obtain ⟨rfl, rfl⟩ := List.cons.inj hrest
            exact ⟨[], e, es, xs, zs, rfl, hout, rfl⟩

end Outputs

/-- A part of a system that keeps its items in order, as long as the steps are
legal. -/
structure Passage (step : σ → ε → σ) (legal : ε → Prop) (α : Type*) where
  content : σ → List α
  entering : σ → ε → List α
  leaving : σ → ε → List α
  conserves : ∀ s e, legal e → leaving s e ++ content (step s e) = content s ++ entering s e

namespace Passage

variable {step : σ → ε → σ} {legal : ε → Prop} (passage : Passage step legal α) {s : σ}
  {es : List ε}

/-- What has entered in a run. -/
def entered (s : σ) (es : List ε) : List α := outputs step passage.entering s es

/-- What has left in a run. -/
def left (s : σ) (es : List ε) : List α := outputs step passage.leaving s es

theorem left_append_content (h : ∀ e ∈ es, legal e) :
    passage.left s es ++ passage.content (es.foldl step s) =
      passage.content s ++ passage.entered s es := by
  induction es generalizing s with
  | nil => simp [left, entered, outputs]
  | cons e es ih =>
      have hrest : passage.left (step s e) es ++ passage.content (es.foldl step (step s e)) =
          passage.content (step s e) ++ passage.entered (step s e) es :=
        ih fun e' he' => h e' (List.mem_cons_of_mem _ he')
      have hstep := passage.conserves s e (h e List.mem_cons_self)
      calc passage.left s (e :: es) ++ passage.content ((e :: es).foldl step s)
          = passage.leaving s e ++ (passage.left (step s e) es ++
              passage.content (es.foldl step (step s e))) := by
            rw [left, outputs, List.append_assoc]
            rfl
        _ = (passage.leaving s e ++ passage.content (step s e)) ++
              passage.entered (step s e) es := by rw [hrest, List.append_assoc]
        _ = passage.content s ++ passage.entered s (e :: es) := by
            rw [hstep, List.append_assoc]
            rfl

/-- Once a passage is empty, all has left. -/
theorem left_of_content_eq_nil (h : ∀ e ∈ es, legal e)
    (hempty : passage.content (es.foldl step s) = []) :
    passage.left s es = passage.content s ++ passage.entered s es := by
  rw [← passage.left_append_content h, hempty, List.append_nil]

end Passage

end Fifo
