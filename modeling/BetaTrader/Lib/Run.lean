import Mathlib.Data.List.Basic

/-!
# Runs of a partial step function

A machine is a function `step : σ → α → Option σ`, where `none` marks a step
that has no defined meaning.  A run feeds it a list of inputs.  Conditions on
the inputs may look at the history of inputs already consumed and at the state
they have led to; the induction principle carries an invariant that may look at
both as well.
-/

namespace PartialRun

variable {σ α : Type*} (step : σ → α → Option σ)

/-- Feed the inputs to the machine one after another. -/
def run : σ → List α → Option σ
  | s, [] => some s
  | s, a :: as => (step s a).bind fun t => run t as

@[simp] theorem run_nil (s : σ) : run step s [] = some s := rfl

/-- Every input satisfies `ok` for the history and the state it finds. -/
def Follows (ok : List α → σ → α → Prop) : List α → σ → List α → Prop
  | _, _, [] => True
  | history, s, a :: as =>
      ok history s a ∧ ∀ t, step s a = some t → Follows ok (history ++ [a]) t as

variable {step} {ok : List α → σ → α → Prop}

/-- A condition that depends on the history alone may be checked on the list of
inputs, without running the machine. -/
theorem follows_of_history {okHistory : List α → α → Prop} {history : List α} {s : σ}
    {as : List α}
    (h : ∀ pre a post, as = pre ++ a :: post → okHistory (history ++ pre) a) :
    Follows step (fun h _ a => okHistory h a) history s as := by
  induction as generalizing history s with
  | nil => trivial
  | cons a as ih =>
      refine ⟨by simpa using h [] a as rfl, fun t _ => ih ?_⟩
      intro pre b post has
      simpa using h (a :: pre) b post (by rw [has, List.cons_append])

/-- The induction rule for runs: an invariant that every admissible input
preserves, and under which it is never undefined, holds after every run. -/
theorem run_induction (Inv : List α → σ → Prop)
    (hstep : ∀ history s a, Inv history s → ok history s a →
      ∃ t, step s a = some t ∧ Inv (history ++ [a]) t)
    {history : List α} {s : σ} {as : List α} (hs : Inv history s)
    (has : Follows step ok history s as) :
    ∃ t, run step s as = some t ∧ Inv (history ++ as) t := by
  induction as generalizing history s with
  | nil => exact ⟨s, rfl, by simpa using hs⟩
  | cons a as ih =>
      obtain ⟨t, ht, htInv⟩ := hstep history s a hs has.1
      obtain ⟨u, hu, huInv⟩ := ih htInv (has.2 t ht)
      refine ⟨u, ?_, by simpa using huInv⟩
      simp [run, ht, hu]

/-- What the steps of a run stand for, one after another, in another machine. -/
def labels {β : Type*} (step : σ → α → Option σ) (label : σ → α → List β) : σ → List α → List β
  | _, [] => []
  | s, a :: as => label s a ++ ((step s a).map fun t => labels step label t as).getD []

/-- The simulation rule for runs: if a step keeps the invariant and the relation to a
second machine that goes through the labels of the step, so does a run. -/
theorem run_simulation {τ β : Type*} (label : σ → α → List β) (astep : τ → β → τ)
    (Inv : List α → σ → Prop) (R : σ → τ → Prop)
    (hstep : ∀ history s t a, Inv history s → R s t → ok history s a →
      ∃ s', step s a = some s' ∧ Inv (history ++ [a]) s' ∧ R s' ((label s a).foldl astep t))
    {history : List α} {s : σ} {t : τ} {as : List α} (hs : Inv history s) (hR : R s t)
    (has : Follows step ok history s as) :
    ∃ s', run step s as = some s' ∧ Inv (history ++ as) s' ∧
      R s' ((labels step label s as).foldl astep t) := by
  induction as generalizing history s t with
  | nil => exact ⟨s, rfl, by simpa using hs, hR⟩
  | cons a as ih =>
      obtain ⟨s', hs', hInv, hR'⟩ := hstep history s t a hs hR has.1
      obtain ⟨u, hu, huInv, huR⟩ := ih hInv hR' (has.2 s' hs')
      refine ⟨u, by simp [run, hs', hu], by simpa using huInv, ?_⟩
      rw [labels, hs', List.foldl_append]
      exact huR

/-- If a step is defined exactly on the inputs that meet a condition, a run is
defined exactly when all its inputs meet it. -/
theorem run_isSome_iff {cond : σ → α → Prop} (h : ∀ s a, (step s a).isSome ↔ cond s a)
    (history : List α) (s : σ) (as : List α) :
    (run step s as).isSome ↔ Follows step (fun _ => cond) history s as := by
  induction as generalizing history s with
  | nil => simp [run, Follows]
  | cons a as ih =>
      rw [run, Follows, ← h]
      cases step s a with
      | none => simp
      | some t => simpa using ih (history ++ [a]) t

/-- The property holds in every state of the run, the first and the last included. -/
def Always (step : σ → α → Option σ) (Q : σ → Prop) : σ → List α → Prop
  | s, [] => Q s
  | s, a :: as => Q s ∧ ∀ t, step s a = some t → Always step Q t as

theorem Always.head {Q : σ → Prop} {s : σ} {as : List α} (h : Always step Q s as) : Q s := by
  cases as with
  | nil => exact h
  | cons a as => exact h.1

theorem Always.last {Q : σ → Prop} {s t : σ} {as : List α} (h : Always step Q s as)
    (ht : run step s as = some t) : Q t := by
  induction as generalizing s with
  | nil => exact Option.some.inj ht ▸ h
  | cons a as ih =>
      obtain ⟨u, hu, hrun⟩ := Option.bind_eq_some_iff.mp ht
      exact ih (h.2 u hu) hrun

/-- If a property survives exactly the inputs that meet a condition, it holds
after a run exactly when all inputs of the run meet it. -/
theorem run_exact (Inv : List α → σ → Prop) {Q : σ → Prop} {cond : σ → α → Prop}
    (hstep : ∀ history s a, Inv history s → ok history s a →
      ∃ t, step s a = some t ∧ Inv (history ++ [a]) t ∧ (Q t ↔ Q s ∧ cond s a))
    {history : List α} {s : σ} {as : List α} (hs : Inv history s)
    (has : Follows step ok history s as) :
    ∃ t, run step s as = some t ∧ Inv (history ++ as) t ∧
      (Q t ↔ Q s ∧ Follows step (fun _ => cond) history s as) := by
  induction as generalizing history s with
  | nil => exact ⟨s, rfl, by simpa using hs, by simp [Follows]⟩
  | cons a as ih =>
      obtain ⟨t, ht, htInv, htQ⟩ := hstep history s a hs has.1
      obtain ⟨u, hu, huInv, huQ⟩ := ih htInv (has.2 t ht)
      refine ⟨u, by simp [run, ht, hu], by simpa using huInv, ?_⟩
      simp only [huQ, htQ, Follows, ht, Option.some.injEq, forall_eq', and_assoc]

/-- A property holds all along a run exactly when all inputs meet a condition, if
there is a stronger one that such inputs keep, and no other input leads from the
stronger property to the property. -/
theorem always_iff_follows_of_strong (Inv : List α → σ → Prop) {Strong Q : σ → Prop}
    {cond : σ → α → Prop} (hstrong : ∀ history s, Inv history s → Strong s → Q s)
    (hstep : ∀ history s a, Inv history s → ok history s a →
      ∃ t, step s a = some t ∧ Inv (history ++ [a]) t ∧
        (Strong s → (cond s a → Strong t) ∧ (Q t → cond s a)))
    {history : List α} {s : σ} {as : List α} (hs : Inv history s) (hS : Strong s)
    (has : Follows step ok history s as) :
    ∃ t, run step s as = some t ∧
      (Always step Q s as ↔ Follows step (fun _ => cond) history s as) := by
  induction as generalizing history s with
  | nil => exact ⟨s, rfl, by simpa [Always, Follows] using hstrong history s hs hS⟩
  | cons a as ih =>
      obtain ⟨t, ht, htInv, htStep⟩ := hstep history s a hs has.1
      obtain ⟨hkeeps, hneeds⟩ := htStep hS
      by_cases hcond : cond s a
      · obtain ⟨u, hu, huQ⟩ := ih htInv (hkeeps hcond) (has.2 t ht)
        refine ⟨u, by simp [run, ht, hu], ?_⟩
        simp [Always, Follows, ht, hstrong history s hs hS, huQ, hcond]
      · obtain ⟨u, hu, _⟩ := run_induction Inv
          (fun history s a hs ha => (hstep history s a hs ha).imp fun _ h => ⟨h.1, h.2.1⟩)
          htInv (has.2 t ht)
        refine ⟨u, by simp [run, ht, hu], ?_⟩
        constructor
        · exact fun h => (hcond (hneeds (h.2 t ht).head)).elim
        · exact fun h => (hcond h.1).elim

/-- If an input keeps a property exactly when it meets a condition, the property
holds all along a run exactly when all inputs of the run meet it. -/
theorem always_iff_follows (Inv : List α → σ → Prop) {Q : σ → Prop} {cond : σ → α → Prop}
    (hstep : ∀ history s a, Inv history s → ok history s a →
      ∃ t, step s a = some t ∧ Inv (history ++ [a]) t ∧ (Q s → (Q t ↔ cond s a)))
    {history : List α} {s : σ} {as : List α} (hs : Inv history s) (hQ : Q s)
    (has : Follows step ok history s as) :
    ∃ t, run step s as = some t ∧
      (Always step Q s as ↔ Follows step (fun _ => cond) history s as) := by
  refine always_iff_follows_of_strong Inv (fun _ _ _ h => h) (fun history s a hs ha => ?_) hs hQ has
  obtain ⟨t, ht, htInv, htQ⟩ := hstep history s a hs ha
  exact ⟨t, ht, htInv, fun h => ⟨(htQ h).mpr, (htQ h).mp⟩⟩

/-- The same of a run that may begin without the property. -/
theorem always_iff_and_follows (Inv : List α → σ → Prop) {Q : σ → Prop} {cond : σ → α → Prop}
    (hstep : ∀ history s a, Inv history s → ok history s a →
      ∃ t, step s a = some t ∧ Inv (history ++ [a]) t ∧ (Q s → (Q t ↔ cond s a)))
    {history : List α} {s : σ} {as : List α} (hs : Inv history s)
    (has : Follows step ok history s as) :
    ∃ t, run step s as = some t ∧
      (Always step Q s as ↔ Q s ∧ Follows step (fun _ => cond) history s as) := by
  by_cases hQ : Q s
  · obtain ⟨t, ht, halways⟩ := always_iff_follows Inv hstep hs hQ has
    exact ⟨t, ht, halways.trans (and_iff_right hQ).symm⟩
  · obtain ⟨t, ht, _⟩ := run_induction Inv
      (fun history s a hs ha => (hstep history s a hs ha).imp fun _ h => ⟨h.1, h.2.1⟩) hs has
    exact ⟨t, ht, iff_of_false (fun h => hQ h.head) fun h => hQ h.1⟩

/-- As long as a run meets a condition, it keeps what makes steps defined and what the
property follows from; an input that fails the condition breaks the property at once. -/
theorem defined_and_always_iff_follows {Strong : List α → σ → Prop} {Q : σ → Prop}
    {cond : σ → α → Prop} (hstrong : ∀ history s, Strong history s → Q s)
    (hstep : ∀ history s a, Strong history s → ok history s a →
      ∃ t, step s a = some t ∧ (cond s a → Strong (history ++ [a]) t) ∧ (Q t → cond s a))
    {history : List α} {s : σ} {as : List α} (hs : Strong history s)
    (has : Follows step ok history s as) :
    ((run step s as).isSome ∧ Always step Q s as) ↔ Follows step (fun _ => cond) history s as := by
  induction as generalizing history s with
  | nil => exact iff_of_true ⟨rfl, hstrong history s hs⟩ trivial
  | cons a as ih =>
      obtain ⟨t, ht, hkeeps, hneeds⟩ := hstep history s a hs has.1
      by_cases hcond : cond s a
      · have ih := ih (hkeeps hcond) (has.2 t ht)
        simp [run, Always, Follows, ht, hstrong history s hs, hcond, ← ih]
      · constructor
        · exact fun h => (hcond (hneeds (h.2.2 t ht).head)).elim
        · exact fun h => (hcond h.1).elim

/-- What every state of a run comes to, if the run may stop at an input without a
defined step: only the inputs that have one are asked for the condition. -/
theorem always_iff_follows_of_defined {Strong Q : σ → Prop} {cond : σ → α → Prop}
    (hstrong : ∀ s, Strong s → Q s)
    (hstep : ∀ s a t, Strong s → step s a = some t → (cond s a → Strong t) ∧ (Q t → cond s a))
    {history : List α} {s : σ} {as : List α} (hs : Strong s) :
    Always step Q s as ↔
      Follows step (fun _ s a => (step s a).isSome → cond s a) history s as := by
  induction as generalizing history s with
  | nil => exact iff_of_true (hstrong s hs) trivial
  | cons a as ih =>
      cases ht : step s a with
      | none => simp [Always, Follows, ht, hstrong s hs]
      | some t =>
          obtain ⟨hkeeps, hneeds⟩ := hstep s a t hs ht
          simp only [Always, Follows, ht, Option.some.injEq, forall_eq', Option.isSome_some,
            true_implies]
          constructor
          · rintro ⟨_, hrest⟩
            have hcond : cond s a := hneeds hrest.head
            exact ⟨hcond, (ih (hkeeps hcond)).mp hrest⟩
          · rintro ⟨hcond, hrest⟩
            exact ⟨hstrong s hs, (ih (hkeeps hcond)).mpr hrest⟩

/-- Conditions that agree wherever a run can get to. -/
theorem follows_congr (Inv : List α → σ → Prop) {cond cond' : σ → α → Prop}
    (hstep : ∀ history s a, Inv history s → ok history s a →
      (cond s a ↔ cond' s a) ∧ ∀ t, step s a = some t → Inv (history ++ [a]) t)
    {history : List α} {s : σ} {as : List α} (hs : Inv history s)
    (has : Follows step ok history s as) :
    Follows step (fun _ => cond) history s as ↔ Follows step (fun _ => cond') history s as := by
  induction as generalizing history s with
  | nil => exact Iff.rfl
  | cons a as ih =>
      obtain ⟨hiff, hnext⟩ := hstep history s a hs has.1
      exact and_congr hiff (forall₂_congr fun t ht => ih (hnext t ht) (has.2 t ht))

theorem Follows.mono {cond cond' : σ → α → Prop} {history : List α} {s : σ} {as : List α}
    (h : Follows step (fun _ => cond) history s as) (hcond : ∀ s a, cond s a → cond' s a) :
    Follows step (fun _ => cond') history s as := by
  induction as generalizing history s with
  | nil => trivial
  | cons a as ih => exact ⟨hcond s a h.1, fun t ht => ih (h.2 t ht)⟩

/-- A property that survives every input that meets a condition holds all along
a run whose inputs meet it. -/
theorem always_of_follows (Inv : List α → σ → Prop) {Q : σ → Prop} {cond : σ → α → Prop}
    (hstep : ∀ history s a, Inv history s → ok history s a → cond s a → Q s →
      ∀ t, step s a = some t → Inv (history ++ [a]) t ∧ Q t)
    {history : List α} {s : σ} {as : List α} (hs : Inv history s) (hQ : Q s)
    (has : Follows step ok history s as)
    (hcond : Follows step (fun _ => cond) history s as) : Always step Q s as := by
  induction as generalizing history s with
  | nil => exact hQ
  | cons a as ih =>
      refine ⟨hQ, fun t ht => ?_⟩
      obtain ⟨hInv, hQt⟩ := hstep history s a hs has.1 hcond.1 hQ t ht
      exact ih hInv hQt (has.2 t ht) (hcond.2 t ht)

end PartialRun

/-!
# Runs of a total step function

Here a step is always defined, and a run is a fold.
-/

namespace TotalRun

variable {σ α : Type*} (step : σ → α → σ)

/-- Every input meets the condition in the state it finds. -/
def Meets (cond : σ → α → Prop) : σ → List α → Prop
  | _, [] => True
  | s, a :: as => cond s a ∧ Meets cond (step s a) as

variable {step} {cond : σ → α → Prop} {s : σ} {as : List α}

instance decidableMeets [∀ s a, Decidable (cond s a)] :
    ∀ s as, Decidable (Meets step cond s as)
  | _, [] => .isTrue trivial
  | s, a :: as => @instDecidableAnd _ _ _ (decidableMeets (step s a) as)

theorem meets_append {as' : List α} :
    Meets step cond s (as ++ as') ↔
      Meets step cond s as ∧ Meets step cond (as.foldl step s) as' := by
  induction as generalizing s with
  | nil => simp [Meets]
  | cons a as ih => simp only [List.cons_append, Meets, List.foldl_cons, ih, and_assoc]

theorem meets_iff_forall :
    Meets step cond s as ↔
      ∀ before a after, as = before ++ a :: after → cond (before.foldl step s) a := by
  constructor
  · rintro h before a after rfl
    exact (meets_append.mp h).2.1
  · intro h
    induction as generalizing s with
    | nil => trivial
    | cons a as ih =>
        refine ⟨h [] a as rfl, ih fun before b after has => ?_⟩
        exact h (a :: before) b after (by rw [has, List.cons_append])

theorem meets_of_forall (h : ∀ s a, cond s a) : Meets step cond s as :=
  meets_iff_forall.mpr fun _ _ _ _ => h _ _

/-- An invariant that the inputs of a run preserve holds after it. -/
theorem foldl_induction (Inv : σ → Prop)
    (hstep : ∀ s a, Inv s → cond s a → Inv (step s a)) (hs : Inv s)
    (has : Meets step cond s as) : Inv (as.foldl step s) := by
  induction as generalizing s with
  | nil => exact hs
  | cons a as ih => exact ih (hstep s a hs has.1) has.2

/-- Inputs that meet a condition meet whatever follows from it and the invariant
that it preserves. -/
theorem meets_of_inv (Inv : σ → Prop) {cond' : σ → α → Prop}
    (hstep : ∀ s a, Inv s → cond s a → Inv (step s a) ∧ cond' s a) (hs : Inv s)
    (has : Meets step cond s as) : Meets step cond' s as := by
  induction as generalizing s with
  | nil => trivial
  | cons a as ih =>
      obtain ⟨hnext, hcond⟩ := hstep s a hs has.1
      exact ⟨hcond, ih hnext has.2⟩

/-- What holds after a run, if every input that the invariant admits keeps a property
exactly when it meets a condition. -/
theorem foldl_iff_and (Inv : σ → Prop) {ok : σ → α → Prop} {Q : σ → Prop}
    (hstep : ∀ s a, Inv s → ok s a → Inv (step s a) ∧ (Q (step s a) ↔ Q s ∧ cond s a))
    (hs : Inv s) (has : Meets step ok s as) :
    Q (as.foldl step s) ↔ Q s ∧ Meets step cond s as := by
  induction as generalizing s with
  | nil => simp [Meets]
  | cons a as ih =>
      obtain ⟨hnext, hQ⟩ := hstep s a hs has.1
      rw [List.foldl_cons, ih hnext has.2, hQ, Meets, and_assoc]

/-- If a property survives exactly the inputs that meet a condition, it holds
after a run exactly when all inputs of the run meet it.  The invariant is that of
runs whose inputs are admissible. -/
theorem foldl_exact_of (Inv : σ → Prop) {ok : σ → α → Prop} {Q : σ → Prop}
    (hstep : ∀ s a, Inv s → ok s a → Inv (step s a) ∧ (Q (step s a) ↔ Q s ∧ cond s a))
    (hs : Inv s) (hQ : Q s) (has : Meets step ok s as) :
    Q (as.foldl step s) ↔ Meets step cond s as := by
  rw [foldl_iff_and Inv hstep hs has, and_iff_right hQ]

theorem foldl_exact {Q : σ → Prop} (hstep : ∀ s a, Q (step s a) ↔ Q s ∧ cond s a) (hs : Q s) :
    Q (as.foldl step s) ↔ Meets step cond s as :=
  foldl_exact_of (fun _ => True) (fun s a _ _ => ⟨trivial, hstep s a⟩) trivial hs
    (meets_of_forall fun _ _ => trivial)

/-- The property holds in every state of the run, the first and the last included. -/
def Always (step : σ → α → σ) (Q : σ → Prop) : σ → List α → Prop
  | s, [] => Q s
  | s, a :: as => Q s ∧ Always step Q (step s a) as

theorem Always.head {Q : σ → Prop} (h : Always step Q s as) : Q s := by
  cases as with
  | nil => exact h
  | cons a as => exact h.1

theorem Always.last {Q : σ → Prop} (h : Always step Q s as) : Q (as.foldl step s) := by
  induction as generalizing s with
  | nil => exact h
  | cons a as ih => exact ih h.2

theorem always_of_meets (Inv : σ → Prop) {Q : σ → Prop} (hQ : ∀ s, Inv s → Q s)
    (hstep : ∀ s a, Inv s → cond s a → Inv (step s a)) (hs : Inv s)
    (has : Meets step cond s as) : Always step Q s as := by
  induction as generalizing s with
  | nil => exact hQ s hs
  | cons a as ih => exact ⟨hQ s hs, ih (hstep s a hs has.1) has.2⟩

/-- What holds in the states of a run and what holds of its inputs, together.  An
input that meets the condition keeps the one, as part of something stronger, and has
the other; an input that does both meets the condition. -/
theorem always_and_meets_iff {Strong Q : σ → Prop} {cond' : σ → α → Prop}
    (hstrong : ∀ s, Strong s → Q s)
    (hstep : ∀ s a, Strong s → (cond s a → Strong (step s a) ∧ cond' s a) ∧
      (Q (step s a) → cond' s a → cond s a))
    (hs : Strong s) :
    Always step Q s as ∧ Meets step cond' s as ↔ Meets step cond s as := by
  induction as generalizing s with
  | nil => exact iff_of_true ⟨hstrong s hs, trivial⟩ trivial
  | cons a as ih =>
      obtain ⟨hkeeps, hneeds⟩ := hstep s a hs
      constructor
      · rintro ⟨⟨_, hrest⟩, hcond', hmeets⟩
        have hcond : cond s a := hneeds hrest.head hcond'
        exact ⟨hcond, (ih (hkeeps hcond).1).mp ⟨hrest, hmeets⟩⟩
      · rintro ⟨hcond, hrest⟩
        obtain ⟨hnext, hcond'⟩ := hkeeps hcond
        obtain ⟨halways, hmeets⟩ := (ih hnext).mpr hrest
        exact ⟨⟨hstrong s hs, halways⟩, hcond', hmeets⟩

/-- A property that every input that meets a condition keeps, as part of a stronger
one, and that no other input keeps, holds all along exactly the runs whose inputs
meet the condition. -/
theorem always_iff_meets {Strong Q : σ → Prop} (hstrong : ∀ s, Strong s → Q s)
    (hstep : ∀ s a, Strong s → (cond s a → Strong (step s a)) ∧ (Q (step s a) → cond s a))
    (hs : Strong s) : Always step Q s as ↔ Meets step cond s as := by
  have htrue : Meets step (fun _ _ => True) s as := meets_of_forall fun _ _ => trivial
  rw [← and_iff_left (a := Always step Q s as) htrue]
  refine always_and_meets_iff hstrong (fun s a hs => ?_) hs
  obtain ⟨hkeeps, hneeds⟩ := hstep s a hs
  exact ⟨fun hcond => ⟨hkeeps hcond, trivial⟩, fun hQ _ => hneeds hQ⟩

/-- The same for runs whose inputs are admissible. -/
theorem always_iff_meets_of {ok : σ → α → Prop} {Strong Q : σ → Prop}
    (hstrong : ∀ s, Strong s → Q s)
    (hstep : ∀ s a, Strong s → ok s a →
      (cond s a → Strong (step s a)) ∧ (Q (step s a) → cond s a))
    (hs : Strong s) (has : Meets step ok s as) :
    Always step Q s as ↔ Meets step cond s as := by
  induction as generalizing s with
  | nil => exact iff_of_true (hstrong s hs) trivial
  | cons a as ih =>
      obtain ⟨hkeeps, hneeds⟩ := hstep s a hs has.1
      constructor
      · rintro ⟨_, hrest⟩
        have hcond : cond s a := hneeds hrest.head
        exact ⟨hcond, (ih (hkeeps hcond) has.2).mp hrest⟩
      · rintro ⟨hcond, hrest⟩
        exact ⟨hstrong s hs, (ih (hkeeps hcond) has.2).mpr hrest⟩

end TotalRun
