import Mathlib.Data.List.GetD
import Mathlib.Data.List.Nodup
import Mathlib.Data.List.Range
import Mathlib.Data.Option.Basic
import Mathlib.Data.Set.Function
import Mathlib.Logic.Function.Basic

/-!
# Computations that share a counter

Several computations draw numbers from one counter, in an order that nobody
determines.  Each draw finds the counter as the others have left it and moves it on
by one.  If a computation does nothing with its numbers but pass them on, all orders
come to the same, up to the numbers.
-/

/-- A computation that may draw numbers; its result may be undefined. -/
inductive Drawing (α : Type) where
  | done (result : Option α)
  | draw (next : ℕ → Drawing α)

namespace Drawing

variable {α β γ δ : Type}

def bind : Drawing α → (α → Drawing β) → Drawing β
  | done none, _ => done none
  | done (some a), f => f a
  | draw next, f => draw fun n => (next n).bind f

instance : Monad Drawing where
  pure a := done (some a)
  bind := bind

/-- The result if nobody else draws, and the counter at the end. -/
def alone : Drawing α → ℕ → Option α × ℕ
  | done result, n => (result, n)
  | draw next, n => (next n).alone (n + 1)

def finished : Drawing α → Bool
  | done _ => true
  | draw _ => false

/-- The result of a computation that has come to its end. -/
def result : Drawing α → Option α
  | done result => result
  | draw _ => none

theorem eq_done {p : Drawing α} (h : p.finished) : p = done p.result := by
  cases p with
  | done r => rfl
  | draw next => cases h

/-- What is left of a computation when it has drawn these numbers. -/
def feed : Drawing α → List ℕ → Option (Drawing α)
  | p, [] => some p
  | draw next, n :: ns => (next n).feed ns
  | done _, _ :: _ => none

theorem feed_append (p : Drawing α) (ns ms : List ℕ) :
    p.feed (ns ++ ms) = (p.feed ns).bind fun q => q.feed ms := by
  induction ns generalizing p with
  | nil => cases p <;> rfl
  | cons n ns ih =>
      cases p with
      | done result => rfl
      | draw next => exact ih (next n)

theorem feed_done {r : Option α} {ns : List ℕ} {q : Drawing α}
    (h : (done r).feed ns = some q) : ns = [] ∧ q = done r := by
  cases ns with
  | nil => exact ⟨rfl, (Option.some.inj h).symm⟩
  | cons n ns => cases h

/-- Numbers that a computation draws to its end are not the beginning of others. -/
theorem feed_unique {p : Drawing α} {ns ms : List ℕ} {r r' : Option α}
    (h : p.feed ns = some (done r)) (h' : p.feed ms = some (done r')) (hleads : ns <+: ms) :
    ns = ms ∧ r = r' := by
  obtain ⟨rest, rfl⟩ := hleads
  rw [feed_append, h, Option.bind_some] at h'
  obtain ⟨rfl, hr⟩ := feed_done h'
  cases hr
  exact ⟨(List.append_nil ns).symm, rfl⟩

theorem feed_alone (p : Drawing α) (n : ℕ) :
    ∃ k, (p.alone n).2 = n + k ∧ p.feed (List.range' n k) = some (done (p.alone n).1) := by
  induction p generalizing n with
  | done result => exact ⟨0, rfl, rfl⟩
  | draw next ih =>
      obtain ⟨k, hcounter, hfeed⟩ := ih n (n + 1)
      refine ⟨k + 1, ?_, hfeed⟩
      rw [alone, hcounter]
      omega

/-- Alone, the computation has this result, which says what the counter is then. -/
def Computes (counterOf : α → ℕ) (p : Drawing α) (n : ℕ) (r : Option α) : Prop :=
  (p.alone n).1 = r ∧ ∀ a, r = some a → (p.alone n).2 = counterOf a

section Computes

variable {counterOf : α → ℕ} {counterOf' : β → ℕ} {p : Drawing α} {n : ℕ} {r : Option α}
  {f : α → Drawing β} {g : α → Option β}

theorem alone_bind (p : Drawing α) (f : α → Drawing β) (n : ℕ) :
    (p >>= f).alone n = match p.alone n with
      | (none, m) => (none, m)
      | (some a, m) => (f a).alone m := by
  change (p.bind f).alone n = _
  induction p generalizing n with
  | done r => cases r <;> rfl
  | draw next ih => exact ih n (n + 1)

theorem Computes.bind (h : Computes counterOf p n r)
    (hf : ∀ a, r = some a → Computes counterOf' (f a) (counterOf a) (g a)) :
    Computes counterOf' (p >>= f) n (r.bind g) := by
  obtain ⟨hresult, hcounter⟩ := h
  rw [Computes, alone_bind]
  cases r with
  | none =>
      rw [show p.alone n = (none, (p.alone n).2) from Prod.ext hresult rfl]
      exact ⟨rfl, fun _ h => nomatch h⟩
  | some a =>
      rw [show p.alone n = (some a, counterOf a) from Prod.ext hresult (hcounter a rfl)]
      exact hf a rfl

/-- What is not drawn leaves the counter alone. -/
theorem computes_done_bind (hf : ∀ a, r = some a → Computes counterOf' (f a) n (g a)) :
    Computes counterOf' (.done r >>= f) n (r.bind g) := by
  cases r with
  | none => exact ⟨rfl, fun _ h => nomatch h⟩
  | some a => exact hf a rfl

theorem computes_pure {a : α} (h : n = counterOf a) : Computes counterOf (pure a) n (some a) :=
  ⟨rfl, fun _ heq => Option.some.inj heq ▸ h⟩

end Computes

/-! ## Conditions on the numbers drawn -/

/-- Whatever numbers the computation draws, they and its result satisfy `Q`. -/
def Ensures (p : Drawing α) (Q : List ℕ → α → Prop) : Prop :=
  ∀ ns a, p.feed ns = some (done (some a)) → Q ns a

section Ensures

variable {p : Drawing α} {r : Option α} {Q : List ℕ → α → Prop} {Q' : List ℕ → β → Prop}
  {f : α → Drawing β}

theorem ensures_done (h : ∀ a, r = some a → Q [] a) : (done r).Ensures Q := by
  intro ns a hfeed
  obtain ⟨rfl, heq⟩ := feed_done hfeed
  exact h a (done.inj heq).symm

theorem ensures_pure {a : α} (h : Q [] a) : (pure a : Drawing α).Ensures Q :=
  ensures_done fun _ heq => Option.some.inj heq ▸ h

theorem ensures_draw {next : ℕ → Drawing α} (h : ∀ n, (next n).Ensures fun ns a => Q (n :: ns) a) :
    (draw next).Ensures Q := by
  intro ns a hfeed
  cases ns with
  | nil => cases hfeed
  | cons n ns => exact h n ns a hfeed

/-- The numbers of the second part come after those of the first. -/
theorem Ensures.bind (h : p.Ensures Q)
    (hf : ∀ ns a, Q ns a → (f a).Ensures fun ms b => Q' (ns ++ ms) b) :
    (p >>= f).Ensures Q' := by
  change (p.bind f).Ensures Q'
  induction p generalizing Q Q' with
  | done r =>
      cases r with
      | none => exact ensures_done fun _ h => nomatch h
      | some a => exact hf [] a (h [] a rfl)
  | draw next ih =>
      apply ensures_draw
      intro n
      exact ih n (fun ns a => h (n :: ns) a) fun ns a => hf (n :: ns) a

theorem ensures_done_bind (hf : ∀ a, r = some a → (f a).Ensures Q') :
    (.done r >>= f : Drawing β).Ensures Q' :=
  (ensures_done fun _ h => ⟨rfl, h⟩).bind (Q := fun ns a => ns = [] ∧ r = some a)
    fun _ a h => by simpa [h.1] using hf a h.2

end Ensures

/-! ## Renumbering -/

/-- The second computation does with `σ n` what the first does with `n`, and results
are related. -/
def Rel (σ : ℕ → ℕ) (R : α → β → Prop) : Drawing α → Drawing β → Prop
  | done r, done r' => Option.Rel R r r'
  | draw next, draw next' => ∀ n, Rel σ R (next n) (next' (σ n))
  | _, _ => False

variable {σ : ℕ → ℕ} {R : α → β → Prop} {S : γ → δ → Prop}

theorem Rel.bind {p : Drawing α} {p' : Drawing β} {f : α → Drawing γ} {f' : β → Drawing δ}
    (h : Rel σ R p p') (hf : ∀ a a', R a a' → Rel σ S (f a) (f' a')) :
    Rel σ S (p >>= f) (p' >>= f') := by
  change Rel σ S (p.bind f) (p'.bind f')
  induction p generalizing p' with
  | done r =>
      cases p' with
      | done r' =>
          cases h with
          | some hR => exact hf _ _ hR
          | none => exact Option.Rel.none
      | draw next' => cases h
  | draw next ih =>
      cases p' with
      | done r' => cases h
      | draw next' => exact fun n => ih n (h n)

theorem rel_done_bind {r : Option α} {f : α → Drawing γ} {f' : α → Drawing δ}
    (hf : ∀ a, Rel σ S (f a) (f' a)) : Rel σ S (.done r >>= f) (.done r >>= f') := by
  cases r with
  | none => exact Option.Rel.none
  | some a => exact hf a

theorem rel_done_map {r : Option α} {f : α → β} (hf : ∀ a, R a (f a)) :
    Rel σ R (.done r) (.done (r.map f)) := by
  cases r with
  | none => exact Option.Rel.none
  | some a => exact Option.Rel.some (hf a)

theorem Rel.feed {p q : Drawing α} {p' : Drawing β} {ns : List ℕ} (h : Rel σ R p p')
    (hq : p.feed ns = some q) : ∃ q', p'.feed (ns.map σ) = some q' ∧ Rel σ R q q' := by
  induction ns generalizing p p' with
  | nil =>
      cases p <;> obtain rfl := Option.some.inj hq <;> exact ⟨p', by cases p' <;> rfl, h⟩
  | cons n ns ih =>
      cases p with
      | done r => cases hq
      | draw next =>
          cases p' with
          | done r' => cases h
          | draw next' => exact ih (h n) hq

theorem Rel.of_done {r : Option α} {q' : Drawing β} (h : Rel σ R (done r) q') :
    ∃ r', q' = done r' ∧ Option.Rel R r r' := by
  cases q' with
  | done r' => exact ⟨r', rfl, h⟩
  | draw next => cases h

/-- The numbers of a list, in the place of `k` numbers from `n` on. -/
theorem map_getD_prefix (ns : List ℕ) (n k : ℕ) :
    (List.range' n k).map (fun m => ns.getD (m - n) 0) <+: ns ∨
      ns <+: (List.range' n k).map fun m => ns.getD (m - n) 0 := by
  have hget : ∀ j < k, ((List.range' n k).map fun m => ns.getD (m - n) 0)[j]? =
      some (ns.getD j 0) := by
    intro j hj
    simp [hj]
  rcases Nat.le_total k ns.length with hle | hle
  · refine Or.inl (List.prefix_iff_eq_take.mpr (List.ext_getElem? fun j => ?_))
    rw [List.length_map, List.length_range', List.getElem?_take]
    split_ifs with hj
    · rw [hget j hj, List.getD_eq_getElem?_getD, List.getElem?_eq_getElem (by omega)]
      rfl
    · simp
      omega
  · refine Or.inr (List.prefix_iff_eq_take.mpr (List.ext_getElem? fun j => ?_))
    rw [List.getElem?_take]
    split_ifs with hj
    · rw [hget j (by omega), List.getD_eq_getElem?_getD, List.getElem?_eq_getElem hj]
      rfl
    · simpa using hj

/-- Whatever numbers a computation has drawn, it comes to what it comes to alone, with
these numbers in the place of consecutive ones. -/
theorem eq_alone {R : (ℕ → ℕ) → α → α → Prop} {p : Drawing α} (h : ∀ σ, Rel σ (R σ) p p)
    {ns : List ℕ} {r : Option α} (hr : p.feed ns = some (done r)) (n : ℕ) :
    ∃ σ, ns = (List.range' n ns.length).map σ ∧ (p.alone n).2 = n + ns.length ∧
      Option.Rel (R σ) (p.alone n).1 r := by
  obtain ⟨k, hcounter, hfeed⟩ := feed_alone p n
  obtain ⟨q, hq, hrel⟩ := (h fun m => ns.getD (m - n) 0).feed hfeed
  obtain ⟨r', rfl, hrel⟩ := hrel.of_done
  have hsame : ns = (List.range' n k).map (fun m => ns.getD (m - n) 0) ∧ r = r' := by
    rcases map_getD_prefix ns n k with hleads | hleads
    · obtain ⟨heq, hr'⟩ := feed_unique hq hr hleads
      exact ⟨heq.symm, hr'.symm⟩
    · exact feed_unique hr hq hleads
  obtain ⟨hns, rfl⟩ := hsame
  have hk : ns.length = k := by
    rw [hns, List.length_map, List.length_range']
  rw [hk]
  exact ⟨_, hns, hcounter, hrel⟩

end Drawing

/-- Some computations, the counter, and who has drawn which number. -/
structure DrawingPool (ι α : Type) where
  counter : ℕ
  programs : ι → Drawing α
  log : List (ι × ℕ)

namespace DrawingPool

variable {ι α : Type} [DecidableEq ι]

def start (counter : ℕ) (programs : ι → Drawing α) : DrawingPool ι α where
  counter := counter
  programs := programs
  log := []

/-- One of the computations goes on to its next draw. -/
def step (pool : DrawingPool ι α) (i : ι) : DrawingPool ι α :=
  match pool.programs i with
  | .done _ => pool
  | .draw next =>
      { counter := pool.counter + 1
        programs := Function.update pool.programs i (next pool.counter)
        log := pool.log ++ [(i, pool.counter)] }

def run (pool : DrawingPool ι α) (schedule : List ι) : DrawingPool ι α :=
  schedule.foldl step pool

/-- The numbers that one of them has drawn. -/
def drawn (pool : DrawingPool ι α) (i : ι) : List ℕ :=
  (pool.log.filter fun entry => entry.1 = i).map Prod.snd

/-- All have come to an end. -/
def EndsWith (pool : DrawingPool ι α) (results : ι → Option α) : Prop :=
  ∀ i, pool.programs i = .done (results i)

/-- Each computation has been fed what it has drawn, and the draws of all of them
are consecutive. -/
structure Reached (counter : ℕ) (programs : ι → Drawing α) (pool : DrawingPool ι α) : Prop where
  numbers : pool.log.map Prod.snd = List.range' counter pool.log.length
  counter : pool.counter = counter + pool.log.length
  programs : ∀ i, (programs i).feed (pool.drawn i) = some (pool.programs i)

variable {counter counter' : ℕ} {programs : ι → Drawing α} {pool pool' : DrawingPool ι α}

theorem reached_start (counter : ℕ) (programs : ι → Drawing α) :
    Reached counter programs (start counter programs) where
  numbers := rfl
  counter := rfl
  programs i := by cases h : programs i <;> simp [start, drawn, Drawing.feed, h]

theorem Reached.step (h : Reached counter programs pool) (i : ι) :
    Reached counter programs (pool.step i) := by
  unfold DrawingPool.step
  split
  · exact h
  · next next hprogram =>
      refine ⟨?_, ?_, fun j => ?_⟩
      · simp [h.numbers, h.counter, List.range'_concat]
      · simp [h.counter, Nat.add_assoc]
      · have hbefore := h.programs j
        unfold drawn at hbefore ⊢
        by_cases hj : j = i
        · subst hj
          simp only [List.filter_append, List.map_append, Function.update_self,
            Drawing.feed_append, hbefore, Option.bind_some, hprogram]
          simp [Drawing.feed]
        · have hne : ¬i = j := fun heq => hj heq.symm
          simpa [List.filter_append, hne, Function.update_of_ne hj] using hbefore

theorem reached_run (counter : ℕ) (programs : ι → Drawing α) (schedule : List ι) :
    Reached counter programs ((start counter programs).run schedule) := by
  have hgeneral : ∀ pool, Reached counter programs pool →
      Reached counter programs (pool.run schedule) := by
    induction schedule with
    | nil => exact fun pool h => h
    | cons i schedule ih => exact fun pool h => ih (pool.step i) (h.step i)
  exact hgeneral _ (reached_start counter programs)

/-! ## The numbers -/

theorem Reached.pairwise (h : Reached counter programs pool) :
    (pool.log.map Prod.snd).Pairwise (· < ·) := by
  rw [h.numbers]
  exact List.pairwise_lt_range'

theorem drawn_sublist (pool : DrawingPool ι α) (i : ι) :
    (pool.drawn i).Sublist (pool.log.map Prod.snd) :=
  List.filter_sublist.map Prod.snd

theorem Reached.drawn_pairwise (h : Reached counter programs pool) (i : ι) :
    (pool.drawn i).Pairwise (· < ·) :=
  h.pairwise.sublist (drawn_sublist pool i)

theorem Reached.drawn_disjoint (h : Reached counter programs pool) {i j : ι} {n : ℕ}
    (hi : n ∈ pool.drawn i) (hj : n ∈ pool.drawn j) : i = j := by
  obtain ⟨⟨i', n'⟩, hentry, rfl⟩ := List.mem_map.mp hi
  obtain ⟨⟨j', m⟩, hentry', hm⟩ := List.mem_map.mp hj
  obtain ⟨hmem, hi'⟩ := List.mem_filter.mp hentry
  obtain ⟨hmem', hj'⟩ := List.mem_filter.mp hentry'
  have hsame := List.inj_on_of_nodup_map h.pairwise.nodup hmem hmem' hm.symm
  rw [← of_decide_eq_true hi', ← of_decide_eq_true hj', hsame]

/-! ## Two orders -/

omit [DecidableEq ι] in
/-- Families of lists of the same lengths, without repetitions, are the same up to a
renaming. -/
theorem exists_renaming {A B : ι → List ℕ} (hA : ∀ i, (A i).Nodup)
    (hdisjoint : ∀ i j n, n ∈ A i → n ∈ A j → i = j) (hB : ∀ i, (B i).Nodup)
    (hdisjoint' : ∀ i j n, n ∈ B i → n ∈ B j → i = j)
    (hlength : ∀ i, (A i).length = (B i).length) :
    ∃ σ : ℕ → ℕ, Set.InjOn σ {n | ∃ i, n ∈ A i} ∧ ∀ i, B i = (A i).map σ := by
  classical
  let σ : ℕ → ℕ := fun n =>
    if h : ∃ i, n ∈ A i then (B h.choose).getD ((A h.choose).idxOf n) 0 else n
  have hσ : ∀ i n, n ∈ A i → σ n = (B i).getD ((A i).idxOf n) 0 := by
    intro i n hn
    have hexists : ∃ i, n ∈ A i := ⟨i, hn⟩
    have hi : hexists.choose = i := hdisjoint _ _ n hexists.choose_spec hn
    simp only [σ, dif_pos hexists, hi]
  have hlt : ∀ i n, n ∈ A i → (A i).idxOf n < (B i).length := by
    intro i n hn
    rw [← hlength i]
    exact List.idxOf_lt_length_of_mem hn
  have hmem : ∀ i n, n ∈ A i → σ n ∈ B i := by
    intro i n hn
    rw [hσ i n hn, List.getD_eq_getElem _ _ (hlt i n hn)]
    exact List.getElem_mem _
  refine ⟨σ, ?_, fun i => ?_⟩
  · rintro n ⟨i, hn⟩ m ⟨j, hm⟩ heq
    have hij : i = j := hdisjoint' i j (σ n) (hmem i n hn) (heq ▸ hmem j m hm)
    subst hij
    rw [hσ i n hn, hσ i m hm, List.getD_eq_getElem _ _ (hlt i n hn),
      List.getD_eq_getElem _ _ (hlt i m hm)] at heq
    have hindex := (hB i).getElem_inj_iff.mp heq
    exact (List.idxOf_inj hn).mp hindex
  · apply List.ext_getElem
    · rw [List.length_map, hlength i]
    · intro k hk hk'
      have hkA : k < (A i).length := by
        rwa [List.length_map] at hk'
      rw [List.getElem_map, hσ i _ (List.getElem_mem hkA), (hA i).idxOf_getElem k hkA,
        List.getD_eq_getElem _ _ hk]

/-- Computations that only pass their numbers on come to the same in all orders, up to
a renaming of the numbers. -/
theorem Reached.independent {R : ι → (ℕ → ℕ) → α → α → Prop}
    (hrel : ∀ i σ, Drawing.Rel σ (R i σ) (programs i) (programs i))
    (h : Reached counter programs pool) (h' : Reached counter' programs pool')
    {results results' : ι → Option α} (hends : pool.EndsWith results)
    (hends' : pool'.EndsWith results') :
    ∃ σ, Set.InjOn σ {n | ∃ i, n ∈ pool.drawn i} ∧ ∀ i,
      pool'.drawn i = (pool.drawn i).map σ ∧ Option.Rel (R i σ) (results i) (results' i) := by
  have hfeed : ∀ i, (programs i).feed (pool.drawn i) = some (.done (results i)) := fun i =>
    (h.programs i).trans (congrArg some (hends i))
  have hfeed' : ∀ i, (programs i).feed (pool'.drawn i) = some (.done (results' i)) := fun i =>
    (h'.programs i).trans (congrArg some (hends' i))
  have hlength : ∀ i, (pool.drawn i).length = (pool'.drawn i).length := by
    intro i
    obtain ⟨_, _, hcounter, _⟩ := Drawing.eq_alone (hrel i) (hfeed i) 0
    obtain ⟨_, _, hcounter', _⟩ := Drawing.eq_alone (hrel i) (hfeed' i) 0
    omega
  obtain ⟨σ, hinj, hmap⟩ := exists_renaming (fun i => (h.drawn_pairwise i).nodup)
    (fun _ _ _ => h.drawn_disjoint) (fun i => (h'.drawn_pairwise i).nodup)
    (fun _ _ _ => h'.drawn_disjoint) hlength
  refine ⟨σ, hinj, fun i => ⟨hmap i, ?_⟩⟩
  obtain ⟨q, hq, hresult⟩ := (hrel i σ).feed (hfeed i)
  obtain ⟨r, rfl, hresult⟩ := hresult.of_done
  rw [← hmap i, hfeed' i] at hq
  cases hq
  exact hresult

/-! ## Orders that reach the end -/

theorem exists_run_done (pool : DrawingPool ι α) (i : ι) :
    ∃ schedule r, (pool.run schedule).programs i = .done r ∧
      ∀ j, j ≠ i → (pool.run schedule).programs j = pool.programs j := by
  generalize hprogram : pool.programs i = p
  induction p generalizing pool with
  | done r => exact ⟨[], r, hprogram, fun _ _ => rfl⟩
  | draw next ih =>
      have hnext : (pool.step i).programs =
          Function.update pool.programs i (next pool.counter) := by
        simp [step, hprogram]
      obtain ⟨schedule, r, hdone, hothers⟩ := ih pool.counter (pool.step i) (by simp [hnext])
      refine ⟨i :: schedule, r, hdone, fun j hj => ?_⟩
      exact (hothers j hj).trans (by rw [hnext, Function.update_of_ne hj])

/-- From everywhere there is an order in which any of the computations come to their
ends. -/
theorem exists_run_all (pool : DrawingPool ι α) (is : List ι) :
    ∃ schedule, ∀ i ∈ is, ∃ r, (pool.run schedule).programs i = .done r := by
  induction is generalizing pool with
  | nil => exact ⟨[], by simp⟩
  | cons i is ih =>
      obtain ⟨schedule, hrest⟩ := ih pool
      obtain ⟨schedule', r, hdone, hothers⟩ := exists_run_done (pool.run schedule) i
      have hrun : pool.run (schedule ++ schedule') = (pool.run schedule).run schedule' :=
        List.foldl_append
      refine ⟨schedule ++ schedule', fun j hj => ?_⟩
      rw [hrun]
      by_cases hji : j = i
      · exact ⟨r, hji ▸ hdone⟩
      · rw [hothers j hji]
        exact hrest j ((List.mem_cons.mp hj).resolve_left hji)

end DrawingPool
