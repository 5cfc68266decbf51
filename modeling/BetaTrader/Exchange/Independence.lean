import BetaTrader.Exchange.TradeDraws
import BetaTrader.Exchange.TradeIDGenerator

/-!
# Independent partitions

The workers share the counter of the trade ids and the queue of the database.  In
whatever order they draw their ids, and however their tasks are mixed in the queue,
each of them comes to the same, but for the numbers on its trades.
-/

namespace BetaTrader

variable {P : Type}

/-! ## The orders of a worker -/

namespace Partition

open Matcher

variable {owned : OrderID → Prop} {s s' : Partition P} {clock : Clock} {cmd : Command P}

/-- The partition knows only orders of these ids, and no others have been in its tasks. -/
structure Within (owned : OrderID → Prop) (s : Partition P) : Prop where
  addressed : s.orderManager.Addressed
  registers : ∀ id, s.orderManager.Registers id → owned id
  names : ∀ event ∈ s.journal, ∀ id, event.Names id → owned id

theorem Works.within (h : Works s s') (hs : s.Within owned) : s'.Within owned := by
  refine ⟨h.addressed hs.addressed, fun id hid => hs.registers id (h.registers id hid), ?_⟩
  obtain ⟨events, hjournal, hscoped⟩ := h.journal
  intro event hevent id hid
  rw [hjournal] at hevent
  rcases List.mem_append.mp hevent with hevent | hevent
  · exact hs.names event hevent id hid
  · exact hs.registers id ((hscoped event hevent).2 hs.addressed id hid)

theorem Within.admitted (hs : s.Within owned) (hcmd : ∀ id ∈ cmd.newIds, owned id) :
    (s.admitted cmd).Within owned := by
  refine ⟨admitted_addressed hs.addressed cmd, fun id hid => ?_, ?_⟩
  · cases cmd with
    | newOrder c =>
        by_cases heq : id = c.order.coreOrderId
        · exact hcmd id (List.mem_singleton.mpr heq)
        · rw [OrderManager.Registers, Partition.admitted, withManager,
            OrderManager.write_orderMap_of_ne _ _ heq] at hid
          exact hs.registers id hid
    | cancelOrder c => exact hs.registers id hid
    | modifyOrder c => exact hs.registers id hid
  · cases cmd <;> exact hs.names

section Handlers

variable [PriceArith P] {ptr : OrderPtr} {trades : List (Trade P)}

theorem Within.matchOrder (hs : s.Within owned)
    (h : s.matchOrder clock ptr = some (s', trades)) : s'.Within owned := by
  obtain ⟨⟨m, orderBook⟩, hmatch, h⟩ := Option.bind_eq_some_iff.mp h
  obtain ⟨rfl, rfl⟩ := Prod.mk.inj (Option.some.inj h)
  obtain ⟨made, hgoes, _⟩ := matchOrder_goes hs.addressed hmatch
  refine ⟨hgoes.serves.addressed hs.addressed, fun id hid => ?_, fun event hevent id hid => ?_⟩
  · apply hs.registers id
    intro hnone
    exact hid (hgoes.serves.gone id hnone).1
  · rcases List.mem_append.mp hevent with hevent | hevent
    · exact hs.names event hevent id hid
    · obtain rfl := List.mem_singleton.mp hevent
      exact hid.elim

theorem Within.processCommand (hs : s.Within owned) (hcmd : ∀ id ∈ cmd.newIds, owned id)
    (h : Partition.processCommand clock s cmd = some s') : s'.Within owned := by
  cases hcall : s.matchCall clock cmd with
  | none => exact (works_of_no_matchCall hcall h).within hs
  | some call =>
      obtain ⟨t, ptr⟩ := call
      rw [processCommand_of_matchCall hcall] at h
      obtain ⟨⟨t', trades⟩, hmatch, hresume⟩ := Option.bind_eq_some_iff.mp h
      have ht : t.Within owned := (works_matchCall hcall).within (hs.admitted hcmd)
      exact (works_resume hresume).within (ht.matchOrder hmatch)

theorem Within.processAll {commands : List (Command P)} (hs : s.Within owned)
    (hcommands : ∀ id ∈ newIds commands, owned id)
    (h : Partition.processAll clock s commands = some s') : s'.Within owned := by
  induction commands generalizing s with
  | nil =>
      obtain rfl := Option.some.inj h
      exact hs
  | cons cmd commands ih =>
      obtain ⟨s₁, hcommand, hrest⟩ := Option.bind_eq_some_iff.mp h
      have hs₁ : s₁.Within owned := by
        apply hs.processCommand _ hcommand
        exact fun id hid => hcommands id (List.mem_append_left _ hid)
      exact ih hs₁ (fun id hid => hcommands id (List.mem_append_right _ hid)) hrest

end Handlers

end Partition

/-! ## Mixed tasks -/

section Merges

variable {ι : Type} [DecidableEq ι] {log : List (ι × Event P)} {journals : ι → List (Event P)}

/-- What one of the workers has contributed. -/
def contribution (i : ι) (log : List (ι × Event P)) : List (Event P) :=
  (log.filter fun entry => entry.1 = i).map Prod.snd

/-- The journals of the workers, mixed in some order. -/
def Merges (log : List (ι × Event P)) (journals : ι → List (Event P)) : Prop :=
  ∀ i, contribution i log = journals i

/-- The orders table after the queued tasks of the log. -/
def tableOf (table : OrderTable P) (log : List (ι × Event P)) : OrderTable P :=
  table.executeAll (log.flatMap fun entry => entry.2.tasks)

omit [DecidableEq ι] in
theorem lookup_tableOf (table : OrderTable P) (log : List (ι × Event P)) (id : OrderID) :
    (tableOf table log).lookup id =
      log.foldl (fun row entry => entry.2.act id row) (table.lookup id) := by
  rw [tableOf, OrderTable.lookup_executeAll, List.foldl_flatMap]
  rfl

/-- Only its owner's journal matters for a row. -/
theorem foldl_contribution {i : ι} {id : OrderID}
    (h : ∀ entry ∈ log, entry.1 ≠ i → ¬entry.2.Names id) (row : Option (OrderRow P)) :
    log.foldl (fun row entry => entry.2.act id row) row =
      (contribution i log).foldl (fun row event => event.act id row) row := by
  induction log generalizing row with
  | nil => rfl
  | cons entry log ih =>
      have hrest := ih fun entry' hentry' => h entry' (List.mem_cons_of_mem entry hentry')
      rw [List.foldl_cons, hrest]
      by_cases hi : entry.1 = i
      · simp [contribution, hi]
      · rw [Event.act_of_not_names (h entry List.mem_cons_self hi)]
        simp [contribution, hi]

theorem lookup_merged {i : ι} {id : OrderID} (hlog : Merges log journals)
    (h : ∀ j ≠ i, ∀ event ∈ journals j, ¬event.Names id) (table : OrderTable P) :
    (tableOf table log).lookup id =
      (journals i).foldl (fun row event => event.act id row) (table.lookup id) := by
  rw [lookup_tableOf, ← hlog i]
  apply foldl_contribution
  intro entry hentry hi
  apply h entry.1 hi
  rw [← hlog entry.1]
  exact List.mem_map_of_mem (List.mem_filter.mpr ⟨hentry, decide_eq_true rfl⟩)

end Merges

theorem Event.act_rename (ρ : TradeID → TradeID) (id : OrderID) (event : Event P)
    (row : Option (OrderRow P)) : (event.rename ρ).act id row = event.act id row := by
  cases event with
  | published publication => cases publication <;> rfl
  | enqueued task => cases task <;> rfl
  | _ => rfl

theorem foldl_act_rename (ρ : TradeID → TradeID) (id : OrderID) (events : List (Event P))
    (row : Option (OrderRow P)) :
    (events.map (Event.rename ρ)).foldl (fun row event => event.act id row) row =
      events.foldl (fun row event => event.act id row) row := by
  simp only [List.foldl_map, Event.act_rename]

/-! ## The workers -/

/-- What a worker begins with, and the commands in its queue.  Its orders stand under
their own ids. -/
structure Worker (P : Type) where
  clock : Clock
  orderManager : OrderManager P
  orderBook : OrderBook P
  commands : List (Command P)
  addressed : orderManager.Addressed

namespace Worker

def partition (worker : Worker P) : Partition P where
  orderManager := worker.orderManager
  orderBook := worker.orderBook
  currentId := 0
  ticks := 0
  journal := []

/-- The orders that the worker has or is brought. -/
def Owns (worker : Worker P) (id : OrderID) : Prop :=
  worker.orderManager.Registers id ∨ id ∈ newIds worker.commands

variable [PriceArith P]

def program (worker : Worker P) : Drawing (Partition P) :=
  Partition.processAllDrawing worker.clock worker.partition worker.commands

/-- What the worker comes to without the others. -/
def alone (worker : Worker P) : Option (Partition P) :=
  Partition.processAll worker.clock worker.partition worker.commands

omit [PriceArith P] in
theorem within (worker : Worker P) : worker.partition.Within worker.Owns where
  addressed := worker.addressed
  registers := fun _ hid => Or.inl hid
  names := fun _ h => nomatch h

end Worker

/-! ## All orders come to the same -/

namespace Partition

/-- The same partition, but for the ids of its trades. -/
structure Renames (ρ : TradeID → TradeID) (s s' : Partition P) : Prop where
  orderManager : s'.orderManager = s.orderManager
  orderBook : s'.orderBook = s.orderBook
  journal : s'.journal = s.journal.map (Event.rename ρ)

theorem renames_renumber (ρ : TradeID → TradeID) (currentId : TradeID) (s : Partition P) :
    Renames ρ s (s.renumber ρ currentId) := ⟨rfl, rfl, rfl⟩

theorem renames_of_renumbered {σ : ℕ → ℕ} {r r' : Option (Partition P)}
    (h : Option.Rel (Renumbered σ) r r') : Option.Rel (Renames (renumbering σ)) r r' := by
  apply Lists.rel_imp h
  rintro s _ _ _ ⟨currentId, rfl⟩
  exact renames_renumber _ currentId s

end Partition

section Pool

variable {ι : Type} [DecidableEq ι] [PriceArith P] (workers : ι → Worker P) (counter : ℕ)

/-- The workers after they have drawn in the order of the schedule. -/
def poolAfter (schedule : List ι) : DrawingPool ι (Partition P) :=
  (DrawingPool.start counter fun i => (workers i).program).run schedule

/-- The ids drawn so far, in the order in which they were. -/
def idsAfter (schedule : List ι) : List TradeID :=
  (poolAfter workers counter schedule).log.map fun entry => entry.2 + 1

variable {workers counter} {schedule : List ι} {ends : ι → Option (Partition P)}

omit [DecidableEq ι] in
theorem rel_program (i : ι) (σ : ℕ → ℕ) :
    Drawing.Rel σ (Partition.Renumbered σ) (workers i).program (workers i).program :=
  Partition.rel_processAll (workers i).partition 0 (workers i).commands

theorem reached (workers : ι → Worker P) (counter : ℕ) (schedule : List ι) :
    DrawingPool.Reached counter (fun i => (workers i).program)
      (poolAfter workers counter schedule) :=
  DrawingPool.reached_run counter _ schedule

theorem feed_program (h : (poolAfter workers counter schedule).EndsWith ends) (i : ι) :
    (workers i).program.feed ((poolAfter workers counter schedule).drawn i) =
      some (.done (ends i)) := by
  rw [← h i]
  exact (reached workers counter schedule).programs i

/-- Every worker comes to what it comes to alone, with other ids on its trades. -/
theorem renames_alone (h : (poolAfter workers counter schedule).EndsWith ends) (i : ι) :
    ∃ ρ, Option.Rel (Partition.Renames ρ) (workers i).alone (ends i) := by
  obtain ⟨σ, _, _, hrel⟩ := Drawing.eq_alone (rel_program i) (feed_program h i) 0
  have hcomputes : Drawing.Computes Partition.currentId (workers i).program
      (workers i).partition.currentId (workers i).alone :=
    Partition.computes_processAll (workers i).partition (workers i).commands
  have halone : ((workers i).program.alone 0).1 = (workers i).alone := hcomputes.1
  rw [halone] at hrel
  exact ⟨renumbering σ, Partition.renames_of_renumbered hrel⟩

theorem tradeIds_ends (h : (poolAfter workers counter schedule).EndsWith ends) {i : ι}
    {s : Partition P} (hs : ends i = some s) :
    s.tradeIds = ((poolAfter workers counter schedule).drawn i).map (· + 1) := by
  have hfeed := feed_program h i
  rw [hs] at hfeed
  exact Partition.ensures_processAll (workers i).partition (workers i).commands _ s hfeed

theorem within_ends (h : (poolAfter workers counter schedule).EndsWith ends) {i : ι}
    {s : Partition P} (hs : ends i = some s) :
    ∀ event ∈ s.journal, ∀ id, event.Names id → (workers i).Owns id := by
  obtain ⟨ρ, hrel⟩ := renames_alone h i
  rw [hs] at hrel
  obtain ⟨t, ht, hrenames⟩ := Lists.exists_of_rel_some hrel
  have hwithin := (workers i).within.processAll (fun id hid => Or.inr hid) ht
  intro event hevent id hid
  rw [hrenames.journal] at hevent
  obtain ⟨original, horiginal, rfl⟩ := List.mem_map.mp hevent
  apply hwithin.names original horiginal id
  cases original with
  | enqueued task => cases task <;> exact hid
  | published publication => cases publication <;> exact hid
  | matched trades => exact hid
  | refreshed refresh => exact hid

theorem idsAfter_eq (workers : ι → Worker P) (counter : ℕ) (schedule : List ι) :
    idsAfter workers counter schedule =
      List.range' (counter + 1) (idsAfter workers counter schedule).length := by
  have hreached := reached workers counter schedule
  have hsucc : ∀ entries : List (ι × ℕ),
      (entries.map fun entry => entry.2 + 1) = (entries.map Prod.snd).map (1 + ·) := by
    intro entries
    simp [Nat.add_comm]
  rw [idsAfter, List.length_map, hsucc, hreached.numbers, List.map_add_range', Nat.add_comm]

/-- Later ids are larger, also as 64-bit numbers while these do not wrap. -/
theorem idsAfter_pairwise (workers : ι → Worker P) (counter : ℕ) (schedule : List ι) :
    (idsAfter workers counter schedule).Pairwise (· < ·) ∧
      (counter + (idsAfter workers counter schedule).length < 2 ^ 64 →
        ((idsAfter workers counter schedule).map UInt64.ofNat).Pairwise (· < ·)) := by
  rw [idsAfter_eq]
  generalize (idsAfter workers counter schedule).length = n
  refine ⟨List.pairwise_lt_range', fun hlt => ?_⟩
  rw [List.length_range'] at hlt
  rw [List.pairwise_map]
  apply List.Pairwise.imp_of_mem _ List.pairwise_lt_range'
  intro a b ha hb hab
  obtain ⟨_, ha⟩ := List.mem_range'_1.mp ha
  obtain ⟨_, hb⟩ := List.mem_range'_1.mp hb
  rw [UInt64.lt_iff_toNat_lt, TradeIDGenerator.toNat_ofNat (by omega),
    TradeIDGenerator.toNat_ofNat (by omega)]
  exact hab

theorem renames_ends {schedule' : List ι} {ends' : ι → Option (Partition P)}
    (h : (poolAfter workers counter schedule).EndsWith ends)
    (h' : (poolAfter workers counter schedule').EndsWith ends') :
    ∃ ρ, Set.InjOn ρ {id | ∃ i s, ends i = some s ∧ id ∈ s.tradeIds} ∧
      ∀ i, Option.Rel (Partition.Renames ρ) (ends i) (ends' i) := by
  obtain ⟨σ, hinj, hsame⟩ := (reached workers counter schedule).independent
    (fun i σ => rel_program i σ) (reached workers counter schedule') h h'
  refine ⟨renumbering σ, ?_, fun i => Partition.renames_of_renumbered (hsame i).2⟩
  have hdrawn : ∀ id, (∃ i s, ends i = some s ∧ id ∈ s.tradeIds) →
      ∃ n, id = n + 1 ∧ ∃ i, n ∈ (poolAfter workers counter schedule).drawn i := by
    rintro id ⟨i, s, hs, hid⟩
    rw [tradeIds_ends h hs] at hid
    obtain ⟨n, hn, rfl⟩ := List.mem_map.mp hid
    exact ⟨n, rfl, i, hn⟩
  intro id hid id' hid' heq
  obtain ⟨n, rfl, hn⟩ := hdrawn id hid
  obtain ⟨m, rfl, hm⟩ := hdrawn id' hid'
  exact congrArg (· + 1) (hinj hn hm (Nat.succ.inj heq))

/-- A row shows what its owner has made of it. -/
theorem lookup_ends {schedule' : List ι} {s s' : ι → Partition P}
    (h : (poolAfter workers counter schedule).EndsWith fun i => some (s i))
    (h' : (poolAfter workers counter schedule').EndsWith fun i => some (s' i))
    {ρ : TradeID → TradeID} {i : ι} (hrename : Partition.Renames ρ (s i) (s' i))
    {log log' : List (ι × Event P)} (hlog : Merges log fun i => (s i).journal)
    (hlog' : Merges log' fun i => (s' i).journal) {id : OrderID}
    (howner : ∀ j ≠ i, ¬(workers j).Owns id) (table : OrderTable P) :
    (tableOf table log').lookup id = (tableOf table log).lookup id := by
  have hothers : ∀ j ≠ i, ∀ event ∈ (s j).journal, ¬event.Names id := fun j hj event hevent hid =>
    howner j hj (within_ends h rfl event hevent id hid)
  have hothers' : ∀ j ≠ i, ∀ event ∈ (s' j).journal, ¬event.Names id :=
    fun j hj event hevent hid => howner j hj (within_ends h' rfl event hevent id hid)
  rw [lookup_merged hlog hothers, lookup_merged hlog' hothers', hrename.journal,
    foldl_act_rename]

theorem tradeIds_distinct (h : (poolAfter workers counter schedule).EndsWith ends) {i j : ι}
    {s t : Partition P} (hs : ends i = some s) (ht : ends j = some t) {id : TradeID}
    (hid : id ∈ s.tradeIds) (hid' : id ∈ t.tradeIds) : i = j := by
  rw [tradeIds_ends h hs] at hid
  rw [tradeIds_ends h ht] at hid'
  obtain ⟨n, hn, rfl⟩ := List.mem_map.mp hid
  obtain ⟨m, hm, heq⟩ := List.mem_map.mp hid'
  obtain rfl := Nat.succ.inj heq
  exact (reached workers counter schedule).drawn_disjoint hn hm

theorem tradeIds_pairwise (h : (poolAfter workers counter schedule).EndsWith ends) {i : ι}
    {s : Partition P} (hs : ends i = some s) : s.tradeIds.Pairwise (· < ·) := by
  rw [tradeIds_ends h hs, List.pairwise_map]
  apply ((reached workers counter schedule).drawn_pairwise i).imp
  exact Nat.succ_lt_succ

theorem mem_idsAfter (h : (poolAfter workers counter schedule).EndsWith ends) {i : ι}
    {s : Partition P} (hs : ends i = some s) {id : TradeID} (hid : id ∈ s.tradeIds) :
    id ∈ idsAfter workers counter schedule := by
  rw [tradeIds_ends h hs] at hid
  obtain ⟨n, hn, rfl⟩ := List.mem_map.mp hid
  have hmem := (DrawingPool.drawn_sublist _ i).subset hn
  obtain ⟨entry, hentry, rfl⟩ := List.mem_map.mp hmem
  exact List.mem_map.mpr ⟨entry, hentry, rfl⟩

/-- Whatever the orders in which the workers draw their trade ids, each of them comes
to the same orders, book, reports and trades, up to a renaming of the ids.  Its rows of
the orders table are the same however the tasks are mixed in the queue.  In every order
no id is given twice, and the trades of a worker carry increasing ids. -/
theorem partitions_independent (workers : ι → Worker P) (counter : ℕ)
    {schedule schedule' : List ι} {ends ends' : ι → Option (Partition P)}
    (h : (poolAfter workers counter schedule).EndsWith ends)
    (h' : (poolAfter workers counter schedule').EndsWith ends') :
    (∃ ρ, Set.InjOn ρ {id | ∃ i s, ends i = some s ∧ id ∈ s.tradeIds} ∧
      ∀ i, Option.Rel (Partition.Renames ρ) (ends i) (ends' i)) ∧
    (∀ s s' : ι → Partition P, (∀ i, ends i = some (s i)) → (∀ i, ends' i = some (s' i)) →
      ∀ log log' : List (ι × Event P), Merges log (fun i => (s i).journal) →
        Merges log' (fun i => (s' i).journal) → ∀ table i id,
          (∀ j ≠ i, ¬(workers j).Owns id) →
            (tableOf table log').lookup id = (tableOf table log).lookup id) ∧
    (∀ i s, ends i = some s → s.tradeIds.Pairwise (· < ·) ∧
      ∀ id ∈ s.tradeIds, id ∈ idsAfter workers counter schedule ∧
        ∀ j t, ends j = some t → id ∈ t.tradeIds → i = j) ∧
    (idsAfter workers counter schedule).Pairwise (· < ·) ∧
    (counter + (idsAfter workers counter schedule).length < 2 ^ 64 →
      ((idsAfter workers counter schedule).map UInt64.ofNat).Pairwise (· < ·)) := by
  obtain ⟨ρ, hinj, hrename⟩ := renames_ends h h'
  refine ⟨⟨ρ, hinj, hrename⟩, ?_, ?_, idsAfter_pairwise workers counter schedule⟩
  · intro s s' hs hs' log log' hlog hlog' table i id howner
    obtain rfl : ends = fun i => some (s i) := funext hs
    obtain rfl : ends' = fun i => some (s' i) := funext hs'
    have hsame : Partition.Renames ρ (s i) (s' i) := by
      cases hrename i with
      | some hrename => exact hrename
    exact lookup_ends h h' hsame hlog hlog' howner table
  · intro i s hs
    refine ⟨tradeIds_pairwise h hs, fun id hid => ⟨mem_idsAfter h hs hid, ?_⟩⟩
    exact fun j t ht hid' => tradeIds_distinct h hs ht hid hid'

/-- From everywhere there is an order in which all workers come to their ends. -/
theorem exists_ends [Fintype ι] (workers : ι → Worker P) (counter : ℕ) :
    ∃ schedule ends, (poolAfter workers counter schedule).EndsWith ends := by
  obtain ⟨schedule, hdone⟩ := DrawingPool.exists_run_all
    (DrawingPool.start counter fun i => (workers i).program) Finset.univ.toList
  have hall : ∀ i, ∃ r, (poolAfter workers counter schedule).programs i = .done r := fun i =>
    hdone i (Finset.mem_toList.mpr (Finset.mem_univ i))
  choose ends hends using hall
  exact ⟨schedule, ends, hends⟩

end Pool

namespace Sample

open Partition.Sample

/-- Two sells, and a buy that fills both. -/
def worker (orderId : OrderID) : Worker ℚ where
  clock := fun _ => 0
  orderManager := .empty
  orderBook := .empty .eurusd
  commands :=
    [submit orderId "S1" .sell .limit 3 10, submit (orderId + 1) "S2" .sell .limit 4 10,
      submit (orderId + 2) "B1" .buy .limit 7 10]
  addressed := fun _ _ h => nomatch h

def workers (second : Bool) : Worker ℚ := if second then worker 4 else worker 1

/-- The partition of a worker after both have drawn in this order. -/
def ends (schedule : List Bool) (i : Bool) : Option (Partition ℚ) :=
  ((poolAfter workers 0 schedule).programs i).result

end Sample

/-- The workers draw one after the other, or in turn. -/
theorem partitions_independent_sample :
    (∃ ρ, Set.InjOn ρ {id | ∃ i s, Sample.ends [false, false, true, true] i = some s ∧
        id ∈ s.tradeIds} ∧
      ∀ i, Option.Rel (Partition.Renames ρ) (Sample.ends [false, false, true, true] i)
        (Sample.ends [true, false, true, false] i)) ∧
      (Sample.ends [true, false, true, false] true).map Partition.tradeIds = some [1, 3] := by
  have hfinished : (∀ i, ((poolAfter Sample.workers 0 [false, false, true, true]).programs
        i).finished) ∧
      (∀ i, ((poolAfter Sample.workers 0 [true, false, true, false]).programs i).finished) ∧
      (Sample.ends [true, false, true, false] true).map Partition.tradeIds = some [1, 3] := by
    decide +kernel
  obtain ⟨h, h', hids⟩ := hfinished
  exact ⟨(partitions_independent Sample.workers 0 (fun i => Drawing.eq_done (h i))
    fun i => Drawing.eq_done (h' i)).1, hids⟩

end BetaTrader
