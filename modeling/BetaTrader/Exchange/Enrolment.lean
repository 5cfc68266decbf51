import BetaTrader.Exchange.DatabaseWorker
import BetaTrader.Exchange.SequenceLink
import BetaTrader.Exchange.SessionGate
import BetaTrader.Exchange.TradingCore
import Mathlib.Data.List.DropRight

/-!
# Who may log on

The table of the clients is written and read by tasks of the database worker, and the
session manager knows of it what the last `loadValidClients` has found there.  Between a
call of the repository and its effect on a Logon there are thus the queue, and the next
load.
-/

namespace BetaTrader

/-! ## The table of the clients -/

/-- The tasks that `AuthRepository` queues. -/
inductive AuthTask where
  | insertNewClient (senderCompId : String) (isActive : Bool)
  | removeAllClients
  /-- With a callback that hands the clients to the session manager. -/
  | loadValidClients
  /-- A task of another repository. -/
  | other
  deriving DecidableEq

/-- The rows of `clients`, whose primary key is `sender_comp_id`. -/
abbrev ClientTable := List (String × Bool)

namespace ClientTable

/-- `INSERT OR IGNORE`. -/
def insert (table : ClientTable) (senderCompId : String) (isActive : Bool) : ClientTable :=
  if table.any fun row => row.1 = senderCompId then table else table ++ [(senderCompId, isActive)]

def execute (table : ClientTable) : AuthTask → ClientTable
  | .insertNewClient senderCompId isActive => table.insert senderCompId isActive
  | .removeAllClients => []
  | .loadValidClients => table
  | .other => table

/-- `SELECT sender_comp_id FROM clients WHERE is_active = 1`. -/
def validClients (table : ClientTable) : List String :=
  (table.filter fun row => row.2).map fun row => cString row.1

end ClientTable

/-! ## What the calls come to -/

namespace AuthTask

/-- What an insert states about a client. -/
def states (key : String) : AuthTask → Option Bool
  | .insertNewClient senderCompId isActive => if senderCompId = key then some isActive else none
  | _ => none

/-- The first insert of a client since the last removal. -/
def enrolment (tasks : List AuthTask) (key : String) : Option Bool :=
  (tasks.rtakeWhile fun task => task ≠ .removeAllClients).findSome? (states key)

/-- The last load has found the client, whose id is read as a C string, after the tasks
that earlier processes have executed. -/
def Authorized (earlier tasks : List AuthTask) (compId : String) : Prop :=
  ∃ before after, tasks = before ++ .loadValidClients :: after ∧ .loadValidClients ∉ after ∧
    ∃ key, cString key = compId ∧ enrolment (earlier ++ before) key = some true

variable {tasks : List AuthTask} {task : AuthTask} {key : String} {isActive : Bool}

theorem enrolment_concat : enrolment (tasks ++ [task]) key =
    if task = .removeAllClients then none else (enrolment tasks key).or (states key task) := by
  rw [enrolment, List.rtakeWhile_concat]
  by_cases hremove : task = .removeAllClients
  · simp [hremove]
  · simp [hremove, enrolment, List.findSome?_append]

theorem mem_foldl_execute : (key, isActive) ∈ tasks.foldl ClientTable.execute [] ↔
    enrolment tasks key = some isActive := by
  induction tasks using List.reverseRecOn generalizing key isActive with
  | nil => simp [enrolment]
  | append_singleton tasks task ih =>
      rw [List.foldl_concat, enrolment_concat]
      cases task with
      | insertNewClient senderCompId active =>
          rw [if_neg nofun, ClientTable.execute, ClientTable.insert, states]
          by_cases hrow : ∃ old, enrolment tasks senderCompId = some old
          · obtain ⟨old, hold⟩ := hrow
            have hany : (tasks.foldl ClientTable.execute []).any
                (fun row => row.1 = senderCompId) = true :=
              List.any_eq_true.mpr ⟨_, ih.mpr hold, by simp⟩
            rw [if_pos hany, ih]
            split_ifs with hkey
            · simp [← hkey, hold]
            · rw [Option.or_none]
          · have hany : ¬(tasks.foldl ClientTable.execute []).any
                (fun row => row.1 = senderCompId) = true := by
              intro h
              obtain ⟨⟨other, old⟩, hmem, hother⟩ := List.any_eq_true.mp h
              obtain rfl := of_decide_eq_true hother
              exact hrow ⟨old, ih.mp hmem⟩
            have hnone : enrolment tasks senderCompId = none :=
              Option.eq_none_iff_forall_ne_some.mpr fun old hold => hrow ⟨old, hold⟩
            rw [if_neg hany, List.mem_append, ih, List.mem_singleton, Prod.mk.injEq]
            split_ifs with hkey
            · simp [← hkey, hnone, eq_comm]
            · simp [Ne.symm hkey]
      | removeAllClients => simp [ClientTable.execute]
      | loadValidClients => simpa [ClientTable.execute, states] using ih
      | other => simpa [ClientTable.execute, states] using ih

theorem mem_validClients {compId : String} :
    compId ∈ (tasks.foldl ClientTable.execute []).validClients ↔
      ∃ key, cString key = compId ∧ enrolment tasks key = some true := by
  simp only [ClientTable.validClients, List.mem_map, List.mem_filter, Prod.exists]
  constructor
  · rintro ⟨key, active, ⟨hmem, rfl⟩, hkey⟩
    exact ⟨key, hkey, mem_foldl_execute.mp hmem⟩
  · rintro ⟨key, hkey, henrolled⟩
    exact ⟨key, true, ⟨mem_foldl_execute.mpr henrolled, rfl⟩, hkey⟩

theorem authorized_concat {earlier : List AuthTask} {compId : String} :
    Authorized earlier (tasks ++ [task]) compId ↔
      if task = .loadValidClients then
        ∃ key, cString key = compId ∧ enrolment (earlier ++ tasks) key = some true
      else Authorized earlier tasks compId := by
  split_ifs with hload
  · subst hload
    constructor
    · rintro ⟨before, after, htasks, hafter, hkey⟩
      cases after using List.reverseRecOn with
      | nil =>
          obtain ⟨rfl, _⟩ := List.append_inj' htasks rfl
          exact hkey
      | append_singleton after last =>
          rw [← List.cons_append, ← List.append_assoc] at htasks
          obtain ⟨_, hlast⟩ := List.append_inj' htasks rfl
          rw [List.singleton_inj] at hlast
          simp [← hlast] at hafter
    · exact fun hkey => ⟨tasks, [], rfl, List.not_mem_nil, hkey⟩
  · constructor
    · rintro ⟨before, after, htasks, hafter, hkey⟩
      cases after using List.reverseRecOn with
      | nil =>
          obtain ⟨_, hlast⟩ := List.append_inj' htasks rfl
          exact (hload (List.singleton_inj.mp hlast)).elim
      | append_singleton after last =>
          rw [← List.cons_append, ← List.append_assoc] at htasks
          obtain ⟨rfl, _⟩ := List.append_inj' htasks rfl
          exact ⟨before, after, rfl, fun hmem => hafter (List.mem_append_left _ hmem), hkey⟩
    · rintro ⟨before, after, rfl, hafter, hkey⟩
      refine ⟨before, after ++ [task], by simp, ?_, hkey⟩
      simp [hafter, Ne.symm hload]

end AuthTask

/-! ## The clients that a server knows -/

section ValidClients

variable {manager : FixSessionManager} {sessionId : ConnectionID} {ctx : HandlerContext}
  {fixMessage : Message} {r : FixSessionManager × List SessionEffect} {server : FixServer}

namespace FixSessionManager

theorem validClients_authenticate (compId : String) :
    (manager.authenticate sessionId compId).2.validClients = manager.validClients := by
  unfold authenticate
  split <;> rfl

theorem validClients_validateSequence (n : UInt32) :
    (manager.validateSequence sessionId n).2.validClients = manager.validClients := by
  unfold validateSequence
  split
  · rfl
  · split
    · rfl
    · split_ifs <;> rfl

theorem validClients_handleLogout :
    (manager.handleLogout sessionId).validClients = manager.validClients := by
  unfold handleLogout
  split
  · rfl
  · split <;> rfl

end FixSessionManager

open FixSessionManager

theorem FixSession.validClients_handleFrame
    (h : handleFrame ctx manager sessionId fixMessage = some r) :
    r.1.validClients = manager.validClients := by
  rcases handleFrame_eq h with rfl | ⟨c, _, rfl⟩
  · exact validClients_useNextOutboundSequence manager sessionId
  · rcases handleFixMessage_cases ctx manager sessionId fixMessage c with
      heq | heq | heq | ⟨n, _, heq | ⟨_, heq⟩⟩
    · rw [heq]
    · rw [heq]
    · rw [heq]
      exact validClients_handleLogout.trans (validClients_useNextOutboundSequence _ _)
    · obtain ⟨logout, logonAck, hlogon⟩ := handleLogon_eq ctx manager sessionId fixMessage n
      rw [heq, hlogon]
      split_ifs
      · apply (validClients_useNextOutboundSequence _ _).trans
        exact (validClients_validateSequence n).trans (validClients_authenticate _)
      · rfl
    · rw [heq]
      exact validClients_dispatch.trans (validClients_validateSequence n)

theorem FixServer.validClients_step {event : ServerEvent}
    (h : ∀ validClients, event ≠ .loadConfig validClients) :
    (server.step event).manager.validClients = server.manager.validClients := by
  unfold step
  split_ifs
  · cases event with
    | accept => rfl
    | frame sessionId ctx fixMessage =>
        dsimp only
        unfold receive
        split
        · rfl
        · split
          · rfl
          · next hframe => exact FixSession.validClients_handleFrame hframe
    | malformed sessionId ctx error =>
        dsimp only
        unfold rejectMalformed
        split
        · rfl
        · exact FixSession.validClients_useNextOutboundSequence _ _
    | disconnect sessionId => rfl
    | outbound sessionId =>
        dsimp only
        unfold sendTo
        split
        · rfl
        · exact FixSession.validClients_useNextOutboundSequence _ _
    | loadConfig validClients => exact (h validClients rfl).elim
  · rfl

end ValidClients

/-- A connection that has logged on anew has done so as a valid client. -/
theorem LiveServer.valid_of_mem_logonsAfter {s : LiveServer} {event : ServerEvent}
    {sessionId : ConnectionID} {compId : String} (h : compId ∈ s.logonsAfter event sessionId) :
    compId ∈ s.logons sessionId ∨ s.server.manager.validClients compId = true := by
  have hcleared {other : ConnectionID}
      (hmem : compId ∈ Function.update s.logons other [] sessionId) :
      compId ∈ s.logons sessionId := by
    by_cases hother : sessionId = other
    · subst hother
      exact absurd hmem (by simp)
    · rwa [Function.update_of_ne hother] at hmem
  cases event with
  | accept => exact Or.inl (hcleared h)
  | frame other ctx fixMessage =>
      rw [logonsAfter] at h
      cases hconnection : s.server.sessions other with
      | none =>
          rw [hconnection] at h
          exact Or.inl h
      | some connection =>
          cases hframe : FixSession.handleFrame ctx s.server.manager other fixMessage with
          | none =>
              rw [hconnection, hframe] at h
              exact Or.inl h
          | some r =>
              rw [hconnection, hframe] at h
              dsimp only at h
              by_cases hother : sessionId = other
              · subst hother
                rw [Function.update_self, logonsOfFrame] at h
                split_ifs at h
                · cases h
                · rcases List.mem_append.mp h with haccepted | hold
                  · rw [Option.mem_toList, FixSession.acceptedLogon] at haccepted
                    split_ifs at haccepted with hvalid
                    exact Or.inr (Option.some.inj haccepted ▸ hvalid.2.2)
                  · exact Or.inl hold
              · rw [Function.update_of_ne hother] at h
                exact Or.inl h
  | malformed other ctx error => exact Or.inl h
  | disconnect other => exact Or.inl (hcleared h)
  | outbound other => exact Or.inl h
  | loadConfig clients => exact Or.inl h

/-! ## The server and the worker -/

/-- A server, and the database worker of its repository. -/
structure Admission where
  worker : DatabaseWorker AuthTask ClientTable
  server : LiveServer

inductive AdmissionEvent where
  | database (event : DatabaseEvent AuthTask)
  | server (event : ServerEvent)

namespace Admission

/-- A new process, with the table as earlier processes have left it. -/
def start (earlier : List AuthTask) (seqRepo : Option SequenceRepository) : Admission where
  worker := .start (earlier.foldl ClientTable.execute [])
  server := .start seqRepo

/-- A load hands what it has read to `loadConfig`. -/
def step (s : Admission) : AdmissionEvent → Admission
  | .database event =>
      { worker := s.worker.step ClientTable.execute event
        server := if .loadValidClients ∈ s.worker.completes event then
            s.server.step (.loadConfig s.worker.database.validClients)
          else s.server }
  | .server event => { s with server := s.server.step event }

def databaseEvents : List AdmissionEvent → List (DatabaseEvent AuthTask) :=
  List.filterMap fun
    | .database event => some event
    | .server _ => none

/-- The tasks that the worker has executed. -/
def executed (earlier : List AuthTask) (events : List AdmissionEvent) : List AuthTask :=
  (DatabaseWorker.start (earlier.foldl ClientTable.execute [])).executed ClientTable.execute
    (databaseEvents events)

/-- The tasks that have been queued. -/
def queued (earlier : List AuthTask) (events : List AdmissionEvent) : List AuthTask :=
  (DatabaseWorker.start (earlier.foldl ClientTable.execute [])).enqueued ClientTable.execute
    (databaseEvents events)

/-- The clients are loaded from the table alone, and the number of a new connection has no
mapping left from an earlier one. -/
def Fresh (s : Admission) : AdmissionEvent → Prop
  | .database _ => True
  | .server event =>
      s.server.NumbersFresh event ∧ ∀ validClients, event ≠ .loadConfig validClients

/-- Who is let in, and who may trade. -/
structure Guarded (earlier : List AuthTask) (events : List AdmissionEvent) (s : Admission) :
    Prop where
  /-- The calls take effect in their order. -/
  inOrder : executed earlier events <+: queued earlier events
  /-- A Logon is accepted for the clients that are authorized, and for no others. -/
  accepts : ∀ sessionId compId, (s.server.server.manager.authenticate sessionId compId).1 = true ↔
    AuthTask.Authorized earlier (executed earlier events) compId
  /-- A connection that hands something to the trading core has logged on as a client that
  was authorized. -/
  submits : ∀ sessionId ctx fixMessage,
    FixSession.SubmitsNothing (s.server.server.receive sessionId ctx fixMessage).2 ∨
      ∃ compId ∈ s.server.logons sessionId, ∃ moment, moment <+: events ∧
        AuthTask.Authorized earlier (executed earlier moment) compId

variable {earlier : List AuthTask} {seqRepo : Option SequenceRepository}
  {events : List AdmissionEvent} {event : AdmissionEvent} {s : Admission}

theorem worker_run : (events.foldl step (start earlier seqRepo)).worker =
    (DatabaseWorker.start (earlier.foldl ClientTable.execute [])).run ClientTable.execute
      (databaseEvents events) := by
  induction events using List.reverseRecOn with
  | nil => rfl
  | append_singleton events event ih =>
      rw [List.foldl_concat, databaseEvents, List.filterMap_append, DatabaseWorker.run,
        List.foldl_append]
      cases event with
      | database event => exact congrArg (DatabaseWorker.step ClientTable.execute · event) ih
      | server event => exact ih

theorem database_run : (events.foldl step (start earlier seqRepo)).worker.database =
    (earlier ++ executed earlier events).foldl ClientTable.execute [] := by
  rw [worker_run, DatabaseWorker.database_run, List.foldl_append]
  rfl

variable (seqRepo) in
theorem executed_concat : executed earlier (events ++ [event]) = executed earlier events ++
    match event with
    | .database event => (events.foldl step (start earlier seqRepo)).worker.completes event
    | .server _ => [] := by
  rw [worker_run, executed, databaseEvents, List.filterMap_append, DatabaseWorker.executed,
    Fifo.Passage.left, Fifo.outputs_append]
  cases event with
  | database event => exact congrArg (_ ++ ·) (List.append_nil _)
  | server event => rfl

/-- What a run keeps. -/
structure Sound (earlier : List AuthTask) (events : List AdmissionEvent) (s : Admission) :
    Prop where
  maps : s.server.MapsLatest
  valid : s.server.server.running = true → ∀ compId,
    s.server.server.manager.validClients compId = true ↔
      AuthTask.Authorized earlier (executed earlier events) compId
  logons : ∀ sessionId, ∀ compId ∈ s.server.logons sessionId, ∃ moment, moment <+: events ∧
    AuthTask.Authorized earlier (executed earlier moment) compId

theorem sound_start (earlier : List AuthTask) (seqRepo : Option SequenceRepository) :
    (start earlier seqRepo).Sound earlier [] where
  maps := LiveServer.mapsLatest_start seqRepo
  valid := by
    intro _ compId
    refine iff_of_false nofun ?_
    rintro ⟨before, after, htasks, _⟩
    exact absurd htasks.symm (by simp [executed, databaseEvents, DatabaseWorker.executed,
      Fifo.Passage.left, Fifo.outputs])
  logons := fun _ _ => nofun

theorem Sound.logons_concat (h : s.Sound earlier events) (event : AdmissionEvent)
    {sessionId : ConnectionID} {compId : String} (hcompId : compId ∈ s.server.logons sessionId) :
    ∃ moment, moment <+: events ++ [event] ∧
      AuthTask.Authorized earlier (executed earlier moment) compId := by
  obtain ⟨moment, hmoment, hauthorized⟩ := h.logons sessionId compId hcompId
  exact ⟨moment, hmoment.trans (List.prefix_append _ _), hauthorized⟩

/-- After a task of the worker, a client is authorized by the table if the task was a load, and
as before if it was not. -/
theorem authorized_database (hs : s = events.foldl step (start earlier seqRepo))
    (event : DatabaseEvent AuthTask) (compId : String) :
    AuthTask.Authorized earlier (executed earlier (events ++ [.database event])) compId ↔
      if .loadValidClients ∈ s.worker.completes event then
        compId ∈ s.worker.database.validClients
      else AuthTask.Authorized earlier (executed earlier events) compId := by
  have hcompletes : s.worker.completes event = [] ∨ ∃ task, s.worker.completes event = [task] := by
    cases event with
    | enqueue task => exact Or.inl rfl
    | requestStop => exact Or.inl rfl
    | loop =>
        rw [DatabaseWorker.completes]
        cases s.worker.loop with
        | running task => exact Or.inr ⟨task, rfl⟩
        | checking => exact Or.inl rfl
        | polling => exact Or.inl rfl
        | exited => exact Or.inl rfl
  have hdatabase : s.worker.database =
      (earlier ++ executed earlier events).foldl ClientTable.execute [] := hs ▸ database_run
  rw [executed_concat seqRepo, ← hs]
  dsimp only
  rcases hcompletes with hnil | ⟨task, htask⟩
  · rw [hnil, List.append_nil, if_neg List.not_mem_nil]
  · rw [htask, AuthTask.authorized_concat, hdatabase, AuthTask.mem_validClients]
    simp only [List.mem_singleton, eq_comm]

theorem Sound.database (h : s.Sound earlier events)
    (hs : s = events.foldl step (start earlier seqRepo)) (event : DatabaseEvent AuthTask) :
    (s.step (.database event)).Sound earlier (events ++ [.database event]) := by
  have hauthorized := authorized_database hs event
  rw [step]
  by_cases hload : .loadValidClients ∈ s.worker.completes event
  · simp only [hload, if_true] at hauthorized ⊢
    refine ⟨h.maps.step fun _ => nofun, ?_, ?_⟩
    · by_cases hrunning : s.server.server.running = true
      · intro _ compId
        rw [hauthorized, LiveServer.step, if_pos hrunning, FixServer.step, if_pos hrunning]
        exact List.contains_iff_mem
      · rw [LiveServer.step, if_neg hrunning]
        exact fun hrunning' => (hrunning hrunning').elim
    · intro sessionId compId hcompId
      have hold : compId ∈ s.server.logons sessionId := by
        rw [LiveServer.step] at hcompId
        split_ifs at hcompId
        · exact hcompId
        · exact hcompId
      exact h.logons_concat _ hold
  · simp only [hload, if_false] at hauthorized ⊢
    refine ⟨h.maps, fun hrunning compId => ?_, fun _ _ hcompId => h.logons_concat _ hcompId⟩
    rw [hauthorized]
    exact h.valid hrunning compId

theorem Sound.server (h : s.Sound earlier events) {event : ServerEvent}
    (hfresh : s.Fresh (.server event)) :
    (s.step (.server event)).Sound earlier (events ++ [.server event]) := by
  have hexecuted : executed earlier (events ++ [.server event]) = executed earlier events :=
    (executed_concat none).trans (List.append_nil _)
  obtain ⟨hnumber, hload⟩ := hfresh
  rw [step]
  by_cases hrunning : s.server.server.running = true
  · refine ⟨h.maps.step hnumber, fun _ compId => ?_, fun sessionId compId hcompId => ?_⟩
    · rw [hexecuted, ← h.valid hrunning compId]
      dsimp only
      rw [LiveServer.step, if_pos hrunning]
      dsimp only
      rw [FixServer.validClients_step hload]
    · dsimp only at hcompId
      rw [LiveServer.step, if_pos hrunning] at hcompId
      dsimp only at hcompId
      rcases LiveServer.valid_of_mem_logonsAfter hcompId with hold | hvalid
      · exact h.logons_concat _ hold
      · exact ⟨events, List.prefix_append _ _, (h.valid hrunning compId).mp hvalid⟩
  · have hstay : s.server.step event = s.server := if_neg hrunning
    rw [hstay]
    exact ⟨h.maps, fun hrunning' => (hrunning hrunning').elim,
      fun _ _ hcompId => h.logons_concat _ hcompId⟩

theorem sound_run (h : TotalRun.Meets step Fresh (start earlier seqRepo) events) :
    (events.foldl step (start earlier seqRepo)).Sound earlier events := by
  induction events using List.reverseRecOn with
  | nil => exact sound_start earlier seqRepo
  | append_singleton events event ih =>
      obtain ⟨hevents, hfresh, _⟩ := TotalRun.meets_append.mp h
      rw [List.foldl_concat]
      cases event with
      | database event => exact (ih hevents).database rfl event
      | server event => exact (ih hevents).server hfresh

/-- After any interleaving of calls of the repository, steps of its worker and events of the
server, a Logon is accepted for exactly the clients whom the last executed load has found
enrolled, and only a connection that has logged on as one of them hands anything to the
trading core. -/
theorem only_authorized_trade
    (h : TotalRun.Meets step Fresh (start earlier seqRepo) events)
    (hrunning : (events.foldl step (start earlier seqRepo)).server.server.running = true) :
    (events.foldl step (start earlier seqRepo)).Guarded earlier events := by
  have hsound := sound_run h
  refine ⟨DatabaseWorker.executed_prefix_enqueued .., fun sessionId compId => ?_, ?_⟩
  · rw [FixSessionManager.authenticate_fst]
    exact hsound.valid hrunning compId
  · intro sessionId ctx fixMessage
    refine (LiveServer.gated_of_mapsLatest hsound.maps (.frame sessionId ctx fixMessage)
      hrunning).imp_right fun hlogons => ?_
    obtain ⟨compId, hcompId⟩ := List.exists_mem_of_ne_nil _ hlogons
    exact ⟨compId, hcompId, hsound.logons sessionId compId hcompId⟩

/-- A client is enrolled and loaded, and logs on; a second one is enrolled after the load. -/
theorem only_authorized_trade_sample :
    let call (task : AuthTask) : List AdmissionEvent :=
      [.database (.enqueue task), .database .loop, .database .loop, .database .loop]
    let events := call (.insertNewClient "C1" true) ++ call .loadValidClients ++
      call (.insertNewClient "C2" true) ++ [.server .accept,
        .server (.frame 1 (FixServer.Sample.ctx 0) (FixServer.Sample.logon "C1"))]
    (events.foldl step (start [] none)).Guarded [] events := by
  refine only_authorized_trade ?_ (by decide +kernel)
  refine TotalRun.meets_append.mpr ⟨?_, ⟨fun _ _ => ?_, fun _ => nofun⟩,
    ⟨fun _ => nofun, fun _ => nofun⟩, trivial⟩
  · simp [TotalRun.Meets, Fresh]
  · decide +kernel

end Admission

end BetaTrader
