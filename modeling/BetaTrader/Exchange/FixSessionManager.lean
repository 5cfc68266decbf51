import Mathlib.Logic.Function.Basic

/-!
# The session manager

`FixSessionManager` keeps one state for each `SenderCompID` and the `CompID`
each connection has been accepted under, so that sequence numbers outlive a
connection.  The methods lock a mutex and are atomic.  The repository's reads
and writes go through one queue, and a read sees the writes before it.
-/

namespace BetaTrader

/-- `data::SequenceRepository`; without a database there are no rows. -/
structure SequenceRepository where
  hasDatabase : Bool
  rows : String → Option (UInt32 × UInt32)

namespace SequenceRepository

def getSequenceNumbers (repo : SequenceRepository) (compId : String) : UInt32 × UInt32 :=
  if repo.hasDatabase then (repo.rows compId).getD (0, 1) else (0, 0)

def updateSequenceNumbers (repo : SequenceRepository) (compId : String)
    (inSeqNum outSeqNum : UInt32) : SequenceRepository :=
  if repo.hasDatabase then
    { repo with rows := Function.update repo.rows compId (some (inSeqNum, outSeqNum)) }
  else repo

end SequenceRepository

structure SessionState where
  isLoggedOn : Bool
  inSeqNum : UInt32
  outSeqNum : UInt32
  senderCompId : String
  deriving DecidableEq

/-- `mNextSessionId` counts with 32 bits. -/
abbrev ConnectionID := UInt32

structure FixSessionManager where
  validClients : String → Bool
  sessionStates : String → Option SessionState
  connectionToCompId : ConnectionID → Option String
  seqRepo : Option SequenceRepository

namespace FixSessionManager

def empty (seqRepo : Option SequenceRepository) : FixSessionManager :=
  ⟨fun _ => false, fun _ => none, fun _ => none, seqRepo⟩

def loadConfig (manager : FixSessionManager) (validClients : List String) : FixSessionManager :=
  { manager with validClients := fun client => validClients.contains client }

/-- The state a `CompID` starts with. -/
def initialState (manager : FixSessionManager) (senderCompId : String) : SessionState :=
  let seqs := match manager.seqRepo with
    | some repo => repo.getSequenceNumbers senderCompId
    | none => (0, 1)
  { isLoggedOn := false, inSeqNum := seqs.1, outSeqNum := seqs.2, senderCompId := senderCompId }

/-- `mSessionStates[compId] = state`. -/
def setState (manager : FixSessionManager) (compId : String) (state : SessionState) :
    FixSessionManager :=
  { manager with sessionStates := Function.update manager.sessionStates compId (some state) }

/-- `updateSequenceNumbers`, if there is a repository. -/
def persist (manager : FixSessionManager) (compId : String) (state : SessionState) :
    FixSessionManager :=
  { manager with
    seqRepo := manager.seqRepo.map fun repo =>
      repo.updateSequenceNumbers compId state.inSeqNum state.outSeqNum }

def authenticate (manager : FixSessionManager) (sessionId : ConnectionID)
    (senderCompId : String) : Bool × FixSessionManager :=
  if manager.validClients senderCompId then
    let state := (manager.sessionStates senderCompId).getD (manager.initialState senderCompId)
    let manager := { manager with
      connectionToCompId :=
        Function.update manager.connectionToCompId sessionId (some senderCompId) }
    (true, manager.setState senderCompId { state with isLoggedOn := true })
  else (false, manager)

/-- Only the next number is accepted; otherwise nothing changes. -/
def validateSequence (manager : FixSessionManager) (sessionId : ConnectionID)
    (incomingSeqNum : UInt32) : Bool × FixSessionManager :=
  match manager.connectionToCompId sessionId with
  | none => (false, manager)
  | some compId =>
      match manager.sessionStates compId with
      | none => (false, manager)
      | some state =>
          if !state.isLoggedOn then (false, manager)
          else if incomingSeqNum = state.inSeqNum + 1 then
            let state := { state with inSeqNum := incomingSeqNum }
            (true, (manager.setState compId state).persist compId state)
          else (false, manager)

/-- The mapping of the connection stays for the acknowledgment. -/
def handleLogout (manager : FixSessionManager) (sessionId : ConnectionID) : FixSessionManager :=
  match manager.connectionToCompId sessionId with
  | none => manager
  | some compId =>
      match manager.sessionStates compId with
      | none => manager
      | some state => manager.setState compId { state with isLoggedOn := false }

def cleanupConnection (manager : FixSessionManager) (sessionId : ConnectionID) :
    FixSessionManager :=
  { manager with
    connectionToCompId := Function.update manager.connectionToCompId sessionId none }

def getSessionState (manager : FixSessionManager) (sessionId : ConnectionID) :
    Option SessionState :=
  (manager.connectionToCompId sessionId).bind manager.sessionStates

def useNextOutboundSequence (manager : FixSessionManager) (sessionId : ConnectionID) :
    UInt32 × FixSessionManager :=
  match manager.connectionToCompId sessionId with
  | none => (1, manager)
  | some compId =>
      match manager.sessionStates compId with
      | none => (1, manager)
      | some state =>
          let state' := { state with outSeqNum := state.outSeqNum + 1 }
          (state.outSeqNum, (manager.setState compId state').persist state.senderCompId state')

end FixSessionManager

end BetaTrader
