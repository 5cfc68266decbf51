import BetaTrader.Exchange.ExecutionPublisher
import BetaTrader.Exchange.FixSession
import BetaTrader.Lib.Run

/-!
# The server

`FixServer` accepts connections, numbers them and hands their frames to the
session handlers.  What its sessions submit is recorded beside it, with the
session it came from and the state that the manager had for the session.  The
steps are taken one after another by the thread of the server and the workers
that publish reports.
-/

namespace BetaTrader

/-- The number of the connection that is accepted after `n` others. -/
def connectionNumber (n : ℕ) : ConnectionID := UInt32.ofNat (n + 1)

theorem connectionNumber_succ (n : ℕ) : connectionNumber (n + 1) = connectionNumber n + 1 :=
  UInt32.ofNat_add (n + 1) 1

/-- An entry of `mSessions`. -/
structure Connection where
  /-- How many connections had been accepted before; unlike its number, this
  belongs to no other connection. -/
  serial : ℕ
  /-- `mSocket.is_open()`. -/
  isOpen : Bool
  /-- The CompID of the last logon that was accepted on the connection. -/
  acceptedAs : Option String

structure Submission where
  sessionId : ConnectionID
  connection : Connection
  /-- What the manager had for the session when the message came in. -/
  compId : Option String
  state : Option SessionState
  fixMessage : Message
  command : Command Double

structure FixServer where
  manager : FixSessionManager
  nextSessionId : ConnectionID
  sessions : ConnectionID → Option Connection
  /-- How many connections have been accepted. -/
  accepted : ℕ
  /-- An exception that leaves a handler ends the process. -/
  running : Bool
  submissions : List Submission

inductive ServerEvent where
  | accept
  | frame (sessionId : ConnectionID) (ctx : HandlerContext) (fixMessage : Message)
  | malformed (sessionId : ConnectionID) (ctx : HandlerContext) (error : String)
  | disconnect (sessionId : ConnectionID)
  /-- A report or a market data message for the session. -/
  | outbound (sessionId : ConnectionID)
  | loadConfig (validClients : List String)

/-- The connection after an effect of its session. -/
def Connection.apply (connection : Connection) : SessionEffect → Connection
  | .authenticated compId => { connection with acceptedAs := some compId }
  | .close => { connection with isOpen := false }
  | _ => connection

/-- The commands among the effects of a session. -/
def SessionEffect.commands : List SessionEffect → List (Command Double)
  | [] => []
  | .submitCommand command :: effects => command :: commands effects
  | _ :: effects => commands effects

namespace FixServer

/-- The server of a new process. -/
def start (seqRepo : Option SequenceRepository) : FixServer where
  manager := .empty seqRepo
  nextSessionId := 1
  sessions := fun _ => none
  accepted := 0
  running := true
  submissions := []

/-- `doAccept` with `registerSession`. -/
def accept (server : FixServer) : FixServer :=
  { server with
    nextSessionId := server.nextSessionId + 1
    sessions := Function.update server.sessions server.nextSessionId
      (some { serial := server.accepted, isOpen := true, acceptedAs := none })
    accepted := server.accepted + 1 }

/-- `unregisterSession`; the manager is not told. -/
def unregisterSession (server : FixServer) (sessionId : ConnectionID) : FixServer :=
  { server with sessions := Function.update server.sessions sessionId none }

/-- The record of a command that the session submits. -/
def submission (server : FixServer) (sessionId : ConnectionID) (connection : Connection)
    (fixMessage : Message) (command : Command Double) : Submission :=
  { sessionId := sessionId, connection := connection,
    compId := server.manager.connectionToCompId sessionId,
    state := server.manager.getSessionState sessionId, fixMessage := fixMessage,
    command := command }

/-- A frame that arrives on a registered connection, and what its session does. -/
def receive (server : FixServer) (sessionId : ConnectionID) (ctx : HandlerContext)
    (fixMessage : Message) : FixServer × List SessionEffect :=
  match server.sessions sessionId with
  | none => (server, [])
  | some connection =>
      match FixSession.handleFrame ctx server.manager sessionId fixMessage with
      | none => ({ server with running := false }, [])
      | some (manager, effects) =>
          ({ server with
            manager := manager
            sessions := Function.update server.sessions sessionId
              (some (effects.foldl Connection.apply connection))
            submissions := server.submissions ++ (SessionEffect.commands effects).map
              (server.submission sessionId connection fixMessage) }, effects)

/-- A message to a registered session takes its next number. -/
def sendTo (server : FixServer) (sessionId : ConnectionID) : FixServer :=
  match server.sessions sessionId with
  | none => server
  | some _ => { server with manager := (server.manager.useNextOutboundSequence sessionId).2 }

/-- A frame that cannot be read is answered with a reject. -/
def rejectMalformed (server : FixServer) (sessionId : ConnectionID) (ctx : HandlerContext)
    (error : String) : FixServer :=
  match server.sessions sessionId with
  | none => server
  | some _ =>
      { server with manager := (FixSession.sendReject ctx server.manager sessionId 0 error).1 }

def step (server : FixServer) (event : ServerEvent) : FixServer :=
  if server.running then
    match event with
    | .accept => server.accept
    | .frame sessionId ctx fixMessage => (server.receive sessionId ctx fixMessage).1
    | .malformed sessionId ctx error => server.rejectMalformed sessionId ctx error
    | .disconnect sessionId => server.unregisterSession sessionId
    | .outbound sessionId => server.sendTo sessionId
    | .loadConfig validClients =>
        { server with manager := server.manager.loadConfig validClients }
  else server

/-- The server after any sequence of events. -/
def run (server : FixServer) (events : List ServerEvent) : FixServer :=
  events.foldl step server

end FixServer

end BetaTrader
