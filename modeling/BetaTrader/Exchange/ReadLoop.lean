import BetaTrader.Exchange.FixSession

/-!
# The read loop

The handler of `doRead` appends what has arrived to the buffer of the session
and takes frames from its beginning for as long as there is one.
-/

namespace BetaTrader

namespace FixSession

/-- What is left of the buffer behind a frame that is not one: from the next
begin of a message on. -/
def resync (readBuffer : Message) : Message :=
  match Text.afterFirst "8=FIX.".toList readBuffer.tail with
  | none => []
  | some rest => "8=FIX.".toList ++ rest

/-- The `while` loop, for at most `fuel` rounds, with what its rounds read from
outside.  `none` is an exception that leaves the handler. -/
def readLoop (ctx : ℕ → HandlerContext) (sessionId : ConnectionID) :
    ℕ → FixSessionManager → Message →
      Option (FixSessionManager × Message × List SessionEffect)
  | 0, manager, readBuffer => some (manager, readBuffer, [])
  | fuel + 1, manager, readBuffer =>
      if readBuffer = [] then some (manager, readBuffer, [])
      else
        match FixMessageFramer.extractNextFrame readBuffer with
        | none => none
        | some .needMoreData => some (manager, readBuffer, [])
        | some (.malformed error) => do
            let (manager, effects) := sendReject (ctx fuel) manager sessionId 0 error
            let (manager, readBuffer, effects') ←
              readLoop ctx sessionId fuel manager (resync readBuffer)
            return (manager, readBuffer, effects ++ effects')
        | some (.complete consumed frame) => do
            let (manager, effects) ← handleFrame (ctx fuel) manager sessionId frame
            let (manager, readBuffer, effects') ←
              readLoop ctx sessionId fuel manager (readBuffer.drop consumed)
            return (manager, readBuffer, effects ++ effects')

/-- Every round takes a character from the buffer, so its length is enough. -/
def doRead (ctx : ℕ → HandlerContext) (manager : FixSessionManager) (sessionId : ConnectionID)
    (readBuffer data : Message) : Option (FixSessionManager × Message × List SessionEffect) :=
  readLoop ctx sessionId (readBuffer ++ data).length manager (readBuffer ++ data)

variable {ctx : ℕ → HandlerContext} {manager : FixSessionManager} {sessionId : ConnectionID}

/-- A frame that fills the buffer is handled, and nothing is left. -/
theorem readLoop_frame {fuel : ℕ} {frame : Message} (hne : frame ≠ [])
    (h : FixMessageFramer.extractNextFrame frame = some (.complete frame.length frame)) :
    readLoop ctx sessionId (fuel + 1) manager frame =
      (handleFrame (ctx fuel) manager sessionId frame).map fun r => (r.1, [], r.2) := by
  have hnil (manager : FixSessionManager) :
      readLoop ctx sessionId fuel manager [] = some (manager, [], []) := by
    cases fuel <;> simp [readLoop]
  simp only [readLoop, hne, if_false, h, List.drop_length, hnil]
  cases handleFrame (ctx fuel) manager sessionId frame with
  | none => rfl
  | some r => simp

end FixSession

end BetaTrader
