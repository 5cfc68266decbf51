import BetaTrader.Client.ProtocolHandler
import BetaTrader.Exchange.ReadLoop

/-!
# What ends a read handler

The server takes the fields of a complete frame apart before it enters the block
that catches exceptions, and the client's handler has no such block at all.
-/

namespace BetaTrader

open FixUtils

namespace FixSession

variable {ctx : HandlerContext} {manager : FixSessionManager} {sessionId : ConnectionID}

theorem handleFrame_isSome_iff (frame : Message) :
    (handleFrame ctx manager sessionId frame).isSome ↔ Splits frame soh := by
  rw [← splitToMap_isSome_iff, handleFrame]
  cases splitToMap frame soh with
  | none => simp
  | some fields =>
      rw [Option.bind_eq_bind, Option.bind_some]
      split <;> simp

/-- The data completes a frame, and nothing is behind it. -/
def Completes (readBuffer data : Message) : Prop :=
  FixMessageFramer.extractNextFrame (readBuffer ++ data) =
    some (.complete (readBuffer ++ data).length (readBuffer ++ data))

/-- The handler returns from a complete frame just when all its tags are numbers. -/
theorem doRead_isSome_iff {readBuffer data : Message} (h : Completes readBuffer data)
    (ctx : ℕ → HandlerContext) (manager : FixSessionManager) (sessionId : ConnectionID) :
    (doRead ctx manager sessionId readBuffer data).isSome ↔ Splits (readBuffer ++ data) soh := by
  have hne : readBuffer ++ data ≠ [] := by
    intro hnil
    rw [Completes, hnil] at h
    exact absurd h (by decide)
  obtain ⟨n, hn⟩ := Nat.exists_eq_succ_of_ne_zero fun hzero =>
    hne (List.eq_nil_of_length_eq_zero hzero)
  rw [doRead, hn, readLoop_frame hne h, Option.isSome_map, handleFrame_isSome_iff]

end FixSession

namespace ReadHandlers

/-- The messages from which the handlers return: on the server the complete frames
whose tags are numbers, on the client the streams whose messages are all readable
when it comes to them. -/
theorem isSome_iff (ctx : ℕ → HandlerContext) (manager : FixSessionManager)
    (sessionId : ConnectionID) {readBuffer data : Message}
    (h : FixSession.Completes readBuffer data) (session : FixClientSession)
    (reads : List ((ℕ → ReadContext) × Message)) :
    ((FixSession.doRead ctx manager sessionId readBuffer data).isSome ↔
      Splits (readBuffer ++ data) soh) ∧
    ((PartialRun.run FixClientSession.readStep (session, []) reads).isSome ↔
      PartialRun.Follows FixClientSession.readStep (fun _ s read =>
        FixClientSession.ReadableAll read.1 s.1 (s.2 ++ read.2)) [] (session, []) reads) :=
  ⟨FixSession.doRead_isSome_iff h ctx manager sessionId,
    FixClientSession.run_readStep_isSome_iff session reads⟩

namespace Sample

/-- A complete frame with one field, the tag of which is not a number. -/
def frame : Message :=
  "8=FIX.4.4".toList ++ soh :: "9=6".toList ++ soh :: "abc=1".toList ++ soh :: "10=099".toList ++
    [soh]

def context : HandlerContext where
  nextId := 1
  orderIdOf := fun _ => none
  now := 0
  utcOffset := 0

def readContext : ReadContext where
  now := 0
  utcOffset := 0
  unsetSymbol := none

def session : FixClientSession where
  senderCompId := "ALICE".toList
  targetCompId := "BETA_EXCHANGE".toList
  state := .active
  seqStore := { inSeqNum := 1, outSeqNum := 1 }
  hasOrderIntentCallback := false

end Sample

theorem isSome_iff_sample :
    ((FixSession.doRead (fun _ => Sample.context) (.empty none) 1 [] Sample.frame).isSome ↔
      Splits Sample.frame soh) ∧
    ((PartialRun.run FixClientSession.readStep (Sample.session, [])
        [(fun _ => Sample.readContext, Sample.frame)]).isSome ↔
      PartialRun.Follows FixClientSession.readStep (fun _ s read =>
        FixClientSession.ReadableAll read.1 s.1 (s.2 ++ read.2)) [] (Sample.session, [])
          [(fun _ => Sample.readContext, Sample.frame)]) :=
  isSome_iff _ _ _ (by unfold FixSession.Completes; decide +kernel) _ _

/-- The frame ends the handlers on both sides. -/
theorem frame_ends_handlers :
    ¬((∀ (ctx : ℕ → HandlerContext) (manager : FixSessionManager) (sessionId : ConnectionID)
        (readBuffer data : Message), FixSession.Completes readBuffer data →
          (FixSession.doRead ctx manager sessionId readBuffer data).isSome) ∨
      ∀ (session : FixClientSession) (reads : List ((ℕ → ReadContext) × Message)),
        (PartialRun.run FixClientSession.readStep (session, []) reads).isSome) := by
  rintro (hserver | hclient)
  · have hreturns := hserver (fun _ => Sample.context) (.empty none) 1 [] Sample.frame
      (by unfold FixSession.Completes; decide +kernel)
    revert hreturns
    decide +kernel
  · have hreturns := hclient Sample.session [(fun _ => Sample.readContext, Sample.frame)]
    revert hreturns
    decide +kernel

end ReadHandlers

end BetaTrader
