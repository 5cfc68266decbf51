import BetaTrader.Exchange.FramingSpec
import BetaTrader.Exchange.ReadLoop

/-!
# Frames in a stream

The read loop of a session without what its session does with the frames.  It
takes the frames of a valid stream however the stream is cut into reads.  Behind
a malformed frame it looks for the next begin of a message in what has arrived so
far, and a begin that is cut there is thrown away with the rest.
-/

namespace BetaTrader

namespace FixSession

open FixMessageFramer Framing

/-- What the loop takes from its buffer. -/
inductive FrameEvent where
  | complete (frame : Message)
  | malformed (error : String)
  deriving DecidableEq

def FrameEvent.frames : FrameEvent → List Message
  | .complete frame => [frame]
  | .malformed _ => []

/-- A round of the `while` loop, by the answer of the framer. -/
def frameRound (readBuffer : Message) : Option FrameResult → Round Char FrameEvent
  | none => .stop
  | some .needMoreData => .wait
  | some (.malformed error) => .next (.malformed error) (resync readBuffer)
  | some (.complete consumed frame) => .next (.complete frame) (readBuffer.drop consumed)

/-- `"8=FIX."`, with which every message begins. -/
def beginMark : Message := "8=FIX.".toList

/-- The text from the next begin of a message on. -/
def seek (s : Message) : Message :=
  match Text.afterFirst beginMark s with
  | none => []
  | some rest => beginMark ++ rest

theorem resync_eq (readBuffer : Message) : resync readBuffer = seek readBuffer.tail := rfl

theorem seek_suffix (s : Message) : seek s <:+ s := by
  unfold seek
  split
  · exact List.nil_suffix
  · next rest hrest =>
      obtain ⟨before, rfl⟩ := Text.afterFirst_eq_some hrest
      exact List.suffix_append before _

theorem frameRound_shrinks {readBuffer rest : Message} {event : FrameEvent}
    (h : frameRound readBuffer (extractNextFrame readBuffer) = .next event rest) :
    rest.length < readBuffer.length := by
  have hne : readBuffer ≠ [] := by
    rintro rfl
    cases h
  have hpos := List.length_pos_iff.mpr hne
  cases hanswer : extractNextFrame readBuffer with
  | none => simp [hanswer, frameRound] at h
  | some answer =>
      rw [hanswer] at h
      cases answer with
      | needMoreData => cases h
      | complete consumed frame =>
          obtain ⟨hconsumed, _⟩ := extractNextFrame_complete hanswer
          obtain ⟨_, rfl⟩ := Round.next.inj h
          rw [List.length_drop]
          exact Nat.sub_lt hpos (by omega)
      | malformed error =>
          obtain ⟨_, rfl⟩ := Round.next.inj h
          have hlength := (seek_suffix readBuffer.tail).length_le
          rw [List.length_tail] at hlength
          rw [resync_eq]
          omega

/-- The read loop. -/
def frameLoop : Loop Char FrameEvent where
  round readBuffer := frameRound readBuffer (extractNextFrame readBuffer)
  round_nil := rfl
  shrinks := frameRound_shrinks

/-- What the session does with an event. -/
def handleEvent (ctx : HandlerContext) (manager : FixSessionManager) (sessionId : ConnectionID) :
    FrameEvent → Option (FixSessionManager × List SessionEffect)
  | .complete frame => handleFrame ctx manager sessionId frame
  | .malformed error => some (sendReject ctx manager sessionId 0 error)

/-- The events one after another; `fuel` counts the rounds down. -/
def handleEvents (ctx : ℕ → HandlerContext) (sessionId : ConnectionID) :
    ℕ → FixSessionManager → List FrameEvent → Option (FixSessionManager × List SessionEffect)
  | fuel + 1, manager, event :: events => do
      let (manager, effects) ← handleEvent (ctx fuel) manager sessionId event
      let (manager, effects') ← handleEvents ctx sessionId fuel manager events
      return (manager, effects ++ effects')
  | _, manager, _ => some (manager, [])

/-- The loop of the session takes the events of `frameLoop` and handles them. -/
theorem readLoop_eq (ctx : ℕ → HandlerContext) (sessionId : ConnectionID) (fuel : ℕ)
    (manager : FixSessionManager) (readBuffer : Message) :
    readLoop ctx sessionId fuel manager readBuffer =
      (handleEvents ctx sessionId fuel manager (frameLoop.drain fuel readBuffer).1).bind fun r =>
        (frameLoop.drain fuel readBuffer).2.map fun left => (r.1, left, r.2) := by
  have hassoc (handled : Option (FixSessionManager × List SessionEffect)) (left : Option Message)
      (effects : List SessionEffect) :
      ((handled.bind fun r => left.map fun left => (r.1, left, r.2)).bind fun r =>
        some (r.1, r.2.1, effects ++ r.2.2)) =
      (handled.bind fun r => some (r.1, effects ++ r.2)).bind fun r =>
        left.map fun left => (r.1, left, r.2) := by
    cases handled <;> cases left <;> rfl
  induction fuel generalizing manager readBuffer with
  | zero => rfl
  | succ fuel ih =>
      by_cases hnil : readBuffer = []
      · subst hnil
        rw [Loop.drain_wait frameLoop.round_nil, readLoop, if_pos rfl]
        rfl
      rw [readLoop, if_neg hnil]
      cases hanswer : extractNextFrame readBuffer with
      | none =>
          have hround : frameLoop.round readBuffer = .stop := by
            simp only [frameLoop, hanswer, frameRound]
          simp [Loop.drain, hround]
      | some answer =>
          cases answer with
          | needMoreData =>
              have hround : frameLoop.round readBuffer = .wait := by
                simp only [frameLoop, hanswer, frameRound]
              rw [Loop.drain_wait hround]
              rfl
          | malformed error =>
              have hround : frameLoop.round readBuffer =
                  .next (.malformed error) (resync readBuffer) := by
                simp only [frameLoop, hanswer, frameRound]
              rw [Loop.drain_next hround]
              simp only [ih, handleEvents, handleEvent, Option.bind_eq_bind, Option.bind_some]
              exact hassoc _ _ _
          | complete consumed frame =>
              have hround : frameLoop.round readBuffer =
                  .next (.complete frame) (readBuffer.drop consumed) := by
                simp only [frameLoop, hanswer, frameRound]
              rw [Loop.drain_next hround]
              simp only [ih, handleEvents, handleEvent, Option.bind_eq_bind]
              cases handleFrame (ctx fuel) manager sessionId frame with
              | none => rfl
              | some r => exact hassoc _ _ _

/-! ## Valid streams -/

theorem takes_frame {frame : Message} (h : ValidFrame frame) (hfits : frame.length < 2 ^ 64) :
    frameLoop.Takes frame (.complete frame) where
  takes := fun rest => by
    simp only [frameLoop, h.extracts hfits rest, frameRound, List.drop_left]
  waits := by
    rintro part missing rfl hne
    simp only [frameLoop, h.waits hfits hne, frameRound]

/-- From a stream of valid frames the loop takes just these, however the stream
is cut into reads. -/
theorem readAll_frames {frames : List Message}
    (hframes : ∀ frame ∈ frames, ValidFrame frame ∧ frame.length < 2 ^ 64)
    {reads : List Message} (hreads : reads.flatten = frames.flatten) :
    frameLoop.readAll (some []) reads = (frames.map .complete, some []) := by
  have htakes : ∀ piece ∈ frames.map fun frame => (frame, FrameEvent.complete frame),
      frameLoop.Takes piece.1 piece.2 := by
    rintro _ hpiece
    obtain ⟨frame, hframe, rfl⟩ := List.mem_map.mp hpiece
    exact takes_frame (hframes frame hframe).1 (hframes frame hframe).2
  have hstream : Loop.stream (frames.map fun frame => (frame, FrameEvent.complete frame)) =
      frames.flatten := by
    simp [Loop.stream, List.flatMap_map]
  have hall : [] ++ reads.flatten =
      Loop.stream (frames.map fun frame => (frame, FrameEvent.complete frame)) ++ [] := by
    rw [hstream, List.append_nil, List.nil_append, hreads]
  obtain ⟨events, state, heq, hleft⟩ := Loop.readAll_stream htakes hall (Loop.pending_nil htakes)
  obtain ⟨rfl, rfl⟩ := hleft rfl
  rw [heq]
  simp

namespace Sample

def heartbeat : Message :=
  "8=FIX.4.4|9=5|35=0|10=163|".toList.map fun c => if c = '|' then soh else c

theorem validFrame_heartbeat : ValidFrame heartbeat := by
  have hfive : IsNumber ['5'] 5 := ⟨List.all_eq_true.mp (by decide), by decide, by decide⟩
  have hchecksum : IsNumber "163".toList (checksum (checked ['5'] ("35=0".toList ++ [soh]))) :=
    ⟨List.all_eq_true.mp (by decide), by decide, by decide +kernel⟩
  have htext : heartbeat =
      checked ['5'] ("35=0".toList ++ [soh]) ++ trailer "163".toList := by decide +kernel
  rw [htext]
  exact .mk hfive rfl hchecksum

end Sample

theorem readAll_frames_sample : frameLoop.readAll (some []) [Sample.heartbeat.take 3,
    Sample.heartbeat.drop 3] = ([.complete Sample.heartbeat], some []) := by
  have hframes : ∀ frame ∈ [Sample.heartbeat], ValidFrame frame ∧ frame.length < 2 ^ 64 := by
    intro frame hframe
    rw [List.mem_singleton.mp hframe]
    exact ⟨Sample.validFrame_heartbeat, by decide⟩
  exact readAll_frames hframes (by decide)

/-! ## Any streams -/

/-- The text ends in a begin of `"8=FIX."` that is not complete. -/
def EndsInBegin (s : Message) : Prop := ∃ part ∈ beginMark.inits, part ≠ [] ∧ part <:+ s

/-- The loop throws its buffer away. -/
def clears (readBuffer : Message) : Bool :=
  match extractNextFrame readBuffer with
  | some (.malformed _) => resync readBuffer = []
  | _ => false

/-- No begin of a message is cut where the loop throws its buffer away. -/
def KeepsBegin (readBuffer : Message) : Prop :=
  clears readBuffer = true → ¬EndsInBegin readBuffer.tail

instance (s : Message) : Decidable (EndsInBegin s) :=
  inferInstanceAs (Decidable (∃ part ∈ beginMark.inits, part ≠ [] ∧ part <:+ s))

instance (readBuffer : Message) : Decidable (KeepsBegin readBuffer) :=
  inferInstanceAs (Decidable (clears readBuffer = true → ¬EndsInBegin readBuffer.tail))

/-- The frames that the loop takes from a stream that arrives at once. -/
def framesOf (stream : Message) : List Message :=
  (frameLoop.feed stream).1.flatMap FrameEvent.frames

theorem framesOf_wait {s : Message} (h : extractNextFrame s = some .needMoreData) :
    framesOf s = [] := by
  have hround : frameLoop.round s = .wait := by simp only [frameLoop, h, frameRound]
  rw [framesOf, Loop.feed_wait hround, List.flatMap_nil]

theorem framesOf_malformed {s : Message} {error : String}
    (h : extractNextFrame s = some (.malformed error)) : framesOf s = framesOf (resync s) := by
  have hround : frameLoop.round s = .next (.malformed error) (resync s) := by
    simp only [frameLoop, h, frameRound]
  rw [framesOf, Loop.feed_next hround, List.flatMap_cons]
  rfl

theorem framesOf_complete {s frame : Message} {consumed : ℕ}
    (h : extractNextFrame s = some (.complete consumed frame)) :
    framesOf s = frame :: framesOf (s.drop consumed) := by
  have hround : frameLoop.round s = .next (.complete frame) (s.drop consumed) := by
    simp only [frameLoop, h, frameRound]
  rw [framesOf, Loop.feed_next hround, List.flatMap_cons]
  rfl

theorem framesOf_stop {s : Message} (h : extractNextFrame s = none) : framesOf s = [] := by
  have hround : frameLoop.round s = .stop := by simp only [frameLoop, h, frameRound]
  rw [framesOf, Loop.feed_stop hround, List.flatMap_nil]

/-- Nothing is found before the next begin of a message. -/
theorem framesOf_seek (s : Message) : framesOf (seek s) = framesOf s := by
  by_cases hbegin : beginMark <+: s
  · obtain ⟨rest, rfl⟩ := hbegin
    rw [seek, Text.afterFirst_append_self (by decide)]
  have hversion : ¬"8=FIX.4.4".toList <+: s := fun h =>
    hbegin (List.IsPrefix.trans (by decide) h)
  rcases extractNextFrame_cases s with hwait | ⟨error, herror⟩ | ⟨hstarts, _⟩
  · rw [framesOf_wait hwait]
    apply framesOf_wait
    by_cases htwo : s.length < 2
    · have hseek : (seek s).length < 2 := (seek_suffix s).length_le.trans_lt htwo
      rw [extractNextFrame, if_pos hseek]
    · have hsoh : soh ∉ s := soh_notMem_of_needMoreData hwait hversion htwo
      have hseek : soh ∉ seek s := fun hmem => hsoh ((seek_suffix s).subset hmem)
      unfold seek at hseek ⊢
      split at hseek
      · rfl
      · next rest hrest =>
          refine needMoreData_of_soh_notMem hseek ?_
          exact List.IsPrefix.trans (by decide) (List.prefix_append beginMark rest)
  · have herror := herror []
    rw [List.append_nil] at herror
    rw [framesOf_malformed herror, resync_eq]
    cases s with
    | nil => rfl
    | cons c s =>
        rw [List.tail_cons, seek, Text.afterFirst, if_neg hbegin, seek]
  · exact absurd hstarts hversion

/-- Where no begin of a message is cut, the next one is behind. -/
theorem seek_append {s : Message} (hnone : Text.afterFirst beginMark s = none)
    (hends : ¬EndsInBegin s) (rest : Message) : seek (s ++ rest) = seek rest := by
  have hskip : Text.afterFirst beginMark (s ++ rest) = Text.afterFirst beginMark rest := by
    apply Text.afterFirst_append
    rintro u v rfl hv hstarts
    rcases List.prefix_or_prefix_of_prefix hstarts (List.prefix_append v rest) with h | h
    · exact (Text.afterFirst_eq_none_iff (by decide)).mp hnone
        (h.isInfix.trans (List.suffix_append u v).isInfix)
    · exact hends ⟨v, (List.mem_inits v beginMark).mpr h, hv, List.suffix_append u v⟩
  rw [seek, hskip, seek]

theorem seek_append_of_some {s rest : Message} (h : Text.afterFirst beginMark s = some rest)
    (t : Message) : seek (s ++ t) = seek s ++ t := by
  rw [seek, Text.afterFirst_append_of_some h, seek, h, List.append_assoc]

/-- A round that keeps the begin of the next message keeps all frames. -/
theorem keeps_of_keepsBegin {readBuffer : Message} (h : KeepsBegin readBuffer) :
    frameLoop.Keeps framesOf FrameEvent.frames (2 ^ 63) readBuffer := by
  have hround : frameLoop.round readBuffer =
      frameRound readBuffer (extractNextFrame readBuffer) := rfl
  rw [Loop.Keeps, hround]
  cases hanswer : extractNextFrame readBuffer with
  | none =>
      intro rest hbound
      have hlength : (readBuffer ++ rest).length = readBuffer.length + rest.length :=
        List.length_append
      apply framesOf_stop
      exact extractNextFrame_append hanswer (by simp) (by omega) rest fun _ => by omega
  | some answer =>
      cases answer with
      | needMoreData => exact framesOf_wait hanswer
      | complete consumed frame =>
          intro rest hbound
          have hlength : (readBuffer ++ rest).length = readBuffer.length + rest.length :=
            List.length_append
          have hle := (extractNextFrame_complete hanswer).2 (by omega)
          rw [framesOf_complete
              (extractNextFrame_append hanswer (by simp) (by omega) rest (by simp)),
            List.drop_append_of_le_length hle]
          rfl
      | malformed error =>
          intro rest hbound
          have hlength : (readBuffer ++ rest).length = readBuffer.length + rest.length :=
            List.length_append
          have hne : readBuffer ≠ [] := by
            rintro rfl
            cases hanswer
          rw [framesOf_malformed
              (extractNextFrame_append hanswer (by simp) (by omega) rest (by simp)),
            resync_eq, resync_eq, List.tail_append_of_ne_nil hne]
          change _ = framesOf (seek readBuffer.tail ++ rest)
          cases hfound : Text.afterFirst beginMark readBuffer.tail with
          | some behind => rw [seek_append_of_some hfound]
          | none =>
              have hseek : seek readBuffer.tail = [] := by rw [seek, hfound]
              have hclears : clears readBuffer = true := by
                simp [clears, hanswer, resync_eq, hseek]
              rw [seek_append hfound (h hclears), hseek, List.nil_append, framesOf_seek]

/-- The frames of a stream are those that it has in one read. -/
theorem readAll_eq_framesOf {reads : List Message} (hfits : reads.flatten.length < 2 ^ 63)
    (hkeeps : ∀ buffer ∈ frameLoop.buffers (some []) reads, KeepsBegin buffer) :
    (frameLoop.readAll (some []) reads).1.flatMap FrameEvent.frames = framesOf reads.flatten :=
  Loop.readAll_worth (fun buffer hbuffer => keeps_of_keepsBegin (hkeeps buffer hbuffer)) rfl hfits

/-- Two ways to cut a stream into reads lead to the same frames, if neither cuts
the begin of a message behind what the loop throws away. -/
theorem chunking_agrees {reads reads' : List Message} (heq : reads.flatten = reads'.flatten)
    (hfits : reads.flatten.length < 2 ^ 63)
    (hkeeps : ∀ buffer ∈ frameLoop.buffers (some []) reads, KeepsBegin buffer)
    (hkeeps' : ∀ buffer ∈ frameLoop.buffers (some []) reads', KeepsBegin buffer) :
    (frameLoop.readAll (some []) reads).1.flatMap FrameEvent.frames =
      (frameLoop.readAll (some []) reads').1.flatMap FrameEvent.frames := by
  rw [readAll_eq_framesOf hfits hkeeps, readAll_eq_framesOf (heq ▸ hfits) hkeeps', heq]

theorem chunking_agrees_sample :
    (frameLoop.readAll (some []) ["xx".toList, Sample.heartbeat]).1.flatMap FrameEvent.frames =
      (frameLoop.readAll (some []) ["xx".toList ++ Sample.heartbeat]).1.flatMap
        FrameEvent.frames :=
  chunking_agrees (by decide) (by decide) (by decide +kernel) (by decide +kernel)

/-- The second read brings the rest of a good frame, but its begin is gone. -/
theorem cut_begin_lost : ¬∀ reads reads' : List Message, reads.flatten = reads'.flatten →
    (frameLoop.readAll (some []) reads).1.flatMap FrameEvent.frames =
      (frameLoop.readAll (some []) reads').1.flatMap FrameEvent.frames := by
  intro h
  have hlost := h ["xx8".toList, Sample.heartbeat.tail] ["xx".toList ++ Sample.heartbeat]
    (by decide)
  revert hlost
  decide +kernel

end FixSession

end BetaTrader
