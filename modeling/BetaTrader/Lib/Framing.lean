import Mathlib.Data.List.Infix

/-!
# Read loops

A reader appends what arrives to its buffer and then takes events from the
beginning of the buffer, round by round, until a round has to wait for more.  A
round may also end the reader for good.  How a stream is cut into reads does not
matter for the pieces that only one round can be made of, nor for rounds that
keep what the rest of the stream is worth.
-/

namespace Framing

variable {α ε β : Type*}

/-- What a round makes of the buffer. -/
inductive Round (α ε : Type*) where
  | wait
  /-- The reader ends. -/
  | stop
  /-- There is an event, and the rest of the buffer is left. -/
  | next (event : ε) (rest : List α)

/-- A read loop, each round of which takes something from the buffer. -/
structure Loop (α ε : Type*) where
  round : List α → Round α ε
  round_nil : round [] = .wait
  shrinks : ∀ {buffer event rest}, round buffer = .next event rest → rest.length < buffer.length

namespace Loop

variable (loop : Loop α ε)

/-- At most `fuel` rounds: their events, and the buffer that is left if the
reader has not ended. -/
def drain : ℕ → List α → List ε × Option (List α)
  | 0, buffer => ([], some buffer)
  | fuel + 1, buffer =>
      match loop.round buffer with
      | .wait => ([], some buffer)
      | .stop => ([], none)
      | .next event rest => (event :: (drain fuel rest).1, (drain fuel rest).2)

/-- All rounds on a buffer; there are no more than it has elements. -/
def feed (buffer : List α) : List ε × Option (List α) := loop.drain buffer.length buffer

/-- The data of one read is appended to the buffer; `none` is a reader that has
ended. -/
def read : Option (List α) → List α → List ε × Option (List α)
  | none, _ => ([], none)
  | some buffer, data => loop.feed (buffer ++ data)

/-- One read after another. -/
def readAll : Option (List α) → List (List α) → List ε × Option (List α)
  | state, [] => ([], state)
  | state, data :: reads =>
      ((loop.read state data).1 ++ (readAll (loop.read state data).2 reads).1,
        (readAll (loop.read state data).2 reads).2)

/-- The buffers that the rounds of `drain` begin with. -/
def drainBuffers : ℕ → List α → List (List α)
  | 0, buffer => [buffer]
  | fuel + 1, buffer =>
      match loop.round buffer with
      | .next _ rest => buffer :: drainBuffers fuel rest
      | _ => [buffer]

def feedBuffers (buffer : List α) : List (List α) := loop.drainBuffers buffer.length buffer

/-- The buffers that the rounds of a sequence of reads begin with. -/
def buffers : Option (List α) → List (List α) → List (List α)
  | _, [] => []
  | none, _ :: _ => []
  | some buffer, data :: reads =>
      loop.feedBuffers (buffer ++ data) ++ buffers (loop.read (some buffer) data).2 reads

variable {loop} {buffer rest : List α} {event : ε} {fuel : ℕ}

/-! ## Rounds -/

theorem drain_wait (h : loop.round buffer = .wait) :
    loop.drain fuel buffer = ([], some buffer) := by
  cases fuel with
  | zero => rfl
  | succ fuel => simp only [drain, h]

theorem drain_next (h : loop.round buffer = .next event rest) :
    loop.drain (fuel + 1) buffer =
      (event :: (loop.drain fuel rest).1, (loop.drain fuel rest).2) := by
  simp only [drain, h]

/-- As many rounds as the buffer has elements are enough. -/
theorem drain_eq_drain {fuel' : ℕ} (hfuel : buffer.length ≤ fuel) (hfuel' : buffer.length ≤ fuel') :
    loop.drain fuel buffer = loop.drain fuel' buffer := by
  induction fuel generalizing fuel' buffer with
  | zero =>
      obtain rfl := List.eq_nil_of_length_eq_zero (Nat.le_zero.mp hfuel)
      rw [drain_wait loop.round_nil, drain_wait loop.round_nil]
  | succ fuel ih =>
      cases hround : loop.round buffer with
      | wait => rw [drain_wait hround, drain_wait hround]
      | stop =>
          cases fuel' with
          | zero =>
              obtain rfl := List.eq_nil_of_length_eq_zero (Nat.le_zero.mp hfuel')
              simp [loop.round_nil] at hround
          | succ fuel' => simp only [drain, hround]
      | next event rest =>
          have hlt := loop.shrinks hround
          obtain ⟨fuel', rfl⟩ := Nat.exists_eq_succ_of_ne_zero (show fuel' ≠ 0 by omega)
          simp only [drain, hround, ih (show rest.length ≤ fuel by omega)
            (show rest.length ≤ fuel' by omega)]

theorem feed_wait (h : loop.round buffer = .wait) : loop.feed buffer = ([], some buffer) :=
  drain_wait h

theorem feed_nil : loop.feed [] = ([], some []) := feed_wait loop.round_nil

theorem feed_stop (h : loop.round buffer = .stop) : loop.feed buffer = ([], none) := by
  cases buffer with
  | nil => simp [loop.round_nil] at h
  | cons a buffer => simp only [feed, List.length_cons, drain, h]

theorem feed_next (h : loop.round buffer = .next event rest) :
    loop.feed buffer = (event :: (loop.feed rest).1, (loop.feed rest).2) := by
  have hlt := loop.shrinks h
  obtain ⟨fuel, hfuel⟩ := Nat.exists_eq_succ_of_ne_zero (show buffer.length ≠ 0 by omega)
  simp only [feed, hfuel, drain, h]
  rw [drain_eq_drain (show rest.length ≤ fuel by omega) le_rfl]

/-- The induction that follows the rounds on a buffer. -/
theorem feed_induction (motive : List α → Prop)
    (wait : ∀ buffer, loop.round buffer = .wait → motive buffer)
    (stop : ∀ buffer, loop.round buffer = .stop → motive buffer)
    (next : ∀ buffer event rest, loop.round buffer = .next event rest → motive rest → motive buffer)
    (buffer : List α) : motive buffer := by
  induction hlength : buffer.length using Nat.strong_induction_on generalizing buffer with
  | _ n ih =>
      cases hround : loop.round buffer with
      | wait => exact wait buffer hround
      | stop => exact stop buffer hround
      | next event rest =>
          have hlt := loop.shrinks hround
          exact next buffer event rest hround (ih rest.length (hlength ▸ hlt) rest rfl)

theorem readAll_none (reads : List (List α)) : loop.readAll none reads = ([], none) := by
  induction reads with
  | nil => rfl
  | cons data reads ih => simp [readAll, read, ih]

/-! ## Pieces that one round takes -/

/-- The round that finds the piece at the beginning of the buffer takes it, and
no round takes less. -/
structure Takes (loop : Loop α ε) (piece : List α) (event : ε) : Prop where
  takes : ∀ rest, loop.round (piece ++ rest) = .next event rest
  waits : ∀ part missing, piece = part ++ missing → missing ≠ [] → loop.round part = .wait

/-- The stream that pieces make up. -/
def stream (pieces : List (List α × ε)) : List α := pieces.flatMap Prod.fst

theorem feed_stream {pieces : List (List α × ε)}
    (h : ∀ piece ∈ pieces, loop.Takes piece.1 piece.2) (rest : List α) :
    loop.feed (stream pieces ++ rest) =
      (pieces.map Prod.snd ++ (loop.feed rest).1, (loop.feed rest).2) := by
  induction pieces with
  | nil => simp [stream]
  | cons piece pieces ih =>
      have hround := (h piece List.mem_cons_self).takes (stream pieces ++ rest)
      rw [← List.append_assoc] at hround
      have hfeed := feed_next hround
      rw [ih fun piece hpiece => h piece (List.mem_cons_of_mem _ hpiece)] at hfeed
      simpa [stream] using hfeed

/-- What is in the buffer is the beginning of the next piece. -/
def Pending (part : List α) : List (List α × ε) → Prop
  | [] => True
  | piece :: _ => ∃ missing, piece.1 = part ++ missing ∧ missing ≠ []

theorem Takes.ne_nil {piece : List α} (h : loop.Takes piece event) : piece ≠ [] := by
  rintro rfl
  have hround := h.takes []
  rw [List.append_nil, loop.round_nil] at hround
  cases hround

theorem pending_nil {pieces : List (List α × ε)}
    (h : ∀ piece ∈ pieces, loop.Takes piece.1 piece.2) : Pending [] pieces := by
  cases pieces with
  | nil => trivial
  | cons piece pieces => exact ⟨piece.1, rfl, (h piece List.mem_cons_self).ne_nil⟩

/-- A part of a stream is some of its pieces and a part of the next one, or it
has them all. -/
theorem exists_pieces {pieces : List (List α × ε)} {rest part missing : List α}
    (h : part ++ missing = stream pieces ++ rest) :
    ∃ before after part', pieces = before ++ after ∧ part = stream before ++ part' ∧
      Pending part' after ∧ part' ++ missing = stream after ++ rest := by
  induction pieces generalizing part with
  | nil => exact ⟨[], [], part, rfl, rfl, trivial, h⟩
  | cons piece pieces ih =>
      have hsplit : part ++ missing = piece.1 ++ (stream pieces ++ rest) := by
        rw [h, stream, List.flatMap_cons, List.append_assoc, stream]
      rcases List.append_eq_append_iff.mp hsplit with ⟨more, hpiece, hmore⟩ | ⟨more, hpart, hmore⟩
      · by_cases hnil : more = []
        · subst hnil
          rw [List.append_nil] at hpiece
          have hnone : [] ++ missing = stream pieces ++ rest := hmore
          obtain ⟨before, after, part', hpieces, hpart', hpending, hrest⟩ := ih hnone
          obtain ⟨hbefore, rfl⟩ := List.append_eq_nil_iff.mp hpart'.symm
          exact ⟨piece :: before, after, [], by rw [hpieces]; rfl, by
            rw [stream, List.flatMap_cons, ← stream, hbefore, hpiece]; simp, hpending, hrest⟩
        · exact ⟨[], piece :: pieces, part, rfl, rfl, ⟨more, hpiece, hnil⟩, h⟩
      · obtain ⟨before, after, part', hpieces, hpart', hpending, hrest⟩ := ih hmore.symm
        refine ⟨piece :: before, after, part', by rw [hpieces]; rfl, ?_, hpending, hrest⟩
        rw [stream, List.flatMap_cons, ← stream, hpart, hpart', List.append_assoc]

/-- The pieces at the beginning of a stream are taken however the stream is cut
into reads, and nothing is left where nothing follows them. -/
theorem readAll_stream {pieces : List (List α × ε)}
    (htakes : ∀ piece ∈ pieces, loop.Takes piece.1 piece.2) {rest part : List α}
    {reads : List (List α)} (hreads : part ++ reads.flatten = stream pieces ++ rest)
    (hpending : Pending part pieces) :
    ∃ events state, loop.readAll (some part) reads = (pieces.map Prod.snd ++ events, state) ∧
      (rest = [] → events = [] ∧ state = some []) := by
  induction reads generalizing part pieces with
  | nil =>
      rw [List.flatten_nil, List.append_nil] at hreads
      cases pieces with
      | nil => exact ⟨[], some part, rfl, fun hrest => ⟨rfl, by simpa [hrest, stream] using hreads⟩⟩
      | cons piece pieces =>
          obtain ⟨missing, hpiece, hne⟩ := hpending
          have hlength := congrArg List.length hreads
          rw [stream, List.flatMap_cons, hpiece] at hlength
          simp only [List.length_append] at hlength
          have hpos := List.length_pos_iff.mpr hne
          omega
  | cons data reads ih =>
      rw [List.flatten_cons, ← List.append_assoc] at hreads
      obtain ⟨before, after, part', rfl, hpart, hpending', hrest⟩ := exists_pieces hreads
      have hbefore : ∀ piece ∈ before, loop.Takes piece.1 piece.2 := fun piece hpiece =>
        htakes piece (List.mem_append_left _ hpiece)
      have hafter : ∀ piece ∈ after, loop.Takes piece.1 piece.2 := fun piece hpiece =>
        htakes piece (List.mem_append_right _ hpiece)
      have hread : loop.read (some part) data =
          (before.map Prod.snd ++ (loop.feed part').1, (loop.feed part').2) := by
        rw [read, hpart, feed_stream hbefore]
      cases after with
      | nil =>
          refine ⟨(loop.feed part').1 ++ (loop.readAll (loop.feed part').2 reads).1,
            (loop.readAll (loop.feed part').2 reads).2, ?_, fun hnil => ?_⟩
          · rw [readAll, hread, List.append_nil, List.append_assoc]
          · subst hnil
            obtain ⟨rfl, hreads'⟩ := List.append_eq_nil_iff.mp hrest
            have hempty : [] ++ reads.flatten = stream ([] : List (List α × ε)) ++ [] := hrest
            obtain ⟨events, state, heq, hall⟩ := ih (by simp) hempty trivial
            obtain ⟨rfl, rfl⟩ := hall rfl
            rw [feed_nil, heq]
            exact ⟨rfl, rfl⟩
      | cons piece after =>
          obtain ⟨missing, hpiece, hne⟩ := hpending'
          have hwait := (hafter piece List.mem_cons_self).waits part' missing hpiece hne
          obtain ⟨events, state, heq, hall⟩ := ih hafter hrest ⟨missing, hpiece, hne⟩
          refine ⟨events, state, ?_, hall⟩
          rw [readAll, hread, feed_wait hwait, heq]
          simp

/-! ## Answers that stay -/

/-- The reader never ends, and what a round answers does not depend on what comes
later. -/
structure Stable (loop : Loop α ε) : Prop where
  goesOn : ∀ buffer, loop.round buffer ≠ .stop
  stays : ∀ {buffer event rest}, loop.round buffer = .next event rest →
    ∀ t, loop.round (buffer ++ t) = .next event (rest ++ t)

/-- The rounds on a buffer come first among those on a longer one. -/
theorem Stable.feed_append (h : loop.Stable) (buffer t : List α) :
    ∃ left, loop.feed buffer = ((loop.feed buffer).1, some left) ∧
      loop.round left = .wait ∧ loop.feed (buffer ++ t) =
        ((loop.feed buffer).1 ++ (loop.feed (left ++ t)).1, (loop.feed (left ++ t)).2) := by
  induction buffer using loop.feed_induction with
  | wait buffer hround =>
      exact ⟨buffer, by rw [feed_wait hround], hround, by simp [feed_wait hround]⟩
  | stop buffer hround => exact absurd hround (h.goesOn buffer)
  | next buffer event rest hround ih =>
      obtain ⟨left, hfeed, hwait, happend⟩ := ih
      refine ⟨left, ?_, hwait, ?_⟩
      · rw [feed_next hround, hfeed]
      · rw [feed_next (h.stays hround t), feed_next hround, happend]
        rfl

/-- However a stream is cut into reads, its events are those of one read. -/
theorem Stable.readAll_eq_feed (h : loop.Stable) {buffer : List α}
    (hwait : loop.round buffer = .wait) (reads : List (List α)) :
    loop.readAll (some buffer) reads = loop.feed (buffer ++ reads.flatten) := by
  induction reads generalizing buffer with
  | nil => rw [readAll, List.flatten_nil, List.append_nil, feed_wait hwait]
  | cons data reads ih =>
      obtain ⟨left, hfeed, hleft, happend⟩ := h.feed_append (buffer ++ data) reads.flatten
      rw [readAll, read, hfeed, ih hleft, List.flatten_cons, ← List.append_assoc, happend]

/-! ## Rounds that keep what the stream is worth -/

section Worth

variable (worth : List α → List β) (value : ε → List β) (bound : ℕ)

/-- The round on a buffer accounts for what the stream is worth, whatever
follows within the bound. -/
def Keeps (loop : Loop α ε) (buffer : List α) : Prop :=
  match loop.round buffer with
  | .wait => worth buffer = []
  | .stop => ∀ rest, (buffer ++ rest).length < bound → worth (buffer ++ rest) = []
  | .next event left => ∀ rest, (buffer ++ rest).length < bound →
      worth (buffer ++ rest) = value event ++ worth (left ++ rest)

theorem drainBuffers_eq {fuel' : ℕ} (hfuel : buffer.length ≤ fuel)
    (hfuel' : buffer.length ≤ fuel') :
    loop.drainBuffers fuel buffer = loop.drainBuffers fuel' buffer := by
  have hnil (fuel : ℕ) : loop.drainBuffers fuel [] = [[]] := by
    cases fuel <;> simp [drainBuffers, loop.round_nil]
  induction fuel generalizing fuel' buffer with
  | zero =>
      obtain rfl := List.eq_nil_of_length_eq_zero (Nat.le_zero.mp hfuel)
      rw [hnil, hnil]
  | succ fuel ih =>
      cases fuel' with
      | zero =>
          obtain rfl := List.eq_nil_of_length_eq_zero (Nat.le_zero.mp hfuel')
          rw [hnil, hnil]
      | succ fuel' =>
          cases hround : loop.round buffer with
          | wait => simp only [drainBuffers, hround]
          | stop => simp only [drainBuffers, hround]
          | next event rest =>
              have hlt := loop.shrinks hround
              simp only [drainBuffers, hround]
              rw [ih (show rest.length ≤ fuel by omega) (show rest.length ≤ fuel' by omega)]

theorem mem_feedBuffers_self : buffer ∈ loop.feedBuffers buffer := by
  rw [feedBuffers]
  cases buffer.length with
  | zero => simp [drainBuffers]
  | succ fuel =>
      rw [drainBuffers]
      split <;> simp

theorem feedBuffers_next (h : loop.round buffer = .next event rest) :
    loop.feedBuffers buffer = buffer :: loop.feedBuffers rest := by
  have hlt := loop.shrinks h
  obtain ⟨fuel, hfuel⟩ := Nat.exists_eq_succ_of_ne_zero (show buffer.length ≠ 0 by omega)
  simp only [feedBuffers, hfuel, drainBuffers, h]
  rw [drainBuffers_eq (show rest.length ≤ fuel by omega) le_rfl]

variable {worth value bound}

/-- What is left of a stream after the rounds on a buffer. -/
theorem worth_feed (hkeeps : ∀ b ∈ loop.feedBuffers buffer, loop.Keeps worth value bound b)
    {rest : List α} (hbound : (buffer ++ rest).length < bound) :
    worth (buffer ++ rest) = (loop.feed buffer).1.flatMap value ++
      ((loop.feed buffer).2.map fun left => worth (left ++ rest)).getD [] := by
  induction buffer using loop.feed_induction with
  | wait buffer hround => simp [feed_wait hround]
  | stop buffer hround =>
      have hself := hkeeps buffer mem_feedBuffers_self
      rw [Keeps, hround] at hself
      simp [feed_stop hround, hself rest hbound]
  | next buffer event left hround ih =>
      have hself := hkeeps buffer mem_feedBuffers_self
      have hshorter := loop.shrinks hround
      rw [Keeps, hround] at hself
      rw [feedBuffers_next hround] at hkeeps
      rw [List.length_append] at hbound
      rw [feed_next hround, hself rest (by rwa [List.length_append]),
        ih (fun b hb => hkeeps b (List.mem_cons_of_mem _ hb)) (by rw [List.length_append]; omega)]
      simp

/-- What is left in the buffer has been in the stream. -/
theorem length_left {left : List α} (hleft : (loop.feed buffer).2 = some left) :
    left.length ≤ buffer.length := by
  induction buffer using loop.feed_induction with
  | wait buffer hround =>
      rw [feed_wait hround] at hleft
      rw [← Option.some.inj hleft]
  | stop buffer hround => simp [feed_stop hround] at hleft
  | next buffer event rest hround ih =>
      have hshorter := loop.shrinks hround
      rw [feed_next hround] at hleft
      exact (ih hleft).trans hshorter.le

/-- A reader that has to wait has nothing of worth in its buffer. -/
theorem worth_left (hkeeps : ∀ b ∈ loop.feedBuffers buffer, loop.Keeps worth value bound b)
    {left : List α} (hleft : (loop.feed buffer).2 = some left) : worth left = [] := by
  induction buffer using loop.feed_induction with
  | wait buffer hround =>
      have hself := hkeeps buffer mem_feedBuffers_self
      rw [Keeps, hround] at hself
      rw [feed_wait hround] at hleft
      rwa [← Option.some.inj hleft]
  | stop buffer hround => simp [feed_stop hround] at hleft
  | next buffer event rest hround ih =>
      rw [feedBuffers_next hround] at hkeeps
      rw [feed_next hround] at hleft
      exact ih (fun b hb => hkeeps b (List.mem_cons_of_mem _ hb)) hleft

/-- Reads whose rounds all keep what the stream is worth yield just that. -/
theorem readAll_worth {reads : List (List α)}
    (hkeeps : ∀ b ∈ loop.buffers (some buffer) reads, loop.Keeps worth value bound b)
    (hbuffer : worth buffer = []) (hbound : (buffer ++ reads.flatten).length < bound) :
    (loop.readAll (some buffer) reads).1.flatMap value = worth (buffer ++ reads.flatten) := by
  induction reads generalizing buffer with
  | nil => simp [readAll, hbuffer]
  | cons data reads ih =>
      have hread : ∀ b ∈ loop.feedBuffers (buffer ++ data), loop.Keeps worth value bound b :=
        fun b hb => hkeeps b (List.mem_append_left _ hb)
      rw [List.flatten_cons, ← List.append_assoc] at hbound ⊢
      rw [worth_feed hread hbound, readAll, List.flatMap_append]
      refine congrArg ((loop.feed (buffer ++ data)).1.flatMap value ++ ·) ?_
      cases hleft : (loop.feed (buffer ++ data)).2 with
      | none => simp [read, hleft, readAll_none]
      | some left =>
          have hreads : ∀ b ∈ loop.buffers (some left) reads, loop.Keeps worth value bound b := by
            intro b hb
            refine hkeeps b (List.mem_append_right _ ?_)
            rwa [read, hleft]
          have hlength := length_left hleft
          rw [List.length_append] at hbound
          simp only [read, hleft, Option.map_some, Option.getD_some]
          exact ih hreads (worth_left hread hleft) (by rw [List.length_append]; omega)

end Worth

end Loop

end Framing
