import Cacophony.Basic
import Cacophony.Stats

/-!
The playout of Opus frames by the connection driver, `connection/playout.rs`.

The driver has at most one active playout. Its commands come over the media queue; a call of
`resolve_active_playout` follows each of them and every other event of the driver, and sends at
most one frame. A call reads the clock once, at `now`. What else the driver finds outside of the
playout, the state of DAVE and the outcome of its sends, are the `Surroundings` of a call; what it
does outside of its own state are `Event`s.
-/

namespace Cacophony.Playout

open Stats

/-! ### Frames -/

/-- Instants and durations are in nanoseconds. -/
def blockDuration : ℕ := 20000000

structure Packet where
  bytes : Bytes
  deriving DecidableEq

structure PacketSpan where
  offset : ℕ
  len : ℕ
  deriving DecidableEq

structure PacketBatch where
  bytes : Bytes
  packets : List PacketSpan

def Packet.duration (_ : Packet) : ℕ := blockDuration
def PacketSpan.duration (_ : PacketSpan) : ℕ := blockDuration

inductive PlayoutPayload
  | packet (packet : Packet)
  | batch (bytes : Bytes) (span : PacketSpan)
  deriving DecidableEq

structure PlayoutFrame where
  payload : PlayoutPayload
  deriving DecidableEq

def PlayoutFrame.packet (packet : Packet) : PlayoutFrame := ⟨.packet packet⟩

def PlayoutFrame.packetBatch (packets : PacketBatch) : List PlayoutFrame :=
  packets.packets.map fun span => ⟨.batch packets.bytes span⟩

def PlayoutFrame.bytes (frame : PlayoutFrame) : Bytes :=
  match frame.payload with
  | .packet packet => packet.bytes
  | .batch bytes span => slice bytes span.offset (span.offset + span.len)

def PlayoutFrame.duration (frame : PlayoutFrame) : ℕ :=
  match frame.payload with
  | .packet packet => packet.duration
  | .batch _ span => span.duration

@[simp] lemma PlayoutFrame.duration_eq (frame : PlayoutFrame) : frame.duration = blockDuration := by
  unfold PlayoutFrame.duration
  split <;> rfl

/-! ### Statistics -/

/-- `π` are the descriptions of sent packets. -/
structure OpusPlayoutStats (π : Type) where
  packets : ℕ
  firstPacket : Option π
  lastPacket : Option π
  firstPacketSentAt : Option ℕ
  firstPacketSentAfterStart : Option ℕ
  wallElapsed : ℕ
  expectedMedia : ℕ
  sendCall : DurationDistribution
  interFrameGap : DurationDistribution
  schedulerLateness : DurationDistribution
  lateWakesOver5ms : ℕ
  lateWakesOver20ms : ℕ
  underflows : ℕ
  underflowWait : DurationDistribution
  droppedStaleFrames : ℕ
  clockRebases : ℕ
  clockRebaseWait : DurationDistribution
  daveEnabled : Bool
  deriving DecidableEq

structure ActiveOpusPlayoutStats (π : Type) where
  packets : ℕ := 0
  firstPacket : Option π := none
  lastPacket : Option π := none
  firstPacketSentAt : Option ℕ := none
  firstPacketSentAfterStart : Option ℕ := none
  expectedMedia : ℕ := 0
  sendCall : DurationStats := {}
  interFrameGap : DurationStats := {}
  schedulerLateness : DurationStats := {}
  lateWakesOver5ms : ℕ := 0
  lateWakesOver20ms : ℕ := 0
  underflows : ℕ := 0
  underflowWait : DurationStats := {}
  droppedStaleFrames : ℕ := 0
  clockRebases : ℕ := 0
  clockRebaseWait : DurationStats := {}
  lastSendStartedAt : Option ℕ := none
  daveEnabled : Bool := false

section Stats

variable {π : Type}

namespace ActiveOpusPlayoutStats

def recordUnderflow (s : ActiveOpusPlayoutStats π) (wait : ℕ) : ActiveOpusPlayoutStats π :=
  { s with underflows := s.underflows + 1, underflowWait := s.underflowWait.observe wait }

def recordSendStarted (s : ActiveOpusPlayoutStats π) (now : ℕ) : ActiveOpusPlayoutStats π :=
  { s with
    interFrameGap := match s.lastSendStartedAt with
      | some previous => s.interFrameGap.observe (now - previous)
      | none => s.interFrameGap
    lastSendStartedAt := some now }

/-- The send has taken `elapsed` and is over at `now`. -/
def recordPacketSent (s : ActiveOpusPlayoutStats π) (startedAt elapsed now : ℕ) (packet : π)
    (duration : ℕ) : ActiveOpusPlayoutStats π :=
  { s with
    sendCall := s.sendCall.observe elapsed
    expectedMedia := s.expectedMedia + duration
    packets := s.packets + 1
    firstPacket := s.firstPacket.or (some packet)
    firstPacketSentAt := if s.firstPacket.isNone then some now else s.firstPacketSentAt
    firstPacketSentAfterStart :=
      if s.firstPacket.isNone then some (now - startedAt) else s.firstPacketSentAfterStart
    lastPacket := some packet }

def recordLateness (s : ActiveOpusPlayoutStats π) (lateness : ℕ) : ActiveOpusPlayoutStats π :=
  { s with
    schedulerLateness := s.schedulerLateness.observe lateness
    lateWakesOver5ms := s.lateWakesOver5ms + if 5000000 ≤ lateness then 1 else 0
    lateWakesOver20ms := s.lateWakesOver20ms + if 20000000 ≤ lateness then 1 else 0 }

def recordClockRebase (s : ActiveOpusPlayoutStats π) (lateness : ℕ) : ActiveOpusPlayoutStats π :=
  { s with
    clockRebases := s.clockRebases + 1
    clockRebaseWait := s.clockRebaseWait.observe lateness }

def finish (s : ActiveOpusPlayoutStats π) (wallElapsed : ℕ) : OpusPlayoutStats π where
  packets := s.packets
  firstPacket := s.firstPacket
  lastPacket := s.lastPacket
  firstPacketSentAt := s.firstPacketSentAt
  firstPacketSentAfterStart := s.firstPacketSentAfterStart
  wallElapsed := wallElapsed
  expectedMedia := s.expectedMedia
  sendCall := s.sendCall.finish
  interFrameGap := s.interFrameGap.finish
  schedulerLateness := s.schedulerLateness.finish
  lateWakesOver5ms := s.lateWakesOver5ms
  lateWakesOver20ms := s.lateWakesOver20ms
  underflows := s.underflows
  underflowWait := s.underflowWait.finish
  droppedStaleFrames := s.droppedStaleFrames
  clockRebases := s.clockRebases
  clockRebaseWait := s.clockRebaseWait.finish
  daveEnabled := s.daveEnabled

end ActiveOpusPlayoutStats

end Stats

/-! ### Errors, surroundings and events -/

inductive BackpressureError
  | mediaQueueFull
  | activeOpusPlayout
  deriving DecidableEq

inductive ConnectStage
  | webSocketConnect
  | hello
  | ready
  | udpDiscovery
  | sessionDescription
  deriving DecidableEq

/-- `ε` are the errors of the gateway and of the send path. -/
inductive Error (ε : Type)
  | closed
  | backpressure (error : BackpressureError)
  | timeout (stage : Option ConnectStage) (duration : ℕ)
  | other (error : ε)
  deriving DecidableEq

inductive SpeakingFlags
  | none
  | microphone
  deriving DecidableEq

/-- A reply channel, by its number. -/
abbrev Reply := ℕ

structure Surroundings (ε π : Type) where
  requiresDave : Bool
  mediaReady : Bool
  /-- `dave_send_media_ready_timeout` -/
  mediaReadyTimeout : ℕ
  sendSpeaking : SpeakingFlags → Except (Error ε) Unit
  sendReadyOpusPacket : Bytes → ℕ → Except (Error ε) π
  sendElapsed : ℕ

inductive Event (ε π : Type)
  | speaking (flags : SpeakingFlags)
  /-- A frame that was sent, and when. -/
  | sent (frame : PlayoutFrame) (now : ℕ)
  /-- A frame that was dropped as stale. -/
  | stale (frame : PlayoutFrame)
  /-- Frames that go with their playout. -/
  | discarded (frames : List PlayoutFrame)
  | started (response : Reply) (result : Except (Error ε) UInt64)
  | finished (response : Reply) (result : Except (Error ε) (OpusPlayoutStats π))
  /-- The sending half of a reply channel is dropped. -/
  | hungUp (response : Reply)

/-! ### The active playout -/

structure ActiveOpusPlayout (π : Type) where
  id : UInt64
  startedAt : ℕ
  frames : List PlayoutFrame
  nextSendAt : Option ℕ
  mediaReadyDeadline : Option ℕ
  finishResponse : Option Reply
  speaking : Bool
  stats : ActiveOpusPlayoutStats π

variable {ε π : Type}

namespace ActiveOpusPlayout

def new (id : UInt64) (daveEnabled : Bool) (now : ℕ) : ActiveOpusPlayout π where
  id := id
  startedAt := now
  frames := []
  nextSendAt := none
  mediaReadyDeadline := none
  finishResponse := none
  speaking := false
  stats := { daveEnabled }

def recordUnderflowIfNeeded (p : ActiveOpusPlayout π) (now : ℕ) : ActiveOpusPlayout π :=
  if p.frames.isEmpty && p.finishResponse.isNone then
    match p.nextSendAt with
    | some nextSendAt =>
      if nextSendAt < now then
        { p with nextSendAt := none, stats := p.stats.recordUnderflow (now - nextSendAt) }
      else p
    | none => p
  else p

def push (p : ActiveOpusPlayout π) (frame : PlayoutFrame) (now : ℕ) : ActiveOpusPlayout π :=
  let p := p.recordUnderflowIfNeeded now
  { p with frames := p.frames ++ [frame] }

def pushMany (p : ActiveOpusPlayout π) (frames : List PlayoutFrame) (now : ℕ) :
    ActiveOpusPlayout π :=
  let p := p.recordUnderflowIfNeeded now
  { p with frames := p.frames ++ frames }

def finish (p : ActiveOpusPlayout π) (response : Reply) : ActiveOpusPlayout π :=
  { p with finishResponse := some response }

def readyToComplete (p : ActiveOpusPlayout π) (now : ℕ) : Bool :=
  if p.finishResponse.isNone || !p.frames.isEmpty then false
  else p.nextSendAt.all (· ≤ now)

end ActiveOpusPlayout

/-- The result of a call, the active playout after it, and what it has done. -/
structure Outcome (ε π : Type) where
  result : Except (Error ε) Unit
  active : Option (ActiveOpusPlayout π)
  events : List (Event ε π)

/-- The playout is put back. -/
def Outcome.keep (p : ActiveOpusPlayout π) (events : List (Event ε π)) : Outcome ε π :=
  ⟨.ok (), some p, events⟩

/-- The playout is dropped by an error that ends the driver. -/
def Outcome.abort (error : Error ε) (p : ActiveOpusPlayout π) (events : List (Event ε π)) :
    Outcome ε π :=
  ⟨.error error, none,
    events ++ .discarded p.frames :: (p.finishResponse.map Event.hungUp).toList⟩

def Outcome.prepend (events : List (Event ε π)) (o : Outcome ε π) : Outcome ε π :=
  { o with events := events ++ o.events }

variable (env : Surroundings ε π) (now : ℕ)

/-- The end of a playout: it goes silent, then `answer` goes to the caller of `finish`. -/
def endPlayout (p : ActiveOpusPlayout π) (answer : Except (Error ε) (OpusPlayoutStats π)) :
    Outcome ε π :=
  let silenced := if p.speaking then env.sendSpeaking .none else .ok ()
  let events := if p.speaking then [.speaking .none] else []
  match silenced with
  | .error error => .abort error p events
  | .ok _ =>
    ⟨.ok (), none,
      events ++ .discarded p.frames :: (p.finishResponse.map (.finished · answer)).toList⟩

def completePlayout (p : ActiveOpusPlayout π) : Outcome ε π :=
  endPlayout env p (.ok (p.stats.finish (now - p.startedAt)))

def failPlayout (p : ActiveOpusPlayout π) (error : Error ε) : Outcome ε π :=
  endPlayout env p (.error error)

def cancelPlayout (p : ActiveOpusPlayout π) : Outcome ε π :=
  endPlayout env p (.error .closed)

/-! ### Sending the next frame -/

/-- The state of the loop over stale frames. -/
structure Staleness where
  dropped : List PlayoutFrame
  frames : List PlayoutFrame
  dueAt : ℕ
  lateness : ℕ

/-- The loop over stale frames: the last frame is never dropped. -/
def dropStale (now frameDuration maxStale : ℕ) : List PlayoutFrame → ℕ → ℕ → Staleness
  | frame :: next :: rest, dueAt, lateness =>
    if maxStale ≤ lateness then
      let dueAt := dueAt + frameDuration
      let s := dropStale now frameDuration maxStale (next :: rest) dueAt (now - dueAt)
      { s with dropped := frame :: s.dropped }
    else ⟨[], frame :: next :: rest, dueAt, lateness⟩
  | frames, dueAt, lateness => ⟨[], frames, dueAt, lateness⟩

/-- The playout after the loop, and when its next frame is due; `frameDuration * 3` does not
overflow a `Duration`. -/
def catchUp (p : ActiveOpusPlayout π) (frameDuration dueAt : ℕ) :
    ActiveOpusPlayout π × List PlayoutFrame × ℕ :=
  let maxStale := frameDuration * 3
  let s := dropStale now frameDuration maxStale p.frames dueAt (now - dueAt)
  let stats :=
    { p.stats with droppedStaleFrames := p.stats.droppedStaleFrames + s.dropped.length }
  let rebased := decide (maxStale ≤ s.lateness)
  let stats := if rebased then stats.recordClockRebase s.lateness else stats
  let stats := if p.nextSendAt.isSome then stats.recordLateness s.lateness else stats
  ({ p with frames := s.frames, stats }, s.dropped, if rebased then now else s.dueAt)

/-- DAVE is required and not ready. -/
def waitForDave (p : ActiveOpusPlayout π) : Outcome ε π :=
  let deadline := p.mediaReadyDeadline.getD (now + env.mediaReadyTimeout)
  let p := { p with mediaReadyDeadline := some deadline }
  if deadline ≤ now then failPlayout env p (.timeout none env.mediaReadyTimeout)
  else .keep p []

/-- The first frame goes out. -/
def sendFrame (p : ActiveOpusPlayout π) (frameDuration dueAt : ℕ) : Outcome ε π :=
  match p.frames with
  | [] => .keep p []
  | frame :: frames =>
    let p := { p with frames, stats := p.stats.recordSendStarted now }
    match env.sendReadyOpusPacket frame.bytes frameDuration with
    | .error error => .prepend [.discarded [frame]] (failPlayout env p error)
    | .ok packet =>
      .keep
        { p with
          stats := p.stats.recordPacketSent p.startedAt env.sendElapsed now packet frameDuration
          nextSendAt := some (dueAt + frameDuration) }
        [.sent frame now]

/-- The playout starts to speak, if it does not yet. -/
def speakAndSend (p : ActiveOpusPlayout π) (frameDuration dueAt : ℕ) : Outcome ε π :=
  if p.speaking then sendFrame env now p frameDuration dueAt
  else
    match env.sendSpeaking .microphone with
    | .error error => .abort error p [.speaking .microphone]
    | .ok _ => .prepend [.speaking .microphone]
        (sendFrame env now { p with speaking := true } frameDuration dueAt)

def resolvePlayout (p : ActiveOpusPlayout π) : Outcome ε π :=
  if p.readyToComplete now then completePlayout env now p
  else
    match p.frames.head? with
    | none => .keep p []
    | some front =>
      let frameDuration := front.duration
      let dueAt := p.nextSendAt.getD now
      if now < dueAt then .keep p []
      else
        let (p, dropped, dueAt) := catchUp now p frameDuration dueAt
        .prepend (dropped.map Event.stale)
          (if env.requiresDave && !env.mediaReady then waitForDave env now p
          else speakAndSend env now { p with mediaReadyDeadline := none } frameDuration dueAt)

/-! ### The driver -/

inductive PlayoutCommand
  | start (response : Reply)
  | frame (id : UInt64) (frame : PlayoutFrame)
  | frames (id : UInt64) (frames : List PlayoutFrame)
  | finish (id : UInt64) (response : Reply)
  | cancel (id : UInt64)
  deriving DecidableEq

/-- What happens to the caller of a command that the driver does not come to. -/
def PlayoutCommand.completeClosed : PlayoutCommand → List (Event ε π)
  | .start response => [.started response (.error .closed)]
  | .finish _ response => [.finished response (.error .closed)]
  | .frame _ _ | .frames _ _ | .cancel _ => []

/-- The fields of `SendPipeline` a playout uses. -/
structure SendPipeline (π : Type) where
  activePlayout : Option (ActiveOpusPlayout π) := none
  nextPlayoutId : UInt64 := 1

/-- The active playout, if it has this number. -/
def SendPipeline.active? (send : SendPipeline π) (id : UInt64) : Option (ActiveOpusPlayout π) :=
  send.activePlayout.filter (·.id == id)

/-- The result of a call of the driver, its state after it, and what it has done. -/
structure Step (ε π : Type) where
  result : Except (Error ε) Unit
  send : SendPipeline π
  events : List (Event ε π)

def resolveActivePlayout (send : SendPipeline π) : Step ε π :=
  match send.activePlayout with
  | none => ⟨.ok (), send, []⟩
  | some p =>
    let o := resolvePlayout env now p
    ⟨o.result, { send with activePlayout := o.active }, o.events⟩

/-- The rest of a call, after `first`; an error ends it there. -/
def Step.andResolve (first : Step ε π) : Step ε π :=
  match first.result with
  | .error _ => first
  | .ok _ =>
    let next := resolveActivePlayout env now first.send
    { next with events := first.events ++ next.events }

/-- What a command does before the playout is resolved, unless it is a refused `Start`. -/
def applyCommand (send : SendPipeline π) : PlayoutCommand → Step ε π
  | .start response =>
    let id := send.nextPlayoutId
    ⟨.ok (),
      { nextPlayoutId := max (id + 1) 1
        activePlayout := some (.new id env.requiresDave now) },
      [.started response (.ok id)]⟩
  | .frame id frame =>
    match send.active? id with
    | some p => ⟨.ok (), { send with activePlayout := some (p.push frame now) }, []⟩
    | none => ⟨.ok (), send, []⟩
  | .frames id frames =>
    match send.active? id with
    | some p => ⟨.ok (), { send with activePlayout := some (p.pushMany frames now) }, []⟩
    | none => ⟨.ok (), send, []⟩
  | .finish id response =>
    match send.active? id with
    | some p =>
      -- an earlier request to finish loses its reply
      ⟨.ok (), { send with activePlayout := some (p.finish response) },
        (p.finishResponse.map Event.hungUp).toList⟩
    | none => ⟨.ok (), send, [.finished response (.error .closed)]⟩
  | .cancel id =>
    match send.active? id with
    | some p =>
      let o := cancelPlayout env p
      ⟨o.result, { send with activePlayout := o.active }, o.events⟩
    | none => ⟨.ok (), send, []⟩

def handlePlayoutCommand (send : SendPipeline π) (command : PlayoutCommand) : Step ε π :=
  match command, send.activePlayout with
  | .start response, some _ =>
    ⟨.ok (), send, [.started response (.error (.backpressure .activeOpusPlayout))]⟩
  | command, _ => (applyCommand env now send command).andResolve env now

end Cacophony.Playout
