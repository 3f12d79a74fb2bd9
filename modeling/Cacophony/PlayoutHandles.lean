import Cacophony.Playout
import Mathlib.Logic.Function.Basic

/-!
Playout handles, the media queue and the driver as one system.

Clients call `start_opus_playout`, hold an `OpusPlayout` and drop or finish it; their commands go
through a bounded queue to the driver, whose replies come back over one-shot channels. A future may
be dropped at any point where it waits. A slot of the queue that becomes free may be promised to a
sender that waits; `try_send` fails when no slot is left that is neither taken nor promised.

The driver holds on to its playout until a `Finish` or a `Cancel` with its number comes. Both of the
ways to lose the last one who would send it are here: `Drop` gives up when the queue is full, and a
call of `start_opus_playout` that is dropped after its `Start` has been sent leaves nobody who knows
the number.
-/

namespace Cacophony.PlayoutHandles

open Playout

/-! ### The system -/

/-- The life of a client: a call of `start_opus_playout` and the handle it returns. -/
inductive Client (ε π : Type)
  /-- The call waits for a slot of the queue, or has been promised one. -/
  | starting (promised : Bool)
  | awaitsStart
  /-- The reply is there; the call has not been polled yet. -/
  | started (result : Except (Error ε) UInt64)
  | handle (id : UInt64)
  /-- `finish` has taken the handle and waits for a slot. -/
  | finishing (id : UInt64) (promised : Bool)
  /-- `finish` was dropped and has given back its slot; `Drop` of the handle runs next. -/
  | dropping (id : UInt64)
  | awaitsFinish (id : UInt64)
  | finished (id : UInt64) (result : Except (Error ε) (OpusPlayoutStats π))

/-- The call a `Start` belongs to. -/
def startKey : PlayoutCommand → Option ℕ
  | .start k => some k
  | _ => none

/-- A command with frames. -/
structure FrameCommand where
  command : PlayoutCommand
  isFrame : startKey command = none

structure System (ε π : Type) where
  queue : List PlayoutCommand := []
  /-- The slots that are promised to senders. -/
  promised : ℕ := 0
  /-- The close flag of the connection. -/
  closed : Bool := false
  /-- The driver's loop goes on. -/
  running : Bool := true
  send : SendPipeline π := {}
  clients : ℕ → Option (Client ε π) := fun _ => none
  /-- Pushes that wait for a slot, or have been promised one. -/
  pushes : ℕ → Option (FrameCommand × Bool) := fun _ => none
  /-- The number of the next client or push. -/
  next : ℕ := 0

/-- The argument of a push. -/
inductive Push
  | packet (packet : Packet)
  | batch (packets : PacketBatch)

/-- An empty batch is not sent. -/
def Push.command (id : UInt64) : Push → Option FrameCommand
  | .packet p => some ⟨.frame id (.packet p), rfl⟩
  | .batch ps =>
    let frames := PlayoutFrame.packetBatch ps
    if frames.isEmpty then none else some ⟨.frames id frames, rfl⟩

inductive Act (ε π : Type)
  | start
  | push (client : ℕ) (push : Push)
  | tryPush (client : ℕ) (push : Push)
  | finish (client : ℕ)
  /-- The queue promises a slot to a client or push that waits. -/
  | promise (client : ℕ)
  | promisePush (push : ℕ)
  /-- A sender puts its command into the slot it was promised. -/
  | enqueue (client : ℕ)
  | enqueuePush (push : ℕ)
  /-- A client drops its future or its handle. -/
  | drop (client : ℕ)
  | dropPush (push : ℕ)
  /-- A future takes the reply that has come. -/
  | poll (client : ℕ)
  | close
  /-- The driver takes a command, resolves its playout, or ends. -/
  | receive (env : Surroundings ε π) (now : ℕ)
  | wake (env : Surroundings ε π) (now : ℕ)
  | stop

variable {ε π : Type}

namespace System

def setClient (s : System ε π) (k : ℕ) (c : Option (Client ε π)) : System ε π :=
  { s with clients := Function.update s.clients k c }

def setPush (s : System ε π) (k : ℕ) (c : Option (FrameCommand × Bool)) : System ε π :=
  { s with pushes := Function.update s.pushes k c }

/-- The slot of a sender is free again. -/
def release (s : System ε π) (promised : Bool) : System ε π :=
  { s with promised := s.promised - promised.toNat }

variable (capacity : ℕ)

/-- A slot is free. -/
def room (s : System ε π) : Bool := decide (s.queue.length + s.promised < capacity)

def trySend (s : System ε π) (command : PlayoutCommand) : System ε π :=
  if s.running && s.room capacity then { s with queue := s.queue ++ [command] } else s

/-- `Drop` of an unfinished handle; the client is gone. -/
def dropHandle (s : System ε π) (k : ℕ) (id : UInt64) : System ε π :=
  (s.setClient k none).trySend capacity (.cancel id)

/-- A reply reaches a client that still waits for it. -/
def reply (s : System ε π) : Event ε π → System ε π
  | .started response result =>
    match s.clients response with
    | some .awaitsStart => s.setClient response (some (.started result))
    | _ => s
  | .finished response result =>
    match s.clients response with
    | some (.awaitsFinish id) => s.setClient response (some (.finished id result))
    | _ => s
  | .hungUp response =>
    match s.clients response with
    | some (.awaitsFinish id) => s.setClient response (some (.finished id (.error .closed)))
    | _ => s
  | .speaking _ | .sent .. | .stale _ | .discarded _ => s

def replies (s : System ε π) (events : List (Event ε π)) : System ε π := events.foldl reply s

/-- The end of the driver: `complete_pending_closed`. -/
def stop (s : System ε π) : System ε π :=
  let events := s.queue.flatMap PlayoutCommand.completeClosed ++
    (s.send.activePlayout.bind (·.finishResponse)).toList.map (.finished · (.error .closed))
  replies
    { s with
      running := false
      closed := true
      queue := []
      send := { s.send with activePlayout := none } }
    events

/-- A call of the driver; an error ends it. -/
def drive (s : System ε π) (step : Step ε π) : System ε π :=
  let s := replies { s with send := step.send } step.events
  match step.result with
  | .ok _ => s
  | .error _ => s.stop

/-- A sender whose slot is promised hands over its command, unless the driver is gone. -/
def enqueue (s : System ε π) (k : ℕ) : System ε π :=
  match s.clients k with
  | some (.starting true) =>
    let s := s.release true
    if s.running then { s.setClient k (some .awaitsStart) with queue := s.queue ++ [.start k] }
    else s.setClient k none
  | some (.finishing id true) =>
    let s := s.release true
    if s.running then
      { s.setClient k (some (.awaitsFinish id)) with queue := s.queue ++ [.finish id k] }
    else s.dropHandle capacity k id
  | _ => s

def enqueuePush (s : System ε π) (k : ℕ) : System ε π :=
  match s.pushes k with
  | some (push, true) =>
    let s := (s.release true).setPush k none
    if s.running then { s with queue := s.queue ++ [push.command] } else s
  | _ => s

/-- A client drops what it has. -/
def drop (s : System ε π) (k : ℕ) : System ε π :=
  match s.clients k with
  | some (.starting promised) => (s.release promised).setClient k none
  | some .awaitsStart | some (.started _) => s.setClient k none
  | some (.finishing id promised) => (s.release promised).setClient k (some (.dropping id))
  | some (.handle id) | some (.dropping id) | some (.awaitsFinish id) | some (.finished id _) =>
    s.dropHandle capacity k id
  | none => s

def poll (s : System ε π) (k : ℕ) : System ε π :=
  match s.clients k with
  | some (.started (.ok id)) => s.setClient k (some (.handle id))
  | some (.started (.error _)) => s.setClient k none
  -- `finished` is set, so that `Drop` sends nothing
  | some (.finished _ (.ok _)) => s.setClient k none
  | some (.finished id (.error _)) => s.dropHandle capacity k id
  | _ => s

def push (s : System ε π) (k : ℕ) (p : Push) : System ε π :=
  match s.clients k with
  | some (.handle id) =>
    if s.closed then s
    else
      match p.command id with
      | none => s
      | some push => { s.setPush s.next (some (push, false)) with next := s.next + 1 }
  | _ => s

def tryPush (s : System ε π) (k : ℕ) (p : Push) : System ε π :=
  match s.clients k with
  | some (.handle id) =>
    if s.closed then s
    else
      match p.command id with
      | none => s
      | some push => s.trySend capacity push.command
  | _ => s

def finish (s : System ε π) (k : ℕ) : System ε π :=
  match s.clients k with
  | some (.handle id) =>
    if s.closed then s.dropHandle capacity k id else s.setClient k (some (.finishing id false))
  | _ => s

def promise (s : System ε π) (k : ℕ) : System ε π :=
  if s.room capacity then
    match s.clients k with
    | some (.starting false) =>
      { s.setClient k (some (.starting true)) with promised := s.promised + 1 }
    | some (.finishing id false) =>
      { s.setClient k (some (.finishing id true)) with promised := s.promised + 1 }
    | _ => s
  else s

def promisePush (s : System ε π) (k : ℕ) : System ε π :=
  if s.room capacity then
    match s.pushes k with
    | some (push, false) =>
      { s.setPush k (some (push, true)) with promised := s.promised + 1 }
    | _ => s
  else s

def dropPush (s : System ε π) (k : ℕ) : System ε π :=
  match s.pushes k with
  | some (_, promised) => (s.release promised).setPush k none
  | none => s

def receive (s : System ε π) (env : Surroundings ε π) (now : ℕ) : System ε π :=
  if s.running then
    match s.queue with
    | [] => s
    | command :: rest =>
      { s with queue := rest }.drive (handlePlayoutCommand env now s.send command)
  else s

def wake (s : System ε π) (env : Surroundings ε π) (now : ℕ) : System ε π :=
  if s.running then s.drive (resolveActivePlayout env now s.send) else s

def start (s : System ε π) : System ε π :=
  if s.closed then s
  else { s.setClient s.next (some (.starting false)) with next := s.next + 1 }

def step (s : System ε π) : Act ε π → System ε π
  | .start => s.start
  | .push k p => s.push k p
  | .tryPush k p => s.tryPush capacity k p
  | .finish k => s.finish capacity k
  | .promise k => s.promise capacity k
  | .promisePush k => s.promisePush capacity k
  | .enqueue k => s.enqueue capacity k
  | .enqueuePush k => s.enqueuePush k
  | .drop k => s.drop capacity k
  | .dropPush k => s.dropPush k
  | .poll k => s.poll capacity k
  | .close => { s with closed := true }
  | .receive env now => s.receive env now
  | .wake env now => s.wake env now
  | .stop => s.stop

end System

/-! ### What every state should satisfy -/

/-- The client holds a handle with this number; `finish` owns it until it returns. -/
def Client.Live (id : UInt64) : Client ε π → Prop
  | .handle i | .finishing i _ | .dropping i | .awaitsFinish i | .finished i _ => i = id
  | .starting _ | .awaitsStart | .started _ => False

/-- A `Start` reply with this number that has not been delivered. -/
def Client.Undelivered (id : UInt64) : Client ε π → Prop
  | .started result => result = .ok id
  | _ => False

/-- An active playout without a handle and without a reply on its way is about to end. -/
def NotBlocked (s : System ε π) : Prop :=
  ∀ p, s.send.activePlayout = some p →
    (∀ k c, s.clients k = some c → ¬ c.Live p.id) →
    (∀ k c, s.clients k = some c → ¬ c.Undelivered p.id) →
    .cancel p.id ∈ s.queue ∨ (∃ response, .finish p.id response ∈ s.queue) ∨
      p.finishResponse.isSome

/-- The driver has no active playout with this number. -/
def Inactive (s : System ε π) (id : UInt64) : Prop :=
  ∀ p, s.send.activePlayout = some p → p.id ≠ id

/-- No handle is dropped while its playout is active and the queue is full, and no call of
`start_opus_playout` is dropped between its `Start` and its handle. -/
def Orderly (capacity : ℕ) (s : System ε π) : Act ε π → Prop
  | .drop k => ∀ c, s.clients k = some c → match c with
    | .awaitsStart => False
    | .started (.ok id) => Inactive s id
    | .handle id | .dropping id => s.room capacity ∨ Inactive s id
    | _ => True
  -- a closed connection lets `finish` drop the handle
  | .finish k => ∀ id, s.clients k = some (.handle id) →
    s.closed = false ∨ s.room capacity ∨ Inactive s id
  | _ => True

end Cacophony.PlayoutHandles
