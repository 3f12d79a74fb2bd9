import Cacophony.GatewayEvents
import Cacophony.Pipeline

/-!
The driver of a connection, `driver.rs`: what it does with a message of the gateway, and the
work on the receive side that its arms are made of.

Of the driver's parts, the state of the connection and the receive side are here. The session that
encrypts and decrypts is a part of the receive side; `Parts` has what else the driver calls.
-/

namespace Cacophony.Driver

open Reorder Gateway PendingMedia Pipeline
open GatewayEvents Progs

inductive WsMessage (τ : Type)
  | text (text : τ)
  | binary (bytes : Bytes)
  | close
  | other

structure Parts (τ υ σ : Type) where
  serde : Serde τ υ
  media : DaveMedia σ
  transitionReady : σ → Option UInt16
  allowPlaintextReceiveGrace : σ → σ
  updateNegotiatedMedia : ConnectionInternalState → Except Error Unit
  tuning : ConnectionRuntimeTuning
  davePendingMediaTtl : ℕ

structure ConnectionDriver (σ ρ : Type) where
  state : ConnectionInternalState
  receive : ReceivePipeline σ ρ
  transportCrypto : TransportCryptoConfig

variable {τ υ σ ρ : Type} (E : Parts τ υ σ)

/-! ### Messages -/

section Messages

abbrev Driving (σ ρ : Type) := Prog (ConnectionDriver σ ρ) Error

def onState {α : Type} (x : Handler α) : Driving σ ρ α :=
  within ConnectionDriver.state (fun d state => { d with state }) x

def replaceCrypto (config : Option TransportCryptoConfig) : Driving σ ρ Unit :=
  modify fun d => { d with transportCrypto := config.getD d.transportCrypto }

def openGrace (allow : Bool) : Driving σ ρ Unit :=
  modify fun d =>
    if allow then
      { d with receive.session := E.allowPlaintextReceiveGrace d.receive.session }
    else d

def pruneRemoved (removedSsrcs : List UInt32) : Driving σ ρ Unit :=
  modify fun d =>
    if removedSsrcs.isEmpty then d else { d with receive := d.receive.pruneSsrcs removedSsrcs }

/-- `apply_gateway_effects`; the cipher of a mode takes every key of 32 bytes. -/
def applyGatewayEffects (effects : GatewayEventEffects) : Driving σ ρ Unit := do
  replaceCrypto effects.transportCrypto
  openGrace E effects.allowPlaintextReceiveGrace
  pruneRemoved effects.removedSsrcs

def updateMedia (updated : Bool) : Driving σ ρ Unit := do
  let d ← get
  if updated then ofResult id (E.updateNegotiatedMedia d.state) else pure ()

def handleText (event : ParsedVoiceGatewayEvent υ) :
    Driving σ ρ (Option GatewayEventEffects) := do
  onState (noteSeq event.seq)
  let effects ← onState (handleTextEvent E.serde event)
  applyGatewayEffects E effects
  updateMedia E effects.mediaSessionUpdated
  return some effects

def handleBinary (bytes : Bytes) : Driving σ ρ (Option GatewayEventEffects) := do
  let effects ← onState (handleVoiceBinaryEvent bytes)
  applyGatewayEffects E effects
  return some effects

/-- `handle_websocket_message` for a message that was read; without effects the loop ends. -/
def handleWebsocketMessage : WsMessage τ → Driving σ ρ (Option GatewayEventEffects)
  | .text text =>
    match E.serde.parseEventText text with
    | none => throw .json
    | some event => handleText E event
  | .binary bytes => handleBinary E bytes
  | .close => pure none
  | .other => pure (some {})

end Messages

/-! ### Actions

The arms of `run_loop` are made of these actions. No packet arrives in any of them. -/

inductive Action (τ σ : Type)
  | message (message : WsMessage τ)
  | pump (session : σ)
  | retry (retry : DavePendingMediaRetry) (clock : ℕ → ℕ) (fuel : ℕ)
  | expire (now : ℕ)
  | collect (now : ℕ)
  | flush

namespace ConnectionDriver

variable (d : ConnectionDriver σ ρ)

/-- What the receive side reads of the connection. -/
def surroundings : Surroundings where
  ssrcUsers := d.state.ssrcUsers.lookup
  dave := d.state.dave
  transitionReady := E.transitionReady d.receive.session
  davePendingMediaTtl := E.davePendingMediaTtl

/-- The driver after an action; there is none when the driver ends, or when a retry goes on for
more rounds than the action has. -/
def perform : Action τ σ → Option (ConnectionDriver σ ρ)
  | .message message =>
    match exec (handleWebsocketMessage E message) d with
    | (.ok (some _), d) => some d
    | _ => none
  | .pump session => some { d with receive.session := session }
  | .retry retry clock fuel =>
    (d.receive.retryPendingDaveMedia E.media (d.surroundings E) retry clock fuel).map fun receive =>
      { d with receive }
  | .expire now => some { d with receive := d.receive.expirePendingDaveMedia now }
  | .collect now =>
    some { d with
      receive := d.receive.collectReadyVoiceFrames E.media (d.surroundings E) E.tuning now }
  | .flush => some { d with receive := d.receive.flushFrameStream }

/-- Actions one after the other. -/
def performAll (actions : List (Action τ σ)) : Option (ConnectionDriver σ ρ) :=
  actions.foldlM (perform E) d

end ConnectionDriver

lemma perform_message {d d' : ConnectionDriver σ ρ} {message : WsMessage τ} :
    d.perform E (.message message) = some d' ↔
      ∃ effects, exec (handleWebsocketMessage E message) d = (.ok (some effects), d') := by
  rw [ConnectionDriver.perform]
  rcases exec (handleWebsocketMessage E message) d with ⟨_ | _ | effects, d₁⟩ <;> simp

/-- What is known after a message. -/
def heard (J : Serde τ υ) (k : Known) : WsMessage τ → Known
  | .text text => (J.parseEventText text).elim k fun event => (k.note event.seq).hear J event
  | .binary bytes => k.note ((BinaryEvent.parse bytes).map (·.seq))
  | _ => k

section Writes

variable {E}

lemma moves_onState {α : Type} {x : Handler α} {R : Known → Known → Prop}
    (h : Moves ConnectionInternalState.known x R) :
    Moves (fun d : ConnectionDriver σ ρ => d.state.known) (onState x) R :=
  moves_within h (fun _ => rfl) fun _ _ => rfl

lemma keeps_applyGatewayEffects (effects : GatewayEventEffects) :
    Keeps (fun d : ConnectionDriver σ ρ => d.state.known) (applyGatewayEffects E effects) := by
  refine Keeps.bind (moves_modify fun _ => rfl) fun _ => ?_
  refine Keeps.bind (moves_modify fun d => ?_) fun _ => moves_modify fun d => ?_
  · split <;> rfl
  · split <;> rfl

lemma keeps_updateMedia (updated : Bool) :
    Keeps (fun d : ConnectionDriver σ ρ => d.state.known) (updateMedia E updated) := by
  refine moves_get_bind fun d => ?_
  split
  · cases E.updateNegotiatedMedia d.state with
    | ok _ => exact (keeps_pure ()).mono fun _ _ h _ => h
    | error _ => exact moves_throw _
  · exact (keeps_pure ()).mono fun _ _ h _ => h

/-- **What a message writes.** -/
lemma moves_handleWebsocketMessage (message : WsMessage τ) :
    Moves (fun d : ConnectionDriver σ ρ => d.state.known) (handleWebsocketMessage E message)
      fun k k' => k' = heard E.serde k message := by
  cases message with
  | text text =>
    rcases hevent : E.serde.parseEventText text with _ | event
    · simp only [handleWebsocketMessage, hevent]
      exact moves_throw _
    · simp only [handleWebsocketMessage, heard, hevent, Option.elim_some]
      refine (moves_onState (moves_noteSeq _)).bind (fun _ => ?_) fun u v v' hv hv' => hv ▸ hv'
      refine (moves_onState (moves_handleTextEvent event)).bind (U := fun v v' => v' = v)
        (fun effects => ?_) fun u v v' hv hv' => hv'.trans hv
      refine (keeps_applyGatewayEffects effects).bind fun _ => ?_
      exact (keeps_updateMedia _).bind fun _ => keeps_pure _
  | binary bytes =>
    refine (moves_onState (moves_handleVoiceBinaryEvent bytes)).bind (U := fun v v' => v' = v)
      (fun effects => ?_) fun u v v' hv hv' => hv'.trans hv
    exact (keeps_applyGatewayEffects effects).bind fun _ => keeps_pure _
  | close => exact keeps_pure _
  | other => exact keeps_pure _

/-- The other actions write nothing. -/
lemma known_perform {d d' : ConnectionDriver σ ρ} {action : Action τ σ}
    (h : d.perform E action = some d') :
    (∃ message, action = .message message ∧
      d'.state.known = heard E.serde d.state.known message) ∨
    (∀ message, action ≠ .message message) ∧ d'.state = d.state := by
  cases action with
  | message message =>
    obtain ⟨effects, hexec⟩ := (perform_message E).mp h
    exact .inl ⟨message, rfl, moves_handleWebsocketMessage message d _ _ hexec⟩
  | retry retry clock fuel =>
    obtain ⟨receive, -, rfl⟩ := Option.map_eq_some_iff.mp h
    exact .inr ⟨nofun, rfl⟩
  | _ =>
    cases h
    exact .inr ⟨nofun, rfl⟩

end Writes

/-- What an action that succeeds keeps, actions keep. -/
lemma performAll_inv {I : ConnectionDriver σ ρ → Prop} {P : Action τ σ → Prop}
    (hstep : ∀ d a d', I d → P a → d.perform E a = some d' → I d') {actions : List (Action τ σ)}
    {d d' : ConnectionDriver σ ρ} (hP : ∀ a ∈ actions, P a)
    (h : d.performAll E actions = some d') (hd : I d) : I d' := by
  induction actions generalizing d with
  | nil =>
    cases h
    exact hd
  | cons a actions ih =>
    obtain ⟨d₁, h₁, h₂⟩ := Option.bind_eq_some_iff.mp h
    refine ih (fun b hb => hP b (List.mem_cons_of_mem a hb)) h₂ ?_
    exact hstep d a d₁ hd (hP a List.mem_cons_self) h₁

/-! ### A driver at rest -/

lemma ordered_nothing : ({ ttl := 0 } : PendingDaveMediaQueues Unit).buckets.Ordered :=
  BucketQueue.BucketDeadlineQueue.ordered_empty

lemma length_nothing : ([] : List (FrameReceiveResult Unit)).length ≤ 1 := Nat.zero_le _

def idlePipeline : ReceivePipeline Bool Unit where
  streams := ⟨{}, fun _ => [], fun _ _ _ => Nat.zero_le _⟩
  pendingDaveMedia := { ttl := 0 }
  ordered := ordered_nothing
  session := true
  readyFrames := ⟨[], 1, Nat.one_pos, length_nothing⟩
  frameStream := none

def plainParts : Parts (ParsedVoiceGatewayEvent Payload) Payload Bool where
  serde := plainSerde
  media := idleMedia
  transitionReady _ := none
  allowPlaintextReceiveGrace := id
  updateNegotiatedMedia _ := .ok ()
  tuning := .default
  davePendingMediaTtl := 0

end Cacophony.Driver
