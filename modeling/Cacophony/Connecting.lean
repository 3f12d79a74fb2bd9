import Cacophony.Driver

/-!
Setting up a connection, `connect_validated_with_observer_and_raw` of `driver.rs`, and the
sequence number that heartbeats acknowledge.

The set-up reads three events, `Hello`, `Ready` and the session description. What arrives between
the last two is kept and replayed once the state exists. The number in the state is written while
waiting, in the replay, and by the driver, and the replay writes numbers that are older than that
of the session description.
-/

namespace Cacophony.Connecting

open FrameCodecs Gateway GatewayEvents Driver
open Progs

variable {τ υ : Type}

/-- What the WebSocket gives, one after the other, before it ends. -/
abbrev Reads (τ : Type) := List (Except Error (WsMessage τ))

inductive PendingGatewayEvent (υ : Type)
  | text (event : ParsedVoiceGatewayEvent υ)
  | binary (bytes : Bytes)

structure ConnectionConfig where
  userId : UInt64
  codecPreferences : List Codec

variable (J : Serde τ υ) {event : ParsedVoiceGatewayEvent υ}

def readEvent : Reads τ → Except Error (ParsedVoiceGatewayEvent υ × Reads τ)
  | [] => .error .closed
  | .error error :: _ => .error error
  | .ok (.text text) :: read =>
    match J.parseEventText text with
    | none => .error .json
    | some event => .ok (event, read)
  | .ok _ :: read => readEvent read

lemma length_readEvent {read rest : Reads τ} (h : readEvent J read = .ok (event, rest)) :
    rest.length < read.length := by
  fun_induction readEvent J read with
  | case1 => cases h
  | case2 => cases h
  | case3 => cases h
  | case4 text read event' _ =>
    cases h
    exact Nat.lt_succ_self _
  | case5 _ read _ ih => exact (ih h).trans (Nat.lt_succ_self _)

def waitForOpcode (opcode : Opcode) (lastSeq : Option ℤ) (read : Reads τ) :
    Except Error (ParsedVoiceGatewayEvent υ × Option ℤ × Reads τ) :=
  match _h : readEvent J read with
  | .error error => .error error
  | .ok (event, read) =>
    let lastSeq := event.seq.or lastSeq
    if event.opcode = opcode.code then .ok (event, lastSeq, read)
    else waitForOpcode opcode lastSeq read
termination_by read.length
decreasing_by exact length_readEvent J _h

def waitForSessionDescription (lastSeq : Option ℤ) (pending : List (PendingGatewayEvent υ)) :
    Reads τ → Except Error
      (ParsedVoiceGatewayEvent υ × List (PendingGatewayEvent υ) × Option ℤ × Reads τ)
  | [] => .error .closed
  | .error error :: _ => .error error
  | .ok (.text text) :: read =>
    match J.parseEventText text with
    | none => .error .json
    | some event =>
      let lastSeq := event.seq.or lastSeq
      if event.opcode = Opcode.sessionDescription.code then .ok (event, pending, lastSeq, read)
      else waitForSessionDescription lastSeq (pending ++ [.text event]) read
  | .ok (.binary bytes) :: read =>
    waitForSessionDescription lastSeq (pending ++ [.binary bytes]) read
  | .ok _ :: read => waitForSessionDescription lastSeq pending read

def replayPendingVoiceEvent : PendingGatewayEvent υ → Handler Unit
  | .text event => do
    noteSeq event.seq
    let _ ← handleTextEvent J event
  | .binary bytes => do
    let _ ← handleVoiceBinaryEvent bytes

def replayPendingVoiceEvents (pending : List (PendingGatewayEvent υ)) : Handler Unit :=
  pending.forM (replayPendingVoiceEvent J)

/-- The state of a connection before the replay. -/
def initialState (config : ConnectionConfig) (lastSeq : Option ℤ)
    (description : SessionDescription) (rtpCodecs : DiscordRtpCodecMap) :
    ConnectionInternalState where
  codecPreferences := config.codecPreferences
  lastSeq := lastSeq
  sessionDescription := some description
  rtpCodecs := some rtpCodecs
  connectedUserIds := {config.userId}
  ssrcUsers := ∅
  speaking := ∅
  dave := ({} : DaveInternalState).setSessionProtocol description.daveProtocolVersion
  rosterAuthoritative := false
  resumed := false

def parsed {α : Type} (value : Option α) : Except Error α := value.elim (.error .json) .ok

/-- The set-up of a connection, and what is left to read. The commands that it sends, the UDP
discovery and the time limits are left out: they read no message, and when one of them fails there
is no connection. -/
def connect (config : ConnectionConfig) (read : Reads τ) :
    Except Error (ConnectionInternalState × Reads τ) := do
  let (hello, read) ← readEvent J read
  let _ ← parsed (J.hello hello.data)
  let (ready, lastSeq, read) ← waitForOpcode J .ready hello.seq read
  let _ ← parsed (J.ready ready.data)
  let (event, pending, lastSeq, read) ← waitForSessionDescription J lastSeq [] read
  let description ← parsed (J.sessionDescription event.data)
  let rtpCodecs ← DiscordRtpCodecMap.new description config.codecPreferences
  let (replayed, state) :=
    exec (replayPendingVoiceEvents J pending) (initialState config lastSeq description rtpCodecs)
  replayed
  return (state, read)

/-! ### Numbers -/

namespace PendingGatewayEvent

/-- The number of an event, if it carries one or is recognised. -/
def seq : PendingGatewayEvent υ → Option ℤ
  | text event => event.seq
  | binary bytes => (BinaryEvent.parse bytes).map (·.seq)

end PendingGatewayEvent

/-- The event that a message is. -/
def eventOf : WsMessage τ → Option (PendingGatewayEvent υ)
  | .text text => (J.parseEventText text).map .text
  | .binary bytes => some (.binary bytes)
  | _ => none

def textOf : WsMessage τ → Option (ParsedVoiceGatewayEvent υ)
  | .text text => J.parseEventText text
  | _ => none

def seqOf (message : WsMessage τ) : Option ℤ := (eventOf J message).bind (·.seq)
def textSeqOf (message : WsMessage τ) : Option ℤ := (textOf J message).bind (·.seq)

/-- The number of the most recent of some messages that has one. -/
def latestSeq (messages : List (WsMessage τ)) : Option ℤ :=
  (messages.filterMap (seqOf J)).getLast?

/-- The same, as if binary messages had none. -/
def latestTextSeq (messages : List (WsMessage τ)) : Option ℤ :=
  (messages.filterMap (textSeqOf J)).getLast?

/-! ### The phases of a set-up -/

/-- Messages up to the first text event of some kind. -/
structure Cut (τ υ : Type) where
  before : List (WsMessage τ)
  message : WsMessage τ
  event : ParsedVoiceGatewayEvent υ
  rest : Reads τ

def Cut.messages (c : Cut τ υ) : List (WsMessage τ) := c.before ++ [c.message]

def Cut.skip (c : Cut τ υ) (messages : List (WsMessage τ)) : Cut τ υ :=
  { c with before := messages ++ c.before }

def cutAt (stop : ParsedVoiceGatewayEvent υ → Bool) : Reads τ → Option (Cut τ υ)
  | .ok message :: read =>
    match (textOf J message).filter stop with
    | some event => some ⟨[], message, event, read⟩
    | none => (cutAt stop read).map (·.skip [message])
  | _ => none

/-- The messages of a set-up: those up to `Ready`, and those from there to the session
description. -/
structure Phases (τ υ : Type) where
  early : List (WsMessage τ)
  late : Cut τ υ

def Phases.received (p : Phases τ υ) : List (WsMessage τ) := p.early ++ p.late.messages

def phases (read : Reads τ) : Option (Phases τ υ) := do
  let hello ← cutAt J (fun _ => true) read
  let ready ← cutAt J (fun event => event.opcode = Opcode.ready.code) hello.rest
  let late ← cutAt J (fun event => event.opcode = Opcode.sessionDescription.code) ready.rest
  return ⟨hello.messages ++ ready.messages, late⟩

/-- No number of a set-up is written over by an older one or missed. If the session description has
a number, what is replayed has none, or last the same. If it has none, what is replayed has
one, or the latest number before `Ready` is that of a text event. -/
def Phases.InOrder (p : Phases τ υ) : Prop :=
  if p.late.event.seq.isSome then
    latestSeq J p.late.before = none ∨ latestSeq J p.late.before = p.late.event.seq
  else latestSeq J p.late.before ≠ none ∨ latestSeq J p.early = latestTextSeq J p.early

instance (p : Phases τ υ) : Decidable (p.InOrder J) :=
  inferInstanceAs (Decidable (if p.late.event.seq.isSome then _ ∨ _ else _ ∨ _))

/-! ### What the waits read -/

lemma foldl_or {α β : Type} (f : α → Option β) (l : List α) (v : Option β) :
    l.foldl (fun v x => (f x).or v) v = (l.filterMap f).getLast?.or v := by
  induction l generalizing v with
  | nil => simp
  | cons x l ih =>
    rw [List.foldl_cons, ih, List.filterMap_cons]
    cases f x with
    | none => simp
    | some y =>
      rw [List.getLast?_cons]
      cases (l.filterMap f).getLast? <;> simp

variable {J} {read rest : Reads τ} {stop : ParsedVoiceGatewayEvent υ → Bool} {c : Cut τ υ}
  {l : List (WsMessage τ)}

@[simp] lemma Cut.messages_skip (c : Cut τ υ) (messages : List (WsMessage τ)) :
    (c.skip messages).messages = messages ++ c.messages := List.append_assoc _ _ _

@[simp] lemma Cut.event_skip (c : Cut τ υ) (messages : List (WsMessage τ)) :
    (c.skip messages).event = c.event := rfl

@[simp] lemma Cut.rest_skip (c : Cut τ υ) (messages : List (WsMessage τ)) :
    (c.skip messages).rest = c.rest := rfl

lemma cutAt_hit (read : Reads τ) (stop : ParsedVoiceGatewayEvent υ → Bool) {message : WsMessage τ}
    (htext : textOf J message = some event) (hstop : stop event = true) :
    cutAt J stop (.ok message :: read) = some ⟨[], message, event, read⟩ := by
  have hevent : (textOf J message).filter stop = some event :=
    Option.filter_eq_some_iff.mpr ⟨htext, hstop⟩
  rw [cutAt, hevent]

lemma cutAt_pass {message : WsMessage τ}
    (h : ∀ event, textOf J message = some event → stop event = false) :
    cutAt J stop (.ok message :: read) = (cutAt J stop read).map (·.skip [message]) := by
  have hnone : (textOf J message).filter stop = none := by
    rw [Option.filter_eq_none_iff]
    intro event hevent
    simp [h event hevent]
  rw [cutAt, hnone]

lemma cutAt_spec (h : cutAt J stop read = some c) :
    read = c.messages.map .ok ++ c.rest ∧ textOf J c.message = some c.event := by
  fun_induction cutAt J stop read generalizing c with
  | case1 message read event hevent =>
    cases h
    exact ⟨rfl, (Option.filter_eq_some_iff.mp hevent).1⟩
  | case2 message read _ ih =>
    obtain ⟨c', hc', rfl⟩ := Option.map_eq_some_iff.mp h
    obtain ⟨hread, hevent⟩ := ih hc'
    refine ⟨?_, hevent⟩
    rw [Cut.messages_skip]
    exact congrArg (.ok message :: ·) hread
  | case3 => cases h

/-- To look for a text event of some kind is to look for the next text event, and go on from there
if it is of another kind. -/
lemma cutAt_first (stop : ParsedVoiceGatewayEvent υ → Bool)
    (h : cutAt J (fun _ => true) read = some c) :
    cutAt J stop read =
      if stop c.event then some c else (cutAt J stop c.rest).map (·.skip c.messages) := by
  fun_induction cutAt J (fun _ => true) read generalizing c with
  | case1 message read event hevent =>
    cases h
    have htext := (Option.filter_eq_some_iff.mp hevent).1
    split
    next hstop => exact cutAt_hit _ _ htext hstop
    next hstop =>
      refine cutAt_pass fun event' hevent' => ?_
      rw [htext, Option.some.injEq] at hevent'
      simpa [← hevent'] using hstop
  | case2 message read hnone ih =>
    obtain ⟨c', hc', rfl⟩ := Option.map_eq_some_iff.mp h
    have hpass : ∀ event, textOf J message = some event → stop event = false :=
      fun event hevent => absurd rfl (Option.filter_eq_none_iff.mp hnone event hevent)
    rw [cutAt_pass hpass, ih hc', Cut.event_skip, Cut.rest_skip]
    by_cases hstop : stop c'.event = true
    · rw [if_pos hstop, if_pos hstop, Option.map_some]
    · rw [if_neg hstop, if_neg hstop, Option.map_map]
      congr 1
  | case3 => cases h

lemma readEvent_cut (h : readEvent J read = .ok (event, rest)) :
    ∃ c, cutAt J (fun _ => true) read = some c ∧ c.event = event ∧ c.rest = rest ∧
      ∀ message ∈ c.before, textOf J message = none := by
  fun_induction readEvent J read with
  | case1 => cases h
  | case2 => cases h
  | case3 => cases h
  | case4 text read event' hevent =>
    cases h
    exact ⟨_, cutAt_hit _ _ hevent rfl, rfl, rfl, nofun⟩
  | case5 message read hmessage ih =>
    have htext : textOf J message = none := by
      cases message with
      | text text => exact absurd rfl (hmessage text)
      | _ => rfl
    obtain ⟨c, hc, hevent, hrest, hbefore⟩ := ih h
    refine ⟨c.skip [message], ?_, hevent, hrest, ?_⟩
    · rw [cutAt_pass (by simp [htext]), hc, Option.map_some]
    · intro m hm
      rcases List.mem_cons.mp hm with rfl | hm
      · exact htext
      · exact hbefore m hm

lemma latestTextSeq_append (l l' : List (WsMessage τ)) :
    latestTextSeq J (l ++ l') = (latestTextSeq J l').or (latestTextSeq J l) := by
  rw [latestTextSeq, List.filterMap_append, List.getLast?_append]
  rfl

lemma latestSeq_append (l l' : List (WsMessage τ)) :
    latestSeq J (l ++ l') = (latestSeq J l').or (latestSeq J l) := by
  rw [latestSeq, List.filterMap_append, List.getLast?_append]
  rfl

lemma latestTextSeq_singleton (m : WsMessage τ) : latestTextSeq J [m] = textSeqOf J m := by
  cases h : textSeqOf J m <;> simp [latestTextSeq, h]

lemma latestSeq_singleton (m : WsMessage τ) : latestSeq J [m] = seqOf J m := by
  cases h : seqOf J m <;> simp [latestSeq, h]

lemma seqOf_of_textOf {m : WsMessage τ} (h : textOf J m = some event) :
    seqOf J m = event.seq ∧ textSeqOf J m = event.seq := by
  cases m with
  | text text =>
    rw [textOf] at h
    simp [seqOf, textSeqOf, eventOf, textOf, h, PendingGatewayEvent.seq]
  | _ => cases h

lemma textSeqOf_of_seqOf_none {m : WsMessage τ} (h : seqOf J m = none) : textSeqOf J m = none := by
  rcases htext : textOf J m with _ | event
  · simp [textSeqOf, htext]
  · rw [(seqOf_of_textOf htext).2, ← (seqOf_of_textOf htext).1, h]

lemma latestTextSeq_eq_none : latestTextSeq J l = none ↔ ∀ m ∈ l, textSeqOf J m = none := by
  rw [latestTextSeq, List.getLast?_eq_none_iff, List.filterMap_eq_nil_iff]

/-- Where no message has a number, no text event has. -/
lemma latestTextSeq_of_latestSeq (h : latestSeq J l = none) : latestTextSeq J l = none := by
  rw [latestSeq, List.getLast?_eq_none_iff, List.filterMap_eq_nil_iff] at h
  exact latestTextSeq_eq_none.mpr fun m hm => textSeqOf_of_seqOf_none (h m hm)

lemma Cut.latestSeq_messages (h : cutAt J stop read = some c) :
    latestSeq J c.messages = c.event.seq.or (latestSeq J c.before) ∧
      latestTextSeq J c.messages = c.event.seq.or (latestTextSeq J c.before) := by
  obtain ⟨hseq, htext⟩ := seqOf_of_textOf (cutAt_spec h).2
  constructor
  · rw [Cut.messages, latestSeq_append, latestSeq_singleton, hseq]
  · rw [Cut.messages, latestTextSeq_append, latestTextSeq_singleton, htext]

/-- An event that is read has the latest number of the texts that were. -/
lemma latestTextSeq_readEvent (h : readEvent J read = .ok (event, rest)) :
    ∃ c, cutAt J (fun _ => true) read = some c ∧ c.event = event ∧ c.rest = rest ∧
      latestTextSeq J c.messages = event.seq := by
  obtain ⟨c, hc, rfl, rfl, hbefore⟩ := readEvent_cut h
  refine ⟨c, hc, rfl, rfl, ?_⟩
  have hnone : latestTextSeq J c.before = none := by
    rw [latestTextSeq_eq_none]
    intro m hm
    rw [textSeqOf, hbefore m hm, Option.bind_none]
  rw [(Cut.latestSeq_messages hc).2, hnone, Option.or_none]

lemma waitForOpcode_cut {opcode : Opcode} {lastSeq lastSeq' : Option ℤ}
    (h : waitForOpcode J opcode lastSeq read = .ok (event, lastSeq', rest)) :
    ∃ c, cutAt J (fun event => event.opcode = opcode.code) read = some c ∧ c.rest = rest ∧
      lastSeq' = (latestTextSeq J c.messages).or lastSeq := by
  fun_induction waitForOpcode J opcode lastSeq read with
  | case1 => cases h
  | case2 lastSeq read event' read' hread seq hopcode =>
    simp only [Except.ok.injEq, Prod.mk.injEq] at h
    obtain ⟨-, hlast, hrest⟩ := h
    obtain ⟨c, hc, rfl, hrest', hseq⟩ := latestTextSeq_readEvent hread
    refine ⟨c, ?_, hrest'.trans hrest, ?_⟩
    · rw [cutAt_first _ hc, if_pos (decide_eq_true hopcode)]
    · rw [← hlast, hseq]
  | case3 lastSeq read event' read' hread seq hopcode ih =>
    obtain ⟨c, hc, rfl, rfl, hseq⟩ := latestTextSeq_readEvent hread
    obtain ⟨c', hc', hrest, hlast⟩ := ih h
    refine ⟨c'.skip c.messages, ?_, hrest, ?_⟩
    · rw [cutAt_first _ hc, if_neg (by simpa using hopcode), hc', Option.map_some]
    · rw [hlast, Cut.messages_skip, latestTextSeq_append, hseq, Option.or_assoc]

/-- A message that does not end the wait is skipped, and its number is noted if it is a text. -/
lemma skip_pending (message : WsMessage τ) (pending : List (PendingGatewayEvent υ))
    (lastSeq : Option ℤ) (hstop : ∀ event, textOf J message = some event → stop event = false)
    (hc : cutAt J stop read = some c) :
    cutAt J stop (.ok message :: read) = some (c.skip [message]) ∧
      pending ++ (eventOf J message).toList ++ c.before.filterMap (eventOf J) =
        pending ++ (c.skip [message]).before.filterMap (eventOf J) ∧
      (latestTextSeq J c.messages).or ((textSeqOf J message).or lastSeq) =
        (latestTextSeq J (c.skip [message]).messages).or lastSeq := by
  refine ⟨?_, ?_, ?_⟩
  · rw [cutAt_pass hstop, hc, Option.map_some]
  · rw [List.append_assoc, Cut.skip, List.filterMap_append]
    cases h : eventOf J message <;> simp [h]
  · rw [Cut.messages_skip, latestTextSeq_append, latestTextSeq_singleton, Option.or_assoc]

lemma waitForSessionDescription_cut {lastSeq lastSeq' : Option ℤ}
    {pending pending' : List (PendingGatewayEvent υ)}
    (h : waitForSessionDescription J lastSeq pending read = .ok (event, pending', lastSeq', rest)) :
    ∃ c, cutAt J (fun event => event.opcode = Opcode.sessionDescription.code) read = some c ∧
      c.event = event ∧ c.rest = rest ∧
      pending' = pending ++ c.before.filterMap (eventOf J) ∧
      lastSeq' = (latestTextSeq J c.messages).or lastSeq := by
  fun_induction waitForSessionDescription J lastSeq pending read with
  | case1 => cases h
  | case2 => cases h
  | case3 => cases h
  | case4 lastSeq pending text read event' hevent seq hopcode =>
    simp only [Except.ok.injEq, Prod.mk.injEq] at h
    obtain ⟨rfl, rfl, hlast, rfl⟩ := h
    have htext : textOf J (.text text) = some event' := hevent
    have hcut := cutAt_hit read (fun event => event.opcode = Opcode.sessionDescription.code) htext
      (decide_eq_true hopcode)
    refine ⟨_, hcut, rfl, rfl, (List.append_nil _).symm, ?_⟩
    rw [← hlast, (Cut.latestSeq_messages hcut).2]
    simp [seq, latestTextSeq]
  | case5 lastSeq pending text read event' hevent seq hopcode ih =>
    obtain ⟨c, hc, hce, hrest, hpending, hlast⟩ := ih h
    have htext : textOf J (.text text) = some event' := hevent
    obtain ⟨hcut, hevents, hseq⟩ := skip_pending (.text text) pending lastSeq
      (by simpa [htext] using hopcode) hc
    refine ⟨c.skip [.text text], hcut, hce, hrest, ?_, ?_⟩
    · rw [hpending, ← hevents, eventOf, hevent]
      rfl
    · rw [hlast, ← hseq, (seqOf_of_textOf htext).2]
  | case6 lastSeq pending bytes read ih =>
    obtain ⟨c, hc, hce, hrest, hpending, hlast⟩ := ih h
    obtain ⟨hcut, hevents, hseq⟩ := skip_pending (.binary bytes) pending lastSeq
      nofun hc
    exact ⟨c.skip [.binary bytes], hcut, hce, hrest, hpending.trans hevents, hlast.trans hseq⟩
  | case7 lastSeq pending message read htext hbinary ih =>
    obtain ⟨c, hc, hce, hrest, hpending, hlast⟩ := ih h
    have hnone : eventOf J message = none ∧ textOf J message = none := by
      cases message with
      | text text => exact absurd rfl (htext text)
      | binary bytes => exact absurd rfl (hbinary bytes)
      | _ => exact ⟨rfl, rfl⟩
    obtain ⟨hcut, hevents, hseq⟩ := skip_pending message pending lastSeq
      (by simp [hnone.2]) hc
    refine ⟨c.skip [message], hcut, hce, hrest, ?_, ?_⟩
    · rw [hpending, ← hevents, hnone.1, Option.toList_none, List.append_nil]
    · rw [hlast, ← hseq, textSeqOf, hnone.2]
      rfl

/-! ### What the events write -/

lemma moves_replayPendingVoiceEvent (event : PendingGatewayEvent υ) :
    Moves ConnectionInternalState.lastSeq (replayPendingVoiceEvent J event) fun v v' =>
      v' = event.seq.or v := by
  cases event with
  | text event =>
    have hnote : Moves ConnectionInternalState.lastSeq (noteSeq event.seq) fun v v' =>
        v' = event.seq.or v :=
      (moves_noteSeq _).of_view Known.lastSeq fun _ _ hk => congrArg Known.lastSeq hk
    have hhandle : Keeps ConnectionInternalState.lastSeq (handleTextEvent J event) := by
      refine (moves_handleTextEvent event).of_view Known.lastSeq fun k k' hk => ?_
      rw [hk, Known.lastSeq_hear]
    exact hnote.bind (fun _ => hhandle.bind fun _ => keeps_pure _) fun u v v' hv hv' => hv'.trans hv
  | binary bytes =>
    have hhandle : Moves ConnectionInternalState.lastSeq (handleVoiceBinaryEvent bytes)
        fun v v' => v' = ((BinaryEvent.parse bytes).map (·.seq)).or v :=
      (moves_handleVoiceBinaryEvent bytes).of_view Known.lastSeq fun _ _ hk =>
        congrArg Known.lastSeq hk
    exact hhandle.bind (fun _ => keeps_pure _) fun u v v' hv hv' => hv'.trans hv

/-- The replay leaves the last number that it has come to. -/
lemma moves_replayPendingVoiceEvents (pending : List (PendingGatewayEvent υ)) :
    Moves ConnectionInternalState.lastSeq (replayPendingVoiceEvents J pending) fun v v' =>
      v' = (pending.filterMap PendingGatewayEvent.seq).getLast?.or v := by
  refine (moves_forM moves_replayPendingVoiceEvent pending).mono fun v v' hv => ?_
  rw [hv, foldl_or]

lemma filterMap_seq (messages : List (WsMessage τ)) :
    (messages.filterMap (eventOf J)).filterMap PendingGatewayEvent.seq =
      messages.filterMap (seqOf J) :=
  List.filterMap_filterMap

/-! ### The number after a set-up -/

lemma connect_ok {config : ConnectionConfig} {state : ConnectionInternalState}
    (h : connect J config read = .ok (state, rest)) :
    ∃ p, phases J read = some p ∧ read = p.received.map .ok ++ rest ∧
      state.lastSeq = (latestSeq J p.late.before).or
        ((latestTextSeq J p.late.messages).or (latestTextSeq J p.early)) := by
  obtain ⟨⟨hello, read₁⟩, hhello, h⟩ := (bind_ok_iff _ _ _).mp h
  obtain ⟨_, -, h⟩ := (bind_ok_iff _ _ _).mp h
  obtain ⟨⟨ready, lastSeq₁, read₂⟩, hready, h⟩ := (bind_ok_iff _ _ _).mp h
  obtain ⟨_, -, h⟩ := (bind_ok_iff _ _ _).mp h
  obtain ⟨⟨event, pending, lastSeq₂, read₃⟩, hwait, h⟩ := (bind_ok_iff _ _ _).mp h
  obtain ⟨description, -, h⟩ := (bind_ok_iff _ _ _).mp h
  obtain ⟨rtpCodecs, -, h⟩ := (bind_ok_iff _ _ _).mp h
  obtain ⟨_, hreplay, h⟩ := (bind_ok_iff _ _ _).mp h
  cases h
  obtain ⟨c₁, hc₁, rfl, rfl, hseq⟩ := latestTextSeq_readEvent hhello
  obtain ⟨c₂, hc₂, rfl, rfl⟩ := waitForOpcode_cut hready
  obtain ⟨c₃, hc₃, rfl, rfl, rfl, rfl⟩ := waitForSessionDescription_cut hwait
  refine ⟨⟨c₁.messages ++ c₂.messages, c₃⟩, ?_, ?_, ?_⟩
  · simp [phases, hc₁, hc₂, hc₃]
  · rw [Phases.received, List.map_append, List.map_append, List.append_assoc, List.append_assoc,
      ← (cutAt_spec hc₃).1, ← (cutAt_spec hc₂).1]
    exact (cutAt_spec hc₁).1
  · refine (moves_replayPendingVoiceEvents _ _ _ _ (Prod.ext hreplay rfl)).trans ?_
    rw [List.nil_append, filterMap_seq, latestTextSeq_append, hseq]
    rfl

/-- The number is the latest one if and only if the numbers were in order. -/
lemma latest_iff_inOrder {p : Phases τ υ} (h : phases J read = some p) :
    (latestSeq J p.late.before).or
        ((latestTextSeq J p.late.messages).or (latestTextSeq J p.early)) =
      latestSeq J p.received ↔ p.InOrder J := by
  obtain ⟨c₁, -, h⟩ := Option.bind_eq_some_iff.mp h
  obtain ⟨c₂, -, h⟩ := Option.bind_eq_some_iff.mp h
  obtain ⟨c₃, hc₃, h⟩ := Option.bind_eq_some_iff.mp h
  cases h
  obtain ⟨hall, htexts⟩ := Cut.latestSeq_messages hc₃
  rw [Phases.InOrder, Phases.received, latestSeq_append, hall, htexts]
  dsimp only
  rcases hbefore : latestSeq J c₃.before with _ | seq
  · rw [latestTextSeq_of_latestSeq hbefore]
    cases c₃.event.seq <;> simp [eq_comm]
  · cases c₃.event.seq <;> simp

/-! ### Later messages -/

section Later

variable {σ ρ : Type} {E : Parts τ υ σ} {d d' : ConnectionDriver σ ρ}

lemma lastSeq_heard (J : Serde τ υ) (k : Known) (message : WsMessage τ) :
    (heard J k message).lastSeq = (seqOf J message).or k.lastSeq := by
  cases message with
  | text text =>
    cases hevent : J.parseEventText text with
    | none => simp [heard, seqOf, eventOf, hevent]
    | some event =>
      simp only [heard, seqOf, eventOf, hevent, Option.elim_some]
      exact Known.lastSeq_hear J event _
  | _ => rfl

/-- The messages among some actions. -/
def messagesOf (actions : List (Action τ σ)) : List (WsMessage τ) :=
  actions.filterMap fun
    | .message message => some message
    | _ => none

lemma lastSeq_perform {action : Action τ σ} (h : d.perform E action = some d') :
    d'.state.lastSeq = (latestSeq E.serde (messagesOf [action])).or d.state.lastSeq := by
  rcases known_perform h with ⟨message, rfl, hknown⟩ | ⟨hother, hsame⟩
  · refine (congrArg Known.lastSeq hknown).trans ((lastSeq_heard _ _ _).trans ?_)
    rw [← latestSeq_singleton]
    rfl
  · rw [hsame]
    cases action with
    | message message => exact absurd rfl (hother message)
    | _ => rfl

lemma lastSeq_performAll {actions : List (Action τ σ)} (h : d.performAll E actions = some d') :
    d'.state.lastSeq = (latestSeq E.serde (messagesOf actions)).or d.state.lastSeq := by
  induction actions generalizing d with
  | nil =>
    cases h
    rfl
  | cons action actions ih =>
    obtain ⟨d₁, h₁, h₂⟩ := Option.bind_eq_some_iff.mp h
    have happend : messagesOf (action :: actions) = messagesOf [action] ++ messagesOf actions := by
      rw [messagesOf, messagesOf, messagesOf, ← List.filterMap_append, List.singleton_append]
    rw [ih h₂, lastSeq_perform h₁, happend, latestSeq_append, Option.or_assoc]

end Later

/-- Whether the number of a connection's state is, from the end of the set-up on, that of the most
recent message that has one. -/
def StaysLatest {σ ρ : Type} (E : Parts τ υ σ) (received : List (WsMessage τ))
    (d : ConnectionDriver σ ρ) (actions : List (Action τ σ)) : Prop :=
  ∀ done d', done <+: actions → d.performAll E done = some d' →
    d'.state.lastSeq = latestSeq E.serde (received ++ messagesOf done)

/-- **The number that heartbeats acknowledge.** -/
theorem staysLatest_iff {σ ρ : Type} (E : Parts τ υ σ) (config : ConnectionConfig)
    {d : ConnectionDriver σ ρ} (h : connect E.serde config read = .ok (d.state, rest))
    (actions : List (Action τ σ)) :
    ∃ p, phases E.serde read = some p ∧ read = p.received.map .ok ++ rest ∧
      (StaysLatest E p.received d actions ↔ p.InOrder E.serde) := by
  obtain ⟨p, hp, hread, hlast⟩ := connect_ok h
  refine ⟨p, hp, hread, ?_⟩
  rw [← latest_iff_inOrder hp, ← hlast]
  constructor
  · intro hstays
    have hnow := hstays [] d List.nil_prefix rfl
    rwa [messagesOf, List.filterMap_nil, List.append_nil] at hnow
  · intro hnow done d' _ hd'
    rw [lastSeq_performAll hd', hnow, latestSeq_append]

/-- A set-up is looked at through the number it ends with. -/
lemma exists_connected (reads : Reads (ParsedVoiceGatewayEvent Payload)) (seq : Option ℤ)
    (h : (connect plainSerde ⟨1, []⟩ reads).map (fun r => (r.1.lastSeq, r.2.length)) =
      .ok (seq, 0)) :
    ∃ state, connect plainSerde ⟨1, []⟩ reads = .ok (state, []) ∧ state.lastSeq = seq := by
  rcases hconnect : connect plainSerde ⟨1, []⟩ reads with error | ⟨state, rest⟩
  · rw [hconnect] at h
    cases h
  · rw [hconnect] at h
    obtain ⟨hlast, hrest⟩ := Prod.mk.inj (Except.ok.inj h)
    obtain rfl : rest = [] := List.eq_nil_of_length_eq_zero hrest
    exact ⟨state, rfl, hlast⟩

/-- A set-up in which an event without a number waits for the session description. -/
def inTurn : List (WsMessage (ParsedVoiceGatewayEvent Payload)) :=
  [.text ⟨Opcode.hello.code, none, .null⟩, .text ⟨Opcode.ready.code, some 4, .null⟩,
    .text ⟨Opcode.speaking.code, none, .speaking ⟨1, 7, some 9⟩⟩,
    .text ⟨Opcode.sessionDescription.code, some 6, .description plainDescription⟩]

theorem staysLatest_inTurn : ∃ d : ConnectionDriver Bool Unit,
    connect plainSerde ⟨1, []⟩ (inTurn.map .ok) = .ok (d.state, []) ∧
      StaysLatest plainParts inTurn d [.message (.binary [0, 7, 25]), .flush] := by
  obtain ⟨state, hconnect, -⟩ := exists_connected (inTurn.map .ok) (some 6)
    (by decide +kernel)
  refine ⟨⟨state, idlePipeline, plainDescription.transportCrypto⟩, hconnect, ?_⟩
  obtain ⟨p, hp, hread, hiff⟩ := staysLatest_iff plainParts ⟨1, []⟩
    (d := ⟨state, idlePipeline, plainDescription.transportCrypto⟩) hconnect
    [.message (.binary [0, 7, 25]), .flush]
  have hreceived : p.received = inTurn := by
    rw [List.append_nil] at hread
    exact (List.map_injective_iff.mpr (fun _ _ => Except.ok.inj) hread).symm
  rw [hreceived] at hiff
  refine hiff.mpr ?_
  have hinOrder : ∀ p ∈ phases plainSerde (inTurn.map .ok), p.InOrder plainSerde := by
    decide +kernel
  exact hinOrder p hp

/-- An event that waited for the session description sets the number back. -/
def setBack : List (WsMessage (ParsedVoiceGatewayEvent Payload)) :=
  [.text ⟨Opcode.hello.code, none, .null⟩, .text ⟨Opcode.ready.code, none, .null⟩,
    .text ⟨Opcode.speaking.code, some 5, .speaking ⟨1, 7, some 9⟩⟩,
    .text ⟨Opcode.sessionDescription.code, some 6, .description plainDescription⟩]

theorem replay_sets_back : ∃ d : ConnectionDriver Bool Unit,
    connect plainSerde ⟨1, []⟩ (setBack.map .ok) = .ok (d.state, []) ∧
      d.state.lastSeq = some 5 ∧ latestSeq plainSerde setBack = some 6 := by
  obtain ⟨state, hconnect, hlast⟩ := exists_connected (setBack.map .ok) (some 5)
    (by decide +kernel)
  refine ⟨⟨state, idlePipeline, plainDescription.transportCrypto⟩, hconnect, hlast, ?_⟩
  decide +kernel

end Cacophony.Connecting
