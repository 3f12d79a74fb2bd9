import Cacophony.Activation
import Cacophony.PumpProgress

/-!
How often the session gets what the gateway delivers.

Every event of a run has a number, its place in the history. The trace of a run knows which
deliveries the gateway state lists and which ones were handed to the session, so that a payload
handed over twice can be told from two payloads with the same bytes. The counter of the
coordinator and the lists of the gateway state can come apart in two ways: a new prepared epoch
sets the counter back although the lists stay, and a list that is emptied while DAVE is off
leaves the counter where it was.
-/

namespace Cacophony.Deliveries

open Runs Progs Gateway Coordinator Activation
open PumpProgress

variable {σ ε : Type}

/-- A run with its history. -/
structure Trace (σ : Type) where
  system : System σ
  history : List GatewayEvent := []
  -- the deliveries behind `proposals` and `pending_mls` of the gateway state
  listed : List ℕ := []
  pending : DaveMlsSlots ℕ := {}
  handedProposals : List ℕ := []
  handedMls : List ℕ := []
  -- the last pump came past the roster check
  passed : Bool := false

namespace Trace

/-- The deliveries listed after an event: the list only grows at its end, or is emptied. -/
def relist (t : Trace σ) (e : GatewayEvent) : List ℕ :=
  match e with
  | .proposals _ => t.listed ++ [t.history.length]
  | _ => if (handle t.system.gateway e).proposals = [] then [] else t.listed

/-- The deliveries pending after an event: a slot is kept, emptied, or set to a new message. -/
def repend (t : Trace σ) (e : GatewayEvent) : DaveMlsSlots ℕ :=
  let gateway := handle t.system.gateway e
  let kept : DaveMlsSlots ℕ :=
    { commit := if gateway.pendingMls.commit.isSome then t.pending.commit else none
      welcome := if gateway.pendingMls.welcome.isSome then t.pending.welcome else none }
  match e with
  | .mlsMessage m => kept.set m.identity.kind t.history.length
  | _ => kept

variable (S : Session σ ε)

/-- A step of the driver. The loop over the proposals of a pump that succeeds runs to the end of
the list, so the payloads it hands over are the last ones. -/
def step (t : Trace σ) (i : Input) : Trace σ :=
  let system := t.system.step S i
  let done := progress (follow S t.system i).2
  let listed := t.relist i.event
  let pending := t.repend i.event
  { system, listed, pending
    history := t.history ++ [i.event]
    handedProposals :=
      t.handedProposals ++ listed.drop (listed.length - done.payloads.length)
    handedMls := t.handedMls ++ done.messages.filterMap fun m => pending.get m.identity.kind
    passed := system.gateway.protocolVersion.getD 0 ≠ 0 && system.coord.externalSenderSet &&
      (i.rosterAuthoritative ||
        system.gateway.proposals.length ≤ system.coord.processedProposals) }

end Trace

def handedPayload? : Happening → Option Bytes
  | .action a => payload? a
  | .event _ => none

def handedMessage? : Happening → Option PendingDaveMlsMessage
  | .action a => message? a
  | .event _ => none

/-- The numbers `ns` stand for the events `es` of the history. -/
def Named (history : List GatewayEvent) (ns : List ℕ) (es : List GatewayEvent) : Prop :=
  ns.map (history[·]?) = es.map some

/-- The session got every payload and every message at most once, the payloads in the order of
their arrival, and the last pump left no payload behind if it came past the roster check. The
first two fields say that the numbers stand for what the session got. -/
structure Consumed (t : Trace σ) : Prop where
  payloads : Named t.history t.handedProposals
    ((t.system.log.filterMap handedPayload?).map .proposals)
  messages : Named t.history t.handedMls ((t.system.log.filterMap handedMessage?).map .mlsMessage)
  increasing : t.handedProposals.Pairwise (· < ·)
  nodup : t.handedMls.Nodup
  complete : t.passed = true → ∀ n ∈ t.listed, n ∈ t.handedProposals

/-- The coordinator follows a prepared epoch that it did not follow before. -/
def NewEpoch (coord : DaveCoordinator σ) (dave : DaveInternalState) : Prop :=
  DavePreparedEpoch.fromState dave ≠ none ∧
    coord.preparedEpoch ≠ DavePreparedEpoch.fromState dave

instance (coord : DaveCoordinator σ) (dave : DaveInternalState) :
    Decidable (NewEpoch coord dave) := inferInstanceAs (Decidable (_ ∧ _))

/-- A new prepared epoch finds nothing listed or pending that was handed over before. -/
def StartsAfresh (t : Trace σ) (i : Input) : Prop :=
  NewEpoch t.system.coord (handle t.system.gateway i.event) →
    (∀ n ∈ t.relist i.event, n ∉ t.handedProposals) ∧
      ∀ n ∈ (t.repend i.event).welcomeThenCommit, n ∉ t.handedMls

/-- DAVE that is switched on without a new prepared epoch finds a list that is shorter than the
counter, or as many payloads that were handed over before as it counts. -/
def ResumesCount (t : Trace σ) (i : Input) : Prop :=
  ¬ NewEpoch t.system.coord (handle t.system.gateway i.event) →
    t.system.gateway.protocolVersion.getD 0 = 0 →
    (handle t.system.gateway i.event).protocolVersion.getD 0 ≠ 0 →
    t.system.coord.processedProposals ≤ (t.relist i.event).length →
      t.system.coord.processedProposals =
        ((t.relist i.event).filter (· ∈ t.handedProposals)).length

instance (t : Trace σ) (i : Input) : Decidable (StartsAfresh t i) :=
  inferInstanceAs (Decidable (_ → _ ∧ _))

instance (t : Trace σ) (i : Input) : Decidable (ResumesCount t i) :=
  inferInstanceAs (Decidable (_ → _ → _ → _ → _))

/-! ### Numbers -/

section Named

variable {history new : List GatewayEvent} {ns ms : List ℕ} {es fs : List GatewayEvent}

lemma Named.length_eq (h : Named history ns es) : ns.length = es.length := by
  simpa using congrArg List.length h

lemma Named.lt (h : Named history ns es) {n : ℕ} (hn : n ∈ ns) : n < history.length := by
  have hmem : history[n]? ∈ es.map some := by
    rw [← h]
    exact List.mem_map_of_mem hn
  obtain ⟨e, -, he⟩ := List.mem_map.mp hmem
  exact (List.getElem?_eq_some_iff.mp he.symm).1

/-- The history only grows. -/
lemma Named.grow (h : Named history ns es) : Named (history ++ new) ns es := by
  rw [Named, ← h]
  refine List.map_congr_left fun n hn => ?_
  exact List.getElem?_append_left (h.lt hn)

lemma Named.append (h : Named history ns es) (h' : Named history ms fs) :
    Named history (ns ++ ms) (es ++ fs) := by
  rw [Named, List.map_append, List.map_append, h, h']

lemma Named.drop (h : Named history ns es) (k : ℕ) :
    Named history (ns.drop k) (es.drop k) := by
  rw [Named, List.map_drop, h, List.map_drop]

lemma named_nil : Named history [] [] := rfl

lemma named_last (e : GatewayEvent) : Named (history ++ [e]) [history.length] [e] := by
  simp [Named]

end Named

/-! ### The lists after an event -/

/-- The lists of `s'` are those of `s`, or both are empty. -/
def KeptOrCleared (s s' : DaveInternalState) : Prop :=
  (s'.proposals = s.proposals ∧ s'.pendingMls = s.pendingMls) ∨
    (s'.proposals = [] ∧ s'.pendingMls = {})

lemma keptOrCleared_ite (s : DaveInternalState) (c : Prop) [Decidable c] :
    KeptOrCleared s (if c then s.clearPendingMls else s) := by
  split
  · exact .inr ⟨rfl, rfl⟩
  · exact .inl ⟨rfl, rfl⟩

lemma KeptOrCleared.ite_execute {s s' : DaveInternalState} (h : KeptOrCleared s s') (c : Prop)
    [Decidable c] (t : UInt16) : KeptOrCleared s (if c then s'.executeTransition t else s') := by
  split
  · exact .inr ⟨rfl, rfl⟩
  · exact h

lemma keptOrCleared_prepareTransition (s : DaveInternalState) (t v : UInt16) :
    KeptOrCleared s (s.prepareTransition t v) := by
  refine KeptOrCleared.ite_execute ?_ _ t
  exact keptOrCleared_ite s (s.transitionId ≠ some t)

lemma keptOrCleared_setSessionProtocol (s : DaveInternalState) (v : Option UInt16) :
    KeptOrCleared s (s.setSessionProtocol v) := by
  unfold DaveInternalState.setSessionProtocol
  dsimp only
  split <;> exact keptOrCleared_ite s (s.phase.protocol ≠ .fromGateway v)

/-- The events that deliver nothing to the lists. -/
lemma keptOrCleared_handle (s : DaveInternalState) {e : GatewayEvent}
    (hp : ∀ p, e ≠ .proposals p) (hm : ∀ m, e ≠ .mlsMessage m) :
    KeptOrCleared s (handle s e) := by
  cases e with
  | sessionDescription v => exact keptOrCleared_setSessionProtocol s v
  | prepareTransition t v => exact keptOrCleared_prepareTransition s t v
  | prepareEpoch v e => exact keptOrCleared_ite s (e = 1 ∨ s.epoch ≠ some e)
  | executeTransition t => exact .inr ⟨rfl, rfl⟩
  | mlsMessage m => exact absurd rfl (hm m)
  | proposals p => exact absurd rfl (hp p)
  | externalSender p => exact .inl ⟨rfl, rfl⟩

lemma proposals_handle (s : DaveInternalState) {e : GatewayEvent} (hp : ∀ p, e ≠ .proposals p) :
    (handle s e).proposals = s.proposals ∨ (handle s e).proposals = [] := by
  by_cases hm : ∃ m, e = .mlsMessage m
  · obtain ⟨m, rfl⟩ := hm
    rcases keptOrCleared_ite s (s.transitionId ≠ some m.identity.transitionId) with h | h
    · exact .inl h.1
    · exact .inr h.1
  · rcases keptOrCleared_handle s hp fun m h => hm ⟨m, h⟩ with h | h
    · exact .inl h.1
    · exact .inr h.1

/-- A slot is kept or emptied, unless the event is a message for it. -/
lemma pendingMls_handle (s : DaveInternalState) (e : GatewayEvent) (kind : DaveMlsMessageKind) :
    (∃ m, e = .mlsMessage m ∧ m.identity.kind = kind ∧
        (handle s e).pendingMls.get kind = some m) ∨
      (∀ m, e = .mlsMessage m → m.identity.kind ≠ kind) ∧
        ((handle s e).pendingMls.get kind = s.pendingMls.get kind ∨
          (handle s e).pendingMls.get kind = none) := by
  by_cases hm : ∃ m, e = .mlsMessage m
  · obtain ⟨m, rfl⟩ := hm
    have hset : (handle s (.mlsMessage m)).pendingMls.get kind =
        if kind = m.identity.kind then some m else
          (if s.transitionId ≠ some m.identity.transitionId then s.clearPendingMls
            else s).pendingMls.get kind := get_set _ _ _ _
    by_cases hkind : kind = m.identity.kind
    · exact .inl ⟨m, rfl, hkind.symm, by rw [hset, if_pos hkind]⟩
    · refine .inr ⟨fun m' h => ?_, ?_⟩
      · cases h
        exact Ne.symm hkind
      · rw [hset, if_neg hkind]
        rcases keptOrCleared_ite s (s.transitionId ≠ some m.identity.transitionId) with h | h
        · exact .inl (by rw [h.2])
        · exact .inr (by rw [h.2]; cases kind <;> rfl)
  · refine .inr ⟨fun m h => absurd ⟨m, h⟩ hm, ?_⟩
    by_cases hp : ∃ p, e = .proposals p
    · obtain ⟨p, rfl⟩ := hp
      exact .inl rfl
    · rcases keptOrCleared_handle s (fun p h => hp ⟨p, h⟩) fun m h => hm ⟨m, h⟩ with h | h
      · exact .inl (by rw [h.2])
      · exact .inr (by rw [h.2]; cases kind <;> rfl)

/-! ### What holds between two steps -/

/-- The numbers of the trace, and what they stand for. -/
structure Numbered (t : Trace σ) : Prop where
  listed : Named t.history t.listed (t.system.gateway.proposals.map .proposals)
  pending : ∀ kind, Named t.history (t.pending.get kind).toList
    ((t.system.gateway.pendingMls.get kind).toList.map .mlsMessage)
  filed : Filed t.system.gateway.pendingMls
  sorted : t.listed.Pairwise (· < ·)

/-- The trace with the next event, before the pump. -/
def Trace.receive (t : Trace σ) (e : GatewayEvent) : Trace σ :=
  { t with
    system := { t.system with
      gateway := handle t.system.gateway e
      log := t.system.log ++ [.event e] }
    history := t.history ++ [e]
    listed := t.relist e
    pending := t.repend e }

variable {t : Trace σ} {e : GatewayEvent} {ms : List PendingDaveMlsMessage}
  {kind : DaveMlsMessageKind} {m : PendingDaveMlsMessage}

/-- The gateway state after an event. -/
abbrev Trace.told (t : Trace σ) (e : GatewayEvent) : DaveInternalState :=
  handle t.system.gateway e

/-- The list grows at its end, stays, or is emptied. -/
lemma relist_cases (t : Trace σ) (e : GatewayEvent) :
    (∃ p, e = .proposals p ∧ t.relist e = t.listed ++ [t.history.length] ∧
        (t.told e).proposals = t.system.gateway.proposals ++ [p]) ∨
      (t.relist e = t.listed ∧
        (t.told e).proposals = t.system.gateway.proposals) ∨
      (t.relist e = [] ∧ (t.told e).proposals = []) := by
  by_cases hp : ∃ p, e = .proposals p
  · obtain ⟨p, rfl⟩ := hp
    exact .inl ⟨p, rfl, rfl, rfl⟩
  · have hrelist : t.relist e =
        if (t.told e).proposals = [] then [] else t.listed := by
      unfold Trace.relist
      split
      · exact absurd ⟨_, rfl⟩ hp
      · rfl
    rw [hrelist]
    right
    by_cases hnil : (t.told e).proposals = []
    · exact .inr ⟨if_pos hnil, hnil⟩
    · rcases proposals_handle t.system.gateway fun p h => hp ⟨p, h⟩ with hkept | hclear
      · exact .inl ⟨if_neg hnil, hkept⟩
      · exact absurd hclear hnil

lemma Numbered.listed_receive (h : Numbered t) (e : GatewayEvent) :
    Named (t.history ++ [e]) (t.relist e)
        ((t.told e).proposals.map .proposals) ∧
      (t.relist e).Pairwise (· < ·) := by
  rcases relist_cases t e with ⟨p, rfl, hl, hp⟩ | ⟨hl, hp⟩ | ⟨hl, hp⟩
  · rw [hl, hp, List.map_append]
    refine ⟨h.listed.grow.append (named_last _), List.pairwise_append.mpr ?_⟩
    refine ⟨h.sorted, List.pairwise_singleton _ _, fun a ha b hb => ?_⟩
    rw [List.mem_singleton.mp hb]
    exact h.listed.lt ha
  · rw [hl, hp]
    exact ⟨h.listed.grow, h.sorted⟩
  · rw [hl, hp]
    exact ⟨named_nil, .nil⟩

/-- A slot of numbers follows the slot of messages. -/
lemma get_repend (t : Trace σ) (e : GatewayEvent) (kind : DaveMlsMessageKind) :
    (∃ m, e = .mlsMessage m ∧ m.identity.kind = kind ∧
        (t.told e).pendingMls.get kind = some m ∧
        (t.repend e).get kind = some t.history.length) ∨
      ((t.told e).pendingMls.get kind = t.system.gateway.pendingMls.get kind ∧
        (t.system.gateway.pendingMls.get kind).isSome ∧
        (t.repend e).get kind = t.pending.get kind) ∨
      ((t.told e).pendingMls.get kind = none ∧ (t.repend e).get kind = none) := by
  have hkept (hm : ∀ m, e = .mlsMessage m → m.identity.kind ≠ kind) : (t.repend e).get kind =
      if ((t.told e).pendingMls.get kind).isSome then t.pending.get kind
      else none := by
    unfold Trace.repend
    dsimp only
    split
    next m =>
      rw [get_set, if_neg (hm m rfl).symm]
      cases kind <;> rfl
    next => cases kind <;> rfl
  rcases pendingMls_handle t.system.gateway e kind with ⟨m, rfl, hk, hget⟩ | ⟨hm, hget⟩
  · refine .inl ⟨m, rfl, hk, hget, ?_⟩
    unfold Trace.repend
    dsimp only
    rw [get_set, if_pos hk.symm]
  · rw [hkept hm]
    by_cases hsome : ((t.told e).pendingMls.get kind).isSome
    · rw [if_pos hsome]
      rcases hget with hget | hget
      · exact .inr (.inl ⟨hget, hget ▸ hsome, rfl⟩)
      · simp [hget] at hsome
    · rw [if_neg hsome]
      exact .inr (.inr ⟨by simpa using hsome, rfl⟩)

theorem Numbered.receive (h : Numbered t) (e : GatewayEvent) : Numbered (t.receive e) where
  listed := (h.listed_receive e).1
  sorted := (h.listed_receive e).2
  pending := by
    intro kind
    unfold Trace.receive
    dsimp only
    rcases get_repend t e kind with ⟨m, rfl, -, hget, hnum⟩ | ⟨hget, -, hnum⟩ | ⟨hget, hnum⟩
    · rw [hget, hnum]
      exact named_last _
    · rw [hget, hnum]
      exact (h.pending kind).grow
    · rw [hget, hnum]
      exact named_nil
  filed := by
    intro kind m' hm'
    have hget' : (t.told e).pendingMls.get kind = some m' := hm'
    rcases get_repend t e kind with ⟨m, -, hk, hget, -⟩ | ⟨hget, -, -⟩ | ⟨hget, -⟩
    · rw [hget] at hget'
      rw [← Option.some.inj hget', hk]
    · exact h.filed kind m' (hget ▸ hget')
    · rw [hget] at hget'
      cases hget'

/-! ### The counter -/

/-- The handed deliveries of `listed` are its first ones, `done`. -/
structure Split (handed listed done rest : List ℕ) : Prop where
  listed_eq : listed = done ++ rest
  mem_handed : ∀ n ∈ done, n ∈ handed
  fresh : ∀ n ∈ rest, ∀ m ∈ handed, m < n

lemma Split.mem_all {handed listed done rest : List ℕ} (h : Split handed listed done rest) :
    ∀ n ∈ listed, n ∈ handed ++ rest := by
  intro n hn
  rw [h.listed_eq] at hn
  rcases List.mem_append.mp hn with hn | hn
  · exact List.mem_append_left _ (h.mem_handed n hn)
  · exact List.mem_append_right _ hn

lemma Split.filter_eq {handed listed done rest : List ℕ} (h : Split handed listed done rest) :
    listed.filter (· ∈ handed) = done := by
  rw [h.listed_eq, List.filter_append, List.filter_eq_self.mpr (by simpa using h.mem_handed),
    List.filter_eq_nil_iff.mpr, List.append_nil]
  intro n hn
  simpa using fun hmem => (h.fresh n hn n hmem).false

/-- What holds between two steps: the counter is the number of listed payloads that were handed
over, or DAVE is off and it counts payloads of an older list; every message that was handed over
and is still pending has its copy. -/
structure Ready (t : Trace σ) : Prop where
  numbered : Numbered t
  counted : ∃ done rest, Split t.handedProposals t.listed done rest ∧
    (t.system.coord.processedProposals = done.length ∨
      (t.system.gateway.protocolVersion.getD 0 = 0 ∧ done = []))
  unset : t.system.coord.externalSenderSet = false → t.system.coord.processedProposals = 0
  copied : ∀ kind m n, t.system.gateway.pendingMls.get kind = some m →
    t.pending.get kind = some n → n ∈ t.handedMls →
      t.system.coord.processedMls.get kind = some m

/-- The progress a pump starts with. -/
def start (coord : DaveCoordinator σ) : Progress := progress { coord := coord }

/-- The progress once the pump behind an event knows of its prepared epoch. -/
abbrev Trace.begins (t : Trace σ) (e : GatewayEvent) : Progress :=
  (start t.system.coord).sync (t.told e)

lemma sync_start (coord : DaveCoordinator σ) (dave : DaveInternalState) :
    (NewEpoch coord dave ∧ ((start coord).sync dave).processedProposals = 0 ∧
        ((start coord).sync dave).processedMls = {}) ∨
      (¬ NewEpoch coord dave ∧
        ((start coord).sync dave).processedProposals = coord.processedProposals ∧
        ((start coord).sync dave).processedMls = coord.processedMls) := by
  unfold Progress.sync NewEpoch
  by_cases hsame : coord.preparedEpoch = DavePreparedEpoch.fromState dave
  · refine .inr ⟨fun h => h.2 hsame, ?_⟩
    rw [if_pos (show (start coord).preparedEpoch = _ from hsame)]
    exact ⟨rfl, rfl⟩
  · rw [if_neg (show ¬ (start coord).preparedEpoch = _ from hsame)]
    rcases hp : DavePreparedEpoch.fromState dave with _ | p
    · exact .inr ⟨fun h => h.1 rfl, rfl, rfl⟩
    · exact .inl ⟨⟨by simp, hp ▸ hsame⟩, rfl, rfl⟩

/-- Without an external sender the pump starts to count anew. -/
lemma Ready.sync_unset (h : Ready t) {dave : DaveInternalState}
    (hset : t.system.coord.externalSenderSet = false ∨
      ((start t.system.coord).sync dave).processedProposals = 0) :
    ((start t.system.coord).sync dave).processedProposals = 0 := by
  rcases hset with hset | hzero
  · rcases sync_start t.system.coord dave with ⟨-, hzero, -⟩ | ⟨-, hkeep, -⟩
    · exact hzero
    · rw [hkeep]
      exact h.unset hset
  · exact hzero

lemma Ready.length_relist (h : Ready t) (event : GatewayEvent) :
    (t.relist event).length = (t.told event).proposals.length := by
  have hlen := (h.numbered.receive event).listed.length_eq
  rwa [List.length_map] at hlen

/-- The list after an event, split where the pump begins to read it. -/
lemma Ready.split_relist {i : Input} (h : Ready t) (hc : Consumed t) (ha : StartsAfresh t i)
    (hr : ResumesCount t i) :
    ∃ done rest, Split t.handedProposals (t.relist i.event) done rest ∧
      ((t.begins i.event).processedProposals =
          done.length ∨
        done = [] ∧ ((t.told i.event).protocolVersion.getD 0 = 0 ∨
          (t.relist i.event).length < (t.begins i.event).processedProposals)) := by
  obtain ⟨done, rest, hsplit, hcount⟩ := h.counted
  -- the split of the new list
  have hnew : ∃ done' rest', Split t.handedProposals (t.relist i.event) done' rest' ∧
      (done' = done ∨ t.relist i.event = []) := by
    rcases relist_cases t i.event with ⟨p, -, hl, -⟩ | ⟨hl, -⟩ | ⟨hl, -⟩
    · refine ⟨done, rest ++ [t.history.length],
        ⟨?_, hsplit.mem_handed, fun n hn m hm => ?_⟩, .inl rfl⟩
      · rw [hl, hsplit.listed_eq, List.append_assoc]
      · rcases List.mem_append.mp hn with hn | hn
        · exact hsplit.fresh n hn m hm
        · rw [List.mem_singleton.mp hn]
          exact hc.payloads.lt hm
    · exact ⟨done, rest, ⟨hl.trans hsplit.listed_eq, hsplit.mem_handed, hsplit.fresh⟩, .inl rfl⟩
    · exact ⟨[], [], ⟨hl, by simp, by simp⟩, .inr hl⟩
  obtain ⟨done', rest', hsplit', hdone⟩ := hnew
  refine ⟨done', rest', hsplit', ?_⟩
  rcases sync_start t.system.coord (t.told i.event) with
    ⟨hepoch, hzero, -⟩ | ⟨hold, hkeep, -⟩
  · -- nothing listed was handed over before
    left
    have hnil : done' = [] := by
      refine List.eq_nil_iff_forall_not_mem.mpr fun n hn =>
        (ha hepoch).1 n ?_ (hsplit'.mem_handed n hn)
      rw [hsplit'.listed_eq]
      exact List.mem_append_left _ hn
    rw [hzero, hnil, List.length_nil]
  rw [hkeep]
  rcases hdone with rfl | hempty
  · rcases hcount with hcount | ⟨hoff, rfl⟩
    · exact .inl hcount
    by_cases hon : (t.told i.event).protocolVersion.getD 0 = 0
    · exact .inr ⟨rfl, .inl hon⟩
    · rcases Nat.lt_or_ge (t.relist i.event).length t.system.coord.processedProposals with hlt | hle
      · exact .inr ⟨rfl, .inr hlt⟩
      · left
        rw [hr hold hoff hon hle, hsplit'.filter_eq]
  · have hnil : done' = [] := by
      have := hsplit'.listed_eq
      rw [hempty] at this
      exact (List.append_eq_nil_iff.mp this.symm).1
    rcases Nat.eq_zero_or_pos t.system.coord.processedProposals with hzero | hpos
    · exact .inl (by rw [hzero, hnil, List.length_nil])
    · exact .inr ⟨hnil, .inr (by rw [hempty]; exact hpos)⟩

/-! ### The messages -/

lemma mem_welcomeThenCommit_of_get {α : Type} {slots : DaveMlsSlots α} {x : α}
    (h : slots.get kind = some x) : x ∈ slots.welcomeThenCommit := by
  cases kind
  · exact mem_welcomeThenCommit.mpr (.inr h)
  · exact mem_welcomeThenCommit.mpr (.inl h)

lemma get_of_mem_welcomeThenCommit {slots : DaveMlsSlots PendingDaveMlsMessage} (h : Filed slots)
    (hm : m ∈ slots.welcomeThenCommit) : slots.get m.identity.kind = some m := by
  rcases mem_welcomeThenCommit.mp hm with hm | hm
  · rw [h .welcome m hm]
    exact hm
  · rw [h .commit m hm]
    exact hm

/-- The copies that the pump finds. -/
lemma Ready.copied_receive {i : Input} (h : Ready t) (hc : Consumed t) (ha : StartsAfresh t i)
    {n : ℕ} (hm : (t.told i.event).pendingMls.get kind = some m)
    (hn : (t.repend i.event).get kind = some n) (hmem : n ∈ t.handedMls) :
    (t.begins i.event).processedMls.get kind =
      some m := by
  rcases sync_start t.system.coord (t.told i.event) with
    ⟨hepoch, -, -⟩ | ⟨-, -, hkeep⟩
  · exact absurd hmem ((ha hepoch).2 n (mem_welcomeThenCommit_of_get hn))
  rw [hkeep]
  rcases get_repend t i.event kind with ⟨_, -, -, -, hnum⟩ | ⟨hget, -, hnum⟩ | ⟨hget, -⟩
  · rw [hnum] at hn
    rw [← Option.some.inj hn] at hmem
    exact absurd (hc.messages.lt hmem) (Nat.lt_irrefl _)
  · exact h.copied kind m n (hget ▸ hm) (hnum ▸ hn) hmem
  · rw [hget] at hm
    cases hm

/-- The numbers of pending messages. -/
lemma Numbered.named_messages (h : Numbered t)
    (hms : ∀ m ∈ ms, m ∈ t.system.gateway.pendingMls.welcomeThenCommit) :
    Named t.history (ms.filterMap fun m => t.pending.get m.identity.kind)
      (ms.map .mlsMessage) := by
  induction ms with
  | nil => exact named_nil
  | cons m ms ih =>
    have hget := get_of_mem_welcomeThenCommit h.filed (hms m List.mem_cons_self)
    have hpend := h.pending m.identity.kind
    rw [hget] at hpend
    obtain ⟨n, hn⟩ : ∃ n, t.pending.get m.identity.kind = some n := by
      rcases hnone : t.pending.get m.identity.kind with _ | n
      · simpa [hnone] using hpend.length_eq
      · exact ⟨n, rfl⟩
    rw [hn] at hpend
    simp only [List.filterMap_cons, hn, List.map_cons]
    exact hpend.append (ih fun b hb => hms b (List.mem_cons_of_mem m hb))

lemma Named.nodup {history : List GatewayEvent} {ns : List ℕ} {es : List GatewayEvent}
    (h : Named history ns es) (hes : es.Nodup) : ns.Nodup := by
  have hmap : (ns.map (history[·]?)).Nodup := by
    rw [h]
    exact hes.map (Option.some_injective _)
  exact hmap.of_map

lemma OfKinds.nodup (h : OfKinds ms) : (ms.map GatewayEvent.mlsMessage).Nodup := by
  have hinj : Function.Injective GatewayEvent.mlsMessage := fun a b hab => by
    cases hab
    rfl
  refine List.Nodup.map hinj (h.imp fun {a b} hab heq => hab ?_)
  rw [heq]

/-! ### One step -/

section Step

variable (S : Session σ ε) {i : Input}

lemma follow_progress (h : Succeeds S t.system i) :
    ∃ b, progress (follow S t.system i).2 =
        (start t.system.coord).pump (t.told i.event) i.rosterAuthoritative b ∧
      (b = false → t.system.coord.externalSenderSet = false ∨
        (t.begins i.event).processedProposals = 0) := by
  have heffects : Keeps progress
      (applyGatewayEffects S (plaintextReceiveGrace t.system.gateway i.event)) := by
    unfold applyGatewayEffects
    split
    · exact keeps_of_makes (PumpMoves.makes_allowPlaintextReceiveGrace S [.mode] (by decide))
        (by decide)
    · exact keeps_pure _
  exact (heffects.bind fun _ => moves_pump S (t.told i.event) i.connectedUserIds
    i.rosterAuthoritative) _ () _ (Prod.ext h rfl)

lemma log_step (t : Trace σ) (i : Input) :
    (t.step S i).system.log.filterMap handedPayload? =
        t.system.log.filterMap handedPayload? ++ (progress (follow S t.system i).2).payloads ∧
      (t.step S i).system.log.filterMap handedMessage? =
        t.system.log.filterMap handedMessage? ++ (progress (follow S t.system i).2).messages := by
  simp only [Trace.step, System.step, List.filterMap_append, List.filterMap_cons, handedPayload?,
    handedMessage?, List.filterMap_map]
  exact ⟨rfl, rfl⟩

/-- The pump leaves the numbers of the event as they are. -/
lemma Numbered.step (h : Numbered t) (i : Input) : Numbered (t.step S i) :=
  ⟨(h.receive i.event).listed, (h.receive i.event).pending, (h.receive i.event).filed,
    (h.receive i.event).sorted⟩

/-- A pump that takes nothing. -/
lemma step_idle {done rest : List ℕ} (h : Ready t) (hc : Consumed t) (ha : StartsAfresh t i)
    (hsplit : Split t.handedProposals (t.relist i.event) done rest)
    {v : Progress} (hv : progress (follow S t.system i).2 = v) (hp : v.payloads = [])
    (hm : v.messages = []) (hmls : v.processedMls =
      (t.begins i.event).processedMls)
    (hcount : v.processedProposals = done.length ∨
      ((t.told i.event).protocolVersion.getD 0 = 0 ∧ done = []))
    (hunset : v.externalSenderSet = false → v.processedProposals = 0)
    (hpassed : (t.step S i).passed = false) : Ready (t.step S i) ∧ Consumed (t.step S i) := by
  have hprop : (t.step S i).handedProposals = t.handedProposals := by
    simp [Trace.step, hv, hp]
  have hmsg : (t.step S i).handedMls = t.handedMls := by
    simp [Trace.step, hv, hm]
  obtain ⟨hlogp, hlogm⟩ := log_step S t i
  rw [hv, hp, List.append_nil] at hlogp
  rw [hv, hm, List.append_nil] at hlogm
  refine ⟨⟨h.numbered.step S i, ⟨done, rest, ?_, ?_⟩, ?_, ?_⟩, ?_, ?_, ?_, ?_, ?_⟩
  · rw [hprop]
    exact hsplit
  · rw [← hv] at hcount
    exact hcount
  · rw [← hv] at hunset
    exact hunset
  · intro kind m n hget hnum hmem
    rw [hmsg] at hmem
    have := h.copied_receive hc ha hget hnum hmem
    rw [← hmls, ← hv] at this
    exact this
  · rw [hlogp, hprop]
    exact hc.payloads.grow
  · rw [hlogm, hmsg]
    exact hc.messages.grow
  · rw [hprop]
    exact hc.increasing
  · rw [hmsg]
    exact hc.nodup
  · intro htrue
    rw [hpassed] at htrue
    cases htrue

/-- A pump that takes all that is left. -/
lemma step_all {done rest : List ℕ} (h : Ready t) (hc : Consumed t) (ha : StartsAfresh t i)
    (hsplit : Split t.handedProposals (t.relist i.event) done rest)
    {v : Progress} (hv : progress (follow S t.system i).2 = v)
    (hp : v.payloads = (t.told i.event).proposals.drop done.length)
    (hm : v.messages = (t.told i.event).pendingMls.welcomeThenCommit.filter
      fun m => (t.begins i.event).processedMls.get m.identity.kind ≠ some m)
    (hmls : ∀ m ∈ (t.told i.event).pendingMls.welcomeThenCommit,
      v.processedMls.get m.identity.kind = some m)
    (hcount : v.processedProposals = (t.told i.event).proposals.length)
    (hset : v.externalSenderSet = true) : Ready (t.step S i) ∧ Consumed (t.step S i) := by
  have hnum := h.numbered.receive i.event
  have hlen := h.length_relist i.event
  have hdone : done.length ≤ (t.relist i.event).length := by
    rw [hsplit.listed_eq, List.length_append]
    exact Nat.le_add_right _ _
  have hrest : (t.relist i.event).drop done.length = rest := by
    rw [hsplit.listed_eq, List.drop_left]
  have hprop : (t.step S i).handedProposals = t.handedProposals ++ rest := by
    have hdrop : (t.relist i.event).length - v.payloads.length = done.length := by
      rw [hp, List.length_drop, ← hlen]
      omega
    simp only [Trace.step, hv, hdrop, hrest]
  have hmsg : (t.step S i).handedMls = t.handedMls ++
      v.messages.filterMap fun m => (t.repend i.event).get m.identity.kind := by
    simp only [Trace.step, hv]
  have hsub : ∀ m ∈ v.messages,
      m ∈ (t.told i.event).pendingMls.welcomeThenCommit := by
    rw [hm]
    exact fun m hmem => (List.mem_filter.mp hmem).1
  have hnamed : Named (t.history ++ [i.event])
      (v.messages.filterMap fun m => (t.repend i.event).get m.identity.kind)
      (v.messages.map .mlsMessage) := hnum.named_messages hsub
  obtain ⟨hlogp, hlogm⟩ := log_step S t i
  rw [hv] at hlogp hlogm
  have hall : ∀ n ∈ t.relist i.event, n ∈ (t.step S i).handedProposals := by
    intro n hn
    rw [hprop]
    exact hsplit.mem_all n hn
  refine ⟨⟨h.numbered.step S i, ⟨t.relist i.event, [], ⟨?_, hall, ?_⟩, .inl ?_⟩, ?_, ?_⟩,
    ?_, ?_, ?_, ?_, fun _ => hall⟩
  · exact (List.append_nil _).symm
  · simp
  · rw [hlen, ← hcount, ← hv]
    rfl
  · rw [← hv] at hset
    intro hfalse
    exact absurd (hset.symm.trans hfalse) (by decide)
  · intro kind m n hget _ _
    have hm' := hmls m (mem_welcomeThenCommit_of_get hget)
    rw [hnum.filed kind m hget, ← hv] at hm'
    exact hm'
  · rw [hlogp, hprop, List.map_append, hp, ← hrest]
    refine hc.payloads.grow.append ?_
    rw [List.map_drop]
    exact hnum.listed.drop _
  · rw [hlogm, hmsg, List.map_append]
    exact hc.messages.grow.append hnamed
  · rw [hprop]
    refine List.pairwise_append.mpr ⟨hc.increasing, ?_, fun m hm n hn => hsplit.fresh n hn m hm⟩
    rw [← hrest]
    exact hnum.sorted.sublist (List.drop_sublist _ _)
  · rw [hmsg]
    refine List.Nodup.append hc.nodup (hnamed.nodup (OfKinds.nodup ?_)) ?_
    · rw [hm]
      exact hnum.filed.ofKinds.filter _
    · -- a message with a number that was handed over before has its copy
      intro n hn hnew
      obtain ⟨m, hmem, hget⟩ := List.mem_filterMap.mp hnew
      have hslot := get_of_mem_welcomeThenCommit hnum.filed (hsub m hmem)
      have hcopy := h.copied_receive hc ha hslot hget hn
      rw [hm, List.mem_filter] at hmem
      simp [hcopy] at hmem

lemma passed_step (t : Trace σ) (i : Input) :
    (t.step S i).passed = (decide ((t.told i.event).protocolVersion.getD 0 ≠ 0) &&
      (progress (follow S t.system i).2).externalSenderSet && (i.rosterAuthoritative ||
        decide ((t.told i.event).proposals.length ≤
          (progress (follow S t.system i).2).processedProposals))) := rfl

lemma sync_start_handed (coord : DaveCoordinator σ) (dave : DaveInternalState) :
    ((start coord).sync dave).payloads = [] ∧ ((start coord).sync dave).messages = [] := by
  unfold Progress.sync
  split
  · exact ⟨rfl, rfl⟩
  · split <;> exact ⟨rfl, rfl⟩

/-- **One step.** -/
theorem Ready.step (h : Ready t) (hc : Consumed t) (hs : Succeeds S t.system i)
    (ha : StartsAfresh t i) (hr : ResumesCount t i) :
    Ready (t.step S i) ∧ Consumed (t.step S i) := by
  obtain ⟨done, rest, hsplit, hcount⟩ := h.split_relist hc ha hr
  obtain ⟨b, hv, hb⟩ := follow_progress S hs
  obtain ⟨hpay, hmes⟩ := sync_start_handed t.system.coord (t.told i.event)
  have hunset (hfalse : b = false) := h.sync_unset (hb hfalse)
  dsimp only [Trace.begins] at hcount
  unfold Progress.pump at hv
  dsimp only at hv
  split at hv
  next hidle =>
    refine step_idle S h hc ha hsplit hv hpay hmes rfl ?_ hunset ?_
    · rcases hcount with hcount | ⟨hnil, hoff | hlt⟩
      · exact .inl hcount
      · exact .inr ⟨hoff, hnil⟩
      · rcases hidle with hoff | hfalse
        · exact .inr ⟨hoff, hnil⟩
        · rw [hunset hfalse] at hlt
          exact absurd hlt (Nat.not_lt_zero _)
    · rw [passed_step, hv]
      rcases hidle with hoff | hfalse
      · simp [hoff]
      · simp [hfalse]
  next hgo =>
    obtain ⟨hon, htrue⟩ := not_or.mp hgo
    rw [Bool.not_eq_false] at htrue
    -- the pump begins to read where the handed payloads end
    set v₁ := (start t.system.coord).sync (t.told i.event) with hv₁
    have hstart : (if (t.told i.event).proposals.length < v₁.processedProposals
        then 0 else v₁.processedProposals) = done.length := by
      rw [← h.length_relist]
      rcases hcount with hcount | ⟨hnil, hoff | hlt⟩
      · rw [hcount, if_neg]
        rw [hsplit.listed_eq, List.length_append]
        omega
      · exact absurd hoff hon
      · rw [if_pos hlt, hnil, List.length_nil]
    unfold Progress.group at hv
    dsimp only at hv
    rw [hstart] at hv
    split at hv
    next hwait =>
      refine step_idle S h hc ha hsplit hv hpay hmes rfl (.inl rfl) ?_ ?_
      · intro hfalse
        exact absurd (htrue.symm.trans hfalse) (by decide)
      · rw [passed_step, hv]
        simp [hwait]
    next hread =>
      have hkinds : OfKinds (t.told i.event).pendingMls.welcomeThenCommit :=
        (h.numbered.receive i.event).filed.ofKinds
      obtain ⟨messages, processedMls, hfold⟩ := foldl_take { v₁ with
          externalSenderSet := b
          payloads := v₁.payloads ++ (t.told i.event).proposals.drop done.length
          processedProposals := (t.told i.event).proposals.length }
        (t.told i.event).pendingMls.welcomeThenCommit
      refine step_all S h hc ha hsplit hv ?_ ?_ ?_ ?_ ?_
      · rw [hfold]
        simp [hpay]
      · rw [foldl_take_messages hkinds, hmes, List.nil_append]
      · exact fun m hm => foldl_take_processed hkinds hm
      · rw [hfold]
      · rw [hfold]
        exact htrue

end Step

/-! ### Runs -/

/-- A run before its first event. -/
def Trace.new (session : σ) : Trace σ := { system := { coord := { session := session } } }

lemma ready_new (session : σ) : Ready (Trace.new session) ∧ Consumed (Trace.new session) := by
  refine ⟨⟨⟨?_, fun kind => ?_, fun kind m h => ?_, .nil⟩, ⟨[], [], ⟨rfl, ?_, ?_⟩, .inl rfl⟩,
    fun _ => rfl, fun kind m n h => ?_⟩, ⟨?_, ?_, .nil, .nil, ?_⟩⟩
  · exact named_nil
  · cases kind <;> exact named_nil
  · cases kind <;> cases h
  · exact fun n hn => absurd hn List.not_mem_nil
  · exact fun n hn => absurd hn List.not_mem_nil
  · cases kind <;> cases h
  · exact named_nil
  · exact named_nil
  · exact fun h => absurd h Bool.false_ne_true

/-- **Deliveries are consumed once, and in order.** In every run from a new coordinator whose
pumps all succeed, whose new prepared epochs find nothing that was handed over before, and which
switches DAVE on with an exact counter, every state reached has consumed its deliveries. -/
theorem consumed_run (S : Session σ ε) (session : σ) (inputs : List Input)
    (h : Along (Trace.step S) (fun t i => Succeeds S t.system i ∧ StartsAfresh t i ∧
      ResumesCount t i) (Trace.new session) inputs) :
    ∀ pre, pre <+: inputs → Consumed (run (Trace.step S) (Trace.new session) pre) := by
  rintro pre ⟨post, rfl⟩
  refine (run_inv (I := fun t : Trace σ => Ready t ∧ Consumed t) ?_ (ready_new session)
    (along_append.mp h).1).2
  rintro t i ⟨hready, hcons⟩ ⟨hs, ha, hr⟩
  exact hready.step S hcons hs ha hr

/-- Proposals within an epoch. -/
def proposalsInEpoch : List Input :=
  [.sessionDescription (some 1), .externalSender [1], .prepareEpoch 1 5, .proposals [0]].map inputOf

theorem consumed_proposalsInEpoch :
    Consumed (run (Trace.step accepting) (Trace.new false) proposalsInEpoch) :=
  consumed_run accepting false proposalsInEpoch (by decide) proposalsInEpoch List.prefix_rfl

/-- Epoch `5` is prepared again: the gateway state keeps the payload, and it is handed over a
second time. -/
theorem proposals_handed_twice :
    Along (Trace.step accepting) (fun t i => Succeeds accepting t.system i) (Trace.new false)
        (proposalsInEpoch ++ [inputOf (.prepareEpoch 1 5)]) ∧
      (run (Trace.step accepting) (Trace.new false)
        (proposalsInEpoch ++ [inputOf (.prepareEpoch 1 5)])).handedProposals = [3, 3] ∧
      ¬ Consumed (run (Trace.step accepting) (Trace.new false)
        (proposalsInEpoch ++ [inputOf (.prepareEpoch 1 5)])) := by
  have htwice : (run (Trace.step accepting) (Trace.new false)
      (proposalsInEpoch ++ [inputOf (.prepareEpoch 1 5)])).handedProposals = [3, 3] := by decide
  refine ⟨by decide, htwice, fun h => ?_⟩
  have hinc := h.increasing
  rw [htwice] at hinc
  exact absurd hinc (by decide)

end Cacophony.Deliveries
