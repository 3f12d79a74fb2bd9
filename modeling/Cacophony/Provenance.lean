import Cacophony.Assembler
import Cacophony.Runs
import Mathlib.Data.List.Forall2

/-!
Where the frames of an assembler come from.

The assembler is called in any order with packets of any streams. A trace keeps the calls of
`push_packet` and the frames that were handed out. Each frame has an origin, the places of the
calls that it was made from, and no place is in two origins: the invariant below also gives the
completed frames that wait and the frame that has begun an origin each, so that a packet is used up
by the frame that takes it.
-/

namespace Cacophony.Assembler

open FrameCodecs Transport RtpPayload Runs

variable {ρ : Type}

/-! ### What a payload adds does not depend on what is there -/

lemma appendH26xAggregation_append (codec : Codec) (pre payload frame : Bytes) :
    appendH26xAggregation codec payload (pre ++ frame) =
      (appendH26xAggregation codec payload frame).map (pre ++ ·) := by
  fun_induction appendH26xAggregation codec payload frame with
  | case1 frame => rw [appendH26xAggregation]; rfl
  | case2 frame => rw [appendH26xAggregation]; rfl
  | case3 frame high low payload naluLen hlen =>
    rw [appendH26xAggregation, if_pos hlen]
    rfl
  | case4 frame high low payload naluLen hlen ih =>
    rw [appendH26xAggregation, if_neg hlen, List.append_assoc, ih]

lemma appendAv1Elements_append (w elements : UInt8) (pre payload frame : Bytes) :
    appendAv1Elements w elements payload (pre ++ frame) =
      (appendAv1Elements w elements payload frame).map (pre ++ ·) := by
  induction hn : payload.length using Nat.strong_induction_on
    generalizing elements payload frame with
  | h n ih =>
  rw [appendAv1Elements]
  conv_rhs => rw [appendAv1Elements]
  dsimp only
  generalize (if elements = 255 then 255 else elements + 1) = next
  by_cases hempty : payload.isEmpty = true
  · rw [if_pos hempty, if_pos hempty]
    rfl
  rw [if_neg hempty, if_neg hempty]
  by_cases hlast : w ≠ 0 ∧ next = w
  · rw [if_pos hlast, if_pos hlast, List.append_assoc]
    rfl
  rw [if_neg hlast, if_neg hlast]
  split
  · rfl
  · next len k hread =>
    split
    · rfl
    · have hshorter : ((payload.drop k).drop len).length < n := by
        have := Leb128.read_len hread
        simp only [List.length_drop]
        omega
      rw [List.append_assoc, ih _ hshorter _ _ _ rfl]

lemma appendDepacketized_eq (payload : DepacketizedPayload) (frame : Bytes) :
    appendDepacketized payload frame = (appendDepacketized payload []).map (frame ++ ·) := by
  cases payload with
  | raw payload => rfl
  | h26xNalu nalu => rfl
  | h26xAggregation codec payload =>
    have h := appendH26xAggregation_append codec frame payload []
    rwa [List.append_nil] at h
  | h26xFragment fragment =>
    cases h : fragment.startsFragment <;> simp [appendDepacketized, h, Except.map]
  | av1 w payload =>
    have h := appendAv1Elements_append w 0 frame payload []
    rw [List.append_nil] at h
    dsimp only [appendDepacketized]
    rw [appendAv1Payload, appendAv1Payload, h]
    split <;> rfl

/-! ### Calls -/

/-- A call of `push_packet`: the assembler before it, and the packet. -/
structure Push (ρ : Type) where
  before : RtpFrameAssembler ρ
  packet : PendingMediaPacket ρ

namespace Push

variable (c : Push ρ)

/-- What the call makes of the payload. -/
def parsed : Except RtpError ParsedRtpPayload :=
  ParsedRtpPayload.parse c.packet.codec c.packet.encryptedPayload c.packet.rtp.marker
    ((c.before.settle c.packet).partialFrame.any fun f => f.acceptsNext c.packet)

/-- The payload is parsed as starting a frame. -/
def Starts : Prop := ∃ payload, c.parsed = .ok payload ∧ payload.boundary.startsFrame = true

/-- The bytes of the payload. -/
def depacketized : Except RtpError Bytes := do
  let payload ← c.parsed
  appendDepacketized payload.depacketized []

end Push

inductive Call (ρ : Type)
  | push (packet : PendingMediaPacket ρ)
  | popCompleted
  | clear

/-- An assembler in use: the calls of `push_packet` and the frames it handed out. -/
structure Trace (ρ : Type) where
  assembler : RtpFrameAssembler ρ := {}
  pushes : List (Push ρ) := []
  emitted : List (PendingMediaFrame ρ) := []

def Trace.step (t : Trace ρ) : Call ρ → Trace ρ
  | .push packet =>
    let (result, a) := t.assembler.pushPacket packet
    ⟨a, t.pushes ++ [⟨t.assembler, packet⟩], t.emitted ++ result.toOption.join.toList⟩
  | .popCompleted =>
    let (frame, a) := t.assembler.popCompleted
    ⟨a, t.pushes, t.emitted ++ frame.toList⟩
  | .clear => { t with assembler := t.assembler.clear }

/-! ### Origins -/

/-- The frame is made of the payloads of the calls `cs`. -/
structure MadeOf (cs : List (Push ρ)) (frame : PendingMediaFrame ρ) : Prop where
  starts : ∃ c, cs.head? = some c ∧ c.Starts
  consecutive : cs.IsChain fun c d => d.packet.rtp.seq = c.packet.rtp.seq + 1
  same : ∀ c ∈ cs, c.packet.rtp.ssrc = frame.rtp.ssrc ∧ c.packet.codec = frame.codec ∧
    c.packet.dave = frame.dave
  bytes : ∃ parts, cs.Forall₂ (fun c part => c.depacketized = .ok part) parts ∧
    frame.encryptedFrame = parts.flatten
  raw : frame.raw = cs.map (·.packet.raw)

/-- The frame is made of the calls at the places `origin`, in the order they were made. -/
def Assembled (pushes : List (Push ρ)) (origin : List ℕ) (frame : PendingMediaFrame ρ) : Prop :=
  origin.Pairwise (· < ·) ∧
    ∃ cs, origin.Forall₂ (fun i c => pushes[i]? = some c) cs ∧ MadeOf cs frame

/-- The same of a frame that has begun, whose last packet is the last of the calls. -/
def Begun (pushes : List (Push ρ)) (origin : List ℕ) (f : PartialRtpFrame ρ) : Prop :=
  origin.Pairwise (· < ·) ∧
    ∃ cs, origin.Forall₂ (fun i c => pushes[i]? = some c) cs ∧ MadeOf cs f.intoPending ∧
      (cs.map (·.packet.rtp.seq)).getLast? = some f.lastSeq

variable {c : Push ρ} {cs pushes : List (Push ρ)} {f : PartialRtpFrame ρ} {bytes : Bytes}
  {origin : List ℕ} {frame : PendingMediaFrame ρ}

lemma madeOf_start (hstarts : c.Starts) (hbytes : c.depacketized = .ok bytes) :
    MadeOf [c] ((PartialRtpFrame.new c.packet).take c.packet bytes).intoPending where
  starts := ⟨c, rfl, hstarts⟩
  consecutive := .singleton c
  same := by simp [PartialRtpFrame.intoPending, PartialRtpFrame.take, PartialRtpFrame.new]
  bytes := ⟨[bytes], .cons hbytes .nil,
    by simp [PartialRtpFrame.intoPending, PartialRtpFrame.take]⟩
  raw := rfl

lemma MadeOf.snoc (h : MadeOf cs f.intoPending)
    (hlast : (cs.map (·.packet.rtp.seq)).getLast? = some f.lastSeq)
    (haccept : f.acceptsNext c.packet = true) (hbytes : c.depacketized = .ok bytes) :
    MadeOf (cs ++ [c]) (f.take c.packet (f.encryptedFrame ++ bytes)).intoPending where
  starts := by
    obtain ⟨first, hfirst, hstarts⟩ := h.starts
    exact ⟨first, by rw [List.head?_append, hfirst]; rfl, hstarts⟩
  consecutive := by
    have hseq : c.packet.rtp.seq = f.lastSeq + 1 := by
      simp only [PartialRtpFrame.acceptsNext, Bool.and_eq_true, decide_eq_true_eq] at haccept
      exact haccept.2
    refine List.isChain_append.mpr ⟨h.consecutive, .singleton c, ?_⟩
    intro d hd e he
    rw [List.getLast?_map, hd] at hlast
    obtain rfl : c = e := by simpa using he
    rw [hseq, ← Option.some.inj hlast]
  same := by
    have hctx : f.matchesContext c.packet = true := by
      simp only [PartialRtpFrame.acceptsNext, Bool.and_eq_true] at haccept
      exact haccept.1
    simp only [PartialRtpFrame.matchesContext, Bool.and_eq_true, decide_eq_true_eq] at hctx
    intro d hd
    rcases List.mem_append.mp hd with hd | hd
    · exact h.same d hd
    · obtain rfl : d = c := by simpa using hd
      exact ⟨hctx.1.1.symm, hctx.1.2.symm, hctx.2.symm⟩
  bytes := by
    obtain ⟨parts, hparts, hframe⟩ := h.bytes
    refine ⟨parts ++ [bytes], List.rel_append hparts (.cons hbytes .nil), ?_⟩
    change f.encryptedFrame ++ bytes = _
    rw [show f.encryptedFrame = parts.flatten from hframe, List.flatten_append]
    simp
  raw := by
    rw [List.map_append, ← h.raw]
    rfl

/-! ### What a call does -/

/-- What a call can do to the assembler once the frame that has begun is settled, and before a
completed frame is handed out. -/
inductive Takes (c : Push ρ) (a : RtpFrameAssembler ρ) : RtpFrameAssembler ρ → Prop
  | skip : Takes c a a
  | drop : Takes c a { a with partialFrame := none }
  | start {bytes : Bytes} (hstarts : c.Starts) (hbytes : c.depacketized = .ok bytes) :
      Takes c a
        { a with partialFrame := some ((PartialRtpFrame.new c.packet).take c.packet bytes) }
  | whole {bytes : Bytes} (hstarts : c.Starts) (hbytes : c.depacketized = .ok bytes) :
      Takes c a { a with
        completed := a.completed ++
          [((PartialRtpFrame.new c.packet).take c.packet bytes).intoPending] }
  | more {f : PartialRtpFrame ρ} {bytes : Bytes} (hf : a.partialFrame = some f)
      (haccept : f.acceptsNext c.packet = true) (hbytes : c.depacketized = .ok bytes) :
      Takes c a
        { a with partialFrame := some (f.take c.packet (f.encryptedFrame ++ bytes)) }
  | last {f : PartialRtpFrame ρ} {bytes : Bytes} (hf : a.partialFrame = some f)
      (haccept : f.acceptsNext c.packet = true) (hbytes : c.depacketized = .ok bytes) :
      Takes c a ⟨none, a.completed ++
        [(f.take c.packet (f.encryptedFrame ++ bytes)).intoPending]⟩

/-- The frame goes on with a packet only when there is one that accepts it. -/
lemma takes_append (a : RtpFrameAssembler ρ) {payload : ParsedRtpPayload}
    (hparsed : c.parsed = .ok payload) :
    ∃ b, Takes c a b ∧
      let r := a.append c.packet (a.partialFrame.any fun f => f.acceptsNext c.packet) payload
      ((∃ error, r = (.error error, b)) ∨ r = (.ok b.popCompleted.1, b.popCompleted.2)) := by
  have hbytes {bytes : Bytes} (h : appendDepacketized payload.depacketized [] = .ok bytes) :
      c.depacketized = .ok bytes := by
    rw [Push.depacketized, hparsed]
    exact h
  generalize hcontinues : (a.partialFrame.any fun f => f.acceptsNext c.packet) = continues
  unfold RtpFrameAssembler.append
  dsimp only
  cases hstarts : payload.boundary.startsFrame with
  | true =>
    have hc : c.Starts := ⟨payload, hparsed, hstarts⟩
    simp only [Bool.not_true, Bool.and_false, Bool.false_eq_true, if_false, Option.isSome_none,
      Option.getD_none]
    cases hd : appendDepacketized payload.depacketized (PartialRtpFrame.new c.packet).encryptedFrame
      with
    | error error => exact ⟨a, .skip, .inl ⟨error, rfl⟩⟩
    | ok bytes =>
      cases payload.boundary.completesFrame with
      | true => exact ⟨_, .whole hc (hbytes hd), .inr rfl⟩
      | false => exact ⟨_, .start hc (hbytes hd), .inr rfl⟩
  | false =>
    cases continues with
    | false => exact ⟨a, .skip, .inr rfl⟩
    | true =>
      obtain ⟨f, hf, haccept⟩ : ∃ f, a.partialFrame = some f ∧ f.acceptsNext c.packet = true := by
        simpa [Option.any_eq_true] using hcontinues
      simp only [hf, Bool.not_true, Bool.not_false, Bool.and_true, Bool.false_eq_true, if_false,
        if_true, Option.isSome_some, Option.getD_some]
      rw [appendDepacketized_eq]
      cases hd : appendDepacketized payload.depacketized [] with
      | error error => exact ⟨_, .drop, .inl ⟨error, rfl⟩⟩
      | ok bytes =>
        cases payload.boundary.completesFrame with
        | true => exact ⟨_, .last hf haccept (hbytes hd), .inr rfl⟩
        | false => exact ⟨_, .more hf haccept (hbytes hd), .inr rfl⟩

lemma takes_pushPacket (a : RtpFrameAssembler ρ) (packet : PendingMediaPacket ρ) :
    ∃ b, Takes ⟨a, packet⟩ (a.settle packet) b ∧
      ((∃ error, a.pushPacket packet = (.error error, b)) ∨
        a.pushPacket packet = (.ok b.popCompleted.1, b.popCompleted.2)) := by
  unfold RtpFrameAssembler.pushPacket
  dsimp only
  cases hparsed : (Push.mk a packet).parsed with
  | error error =>
    rw [Push.parsed] at hparsed
    dsimp only at hparsed
    rw [hparsed]
    exact ⟨_, .skip, .inl ⟨error, rfl⟩⟩
  | ok payload =>
    have h := takes_append (a.settle packet) hparsed
    rw [Push.parsed] at hparsed
    dsimp only at hparsed
    rw [hparsed]
    exact h

lemma settle_cases (a : RtpFrameAssembler ρ) (packet : PendingMediaPacket ρ) :
    a.settle packet = a ∨ a.settle packet = { a with partialFrame := none } ∨
      ∃ f, a.partialFrame = some f ∧
        a.settle packet = ⟨none, a.completed ++ [f.intoPending]⟩ := by
  obtain ⟨_ | f, completed⟩ := a
  · exact .inl rfl
  · cases hbefore : f.shouldCompleteBefore packet with
    | true => exact .inr (.inr ⟨f, rfl, by simp [RtpFrameAssembler.settle, hbefore]⟩)
    | false =>
      cases hbreaks : !f.acceptsNext packet && f.matchesContext packet with
      | true => exact .inr (.inl (by simp [RtpFrameAssembler.settle, hbefore, hbreaks]))
      | false => exact .inl (by simp [RtpFrameAssembler.settle, hbefore, hbreaks])

/-! ### No call is in two origins -/

/-- Each frame that was handed out or waits has an origin in `owned`, the frame that has begun
has the origin `part`, and no two of them share a call. -/
structure Owned (pushes : List (Push ρ)) (emitted : List (PendingMediaFrame ρ))
    (a : RtpFrameAssembler ρ) (owned : List (List ℕ)) (part : List ℕ) : Prop where
  frames : owned.Forall₂ (Assembled pushes) (emitted ++ a.completed)
  begun : ∀ f, a.partialFrame = some f → Begun pushes part f
  nodup : (owned.flatten ++ part).Nodup
  lt : ∀ i ∈ owned.flatten ++ part, i < pushes.length

variable {a b : RtpFrameAssembler ρ} {emitted : List (PendingMediaFrame ρ)}
  {owned : List (List ℕ)} {part : List ℕ}

lemma located_snoc (h : origin.Forall₂ (fun i c => pushes[i]? = some c) cs) :
    origin.Forall₂ (fun i c' => (pushes ++ [c])[i]? = some c') cs :=
  h.imp fun i d hd => by
    have hi := (List.getElem?_eq_some_iff.mp hd).1
    rwa [List.getElem?_append_left hi]

lemma Assembled.snoc (h : Assembled pushes origin frame) (c : Push ρ) :
    Assembled (pushes ++ [c]) origin frame := by
  obtain ⟨hinc, cs, hcs, hmade⟩ := h
  exact ⟨hinc, cs, located_snoc hcs, hmade⟩

lemma Begun.snoc (h : Begun pushes origin f) (c : Push ρ) : Begun (pushes ++ [c]) origin f := by
  obtain ⟨hinc, cs, hcs, hmade⟩ := h
  exact ⟨hinc, cs, located_snoc hcs, hmade⟩

lemma Begun.assembled (h : Begun pushes origin f) : Assembled pushes origin f.intoPending := by
  obtain ⟨hinc, cs, hcs, hmade, -⟩ := h
  exact ⟨hinc, cs, hcs, hmade⟩

/-- A packet that starts a frame is the origin of the frame. -/
lemma begun_start (hstarts : c.Starts) (hbytes : c.depacketized = .ok bytes) :
    Begun (pushes ++ [c]) [pushes.length] ((PartialRtpFrame.new c.packet).take c.packet bytes) :=
  ⟨List.pairwise_singleton _ _, [c], .cons (by simp) .nil, madeOf_start hstarts hbytes, rfl⟩

/-- A packet that the frame accepts is added to its origin. -/
lemma Begun.more (h : Begun pushes origin f) (hlt : ∀ i ∈ origin, i < pushes.length)
    (haccept : f.acceptsNext c.packet = true) (hbytes : c.depacketized = .ok bytes) :
    Begun (pushes ++ [c]) (origin ++ [pushes.length])
      (f.take c.packet (f.encryptedFrame ++ bytes)) := by
  obtain ⟨hinc, cs, hcs, hmade, hlast⟩ := h
  refine ⟨?_, cs ++ [c], ?_, hmade.snoc hlast haccept hbytes, ?_⟩
  · rw [List.pairwise_append]
    exact ⟨hinc, List.pairwise_singleton _ _, by simpa using hlt⟩
  · exact List.rel_append (located_snoc hcs) (.cons (by simp) .nil)
  · simp [PartialRtpFrame.take]

namespace Owned

lemma settle (h : Owned pushes emitted a owned part) (packet : PendingMediaPacket ρ) :
    ∃ owned part, Owned pushes emitted (a.settle packet) owned part := by
  rcases settle_cases a packet with heq | heq | ⟨f, hf, heq⟩
  · exact ⟨owned, part, by rwa [heq]⟩
  · refine ⟨owned, part, ?_⟩
    rw [heq]
    exact ⟨h.frames, by simp, h.nodup, h.lt⟩
  · refine ⟨owned ++ [part], [], ?_⟩
    have hflat : (owned ++ [part]).flatten ++ [] = owned.flatten ++ part := by simp
    rw [heq]
    refine ⟨?_, by simp, hflat ▸ h.nodup, hflat ▸ h.lt⟩
    rw [← List.append_assoc]
    exact List.rel_append h.frames (.cons (h.begun f hf).assembled .nil)

/-- The new call is in no origin yet, so any origins made from the old ones and the new call
share none. -/
lemma of_subperm {owned' : List (List ℕ)} {part' : List ℕ}
    (h : Owned pushes emitted a owned part)
    (hsub : (owned'.flatten ++ part').Subperm (owned.flatten ++ part ++ [pushes.length]))
    (hframes : owned'.Forall₂ (Assembled (pushes ++ [c])) (emitted ++ b.completed))
    (hbegun : ∀ f, b.partialFrame = some f → Begun (pushes ++ [c]) part' f) :
    Owned (pushes ++ [c]) emitted b owned' part' := by
  have hnew : (owned.flatten ++ part ++ [pushes.length]).Nodup := by
    refine List.nodup_append.mpr ⟨h.nodup, List.nodup_singleton _, ?_⟩
    intro i hi j hj
    have := h.lt i hi
    simp only [List.mem_singleton] at hj
    omega
  refine ⟨hframes, hbegun, ?_, ?_⟩
  · obtain ⟨l, hperm, hl⟩ := hsub
    exact hperm.nodup_iff.mp (hnew.sublist hl)
  · intro i hi
    rw [List.length_append, List.length_singleton]
    rcases List.mem_append.mp (hsub.subset hi) with hi | hi
    · exact Nat.lt_succ_of_lt (h.lt i hi)
    · simp only [List.mem_singleton] at hi
      omega

lemma takes (h : Owned pushes emitted a owned part) (hb : Takes c a b) :
    ∃ owned part, Owned (pushes ++ [c]) emitted b owned part := by
  have hframes : owned.Forall₂ (Assembled (pushes ++ [c])) (emitted ++ a.completed) :=
    h.frames.imp fun _ _ hframe => hframe.snoc c
  have hlt : ∀ i ∈ part, i < pushes.length := fun i hi => h.lt i (List.mem_append_right _ hi)
  cases hb with
  | skip =>
    exact ⟨owned, part, h.of_subperm (List.sublist_append_left _ _).subperm hframes
      fun f hf => (h.begun f hf).snoc c⟩
  | drop =>
    exact ⟨owned, part, h.of_subperm (List.sublist_append_left _ _).subperm hframes (by simp)⟩
  | start hstarts hbytes =>
    refine ⟨owned, [pushes.length], h.of_subperm ?_ hframes ?_⟩
    · rw [List.append_assoc]
      exact ((List.sublist_append_right _ _).append_left _).subperm
    · intro f hf
      rw [← Option.some.inj hf]
      exact begun_start hstarts hbytes
  | whole hstarts hbytes =>
    refine ⟨owned ++ [[pushes.length]], part, h.of_subperm ?_ ?_
      fun f hf => (h.begun f hf).snoc c⟩
    · rw [List.flatten_append, List.append_assoc, List.append_assoc]
      exact (List.perm_append_comm.append_left _).subperm
    · rw [← List.append_assoc]
      exact List.rel_append hframes (.cons (begun_start hstarts hbytes).assembled .nil)
  | more hf haccept hbytes =>
    refine ⟨owned, part ++ [pushes.length], h.of_subperm ?_ hframes ?_⟩
    · rw [List.append_assoc]
    · intro g hg
      rw [← Option.some.inj hg]
      exact (h.begun _ hf).more hlt haccept hbytes
  | last hf haccept hbytes =>
    refine ⟨owned ++ [part ++ [pushes.length]], [], h.of_subperm ?_ ?_ (by simp)⟩
    · simp [List.Subperm.refl]
    · rw [← List.append_assoc]
      exact List.rel_append hframes
        (.cons ((h.begun _ hf).more hlt haccept hbytes).assembled .nil)

lemma popCompleted (h : Owned pushes emitted a owned part) :
    Owned pushes (emitted ++ a.popCompleted.1.toList) a.popCompleted.2 owned part := by
  refine ⟨?_, h.begun, h.nodup, h.lt⟩
  have hmoved : emitted ++ a.popCompleted.1.toList ++ a.popCompleted.2.completed =
      emitted ++ a.completed := by
    obtain ⟨f, _ | ⟨frame, completed⟩⟩ := a <;> simp [RtpFrameAssembler.popCompleted]
  rw [hmoved]
  exact h.frames

lemma handedOut (h : Owned pushes emitted a owned part) :
    Owned pushes emitted {} (owned.take emitted.length) [] := by
  have hsub : ((owned.take emitted.length).flatten ++ []).Sublist (owned.flatten ++ part) := by
    rw [List.append_nil]
    exact (List.take_sublist _ _).flatten.trans (List.sublist_append_left _ _)
  refine ⟨?_, by simp, h.nodup.sublist hsub, fun i hi => h.lt i (hsub.subset hi)⟩
  simpa using List.forall₂_take_append _ _ _ h.frames

end Owned

/-! ### Runs -/

lemma Owned.step {t : Trace ρ} (h : Owned t.pushes t.emitted t.assembler owned part)
    (call : Call ρ) : ∃ owned part,
      Owned (t.step call).pushes (t.step call).emitted (t.step call).assembler owned part := by
  cases call with
  | push packet =>
    obtain ⟨_, _, hsettled⟩ := h.settle packet
    obtain ⟨b, hb, hresult⟩ := takes_pushPacket t.assembler packet
    obtain ⟨owned, part, hb⟩ := hsettled.takes hb
    refine ⟨owned, part, ?_⟩
    dsimp only [Trace.step]
    rcases hresult with ⟨error, hresult⟩ | hresult
    · rw [hresult]
      simpa [Except.toOption] using hb
    · rw [hresult]
      exact hb.popCompleted
  | popCompleted => exact ⟨owned, part, h.popCompleted⟩
  | clear => exact ⟨_, _, h.handedOut⟩

lemma owned_run (calls : List (Call ρ)) : ∃ owned part,
    Owned (run Trace.step {} calls).pushes (run Trace.step {} calls).emitted
      (run Trace.step {} calls).assembler owned part := by
  have hfresh : Owned (ρ := ρ) [] [] {} [] [] := ⟨.nil, by simp, by simp, by simp⟩
  refine run_inv_of_step (I := fun t : Trace ρ => ∃ owned part,
    Owned t.pushes t.emitted t.assembler owned part) ?_ calls ⟨[], [], hfresh⟩
  rintro t call ⟨owned, part, h⟩
  exact h.step call

/-- Whatever the calls, every frame that is handed out is made of packets that follow each other in
one stream, and no packet goes into two frames. -/
theorem emitted_assembled (calls : List (Call ρ)) :
    ∃ origins : List (List ℕ),
      origins.Forall₂ (Assembled (run Trace.step {} calls).pushes)
        (run Trace.step {} calls).emitted ∧
      origins.flatten.Nodup := by
  obtain ⟨owned, part, h⟩ := owned_run calls
  have hout := h.handedOut
  exact ⟨owned.take (run Trace.step {} calls).emitted.length, by simpa using hout.frames,
    by simpa using hout.nodup⟩

end Cacophony.Assembler
