import Cacophony.Assembler

/-!
The packets of a frame, and what an assembler makes of them.

Most payloads are read alike whatever the assembler holds: they add the same bytes, complete a
frame or not, and only whether they start one may depend on whether one has begun. `Carries` puts
such payloads in a row: the first starts a frame, the others go on with it, the last completes it.
-/

namespace Cacophony.FramePackets

open FrameCodecs Transport RtpPayload Assembler

/-- The payload adds `piece` to a frame, and completes it or not. It starts a frame by
`starts`, which is given whether one has begun. -/
def Reads (codec : Codec) (x : Bytes × Bool) (starts : Bool → Bool) (completes : Bool)
    (piece : Bytes) : Prop :=
  ∀ hasPartialFrame, ∃ payload,
    ParsedRtpPayload.parse codec x.1 x.2 hasPartialFrame =
      .ok ⟨⟨starts hasPartialFrame, completes⟩, payload⟩ ∧
    ∀ frame, appendDepacketized payload frame = .ok (frame ++ piece)

/-- The payloads are those of a frame, from the first on or from a later one on when the frame has
begun; `bytes` is what they add. -/
inductive Carries (codec : Codec) : Bool → List (Bytes × Bool) → Bytes → Prop
  | last {begun : Bool} {x : Bytes × Bool} {starts : Bool → Bool} {piece : Bytes}
      (hx : Reads codec x starts true piece) (hstarts : starts begun = !begun) :
      Carries codec begun [x] piece
  | more {begun : Bool} {x : Bytes × Bool} {starts : Bool → Bool} {piece : Bytes}
      {xs : List (Bytes × Bool)} {bytes : Bytes}
      (hx : Reads codec x starts false piece) (hstarts : starts begun = !begun)
      (hxs : Carries codec true xs bytes) : Carries codec begun (x :: xs) (piece ++ bytes)

/-- A payload that starts no frame. -/
def Stuck (codec : Codec) (x : Bytes × Bool) : Prop :=
  ∃ starts completes piece, Reads codec x starts completes piece ∧ starts false = false

/-- The payloads are those of a frame, and only the first of them can start one. -/
structure Sole (codec : Codec) (xs : List (Bytes × Bool)) (bytes : Bytes) : Prop where
  carries : Carries codec false xs bytes
  stuck : ∀ x ∈ xs.tail, Stuck codec x

variable {ρ : Type} {S : Stream ρ} {codec : Codec} {a : RtpFrameAssembler ρ} {seq : UInt16}
  {begun : Option Bytes} {x : Bytes × Bool} {xs : List (Bytes × Bool)} {starts : Bool → Bool}
  {completes : Bool} {piece bytes : Bytes}

/-! ### One packet -/

/-- The packet carries the payload. -/
structure Bears (codec : Codec) (x : Bytes × Bool) (q : PendingMediaPacket ρ) : Prop where
  codec : q.codec = codec
  payload : q.encryptedPayload = x.1
  marker : q.rtp.marker = x.2

variable {q : PendingMediaPacket ρ}

lemma bears_packet (S : Stream ρ) (codec : Codec) (seq : UInt16) (x : Bytes × Bool) :
    Bears codec x (S.packet codec seq x) := ⟨rfl, rfl, rfl⟩

lemma Bears.parse (hq : Bears codec x q) (hasPartialFrame : Bool) :
    ParsedRtpPayload.parse q.codec q.encryptedPayload q.rtp.marker hasPartialFrame =
      ParsedRtpPayload.parse codec x.1 x.2 hasPartialFrame := by
  rw [hq.codec, hq.payload, hq.marker]

/-- With nothing begun, a payload that starts a frame makes a new one. -/
lemma pushPacket_start (hq : Bears codec x q) (hx : Reads codec x starts completes piece)
    (hstarts : starts false = true) :
    ∃ f : PartialRtpFrame ρ, f = (PartialRtpFrame.new q).take q piece ∧
      RtpFrameAssembler.pushPacket {} q =
        if completes then (.ok (some f.intoPending), {}) else (.ok none, ⟨some f, []⟩) := by
  obtain ⟨payload, hparse, happend⟩ := hx false
  rw [← hq.parse, hstarts] at hparse
  have hempty : appendDepacketized payload (PartialRtpFrame.new q).encryptedFrame = .ok piece :=
    happend []
  refine ⟨_, rfl, ?_⟩
  have hsettle : RtpFrameAssembler.settle {} q = {} := rfl
  rw [RtpFrameAssembler.pushPacket, hsettle]
  dsimp only
  rw [Option.any_none, hparse]
  unfold RtpFrameAssembler.append
  simp only [Bool.not_false, Bool.not_true, Bool.and_false, Bool.false_eq_true, if_false,
    Option.isSome_none, Option.getD_none, hempty]
  cases completes <;> rfl

/-- With a frame begun that the packet belongs to, a payload that does not start one goes on
with it. -/
lemma pushPacket_continue {f : PartialRtpFrame ρ} (haccept : f.acceptsNext q = true)
    (hcomplete : f.shouldCompleteBefore q = false) (hq : Bears codec x q)
    (hx : Reads codec x starts completes piece) (hstarts : starts true = false) :
    ∃ g : PartialRtpFrame ρ, g = f.take q (f.encryptedFrame ++ piece) ∧
      RtpFrameAssembler.pushPacket ⟨some f, []⟩ q =
        if completes then (.ok (some g.intoPending), {}) else (.ok none, ⟨some g, []⟩) := by
  obtain ⟨payload, hparse, happend⟩ := hx true
  rw [← hq.parse, hstarts] at hparse
  have hsettle : RtpFrameAssembler.settle ⟨some f, []⟩ q = ⟨some f, []⟩ := by
    simp [RtpFrameAssembler.settle, hcomplete, haccept]
  refine ⟨_, rfl, ?_⟩
  rw [RtpFrameAssembler.pushPacket, hsettle]
  dsimp only
  rw [Option.any_some, haccept, hparse]
  unfold RtpFrameAssembler.append
  simp only [Bool.not_true, Bool.not_false, Bool.false_and, Bool.true_and, Bool.false_eq_true,
    if_false, if_true, Option.isSome_some, Option.getD_some, happend]
  cases completes <;> rfl

/-! ### The packets of a stream -/

/-- No frame is completed, and the bytes `begun` are what there is of the next one, which goes on
with the packet `seq` of the stream. -/
def Holding (S : Stream ρ) (codec : Codec) (a : RtpFrameAssembler ρ) (seq : UInt16) :
    Option Bytes → Prop
  | none => a = {}
  | some bytes => ∃ f, a = ⟨some f, []⟩ ∧ f.rtp.ssrc = S.rtp.ssrc ∧
      f.rtp.timestamp = S.rtp.timestamp ∧ f.codec = codec ∧ f.dave = S.dave ∧
      f.lastSeq + 1 = seq ∧ f.encryptedFrame = bytes

/-- The next packet of the stream continues the frame that has begun. -/
lemma Holding.settle (h : Holding S codec a seq begun) (x : Bytes × Bool) :
    a.settle (S.packet codec seq x) = a ∧
      (a.partialFrame.any fun f => f.acceptsNext (S.packet codec seq x)) = begun.isSome := by
  cases begun with
  | none => cases h; exact ⟨rfl, rfl⟩
  | some bytes =>
    obtain ⟨f, rfl, hssrc, htimestamp, hcodec, hdave, hseq, -⟩ := h
    have hcomplete : f.shouldCompleteBefore (S.packet codec seq x) = false := by
      simp [PartialRtpFrame.shouldCompleteBefore, Stream.packet, htimestamp]
    have haccept : f.acceptsNext (S.packet codec seq x) = true := by
      simp [PartialRtpFrame.acceptsNext, PartialRtpFrame.matchesContext, Stream.packet, hssrc,
        hcodec, hdave, hseq]
    constructor
    · simp [RtpFrameAssembler.settle, hcomplete, haccept]
    · simpa using haccept

/-- A payload is added to what has begun, or to a new frame of the stream. -/
lemma Holding.target (h : Holding S codec a seq begun) (x : Bytes × Bool) (starts : Bool) :
    let f := a.target (S.packet codec seq x) (begun.isSome && !starts)
    f.encryptedFrame = (if starts then [] else begun.getD []) ∧ f.rtp.ssrc = S.rtp.ssrc ∧
      f.rtp.timestamp = S.rtp.timestamp ∧ f.codec = codec ∧ f.dave = S.dave := by
  cases begun with
  | none => cases starts <;> exact ⟨rfl, rfl, rfl, rfl, rfl⟩
  | some bytes =>
    obtain ⟨f, rfl, hssrc, htimestamp, hcodec, hdave, -, hbytes⟩ := h
    cases starts with
    | true => exact ⟨rfl, rfl, rfl, rfl, rfl⟩
    | false => exact ⟨hbytes, hssrc, htimestamp, hcodec, hdave⟩

/-- The payload `x` makes `bytes` of what has begun, or starts a frame with them. -/
def Adds (codec : Codec) (begun : Option Bytes) (x : Bytes × Bool) (completes : Bool)
    (bytes : Bytes) : Prop :=
  ∃ starts payload,
    ParsedRtpPayload.parse codec x.1 x.2 begun.isSome = .ok ⟨⟨starts, completes⟩, payload⟩ ∧
    (starts = true ∨ begun.isSome = true) ∧
    appendDepacketized payload (if starts then [] else begun.getD []) = .ok bytes

lemma Reads.adds (hx : Reads codec x starts completes piece)
    (hstarts : starts begun.isSome = !begun.isSome) :
    Adds codec begun x completes (begun.getD [] ++ piece) := by
  obtain ⟨payload, hparse, happend⟩ := hx begun.isSome
  refine ⟨_, payload, hparse, ?_, ?_⟩
  · rw [hstarts]
    cases begun <;> simp
  · rw [happend, hstarts]
    cases begun <;> rfl

/-- One payload of a frame. -/
lemma Holding.pushPacket (h : Holding S codec a seq begun)
    (hx : Adds codec begun x completes bytes) :
    if completes then
      ∃ f, (a.pushPacket (S.packet codec seq x)).1 = .ok (some f) ∧ f.encryptedFrame = bytes
    else (a.pushPacket (S.packet codec seq x)).1 = .ok none ∧
      Holding S codec (a.pushPacket (S.packet codec seq x)).2 (seq + 1) (some bytes) := by
  obtain ⟨starts, payload, hparse, hstart, happend⟩ := hx
  obtain ⟨hsettle, haccept⟩ := h.settle x
  have hpush : a.pushPacket (S.packet codec seq x) =
      a.append (S.packet codec seq x) begun.isSome ⟨⟨starts, completes⟩, payload⟩ := by
    rw [RtpFrameAssembler.pushPacket, hsettle, haccept, (bears_packet S codec seq x).parse, hparse]
  have hcompleted : a.completed = [] := by
    cases begun with
    | none => cases h; rfl
    | some b => obtain ⟨f, rfl, -⟩ := h; rfl
  obtain ⟨hframe, hssrc, htimestamp, hcodec, hdave⟩ := h.target x starts
  rw [← hframe] at happend
  have hadded := append_of_ok completes hcompleted hstart happend
  dsimp only at hadded
  rw [hpush]
  split
  next hcompletes =>
    rw [if_pos hcompletes] at hadded
    exact ⟨_, hadded, rfl⟩
  next hcompletes =>
    rw [if_neg hcompletes] at hadded
    rw [hadded]
    exact ⟨rfl, _, rfl, hssrc, htimestamp, hcodec, hdave, rfl, rfl⟩

/-- The packets of a frame, or those that are left of it, complete it with the last of them. -/
theorem Carries.feed {b : Bool} (h : Carries codec b xs bytes) (hb : begun.isSome = b)
    (ha : Holding S codec a seq begun) :
    ∃ f, feed S codec a seq xs = List.replicate (xs.length - 1) (.ok none) ++ [.ok (some f)] ∧
      f.encryptedFrame = begun.getD [] ++ bytes := by
  induction h generalizing a seq begun with
  | last hx hstarts =>
    obtain ⟨f, hpush, hf⟩ := ha.pushPacket (hx.adds (hb ▸ hstarts))
    exact ⟨f, by simp [Assembler.feed, hpush], hf⟩
  | @more _ x starts piece xs bytes hx hstarts hxs ih =>
    obtain ⟨hpush, ha'⟩ := ha.pushPacket (hx.adds (hb ▸ hstarts))
    obtain ⟨f, hfeed, hf⟩ := ih rfl ha'
    have hlen : (x :: xs).length - 1 = (xs.length - 1) + 1 := by
      cases hxs <;> rfl
    refine ⟨f, ?_, by rw [hf, Option.getD_some, List.append_assoc]⟩
    rw [hlen, List.replicate_succ, List.cons_append, ← hfeed, ← hpush]
    rfl

end Cacophony.FramePackets
