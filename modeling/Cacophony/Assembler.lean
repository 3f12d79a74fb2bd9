import Cacophony.RtpPayload
import Cacophony.Transport

/-!
The frame assembler, `RtpFrameAssembler` of `media.rs`.

It is given the packets of a stream in order and puts payloads together to frames. At any time
it has at most one frame that has begun; a packet continues it when it belongs to the same
stream and follows the last packet without a gap. Raw packets are of any type.
-/

namespace Cacophony.Assembler

open FrameCodecs Transport RtpPayload

variable {ρ : Type}

structure PendingMediaPacket (ρ : Type) where
  raw : ρ
  rtp : RtpHeader
  userId : Option UInt64
  codec : Codec
  encryptedPayload : Bytes
  dave : Bool

/-- `PendingMediaFrame`, as the assembler makes it: the time and the reasons that are filled in
later are left out. -/
structure PendingMediaFrame (ρ : Type) where
  raw : List ρ
  rtp : RtpHeader
  userId : Option UInt64
  codec : Codec
  encryptedFrame : Bytes
  dave : Bool
  deriving DecidableEq

structure PartialRtpFrame (ρ : Type) where
  rawPackets : List ρ
  rtp : RtpHeader
  userId : Option UInt64
  codec : Codec
  encryptedFrame : Bytes
  dave : Bool
  lastSeq : UInt16

namespace PartialRtpFrame

def new (packet : PendingMediaPacket ρ) : PartialRtpFrame ρ where
  rawPackets := []
  rtp := packet.rtp
  userId := packet.userId
  codec := packet.codec
  encryptedFrame := []
  dave := packet.dave
  lastSeq := packet.rtp.seq

def matchesContext (f : PartialRtpFrame ρ) (packet : PendingMediaPacket ρ) : Bool :=
  f.rtp.ssrc = packet.rtp.ssrc && f.codec = packet.codec && f.dave = packet.dave

def acceptsNext (f : PartialRtpFrame ρ) (packet : PendingMediaPacket ρ) : Bool :=
  f.matchesContext packet && packet.rtp.seq = f.lastSeq + 1

def shouldCompleteBefore (f : PartialRtpFrame ρ) (packet : PendingMediaPacket ρ) : Bool :=
  f.codec = .av1 && f.matchesContext packet && f.rtp.timestamp ≠ packet.rtp.timestamp

def intoPending (f : PartialRtpFrame ρ) : PendingMediaFrame ρ :=
  ⟨f.rawPackets, f.rtp, f.userId, f.codec, f.encryptedFrame, f.dave⟩

end PartialRtpFrame

structure RtpFrameAssembler (ρ : Type) where
  partialFrame : Option (PartialRtpFrame ρ) := none
  completed : List (PendingMediaFrame ρ) := []

namespace RtpFrameAssembler

variable (a : RtpFrameAssembler ρ) (packet : PendingMediaPacket ρ)

def popCompleted : Option (PendingMediaFrame ρ) × RtpFrameAssembler ρ :=
  (a.completed.head?, { a with completed := a.completed.tail })

def hasCompletedFrame : Bool := !a.completed.isEmpty

def clear (_ : RtpFrameAssembler ρ) : RtpFrameAssembler ρ := {}

/-- What `push_packet` does before it looks at the payload: a frame that a new timestamp ends is
completed, and one that the packet should continue but does not is dropped. -/
def settle : RtpFrameAssembler ρ :=
  let a := if a.partialFrame.any fun f => f.shouldCompleteBefore packet then
      { partialFrame := none
        completed := a.completed ++ (a.partialFrame.map (·.intoPending)).toList }
    else a
  if a.partialFrame.any fun f => !f.acceptsNext packet && f.matchesContext packet then
    { a with partialFrame := none }
  else a

/-- The rest of `push_packet`, once the payload is parsed. A frame that is started takes the
place of the one that has begun only when the packet does not complete it. -/
def append (continuesPartial : Bool) (payload : ParsedRtpPayload) :
    Except RtpError (Option (PendingMediaFrame ρ)) × RtpFrameAssembler ρ :=
  let boundary := payload.boundary
  if !continuesPartial && !boundary.startsFrame then
    let (frame, a) := a.popCompleted
    (.ok frame, a)
  else
    let continued := if continuesPartial && !boundary.startsFrame then a.partialFrame else none
    let a := if continued.isSome then { a with partialFrame := none } else a
    let f := continued.getD (.new packet)
    match appendDepacketized payload.depacketized f.encryptedFrame with
    | .error error => (.error error, a)
    | .ok encryptedFrame =>
      let f := { f with
        encryptedFrame, lastSeq := packet.rtp.seq, rawPackets := f.rawPackets ++ [packet.raw] }
      let a := if boundary.completesFrame then
          { a with completed := a.completed ++ [f.intoPending] }
        else { a with partialFrame := some f }
      let (frame, a) := a.popCompleted
      (.ok frame, a)

def pushPacket : Except RtpError (Option (PendingMediaFrame ρ)) × RtpFrameAssembler ρ :=
  let a := a.settle packet
  let continuesPartial := a.partialFrame.any fun f => f.acceptsNext packet
  match ParsedRtpPayload.parse packet.codec packet.encryptedPayload packet.rtp.marker
      continuesPartial with
  | .error error => (.error error, a)
  | .ok payload => a.append packet continuesPartial payload

end RtpFrameAssembler

/-! ### What a packet adds -/

/-- The frame that a payload is added to: the one that has begun, or a new one. -/
def RtpFrameAssembler.target (a : RtpFrameAssembler ρ) (packet : PendingMediaPacket ρ)
    (continues : Bool) : PartialRtpFrame ρ :=
  (if continues then a.partialFrame else none).getD (.new packet)

/-- The frame with the packet and its bytes. -/
def PartialRtpFrame.take (f : PartialRtpFrame ρ) (packet : PendingMediaPacket ρ)
    (encryptedFrame : Bytes) : PartialRtpFrame ρ :=
  { f with
    encryptedFrame, lastSeq := packet.rtp.seq, rawPackets := f.rawPackets ++ [packet.raw] }

/-- A payload that can be added completes its frame, or the assembler keeps the frame. -/
lemma append_of_ok {a : RtpFrameAssembler ρ} {packet : PendingMediaPacket ρ}
    {continues starts : Bool} {payload : DepacketizedPayload} {bytes : Bytes} (completes : Bool)
    (hcompleted : a.completed = []) (hstart : starts = true ∨ continues = true)
    (hbytes : appendDepacketized payload (a.target packet (continues && !starts)).encryptedFrame =
      .ok bytes) :
    let f := (a.target packet (continues && !starts)).take packet bytes
    let r := a.append packet continues ⟨⟨starts, completes⟩, payload⟩
    if completes then r.1 = .ok (some f.intoPending) else r = (.ok none, ⟨some f, []⟩) := by
  have hnot : ¬ (!continues && !starts) = true := by
    rcases hstart with rfl | rfl <;> simp
  unfold RtpFrameAssembler.target at hbytes ⊢
  unfold RtpFrameAssembler.append
  dsimp only
  generalize (if (continues && !starts) = true then a.partialFrame else none) = p at hbytes ⊢
  rw [if_neg hnot, hbytes]
  -- the frame that has begun is taken out of its slot or not; nothing else was completed
  have hrest : (if p.isSome then { a with partialFrame := none } else a).completed = [] := by
    split <;> exact hcompleted
  generalize (if p.isSome then { a with partialFrame := none } else a) = rest at hrest
  obtain ⟨partialFrame, completed⟩ := rest
  obtain rfl : completed = [] := hrest
  cases completes <;> rfl

/-! ### A frame on its way

The payloads of a packetizer as the packets of a stream, with consecutive sequence numbers, and
what an assembler returns for each. -/

/-- The packetizer gives the payloads `xs`, and then no more. -/
def Gives (p : RtpPayloadPacketizer) : List (Bytes × Bool) → Prop
  | [] => p.next.1 = .ok none
  | x :: xs => p.next.1 = .ok (some x) ∧ Gives p.next.2 xs

lemma Gives.unique {p : RtpPayloadPacketizer} {xs ys : List (Bytes × Bool)} (hx : Gives p xs)
    (hy : Gives p ys) : xs = ys := by
  induction xs generalizing p ys with
  | nil =>
    cases ys with
    | nil => rfl
    | cons y ys => exact absurd (hx.symm.trans hy.1) (by simp)
  | cons x xs ih =>
    cases ys with
    | nil => exact absurd (hx.1.symm.trans hy) (by simp)
    | cons y ys =>
      have hxy : x = y := by simpa using hx.1.symm.trans hy.1
      rw [hxy, ih hx.2 hy.2]

/-- What the packets of a frame have in common. The raw packet may be any. -/
structure Stream (ρ : Type) where
  rtp : RtpHeader
  userId : Option UInt64
  dave : Bool
  raw : UInt16 → ρ

def Stream.packet (S : Stream ρ) (codec : Codec) (seq : UInt16) (x : Bytes × Bool) :
    PendingMediaPacket ρ where
  raw := S.raw seq
  rtp := { S.rtp with seq, marker := x.2 }
  userId := S.userId
  codec
  encryptedPayload := x.1
  dave := S.dave

def feed (S : Stream ρ) (codec : Codec) (a : RtpFrameAssembler ρ) (seq : UInt16) :
    List (Bytes × Bool) → List (Except RtpError (Option (PendingMediaFrame ρ)))
  | [] => []
  | x :: xs =>
    let (r, a) := a.pushPacket (S.packet codec seq x)
    r :: feed S codec a (seq + 1) xs

end Cacophony.Assembler
