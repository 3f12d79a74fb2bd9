import Mathlib.Data.List.AList
import Cacophony.Assembler

/-!
The reorder buffer of a stream, `ReceiveSsrcState` of `state.rs`.

Packets that come early wait in `pendingMedia` until the ones before them came or were given up;
those still to come are marked in `missing`. Sequence numbers wrap. Times are in nanoseconds. The
loss that a call reports to its observer is returned.
-/

namespace Cacophony.Reorder

open Transport RtpPayload Assembler

/-- A `BTreeMap` whose keys are sequence numbers. -/
abbrev SeqMap (α : Type) := AList fun _ : UInt16 => α

/-- `entry(key).or_insert(value)`. -/
def orInsert {α : Type} (key : UInt16) (value : α) (m : SeqMap α) : SeqMap α :=
  if key ∈ m then m else m.insert key value

structure ConnectionRuntimeTuning where
  rtpReorderTtl : ℕ
  rtpReorderBufferMaxFrames : ℕ

def ConnectionRuntimeTuning.default : ConnectionRuntimeTuning where
  rtpReorderTtl := 60 * 10 ^ 6
  rtpReorderBufferMaxFrames := 32

structure MissingRtpPacket where
  userId : Option UInt64
  detectedAt : ℕ

structure ReceiveRtpPacketLossEvent where
  ssrc : UInt32
  userId : Option UInt64
  firstSeq : UInt16
  lastSeq : UInt16
  missingPackets : UInt16
  ageMs : ℕ
  deriving DecidableEq

/-- `ReceiveSsrcState`, without the statistics that are only there for an observer. -/
structure ReceiveSsrcState (ρ : Type) where
  nextSeq : Option UInt16 := none
  missing : SeqMap MissingRtpPacket := ∅
  pendingMedia : SeqMap (PendingMediaPacket ρ) := ∅
  assembler : RtpFrameAssembler ρ := {}

/-- How a call ends: with a frame or none, or with a packet that goes to the assembler and with
what that returns. -/
inductive Outlet (ρ : Type)
  | frame (frame : Option (PendingMediaFrame ρ))
  | packet (packet : PendingMediaPacket ρ)

/-- The variables of the loop in `expire_missing_head`. -/
structure Expiry where
  seq : UInt16
  lastSeq : UInt16
  userId : Option UInt64
  missingPackets : UInt16
  missing : SeqMap MissingRtpPacket

/-- One round of the loop; the count saturates. -/
def Expiry.pass (e : Expiry) (mark : MissingRtpPacket) : Expiry where
  seq := e.seq + 1
  lastSeq := e.seq
  userId := e.userId.or mark.userId
  missingPackets := if e.missingPackets = 65535 then 65535 else e.missingPackets + 1
  missing := e.missing.erase e.seq

lemma length_keys_erase_lt {α : Type} {m : SeqMap α} {k : UInt16} {x : α}
    (h : m.lookup k = some x) : (m.erase k).keys.length < m.keys.length := by
  have hmem : k ∈ m.keys := AList.mem_keys.mp (AList.lookup_isSome.mp (h ▸ rfl))
  rw [AList.keys_erase, List.length_erase_of_mem hmem]
  exact Nat.sub_one_lt (List.length_pos_of_mem hmem).ne'

variable (tuning : ConnectionRuntimeTuning) {ρ : Type}

/-- The mark has been there for too long, or is to go in any case. -/
def Overdue (now : ℕ) (force : Bool) (mark : MissingRtpPacket) : Prop :=
  force = true ∨ mark.detectedAt + tuning.rtpReorderTtl ≤ now

instance (now : ℕ) (force : Bool) (mark : MissingRtpPacket) :
    Decidable (Overdue tuning now force mark) := inferInstanceAs (Decidable (_ ∨ _))

def expireLoop (now : ℕ) (force : Bool) (e : Expiry) : Expiry :=
  match _h : e.missing.lookup e.seq with
  | none => e
  | some mark =>
    if Overdue tuning now force mark then expireLoop now force (e.pass mark) else e
termination_by e.missing.keys.length
decreasing_by exact length_keys_erase_lt _h

namespace ReceiveSsrcState

variable (s : ReceiveSsrcState ρ)

def markMissing (expected forward : UInt16) (userId : Option UInt64) (detectedAt : ℕ)
    (missing : SeqMap MissingRtpPacket) : SeqMap MissingRtpPacket :=
  (List.range forward.toNat).foldl
    (fun missing offset => orInsert (expected + UInt16.ofNat offset) ⟨userId, detectedAt⟩ missing)
    missing

def hasReadyBufferedMedia : Bool :=
  s.assembler.hasCompletedFrame || s.nextSeq.any fun seq => seq ∈ s.pendingMedia

def pendingReorderDeadline : Option ℕ := do
  let seq ← s.nextSeq
  let missing ← s.missing.lookup seq
  return missing.detectedAt + tuning.rtpReorderTtl

/-- `expire_missing_head`; it returns whether it reports a loss. -/
def expireMissingHead (ssrc : UInt32) (now : ℕ) (force : Bool) :
    Option ReceiveRtpPacketLossEvent × ReceiveSsrcState ρ :=
  match s.nextSeq with
  | none => (none, s)
  | some firstSeq =>
    match s.missing.lookup firstSeq with
    | none => (none, s)
    | some firstMissing =>
      if Overdue tuning now force firstMissing then
        let e := expireLoop tuning now force ⟨firstSeq, firstSeq, firstMissing.userId, 0, s.missing⟩
        if e.missingPackets = 0 then (none, { s with missing := e.missing })
        else
          (some
            { ssrc, userId := e.userId, firstSeq, lastSeq := e.lastSeq
              missingPackets := e.missingPackets
              ageMs := min ((now - firstMissing.detectedAt) / 10 ^ 6) (2 ^ 64 - 1) },
            { s with
              missing := e.missing, nextSeq := some e.seq, assembler := s.assembler.clear })
      else (none, s)

/-- `pop_ready_buffered_frame` up to the assembler. -/
def takeReady : Outlet ρ × ReceiveSsrcState ρ :=
  match s.assembler.popCompleted with
  | (some frame, assembler) => (.frame (some frame), { s with assembler })
  | (none, _) =>
    match s.nextSeq with
    | none => (.frame none, s)
    | some seq =>
      match s.pendingMedia.lookup seq with
      | none => (.frame none, s)
      | some packet => (.packet packet,
          { s with
            pendingMedia := s.pendingMedia.erase seq
            missing := s.missing.erase seq
            nextSeq := some (seq + 1) })

/-- The packet waits, and those before it are marked. -/
def buffer (expected : UInt16) (packet : PendingMediaPacket ρ) (now : ℕ) : ReceiveSsrcState ρ :=
  { s with
    missing := markMissing expected (packet.rtp.seq - expected) packet.userId now s.missing
    pendingMedia := orInsert packet.rtp.seq packet s.pendingMedia }

/-- `push_media_packet` up to the assembler. -/
def place (packet : PendingMediaPacket ρ) (now : ℕ) :
    Option ReceiveRtpPacketLossEvent × Outlet ρ × ReceiveSsrcState ρ :=
  let seq := packet.rtp.seq
  match s.nextSeq with
  | none => (none, .packet packet, { s with nextSeq := some (seq + 1) })
  | some expected =>
    if seq = expected then
      (none, .packet packet,
        { s with
          missing := s.missing.erase seq
          pendingMedia := s.pendingMedia.erase seq
          nextSeq := some (seq + 1) })
    else
      let forward := seq - expected
      if forward < 0x8000 then
        if tuning.rtpReorderBufferMaxFrames < forward.toNat then
          (some
            { ssrc := packet.rtp.ssrc, userId := packet.userId, firstSeq := expected
              lastSeq := seq - 1, missingPackets := forward, ageMs := 0 },
            .packet packet,
            { missing := ∅, pendingMedia := ∅, assembler := s.assembler.clear
              nextSeq := some (seq + 1) })
        else
          let s := s.buffer expected packet now
          if tuning.rtpReorderBufferMaxFrames < s.pendingMedia.keys.length then
            let (loss, s) := s.expireMissingHead tuning packet.rtp.ssrc now true
            (loss, s.takeReady)
          else (none, s.takeReady)
      else (none, .frame none, s)

def finish : Outlet ρ → Except RtpError (Option (PendingMediaFrame ρ)) × ReceiveSsrcState ρ
  | .frame frame => (.ok frame, s)
  | .packet packet =>
    let (result, assembler) := s.assembler.pushPacket packet
    (result, { s with assembler })

def popReadyBufferedFrame : Except RtpError (Option (PendingMediaFrame ρ)) × ReceiveSsrcState ρ :=
  let (outlet, s) := s.takeReady
  s.finish outlet

def pushMediaPacket (packet : PendingMediaPacket ρ) (now : ℕ) :
    Option ReceiveRtpPacketLossEvent × Except RtpError (Option (PendingMediaFrame ρ)) ×
      ReceiveSsrcState ρ :=
  let (loss, outlet, s) := s.place tuning packet now
  (loss, s.finish outlet)

end ReceiveSsrcState

end Cacophony.Reorder
