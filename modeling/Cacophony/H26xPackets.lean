import Cacophony.FramePackets

/-!
H.264 and H.265 frames through packetizer and assembler.

The packetizer sends a unit in one payload, or in fragments when it is longer than a payload.
The assembler takes the first fragment of a unit for the start of a frame, and what it had of
the frame before is gone. So a frame comes back whole exactly when no unit but the first is
sent in fragments.
-/

namespace Cacophony.H26xPackets

open AnnexB FrameCodecs Transport RtpPayload
open Assembler FramePackets

/-! ### Units and their payloads -/

/-- A unit that may be sent in a payload of its own. -/
def SingleUnit (D : H26x) (nal : Bytes) : Prop :=
  D.frameCodec.nalHeaderBytes ≤ nal.length ∧
    (rtpFormat D).isSingleNaluType (D.frameCodec.nalType (nal.headD 0))

instance (D : H26x) (nal : Bytes) : Decidable (SingleUnit D nal) :=
  inferInstanceAs (Decidable (_ ∧ _))

variable {D : H26x} {nal body : Bytes}

lemma parse_h26x (D : H26x) (payload : Bytes) (marker hasPartialFrame : Bool) :
    ParsedRtpPayload.parse D.codec payload marker hasPartialFrame =
      parseH26xPayload (rtpFormat D) payload marker hasPartialFrame := by
  cases D <;> rfl

/-- A unit in one payload. -/
lemma parse_single (h : SingleUnit D nal) (marker hasPartialFrame : Bool) :
    ParsedRtpPayload.parse D.codec nal marker hasPartialFrame =
      .ok ⟨⟨!hasPartialFrame, marker⟩, .h26xNalu nal⟩ := by
  have htype : (rtpFormat D).rtpNaluType nal = .ok (D.frameCodec.nalType (nal.headD 0)) := by
    obtain ⟨hlen, -⟩ := h
    cases D with
    | h264 =>
      rcases nal with _ | ⟨b, nal⟩
      · exact absurd hlen (by decide)
      · rfl
    | h265 =>
      rcases nal with _ | ⟨b, _ | ⟨c, nal⟩⟩
      · exact absurd hlen (by decide)
      · exact absurd hlen (by simp [H26x.frameCodec, FrameCodecs.h265])
      · rfl
  rw [parse_h26x, parseH26xPayload, htype]
  simp only [bind, Except.bind, h.2, if_true]
  rfl

lemma or_and_distrib (x y m : UInt8) : (x ||| y) &&& m = (x &&& m) ||| (y &&& m) := by
  apply UInt8.toBitVec_inj.mp
  ext i hi
  simp [Bool.and_or_distrib_right]

/-- The byte of a fragment header with the flags, beside other bits. -/
abbrev fragmentByte (first last : Bool) (x : UInt8) : UInt8 :=
  flag first 0x80 ||| flag last 0x40 ||| x

/-- Bits that a mask drops do not matter beside the flags, nor do the flags beside other bits. -/
lemma flags_and {x m : UInt8} (hx : x &&& m = 0) (first last : Bool) :
    fragmentByte first last x &&& m = (flag first 0x80 ||| flag last 0x40) &&& m := by
  rw [or_and_distrib, hx, UInt8.or_zero]

lemma and_flags {x m : UInt8} (hm : m &&& 0xc0 = 0) (first last : Bool) :
    fragmentByte first last x &&& m = x &&& m := by
  have hflags : (flag first 0x80 ||| flag last 0x40) &&& m = 0 := by
    have hkeep : (flag first 0x80 ||| flag last 0x40) &&& 0xc0 =
        flag first 0x80 ||| flag last 0x40 := by
      cases first <;> cases last <;> rfl
    rw [← hkeep, UInt8.and_assoc, UInt8.and_comm 0xc0, hm, UInt8.and_zero]
  rw [or_and_distrib, hflags, UInt8.zero_or]

lemma fragment_flags {x : UInt8} (hx : x &&& 0xc0 = 0) (first last : Bool) :
    decide (fragmentByte first last x &&& 0x80 ≠ 0) = first ∧
    decide (fragmentByte first last x &&& 0x40 ≠ 0) = last := by
  have hsub : ∀ m : UInt8, 0xc0 &&& m = m → x &&& m = 0 := by
    intro m hm
    rw [← hm, ← UInt8.and_assoc, hx, UInt8.zero_and]
  rw [flags_and (hsub 0x80 rfl), flags_and (hsub 0x40 rfl)]
  cases first <;> cases last <;> decide

/-- The type, the flags and the unit header that a fragment header tells. -/
lemma h264_fragment_bits (b : UInt8) (first last : Bool) :
    FrameCodecs.h264.nalType ((b &&& 0xe0) ||| 28) = 28 ∧
    decide (fragmentByte first last (b &&& 0x1f) &&& 0x80 ≠ 0) = first ∧
    decide (fragmentByte first last (b &&& 0x1f) &&& 0x40 ≠ 0) = last ∧
    (((b &&& 0xe0) ||| 28) &&& 0xe0) ||| (fragmentByte first last (b &&& 0x1f) &&& 0x1f) = b := by
  have hbits : ∀ b : UInt8, FrameCodecs.h264.nalType ((b &&& 0xe0) ||| 28) = 28 ∧
      (b &&& 0x1f) &&& 0xc0 = 0 ∧
      (((b &&& 0xe0) ||| 28) &&& 0xe0) ||| ((b &&& 0x1f) &&& 0x1f) = b := by decide +kernel
  obtain ⟨htype, hlow, hheader⟩ := hbits b
  obtain ⟨hfirst, hlast⟩ := fragment_flags hlow first last
  exact ⟨htype, hfirst, hlast, by rw [and_flags rfl, hheader]⟩

lemma h265_fragment_bits (b : UInt8) (first last : Bool) :
    FrameCodecs.h265.nalType ((b &&& (0x81 : UInt8)) ||| ((49 : UInt8) <<< 1)) = 49 ∧
    decide (fragmentByte first last ((b &&& 0x7e) >>> 1) &&& 0x80 ≠ 0) = first ∧
    decide (fragmentByte first last ((b &&& 0x7e) >>> 1) &&& 0x40 ≠ 0) = last ∧
    (((b &&& (0x81 : UInt8)) ||| ((49 : UInt8) <<< 1)) &&& (0x81 : UInt8)) |||
      ((fragmentByte first last ((b &&& 0x7e) >>> 1) &&& 0x3f) <<< 1) = b := by
  have hbits : ∀ b : UInt8,
      FrameCodecs.h265.nalType ((b &&& (0x81 : UInt8)) ||| ((49 : UInt8) <<< 1)) = 49 ∧
      ((b &&& 0x7e) >>> 1) &&& 0xc0 = 0 ∧
      (((b &&& (0x81 : UInt8)) ||| ((49 : UInt8) <<< 1)) &&& (0x81 : UInt8)) |||
        ((((b &&& 0x7e) >>> 1) &&& 0x3f) <<< 1) = b := by decide +kernel
  obtain ⟨htype, hlow, hheader⟩ := hbits b
  obtain ⟨hfirst, hlast⟩ := fragment_flags hlow first last
  exact ⟨htype, hfirst, hlast, by rw [and_flags rfl, hheader]⟩

/-- What a fragment header tells is what it was written from. -/
lemma writeFragmentHeader_ok (h : D.frameCodec.nalHeaderBytes ≤ nal.length) (first last : Bool)
    (c : UInt8) (body : Bytes) :
    ∃ header naluType, (rtpFormat D).writeFragmentHeader nal first last = .ok header ∧
      header.length = (rtpFormat D).fragmentHeaderLen ∧
      (rtpFormat D).rtpNaluType (header ++ c :: body) = .ok naluType ∧
      (rtpFormat D).isSingleNaluType naluType = false ∧
      (rtpFormat D).isAggregationNaluType naluType = false ∧
      (rtpFormat D).isFragmentNaluType naluType = true ∧
      (rtpFormat D).parseFragmentPayload (header ++ c :: body) =
        .ok ⟨first, last, nal.take D.frameCodec.nalHeaderBytes, c :: body⟩ := by
  cases D with
  | h264 =>
    rcases nal with _ | ⟨b, nal⟩
    · exact absurd h (by decide)
    obtain ⟨htype, hfirst, hlast, hheader⟩ := h264_fragment_bits b first last
    refine ⟨_, 28, rfl, rfl, congrArg Except.ok htype, rfl, rfl, rfl, congrArg Except.ok ?_⟩
    rw [H26xFragmentPayload.mk.injEq]
    exact ⟨hfirst, hlast, congrArg (fun b => [b]) hheader, rfl⟩
  | h265 =>
    rcases nal with _ | ⟨b, _ | ⟨layer, nal⟩⟩
    · exact absurd h (by decide)
    · exact absurd h (by simp [H26x.frameCodec, FrameCodecs.h265])
    obtain ⟨htype, hfirst, hlast, hheader⟩ := h265_fragment_bits b first last
    refine ⟨_, 49, rfl, rfl, congrArg Except.ok htype, rfl, rfl, rfl, congrArg Except.ok ?_⟩
    rw [H26xFragmentPayload.mk.injEq]
    exact ⟨hfirst, hlast, congrArg (fun b => [b, layer]) hheader, rfl⟩

/-- A fragment of a unit. -/
lemma parse_fragment (h : D.frameCodec.nalHeaderBytes ≤ nal.length) (first last : Bool)
    (hbody : body ≠ []) :
    ∃ header, (rtpFormat D).writeFragmentHeader nal first last = .ok header ∧
      header.length = (rtpFormat D).fragmentHeaderLen ∧
      ∀ marker hasPartialFrame,
        ParsedRtpPayload.parse D.codec (header ++ body) marker hasPartialFrame =
          .ok ⟨⟨first, marker && last⟩, .h26xFragment
            ⟨first, last, nal.take D.frameCodec.nalHeaderBytes, body⟩⟩ := by
  obtain ⟨c, body, rfl⟩ := List.exists_cons_of_ne_nil hbody
  obtain ⟨header, naluType, hwrite, hlen, htype, hsingle, haggregation, hfragment, hparse⟩ :=
    writeFragmentHeader_ok h first last c body
  refine ⟨header, hwrite, hlen, fun marker hasPartialFrame => ?_⟩
  rw [parse_h26x, parseH26xPayload, htype, hparse]
  simp only [bind, Except.bind, hsingle, haggregation, hfragment]
  rfl

/-! ### Packetizer and assembler together -/

variable {ρ : Type} {S : Stream ρ} {a : RtpFrameAssembler ρ} {seq : UInt16} {begun : Option Bytes}
  {x : Bytes × Bool} {bytes : Bytes}

/-- The packetizer of the codec at `s`. -/
def packetizer : H26x → H26xPacketizer → RtpPayloadPacketizer
  | .h264, s => ⟨.h264, .h264 s⟩
  | .h265, s => ⟨.h265, .h265 s⟩

lemma new_packetizer {frame : Bytes} {it : AnnexBNalus} (hframe : frame ≠ [])
    (h : (nalus frame).advance = some (nal, it)) :
    RtpPayloadPacketizer.new D.codec frame =
      .ok (packetizer D { nalus := it, nalu := some nal }) := by
  cases D <;>
    simp [RtpPayloadPacketizer.new, hframe, packetizerState, H26x.codec, H26xPacketizer.new, h,
      packetizer, Except.map]

variable {s s' : H26xPacketizer}

lemma next_packetizer (h : s.nextPayload (rtpFormat D) = .ok (some (x.1, x.2, s'))) :
    (packetizer D s).next = (.ok (some x), packetizer D s') := by
  cases D with
  | h264 =>
    change s.nextPayload h264Rtp = _ at h
    rw [packetizer, RtpPayloadPacketizer.next]
    simp only [RtpPayloadPacketizer.nextState, RtpPayloadPacketizer.wrap, h]
    rfl
  | h265 =>
    change s.nextPayload h265Rtp = _ at h
    rw [packetizer, RtpPayloadPacketizer.next]
    simp only [RtpPayloadPacketizer.nextState, RtpPayloadPacketizer.wrap, h]
    rfl

/-- A packetizer without a unit has no payload. -/
lemma next_packetizer_none (h : s.nalu = none) : (packetizer D s).next.1 = .ok none := by
  cases D <;>
    simp [packetizer, RtpPayloadPacketizer.next, RtpPayloadPacketizer.nextState,
      RtpPayloadPacketizer.wrap, H26xPacketizer.nextPayload, h, Except.map]

/-- The two ends, and the sequence number of the next packet. -/
structure Link (ρ : Type) where
  packetizer : H26xPacketizer
  assembler : RtpFrameAssembler ρ
  seq : UInt16

/-- The payloads `xs` bring the two from `l` to `l'`; none is too long or completes a frame. -/
structure Leads (S : Stream ρ) (D : H26x) (l : Link ρ) (xs : List (Bytes × Bool)) (l' : Link ρ) :
    Prop where
  gives : ∀ ys, Gives (packetizer D l'.packetizer) ys → Gives (packetizer D l.packetizer) (xs ++ ys)
  feeds : ∀ ys, feed S D.codec l.assembler l.seq (xs ++ ys) =
    List.replicate xs.length (.ok none) ++ feed S D.codec l'.assembler l'.seq ys
  short : ∀ x ∈ xs, x.1.length ≤ rtpMediaPayloadMaxBytes

variable {l l' l'' : Link ρ} {xs ys : List (Bytes × Bool)}

lemma Leads.refl (l : Link ρ) : Leads S D l [] l where
  gives _ h := h
  feeds _ := rfl
  short := List.forall_mem_nil _

lemma Leads.trans (h : Leads S D l xs l') (h' : Leads S D l' ys l'') :
    Leads S D l (xs ++ ys) l'' where
  gives zs hz := by
    rw [List.append_assoc]
    exact h.gives _ (h'.gives _ hz)
  feeds zs := by
    rw [List.append_assoc, h.feeds, h'.feeds, List.length_append, List.replicate_add,
      List.append_assoc]
  short := List.forall_mem_append.mpr ⟨h.short, h'.short⟩

/-- One payload that does not complete the frame. -/
lemma Leads.step (hnext : s.nextPayload (rtpFormat D) = .ok (some (x.1, false, s')))
    (hlen : x.1.length ≤ rtpMediaPayloadMaxBytes) (hmarker : x.2 = false)
    (ha : Holding S D.codec a seq begun) (hx : Adds D.codec begun x x.2 bytes) :
    ∃ a', Holding S D.codec a' (seq + 1) (some bytes) ∧
      Leads S D ⟨s, a, seq⟩ [x] ⟨s', a', seq + 1⟩ := by
  have hpush := ha.pushPacket hx
  rw [hmarker, if_neg Bool.false_ne_true] at hpush
  have hnext : (packetizer D s).next = (.ok (some x), packetizer D s') :=
    next_packetizer (hmarker ▸ hnext)
  refine ⟨_, hpush.2, ?_, ?_, List.forall_mem_singleton.mpr hlen⟩
  · intro ys hys
    exact ⟨congrArg Prod.fst hnext, (congrArg Prod.snd hnext).symm ▸ hys⟩
  · intro ys
    simp only [List.singleton_append, feed, hpush.1, List.length_singleton, List.replicate_one]

end Cacophony.H26xPackets
