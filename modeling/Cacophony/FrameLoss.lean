import Cacophony.FrameGroups
import Cacophony.UnitPackets

/-!
Frames from the packetizer to the stream of a receiver, over a way that loses packets.

VP8 and VP9 frames tell in every packet whether it is the first. They come out whole and in order or
not at all. H.264, H.265 and AV1 frames do so only if each has one unit: the packets of a later unit
are taken for a frame when those before them are lost.
-/

namespace Cacophony.FrameLoss

open AnnexB FrameCodecs Transport RtpPayload
open Assembler Reorder FramePackets PayloadRoundTrip
open Deadlines UnitPackets Streams FrameGroups

variable {ρ : Type} {codec : Codec} {tuning : ConnectionRuntimeTuning}

/-- A frame as it is sent. What else is in the packets may be anything. -/
structure SentFrame (ρ : Type) (codec : Codec) where
  frame : Bytes
  packetizer : RtpPayloadPacketizer
  payloads : List (Bytes × Bool)
  packets : List (PendingMediaPacket ρ)
  new_eq : RtpPayloadPacketizer.new codec frame = .ok packetizer
  gives : Gives packetizer payloads
  bears : List.Forall₂ (Bears codec) payloads packets

/-- Frames that are sent one after the other, as packets of one stream. -/
structure Transmission (ρ : Type) (codec : Codec) where
  sent : List (SentFrame ρ codec)
  first : UInt16
  ssrc : UInt32
  numbered : Numbered first (sent.flatMap (·.packets))
  ssrc_eq : ∀ q ∈ sent.flatMap (·.packets), q.rtp.ssrc = ssrc
  length_lt : (sent.flatMap (·.packets)).length < 2 ^ 15

def Transmission.packets (T : Transmission ρ codec) : List (PendingMediaPacket ρ) :=
  T.sent.flatMap (·.packets)

/-! ### VP8 and VP9 -/

/-- The payloads of a VP8 or VP9 frame. -/
lemma sole_of_header (header : FragmentedPayloadHeader) (s : SentFrame ρ (headerCodec header)) :
    Sole (headerCodec header) s.payloads s.frame := by
  obtain ⟨p, xs, hnew, hgives, -, hsole⟩ := packed_fragmented header (frame_ne_nil s.new_eq)
  obtain rfl := Except.ok.inj (s.new_eq.symm.trans hnew)
  rwa [s.gives.unique hgives]

lemma headerCodec_ne (header : FragmentedPayloadHeader) : headerCodec header ≠ .av1 := by
  cases header <;> decide

lemma sublist_of_header (header : FragmentedPayloadHeader)
    (T : Transmission ρ (headerCodec header)) {t : ℕ} {qs : List (PendingMediaPacket ρ)}
    {outs : List (Output ρ)} (hqs : ∀ q ∈ qs, q ∈ T.packets) {order : HashOrder UInt32}
    (hrun : Delivers tuning t (.new order) qs outs) :
    ((frames outs).map (·.encryptedFrame)).Sublist (T.sent.map (·.frame)) := by
  have hgroups : ∀ s ∈ T.sent, Group (headerCodec header) s.packets (· = s.frame) :=
    fun s _ => .sole (sole_of_header header s) s.bears
      (fun h => absurd h (headerCodec_ne header)) rfl
  obtain ⟨sub, hsub, houts⟩ := emits_of_delivers hgroups T.numbered T.length_lt T.ssrc_eq hqs hrun
  have hbytes : (frames outs).map (·.encryptedFrame) = sub.map (·.frame) := by
    clear hsub
    generalize frames outs = fs at houts
    induction houts with
    | nil => rfl
    | cons hf _ ih => rw [List.map_cons, List.map_cons, hf.content, ih]
  rw [hbytes]
  exact hsub.map _

/-- **Loss, reordering and duplication.** Whichever packets of VP8 or VP9 frames come, in whatever
order, how often and when, the frames handed out are sent ones, each at most once and in the order
in which they were sent. -/
theorem sublist_of_delivers (hcodec : codec = .vp8 ∨ codec = .vp9) (T : Transmission ρ codec)
    {t : ℕ} {qs : List (PendingMediaPacket ρ)} {outs : List (Output ρ)}
    (hqs : ∀ q ∈ qs, q ∈ T.packets) {order : HashOrder UInt32}
    (hrun : Delivers tuning t (.new order) qs outs) :
    ((frames outs).map (·.encryptedFrame)).Sublist (T.sent.map (·.frame)) := by
  rcases hcodec with rfl | rfl
  · exact sublist_of_header .vp8 T hqs hrun
  · exact sublist_of_header .vp9 T hqs hrun

/-- A packet with nothing but what matters here. -/
def plainPacket (codec : Codec) (seq : UInt16) (timestamp : UInt32) (x : Bytes × Bool) :
    PendingMediaPacket UInt16 :=
  Stream.packet ⟨⟨2, false, false, x.2, 96, seq, timestamp, 1, 12, 12⟩, none, false, id⟩ codec seq x

/-- Two frames of a byte each, over the end of the sequence numbers. -/
def twoFrames : Transmission UInt16 .vp8 where
  sent :=
    [{ frame := [7], packetizer := ⟨.vp8, .fragmented [7] 0 .vp8⟩, payloads := [([0x10, 7], true)]
       packets := [plainPacket .vp8 0xffff 0 ([0x10, 7], true)], new_eq := rfl
       gives := ⟨rfl, rfl⟩, bears := .cons ⟨rfl, rfl, rfl⟩ .nil },
     { frame := [8], packetizer := ⟨.vp8, .fragmented [8] 0 .vp8⟩, payloads := [([0x10, 8], true)]
       packets := [plainPacket .vp8 0 3000 ([0x10, 8], true)], new_eq := rfl
       gives := ⟨rfl, rfl⟩, bears := .cons ⟨rfl, rfl, rfl⟩ .nil }]
  first := 0xffff
  ssrc := 1
  numbered := numbered_cons.mpr ⟨rfl, numbered_cons.mpr ⟨rfl, nofun⟩⟩
  ssrc_eq := List.forall_mem_cons.mpr ⟨rfl, List.forall_mem_singleton.mpr rfl⟩
  length_lt := by decide

/-- The second frame comes first, and both come twice. -/
theorem sublist_twoFrames :
    ((frames (deliverAt .default 0 {} (twoFrames.packets.reverse ++ twoFrames.packets)).1).map
      (·.encryptedFrame)).Sublist [[7], [8]] := by
  refine sublist_of_delivers (.inl rfl) twoFrames (fun q hq => ?_)
    (delivers_deliverAt 0 (.new (.listed _)) _)
  simpa using hq

/-! ### H.264, H.265 and AV1 -/

/-- When packets get lost and the others come in order, every frame handed out is what an assembler
makes of one sent frame, all packets of which came. -/
def Intact (tuning : ConnectionRuntimeTuning) (T : Transmission ρ codec) : Prop :=
  ∀ order t qs outs, qs.Sublist T.packets → Delivers tuning t (.new order) qs outs →
    ∀ f, .ok f ∈ outs → ∃ s ∈ T.sent, .ok f ∈ emitted {} s.packets ∧ ∀ q ∈ s.packets, q ∈ qs

/-- The frame has one unit. If that fits a payload, it is not one that reads as the first fragment
of another unit. -/
def OneNal (D : H26x) (frame : Bytes) : Prop :=
  ∃ nal, (nalus frame).toList = [nal] ∧ (nal.length ≤ rtpMediaPayloadMaxBytes →
    ∀ payload, ParsedRtpPayload.parse D.codec nal true false ≠ .ok ⟨⟨true, false⟩, payload⟩)

def OneUnit : Codec → Bytes → Prop
  | .h264, frame => OneNal .h264 frame
  | .h265, frame => OneNal .h265 frame
  | .av1, frame => av1ObuEnd .av1 frame 0 = .ok frame.length
  | _, _ => True

lemma group_of_oneNal (D : H26x) (s : SentFrame ρ D.codec) (h : OneNal D s.frame) :
    Group D.codec s.packets (fun _ => True) := by
  obtain ⟨nal, hnalus, hunopened⟩ := h
  have hpayloads : s.payloads = unitPayloads D nal true := by
    rw [(framePayloads_of_gives s.new_eq s.gives).2, hnalus]
    rfl
  have hbears := s.bears
  rw [hpayloads] at hbears
  by_cases hle : nal.length ≤ rtpMediaPayloadMaxBytes
  · rw [unitPayloads, if_pos hle] at hbears
    generalize s.packets = packets at hbears
    cases hbears with | cons hq hrest =>
    cases hrest
    refine .alone (pushPacket_closed fun payload => ?_) fun _ _ => trivial
    rw [hq.parse]
    exact hunopened hle payload
  · exact .sole (sole_fragments hle) hbears (fun h => by cases D <;> cases h) trivial

/-- The payloads of an AV1 frame, and those of its last unit. -/
lemma split_of_av1 (s : SentFrame ρ .av1) :
    ∃ front last bytes, s.payloads = front ++ last ∧ Sole .av1 last bytes ∧
      (front = [] ↔ OneUnit .av1 s.frame) := by
  have hne := frame_ne_nil s.new_eq
  obtain ⟨front, last, bytes, hgives, -, hsole, hfront⟩ :=
    packed_av1 (obus_of_packets s.new_eq s.gives) (List.length_pos_iff.mpr hne) false 0
  have hnew := s.new_eq
  simp only [RtpPayloadPacketizer.new, List.isEmpty_iff, if_neg hne, packetizerState,
    Except.map, Except.ok.injEq] at hnew
  refine ⟨front, last, bytes, ?_, hsole, hfront⟩
  exact s.gives.unique (hnew ▸ hgives)

lemma group_of_oneUnit (hcodec : codec ∈ [.h264, .h265, .av1]) (s : SentFrame ρ codec)
    (huniform : codec = .av1 → Uniform s.packets) (h : OneUnit codec s.frame) :
    Group codec s.packets (fun _ => True) := by
  simp only [List.mem_cons, List.not_mem_nil, or_false] at hcodec
  rcases hcodec with rfl | rfl | rfl
  · exact group_of_oneNal .h264 s h
  · exact group_of_oneNal .h265 s h
  · obtain ⟨front, last, bytes, hsplit, hsole, hfront⟩ := split_of_av1 s
    obtain rfl := hfront.mpr h
    have hbears := s.bears
    rw [hsplit] at hbears
    exact .sole hsole hbears huniform trivial

/-- **Loss.** When each frame has one unit, no frame that lost a packet is handed out. -/
theorem intact_of_oneUnit (hcodec : codec ∈ [.h264, .h265, .av1]) (T : Transmission ρ codec)
    (huniform : codec = .av1 → ∀ s ∈ T.sent, Uniform s.packets)
    (hone : ∀ s ∈ T.sent, OneUnit codec s.frame) (tuning : ConnectionRuntimeTuning) :
    Intact tuning T := by
  intro order t qs outs hqs hrun f hf
  have hgroups : ∀ s ∈ T.sent, Group codec s.packets (fun _ => True) := fun s hs =>
    group_of_oneUnit hcodec s (fun h => huniform h s hs) (hone s hs)
  obtain ⟨sub, hsub, houts⟩ := emits_of_delivers hgroups T.numbered T.length_lt T.ssrc_eq
    (fun q hq => hqs.subset hq) hrun
  have hmem : f ∈ frames outs := List.mem_filterMap.mpr ⟨_, hf, rfl⟩
  obtain ⟨s, hs, hemits⟩ : ∃ s ∈ sub, Emits SentFrame.packets (fun _ _ => True) (· ∈ qs) s f := by
    clear hsub
    generalize frames outs = fs at houts hmem
    induction houts with
    | nil => cases hmem
    | cons hemits _ ih =>
      rcases List.mem_cons.mp hmem with rfl | hmem
      · exact ⟨_, List.mem_cons_self, hemits⟩
      · obtain ⟨s, hs, hemits⟩ := ih hmem
        exact ⟨s, List.mem_cons_of_mem _ hs, hemits⟩
  exact ⟨s, hsub.subset hs, hemits.mem, hemits.arrived⟩

/-- Two frames of one unit each. -/
def oneUnits : Transmission UInt16 .av1 where
  sent :=
    [{ frame := [0x30, 7], packetizer := ⟨.av1, .av1 [0x30, 7] 0 0 0⟩
       payloads := [([0x10, 0x30, 7], true)]
       packets := [plainPacket .av1 0 0 ([0x10, 0x30, 7], true)], new_eq := rfl
       gives := ⟨by decide +kernel, show (RtpPayloadPacketizer.next _).1 = _ by decide +kernel⟩
       bears := .cons ⟨rfl, rfl, rfl⟩ .nil },
     { frame := [0x32, 1, 8], packetizer := ⟨.av1, .av1 [0x32, 1, 8] 0 0 0⟩
       payloads := [([0x10, 0x32, 1, 8], true)]
       packets := [plainPacket .av1 1 3000 ([0x10, 0x32, 1, 8], true)], new_eq := rfl
       gives := ⟨by decide +kernel, show (RtpPayloadPacketizer.next _).1 = _ by decide +kernel⟩
       bears := .cons ⟨rfl, rfl, rfl⟩ .nil }]
  first := 0
  ssrc := 1
  numbered := numbered_cons.mpr ⟨rfl, numbered_cons.mpr ⟨rfl, nofun⟩⟩
  ssrc_eq := List.forall_mem_cons.mpr ⟨rfl, List.forall_mem_singleton.mpr rfl⟩
  length_lt := by decide

theorem oneUnits_intact : Intact .default oneUnits := by
  refine intact_of_oneUnit (by decide) oneUnits (fun _ s hs => ?_) (fun s hs => ?_) .default
  · rcases List.mem_cons.mp hs with rfl | hs
    · decide
    · obtain rfl := List.mem_singleton.mp hs
      decide
  · rcases List.mem_cons.mp hs with rfl | hs
    · change av1ObuEnd .av1 [0x30, 7] 0 = .ok 2
      decide +kernel
    · obtain rfl := List.mem_singleton.mp hs
      change av1ObuEnd .av1 [0x32, 1, 8] 0 = .ok 3
      decide +kernel

/-- When all before the last unit gets lost, the last unit is taken for the frame. -/
lemma not_intact {T : Transmission ρ codec} {s : SentFrame ρ codec} (hs : s ∈ T.sent)
    {front last : List (Bytes × Bool)} {bytes : Bytes} (hsplit : s.payloads = front ++ last)
    (hfront : front ≠ []) (hsole : Sole codec last bytes) (huniform : Uniform s.packets)
    (tuning : ConnectionRuntimeTuning) : ¬ Intact tuning T := by
  intro hintact
  obtain ⟨before, after, hsent⟩ := List.append_of_mem hs
  have hbears := s.bears
  rw [hsplit] at hbears
  obtain ⟨fs, ls, hpackets, hfs, hls⟩ : ∃ fs ls, s.packets = fs ++ ls ∧
      List.Forall₂ (Bears codec) front fs ∧ List.Forall₂ (Bears codec) last ls := by
    refine ⟨s.packets.take front.length, s.packets.drop front.length,
      (List.take_append_drop _ _).symm, ?_, ?_⟩
    · have htake := List.forall₂_take front.length hbears
      rwa [List.take_left] at htake
    · have hdrop := List.forall₂_drop front.length hbears
      rwa [List.drop_left] at hdrop
  -- the packets of the last unit in their place
  have hall : T.packets =
      (before.flatMap (·.packets) ++ fs) ++ (ls ++ after.flatMap (·.packets)) := by
    simp only [Transmission.packets, hsent, List.flatMap_append, List.flatMap_cons, hpackets,
      List.append_assoc]
  have hnum : Numbered T.first T.packets := T.numbered
  have hnodup : T.packets.Nodup := hnum.nodup (T.length_lt.le.trans (by decide))
  have hsub : ls.Sublist T.packets := by
    rw [hall]
    exact (List.sublist_append_left _ _).trans (List.sublist_append_right _ _)
  rw [hall] at hnum hnodup
  have hlast : Numbered _ ls := hnum.append_right.append_left
  have huniform' : Uniform ls := fun p hp q hq =>
    huniform p (hpackets ▸ List.mem_append_right _ hp) q (hpackets ▸ List.mem_append_right _ hq)
  obtain ⟨f, hf⟩ := emits_of_sole hsole hls huniform' hlast
  have hrun := (calm_new (.listed _) T.ssrc).deliverAt (.inl rfl) hlast
    (fun q hq => T.ssrc_eq q (hsub.subset hq)) tuning 0
  obtain ⟨s', hs', hemitted, harrived⟩ :=
    hintact (.listed _) 0 ls _ hsub (delivers_deliverAt 0 _ ls) f (hrun ▸ hf)
  -- no packet outside the last unit came
  obtain ⟨-, hrest, houter⟩ := List.nodup_append.mp hnodup
  obtain ⟨-, -, hinner⟩ := List.nodup_append.mp hrest
  have hnot : ∀ q ∈ ls, q ∉ before.flatMap (·.packets) ∧ q ∉ fs ∧ q ∉ after.flatMap (·.packets) :=
    fun q hq => ⟨fun h => houter q (List.mem_append_left _ h) q (List.mem_append_left _ hq) rfl,
      fun h => houter q (List.mem_append_right _ h) q (List.mem_append_left _ hq) rfl,
      fun h => hinner q hq q h rfl⟩
  have hsome : s'.packets ≠ [] := by
    intro h
    rw [h] at hemitted
    cases hemitted
  rw [hsent, List.mem_append, List.mem_cons] at hs'
  rcases hs' with hbefore | rfl | hafter
  · obtain ⟨q, hq⟩ := List.exists_mem_of_ne_nil s'.packets hsome
    exact (hnot q (harrived q hq)).1 (List.mem_flatMap.mpr ⟨s', hbefore, hq⟩)
  · obtain ⟨q, hq⟩ := List.exists_mem_of_ne_nil fs (by rintro rfl; cases hfs; exact hfront rfl)
    exact (hnot q (harrived q (hpackets ▸ List.mem_append_left _ hq))).2.1 hq
  · obtain ⟨q, hq⟩ := List.exists_mem_of_ne_nil s'.packets hsome
    exact (hnot q (harrived q hq)).2.2 (List.mem_flatMap.mpr ⟨s', hafter, hq⟩)

/-- All units of the frame can be sent as they are. -/
def AllSendable : Codec → Bytes → Prop
  | .h264, frame => ∀ nal ∈ (nalus frame).toList, Sendable .h264 nal
  | .h265, frame => ∀ nal ∈ (nalus frame).toList, Sendable .h265 nal
  | _, _ => True

/-- The payloads of an H.264 or H.265 frame, and those of its last unit. -/
lemma split_of_nalus (D : H26x) (s : SentFrame ρ D.codec)
    (hsend : ∀ nal ∈ (nalus s.frame).toList, Sendable D nal) :
    ∃ front last bytes, s.payloads = front ++ last ∧ Sole D.codec last bytes ∧
      (front = [] → OneNal D s.frame) := by
  obtain ⟨hne, hpayloads⟩ := framePayloads_of_gives s.new_eq s.gives
  generalize hnals : (nalus s.frame).toList = nals at hne hpayloads hsend
  obtain ⟨nals, nal, rfl⟩ : ∃ front last, nals = front ++ [last] :=
    ⟨_, _, (List.dropLast_append_getLast hne).symm⟩
  have hlast : Sendable D nal := hsend nal (List.mem_append_right _ (List.mem_singleton_self _))
  refine ⟨_, _, _, hpayloads.trans (framePayloads_concat D nals nal), sole_unit hlast, fun h => ?_⟩
  obtain rfl : nals = [] := by
    rcases nals with _ | ⟨n, nals⟩
    · rfl
    · exact absurd (List.append_eq_nil_iff.mp h).1 (unitPayloads_ne_nil D n false)
  refine ⟨nal, hnals, fun hle payload => ?_⟩
  rw [H26xPackets.parse_single (hlast hle)]
  intro h
  cases h

/-- A frame that never comes out without all of its packets has one unit. -/
theorem oneUnit_of_intact (hcodec : codec ∈ [.h264, .h265, .av1]) {T : Transmission ρ codec}
    (hintact : Intact tuning T) {s : SentFrame ρ codec} (hs : s ∈ T.sent)
    (huniform : Uniform s.packets) (hsend : AllSendable codec s.frame) : OneUnit codec s.frame := by
  obtain ⟨front, last, bytes, hsplit, hsole, hfront⟩ : ∃ front last bytes,
      s.payloads = front ++ last ∧ Sole codec last bytes ∧
      (front = [] → OneUnit codec s.frame) := by
    simp only [List.mem_cons, List.not_mem_nil, or_false] at hcodec
    rcases hcodec with rfl | rfl | rfl
    · exact split_of_nalus .h264 s hsend
    · exact split_of_nalus .h265 s hsend
    · obtain ⟨front, last, bytes, hsplit, hsole, hfront⟩ := split_of_av1 s
      exact ⟨front, last, bytes, hsplit, hsole, hfront.mp⟩
  by_contra hmore
  exact not_intact hs hsplit (fun h => hmore (hfront h)) hsole huniform tuning hintact

/-- A frame of two units. -/
def twoUnits : Transmission UInt16 .av1 where
  sent :=
    [{ frame := [0x32, 1, 7, 0x30, 8], packetizer := ⟨.av1, .av1 [0x32, 1, 7, 0x30, 8] 0 0 0⟩
       payloads := [([0x10, 0x32, 1, 7], false), ([0x10, 0x30, 8], true)]
       packets := [plainPacket .av1 0 0 ([0x10, 0x32, 1, 7], false),
         plainPacket .av1 1 0 ([0x10, 0x30, 8], true)]
       new_eq := rfl
       gives := ⟨by decide +kernel, by decide +kernel,
         show (RtpPayloadPacketizer.next _).1 = _ by decide +kernel⟩
       bears := .cons ⟨rfl, rfl, rfl⟩ (.cons ⟨rfl, rfl, rfl⟩ .nil) }]
  first := 0
  ssrc := 1
  numbered := numbered_cons.mpr ⟨rfl, numbered_cons.mpr ⟨rfl, nofun⟩⟩
  ssrc_eq := List.forall_mem_cons.mpr ⟨rfl, List.forall_mem_singleton.mpr rfl⟩
  length_lt := by decide

/-- Without its first packet, the second unit comes out as a frame. -/
theorem twoUnits_not_intact : ¬ Intact .default twoUnits := by
  intro hintact
  have hone : av1ObuEnd .av1 [0x32, 1, 7, 0x30, 8] 0 = .ok 5 :=
    oneUnit_of_intact (by decide) hintact List.mem_cons_self (by decide) trivial
  exact absurd hone (by decide +kernel)

end Cacophony.FrameLoss
