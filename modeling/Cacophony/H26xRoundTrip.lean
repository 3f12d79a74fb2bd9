import Cacophony.H26xPackets

/-!
When an H.264 or H.265 frame comes back from packetizer and assembler.

A unit is sent up to an offset, fragment by fragment; the first fragment makes the assembler
forget the units before. What is left of a frame is computed by `keep`, unit by unit, and is the
frame exactly when no unit but the first is longer than a payload.
-/

namespace Cacophony.H26xRoundTrip

open AnnexB FrameCodecs RtpPayload Assembler
open FramePackets H26xPackets

variable {D : H26x} {nal : Bytes} {ρ : Type} {S : Stream ρ} {a : RtpFrameAssembler ρ} {seq : UInt16}
  {begun : Option Bytes} {s : H26xPacketizer}

/-! ### The fragments of a unit -/

/-- What of a unit is cut into fragments. -/
def fragmented (D : H26x) (nal : Bytes) : Bytes := nal.drop D.frameCodec.nalHeaderBytes

/-- What a fragmented unit leaves of a frame once it is sent up to `offset`. -/
def sentUpTo (D : H26x) (nal : Bytes) (offset : ℕ) : Bytes :=
  annexBNalu (nal.take D.frameCodec.nalHeaderBytes ++ (fragmented D nal).take offset)

/-- Where the fragment from `offset` on ends. -/
def fragmentEnd (D : H26x) (nal : Bytes) (offset : ℕ) : ℕ :=
  min (offset + (rtpMediaPayloadMaxBytes - (rtpFormat D).fragmentHeaderLen))
    (fragmented D nal).length

lemma fragmentHeaderLen_lt (D : H26x) :
    (rtpFormat D).fragmentHeaderLen < rtpMediaPayloadMaxBytes := by
  cases D <;> decide

lemma fragmentPayload_eq (h : D.frameCodec.nalHeaderBytes ≤ nal.length) :
    (rtpFormat D).fragmentPayload nal = .ok (fragmented D nal) := by
  cases D <;> exact if_neg (not_lt.mpr h)

lemma sentUpTo_append {offset stop : ℕ} (hle : offset ≤ stop) :
    sentUpTo D nal offset ++ slice (fragmented D nal) offset stop = sentUpTo D nal stop := by
  obtain ⟨n, rfl⟩ := Nat.exists_eq_add_of_le hle
  simp [sentUpTo, annexBNalu, slice, List.take_add]

lemma sentUpTo_length : sentUpTo D nal (fragmented D nal).length = annexBNalu nal := by
  rw [sentUpTo, List.take_length, fragmented, List.take_append_drop]

variable {offset : ℕ}

lemma lt_fragmentEnd (ho : offset < (fragmented D nal).length) :
    offset < fragmentEnd D nal offset := by
  have := fragmentHeaderLen_lt D
  rw [fragmentEnd]
  omega

/-- The assembler's part of a fragment. -/
lemma adds_fragment (h : D.frameCodec.nalHeaderBytes ≤ nal.length) (last : Bool)
    (ho : offset < (fragmented D nal).length)
    (hbegun : offset ≠ 0 → begun = some (sentUpTo D nal offset)) :
    ∃ header, (rtpFormat D).writeFragmentHeader nal (offset = 0) last = .ok header ∧
      header.length = (rtpFormat D).fragmentHeaderLen ∧
      ∀ marker, (marker = true → last = true) →
        Adds D.codec begun
          (header ++ slice (fragmented D nal) offset (fragmentEnd D nal offset), marker) marker
          (sentUpTo D nal (fragmentEnd D nal offset)) := by
  have hlt := lt_fragmentEnd ho
  have hbody : slice (fragmented D nal) offset (fragmentEnd D nal offset) ≠ [] := by
    rw [← List.length_pos_iff, length_slice]
    omega
  obtain ⟨header, hwrite, hlen, hparse⟩ := parse_fragment h (offset = 0) last hbody
  refine ⟨header, hwrite, hlen, fun marker hmarker => ?_⟩
  have hparse := hparse marker begun.isSome
  rw [Bool.and_eq_left_iff_imp.mpr hmarker] at hparse
  refine ⟨_, _, hparse, ?_, ?_⟩
  · by_cases hzero : offset = 0
    · exact .inl (decide_eq_true hzero)
    · exact .inr (by rw [hbegun hzero]; rfl)
  · rw [← sentUpTo_append hlt.le]
    by_cases hzero : offset = 0
    · simp [appendDepacketized, hzero, sentUpTo, annexBNalu]
    · simp [appendDepacketized, hzero, hbegun hzero]

/-- The packetizer's part of a fragment. -/
lemma nextPayload_fragment (hs : s.nalu = some nal) (hlong : rtpMediaPayloadMaxBytes < nal.length)
    (h : D.frameCodec.nalHeaderBytes ≤ nal.length) {header : Bytes}
    (hwrite : (rtpFormat D).writeFragmentHeader nal (s.fragmentOffset = 0)
      (fragmentEnd D nal s.fragmentOffset = (fragmented D nal).length) = .ok header) :
    s.nextPayload (rtpFormat D) = .ok (some
      (header ++ slice (fragmented D nal) s.fragmentOffset (fragmentEnd D nal s.fragmentOffset),
      s.nalus.isEmpty && fragmentEnd D nal s.fragmentOffset = (fragmented D nal).length,
      if fragmentEnd D nal s.fragmentOffset = (fragmented D nal).length then
        { s.nextNalu with fragmentOffset := 0 }
      else { s with fragmentOffset := fragmentEnd D nal s.fragmentOffset })) := by
  rw [fragmentEnd] at hwrite ⊢
  simp only [H26xPacketizer.nextPayload, hs, if_neg (not_le.mpr hlong), H26xPacketizer.nextFragment,
    if_neg (not_le.mpr (fragmentHeaderLen_lt D)), fragmentPayload_eq h, bind, Except.bind, hwrite]
  simp [pure, Except.pure]

/-! ### Units -/

/-- The next payload is the last of its unit: it makes `bytes` of what the assembler holds and
brings the packetizer to `s'`. -/
def Finishes (S : Stream ρ) (D : H26x) (l : Link ρ) (final : Bool) (bytes : Bytes)
    (s' : H26xPacketizer) : Prop :=
  ∃ begun payload, Holding S D.codec l.assembler l.seq begun ∧
    l.packetizer.nextPayload (rtpFormat D) = .ok (some (payload, final, s')) ∧
    payload.length ≤ rtpMediaPayloadMaxBytes ∧ Adds D.codec begun (payload, final) final bytes

/-- The units that a frame is left with when `nal` follows those before it. -/
def keep (begun : Option Bytes) (nal : Bytes) : Bytes :=
  if nal.length ≤ rtpMediaPayloadMaxBytes then begun.getD [] ++ annexBNalu nal else annexBNalu nal

lemma nextNalu_offset (s : H26xPacketizer) (offset : ℕ) :
    ({ s with fragmentOffset := offset } : H26xPacketizer).nextNalu =
      { s.nextNalu with fragmentOffset := offset } := by
  unfold H26xPacketizer.nextNalu
  cases s.nalus.advance <;> rfl

/-- The rest of a unit that is sent up to an offset. -/
lemma fragments (hlong : rtpMediaPayloadMaxBytes < nal.length)
    (h : D.frameCodec.nalHeaderBytes ≤ nal.length) (hs : s.nalu = some nal)
    (ho : s.fragmentOffset < (fragmented D nal).length) (ha : Holding S D.codec a seq begun)
    (hbegun : s.fragmentOffset ≠ 0 → begun = some (sentUpTo D nal s.fragmentOffset)) :
    ∃ xs l', Leads S D ⟨s, a, seq⟩ xs l' ∧
      Finishes S D l' s.nalus.isEmpty (annexBNalu nal) { s.nextNalu with fragmentOffset := 0 } := by
  -- each fragment takes the offset further, and the last one ends at the unit's length
  induction hn : (fragmented D nal).length - s.fragmentOffset using Nat.strong_induction_on
    generalizing s a seq begun with
  | _ n ih =>
  have hlt := lt_fragmentEnd ho
  obtain ⟨header, hwrite, hlen, hadds⟩ := adds_fragment h
    (fragmentEnd D nal s.fragmentOffset = (fragmented D nal).length) ho hbegun
  have hnext := nextPayload_fragment hs hlong h hwrite
  have hshort : (header ++ slice (fragmented D nal) s.fragmentOffset
      (fragmentEnd D nal s.fragmentOffset)).length ≤ rtpMediaPayloadMaxBytes := by
    have := fragmentHeaderLen_lt D
    rw [List.length_append, hlen, length_slice, fragmentEnd]
    omega
  by_cases hlast : fragmentEnd D nal s.fragmentOffset = (fragmented D nal).length
  · have hadds := hadds s.nalus.isEmpty fun _ => decide_eq_true hlast
    rw [if_pos hlast, decide_eq_true hlast, Bool.and_true] at hnext
    rw [hlast, sentUpTo_length] at hadds
    rw [hlast] at hnext hshort
    exact ⟨[], _, .refl _, begun, _, ha, hnext, hshort, hadds⟩
  · rw [if_neg hlast, decide_eq_false hlast, Bool.and_false] at hnext
    obtain ⟨a', ha', hstep⟩ := Leads.step (x := (_, false)) hnext hshort rfl ha
      (hadds false fun hf => absurd hf Bool.false_ne_true)
    have hle : fragmentEnd D nal s.fragmentOffset ≤ (fragmented D nal).length :=
      Nat.min_le_right _ _
    have hless : (fragmented D nal).length - fragmentEnd D nal s.fragmentOffset < n := by omega
    obtain ⟨xs, l', hleads, hfinishes⟩ := ih _ hless
      (s := { s with fragmentOffset := fragmentEnd D nal s.fragmentOffset }) hs
      (lt_of_le_of_ne hle hlast) ha' (fun _ => rfl) rfl
    rw [nextNalu_offset] at hfinishes
    exact ⟨_, l', hstep.trans hleads, hfinishes⟩

/-- A unit, in one payload or in fragments. -/
lemma unit_finishes (hunit : SingleUnit D nal) (hs : s.nalu = some nal) (ho : s.fragmentOffset = 0)
    (ha : Holding S D.codec a seq begun) :
    ∃ xs l', Leads S D ⟨s, a, seq⟩ xs l' ∧
      Finishes S D l' s.nalus.isEmpty (keep begun nal) { s.nextNalu with fragmentOffset := 0 } := by
  by_cases hlen : nal.length ≤ rtpMediaPayloadMaxBytes
  · refine ⟨[], _, .refl _, begun, nal, ha, ?_, hlen, ?_⟩
    · have hnext : { s.nextNalu with fragmentOffset := 0 } = s.nextNalu := by
        rw [← nextNalu_offset, ← ho]
      simp only [H26xPacketizer.nextPayload, hs, if_pos hlen, hnext]
    · refine ⟨_, _, parse_single hunit _ _, ?_, ?_⟩
      · cases begun <;> simp
      · rw [keep, if_pos hlen]
        cases begun <;> simp [appendDepacketized]
  · rw [keep, if_neg hlen]
    refine fragments (not_le.mp hlen) hunit.1 hs ?_ ha (absurd ho)
    have hheader : D.frameCodec.nalHeaderBytes < rtpMediaPayloadMaxBytes := by cases D <;> decide
    rw [ho, fragmented, List.length_drop]
    omega

/-! ### Frames -/

/-- The packets that are left complete one frame, with the last of them, and its bytes are
`bytes`. No payload is too long. -/
def Delivers (S : Stream ρ) (codec : Codec) (p : RtpPayloadPacketizer) (a : RtpFrameAssembler ρ)
    (seq : UInt16) (bytes : Bytes) : Prop :=
  ∃ xs k f, Gives p xs ∧ (∀ x ∈ xs, x.1.length ≤ rtpMediaPayloadMaxBytes) ∧
    feed S codec a seq xs = List.replicate k (.ok none) ++ [.ok (some f)] ∧ f.encryptedFrame = bytes

variable {l l' : Link ρ} {xs : List (Bytes × Bool)} {bytes bytes' : Bytes} {s' : H26xPacketizer}
  {codec : Codec} {p : RtpPayloadPacketizer}

lemma Delivers.unique (h : Delivers S codec p a seq bytes) (h' : Delivers S codec p a seq bytes') :
    bytes = bytes' := by
  obtain ⟨xs, k, f, hgives, -, hfeed, rfl⟩ := h
  obtain ⟨xs', k', f', hgives', -, hfeed', rfl⟩ := h'
  obtain rfl := hgives.unique hgives'
  have hlast := congrArg List.getLast? (hfeed.symm.trans hfeed')
  simp only [List.getLast?_concat, Option.some.injEq, Except.ok.injEq] at hlast
  rw [hlast]

lemma delivers_of_leads (h : Leads S D l xs l')
    (h' : Delivers S D.codec (packetizer D l'.packetizer) l'.assembler l'.seq bytes) :
    Delivers S D.codec (packetizer D l.packetizer) l.assembler l.seq bytes := by
  obtain ⟨ys, k, f, hgives, hshort, hfeed, hf⟩ := h'
  refine ⟨xs ++ ys, xs.length + k, f, h.gives ys hgives, ?_, ?_, hf⟩
  · exact List.forall_mem_append.mpr ⟨h.short, hshort⟩
  · rw [h.feeds, hfeed, List.replicate_add, List.append_assoc]

/-- The last payload of a unit that others follow. -/
lemma Finishes.leads (h : Finishes S D l false bytes s') :
    ∃ x a', Holding S D.codec a' (l.seq + 1) (some bytes) ∧
      Leads S D l [x] ⟨s', a', l.seq + 1⟩ := by
  obtain ⟨begun, payload, ha, hnext, hlen, hadds⟩ := h
  exact ⟨_, Leads.step (x := (payload, false)) hnext hlen rfl ha hadds⟩

/-- The last payload of the last unit. -/
lemma Finishes.delivers (h : Finishes S D l true bytes s') (hs : s'.nalu = none) :
    Delivers S D.codec (packetizer D l.packetizer) l.assembler l.seq bytes := by
  obtain ⟨begun, payload, ha, hnext, hlen, hadds⟩ := h
  have hpush := ha.pushPacket hadds
  rw [if_pos rfl] at hpush
  obtain ⟨f, hpush, hf⟩ := hpush
  have hnext := next_packetizer (x := (payload, true)) hnext
  refine ⟨[(payload, true)], 0, f, ⟨congrArg Prod.fst hnext, ?_⟩,
    List.forall_mem_singleton.mpr hlen, ?_, hf⟩
  · rw [hnext]
    exact next_packetizer_none hs
  · simp only [feed, hpush, List.replicate_zero, List.nil_append]

/-- The packetizer goes through the units of its iterator. -/
lemma nextNalu_of_toList {nals : List Bytes} (h : s.nalus.toList = nals) :
    match nals with
    | [] => s.nextNalu.nalu = none
    | n :: rest => s.nextNalu.nalu = some n ∧ s.nextNalu.nalus.toList = rest ∧
        s.nextNalu.nalus.Valid := by
  rw [AnnexBNalus.toList_eq] at h
  unfold H26xPacketizer.nextNalu
  rcases hadvance : s.nalus.advance with _ | ⟨n, nalus⟩
  · rw [hadvance] at h
    subst h
    rfl
  · rw [hadvance] at h
    subst h
    exact ⟨rfl, rfl, AnnexBNalus.Valid.advance hadvance⟩

/-- All units of a frame from `nal` on. -/
lemma units_deliver {rest : List Bytes} (hunits : ∀ n ∈ nal :: rest, SingleUnit D n)
    (hs : s.nalu = some nal) (ho : s.fragmentOffset = 0) (hvalid : s.nalus.Valid)
    (hrest : s.nalus.toList = rest) (ha : Holding S D.codec a seq begun) :
    Delivers S D.codec (packetizer D s) a seq
      (rest.foldl (fun b n => keep (some b) n) (keep begun nal)) := by
  induction rest generalizing nal s a seq begun with
  | nil =>
    obtain ⟨xs, l', hleads, hfinishes⟩ := unit_finishes (hunits nal List.mem_cons_self) hs ho ha
    rw [hvalid.isEmpty_iff.mpr hrest] at hfinishes
    exact delivers_of_leads hleads (hfinishes.delivers (nextNalu_of_toList hrest))
  | cons n rest ih =>
    obtain ⟨xs, l', hleads, hfinishes⟩ := unit_finishes (hunits nal List.mem_cons_self) hs ho ha
    have hmore : s.nalus.isEmpty = false := by
      rw [Bool.eq_false_iff, Ne, hvalid.isEmpty_iff, hrest]
      exact List.cons_ne_nil n rest
    rw [hmore] at hfinishes
    obtain ⟨x, a', ha', hlast⟩ := hfinishes.leads
    obtain ⟨hn, hrest, hvalid⟩ := nextNalu_of_toList hrest
    exact delivers_of_leads (hleads.trans hlast)
      (ih (List.forall_mem_cons.mp hunits).2 hn rfl hvalid hrest ha')

/-! ### Access units -/

/-- Units that make up a frame in Annex B form, from which they can be told again. -/
structure AccessUnit (D : H26x) where
  nals : List Bytes
  ne_nil : nals ≠ []
  single : ∀ nal ∈ nals, SingleUnit D nal
  nalus_eq : (nalus (nals.flatMap annexBNalu)).toList = nals

namespace AccessUnit

variable (U : AccessUnit D)

def frame : Bytes := U.nals.flatMap annexBNalu

/-- The payloads of the frame, sent as packets of the stream from `seq` on, complete one frame
with the last packet, and it is the frame. -/
def RoundTrips (S : Stream ρ) (seq : UInt16) : Prop :=
  ∃ p, RtpPayloadPacketizer.new D.codec U.frame = .ok p ∧ Delivers S D.codec p {} seq U.frame

/-- What there is of the frame at the far end. -/
def delivered : Bytes :=
  match U.nals with
  | [] => []
  | nal :: rest => rest.foldl (fun b n => keep (some b) n) (annexBNalu nal)

lemma delivers (S : Stream ρ) (seq : UInt16) :
    ∃ p, RtpPayloadPacketizer.new D.codec U.frame = .ok p ∧
      Delivers S D.codec p {} seq U.delivered := by
  obtain ⟨nals, hne, hsingle, hnalus⟩ := U
  obtain ⟨nal, rest, rfl⟩ := List.exists_cons_of_ne_nil hne
  rw [AnnexBNalus.toList_eq] at hnalus
  rcases hadvance : (nalus ((nal :: rest).flatMap annexBNalu)).advance with _ | ⟨n, it⟩
  · rw [hadvance] at hnalus
    cases hnalus
  rw [hadvance] at hnalus
  obtain ⟨rfl, hrest⟩ := List.cons.inj hnalus
  refine ⟨packetizer D { nalus := it, nalu := some n }, ?_, ?_⟩
  · exact new_packetizer (List.cons_ne_nil _ _) hadvance
  · have hkeep : keep none n = annexBNalu n := by simp [keep]
    have hunits : Delivers S D.codec (packetizer D { nalus := it, nalu := some n }) {} seq
        (rest.foldl (fun b n => keep (some b) n) (keep none n)) :=
      units_deliver hsingle rfl rfl (.advance hadvance) hrest rfl
    rwa [hkeep] at hunits

end AccessUnit

lemma keep_length_le (b : Bytes) (nal : Bytes) :
    (keep (some b) nal).length ≤ b.length + (annexBNalu nal).length := by
  unfold keep
  split
  · exact (List.length_append).le
  · exact Nat.le_add_left _ _

lemma foldl_keep_length_le (rest : List Bytes) (b : Bytes) :
    (rest.foldl (fun b n => keep (some b) n) b).length ≤
      b.length + (rest.flatMap annexBNalu).length := by
  induction rest generalizing b with
  | nil => exact Nat.le_add_right _ _
  | cons n rest ih =>
    have hkeep := keep_length_le b n
    have hrest := ih (keep (some b) n)
    rw [List.foldl_cons, List.flatMap_cons, List.length_append]
    omega

/-- Nothing is lost exactly when no unit is sent in fragments. -/
lemma foldl_keep_eq_iff (rest : List Bytes) {b : Bytes} (hb : b ≠ []) :
    rest.foldl (fun b n => keep (some b) n) b = b ++ rest.flatMap annexBNalu ↔
      ∀ n ∈ rest, n.length ≤ rtpMediaPayloadMaxBytes := by
  induction rest generalizing b with
  | nil => simp
  | cons n rest ih =>
    rw [List.foldl_cons, List.flatMap_cons, List.forall_mem_cons]
    by_cases hn : n.length ≤ rtpMediaPayloadMaxBytes
    · have hkeep : keep (some b) n = b ++ annexBNalu n := if_pos hn
      rw [hkeep, ← List.append_assoc, ih (List.append_ne_nil_of_left_ne_nil hb _)]
      exact (and_iff_right hn).symm
    · -- the unit takes the place of `b`, so the fold is shorter
      have hkeep : keep (some b) n = annexBNalu n := if_neg hn
      rw [hkeep]
      refine iff_of_false (fun heq => ?_) fun h => hn h.1
      have hlen := congrArg List.length heq
      have hle := foldl_keep_length_le rest (annexBNalu n)
      have hpos := List.length_pos_iff.mpr hb
      simp only [List.length_append] at hlen
      omega

namespace AccessUnit

lemma delivered_eq_iff (U : AccessUnit D) :
    U.delivered = U.frame ↔ ∀ nal ∈ U.nals.tail, nal.length ≤ rtpMediaPayloadMaxBytes := by
  obtain ⟨nals, hne, hsingle, hnalus⟩ := U
  obtain ⟨nal, rest, rfl⟩ := List.exists_cons_of_ne_nil hne
  exact foldl_keep_eq_iff rest (List.append_ne_nil_of_left_ne_nil (by decide) _)

/-- **Round trip.** A frame of H.264 or H.265 units comes back from the packets it is sent in,
whole and with the last of them, exactly when no unit but the first is longer than a payload. -/
theorem roundTrips_iff (U : AccessUnit D) (S : Stream ρ) (seq : UInt16) :
    U.RoundTrips S seq ↔ ∀ nal ∈ U.nals.tail, nal.length ≤ rtpMediaPayloadMaxBytes := by
  obtain ⟨p, hnew, hdelivers⟩ := U.delivers S seq
  rw [← U.delivered_eq_iff]
  constructor
  · rintro ⟨p', hnew', hdelivers'⟩
    obtain rfl := Except.ok.inj (hnew.symm.trans hnew')
    exact hdelivers.unique hdelivers'
  · intro heq
    exact ⟨p, hnew, heq ▸ hdelivers⟩

/-- A parameter set and a slice of 1201 bytes. -/
def parametersAndSlice : AccessUnit .h264 where
  nals := [[0x67], 0x65 :: List.replicate 1200 0xff]
  ne_nil := by decide
  single := by decide +kernel
  nalus_eq := by
    refine toList_nalus fun nal hnal => ?_
    have hne : nal ≠ [] ∧ 0 ∉ nal := by
      revert nal
      decide +kernel
    exact ⟨hne.1, fun j hj => hne.2 (List.mem_of_getElem? hj.1)⟩

/-- The parameter set is lost. -/
theorem parametersAndSlice_lost : ¬ parametersAndSlice.RoundTrips
    ⟨⟨2, false, false, false, 96, 0, 0, 1, 12, 12⟩, none, false, id⟩ 0 := by
  rintro ⟨p, hnew, hdelivers⟩
  obtain ⟨p', hnew', hdelivers'⟩ := parametersAndSlice.delivers _ _
  obtain rfl := Except.ok.inj (hnew.symm.trans hnew')
  have hlost := hdelivers.unique hdelivers'
  exact absurd (congrArg List.length hlost) (by decide +kernel)

end AccessUnit

end Cacophony.H26xRoundTrip
