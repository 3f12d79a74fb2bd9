import Cacophony.DatagramSafety
import Cacophony.Progs
import Cacophony.RtpPayload

/-!
RTP payloads are parsed and taken apart in bounds.

Behind a datagram that was opened stand bytes that may be anything. The parser of each codec and
the functions that append to the frame are written with their indices checked. A function that
appends to the frame of its caller returns the frame beside its result, also when it fails in the
middle of a payload; what it has appended is drawn from the payload.
-/

namespace Cacophony.ReceiveSafety

open Transport Leb128 AnnexB FrameCodecs
open Rtpsize RtpPayload FrameSafety

/-! ### Parsed payloads -/

/-- `H264::parse_fragment_payload`. The source cuts `nalu_header` to its length when it appends. -/
def h264FragmentAt (payload : Bytes) : Option (Except RtpError H26xFragmentPayload) :=
  if payload.length < 3 then some (malformed .h264 "truncated H264 FU-A payload")
  else do
    let fuIndicator : UInt8 ← payload[0]?
    let fuHeader : UInt8 ← payload[1]?
    let fragmentPayload ← sliceAt payload 2 payload.length
    let naluHeader ← sliceAt [(fuIndicator &&& 0xe0) ||| (fuHeader &&& 0x1f), 0] 0 1
    some (.ok ⟨fuHeader &&& 0x80 ≠ 0, fuHeader &&& 0x40 ≠ 0, naluHeader, fragmentPayload⟩)

/-- `H265::parse_fragment_payload` -/
def h265FragmentAt (payload : Bytes) : Option (Except RtpError H26xFragmentPayload) :=
  if payload.length < 4 then some (malformed .h265 "truncated H265 FU payload")
  else do
    let fuIndicator : UInt8 ← payload[0]?
    let layer : UInt8 ← payload[1]?
    let fuHeader : UInt8 ← payload[2]?
    let fragmentPayload ← sliceAt payload 3 payload.length
    let naluHeader ← sliceAt
      [(fuIndicator &&& (0x81 : UInt8)) ||| ((fuHeader &&& (0x3f : UInt8)) <<< 1), layer] 0 2
    some (.ok ⟨fuHeader &&& 0x80 ≠ 0, fuHeader &&& 0x40 ≠ 0, naluHeader, fragmentPayload⟩)

/-- `H265::rtp_nalu_type`; that of H.264 indexes nothing. -/
def h265NaluTypeAt (payload : Bytes) : Option (Except RtpError UInt8) :=
  if payload.length < FrameCodecs.h265.nalHeaderBytes then
    some (malformed .h265 "truncated H265 payload header")
  else do
    let header : UInt8 ← payload[0]?
    some (.ok (FrameCodecs.h265.nalType header))

/-- `parse_h26x_payload` -/
def parseH26xPayloadAt (C : H26xRtpPayload) (naluType : Option (Except RtpError UInt8))
    (fragment : Option (Except RtpError H26xFragmentPayload)) (payload : Bytes)
    (marker hasPartialFrame : Bool) : Option (Except RtpError ParsedRtpPayload) := do
  match ← naluType with
  | .error error => some (.error error)
  | .ok naluType =>
    if C.isSingleNaluType naluType then
      some (.ok ⟨⟨!hasPartialFrame, marker⟩, .h26xNalu payload⟩)
    else if C.isAggregationNaluType naluType then do
      let rest ← sliceAt payload C.aggregationPayloadOffset payload.length
      some (.ok ⟨⟨!hasPartialFrame, marker⟩, .h26xAggregation C.codec rest⟩)
    else if C.isFragmentNaluType naluType then do
      match ← fragment with
      | .error error => some (.error error)
      | .ok fragment => some (.ok ⟨⟨fragment.startsFragment, marker && fragment.completesFragment⟩,
          .h26xFragment fragment⟩)
    else some (malformed C.codec C.unsupportedRtpNalUnitType)

/-- `ParsedRtpPayload::parse`. The descriptors are read by `get`, and only cut off. -/
def parsePayloadAt (codec : Codec) (payload : Bytes) (marker hasPartialFrame : Bool) :
    Option (Except RtpError ParsedRtpPayload) :=
  match codec with
  | .opus => some (.ok ⟨⟨true, true⟩, .raw payload⟩)
  | .vp8 =>
    match vp8Descriptor payload with
    | .error error => some (.error error)
    | .ok (descriptorLen, startsFrame) => do
      let rest ← sliceAt payload descriptorLen payload.length
      some (.ok ⟨⟨startsFrame, marker && descriptorLen < payload.length⟩, .raw rest⟩)
  | .vp9 =>
    match vp9Descriptor payload with
    | .error error => some (.error error)
    | .ok descriptor => do
      let rest ← sliceAt payload descriptor.len payload.length
      some (.ok ⟨⟨descriptor.startsFrame, marker || descriptor.completesFrame⟩, .raw rest⟩)
  | .h264 => parseH26xPayloadAt h264Rtp (some (h264Rtp.rtpNaluType payload))
      (h264FragmentAt payload) payload marker hasPartialFrame
  | .h265 => parseH26xPayloadAt h265Rtp (h265NaluTypeAt payload) (h265FragmentAt payload) payload
      marker hasPartialFrame
  | .av1 =>
    match payload with
    | [] => some (malformed .av1 "empty AV1 payload")
    | aggregationHeader :: payload =>
      some (.ok ⟨⟨!hasPartialFrame && aggregationHeader &&& 0x80 = 0, marker⟩,
        .av1 ((aggregationHeader >>> 4) &&& 0x03) payload⟩)

lemma h264FragmentAt_eq (payload : Bytes) :
    h264FragmentAt payload = some (h264Rtp.parseFragmentPayload payload) := by
  rcases payload with _ | ⟨a, _ | ⟨b, _ | ⟨c, rest⟩⟩⟩
  · rfl
  · rfl
  · rfl
  · rw [h264FragmentAt, if_neg (by simp)]
    simp only [List.getElem?_cons_zero, List.getElem?_cons_succ, Option.bind_eq_bind,
      Option.bind_some]
    rw [sliceAt_end (by simp)]
    rfl

lemma h265FragmentAt_eq (payload : Bytes) :
    h265FragmentAt payload = some (h265Rtp.parseFragmentPayload payload) := by
  rcases payload with _ | ⟨a, _ | ⟨b, _ | ⟨c, _ | ⟨d, rest⟩⟩⟩⟩
  · rfl
  · rfl
  · rfl
  · rfl
  · rw [h265FragmentAt, if_neg (by simp)]
    simp only [List.getElem?_cons_zero, List.getElem?_cons_succ, Option.bind_eq_bind,
      Option.bind_some]
    rw [sliceAt_end (by simp)]
    rfl

lemma h265NaluTypeAt_eq (payload : Bytes) :
    h265NaluTypeAt payload = some (h265Rtp.rtpNaluType payload) := by
  rcases payload with _ | ⟨a, _ | ⟨b, rest⟩⟩
  · rfl
  · rfl
  · rw [h265NaluTypeAt, if_neg (by simp [FrameCodecs.h265])]
    rfl

/-- The type of a unit is only read when the header is there that an aggregation leaves out. -/
lemma parseH26xPayloadAt_eq {C : H26xRtpPayload} {payload : Bytes}
    {fragment : Option (Except RtpError H26xFragmentPayload)}
    (hfragment : fragment = some (C.parseFragmentPayload payload))
    (hheader : ∀ naluType, C.rtpNaluType payload = .ok naluType →
      C.aggregationPayloadOffset ≤ payload.length) (marker hasPartialFrame : Bool) :
    parseH26xPayloadAt C (some (C.rtpNaluType payload)) fragment payload marker hasPartialFrame =
      some (parseH26xPayload C payload marker hasPartialFrame) := by
  rw [parseH26xPayloadAt, parseH26xPayload, hfragment]
  rcases htype : C.rtpNaluType payload with error | naluType
  · rfl
  dsimp only [Option.bind_eq_bind, Option.bind_some, bind, Except.bind]
  by_cases hsingle : C.isSingleNaluType naluType = true
  · rw [if_pos hsingle, if_pos hsingle]
    rfl
  rw [if_neg hsingle, if_neg hsingle]
  by_cases haggregation : C.isAggregationNaluType naluType = true
  · rw [if_pos haggregation, if_pos haggregation, sliceAt_end (hheader naluType htype)]
    rfl
  rw [if_neg haggregation, if_neg haggregation]
  by_cases hfragment : C.isFragmentNaluType naluType = true
  · rw [if_pos hfragment, if_pos hfragment]
    rcases C.parseFragmentPayload payload <;> rfl
  · rw [if_neg hfragment, if_neg hfragment]

/-- A descriptor that is accepted lies in the payload. -/
lemma vp8Descriptor_le {payload : Bytes} {len : ℕ} {startsFrame : Bool}
    (h : vp8Descriptor payload = .ok (len, startsFrame)) : len ≤ payload.length := by
  unfold vp8Descriptor at h
  rcases hfirst : payload.head? with _ | first
  · rw [hfirst] at h
    cases h
  rw [hfirst] at h
  dsimp only at h
  rcases hlen : vp8Descriptor.vp8DescriptorLen payload first with error | len'
  · rw [hlen] at h
    cases h
  rw [hlen] at h
  dsimp only [bind, Except.bind] at h
  split at h
  · cases h
  · cases h
    omega

/-- What goes on behind a branch has been reached with some value. -/
lemma ok_of_ite_bind {α β : Type} {c : Prop} [Decidable c] {x y : Except RtpError α}
    {f : α → Except RtpError β} {b : β}
    (h : (if c then x >>= f else y >>= f) = .ok b) : ∃ a, f a = .ok b := by
  split at h
  · exact ((Progs.bind_ok_iff _ _ _).mp h).imp fun _ ha => ha.2
  · exact ((Progs.bind_ok_iff _ _ _).mp h).imp fun _ ha => ha.2

lemma vp9Descriptor_le {payload : Bytes} {descriptor : Vp9Descriptor}
    (h : vp9Descriptor payload = .ok descriptor) : descriptor.len ≤ payload.length := by
  unfold vp9Descriptor at h
  rcases hflags : payload.head? with _ | flags
  · rw [hflags] at h
    cases h
  rw [hflags] at h
  obtain ⟨_, -, h⟩ := (Progs.bind_ok_iff _ _ _).mp h
  obtain ⟨_, h⟩ := ok_of_ite_bind h
  obtain ⟨len, h⟩ := ok_of_ite_bind h
  dsimp only at h
  split at h
  · cases h
  · cases h
    dsimp only
    omega

lemma parsePayloadAt_eq (codec : Codec) (payload : Bytes) (marker hasPartialFrame : Bool) :
    parsePayloadAt codec payload marker hasPartialFrame =
      some (ParsedRtpPayload.parse codec payload marker hasPartialFrame) := by
  unfold parsePayloadAt ParsedRtpPayload.parse
  cases codec with
  | opus => rfl
  | vp8 =>
    dsimp only
    rcases h : vp8Descriptor payload with error | ⟨len, startsFrame⟩
    · rfl
    · dsimp only
      rw [sliceAt_end (vp8Descriptor_le h)]
      rfl
  | vp9 =>
    dsimp only
    rcases h : vp9Descriptor payload with error | descriptor
    · rfl
    · dsimp only
      rw [sliceAt_end (vp9Descriptor_le h)]
      rfl
  | h264 =>
    refine parseH26xPayloadAt_eq (h264FragmentAt_eq payload) (fun naluType htype => ?_) _ _
    rcases payload with _ | ⟨header, rest⟩
    · cases htype
    · exact Nat.le_add_left 1 _
  | h265 =>
    dsimp only
    rw [h265NaluTypeAt_eq]
    refine parseH26xPayloadAt_eq (h265FragmentAt_eq payload) (fun naluType htype => ?_) _ _
    rcases payload with _ | ⟨header, _ | ⟨layer, rest⟩⟩
    · cases htype
    · cases htype
    · exact Nat.le_add_left 2 _
  | av1 => cases payload <;> rfl

/-! ### What is appended -/

lemma length_sliceAt {xs ys : Bytes} {start stop : ℕ} (h : sliceAt xs start stop = some ys) :
    start + ys.length = stop ∧ stop ≤ xs.length := by
  unfold sliceAt at h
  split at h
  · cases h
    rw [length_slice]
    omega
  · cases h

lemma sliceAt_front {xs : Bytes} {stop : ℕ} (h : stop ≤ xs.length) :
    sliceAt xs 0 stop = some (xs.take stop) := by
  rw [sliceAt_eq (Nat.zero_le _) h, slice, List.drop_zero, Nat.sub_zero]

/-- `append_h26x_aggregation`: its result, and what the frame is then. -/
def appendH26xAggregationAt (codec : Codec) (payload frame : Bytes) :
    Option (Except RtpError Unit × Bytes) :=
  if payload.isEmpty then some (.ok (), frame)
  else if payload.length < 2 then
    some (malformed codec "truncated H26x aggregation length", frame)
  else do
    let high : UInt8 ← payload[0]?
    let low : UInt8 ← payload[1]?
    let naluLen := high.toNat * 2 ^ 8 + low.toNat
    match _h : sliceAt payload 2 payload.length with
    | none => none
    | some units =>
      if units.length < naluLen then
        some (malformed codec "truncated H26x aggregation NAL unit", frame)
      else do
        let nalu ← sliceAt units 0 naluLen
        match _h' : sliceAt units naluLen units.length with
        | none => none
        | some rest => appendH26xAggregationAt codec rest (frame ++ annexBNalu nalu)
termination_by payload.length
decreasing_by
  have hunits := length_sliceAt _h
  have hrest := length_sliceAt _h'
  omega

/-- The loop of `append_av1_payload`. -/
def appendAv1ElementsAt (w elements : UInt8) (payload frame : Bytes) :
    Option (Except RtpError Unit × Bytes) :=
  if payload.isEmpty then some (.ok (), frame)
  else
    let elements := if elements = 255 then 255 else elements + 1
    if w ≠ 0 ∧ elements = w then some (.ok (), frame ++ payload)
    else
      match _hread : DecodedUleb128.read payload with
      | none => some (malformed .av1 "invalid AV1 OBU length", frame)
      | some (len, n) =>
        match _h : sliceAt payload n payload.length with
        | none => none
        | some obus =>
          if obus.length < len then some (malformed .av1 "truncated AV1 OBU element", frame)
          else do
            let obu ← sliceAt obus 0 len
            match _h' : sliceAt obus len obus.length with
            | none => none
            | some rest => appendAv1ElementsAt w elements rest (frame ++ obu)
termination_by payload.length
decreasing_by
  have hlen := read_len _hread
  have hobus := length_sliceAt _h
  have hrest := length_sliceAt _h'
  omega

/-- `append_depacketized` -/
def appendDepacketizedAt (payload : DepacketizedPayload) (frame : Bytes) :
    Option (Except RtpError Unit × Bytes) :=
  match payload with
  | .raw payload => some (.ok (), frame ++ payload)
  | .h26xNalu nalu => some (.ok (), frame ++ annexBNalu nalu)
  | .h26xAggregation codec payload => appendH26xAggregationAt codec payload frame
  | .h26xFragment fragment =>
    some (.ok (), (if fragment.startsFragment then
      frame ++ (h26xLongStartCode ++ fragment.naluHeader) else frame) ++ fragment.fragmentPayload)
  | .av1 w payload =>
    if w = 1 then some (.ok (), frame ++ payload) else appendAv1ElementsAt w 0 payload frame

/-- The bytes `out` are bytes of the list, each at most once and in their order, with pieces of the
kind `inserted` between them. -/
inductive Drawn (inserted : Bytes → Prop) : (bytes out : Bytes) → Prop
  | done (rest : Bytes) : Drawn inserted rest []
  | skip (xs : Bytes) {rest out : Bytes} (h : Drawn inserted rest out) :
      Drawn inserted (xs ++ rest) out
  | copy (xs : Bytes) {rest out : Bytes} (h : Drawn inserted rest out) :
      Drawn inserted (xs ++ rest) (xs ++ out)
  | insert {xs rest out : Bytes} (hxs : inserted xs) (h : Drawn inserted rest out) :
      Drawn inserted rest (xs ++ out)

/-- The header of the unit that a fragment belongs to. -/
def rebuiltHeader : Codec → Bytes → Option Bytes
  | .h264, fuIndicator :: fuHeader :: _ => some [(fuIndicator &&& 0xe0) ||| (fuHeader &&& 0x1f)]
  | .h265, fuIndicator :: layer :: fuHeader :: _ => some
    [(fuIndicator &&& (0x81 : UInt8)) ||| ((fuHeader &&& (0x3f : UInt8)) <<< 1), layer]
  | _, _ => none

/-- What a payload of H.264 or H.265 may add that does not stand in it. -/
def Inserted (codec : Codec) (payload xs : Bytes) : Prop :=
  (codec = .h264 ∨ codec = .h265) ∧
    (xs = h26xLongStartCode ∨ rebuiltHeader codec payload = some xs)

variable {inserted : Bytes → Prop} {payload rest frame xs : Bytes}
  {result : Option (Except RtpError Unit × Bytes)} {unchecked : Except RtpError Bytes}

/-- The checked function returns, what it has appended is drawn from the payload, and the unchecked
one has the same result. -/
def Appends (inserted : Bytes → Prop) (payload frame : Bytes)
    (result : Option (Except RtpError Unit × Bytes)) (unchecked : Except RtpError Bytes) : Prop :=
  ∃ r appended, result = some (r, frame ++ appended) ∧ Drawn inserted payload appended ∧
    unchecked = r.map fun _ => frame ++ appended

namespace Appends

lemma all (payload frame : Bytes) :
    Appends inserted payload frame (some (.ok (), frame ++ payload)) (.ok (frame ++ payload)) := by
  have hcopy : Drawn inserted (payload ++ []) (payload ++ []) := .copy payload (.done [])
  rw [List.append_nil] at hcopy
  exact ⟨.ok (), payload, rfl, hcopy, rfl⟩

lemma nothing (payload frame : Bytes) :
    Appends inserted payload frame (some (.ok (), frame)) (.ok frame) :=
  ⟨.ok (), [], by rw [List.append_nil], .done _, by rw [List.append_nil]; rfl⟩

lemma fails (error : RtpError) (payload frame : Bytes) :
    Appends inserted payload frame (some (.error error, frame)) (.error error) :=
  ⟨.error error, [], by rw [List.append_nil], .done _, rfl⟩

/-- A payload behind a descriptor. -/
lemma behind (h : Appends inserted rest frame result unchecked) (front : Bytes) :
    Appends inserted (front ++ rest) frame result unchecked := by
  obtain ⟨r, appended, hresult, hout, hunchecked⟩ := h
  exact ⟨r, appended, hresult, .skip front hout, hunchecked⟩

/-- A piece that does not stand in the payload. -/
lemma inserting (h : Appends inserted payload (frame ++ xs) result unchecked)
    (hxs : inserted xs) : Appends inserted payload frame result unchecked := by
  obtain ⟨r, appended, hresult, hout, hunchecked⟩ := h
  rw [List.append_assoc] at hresult hunchecked
  exact ⟨r, xs ++ appended, hresult, .insert hxs hout, hunchecked⟩

/-- The rest of a payload behind a piece that was appended. -/
lemma after (h : Appends inserted rest (frame ++ xs) result unchecked)
    (hdrawn : ∀ out, Drawn inserted rest out → Drawn inserted payload (xs ++ out)) :
    Appends inserted payload frame result unchecked := by
  obtain ⟨r, appended, hresult, hout, hunchecked⟩ := h
  rw [List.append_assoc] at hresult hunchecked
  exact ⟨r, xs ++ appended, hresult, hdrawn appended hout, hunchecked⟩

end Appends

/-- A length and the unit behind it. -/
lemma appendH26xAggregationAt_cons (codec : Codec) (high low : UInt8) (payload frame : Bytes) :
    appendH26xAggregationAt codec (high :: low :: payload) frame =
      let naluLen := high.toNat * 2 ^ 8 + low.toNat
      if payload.length < naluLen then
        some (malformed codec "truncated H26x aggregation NAL unit", frame)
      else appendH26xAggregationAt codec (payload.drop naluLen)
        (frame ++ annexBNalu (payload.take naluLen)) := by
  have hunits : sliceAt (high :: low :: payload) 2 (high :: low :: payload).length =
      some payload := sliceAt_end (by simp)
  rw [appendH26xAggregationAt, if_neg (by simp), if_neg (by simp)]
  simp only [List.getElem?_cons_zero, List.getElem?_cons_succ, Option.bind_eq_bind,
    Option.bind_some]
  split
  · next hnone => rw [hunits] at hnone; cases hnone
  · next units hsome =>
    obtain rfl : payload = units := Option.some.inj (hunits.symm.trans hsome)
    split
    · rfl
    · next hlen =>
      rw [sliceAt_front (by omega), Option.bind_some]
      have hrest : sliceAt payload (high.toNat * 2 ^ 8 + low.toNat) payload.length =
          some (payload.drop (high.toNat * 2 ^ 8 + low.toNat)) := sliceAt_end (by omega)
      split
      · next hnone => rw [hrest] at hnone; cases hnone
      · next rest hsome =>
        obtain rfl : payload.drop _ = rest := Option.some.inj (hrest.symm.trans hsome)
        rfl

lemma appendH26xAggregationAt_appends (hcode : inserted h26xLongStartCode) (codec : Codec)
    (payload frame : Bytes) :
    Appends inserted payload frame (appendH26xAggregationAt codec payload frame)
      (appendH26xAggregation codec payload frame) := by
  fun_induction appendH26xAggregation codec payload frame with
  | case1 frame =>
    rw [appendH26xAggregationAt]
    exact Appends.nothing _ _
  | case2 frame =>
    rw [appendH26xAggregationAt]
    exact Appends.fails _ _ _
  | case3 frame high low payload naluLen hlen =>
    rw [appendH26xAggregationAt_cons]
    dsimp only
    rw [if_pos hlen]
    exact Appends.fails _ _ _
  | case4 frame high low payload naluLen hlen ih =>
    rw [appendH26xAggregationAt_cons]
    dsimp only
    rw [if_neg hlen]
    refine ih.after fun out hout => ?_
    have hsplit : high :: low :: payload =
        [high, low] ++ (payload.take naluLen ++ payload.drop naluLen) := by simp
    rw [hsplit, annexBNalu, List.append_assoc]
    exact .skip _ (.insert hcode (.copy _ hout))

section Av1

variable {w elements : UInt8} {len k : ℕ}

lemma appendAv1ElementsAt_obu (hempty : ¬ payload.isEmpty = true)
    (hlast : ¬ (w ≠ 0 ∧ (if elements = 255 then 255 else elements + 1) = w))
    (hread : DecodedUleb128.read payload = some (len, k)) :
    appendAv1ElementsAt w elements payload frame =
      if (payload.drop k).length < len then
        some (malformed .av1 "truncated AV1 OBU element", frame)
      else appendAv1ElementsAt w (if elements = 255 then 255 else elements + 1)
        ((payload.drop k).drop len) (frame ++ (payload.drop k).take len) := by
  have hobus : sliceAt payload k payload.length = some (payload.drop k) :=
    sliceAt_end (read_len hread).2
  rw [appendAv1ElementsAt, if_neg hempty]
  dsimp only
  rw [if_neg hlast]
  split
  · next hnone => rw [hread] at hnone; cases hnone
  · next len' k' hsome =>
    rw [hread] at hsome
    cases hsome
    split
    · next hnone => rw [hobus] at hnone; cases hnone
    · next obus hsome =>
      obtain rfl : payload.drop k = obus := Option.some.inj (hobus.symm.trans hsome)
      by_cases hlen : (payload.drop k).length < len
      · rw [if_pos hlen, if_pos hlen]
      · have hrest : sliceAt (payload.drop k) len (payload.drop k).length =
            some ((payload.drop k).drop len) := sliceAt_end (by omega)
        rw [if_neg hlen, if_neg hlen, sliceAt_front (by omega), Option.bind_eq_bind,
          Option.bind_some]
        split
        · next hnone => rw [hrest] at hnone; cases hnone
        · next rest hsome =>
          obtain rfl : (payload.drop k).drop len = rest :=
            Option.some.inj (hrest.symm.trans hsome)
          rfl

lemma appendAv1ElementsAt_appends (w elements : UInt8) (payload frame : Bytes) :
    Appends inserted payload frame (appendAv1ElementsAt w elements payload frame)
      (appendAv1Elements w elements payload frame) := by
  fun_induction appendAv1Elements w elements payload frame with
  | case1 elements payload frame hempty =>
    rw [appendAv1ElementsAt, if_pos hempty]
    exact Appends.nothing _ _
  | case2 elements payload frame hempty next hlast =>
    have hlast : w ≠ 0 ∧ (if elements = 255 then 255 else elements + 1) = w := hlast
    rw [appendAv1ElementsAt, if_neg hempty]
    dsimp only
    rw [if_pos hlast]
    exact Appends.all _ _
  | case3 elements payload frame hempty next hlast hread =>
    have hlast : ¬ (w ≠ 0 ∧ (if elements = 255 then 255 else elements + 1) = w) := hlast
    rw [appendAv1ElementsAt, if_neg hempty]
    dsimp only
    rw [if_neg hlast]
    split
    · exact Appends.fails _ _ _
    · next hsome => rw [hread] at hsome; cases hsome
  | case4 elements payload frame hempty next hlast len k hread hlen =>
    rw [appendAv1ElementsAt_obu hempty hlast hread, if_pos hlen]
    exact Appends.fails _ _ _
  | case5 elements payload frame hempty next hlast len k hread hlen ih =>
    rw [appendAv1ElementsAt_obu hempty hlast hread, if_neg hlen]
    refine ih.after fun out hout => ?_
    have hdrawn : Drawn inserted (payload.take k ++
        ((payload.drop k).take len ++ (payload.drop k).drop len))
        ((payload.drop k).take len ++ out) := .skip _ (.copy _ hout)
    rwa [List.take_append_drop, List.take_append_drop] at hdrawn

end Av1

lemma parseH26xPayload_appends {C : H26xRtpPayload} {codec : Codec}
    (hcodec : codec = .h264 ∨ codec = .h265)
    (hfragment : ∀ fragment, C.parseFragmentPayload payload = .ok fragment →
      ∃ front, payload = front ++ fragment.fragmentPayload ∧
        rebuiltHeader codec payload = some fragment.naluHeader)
    {marker hasPartialFrame : Bool} {parsed : ParsedRtpPayload}
    (h : parseH26xPayload C payload marker hasPartialFrame = .ok parsed) (frame : Bytes) :
    Appends (Inserted codec payload) payload frame (appendDepacketizedAt parsed.depacketized frame)
      (appendDepacketized parsed.depacketized frame) := by
  have hcode : Inserted codec payload h26xLongStartCode := ⟨hcodec, .inl rfl⟩
  obtain ⟨naluType, -, h⟩ := (Progs.bind_ok_iff _ _ _).mp h
  split at h
  · -- one unit
    cases h
    rw [appendDepacketizedAt, appendDepacketized, annexBNalu, ← List.append_assoc]
    exact (Appends.all _ _).inserting hcode
  split at h
  · -- an aggregation
    cases h
    have hrest := appendH26xAggregationAt_appends hcode C.codec
      (payload.drop C.aggregationPayloadOffset) frame
    have hbehind := hrest.behind (payload.take C.aggregationPayloadOffset)
    rwa [List.take_append_drop] at hbehind
  split at h
  · -- a fragment
    obtain ⟨fragment, hparse, h⟩ := (Progs.bind_ok_iff _ _ _).mp h
    cases h
    obtain ⟨front, hpayload, hheader⟩ := hfragment fragment hparse
    have hall (frame : Bytes) : Appends (Inserted codec payload) payload frame
        (some (.ok (), frame ++ fragment.fragmentPayload))
        (.ok (frame ++ fragment.fragmentPayload)) := by
      have hbody : Appends (Inserted codec payload) fragment.fragmentPayload frame _ _ :=
        Appends.all _ _
      have hbehind := hbody.behind front
      rwa [← hpayload] at hbehind
    dsimp only [appendDepacketizedAt, appendDepacketized]
    cases fragment.startsFragment with
    | false => exact hall frame
    | true =>
      rw [if_pos rfl, ← List.append_assoc]
      exact ((hall _).inserting ⟨hcodec, .inr hheader⟩).inserting hcode
  · cases h

lemma parse_appends {codec : Codec} {marker hasPartialFrame : Bool} {parsed : ParsedRtpPayload}
    (h : ParsedRtpPayload.parse codec payload marker hasPartialFrame = .ok parsed)
    (frame : Bytes) :
    Appends (Inserted codec payload) payload frame (appendDepacketizedAt parsed.depacketized frame)
      (appendDepacketized parsed.depacketized frame) := by
  have hraw (codec : Codec) (len : ℕ) : Appends (Inserted codec payload) payload frame
      (some (.ok (), frame ++ payload.drop len)) (.ok (frame ++ payload.drop len)) := by
    have hbody : Appends (Inserted codec payload) (payload.drop len) frame _ _ :=
      Appends.all _ _
    have hbehind := hbody.behind (payload.take len)
    rwa [List.take_append_drop] at hbehind
  cases codec with
  | opus =>
    cases h
    exact Appends.all _ _
  | vp8 =>
    obtain ⟨⟨len, startsFrame⟩, -, h⟩ := (Progs.bind_ok_iff _ _ _).mp h
    cases h
    exact hraw .vp8 len
  | vp9 =>
    obtain ⟨descriptor, -, h⟩ := (Progs.bind_ok_iff _ _ _).mp h
    cases h
    exact hraw .vp9 descriptor.len
  | h264 =>
    refine parseH26xPayload_appends (.inl rfl) (fun fragment hfragment => ?_) h frame
    rcases payload with _ | ⟨a, _ | ⟨b, _ | ⟨c, rest⟩⟩⟩
    · cases hfragment
    · cases hfragment
    · cases hfragment
    · cases hfragment
      exact ⟨[a, b], rfl, rfl⟩
  | h265 =>
    refine parseH26xPayload_appends (.inr rfl) (fun fragment hfragment => ?_) h frame
    rcases payload with _ | ⟨a, _ | ⟨b, _ | ⟨c, _ | ⟨d, rest⟩⟩⟩⟩
    · cases hfragment
    · cases hfragment
    · cases hfragment
    · cases hfragment
    · cases hfragment
      exact ⟨[a, b, c], rfl, rfl⟩
  | av1 =>
    rcases payload with _ | ⟨aggregationHeader, payload⟩
    · cases h
    · cases h
      dsimp only [appendDepacketizedAt, appendDepacketized]
      rw [appendAv1Payload]
      split
      · exact (Appends.all payload frame).behind [aggregationHeader]
      · exact (appendAv1ElementsAt_appends _ 0 payload frame).behind [aggregationHeader]

/-- A payload: what it says of its frame, and then what it appends. -/
def depacketizeAt (codec : Codec) (payload : Bytes) (marker hasPartialFrame : Bool)
    (frame : Bytes) : Option (Except RtpError RtpPayloadBoundary × Bytes) := do
  match ← parsePayloadAt codec payload marker hasPartialFrame with
  | .error error => some (.error error, frame)
  | .ok parsed =>
    let (result, frame) ← appendDepacketizedAt parsed.depacketized frame
    some (result.map fun _ => parsed.boundary, frame)

/-- A payload, unchecked. -/
def depacketize (codec : Codec) (payload : Bytes) (marker hasPartialFrame : Bool) (frame : Bytes) :
    Except RtpError (RtpPayloadBoundary × Bytes) := do
  let parsed ← ParsedRtpPayload.parse codec payload marker hasPartialFrame
  let frame ← appendDepacketized parsed.depacketized frame
  return (parsed.boundary, frame)

lemma depacketizeAt_eq (codec : Codec) (payload : Bytes) (marker hasPartialFrame : Bool)
    (frame : Bytes) : ∃ result appended,
      depacketizeAt codec payload marker hasPartialFrame frame =
        some (result, frame ++ appended) ∧
      Drawn (Inserted codec payload) payload appended ∧
      depacketize codec payload marker hasPartialFrame frame =
        result.map fun boundary => (boundary, frame ++ appended) := by
  rw [depacketizeAt, depacketize, parsePayloadAt_eq, Option.bind_eq_bind, Option.bind_some]
  rcases h : ParsedRtpPayload.parse codec payload marker hasPartialFrame with error | parsed
  · exact ⟨.error error, [], by rw [List.append_nil], .done _, rfl⟩
  · obtain ⟨r, appended, hresult, hdrawn, hunchecked⟩ := parse_appends h frame
    refine ⟨r.map fun _ => parsed.boundary, appended, ?_, hdrawn, ?_⟩
    · dsimp only
      rw [hresult]
      rfl
    · change (appendDepacketized parsed.depacketized frame >>= fun frame =>
        pure (parsed.boundary, frame)) = _
      rw [hunchecked]
      cases r <;> rfl

/-- **The receive path is safe.** On any bytes nothing is read out of bounds and no subtraction
goes below zero, and a payload appends its own bytes, start codes and rebuilt unit headers. -/
theorem receive_safe (T : TransportCipher) (datagram payload frame : Bytes) (opusOffset : ℕ)
    (rtp : RtpHeader) (codec : Codec) (marker hasPartialFrame : Bool) :
    parseHeaderAt datagram = some (parseHeader datagram) ∧
    receiveAt T datagram = some (receive T datagram) ∧
    stripDecryptedRtpPayloadAt payload opusOffset rtp =
      some (stripDecryptedRtpPayload payload opusOffset rtp) ∧
    parsePayloadAt codec payload marker hasPartialFrame =
      some (ParsedRtpPayload.parse codec payload marker hasPartialFrame) ∧
    ∃ result appended,
      depacketizeAt codec payload marker hasPartialFrame frame =
        some (result, frame ++ appended) ∧
      Drawn (Inserted codec payload) payload appended ∧
      depacketize codec payload marker hasPartialFrame frame =
        result.map fun boundary => (boundary, frame ++ appended) :=
  ⟨parseHeaderAt_eq datagram, receiveAt_eq T datagram,
    stripDecryptedRtpPayloadAt_eq payload opusOffset rtp,
    parsePayloadAt_eq codec payload marker hasPartialFrame,
    depacketizeAt_eq codec payload marker hasPartialFrame frame⟩

end Cacophony.ReceiveSafety
