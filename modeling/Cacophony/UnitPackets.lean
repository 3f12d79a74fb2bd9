import Cacophony.H26xRoundTrip
import Cacophony.PayloadRoundTrip

/-!
The payloads of H.264 and H.265 units, one by one.

A unit that fits is a payload as it is. A longer one is cut into fragments; the first of them brings
the header of the unit. Either way the payloads of a last unit make up a frame by themselves.
-/

namespace Cacophony.UnitPackets

open AnnexB FrameCodecs RtpPayload Assembler
open Fragments FramePackets PayloadRoundTrip
open H26xPackets H26xRoundTrip

variable {D : H26x} {nal : Bytes} {s : H26xPacketizer} {xs : List (Bytes × Bool)}

/-- The payload of a fragment; `final` is whether the unit is the last of its frame. -/
def unitFragment (D : H26x) (nal : Bytes) (final : Bool) (f : Fragment UInt8) : Bytes × Bool :=
  (((rtpFormat D).writeFragmentHeader nal f.first f.last).toOption.getD [] ++ f.body,
    f.last && final)

/-- The bytes of a fragment of a unit. -/
def fragmentSize (D : H26x) : ℕ := rtpMediaPayloadMaxBytes - (rtpFormat D).fragmentHeaderLen

def unitPayloads (D : H26x) (nal : Bytes) (final : Bool) : List (Bytes × Bool) :=
  if nal.length ≤ rtpMediaPayloadMaxBytes then [(nal, final)]
  else (cut (fragmentSize D) true (fragmented D nal)).map (unitFragment D nal final)

lemma fragmentSize_pos (D : H26x) : 0 < fragmentSize D := Nat.sub_pos_of_lt (fragmentHeaderLen_lt D)

lemma nalHeaderBytes_lt (hlong : ¬ nal.length ≤ rtpMediaPayloadMaxBytes) :
    D.frameCodec.nalHeaderBytes < nal.length := by
  have hheader : D.frameCodec.nalHeaderBytes < rtpMediaPayloadMaxBytes := by
    cases D <;> decide
  omega

lemma fragmented_ne_nil (h : D.frameCodec.nalHeaderBytes < nal.length) : fragmented D nal ≠ [] := by
  rw [← List.length_pos_iff, fragmented, List.length_drop]
  omega

lemma cut_fragmented (D : H26x) (hlong : ¬ nal.length ≤ rtpMediaPayloadMaxBytes) :
    Cut (fragmentSize D) true (fragmented D nal)
      (cut (fragmentSize D) true (fragmented D nal)) :=
  cut_spec (fragmentSize_pos D) (fragmented_ne_nil (nalHeaderBytes_lt hlong))

/-! ### The assembler's side -/

lemma wraps_unitFragment (h : D.frameCodec.nalHeaderBytes ≤ nal.length) (final : Bool) :
    Wraps D.codec (fragmentSize D) (fun first _ => first)
      (annexBNalu (nal.take D.frameCodec.nalHeaderBytes)) final (unitFragment D nal final) where
  reads f hne hasPartialFrame := by
    obtain ⟨header, hwrite, -, hparse⟩ := parse_fragment h f.first f.last hne
    refine ⟨.h26xFragment ⟨f.first, f.last, nal.take D.frameCodec.nalHeaderBytes, f.body⟩, ?_,
      fun frame => ?_⟩
    · have hcompletes : (f.last && final && f.last) = (f.last && final) := by
        cases f.last <;> simp
      rw [← hcompletes, unitFragment, hwrite]
      exact hparse _ _
    · rw [appendDepacketized, annexBNalu]
      cases f.first <;> simp
  short f hle := by
    have hlt := fragmentHeaderLen_lt D
    obtain ⟨header, -, hwrite, hlen, -⟩ := writeFragmentHeader_ok h f.first f.last 0 []
    rw [unitFragment, hwrite, Except.toOption, Option.getD_some, List.length_append, hlen]
    rw [fragmentSize] at hle
    omega
  marker _ := rfl
  goesOn _ := rfl

/-- A last unit that is cut into fragments. -/
lemma sole_fragments (hlong : ¬ nal.length ≤ rtpMediaPayloadMaxBytes) :
    Sole D.codec (unitPayloads D nal true) (annexBNalu nal) := by
  have hheader : D.frameCodec.nalHeaderBytes < nal.length := nalHeaderBytes_lt hlong
  have hsole := (wraps_unitFragment hheader.le true).sole (cut_fragmented D hlong) rfl
  rw [unitPayloads, if_neg hlong]
  rwa [annexBNalu, List.append_assoc, fragmented, List.take_append_drop] at hsole

/-- A last unit in one payload. -/
lemma sole_single (h : SingleUnit D nal) : Sole D.codec [(nal, true)] (annexBNalu nal) where
  carries := by
    have hreads : Reads D.codec (nal, true) (fun begun => !begun) true (annexBNalu nal) :=
      fun hasPartialFrame => ⟨_, parse_single h true hasPartialFrame, fun _ => rfl⟩
    exact .last hreads rfl
  stuck := List.forall_mem_nil _

/-- A unit that comes back as it is when it is sent. -/
def Sendable (D : H26x) (nal : Bytes) : Prop :=
  nal.length ≤ rtpMediaPayloadMaxBytes → SingleUnit D nal

lemma sole_unit (h : Sendable D nal) : Sole D.codec (unitPayloads D nal true) (annexBNalu nal) := by
  by_cases hle : nal.length ≤ rtpMediaPayloadMaxBytes
  · rw [unitPayloads, if_pos hle]
    exact sole_single (h hle)
  · exact sole_fragments hle

lemma unitPayloads_ne_nil (D : H26x) (nal : Bytes) (final : Bool) :
    unitPayloads D nal final ≠ [] := by
  rw [unitPayloads]
  split
  next => exact List.cons_ne_nil _ _
  next hlong => exact (cut_fragmented D hlong).ne_nil.imp List.map_eq_nil_iff.mp

/-! ### The packetizer's side -/

/-- A long unit. -/
lemma sends_unit (hs : s.nalu = some nal) (hlong : ¬ nal.length ≤ rtpMediaPayloadMaxBytes) :
    Sends (fragmentSize D) (fragmented D nal) (unitFragment D nal s.nalus.isEmpty)
      (fun offset => packetizer D { s with fragmentOffset := offset })
      (packetizer D { s.nextNalu with fragmentOffset := 0 }) := by
  intro offset hoffset
  have hheader : D.frameCodec.nalHeaderBytes < nal.length := nalHeaderBytes_lt hlong
  obtain ⟨header, -, hwrite, -⟩ := writeFragmentHeader_ok hheader.le (offset = 0)
    (fragmentEnd D nal offset = (fragmented D nal).length) 0 []
  have hnext := nextPayload_fragment (s := { s with fragmentOffset := offset }) hs
    (not_le.mp hlong) hheader.le hwrite
  have hpayload : (unitFragment D nal s.nalus.isEmpty
      ⟨slice (fragmented D nal) offset (fragmentEnd D nal offset), offset = 0,
        fragmentEnd D nal offset = (fragmented D nal).length⟩) =
      (header ++ slice (fragmented D nal) offset (fragmentEnd D nal offset),
        s.nalus.isEmpty && fragmentEnd D nal offset = (fragmented D nal).length) := by
    rw [unitFragment, hwrite, Bool.and_comm]
    rfl
  change _ = (Except.ok (some (unitFragment D nal s.nalus.isEmpty
      ⟨slice (fragmented D nal) offset (fragmentEnd D nal offset), offset = 0,
        fragmentEnd D nal offset = (fragmented D nal).length⟩)),
    if fragmentEnd D nal offset = (fragmented D nal).length then _
    else packetizer D { s with fragmentOffset := fragmentEnd D nal offset })
  have hstep : (packetizer D { s with fragmentOffset := offset }).next = (.ok (some
      (header ++ slice (fragmented D nal) offset (fragmentEnd D nal offset),
        s.nalus.isEmpty && fragmentEnd D nal offset = (fragmented D nal).length)), _) :=
    next_packetizer hnext
  rw [hpayload, hstep, nextNalu_offset]
  congr 1
  split <;> rfl

lemma gives_unit (hs : s.nalu = some nal) (ho : s.fragmentOffset = 0)
    (hafter : Gives (packetizer D { s.nextNalu with fragmentOffset := 0 }) xs) :
    Gives (packetizer D s) (unitPayloads D nal s.nalus.isEmpty ++ xs) := by
  rw [unitPayloads]
  split
  next hle =>
    have hzero : s.nextNalu = { s.nextNalu with fragmentOffset := 0 } := by
      rw [← nextNalu_offset, ← ho]
    have hnext : s.nextPayload (rtpFormat D) = .ok (some (nal, s.nalus.isEmpty,
        { s.nextNalu with fragmentOffset := 0 })) := by
      rw [← hzero]
      simp [H26xPacketizer.nextPayload, hs, hle]
    have hstep : (packetizer D s).next = (.ok (some (nal, s.nalus.isEmpty)),
        packetizer D { s.nextNalu with fragmentOffset := 0 }) := next_packetizer hnext
    exact ⟨congrArg Prod.fst hstep, (congrArg Prod.snd hstep).symm ▸ hafter⟩
  next hlong =>
    have hgives := (sends_unit hs hlong).gives_all (fragmentSize_pos D) hafter
      (fragmented_ne_nil (nalHeaderBytes_lt hlong))
    rwa [← ho] at hgives

/-- The payloads of a frame. -/
def framePayloads (D : H26x) : List Bytes → List (Bytes × Bool)
  | [] => []
  | [nal] => unitPayloads D nal true
  | nal :: nals => unitPayloads D nal false ++ framePayloads D nals

/-- The payloads of the last unit come last. -/
lemma framePayloads_concat (D : H26x) (nals : List Bytes) (nal : Bytes) :
    framePayloads D (nals ++ [nal]) =
      nals.flatMap (fun n => unitPayloads D n false) ++ unitPayloads D nal true := by
  induction nals with
  | nil => rfl
  | cons n nals ih =>
    have hcons : framePayloads D (n :: (nals ++ [nal])) =
        unitPayloads D n false ++ framePayloads D (nals ++ [nal]) := by
      cases nals <;> rfl
    rw [List.cons_append, hcons, ih, List.flatMap_cons, List.append_assoc]

lemma gives_framePayloads {rest : List Bytes} (hs : s.nalu = some nal) (ho : s.fragmentOffset = 0)
    (hvalid : s.nalus.Valid) (hrest : s.nalus.toList = rest) :
    Gives (packetizer D s) (framePayloads D (nal :: rest)) := by
  induction rest generalizing nal s with
  | nil =>
    have hdone : Gives (packetizer D { s.nextNalu with fragmentOffset := 0 }) [] :=
      next_packetizer_none (nextNalu_of_toList hrest)
    have hgives := gives_unit hs ho hdone
    rwa [hvalid.isEmpty_iff.mpr hrest, List.append_nil] at hgives
  | cons n rest ih =>
    have hmore : s.nalus.isEmpty = false := by
      rw [Bool.eq_false_iff, Ne, hvalid.isEmpty_iff, hrest]
      exact List.cons_ne_nil n rest
    obtain ⟨hn, hrest, hvalid⟩ := nextNalu_of_toList hrest
    have hgives := gives_unit hs ho (ih (s := { s.nextNalu with fragmentOffset := 0 }) hn rfl
      hvalid hrest)
    rwa [hmore] at hgives

/-- The packetizer of a frame goes through its units. -/
lemma framePayloads_of_gives {frame : Bytes} {p : RtpPayloadPacketizer}
    (hnew : RtpPayloadPacketizer.new D.codec frame = .ok p) (hxs : Gives p xs) :
    (nalus frame).toList ≠ [] ∧ xs = framePayloads D (nalus frame).toList := by
  have hne := frame_ne_nil hnew
  rw [AnnexBNalus.toList_eq]
  rcases hadvance : (nalus frame).advance with _ | ⟨nal, it⟩
  · cases D <;>
      simp [RtpPayloadPacketizer.new, hne, packetizerState, H26x.codec, H26xPacketizer.new,
        hadvance, malformed, Except.map] at hnew
  · rw [new_packetizer hne hadvance] at hnew
    obtain rfl := Except.ok.inj hnew
    exact ⟨List.cons_ne_nil _ _,
      hxs.unique (gives_framePayloads rfl rfl (.advance hadvance) rfl)⟩

/-! ### Markers -/

/-- Only the payload that ends the last unit carries the marker. -/
lemma marker_unitPayloads (D : H26x) (nal : Bytes) :
    ∀ x ∈ unitPayloads D nal false, x.2 = false := by
  intro x hx
  rw [unitPayloads] at hx
  split at hx
  · rw [List.mem_singleton.mp hx]
  · obtain ⟨f, -, rfl⟩ := List.mem_map.mp hx
    exact Bool.and_false f.last

lemma marked_unitPayloads (D : H26x) (nal : Bytes) : Marked (unitPayloads D nal true) := by
  rw [unitPayloads]
  split
  · exact ⟨[], nal, rfl, List.forall_mem_nil _⟩
  next hlong =>
    have hpacked : Packed D.codec false _ _ :=
      (wraps_unitFragment (nalHeaderBytes_lt hlong).le true).packed (cut_fragmented D hlong) rfl
    exact hpacked.marked

lemma marked_framePayloads (D : H26x) {nals : List Bytes} (h : nals ≠ []) :
    Marked (framePayloads D nals) := by
  obtain ⟨nals, nal, rfl⟩ := (List.eq_nil_or_concat' nals).resolve_left h
  obtain ⟨ys, payload, hunit, hys⟩ := marked_unitPayloads D nal
  rw [framePayloads_concat, hunit, ← List.append_assoc]
  refine ⟨_, payload, rfl, fun y hy => ?_⟩
  rcases List.mem_append.mp hy with hy | hy
  · obtain ⟨n, -, hy⟩ := List.mem_flatMap.mp hy
    exact marker_unitPayloads D n y hy
  · exact hys y hy

lemma fragmentHeaderLen_pos (D : H26x) : 0 < (rtpFormat D).fragmentHeaderLen := by
  cases D <;> decide

lemma payload_ne_nil (hne : nal ≠ []) {final : Bool} {x : Bytes × Bool}
    (hx : x ∈ unitPayloads D nal final) : x.1 ≠ [] := by
  rw [unitPayloads] at hx
  split at hx
  · rw [List.mem_singleton.mp hx]
    exact hne
  next hlong =>
    obtain ⟨f, -, rfl⟩ := List.mem_map.mp hx
    obtain ⟨header, -, hwrite, hlen, -⟩ :=
      writeFragmentHeader_ok (nalHeaderBytes_lt hlong).le f.first f.last 0 []
    have hpos : 0 < header.length := hlen ▸ fragmentHeaderLen_pos D
    rw [unitFragment, hwrite]
    exact List.append_ne_nil_of_left_ne_nil (List.ne_nil_of_length_pos hpos) _

lemma framePayloads_payload_ne_nil {nals : List Bytes} (h : ∀ n ∈ nals, n ≠ []) {x : Bytes × Bool}
    (hx : x ∈ framePayloads D nals) : x.1 ≠ [] := by
  rcases List.eq_nil_or_concat' nals with rfl | ⟨nals, nal, rfl⟩
  · cases hx
  · rw [framePayloads_concat] at hx
    rcases List.mem_append.mp hx with hx | hx
    · obtain ⟨n, hn, hx⟩ := List.mem_flatMap.mp hx
      exact payload_ne_nil (h n (List.mem_append_left _ hn)) hx
    · exact payload_ne_nil (h nal (List.mem_append_right _ (List.mem_singleton_self _))) hx

end Cacophony.UnitPackets
