import Cacophony.FramePackets
import Cacophony.Fragments

/-!
Opus, VP8, VP9 and AV1 frames through packetizer and assembler.

An Opus frame is one payload. A VP8 or VP9 frame is cut into fragments, and so is every unit of an
AV1 frame, each behind a header that says where it belongs. The assembler puts the frame together
again.
-/

namespace Cacophony.PayloadRoundTrip

open FrameCodecs RtpPayload Assembler FramePackets
open Fragments

/-- The last payload carries the marker, and no other. -/
def Marked (xs : List (Bytes × Bool)) : Prop :=
  ∃ ys payload, xs = ys ++ [(payload, true)] ∧ ∀ y ∈ ys, y.2 = false

/-- The payloads of a video frame, or those that are left of it when it has begun. -/
structure Packed (codec : Codec) (begun : Bool) (xs : List (Bytes × Bool)) (bytes : Bytes) :
    Prop where
  carries : Carries codec begun xs bytes
  short : ∀ x ∈ xs, x.1.length ≤ rtpMediaPayloadMaxBytes
  marked : Marked xs

variable {codec : Codec} {begun first : Bool} {x : Bytes × Bool} {xs : List (Bytes × Bool)}
  {starts : Bool → Bool} {piece body bytes frame : Bytes} {size : ℕ}
  {fs : List (Fragment UInt8)}

lemma Packed.last (hx : Reads codec x starts true piece) (hstarts : starts begun = !begun)
    (hshort : x.1.length ≤ rtpMediaPayloadMaxBytes) (hmarker : x.2 = true) :
    Packed codec begun [x] piece where
  carries := .last hx hstarts
  short := List.forall_mem_singleton.mpr hshort
  marked := ⟨[], x.1, by rw [← hmarker]; rfl, List.forall_mem_nil _⟩

lemma Packed.more (hx : Reads codec x starts false piece) (hstarts : starts begun = !begun)
    (hshort : x.1.length ≤ rtpMediaPayloadMaxBytes) (hmarker : x.2 = false)
    (hxs : Packed codec true xs bytes) : Packed codec begun (x :: xs) (piece ++ bytes) where
  carries := .more hx hstarts hxs.carries
  short := List.forall_mem_cons.mpr ⟨hshort, hxs.short⟩
  marked := by
    obtain ⟨ys, payload, rfl, hys⟩ := hxs.marked
    exact ⟨x :: ys, payload, rfl, List.forall_mem_cons.mpr ⟨hmarker, hys⟩⟩

/-! ### Fragments as payloads -/

/-- A fragment is sent as the payload `wrap f`, which starts a frame by `st`. The first adds `lead`
in front of its bytes. The last one completes the frame and carries the marker when nothing of the
frame is left behind it. -/
structure Wraps (codec : Codec) (size : ℕ) (st : Bool → Bool → Bool) (lead : Bytes) (final : Bool)
    (wrap : Fragment UInt8 → Bytes × Bool) : Prop where
  reads : ∀ f, f.body ≠ [] → Reads codec (wrap f) (st f.first) (f.last && final)
    ((if f.first then lead else []) ++ f.body)
  short : ∀ f, f.body.length ≤ size → (wrap f).1.length ≤ rtpMediaPayloadMaxBytes
  marker : ∀ f, (wrap f).2 = (f.last && final)
  goesOn : ∀ begun, st false begun = false

variable {st : Bool → Bool → Bool} {lead : Bytes} {final : Bool}
  {wrap : Fragment UInt8 → Bytes × Bool} {state : ℕ → RtpPayloadPacketizer}

/-- The fragments of all that is left of a frame. -/
lemma Wraps.packed (h : Wraps codec size st lead true wrap) (hcut : Cut size first body fs)
    (hst : st first begun = !begun) :
    Packed codec begun (fs.map wrap) ((if first then lead else []) ++ body) := by
  induction hcut generalizing begun with
  | last hne hle => exact .last (h.reads _ hne) hst (h.short _ hle) (h.marker _)
  | more hne hle _ ih =>
    have hrest := ih (h.goesOn true)
    rw [if_neg Bool.false_ne_true, List.nil_append] at hrest
    rw [← List.append_assoc]
    exact .more (h.reads _ hne) hst (h.short _ hle) (h.marker _) hrest

/-- The fragments of a part that others follow. -/
lemma Wraps.prepend (h : Wraps codec size st lead false wrap) (hcut : Cut size first body fs)
    (hst : st first begun = !begun) (hxs : Packed codec true xs bytes) :
    Packed codec begun (fs.map wrap ++ xs) ((if first then lead else []) ++ body ++ bytes) := by
  induction hcut generalizing begun with
  | last hne hle => exact .more (h.reads _ hne) hst (h.short _ hle) (h.marker _) hxs
  | more hne hle _ ih =>
    have hrest := ih (h.goesOn true)
    rw [if_neg Bool.false_ne_true, List.nil_append] at hrest
    rw [List.map_cons, List.cons_append, ← List.append_assoc, List.append_assoc _ _ bytes]
    exact .more (h.reads _ hne) hst (h.short _ hle) (h.marker _) hrest

/-- Fragments behind the first start no frame. -/
lemma Wraps.stuck (h : Wraps codec size st lead final wrap) (hcut : Cut size false body fs) :
    ∀ x ∈ fs.map wrap, Stuck codec x := by
  generalize hfirst : false = first at hcut
  induction hcut with
  | last hne _ =>
    subst hfirst
    exact List.forall_mem_singleton.mpr ⟨_, _, _, h.reads _ hne, h.goesOn false⟩
  | more hne _ _ ih =>
    subst hfirst
    exact List.forall_mem_cons.mpr ⟨⟨_, _, _, h.reads _ hne, h.goesOn false⟩, ih rfl⟩

/-- The payloads of one unit, which only the first of them can start. -/
lemma Wraps.sole (h : Wraps codec size st lead true wrap) (hcut : Cut size true body fs)
    (hst : st true false = true) : Sole codec (fs.map wrap) (lead ++ body) where
  carries := by
    have hpacked := h.packed hcut hst
    rw [if_pos rfl] at hpacked
    exact hpacked.carries
  stuck := by
    cases hcut with
    | last => exact List.forall_mem_nil _
    | more _ _ hrest => exact h.stuck hrest

/-- The packetizer at `state offset` gives the fragment of `body` from `offset` on. Behind the last
one it goes on at `after`. -/
def Sends (size : ℕ) (body : Bytes) (wrap : Fragment UInt8 → Bytes × Bool)
    (state : ℕ → RtpPayloadPacketizer) (after : RtpPayloadPacketizer) : Prop :=
  ∀ offset < body.length, (state offset).next =
    (.ok (some (wrap ⟨slice body offset (min (offset + size) body.length), offset = 0,
      min (offset + size) body.length = body.length⟩)),
    if min (offset + size) body.length = body.length then after
    else state (min (offset + size) body.length))

/-- One fragment after the other. -/
lemma Sends.gives {after : RtpPayloadPacketizer} {offset : ℕ} (h : Sends size body wrap state after)
    (hsize : 0 < size) (hafter : Gives after xs) (hlt : offset < body.length) :
    Gives (state offset) ((cut size (offset = 0) (body.drop offset)).map wrap ++ xs) := by
  induction hn : body.length - offset using Nat.strong_induction_on generalizing offset with
  | _ n ih =>
    rw [cut_drop hsize hlt, List.map_cons, List.cons_append]
    refine ⟨congrArg Prod.fst (h offset hlt), ?_⟩
    rw [h offset hlt]
    have hprogress : offset < min (offset + size) body.length := by omega
    have hstop : min (offset + size) body.length ≤ body.length := min_le_right _ _
    by_cases hlast : min (offset + size) body.length = body.length
    · rw [if_pos hlast, if_pos hlast]
      exact hafter
    · rw [if_neg hlast, if_neg hlast]
      have hmore := ih (body.length - min (offset + size) body.length) (by omega)
        (lt_of_le_of_ne hstop hlast) rfl
      rwa [decide_eq_false (Nat.ne_zero_of_lt hprogress)] at hmore

/-- All of the body. -/
lemma Sends.gives_all {after : RtpPayloadPacketizer} (h : Sends size body wrap state after)
    (hsize : 0 < size) (hafter : Gives after xs) (hne : body ≠ []) :
    Gives (state 0) ((cut size true body).map wrap ++ xs) :=
  h.gives hsize hafter (List.length_pos_iff.mpr hne)

/-! ### VP8 and VP9 -/

/-- The codec whose frames get such headers. -/
def headerCodec : FragmentedPayloadHeader → Codec
  | .vp8 => .vp8
  | .vp9 => .vp9

def fragmentPayload (header : FragmentedPayloadHeader) (f : Fragment UInt8) : Bytes × Bool :=
  (header.write f.first f.last ++ f.body, f.last)

variable {header : FragmentedPayloadHeader}

lemma vp8Descriptor_write (first last : Bool) (body : Bytes) :
    vp8Descriptor (FragmentedPayloadHeader.vp8.write first last ++ body) = .ok (1, first) := by
  cases first <;> rfl

lemma vp9Descriptor_write (first last : Bool) (body : Bytes) :
    vp9Descriptor (FragmentedPayloadHeader.vp9.write first last ++ body) =
      .ok ⟨1, first, last⟩ := by
  cases first <;> cases last <;> rfl

/-- What a header tells is what it was written from, and the payload is the rest. -/
lemma reads_fragmentPayload (f : Fragment UInt8) (hne : f.body ≠ []) :
    Reads (headerCodec header) (fragmentPayload header f) (fun _ => f.first) f.last f.body := by
  intro hasPartialFrame
  refine ⟨.raw f.body, ?_, fun _ => rfl⟩
  have hlen : 1 < f.body.length + 1 := Nat.lt_add_of_pos_left (List.length_pos_iff.mpr hne)
  cases header with
  | vp8 =>
    rw [headerCodec, ParsedRtpPayload.parse, fragmentPayload, vp8Descriptor_write]
    simp [bind, Except.bind, pure, Except.pure, FragmentedPayloadHeader.write, hlen]
  | vp9 =>
    rw [headerCodec, ParsedRtpPayload.parse, fragmentPayload, vp9Descriptor_write]
    simp [bind, Except.bind, pure, Except.pure, FragmentedPayloadHeader.write]

lemma wraps_fragmentPayload (header : FragmentedPayloadHeader) :
    Wraps (headerCodec header) (rtpMediaPayloadMaxBytes - header.len) (fun first _ => first) [] true
      (fragmentPayload header) where
  reads f hne := by
    rw [Bool.and_true, ite_self, List.nil_append]
    exact reads_fragmentPayload f hne
  short f hle := by
    cases header <;>
      simp only [fragmentPayload, FragmentedPayloadHeader.write, FragmentedPayloadHeader.len,
        List.length_append, List.length_singleton, rtpMediaPayloadMaxBytes] at hle ⊢ <;> omega
  marker f := (Bool.and_true _).symm
  goesOn _ := rfl

lemma len_lt_max (header : FragmentedPayloadHeader) : header.len < rtpMediaPayloadMaxBytes := by
  cases header <;> decide

lemma sends_fragmented (codec : Codec) (header : FragmentedPayloadHeader) (frame : Bytes) :
    Sends (rtpMediaPayloadMaxBytes - header.len) frame (fragmentPayload header)
      (fun offset => ⟨codec, .fragmented frame offset header⟩)
      ⟨codec, .fragmented frame frame.length header⟩ := by
  intro offset hlt
  simp only [RtpPayloadPacketizer.next, RtpPayloadPacketizer.nextState, nextFragmentedPayload,
    if_neg (not_le.mpr hlt), if_neg (not_le.mpr (len_lt_max header)), fragmentPayload]
  congr 1
  split
  next hlast => rw [hlast]
  next => rfl

lemma gives_fragmented (codec : Codec) (header : FragmentedPayloadHeader) (hne : frame ≠ []) :
    Gives ⟨codec, .fragmented frame 0 header⟩
      ((cut (rtpMediaPayloadMaxBytes - header.len) true frame).map (fragmentPayload header)) := by
  have hdone : Gives ⟨codec, .fragmented frame frame.length header⟩ [] := by
    simp [Gives, RtpPayloadPacketizer.next, RtpPayloadPacketizer.nextState, nextFragmentedPayload]
  have hgives := (sends_fragmented codec header frame).gives_all
    (Nat.sub_pos_of_lt (len_lt_max header)) hdone hne
  rwa [List.append_nil] at hgives

/-- A VP8 or VP9 frame. -/
lemma packed_fragmented (header : FragmentedPayloadHeader) (hne : frame ≠ []) :
    ∃ p xs, RtpPayloadPacketizer.new (headerCodec header) frame = .ok p ∧ Gives p xs ∧
      Packed (headerCodec header) false xs frame ∧ Sole (headerCodec header) xs frame := by
  have hsize : 0 < rtpMediaPayloadMaxBytes - header.len := Nat.sub_pos_of_lt (len_lt_max header)
  have hwraps := wraps_fragmentPayload header
  refine ⟨⟨headerCodec header, .fragmented frame 0 header⟩, _, ?_,
    gives_fragmented _ header hne, ?_, hwraps.sole (cut_spec hsize hne) rfl⟩
  · cases header <;>
      simp [RtpPayloadPacketizer.new, hne, headerCodec, packetizerState, Except.map]
  · exact hwraps.packed (cut_spec hsize hne) rfl

/-! ### AV1 -/

/-- The units from `start` on reach the end of the frame. -/
inductive Obus (frame : Bytes) : ℕ → Prop
  | done : Obus frame frame.length
  | more {start stop : ℕ} (hlt : start < frame.length)
      (hend : av1ObuEnd .av1 frame start = .ok stop) (hrest : Obus frame stop) : Obus frame start

def av1Payload (final : Bool) (f : Fragment UInt8) : Bytes × Bool :=
  ((flag (!f.first) 0x80 ||| flag (!f.last) 0x40 ||| 0x10) :: f.body, f.last && final)

variable {start stop offset : ℕ}

lemma lt_av1ObuEnd (h : av1ObuEnd codec frame start = .ok stop) :
    start < stop ∧ stop ≤ frame.length := by
  unfold av1ObuEnd malformed at h
  rcases hheader : frame[start]? with _ | header
  · simp [hheader] at h
  · have hlt : start < frame.length := (List.getElem?_eq_some_iff.mp hheader).1
    rw [hheader] at h
    dsimp only at h
    generalize hindex : start + 1 + (if header &&& 0x04 ≠ 0 then 1 else 0) = index at h
    split at h
    · cases h
    · split at h
      · cases h
        exact ⟨hlt, le_rfl⟩
      · split at h
        · cases h
        · split at h
          · cases h
            omega
          · cases h

lemma av1_header_bits : ∀ first last : Bool,
    decide ((flag (!first) 0x80 ||| flag (!last) 0x40 ||| 0x10) &&& 0x80 = 0) = first ∧
    ((flag (!first) 0x80 ||| flag (!last) 0x40 ||| 0x10) >>> 4) &&& 0x03 = 1 := by
  decide

/-- The header of a fragment tells that there is one unit in the payload, and whether the unit has
begun before. -/
lemma reads_av1Payload (final : Bool) (f : Fragment UInt8) :
    Reads .av1 (av1Payload final f) (fun begun => !begun && f.first) (f.last && final) f.body := by
  intro hasPartialFrame
  refine ⟨.av1 1 f.body, ?_, fun _ => rfl⟩
  obtain ⟨hfirst, hcount⟩ := av1_header_bits f.first f.last
  simp only [ParsedRtpPayload.parse, av1Payload, hfirst, hcount]

lemma wraps_av1Payload (final : Bool) :
    Wraps .av1 (rtpMediaPayloadMaxBytes - 1) (fun first begun => !begun && first) [] final
      (av1Payload final) where
  reads f _ := by
    rw [ite_self, List.nil_append]
    exact reads_av1Payload final f
  short f hle := by
    simp only [av1Payload, List.length_cons, rtpMediaPayloadMaxBytes] at hle ⊢
    omega
  marker _ := rfl
  goesOn begun := Bool.and_false _

/-- Where the fragment from `offset` on ends, both seen from the start of the unit. -/
def av1Stop (start stop offset : ℕ) : ℕ :=
  min (offset + (rtpMediaPayloadMaxBytes - 1)) (stop - start)

/-- The fragment of a unit from `offset` on. -/
def av1Fragment (frame : Bytes) (start stop offset : ℕ) : Fragment UInt8 :=
  ⟨slice (slice frame start stop) offset (av1Stop start stop offset), offset = 0,
    av1Stop start stop offset = stop - start⟩

lemma nextAv1Fragment_eq (hoffset : offset < stop - start) :
    nextAv1Fragment frame start stop offset =
      ((av1Payload (stop = frame.length) (av1Fragment frame start stop offset)).1,
        (av1Payload (stop = frame.length) (av1Fragment frame start stop offset)).2,
        if av1Stop start stop offset = stop - start then .av1 frame stop stop 0
        else .av1 frame start stop (av1Stop start stop offset)) := by
  have hle : av1Stop start stop offset ≤ stop - start := Nat.min_le_right _ _
  have hstop : min (start + offset + (rtpMediaPayloadMaxBytes - 1)) stop =
      start + av1Stop start stop offset := by
    rw [av1Stop]
    omega
  have hlast : (start + av1Stop start stop offset = stop) =
      (av1Stop start stop offset = stop - start) := propext (by omega)
  have hnext : offset + (start + av1Stop start stop offset - (start + offset)) =
      av1Stop start stop offset := by
    rw [av1Stop]
    omega
  simp only [nextAv1Fragment, hstop, hlast, hnext, av1Payload, av1Fragment, slice_slice frame hle,
    Bool.and_comm]

/-- A step within a unit, whose end is known or read at its first fragment. -/
lemma next_av1 {obuEnd : ℕ} (hlt : start < frame.length) (hoffset : offset < stop - start)
    (hzero : offset = 0 → av1ObuEnd .av1 frame start = .ok stop)
    (hend : offset ≠ 0 → obuEnd = stop) :
    RtpPayloadPacketizer.next ⟨.av1, .av1 frame start obuEnd offset⟩ =
      (.ok (some (av1Payload (stop = frame.length) (av1Fragment frame start stop offset))),
      ⟨.av1, if av1Stop start stop offset = stop - start then .av1 frame stop stop 0
        else .av1 frame start stop (av1Stop start stop offset)⟩) := by
  have hstep : RtpPayloadPacketizer.nextState .av1 (.av1 frame start obuEnd offset) =
      .ok (some (nextAv1Fragment frame start stop offset)) := by
    rw [RtpPayloadPacketizer.nextState, nextAv1Payload, if_neg (not_le.mpr hlt),
      if_neg (by decide)]
    by_cases hoff : offset = 0
    · rw [if_pos hoff, hzero hoff]
      rfl
    · rw [if_neg hoff, hend hoff]
  simp only [RtpPayloadPacketizer.next, hstep, nextAv1Fragment_eq hoffset]

/-- The end of a unit is read at its first fragment, and known at the others. -/
lemma sends_av1 (hlt : start < frame.length) (hend : av1ObuEnd .av1 frame start = .ok stop)
    (obuEnd : ℕ) :
    Sends (rtpMediaPayloadMaxBytes - 1) (slice frame start stop) (av1Payload (stop = frame.length))
      (fun offset => ⟨.av1, .av1 frame start (if offset = 0 then obuEnd else stop) offset⟩)
      ⟨.av1, .av1 frame stop stop 0⟩ := by
  obtain ⟨hprogress, hstop⟩ := lt_av1ObuEnd hend
  have hlen : (slice frame start stop).length = stop - start := by
    rw [length_slice]
    omega
  intro offset hoffset
  rw [hlen] at hoffset ⊢
  rw [next_av1 hlt hoffset (fun _ => hend) (fun h => if_neg h)]
  congr 1
  have hne : av1Stop start stop offset ≠ 0 := by
    rw [av1Stop, rtpMediaPayloadMaxBytes]
    omega
  change _ = if av1Stop start stop offset = stop - start then _ else (⟨.av1, .av1 frame start
    (if av1Stop start stop offset = 0 then obuEnd else stop) (av1Stop start stop offset)⟩ :
      RtpPayloadPacketizer)
  rw [if_neg hne]
  split <;> rfl

/-- The units of a frame from `start` on. The payloads of the last one are `last`. -/
lemma packed_av1 (h : Obus frame start) (hlt : start < frame.length) (begun : Bool) (obuEnd : ℕ) :
    ∃ front last bytes, Gives ⟨.av1, .av1 frame start obuEnd 0⟩ (front ++ last) ∧
      Packed .av1 begun (front ++ last) (frame.drop start) ∧ Sole .av1 last bytes ∧
      (front = [] ↔ av1ObuEnd .av1 frame start = .ok frame.length) := by
  induction h generalizing begun obuEnd with
  | done => exact absurd hlt (lt_irrefl _)
  | @more start stop hstart hend hrest ih =>
    obtain ⟨hprogress, hstop⟩ := lt_av1ObuEnd hend
    have hne : slice frame start stop ≠ [] := mt (slice_eq_nil_iff hstop).mp (not_le.mpr hprogress)
    have hcut : Cut (rtpMediaPayloadMaxBytes - 1) true (slice frame start stop) _ :=
      cut_spec (by decide) hne
    have hbegun : (!begun && true) = !begun := Bool.and_true _
    rcases hstop.lt_or_eq with hmore | hlast
    · obtain ⟨front, last, bytes, hxs, hpacked, hsole, -⟩ := ih hmore true stop
      have hgives := (sends_av1 hstart hend obuEnd).gives_all (by decide) hxs hne
      rw [decide_eq_false hmore.ne, ← List.append_assoc] at hgives
      refine ⟨_, last, bytes, hgives, ?_, hsole, iff_of_false ?_ ?_⟩
      · rw [drop_eq_slice_append frame hprogress.le, List.append_assoc]
        exact (wraps_av1Payload false).prepend hcut hbegun hpacked
      · exact List.append_ne_nil_of_left_ne_nil (hcut.ne_nil.imp List.map_eq_nil_iff.mp) _
      · rw [hend]
        exact fun h => hmore.ne (Except.ok.inj h)
    · have hdone : Gives ⟨.av1, .av1 frame stop stop 0⟩ [] := by
        simp [Gives, RtpPayloadPacketizer.next, RtpPayloadPacketizer.nextState, nextAv1Payload,
          hlast]
      have hgives := (sends_av1 hstart hend obuEnd).gives_all (by decide) hdone hne
      have hdrop : frame.drop start = slice frame start stop := by
        rw [drop_eq_slice_append frame hprogress.le, hlast, List.drop_length, List.append_nil]
      rw [decide_eq_true hlast, List.append_nil] at hgives
      refine ⟨[], _, slice frame start stop, hgives, ?_, (wraps_av1Payload true).sole hcut rfl,
        iff_of_true rfl (hlast ▸ hend)⟩
      rw [hdrop]
      exact (wraps_av1Payload true).packed hcut hbegun

/-- Payloads without an error mean that the units reach the end of the frame. -/
lemma Obus.of_gives {obuEnd : ℕ} (hle : start ≤ frame.length)
    (hwithin : offset ≠ 0 → offset < obuEnd - start ∧ av1ObuEnd .av1 frame start = .ok obuEnd)
    (hxs : Gives ⟨.av1, .av1 frame start obuEnd offset⟩ xs) : Obus frame start := by
  induction xs generalizing start obuEnd offset with
  | nil =>
    rcases hle.eq_or_lt with rfl | hlt
    · exact .done
    · -- within the frame a step gives a payload or an error
      simp only [Gives, RtpPayloadPacketizer.next, RtpPayloadPacketizer.nextState, nextAv1Payload,
        if_neg (not_le.mpr hlt)] at hxs
      by_cases hoff : offset = 0
      · rcases hend : av1ObuEnd .av1 frame start with e | stop <;>
          simp [hend, hoff, Except.map, rtpMediaPayloadMaxBytes] at hxs
      · simp [hoff, rtpMediaPayloadMaxBytes] at hxs
  | cons x xs ih =>
    obtain ⟨hx, hxs⟩ := hxs
    have hlt : start < frame.length := by
      by_contra hge
      simp [RtpPayloadPacketizer.next, RtpPayloadPacketizer.nextState, nextAv1Payload,
        not_lt.mp hge] at hx
    obtain ⟨stop, hend, hoffset, heq⟩ : ∃ stop, av1ObuEnd .av1 frame start = .ok stop ∧
        offset < stop - start ∧ (offset ≠ 0 → obuEnd = stop) := by
      by_cases hoff : offset = 0
      · rcases hend : av1ObuEnd .av1 frame start with e | stop
        · simp [RtpPayloadPacketizer.next, RtpPayloadPacketizer.nextState, nextAv1Payload,
            not_le.mpr hlt, hoff, hend, Except.map, rtpMediaPayloadMaxBytes] at hx
        · have hprogress := (lt_av1ObuEnd hend).1
          exact ⟨stop, rfl, by omega, fun h => absurd hoff h⟩
      · exact ⟨obuEnd, (hwithin hoff).2, (hwithin hoff).1, fun _ => rfl⟩
    rw [next_av1 hlt hoffset (fun _ => hend) heq] at hxs
    by_cases hlast : av1Stop start stop offset = stop - start
    · rw [if_pos hlast] at hxs
      exact .more hlt hend (ih (lt_av1ObuEnd hend).2 (fun h => absurd rfl h) hxs)
    · rw [if_neg hlast] at hxs
      have hstop : av1Stop start stop offset ≤ stop - start := Nat.min_le_right _ _
      exact ih hle (fun _ => ⟨lt_of_le_of_ne hstop hlast, hend⟩) hxs

/-! ### Round trip -/

/-- The payloads, sent as packets of the stream from `seq` on, complete one frame with the last
packet, and it is the frame. -/
def Rebuilds {ρ : Type} (S : Stream ρ) (codec : Codec) (seq : UInt16) (xs : List (Bytes × Bool))
    (frame : Bytes) : Prop :=
  ∃ f, feed S codec {} seq xs = List.replicate (xs.length - 1) (.ok none) ++ [.ok (some f)] ∧
    f.encryptedFrame = frame

variable {ρ : Type} {p : RtpPayloadPacketizer}

lemma rebuilds_of_carries (h : Carries codec false xs frame) (S : Stream ρ) (seq : UInt16) :
    Rebuilds S codec seq xs frame :=
  h.feed (Option.isSome_none (α := Bytes)) rfl

/-- An AV1 frame whose units reach its end. -/
lemma packed_of_obus (h : Obus frame 0) (hne : frame ≠ []) :
    ∃ p xs, RtpPayloadPacketizer.new .av1 frame = .ok p ∧ Gives p xs ∧
      Packed .av1 false xs frame := by
  obtain ⟨front, last, -, hxs, hpacked, -⟩ := packed_av1 h (List.length_pos_iff.mpr hne) false 0
  refine ⟨_, front ++ last, ?_, hxs, hpacked⟩
  simp [RtpPayloadPacketizer.new, hne, packetizerState, Except.map]

lemma frame_ne_nil (hnew : RtpPayloadPacketizer.new codec frame = .ok p) : frame ≠ [] := by
  rintro rfl
  cases hnew

lemma obus_of_packets (hnew : RtpPayloadPacketizer.new .av1 frame = .ok p) (hxs : Gives p xs) :
    Obus frame 0 := by
  have hne := frame_ne_nil hnew
  simp only [RtpPayloadPacketizer.new, List.isEmpty_iff, if_neg hne, packetizerState,
    Except.map, Except.ok.injEq] at hnew
  subst hnew
  exact .of_gives (Nat.zero_le _) (fun h => absurd rfl h) hxs

/-- The payloads of a video frame. -/
lemma packed_of_gives (hcodec : codec ∈ [.vp8, .vp9, .av1])
    (hnew : RtpPayloadPacketizer.new codec frame = .ok p) (hxs : Gives p xs) :
    Packed codec false xs frame := by
  have hne := frame_ne_nil hnew
  obtain ⟨p', xs', hnew', hxs', hpacked⟩ : ∃ p xs, RtpPayloadPacketizer.new codec frame = .ok p ∧
      Gives p xs ∧ Packed codec false xs frame := by
    simp only [List.mem_cons, List.not_mem_nil, or_false] at hcodec
    rcases hcodec with rfl | rfl | rfl
    · obtain ⟨p, xs, hnew, hxs, hpacked, -⟩ := packed_fragmented .vp8 hne
      exact ⟨p, xs, hnew, hxs, hpacked⟩
    · obtain ⟨p, xs, hnew, hxs, hpacked, -⟩ := packed_fragmented .vp9 hne
      exact ⟨p, xs, hnew, hxs, hpacked⟩
    · exact packed_of_obus (obus_of_packets hnew hxs) hne
  obtain rfl := Except.ok.inj (hnew.symm.trans hnew')
  rwa [hxs.unique hxs']

/-- An Opus frame is a payload of its own. -/
lemma eq_of_gives_opus (hnew : RtpPayloadPacketizer.new .opus frame = .ok p) (hxs : Gives p xs) :
    xs = [(frame, false)] ∧ frame.length ≤ rtpMediaPayloadMaxBytes := by
  have hne := frame_ne_nil hnew
  simp only [RtpPayloadPacketizer.new, List.isEmpty_iff, if_neg hne, packetizerState,
    Except.map, Except.ok.injEq] at hnew
  subst hnew
  have hle : frame.length ≤ rtpMediaPayloadMaxBytes := by
    by_contra hlong
    cases xs <;>
      simp [Gives, RtpPayloadPacketizer.next, RtpPayloadPacketizer.nextState,
        not_le.mp hlong] at hxs
  refine ⟨hxs.unique ?_, hle⟩
  simp [Gives, RtpPayloadPacketizer.next, RtpPayloadPacketizer.nextState, not_lt.mpr hle]

lemma reads_opus (marker : Bool) : Reads .opus (frame, marker) (fun _ => true) true frame :=
  fun _ => ⟨.raw frame, rfl, fun _ => rfl⟩

/-- **Round trip.** The payloads of an Opus, VP8, VP9 or AV1 frame are at most 1200 bytes long, for
video the last one has the marker and no other, and they come back as the frame. -/
theorem rebuilds_of_gives (hcodec : codec ∈ [.opus, .vp8, .vp9, .av1])
    (hnew : RtpPayloadPacketizer.new codec frame = .ok p) (hxs : Gives p xs) (S : Stream ρ)
    (seq : UInt16) :
    (∀ x ∈ xs, x.1.length ≤ rtpMediaPayloadMaxBytes) ∧ (codec ≠ .opus → Marked xs) ∧
      Rebuilds S codec seq xs frame := by
  rcases List.mem_cons.mp hcodec with rfl | hvideo
  · obtain ⟨rfl, hle⟩ := eq_of_gives_opus hnew hxs
    exact ⟨List.forall_mem_singleton.mpr hle, fun h => absurd rfl h,
      rebuilds_of_carries (.last (reads_opus false) rfl) S seq⟩
  · have hpacked := packed_of_gives hvideo hnew hxs
    exact ⟨hpacked.short, fun _ => hpacked.marked, rebuilds_of_carries hpacked.carries S seq⟩

/-- A unit with a size and one without, from the last sequence number on. -/
theorem rebuilds_twoUnits :
    Rebuilds (⟨⟨2, false, false, false, 96, 0, 0, 1, 12, 12⟩, none, false, id⟩ : Stream UInt16) .av1
      0xffff [([0x10, 0x32, 1, 7], false), ([0x10, 0x30, 8], true)] [0x32, 1, 7, 0x30, 8] := by
  have hxs : Gives ⟨.av1, .av1 [0x32, 1, 7, 0x30, 8] 0 0 0⟩
      [([0x10, 0x32, 1, 7], false), ([0x10, 0x30, 8], true)] :=
    ⟨by decide +kernel, by decide +kernel,
      show (RtpPayloadPacketizer.next _).1 = _ by decide +kernel⟩
  exact (rebuilds_of_gives (by decide) rfl hxs _ _).2.2

end Cacophony.PayloadRoundTrip
