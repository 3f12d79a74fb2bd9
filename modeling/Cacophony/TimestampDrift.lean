import Cacophony.VideoTimestamps
import Mathlib.Algebra.BigOperators.Ring.List
import Mathlib.Algebra.Order.BigOperators.Group.List
import Mathlib.Algebra.Ring.Nat

/-!
How far the timestamp of a stream falls behind the media it sends.

The increment of each frame is rounded down to a tick on its own, and nothing carries the
remainder over to the next frame. So the timestamp is never ahead, and it is behind by the ticks
that the remainders add up to.
-/

namespace Cacophony.TimestampDrift

open FrameCodecs Transport RtpPayload Assembler
open PayloadRoundTrip VideoTimestamps TransportNonces Runs

/-! ### Sums of quotients -/

section Quotients

variable {unit : ℕ}

/-- What is lost when each number is divided on its own. -/
def lost (unit : ℕ) (xs : List ℕ) : ℕ := (xs.map (· % unit)).sum / unit

lemma sum_div_add_sum_mod (unit : ℕ) (xs : List ℕ) :
    unit * (xs.map (· / unit)).sum + (xs.map (· % unit)).sum = xs.sum := by
  induction xs with
  | nil => rfl
  | cons x xs ih =>
    have hx := Nat.div_add_mod x unit
    simp only [List.map_cons, List.sum_cons, Nat.mul_add]
    omega

/-- The quotient of the sum is the sum of the quotients and what they lose. -/
lemma sum_div (hunit : 0 < unit) (xs : List ℕ) :
    (xs.map (· / unit)).sum + lost unit xs = xs.sum / unit := by
  conv_rhs => rw [← sum_div_add_sum_mod unit xs]
  rw [Nat.mul_add_div hunit, lost]

lemma sum_mod_le (hunit : 0 < unit) (xs : List ℕ) :
    (xs.map (· % unit)).sum ≤ xs.length * (unit - 1) := by
  have hle : ∀ r ∈ xs.map (· % unit), r ≤ unit - 1 :=
    List.forall_mem_map.mpr fun x _ => Nat.le_sub_one_of_lt (Nat.mod_lt x hunit)
  simpa using List.sum_le_card_nsmul _ _ hle

/-- Less than one is lost with each number. -/
lemma lost_le (hunit : 0 < unit) (xs : List ℕ) : lost unit xs ≤ xs.length - 1 := by
  rcases Nat.eq_zero_or_pos xs.length with hnil | hpos
  · rw [List.length_eq_zero_iff.mp hnil, lost]
    simp
  · have hsum := sum_mod_le hunit xs
    have hlt : (xs.map (· % unit)).sum < xs.length * unit :=
      hsum.trans_lt (Nat.mul_lt_mul_of_pos_left (Nat.sub_lt hunit Nat.one_pos) hpos)
    have := (Nat.div_lt_iff_lt_mul hunit).mpr hlt
    rw [lost]
    omega

end Quotients

/-! ### The timestamp of a frame -/

variable {T : TransportCrypto} {codec : Codec} {s s' : OutboundRtpState} {c : Call}
  {packets : List OutboundPacket}

def nanosPerSecond : ℕ := 10 ^ 9

/-- From one tick of the clock to one second. -/
def Regular (codec : Codec) (duration : ℕ) : Prop :=
  nanosPerSecond ≤ (descriptor codec).clockRateHz * duration ∧ duration ≤ nanosPerSecond

instance (codec : Codec) (duration : ℕ) : Decidable (Regular codec duration) :=
  inferInstanceAs (Decidable (_ ∧ _))

/-- The packets of a frame of the codec are all built. -/
def Built (codec : Codec) (c : Call) : Prop :=
  c.codec = codec ∧ ∃ payload p xs, c.payload = some payload ∧
    RtpPayloadPacketizer.new codec payload = .ok p ∧ Gives p xs ∧
    xs.length ≤ (c.outcomes.takeWhile (· = .sent)).length + 1

/-- The stream after a call. -/
def send (T : TransportCrypto) (s : OutboundRtpState) (c : Call) : OutboundRtpState :=
  (sendReadyMediaFrame T s c).2.1

/-- Neither bound of the increment matters. -/
lemma timestampIncrement_regular {duration : ℕ} (h : Regular codec duration) :
    timestampIncrement (descriptor codec).clockRateHz duration =
      UInt32.ofNat ((descriptor codec).clockRateHz * duration / nanosPerSecond) := by
  obtain ⟨htick, hsecond⟩ := h
  have hrate : (descriptor codec).clockRateHz < 2 ^ 32 := by cases codec <;> decide
  have hone : 1 ≤ (descriptor codec).clockRateHz * duration / nanosPerSecond :=
    (Nat.one_le_div_iff (by decide)).mpr htick
  have hle : (descriptor codec).clockRateHz * duration / nanosPerSecond ≤
      (descriptor codec).clockRateHz := by
    refine Nat.div_le_of_le_mul ?_
    rw [Nat.mul_comm nanosPerSecond]
    exact Nat.mul_le_mul_left _ hsecond
  change UInt32.ofNat (min (max (_ / nanosPerSecond) 1) _) = _
  rw [max_eq_left hone, min_eq_left (by omega)]

lemma binding_send (T : TransportCrypto) (s : OutboundRtpState) (c : Call) :
    (send T s c).binding = s.binding := by
  obtain ⟨xs, -, hbuilds⟩ := sendReadyMediaFrame_builds T s c
  exact hbuilds.binding

/-- An Opus packet moves the timestamp on. -/
lemma timestamp_audio {x : Bytes × Bool} (haudio : s.codec.mediaType = .audio)
    (h : Builds T c.duration s [x] packets s') :
    s'.timestamp =
      s.timestamp + timestampIncrement s.binding.descriptor.clockRateHz c.duration := by
  cases h with
  | cons hbuild hrest =>
    cases hrest
    obtain ⟨-, -, rfl⟩ := buildPacket_ok hbuild
    simp [OutboundRtpState.advance, haudio]

/-- The packets of a video frame move it on once. -/
lemma timestamp_video {xs : List (Bytes × Bool)} (hvideo : s.codec.mediaType = .video)
    (hxs : Marked xs) (h : Builds T c.duration s xs packets s') :
    s'.timestamp =
      s.timestamp + timestampIncrement s.binding.descriptor.clockRateHz c.duration := by
  have hfront : ∀ x ∈ xs.dropLast, x.2 = false := by
    obtain ⟨ys, payload, rfl, hys⟩ := hxs
    simpa using hys
  rw [(h.timestamps hvideo hfront).2, ticksOf, if_pos (h.hasMarker_of_marked hxs),
    UInt32.ofNat_toNat]

lemma timestamp_send (hs : s.codec = codec) (h : Built codec c) :
    (send T s c).timestamp =
      s.timestamp + timestampIncrement s.binding.descriptor.clockRateHz c.duration := by
  obtain ⟨rfl, payload, p, xs, hpayload, hnew, hgives, hsent⟩ := h
  cases hmedia : c.codec.mediaType with
  | audio =>
    have hopus : c.codec = .opus := by
      cases hcodec : c.codec <;> simp_all [Codec.mediaType]
    obtain ⟨rfl, -⟩ := eq_of_gives_opus (hopus ▸ hnew) hgives
    have hxs : ∀ x ∈ [(payload, false)], x.1 ≠ [] :=
      List.forall_mem_singleton.mpr (frame_ne_nil hnew)
    exact timestamp_audio (hs ▸ hmedia)
      (sendReadyMediaFrame_all hs.symm hpayload hnew hgives hxs hsent)
  | video =>
    obtain ⟨hmarked, hxs⟩ := marked_of_gives hmedia hnew hgives
    exact timestamp_video (hs ▸ hmedia) hmarked
      (sendReadyMediaFrame_all hs.symm hpayload hnew hgives hxs hsent)

/-! ### Runs -/

/-- The timestamp adds up the rounded increments. -/
theorem timestamp_run (hs : s.binding.descriptor = descriptor codec) {calls : List Call}
    (hcalls : ∀ c ∈ calls, Built codec c ∧ Regular codec c.duration) :
    (run (send T) s calls).timestamp = s.timestamp + UInt32.ofNat
      ((calls.map fun c => (descriptor codec).clockRateHz * c.duration).map
        (· / nanosPerSecond)).sum := by
  induction calls generalizing s with
  | nil => simp
  | cons c calls ih =>
    obtain ⟨⟨hbuilt, hregular⟩, hrest⟩ := List.forall_mem_cons.mp hcalls
    have hcodec : s.codec = codec := by
      rw [OutboundRtpState.codec, hs]
      cases codec <;> rfl
    have hbinding : (send T s c).binding.descriptor = descriptor codec := by
      rw [binding_send, hs]
    rw [run_cons, ih hbinding hrest, timestamp_send hcodec hbuilt, hs,
      timestampIncrement_regular hregular]
    simp only [List.map_cons, List.sum_cons, UInt32.ofNat_add, UInt32.add_assoc]

/-- **Drift of the timestamp.** After frames of one tick to one second each the timestamp is behind
the media by the ticks that were lost to rounding, which are fewer than the frames. -/
theorem timestamp_behind (T : TransportCrypto) {ssrc : UInt32} {draw : Option UInt32}
    (hnew : OutboundRtpState.new (.new codec ssrc) draw = .ok s) {calls : List Call}
    (hcalls : ∀ c ∈ calls, Built codec c ∧ Regular codec c.duration) :
    (run (send T) s calls).timestamp + UInt32.ofNat (lost nanosPerSecond
        (calls.map fun c => (descriptor codec).clockRateHz * c.duration)) =
      UInt32.ofNat ((descriptor codec).clockRateHz * (calls.map Call.duration).sum /
        nanosPerSecond) ∧
    lost nanosPerSecond (calls.map fun c => (descriptor codec).clockRateHz * c.duration) ≤
      calls.length - 1 := by
  have hunit : 0 < nanosPerSecond := by decide
  obtain ⟨hstart, hbinding⟩ : s.timestamp = 0 ∧ s.binding = .new codec ssrc := by
    rcases draw with _ | nonceSuffix
    · cases hnew
    · cases hnew
      exact ⟨rfl, rfl⟩
  have hrun : (run (send T) s calls).timestamp = _ :=
    timestamp_run (congrArg OutboundCodecBinding.descriptor hbinding) hcalls
  constructor
  · rw [hrun, hstart, UInt32.zero_add, ← UInt32.ofNat_add, sum_div hunit, List.sum_map_mul_left]
  · have hlost := lost_le hunit (calls.map fun c => (descriptor codec).clockRateHz * c.duration)
    rwa [List.length_map] at hlost

/-- Three VP8 frames of a thirtieth of a second, in whole nanoseconds. -/
def thirtieths : List Call := List.replicate 3 ⟨.vp8, some [1], 33333333, [.sent]⟩

lemma built_thirtieths : ∀ c ∈ thirtieths, Built .vp8 c ∧ Regular .vp8 c.duration := by
  intro c hc
  obtain rfl := (List.mem_replicate.mp hc).2
  have hgives : Gives ⟨.vp8, .fragmented [1] 0 .vp8⟩ [([0x10, 1], true)] :=
    ⟨by decide +kernel, show (RtpPayloadPacketizer.next _).1 = _ by decide +kernel⟩
  exact ⟨⟨rfl, [1], _, _, rfl, rfl, hgives, by simp⟩, by decide⟩

/-- A VP8 stream at its start. -/
def vp8Stream : OutboundRtpState := { nonceSuffix := 5, binding := .new .vp8 2 }

theorem timestamp_behind_thirtieths :
    OutboundRtpState.new (.new .vp8 2) (some 5) = .ok vp8Stream ∧
    (run (send toyCrypto) vp8Stream thirtieths).timestamp +
      UInt32.ofNat (lost nanosPerSecond (thirtieths.map fun c => 90000 * c.duration)) = 8999 := by
  have hnew : OutboundRtpState.new (.new .vp8 2) (some 5) = .ok vp8Stream := rfl
  exact ⟨hnew, (timestamp_behind toyCrypto hnew built_thirtieths).1⟩

/-- After a tenth of a second of media the timestamp is two ticks behind. -/
theorem timestamp_two_behind :
    OutboundRtpState.new (.new .vp8 2) (some 5) = .ok vp8Stream ∧
    (∀ c ∈ thirtieths, Built .vp8 c ∧ Regular .vp8 c.duration) ∧
    (run (send toyCrypto) vp8Stream thirtieths).timestamp = 8997 ∧
    (descriptor .vp8).clockRateHz * (thirtieths.map Call.duration).sum / nanosPerSecond = 8999 :=
  ⟨rfl, built_thirtieths, by decide +kernel, by decide +kernel⟩

end Cacophony.TimestampDrift
