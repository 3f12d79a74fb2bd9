import Cacophony.OpusPackets
import Mathlib.Data.List.SplitLengths

/-!
Which Opus packets are taken for sending.

For each framing code, what the validator accepts is what the code can encode: the frames are cut
out of the payload at the lengths that were read. So the accepted bytes are the encodings of the
packets of 20 ms, and no bytes make the validator panic.
-/

namespace Cacophony.OpusFraming

open Progs Panics OpusPackets

/-! ### The framings -/

variable {α : Type} {data payload : Bytes} {n s : ℕ} {b : UInt8}

/-- The payload is that of `n` frames under the code. -/
def Framed (code : UInt8) (payload : Bytes) (n : ℕ) : Prop :=
  ∃ framing : Framing, framing.code = code ∧ framing.bytes = payload ∧
    (∀ f ∈ framing.frames, f.length ≤ 1275) ∧ framing.frames.length = n

lemma framed_zero_iff : Framed 0 payload n ↔ n = 1 ∧ payload.length ≤ 1275 := by
  constructor
  · rintro ⟨_ | _ | _ | _, hcode, rfl, hle, rfl⟩
    · exact ⟨rfl, hle _ (List.mem_singleton_self _)⟩
    all_goals cases hcode
  · rintro ⟨rfl, hle⟩
    exact ⟨.one payload, rfl, rfl, by simpa [Framing.frames] using hle, rfl⟩

lemma framed_one_iff :
    Framed 1 payload n ↔ n = 2 ∧ payload.length % 2 = 0 ∧ payload.length / 2 ≤ 1275 := by
  constructor
  · rintro ⟨_ | ⟨first, second, same⟩ | _ | _, hcode, rfl, hle, rfl⟩
    · cases hcode
    · have hfirst := hle first (by simp [Framing.frames])
      rw [Framing.bytes, List.length_append]
      exact ⟨rfl, by omega, by omega⟩
    all_goals cases hcode
  · rintro ⟨rfl, heven, hle⟩
    refine ⟨.equal (payload.take (payload.length / 2)) (payload.drop (payload.length / 2)) ?_, rfl,
      List.take_append_drop _ _, ?_, rfl⟩
    · rw [List.length_take, List.length_drop]
      omega
    · simp only [Framing.frames, List.mem_cons, List.not_mem_nil, or_false, forall_eq_or_imp,
        forall_eq, List.length_take, List.length_drop]
      omega

lemma framed_two_iff :
    Framed 2 payload n ↔ n = 2 ∧ ∃ m rest, payload = lengthBytes m ++ rest ∧ m ≤ rest.length ∧
      m ≤ 1275 ∧ rest.length - m ≤ 1275 := by
  constructor
  · rintro ⟨_ | _ | ⟨first, second⟩ | _, hcode, rfl, hle, rfl⟩
    · cases hcode
    · cases hcode
    · have hfirst := hle first (by simp [Framing.frames])
      have hsecond := hle second (by simp [Framing.frames])
      refine ⟨rfl, first.length, first ++ second, rfl, ?_, hfirst, ?_⟩
      all_goals
        rw [List.length_append]
        omega
    · cases hcode
  · rintro ⟨rfl, m, rest, rfl, hm, hfirst, hsecond⟩
    have hlength : (rest.take m).length = m := by
      rw [List.length_take]
      omega
    refine ⟨.two (rest.take m) (rest.drop m), rfl, ?_, ?_, rfl⟩
    · rw [Framing.bytes, hlength, List.take_append_drop]
    · simp only [Framing.frames, List.mem_cons, List.not_mem_nil, or_false, forall_eq_or_imp,
        forall_eq, List.length_take, List.length_drop]
      omega

/-- The bytes are `n` frames, with their lengths in front if they vary. -/
def Sized (vbr : Bool) (data : Bytes) (n : ℕ) : Prop :=
  ∃ frames : List Bytes, frames.length = n ∧ framesBytes vbr frames = data ∧
    (∀ f ∈ frames, f.length ≤ 1275) ∧
    (vbr = false → ∀ f ∈ frames, ∀ g ∈ frames, f.length = g.length)

lemma framed_three_iff : Framed 3 payload n ↔ 0 < n ∧ ∃ vbr data, Sized vbr data n ∧
    (payload = countByte vbr false n :: data ∨ ∃ padding : Padding,
      payload = countByte vbr true n :: (padding.header ++ (data ++ padding.bytes))) := by
  constructor
  · rintro ⟨_ | _ | _ | ⟨vbr, frames, padding, nonempty, same⟩, hcode, rfl, hle, rfl⟩
    · cases hcode
    · cases hcode
    · cases hcode
    · refine ⟨List.length_pos_iff.mpr nonempty, vbr, framesBytes vbr frames,
        ⟨frames, rfl, rfl, hle, same⟩, ?_⟩
      rcases padding with _ | padding
      · exact .inl rfl
      · exact .inr ⟨padding, rfl⟩
  · rintro ⟨hn, vbr, data, ⟨frames, rfl, rfl, hle, same⟩, rfl | ⟨padding, rfl⟩⟩
    · exact ⟨.many vbr frames none (List.length_pos_iff.mp hn) same, rfl, rfl, hle, rfl⟩
    · exact ⟨.many vbr frames (some padding) (List.length_pos_iff.mp hn) same, rfl, rfl, hle, rfl⟩

/-! Frames of given lengths are cut out of any bytes. -/

lemma map_length_splitLengths {lens : List ℕ} (h : lens.sum = data.length) :
    (lens.splitLengths data).map List.length = lens ∧ (lens.splitLengths data).flatten = data :=
  ⟨List.map_splitLengths_length data lens h.le, List.flatten_splitLengths data lens h.ge⟩

lemma mem_map_length {frames : List Bytes} {lens : List ℕ} (h : frames.map List.length = lens)
    {f : Bytes} (hf : f ∈ frames) : f.length ∈ lens :=
  h ▸ List.mem_map_of_mem hf

lemma validateOpusCbrFrameSizes_ok_iff (hn : 0 < n) {u : Unit} :
    validateOpusCbrFrameSizes data n = .ok u ↔ data.length % n = 0 ∧ data.length / n ≤ 1275 := by
  simp only [validateOpusCbrFrameSizes, bind_ok_iff, guarded_ok_iff]
  constructor
  · rintro ⟨_, ⟨-, rfl⟩, h⟩
    split at h
    · exact absurd h invalidOpusPacket_ne_ok
    · next hrest =>
      obtain ⟨_, hlen, h⟩ := (bind_ok_iff _ _ _).mp h
      obtain ⟨-, rfl⟩ := guarded_ok_iff.mp hlen
      exact ⟨not_not.mp hrest, validateOpusFrameSize_ok_iff.mp h⟩
  · rintro ⟨hrest, hle⟩
    refine ⟨_, ⟨by omega, rfl⟩, ?_⟩
    rw [if_neg (not_not.mpr hrest), bind_ok_iff]
    exact ⟨_, guarded_ok_iff.mpr ⟨by omega, rfl⟩, validateOpusFrameSize_ok_iff.mpr hle⟩

/-- Frames of one length. -/
lemma aligned_iff_sized (hn : 0 < n) :
    data.length % n = 0 ∧ data.length / n ≤ 1275 ↔ Sized false data n := by
  constructor
  · rintro ⟨hrest, hle⟩
    have hsum : (List.replicate n (data.length / n)).sum = data.length := by
      rw [List.sum_replicate_nat]
      exact Nat.mul_div_cancel' (Nat.dvd_of_mod_eq_zero hrest)
    obtain ⟨hlens, hflatten⟩ := map_length_splitLengths hsum
    have hlength : ∀ f ∈ (List.replicate n (data.length / n)).splitLengths data,
        f.length = data.length / n :=
      fun f hf => List.eq_of_mem_replicate (mem_map_length hlens hf)
    refine ⟨_, by simp, hflatten, ?_, ?_⟩
    · intro f hf
      rw [hlength f hf]
      exact hle
    · intro _ f hf g hg
      rw [hlength f hf, hlength g hg]
  · rintro ⟨frames, rfl, rfl, hle, hsame⟩
    obtain ⟨f, hf⟩ := List.exists_mem_of_length_pos hn
    have hlens : frames.map List.length = List.replicate frames.length f.length := by
      refine List.eq_replicate_iff.mpr ⟨List.length_map _, fun m hm => ?_⟩
      obtain ⟨g, hg, rfl⟩ := List.mem_map.mp hm
      exact hsame rfl g hg f hf
    have hlength : (framesBytes false frames).length = frames.length * f.length := by
      rw [framesBytes, if_neg Bool.false_ne_true, List.nil_append, List.length_flatten, hlens,
        List.sum_replicate_nat]
    rw [hlength, Nat.mul_mod_right, Nat.mul_div_cancel_left _ hn]
    exact ⟨rfl, hle f hf⟩

lemma validateOpusVbrFrameSizes_ok_iff (hn : 0 < n) {u : Unit} :
    validateOpusVbrFrameSizes data n = .ok u ↔
      ∃ rest total, vbrLoop data 0 (n - 1) = .ok (rest, total) ∧ total ≤ rest.length ∧
        rest.length - total ≤ 1275 := by
  simp only [validateOpusVbrFrameSizes, bind_ok_iff, guarded_ok_iff, Prod.exists]
  constructor
  · rintro ⟨_, ⟨-, rfl⟩, rest, total, hloop, h⟩
    split at h
    · exact absurd h invalidOpusPacket_ne_ok
    · obtain ⟨_, hlast, h⟩ := (bind_ok_iff _ _ _).mp h
      obtain ⟨htotal, rfl⟩ := guarded_ok_iff.mp hlast
      exact ⟨rest, total, hloop, htotal, validateOpusFrameSize_ok_iff.mp h⟩
  · rintro ⟨rest, total, hloop, htotal, hle⟩
    refine ⟨_, ⟨hn, rfl⟩, rest, total, hloop, ?_⟩
    rw [if_neg (by omega), bind_ok_iff]
    exact ⟨_, guarded_ok_iff.mpr ⟨htotal, rfl⟩, validateOpusFrameSize_ok_iff.mpr hle⟩

/-- Frames with their lengths. -/
lemma vbrLoop_iff_sized (hn : 0 < n) (hdata : data.length < usizeBound) :
    (∃ rest total, vbrLoop data 0 (n - 1) = .ok (rest, total) ∧ total ≤ rest.length ∧
      rest.length - total ≤ 1275) ↔ Sized true data n := by
  constructor
  · rintro ⟨rest, total, hloop, htotal, hle⟩
    obtain ⟨lens, hlen, hlens, rfl, rfl, -⟩ := vbrLoop_ok_iff.mp hloop
    rw [Nat.zero_add] at htotal hle
    have hsum : (lens ++ [rest.length - lens.sum]).sum = rest.length := by
      rw [List.sum_append, List.sum_singleton]
      omega
    obtain ⟨hmap, hflatten⟩ := map_length_splitLengths hsum
    refine ⟨(lens ++ [rest.length - lens.sum]).splitLengths rest, ?_, ?_, ?_, by rintro ⟨⟩⟩
    · simp only [List.length_splitLengths, List.length_append, hlen, List.length_singleton]
      omega
    · have hinit : (((lens ++ [rest.length - lens.sum]).splitLengths rest).dropLast).map
          List.length = lens := by
        rw [List.map_dropLast, hmap, List.dropLast_concat]
      rw [framesBytes, if_pos rfl, hflatten, ← List.flatMap_map, hinit]
    · intro f hf
      rcases List.mem_append.mp (mem_map_length hmap hf) with h | h
      · exact hlens _ h
      · rw [List.mem_singleton.mp h]
        exact hle
  · rintro ⟨frames, rfl, rfl, hle, -⟩
    have hne : frames ≠ [] := List.length_pos_iff.mp hn
    have hsplit : frames.dropLast ++ [frames.getLast hne] = frames :=
      List.dropLast_append_getLast hne
    have hflatten : frames.flatten.length =
        (frames.dropLast.map List.length).sum + (frames.getLast hne).length := by
      rw [List.length_flatten, ← congrArg (fun fs => (fs.map List.length).sum) hsplit]
      simp
    have hloop : vbrLoop (framesBytes true frames) 0 (frames.length - 1) =
        .ok (frames.flatten, (frames.dropLast.map List.length).sum) := by
      refine vbrLoop_ok_iff.mpr ⟨frames.dropLast.map List.length, by simp, ?_, ?_, by simp, ?_⟩
      · intro m hm
        obtain ⟨f, hf, rfl⟩ := List.mem_map.mp hm
        exact hle f (List.dropLast_subset frames hf)
      · rw [framesBytes, if_pos rfl, List.flatMap_map]
      · intro _
        have hlength : frames.flatten.length ≤ (framesBytes true frames).length := by
          rw [framesBytes, List.length_append]
          exact Nat.le_add_left _ _
        omega
    refine ⟨_, _, hloop, by omega, ?_⟩
    rw [hflatten, Nat.add_sub_cancel_left]
    exact hle _ (List.getLast_mem hne)

/-- Padding is taken off. -/
lemma stripPadding_ok_iff (hpayload : 255 * payload.length < usizeBound) :
    stripPadding payload = .ok data ↔
      ∃ padding : Padding, payload = padding.header ++ (data ++ padding.bytes) := by
  simp only [stripPadding, parseOpusPaddingLen, bind_ok_iff, guarded_ok_iff, okOr_ok_iff,
    Prod.exists, paddingLoop_ok_iff]
  constructor
  · rintro ⟨_, _, ⟨full, last, rest, hlast, rfl, rfl, rfl, -⟩, _, ⟨-, rfl⟩, _, ⟨hle, rfl⟩, -, rfl⟩
    have hdrop : (List.replicate full 255 ++ last :: rest).drop (0 + full + 1) = rest := by
      rw [← List.singleton_append, ← List.append_assoc]
      exact List.drop_left' (by simp)
    rw [hdrop] at hle ⊢
    refine ⟨⟨full, last, hlast, rest.drop (rest.length - (0 + 254 * full + last.toNat)), ?_⟩, ?_⟩
    · rw [List.length_drop]
      omega
    · rw [List.take_append_drop, Padding.header, List.append_assoc, List.singleton_append]
  · rintro ⟨⟨full, last, hlast, bytes, hbytes⟩, rfl⟩
    rw [Padding.header] at hpayload ⊢
    have hlength : last.toNat < 256 := last.toNat_lt
    have hdrop : (List.replicate full 255 ++ [last] ++ (data ++ bytes)).drop (0 + full + 1) =
        data ++ bytes := List.drop_left' (by simp)
    refine ⟨_, _, ⟨full, last, data ++ bytes, hlast, by simp, rfl, rfl, ?_⟩, _, ⟨?_, rfl⟩, _,
      ⟨?_, rfl⟩, ?_, ?_⟩
    · simp only [List.length_append, List.length_replicate, List.length_singleton] at hpayload
      omega
    · simp only [List.length_append, List.length_replicate, List.length_singleton]
      omega
    · rw [hdrop, List.length_append]
      omega
    · omega
    · rw [hdrop, List.length_append]
      exact List.take_left' (by omega)

lemma opusCode1FrameCount_ok_iff :
    opusCode1FrameCount payload = .ok n ↔ Framed 1 payload n := by
  rw [opusCode1FrameCount, framed_one_iff]
  split
  · next h => simp [h]
  · next h =>
    simp only [bind_ok_iff, validateOpusFrameSize_ok_iff, Except.ok.injEq, exists_and_left,
      exists_const, not_not.mp h, true_and]
    omega

lemma opusCode2FrameCount_ok_iff :
    opusCode2FrameCount payload = .ok n ↔ Framed 2 payload n := by
  simp only [opusCode2FrameCount, bind_ok_iff, okOr_ok_iff, Prod.exists, framed_two_iff]
  constructor
  · rintro ⟨m, used, hparse, _, ⟨-, rfl⟩, h⟩
    obtain ⟨-, rfl, rest, rfl⟩ := parseOpusFrameSize_ok_iff.mp hparse
    rw [List.length_append, Nat.add_sub_cancel_left] at h
    split at h
    · exact absurd h invalidOpusPacket_ne_ok
    · next hle =>
      simp only [bind_ok_iff, validateOpusFrameSize_ok_iff, guarded_ok_iff] at h
      obtain ⟨_, hfirst, _, ⟨-, rfl⟩, _, hsecond, h⟩ := h
      cases h
      exact ⟨rfl, m, rest, rfl, by omega, hfirst, hsecond⟩
  · rintro ⟨rfl, m, rest, rfl, hm, hfirst, hsecond⟩
    refine ⟨m, _, parseOpusFrameSize_ok_iff.mpr ⟨hfirst, rfl, rest, rfl⟩, _, ⟨?_, rfl⟩, ?_⟩
    · rw [List.length_append]
      omega
    · rw [List.length_append, Nat.add_sub_cancel_left, if_neg (by omega)]
      simp only [bind_ok_iff, validateOpusFrameSize_ok_iff, guarded_ok_iff]
      exact ⟨(), hfirst, _, ⟨hm, rfl⟩, (), hsecond, trivial⟩

/-- The steps behind the frame count byte. -/
lemma opusCode3FrameCount_cons_ok_iff {frameBytes : Bytes} (hs : 120 ≤ s) (hs' : s ≤ 2880) :
    opusCode3FrameCount (b :: frameBytes) s = .ok n ↔
      (b &&& 0x3f).toNat = n ∧ 0 < n ∧ s * n ≤ 5760 ∧ ∃ data,
        unpadded b frameBytes = .ok data ∧ validateOpusFrameSizes b data n = .ok () := by
  simp only [opusCode3FrameCount]
  generalize (b &&& 0x3f).toNat = count
  have hmul : 120 * count ≤ s * count := Nat.mul_le_mul_right count hs
  split
  · next hcount =>
    simp only [invalidOpusPacket_ne_ok, false_iff]
    rintro ⟨rfl, hn, hduration, -⟩
    omega
  · next hcount =>
    have hlt : s * count < usizeBound :=
      (Nat.mul_le_mul hs' (show count ≤ 48 by omega)).trans_lt (by decide)
    simp only [bind_ok_iff, guarded_ok_iff]
    constructor
    · rintro ⟨_, ⟨-, rfl⟩, h⟩
      split at h
      · exact absurd h invalidOpusPacket_ne_ok
      · next hduration =>
        obtain ⟨data, hstrip, h⟩ := (bind_ok_iff _ _ _).mp h
        obtain ⟨_, hsizes, h⟩ := (bind_ok_iff _ _ _).mp h
        cases h
        exact ⟨rfl, by omega, Nat.le_of_not_lt hduration, data, hstrip, hsizes⟩
    · rintro ⟨rfl, hn, hduration, data, hstrip, hsizes⟩
      refine ⟨_, ⟨hlt, rfl⟩, ?_⟩
      rw [if_neg (show ¬ s * count > opusMaxPacketSamplesPerChannel from Nat.not_lt.mpr hduration)]
      exact (bind_ok_iff _ _ _).mpr ⟨data, hstrip, (bind_ok_iff _ _ _).mpr ⟨(), hsizes, rfl⟩⟩

lemma validateOpusFrameSizes_ok_iff (hn : 0 < n) (hdata : data.length < usizeBound) :
    validateOpusFrameSizes b data n = .ok () ↔ Sized (decide (b &&& 0x80 ≠ 0)) data n := by
  rw [validateOpusFrameSizes]
  split
  · next h => rw [validateOpusVbrFrameSizes_ok_iff hn, vbrLoop_iff_sized hn hdata, decide_eq_true h]
  · next h => rw [validateOpusCbrFrameSizes_ok_iff hn, aligned_iff_sized hn, decide_eq_false h]

lemma length_data_lt {header padding : Bytes}
    (h : 255 * (header ++ (data ++ padding)).length < usizeBound) : data.length < usizeBound := by
  rw [List.length_append, List.length_append] at h
  omega

lemma opusCode3FrameCount_ok_iff (hs : 120 ≤ s) (hs' : s ≤ 2880)
    (hpayload : payload.length ≤ maxPacketBytes) :
    opusCode3FrameCount payload s = .ok n ↔ Framed 3 payload n ∧ s * n ≤ 5760 := by
  rcases payload with _ | ⟨b, frameBytes⟩
  · simp [opusCode3FrameCount, framed_three_iff]
  have hlength : 255 * frameBytes.length < usizeBound := by
    rw [List.length_cons, maxPacketBytes] at hpayload
    rw [usizeBound]
    omega
  rw [opusCode3FrameCount_cons_ok_iff hs hs', framed_three_iff]
  constructor
  · rintro ⟨rfl, hn, hduration, data, hstrip, hsizes⟩
    have hb := countByte_self b
    generalize (b &&& 0x3f).toNat = n at *
    rw [unpadded] at hstrip
    split at hstrip
    · next hpadded =>
      obtain ⟨padding, rfl⟩ := (stripPadding_ok_iff hlength).mp hstrip
      rw [validateOpusFrameSizes_ok_iff hn (length_data_lt hlength)] at hsizes
      rw [decide_eq_true hpadded] at hb
      exact ⟨⟨hn, _, data, hsizes, .inr ⟨padding, by rw [hb]⟩⟩, hduration⟩
    · next hpadded =>
      cases hstrip
      rw [validateOpusFrameSizes_ok_iff hn (by omega)] at hsizes
      rw [decide_eq_false hpadded] at hb
      exact ⟨⟨hn, _, _, hsizes, .inl (by rw [hb])⟩, hduration⟩
  · rintro ⟨⟨hn, vbr, data, hsized, hframed⟩, hduration⟩
    have hmul : 120 * n ≤ s * n := Nat.mul_le_mul_right n hs
    rcases hframed with hframed | ⟨padding, hframed⟩
    · obtain ⟨rfl, rfl⟩ := List.cons.injEq .. ▸ hframed
      obtain ⟨hcount, hpadded, hvbr⟩ := countByte_fields vbr false (show n < 64 by omega)
      refine ⟨hcount, hn, hduration, _, if_neg (of_decide_eq_false hpadded), ?_⟩
      rw [validateOpusFrameSizes_ok_iff hn (by omega), hvbr]
      exact hsized
    · obtain ⟨rfl, rfl⟩ := List.cons.injEq .. ▸ hframed
      obtain ⟨hcount, hpadded, hvbr⟩ := countByte_fields vbr true (show n < 64 by omega)
      refine ⟨hcount, hn, hduration, data, ?_, ?_⟩
      · rw [unpadded, if_pos (of_decide_eq_true hpadded), stripPadding_ok_iff hlength]
        exact ⟨padding, rfl⟩
      · rw [validateOpusFrameSizes_ok_iff hn (length_data_lt hlength), hvbr]
        exact hsized

/-- The frame count of a packet is that of its framing, and a packet of more than 120 ms has
none. -/
lemma opusPacketFrameCount_ok_iff {toc : UInt8} (hpayload : payload.length ≤ maxPacketBytes) :
    opusPacketFrameCount (toc :: payload) (opusSamplesPerFrame toc) = .ok n ↔
      Framed (toc &&& 0x03) payload n ∧ frameSamples toc * n ≤ 5760 := by
  obtain ⟨hs, hs'⟩ := frameSamples_bounds toc
  have hstart : opusPacketFrameCount (toc :: payload) (opusSamplesPerFrame toc) =
      if toc &&& 0x03 = 0 then do
        validateOpusFrameSize payload.length
        .ok 1
      else if toc &&& 0x03 = 1 then opusCode1FrameCount payload
      else if toc &&& 0x03 = 2 then opusCode2FrameCount payload
      else opusCode3FrameCount payload (frameSamples toc) := by
    rw [← opusSamplesPerFrame_eq]
    rfl
  rw [hstart]
  split
  · next h =>
    rw [h, framed_zero_iff]
    simp only [bind_ok_iff, validateOpusFrameSize_ok_iff, Except.ok.injEq, exists_and_left,
      exists_const]
    constructor
    · rintro ⟨hle, rfl⟩
      exact ⟨⟨rfl, hle⟩, by omega⟩
    · rintro ⟨⟨rfl, hle⟩, -⟩
      exact ⟨hle, rfl⟩
  split
  · next h =>
    rw [h, opusCode1FrameCount_ok_iff]
    refine (and_iff_left_of_imp fun hframed => ?_).symm
    rw [(framed_one_iff.mp hframed).1]
    omega
  split
  · next h =>
    rw [h, opusCode2FrameCount_ok_iff]
    refine (and_iff_left_of_imp fun hframed => ?_).symm
    rw [(framed_two_iff.mp hframed).1]
    omega
  · next h0 h1 h2 =>
    rw [code_eq_three toc h0 h1 h2]
    exact opusCode3FrameCount_ok_iff hs hs' hpayload

/-- The duration that is found is that of a packet of the RFC. -/
lemma opusPacketSamplesPerChannel_ok_iff {toc : UInt8} {samples : ℕ}
    (hpayload : payload.length ≤ maxPacketBytes) :
    opusPacketSamplesPerChannel (toc :: payload) = .ok samples ↔
      ∃ p : OpusPacket, p.encode = toc :: payload ∧ p.samples = samples := by
  have hstart : opusPacketSamplesPerChannel (toc :: payload) = .ok samples ↔
      ∃ n, opusPacketFrameCount (toc :: payload) (opusSamplesPerFrame toc) = .ok n ∧
        frameSamples toc * n = samples := by
    simp only [opusPacketSamplesPerChannel, firstByte, bind_ok_iff, guarded_ok_iff, okOr_ok_iff,
      opusSamplesPerFrame_eq]
    constructor
    · rintro ⟨_, ⟨-, rfl⟩, n, hcount, _, ⟨-, rfl⟩, h⟩
      split at h
      · exact absurd h invalidOpusPacket_ne_ok
      · cases h
        exact ⟨n, hcount, rfl⟩
    · rintro ⟨n, hcount, rfl⟩
      have hle : frameSamples toc * n ≤ 5760 :=
        ((opusPacketFrameCount_ok_iff hpayload).mp (opusSamplesPerFrame_eq toc ▸ hcount)).2
      refine ⟨toc, ⟨List.cons_ne_nil _ _, rfl⟩, n, hcount, _, ⟨hle.trans_lt (by decide), rfl⟩, ?_⟩
      exact if_neg (Nat.not_lt.mpr hle)
  rw [hstart]
  constructor
  · rintro ⟨n, hcount, rfl⟩
    obtain ⟨⟨framing, hcode, hbytes, hle, rfl⟩, hduration⟩ :=
      (opusPacketFrameCount_ok_iff hpayload).mp hcount
    refine ⟨⟨toc, framing, hcode, hle, ?_⟩, ?_, Nat.mul_comm _ _⟩
    · rw [Nat.mul_comm]
      exact hduration
    · rw [OpusPacket.encode, hbytes]
  · rintro ⟨⟨toc', framing, hcode, hle, hduration⟩, hencode, rfl⟩
    obtain ⟨rfl, rfl⟩ := List.cons.injEq .. ▸ hencode
    refine ⟨framing.frames.length, ?_, Nat.mul_comm _ _⟩
    refine (opusPacketFrameCount_ok_iff hpayload).mpr ⟨⟨framing, hcode, rfl, hle, rfl⟩, ?_⟩
    rw [Nat.mul_comm]
    exact hduration

/-! ### No panic -/

lemma returns_okOr {p : Prop} [Decidable p] {a : α} {reason : String} :
    Returns (okOr p a reason) := by
  rw [okOr]
  split
  · exact returns_ok
  · exact returns_failed _

lemma returns_validateOpusFrameSize : Returns (validateOpusFrameSize n) := by
  rw [validateOpusFrameSize]
  split
  · exact returns_failed _
  · exact returns_ok

lemma returns_parseOpusFrameSize : Returns (parseOpusFrameSize data) := by
  rcases data with _ | ⟨first, rest⟩
  · exact returns_failed _
  simp only [parseOpusFrameSize]
  split
  · exact returns_ok
  rcases rest with _ | ⟨second, rest⟩
  · exact returns_failed _
  · exact returns_ok

lemma returns_paddingLoop {padding index : ℕ} : Returns (paddingLoop padding index data) := by
  induction data generalizing padding index with
  | nil => exact returns_failed _
  | cons byte data ih =>
    refine returns_bind returns_okOr fun padding _ => ?_
    split
    · exact returns_ok
    · exact ih

lemma returns_vbrLoop {sized count : ℕ} : Returns (vbrLoop data sized count) := by
  induction count generalizing data sized with
  | zero => exact returns_ok
  | succ count ih =>
    refine returns_bind returns_parseOpusFrameSize fun _ _ => ?_
    refine returns_bind returns_validateOpusFrameSize fun _ _ => ?_
    refine returns_bind returns_okOr fun _ _ => ?_
    exact returns_bind returns_okOr fun _ _ => ih

lemma returns_validateOpusFrameSizes (hn : 0 < n) : Returns (validateOpusFrameSizes b data n) := by
  rw [validateOpusFrameSizes]
  split
  · refine returns_bind (returns_guarded hn) fun _ _ => ?_
    refine returns_bind returns_vbrLoop fun _ _ => ?_
    dsimp only
    split
    · exact returns_failed _
    · refine returns_bind (returns_guarded (by omega)) fun _ _ => ?_
      exact returns_validateOpusFrameSize
  · refine returns_bind (returns_guarded (by omega)) fun _ _ => ?_
    split
    · exact returns_failed _
    · refine returns_bind (returns_guarded (by omega)) fun _ _ => ?_
      exact returns_validateOpusFrameSize

lemma returns_unpadded : Returns (unpadded b data) := by
  rw [unpadded]
  split
  · refine returns_bind returns_paddingLoop fun _ _ => ?_
    refine returns_bind returns_okOr fun frameBytes _ => ?_
    refine returns_bind returns_okOr fun dataLen hlen => returns_guarded ?_
    have := okOr_ok_iff.mp hlen
    omega
  · exact returns_ok

lemma returns_opusCode3FrameCount (hs : s ≤ 2880) : Returns (opusCode3FrameCount payload s) := by
  rcases payload with _ | ⟨b, frameBytes⟩
  · exact returns_failed _
  simp only [opusCode3FrameCount]
  split
  · exact returns_failed _
  · next hcount =>
    have hlt : s * (b &&& 0x3f).toNat < usizeBound :=
      (Nat.mul_le_mul hs (show (b &&& 0x3f).toNat ≤ 48 by omega)).trans_lt (by decide)
    refine returns_bind (returns_guarded hlt) fun _ _ => ?_
    split
    · exact returns_failed _
    · refine returns_bind returns_unpadded fun _ _ => ?_
      exact returns_bind (returns_validateOpusFrameSizes (by omega)) fun _ _ => returns_ok

lemma returns_opusCode2FrameCount : Returns (opusCode2FrameCount payload) := by
  refine returns_bind returns_parseOpusFrameSize fun _ _ => ?_
  refine returns_bind returns_okOr fun _ _ => ?_
  split
  · exact returns_failed _
  · refine returns_bind returns_validateOpusFrameSize fun _ _ => ?_
    refine returns_bind (returns_guarded (by omega)) fun _ _ => ?_
    exact returns_bind returns_validateOpusFrameSize fun _ _ => returns_ok

lemma returns_opusCode1FrameCount : Returns (opusCode1FrameCount payload) := by
  rw [opusCode1FrameCount]
  split
  · exact returns_failed _
  · exact returns_bind returns_validateOpusFrameSize fun _ _ => returns_ok

lemma returns_opusPacketFrameCount {packet : Bytes} (h : packet ≠ []) (hs : s ≤ 2880) :
    Returns (opusPacketFrameCount packet s) := by
  refine returns_bind (returns_guarded (List.length_pos_iff.mpr h)) fun _ _ => ?_
  refine returns_bind (returns_guarded h) fun _ _ => ?_
  split
  · exact returns_bind returns_validateOpusFrameSize fun _ _ => returns_ok
  split
  · exact returns_opusCode1FrameCount
  split
  · exact returns_opusCode2FrameCount
  · exact returns_opusCode3FrameCount hs

/-- No bytes make the validator panic. -/
lemma returns_fromBytes (bytes : Bytes) : Returns (Packet.fromBytes bytes) := by
  refine returns_bind ?_ fun _ _ => returns_ok
  rw [validatePacketBytes]
  split
  · exact returns_failed _
  split
  · exact returns_failed _
  next hempty _ =>
  have hne : bytes ≠ [] := fun h => hempty (by rw [h]; rfl)
  refine returns_bind ?_ fun _ _ => ?_
  · refine returns_bind (returns_guarded hne) fun toc _ => ?_
    have hs : opusSamplesPerFrame toc ≤ 2880 :=
      (opusSamplesPerFrame_eq toc).trans_le (frameSamples_bounds toc).2
    refine returns_bind (returns_opusPacketFrameCount hne hs) fun _ _ => ?_
    refine returns_bind returns_okOr fun _ _ => ?_
    split
    · exact returns_failed _
    · exact returns_ok
  · split
    · exact returns_failed _
    · exact returns_ok

/-! ### The accepted packets -/

lemma fromBytes_ok_iff (bytes : Bytes) :
    Packet.fromBytes bytes = .ok ⟨bytes⟩ ↔ bytes ≠ [] ∧ bytes.length ≤ 4096 ∧
      ∃ p : OpusPacket, p.encode = bytes ∧ p.samples = 960 := by
  simp only [Packet.fromBytes, validatePacketBytes, bind_ok_iff]
  rcases bytes with _ | ⟨toc, payload⟩
  · simp
  simp only [List.isEmpty_cons, Bool.false_eq_true, if_false]
  split
  · next hlong =>
    simp only [reduceCtorEq, false_and, exists_false, false_iff]
    rintro ⟨-, hle, -⟩
    exact absurd hle (Nat.not_le.mpr hlong)
  · next hlong =>
    have hle : (toc :: payload).length ≤ maxPacketBytes := Nat.le_of_not_lt hlong
    have hpayload : payload.length ≤ maxPacketBytes := (Nat.le_succ _).trans hle
    simp only [bind_ok_iff, opusPacketSamplesPerChannel_ok_iff hpayload]
    constructor
    · rintro ⟨_, ⟨samples, ⟨p, hencode, rfl⟩, h⟩, -⟩
      split at h
      · cases h
      · next hsamples => exact ⟨List.cons_ne_nil _ _, hle, p, hencode, not_not.mp hsamples⟩
    · rintro ⟨-, -, p, hencode, hsamples⟩
      exact ⟨(), ⟨960, ⟨p, hencode, hsamples⟩, rfl⟩, trivial⟩

/-- **Exactly the packets of 20 ms.** No bytes make `from_bytes` panic; it accepts those that are
not empty, at most 4096, and the encoding of a packet of 960 samples. -/
theorem fromBytes_accepts_iff (bytes : Bytes) :
    Packet.fromBytes bytes ≠ .error .panicked ∧
      (Packet.fromBytes bytes = .ok ⟨bytes⟩ ↔ bytes ≠ [] ∧ bytes.length ≤ 4096 ∧
        ∃ p : OpusPacket, p.encode = bytes ∧ p.samples = 960) :=
  ⟨returns_fromBytes bytes, fromBytes_ok_iff bytes⟩

end Cacophony.OpusFraming
