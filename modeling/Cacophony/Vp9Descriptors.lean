import Cacophony.RtpPayload

/-!
VP9 payload descriptors, as RFC 9628 lays them out and as `vp9_descriptor` reads them.

The two differ in the scalability structure. The number of spatial layers stands in the high three
bits of its first byte and the number of references in bits 3 and 2 of the byte of a picture; the
source reads both from the lowest bits. So the descriptor is skipped as it should be exactly when
its structure happens to be one under that reading, too.
-/

namespace Cacophony.Vp9Descriptors

open FrameCodecs RtpPayload

/-! ### The format -/

/-- The pictures of a group, each with as many reference bytes as its first byte says. -/
inductive Pictures (references : UInt8 → ℕ) : ℕ → Bytes → Prop
  | nil : Pictures references 0 []
  | cons {n : ℕ} {picture : UInt8} {refs rest : Bytes} (hrefs : refs.length = references picture)
      (hrest : Pictures references n rest) :
      Pictures references (n + 1) (picture :: (refs ++ rest))

/-- Where a reader finds the two counts of a scalability structure. -/
structure Reading where
  -- one less than the number of spatial layers
  layers : UInt8 → ℕ
  references : UInt8 → ℕ

/-- `N_S` in bits 7 to 5, and `R` in bits 3 and 2. -/
def rfc : Reading :=
  ⟨fun header => (header >>> 5).toNat, fun picture => ((picture >>> 2) &&& 3).toNat⟩

/-- Both in the lowest bits. -/
def low : Reading := ⟨fun header => (header &&& 7).toNat, fun picture => (picture &&& 3).toNat⟩

/-- The picture group: a count and the pictures. -/
def Group (R : Reading) (bytes : Bytes) : Prop :=
  ∃ count pictures, bytes = count :: pictures ∧ Pictures R.references count.toNat pictures

/-- A scalability structure: a byte with the flags, four bytes a spatial layer if `Y` is set, and
the picture group if `G` is set. -/
def Scalability (R : Reading) (bytes : Bytes) : Prop :=
  ∃ header sizes group, bytes = header :: (sizes ++ group) ∧
    sizes.length = (if header &&& 0x10 ≠ 0 then (R.layers header + 1) * 4 else 0) ∧
    if header &&& 0x08 ≠ 0 then Group R group else group = []

/-- Seven or fifteen bits, by the highest one. -/
def PictureId (bytes : Bytes) : Prop :=
  ∃ first, bytes.head? = some first ∧ bytes.length = if first &&& 0x80 ≠ 0 then 2 else 1

/-- One to three indices; the lowest bit says whether another follows. -/
def ReferenceIndices (bytes : Bytes) : Prop :=
  ∃ init last, bytes = init ++ [last] ∧ init.length ≤ 2 ∧ (∀ b ∈ init, b &&& 0x01 ≠ 0) ∧
    last &&& 0x01 = 0

/-- A well-formed descriptor. The flags are `I P L F B E V Z` from the highest bit on. -/
structure Descriptor where
  flags : UInt8
  pictureId : Bytes
  layerIndices : Bytes
  referenceIndices : Bytes
  scalability : Bytes
  pictureId_wf : if flags &&& 0x80 ≠ 0 then PictureId pictureId else pictureId = []
  layerIndices_wf : layerIndices.length =
    if flags &&& 0x20 = 0 then 0 else if flags &&& 0x10 = 0 then 2 else 1
  referenceIndices_wf : if flags &&& 0x10 ≠ 0 ∧ flags &&& 0x40 ≠ 0 then
    ReferenceIndices referenceIndices else referenceIndices = []
  scalability_wf : if flags &&& 0x02 ≠ 0 then Scalability rfc scalability else scalability = []

namespace Descriptor

variable (D : Descriptor)

/-- What is in front of the scalability structure. -/
def front : Bytes := D.flags :: (D.pictureId ++ (D.layerIndices ++ D.referenceIndices))

def bytes : Bytes := D.front ++ D.scalability

/-- The descriptor is skipped, its `B` and `E` are found, and what is left is the payload. -/
def ReadBack (payload : Bytes) (marker hasPartialFrame : Bool) : Prop :=
  vp9Descriptor (D.bytes ++ payload) =
    .ok ⟨D.bytes.length, D.flags &&& 0x08 ≠ 0, D.flags &&& 0x04 ≠ 0⟩ ∧
  ParsedRtpPayload.parse .vp9 (D.bytes ++ payload) marker hasPartialFrame =
    .ok ⟨⟨D.flags &&& 0x08 ≠ 0, marker || D.flags &&& 0x04 ≠ 0⟩, .raw payload⟩

end Descriptor

/-! ### The loops -/

variable {bytes : Bytes} {len stop n : ℕ}

lemma getElem?_of_drop_nil (h : bytes.drop len = []) : bytes[len]? = none := by
  rw [← List.head?_drop, h, List.head?_nil]

/-- The byte at `len`, and the bytes behind it. -/
lemma getElem?_of_drop {rest : Bytes} {b : UInt8} (h : bytes.drop len = b :: rest) :
    bytes[len]? = some b ∧ bytes.drop (len + 1) = rest := by
  constructor
  · rw [← List.head?_drop, h, List.head?_cons]
  · rw [← List.drop_drop, h, List.drop_succ_cons, List.drop_zero]

lemma skipVp9References_append {init tail : Bytes} {last : UInt8}
    (hinit : ∀ b ∈ init, b &&& 0x01 ≠ 0) (hlast : last &&& 0x01 = 0)
    (h : bytes.drop len = init ++ last :: tail) :
    skipVp9References bytes len = .ok (len + (init.length + 1)) := by
  induction init generalizing len with
  | nil =>
    obtain ⟨hget, -⟩ := getElem?_of_drop h
    obtain ⟨hlt, hb⟩ := List.getElem?_eq_some_iff.mp hget
    rw [skipVp9References, dif_pos hlt, hb, if_pos hlast]
    rfl
  | cons b init ih =>
    obtain ⟨hget, hrest⟩ := getElem?_of_drop h
    obtain ⟨hlt, hb⟩ := List.getElem?_eq_some_iff.mp hget
    rw [skipVp9References, dif_pos hlt, hb, if_neg (hinit b List.mem_cons_self),
      ih (fun c hc => hinit c (List.mem_cons_of_mem b hc)) hrest, List.length_cons]
    congr 1
    omega

lemma le_of_skipVp9Pictures (h : skipVp9Pictures bytes n len = .ok stop) : len ≤ stop := by
  induction n generalizing len with
  | zero =>
    cases h
    exact le_rfl
  | succ n ih =>
    rw [skipVp9Pictures] at h
    split at h
    · cases h
    · have := ih h
      omega

/-- A walk over the pictures that ends within the bytes has passed over pictures. -/
lemma pictures_of_skip (hstop : stop ≤ bytes.length) (h : skipVp9Pictures bytes n len = .ok stop) :
    ∃ pictures tail, bytes.drop len = pictures ++ tail ∧ stop = len + pictures.length ∧
      Pictures low.references n pictures := by
  induction n generalizing len with
  | zero =>
    cases h
    exact ⟨[], _, rfl, rfl, .nil⟩
  | succ n ih =>
    rw [skipVp9Pictures] at h
    rcases hdrop : bytes.drop len with _ | ⟨picture, rest⟩
    · rw [getElem?_of_drop_nil hdrop] at h
      cases h
    · obtain ⟨hget, hrest⟩ := getElem?_of_drop hdrop
      rw [hget] at h
      obtain ⟨pictures, tail, hpictures, rfl, hwf⟩ := ih h
      have hle := le_of_skipVp9Pictures h
      have hlen : rest.length = bytes.length - (len + 1) := by rw [← hrest, List.length_drop]
      -- the walk ends within the bytes, so the references of this picture are all there
      refine ⟨picture :: (rest.take (low.references picture) ++ pictures), tail, ?_, ?_,
        .cons ?_ hwf⟩
      · rw [List.cons_append, List.append_assoc, ← hpictures, ← Nat.add_assoc, ← List.drop_drop,
          hrest]
        exact congrArg _ (List.take_append_drop _ _).symm
      · rw [List.length_cons, List.length_append, List.length_take_of_le]
        · simp only [low]
          omega
        · simp only [low]
          omega
      · rw [List.length_take_of_le]
        simp only [low]
        omega

lemma skip_of_pictures {pictures tail : Bytes} (hwf : Pictures low.references n pictures)
    (h : bytes.drop len = pictures ++ tail) :
    skipVp9Pictures bytes n len = .ok (len + pictures.length) := by
  induction hwf generalizing len with
  | nil => rfl
  | @cons n picture refs rest hrefs hrest ih =>
    rw [List.cons_append] at h
    obtain ⟨hget, hbehind⟩ := getElem?_of_drop h
    have hdrop : bytes.drop (len + (1 + (picture &&& 3).toNat)) = rest ++ tail := by
      have hlen : refs.length = (picture &&& 3).toNat := hrefs
      rw [← Nat.add_assoc, ← List.drop_drop, hbehind, List.append_assoc, ← hlen, List.drop_left]
    rw [skipVp9Pictures, hget]
    dsimp only
    rw [ih hdrop, List.length_cons, List.length_append, hrefs]
    simp only [low]
    congr 1
    omega

/-! ### The scalability structure -/

/-- A structure that is skipped within the bytes is one by the low bits. -/
lemma scalability_of_skip (hstop : stop ≤ bytes.length)
    (h : skipVp9ScalabilityStructure bytes len = .ok stop) :
    ∃ ss tail, bytes.drop len = ss ++ tail ∧ stop = len + ss.length ∧ Scalability low ss := by
  rw [skipVp9ScalabilityStructure] at h
  rcases hdrop : bytes.drop len with _ | ⟨header, rest⟩
  · rw [getElem?_of_drop_nil hdrop] at h
    cases h
  obtain ⟨hget, hrest⟩ := getElem?_of_drop hdrop
  rw [hget] at h
  dsimp only at h
  generalize hsizes : (if header &&& 0x10 ≠ 0 then ((header &&& 0x07).toNat + 1) * 4 else 0) = n
    at h
  have hlen : rest.length = bytes.length - (len + 1) := by rw [← hrest, List.length_drop]
  by_cases hgroup : header &&& 0x08 = 0
  · rw [if_pos hgroup] at h
    cases h
    refine ⟨header :: (rest.take n ++ []), rest.drop n, ?_, ?_, header, rest.take n, [], rfl, ?_,
      ?_⟩
    · rw [List.append_nil, List.cons_append, List.take_append_drop]
    · rw [List.length_cons, List.append_nil, List.length_take_of_le (by omega)]
      omega
    · rw [List.length_take_of_le (by omega)]
      exact hsizes.symm
    · rw [if_neg (not_not.mpr hgroup)]
  · rw [if_neg hgroup] at h
    have hbehind : bytes.drop (len + 1 + n) = rest.drop n := by rw [← List.drop_drop, hrest]
    rcases hcount : rest.drop n with _ | ⟨count, groups⟩
    · rw [getElem?_of_drop_nil (hbehind.trans hcount)] at h
      cases h
    obtain ⟨hget, hgroups⟩ := getElem?_of_drop (hbehind.trans hcount)
    rw [hget] at h
    obtain ⟨pictures, tail, hpictures, rfl, hwf⟩ := pictures_of_skip hstop h
    have hn : n ≤ rest.length := by
      by_contra hlt
      rw [List.drop_of_length_le (by omega)] at hcount
      cases hcount
    refine ⟨header :: (rest.take n ++ count :: pictures), tail, ?_, ?_, header, rest.take n,
      count :: pictures, rfl, ?_, ?_⟩
    · rw [List.cons_append, List.append_assoc, List.cons_append, ← hpictures, hgroups, ← hcount,
        List.take_append_drop]
    · rw [List.length_cons, List.length_append, List.length_take_of_le hn, List.length_cons]
      omega
    · rw [List.length_take_of_le hn]
      exact hsizes.symm
    · rw [if_pos hgroup]
      exact ⟨count, pictures, rfl, hwf⟩

lemma skip_of_scalability {ss tail : Bytes} (hwf : Scalability low ss)
    (h : bytes.drop len = ss ++ tail) :
    skipVp9ScalabilityStructure bytes len = .ok (len + ss.length) := by
  obtain ⟨header, sizes, group, rfl, hsizes, hgroup⟩ := hwf
  rw [List.cons_append, List.append_assoc] at h
  obtain ⟨hget, hrest⟩ := getElem?_of_drop h
  have hbehind : bytes.drop (len + 1 + sizes.length) = group ++ tail := by
    rw [← List.drop_drop, hrest, List.drop_left]
  rw [skipVp9ScalabilityStructure, hget]
  dsimp only
  simp only [low] at hsizes
  rw [← hsizes, List.length_cons, List.length_append]
  split at hgroup
  next hflag =>
    obtain ⟨count, pictures, rfl, hpictures⟩ := hgroup
    obtain ⟨hcount, hafter⟩ := getElem?_of_drop hbehind
    rw [if_neg hflag, hcount]
    dsimp only
    rw [skip_of_pictures hpictures hafter, List.length_cons]
    congr 1
    omega
  next hflag =>
    subst hgroup
    rw [if_pos (not_not.mp hflag), List.length_nil]
    congr 1
    omega

/-! ### Descriptors -/

namespace Descriptor

variable (D : Descriptor)

lemma skipVp9PictureId_eq (rest : Bytes) :
    skipVp9PictureId (D.flags :: (D.pictureId ++ rest)) D.flags = .ok (1 + D.pictureId.length) := by
  have hwf := D.pictureId_wf
  unfold skipVp9PictureId
  split at hwf
  next hflag =>
    obtain ⟨first, hfirst, hlen⟩ := hwf
    have hget : (D.flags :: (D.pictureId ++ rest))[1]? = some first := by
      rw [List.getElem?_cons_succ, ← List.head?_eq_getElem?, List.head?_append, hfirst,
        Option.some_or]
    rw [if_neg hflag, hget, hlen]
  next hflag => rw [if_pos (not_not.mp hflag), hwf, List.length_nil]

lemma skipReferenceIndices_eq {rest : Bytes} (h : bytes.drop len = D.referenceIndices ++ rest) :
    (if D.flags &&& 0x10 ≠ 0 ∧ D.flags &&& 0x40 ≠ 0 then skipVp9References bytes len
      else pure len) = .ok (len + D.referenceIndices.length) := by
  have hwf := D.referenceIndices_wf
  split at hwf
  next hflags =>
    obtain ⟨init, last, heq, -, hinit, hlast⟩ := hwf
    rw [heq, List.append_assoc] at h
    rw [if_pos hflags, skipVp9References_append hinit hlast h, heq, List.length_append]
    rfl
  next hflags =>
    rw [if_neg hflags, hwf]
    rfl

/-- Everything in front of the scalability structure is read as it is laid out. -/
lemma vp9Descriptor_eq (payload : Bytes) : vp9Descriptor (D.bytes ++ payload) = (do
    let len ← if D.flags &&& 0x02 ≠ 0 then
        skipVp9ScalabilityStructure (D.bytes ++ payload) D.front.length
      else pure D.front.length
    if (D.bytes ++ payload).length < len then
      malformed .vp9 "truncated VP9 payload descriptor"
    else return ⟨len, D.flags &&& 0x08 ≠ 0, D.flags &&& 0x04 ≠ 0⟩) := by
  have hbytes : D.bytes ++ payload = D.flags :: (D.pictureId ++
      (D.layerIndices ++ (D.referenceIndices ++ (D.scalability ++ payload)))) := by
    simp [bytes, front]
  have hdrop : (D.bytes ++ payload).drop (1 + D.pictureId.length + D.layerIndices.length) =
      D.referenceIndices ++ (D.scalability ++ payload) := by
    rw [hbytes, Nat.add_assoc, Nat.add_comm 1, List.drop_succ_cons, ← List.drop_drop,
      List.drop_left, List.drop_left]
  have hid : skipVp9PictureId (D.bytes ++ payload) D.flags = .ok (1 + D.pictureId.length) := by
    rw [hbytes, skipVp9PictureId_eq]
  have hrefs := D.skipReferenceIndices_eq hdrop
  have hfront : 1 + D.pictureId.length + D.layerIndices.length + D.referenceIndices.length =
      D.front.length := by
    simp only [front, List.length_cons, List.length_append]
    omega
  have hhead : (D.bytes ++ payload).head? = some D.flags := by rw [hbytes, List.head?_cons]
  rw [hfront] at hrefs
  rw [vp9Descriptor, hhead]
  simp only [hid, ← D.layerIndices_wf, bind, Except.bind]
  by_cases hflags : D.flags &&& 0x10 ≠ 0 ∧ D.flags &&& 0x40 ≠ 0
  · rw [if_pos hflags] at hrefs ⊢
    rw [hrefs]
  · rw [if_neg hflags] at hrefs ⊢
    rw [hrefs]

/-- **VP9 descriptors are read back** exactly when the scalability structure, if there is one, is
also one under the reading of the low bits. -/
theorem readBack_iff (payload : Bytes) (marker hasPartialFrame : Bool) :
    D.ReadBack payload marker hasPartialFrame ↔
      (D.flags &&& 0x02 ≠ 0 → Scalability low D.scalability) := by
  have hlen : D.bytes.length = D.front.length + D.scalability.length := by
    rw [bytes, List.length_append]
  have hparse (h : vp9Descriptor (D.bytes ++ payload) =
      .ok ⟨D.bytes.length, D.flags &&& 0x08 ≠ 0, D.flags &&& 0x04 ≠ 0⟩) :
      D.ReadBack payload marker hasPartialFrame := by
    refine ⟨h, ?_⟩
    rw [ParsedRtpPayload.parse, h]
    simp [bind, Except.bind, pure, Except.pure]
  have hfits : ¬ (D.bytes ++ payload).length < D.bytes.length := by
    rw [List.length_append]
    omega
  have hfront : (D.bytes ++ payload).drop D.front.length = D.scalability ++ payload := by
    rw [bytes, List.append_assoc, List.drop_left]
  have heq := D.vp9Descriptor_eq payload
  by_cases hflag : D.flags &&& 0x02 ≠ 0
  · simp only [if_pos hflag, bind, Except.bind, pure, Except.pure] at heq
    constructor
    · intro h _
      have hread := heq.symm.trans h.1
      rcases hskip : skipVp9ScalabilityStructure (D.bytes ++ payload) D.front.length with _ | len
      · rw [hskip] at hread
        cases hread
      rw [hskip] at hread
      dsimp only at hread
      split at hread
      · cases hread
      next hle =>
        obtain rfl : len = D.bytes.length := congrArg Vp9Descriptor.len (Except.ok.inj hread)
        obtain ⟨ss, tail, hss, hstop, hwf⟩ := scalability_of_skip (Nat.le_of_not_lt hle) hskip
        -- the walk has ended where the structure ends, so it was over the structure
        have hsame : ss.length = D.scalability.length := by omega
        rwa [(List.append_inj (hfront.symm.trans hss) hsame.symm).1]
    · intro h
      rw [skip_of_scalability (h hflag) hfront, ← hlen] at heq
      dsimp only at heq
      rw [if_neg hfits] at heq
      exact hparse heq
  · refine iff_of_true (hparse ?_) fun h => absurd h hflag
    have hnil : D.scalability = [] := by
      have hwf := D.scalability_wf
      rwa [if_neg hflag] at hwf
    have hend : D.front.length = D.bytes.length := by rw [hlen, hnil, List.length_nil, Nat.add_zero]
    simp only [if_neg hflag, bind, Except.bind, pure, Except.pure, hend, if_neg hfits] at heq
    exact heq

/-- Two spatial layers of 640 by 360 and 1280 by 720 pixels. -/
def twoLayers : Descriptor where
  flags := 0x0e
  pictureId := []
  layerIndices := []
  referenceIndices := []
  scalability := [0x30, 2, 128, 1, 104, 5, 0, 2, 208]
  pictureId_wf := rfl
  layerIndices_wf := rfl
  referenceIndices_wf := rfl
  scalability_wf := ⟨0x30, [2, 128, 1, 104, 5, 0, 2, 208], [], rfl, by decide, rfl⟩

/-- The size of the second layer is taken for the payload. -/
theorem twoLayers_not_readBack :
    twoLayers.bytes.length = 10 ∧
    vp9Descriptor (twoLayers.bytes ++ [0xaa]) = .ok ⟨6, true, true⟩ ∧
    ParsedRtpPayload.parse .vp9 (twoLayers.bytes ++ [0xaa]) true false =
      .ok ⟨⟨true, true⟩, .raw [5, 0, 2, 208, 0xaa]⟩ ∧
    ¬ twoLayers.ReadBack [0xaa] true false := by
  have hread : vp9Descriptor (twoLayers.bytes ++ [0xaa]) = .ok ⟨6, true, true⟩ := rfl
  refine ⟨rfl, hread, rfl, fun h => ?_⟩
  rw [ReadBack, hread] at h
  exact absurd h.1 (by decide)

end Descriptor

end Cacophony.Vp9Descriptors
