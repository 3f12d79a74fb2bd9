import Cacophony.PayloadRoundTrip
import Cacophony.StartCodes

/-!
Encrypted AV1 frames on their way through the packetizer.

The packetizer reads the units of a frame again after the frame was encrypted. The headers,
extensions and sizes of the units are clear bytes, so it finds the units that were processed; what
follows them is the tag and the trailer. They belong to the last unit when it has no size, and
otherwise they are taken for further units.
-/

namespace Cacophony.EncryptedObus

open Gcm Interleave Leb128 Cacophony.Frame FrameCodecs
open FrameRoundTrip Ratchet SenderNonces StartCodes
open RtpPayload Assembler PayloadRoundTrip

variable {frame x o : Bytes} {p p' : OutboundFrameProcessor} {m : List Bool} {i : ℕ} {obu : Obu}

/-! ### The units of the input -/

/-- The types that `process_av1_frame` leaves out: temporal delimiters, tile lists and padding. -/
def Dropped (obuType : UInt8) : Prop := obuType = 2 ∨ obuType = 8 ∨ obuType = 15

instance (obuType : UInt8) : Decidable (Dropped obuType) :=
  inferInstanceAs (Decidable (_ ∨ _))

/-- The last unit of a frame, from the unit at `index` on. -/
def lastObu (frame : Bytes) (index : ℕ) : Option Obu :=
  match _h : readObu frame index with
  | none => none
  | some obu =>
    if obu.payloadIndex + obu.payloadSize < frame.length then
      lastObu frame (obu.payloadIndex + obu.payloadSize)
    else some obu
termination_by frame.length - index
decreasing_by
  have := readObu_lt _h
  omega

/-- The last unit of the frame is sent. -/
def endsKept (frame : Bytes) (index : ℕ) : Bool :=
  (lastObu frame index).any fun obu => ¬ Dropped obu.obuType

lemma endsKept_of_lt (h : readObu frame i = some obu)
    (hlt : obu.payloadIndex + obu.payloadSize < frame.length) :
    endsKept frame i = endsKept frame (obu.payloadIndex + obu.payloadSize) := by
  rw [endsKept, lastObu]
  split
  next h' => rw [h] at h'; cases h'
  next obu' h' =>
    rw [h] at h'
    cases h'
    rw [if_pos hlt, endsKept]

lemma endsKept_of_le (h : readObu frame i = some obu)
    (hle : frame.length ≤ obu.payloadIndex + obu.payloadSize) :
    endsKept frame i = decide (¬ Dropped obu.obuType) := by
  rw [endsKept, lastObu]
  split
  next h' => rw [h] at h'; cases h'
  next obu' h' =>
    rw [h] at h'
    cases h'
    rw [if_neg (by omega), Option.any_some]

/-! ### The units that are sent -/

/-- What stands in front of a payload of `len` bytes: the header, its extension, and the size if
there is one. -/
def Head (sized : Bool) (head : Bytes) (len : ℕ) : Prop :=
  ∃ header extension, head = header :: (extension ++ if sized then encode len else []) ∧
    extension.length = (if header &&& 0x04 ≠ 0 then 1 else 0) ∧
    (header &&& 0x02 ≠ 0 ↔ sized = true) ∧ (sized = true → len < 2 ^ 64)

/-- Units with sizes, and behind them one without a size if `ends`. -/
inductive Units : Bool → List Piece → Prop
  | nil : Units false []
  | last {u : Piece} (hu : Head false u.1 u.2.length) : Units true [u]
  | more {ends : Bool} {u : Piece} {us : List Piece} (hu : Head true u.1 u.2.length)
      (hus : Units ends us) : Units ends (u :: us)

def pieceMask (us : List Piece) : List Bool :=
  us.flatMap fun u => List.replicate u.1.length true ++ List.replicate u.2.length false

def pieceBytes (us : List Piece) : Bytes := us.flatMap fun u => u.1 ++ u.2

/-- Encryption changes the hidden bytes of a unit, but not how many there are. -/
def Sealed (u v : Piece) : Prop := v.1 = u.1 ∧ v.2.length = u.2.length

lemma Units.sealed {ends : Bool} {us vs : List Piece} (h : Units ends us)
    (hs : List.Forall₂ Sealed us vs) : Units ends vs := by
  induction h generalizing vs with
  | nil =>
    cases hs
    exact .nil
  | last hu =>
    obtain ⟨v, _, hv, hnil, rfl⟩ := List.forall₂_cons_left_iff.mp hs
    cases hnil
    exact .last (hv.1.symm ▸ hv.2.symm ▸ hu)
  | more hu hus ih =>
    obtain ⟨v, vs, hv, hvs, rfl⟩ := List.forall₂_cons_left_iff.mp hs
    exact .more (hv.1.symm ▸ hv.2.symm ▸ hu) (ih hvs)

/-- Other hidden bytes in the place of the hidden ones. -/
lemma exists_sealed {us : List Piece} {as es es' : Bytes} (h : Matches (pieceMask us) as es)
    (hmerge : merge (pieceMask us) as es = pieceBytes us) (hl : es'.length = es.length) :
    ∃ vs, List.Forall₂ Sealed us vs ∧ merge (pieceMask us) as es' = pieceBytes vs := by
  induction us generalizing as es es' with
  | nil => exact ⟨[], .nil, merge_nil _ _⟩
  | cons u us ih =>
    have hmask : pieceMask (u :: us) =
        List.replicate u.1.length true ++ (List.replicate u.2.length false ++ pieceMask us) := by
      rw [pieceMask, List.flatMap_cons, List.append_assoc]
      rfl
    have h' := h.congr hl
    rw [hmask] at h h' hmerge ⊢
    obtain ⟨a₁, a₂, rfl, ha, hm, heq⟩ := h.of_replicate_true
    obtain ⟨e₁, e₂, rfl, he, hm, heq₁⟩ := hm.of_replicate_false
    obtain ⟨b₁, b₂, hb, hbl, hm', heq'⟩ := h'.of_replicate_true
    obtain ⟨rfl, rfl⟩ := List.append_inj hb (ha.trans hbl.symm)
    obtain ⟨e₁', e₂', rfl, he', hm', heq₁'⟩ := hm'.of_replicate_false
    rw [heq, heq₁] at hmerge
    have hsplit : a₁ ++ (e₁ ++ merge (pieceMask us) a₂ e₂) = u.1 ++ (u.2 ++ pieceBytes us) :=
      hmerge.trans (List.append_assoc _ _ _)
    obtain ⟨rfl, hhidden⟩ := List.append_inj hsplit ha
    obtain ⟨-, hrest⟩ := List.append_inj hhidden he
    simp only [List.length_append] at hl
    have hlen : e₂'.length = e₂.length := by omega
    obtain ⟨vs, hvs, hbytes⟩ := ih hm hrest hlen
    refine ⟨(u.1, e₁') :: vs, .cons ⟨rfl, he'⟩ hvs, ?_⟩
    rw [heq', heq₁', hbytes, ← List.append_assoc]
    rfl

/-! ### What is processed -/

/-- A unit as it was read. -/
lemma readObu_spec (h : readObu frame i = some obu) :
    obu.hasExtension = decide (obu.header &&& 0x04 ≠ 0) ∧
    obu.hasSize = decide (obu.header &&& 0x02 ≠ 0) ∧
    (obu.hasExtension = true → i + 2 ≤ frame.length) ∧
    (obu.hasSize = true → obu.payloadSize < 2 ^ 64) ∧
    (obu.hasSize = false → obu.payloadIndex + obu.payloadSize = frame.length) := by
  have hread := readsObu h
  have hpayload := hread.payload
  refine ⟨hread.extension, hread.size, fun hset => ?_, fun hsize => ?_, fun hsize => ?_⟩
  · have hlt := hread.index_lt
    rw [if_pos hset] at hlt
    exact hlt.le
  · rw [obuPayload, if_pos hsize] at hpayload
    obtain ⟨⟨v, n⟩, hdecode, heq⟩ := Option.map_eq_some_iff.mp hpayload
    rw [← (Prod.mk.inj heq).2]
    exact read_lt hdecode
  · have hlt := hread.index_lt
    rw [obuPayload, if_neg (Bool.eq_false_iff.mp hsize)] at hpayload
    obtain ⟨hindex, hrest⟩ := Prod.mk.inj (Option.some.inj hpayload)
    omega

lemma header_without_size : ∀ header : UInt8,
    (header &&& ~~~0b00000010) &&& 0x04 = header &&& 0x04 ∧
      (header &&& ~~~0b00000010) &&& 0x02 = 0 := by
  decide +kernel

/-- The header of a unit as it is sent. -/
def sentHeader (frame : Bytes) (obu : Obu) : UInt8 :=
  if obu.payloadIndex + obu.payloadSize = frame.length ∧ obu.hasSize then
    obu.header &&& ~~~0b00000010 else obu.header

def sentExtension (frame : Bytes) (i : ℕ) (obu : Obu) : Bytes :=
  if obu.hasExtension then slice frame (i + 1) (i + 2) else []

/-- The clear bytes of a unit as it is sent, and its payload. -/
def sentPiece (frame : Bytes) (i : ℕ) (obu : Obu) : Piece :=
  (sentHeader frame obu :: (sentExtension frame i obu ++
      if obu.payloadIndex + obu.payloadSize < frame.length then encode obu.payloadSize else []),
    slice frame obu.payloadIndex (obu.payloadIndex + obu.payloadSize))

/-- Only a unit that ends the frame is sent without a size. -/
lemma keepsSize_iff (ho : readObu frame i = some obu) :
    (obu.hasSize = true ∧ ¬ (obu.payloadIndex + obu.payloadSize = frame.length ∧
      obu.hasSize = true)) ↔ obu.payloadIndex + obu.payloadSize < frame.length := by
  obtain ⟨-, -, -, -, hend⟩ := readObu_spec ho
  have hle := (readObu_lt ho).2
  constructor
  · rintro ⟨hsize, hnot⟩
    exact lt_of_le_of_ne hle fun h => hnot ⟨h, hsize⟩
  · intro hlt
    exact ⟨Bool.eq_true_of_not_eq_false fun h => hlt.ne (hend h), fun h => hlt.ne h.1⟩

lemma addUnencryptedBytes_ite (p : OutboundFrameProcessor) (c : Prop) [Decidable c] (b : Bytes) :
    (if c then p.addUnencryptedBytes b else p) = p.addUnencryptedBytes (if c then b else []) := by
  split <;> rfl

/-- A unit that is sent is clear up to its payload. -/
lemma processObu_carries (hc : Carries p m x) (ho : readObu frame i = some obu)
    (hkept : ¬ Dropped obu.obuType) (h : processObu frame i obu p = some p') :
    Carries p' (m ++ pieceMask [sentPiece frame i obu])
      (x ++ pieceBytes [sentPiece frame i obu]) := by
  obtain ⟨segments, hp', hmask, hbytes⟩ : ∃ segments, p' = addSegments p segments ∧
      segmentMask segments = pieceMask [sentPiece frame i obu] ∧
      segmentBytes segments = pieceBytes [sentPiece frame i obu] := by
    have hkept' : ¬ (obu.obuType = 2 ∨ obu.obuType = 8 ∨ obu.obuType = 15) := hkept
    rw [processObu, if_neg hkept'] at h
    simp only [addUnencryptedBytes_ite, keepsSize_iff ho] at h
    split at h
    next hlt =>
      split at h
      · cases h
      next sizeBuffer written hwrite =>
        rw [take_writeTo hwrite] at h
        cases h
        refine ⟨[(true, [sentHeader frame obu]), (true, sentExtension frame i obu),
          (true, encode obu.payloadSize), (false, (sentPiece frame i obu).2)], rfl, ?_, ?_⟩
        · simp [segmentMask, pieceMask, sentPiece, if_pos hlt, ← List.replicate_append_replicate,
            List.replicate_succ]
        · simp [pieceBytes, sentPiece, if_pos hlt]
    next hge =>
      cases h
      refine ⟨[(true, [sentHeader frame obu]), (true, sentExtension frame i obu),
        (false, (sentPiece frame i obu).2)], rfl, ?_, ?_⟩
      · simp [segmentMask, pieceMask, sentPiece, if_neg hge, List.replicate_succ]
      · simp [pieceBytes, sentPiece, if_neg hge]
  rw [hp', ← hmask, ← hbytes]
  exact hc.addSegments segments

/-- The header tells whether there are an extension and a size. -/
lemma sentHeader_spec (ho : readObu frame i = some obu) :
    (sentHeader frame obu &&& 0x04 ≠ 0 ↔ obu.hasExtension = true) ∧
      (sentHeader frame obu &&& 0x02 ≠ 0 ↔ obu.payloadIndex + obu.payloadSize < frame.length) := by
  obtain ⟨hextension, hsize, -, -, hend⟩ := readObu_spec ho
  obtain ⟨hkeeps, hclears⟩ := header_without_size obu.header
  rw [← keepsSize_iff ho, hextension, hsize, sentHeader]
  split
  next h =>
    rw [hkeeps, hclears]
    simp [hsize ▸ h.2, h.1]
  next h =>
    refine ⟨decide_eq_true_iff.symm, fun hne => ⟨decide_eq_true hne, hsize ▸ h⟩, fun hboth => ?_⟩
    exact of_decide_eq_true hboth.1

/-- What stands in front of the payload of a unit that is sent. -/
lemma sentPiece_spec (ho : readObu frame i = some obu) :
    (sentPiece frame i obu).1 = sentHeader frame obu :: (sentExtension frame i obu ++
      if decide (obu.payloadIndex + obu.payloadSize < frame.length) = true then
        encode (sentPiece frame i obu).2.length else []) ∧
    (sentExtension frame i obu).length = (if sentHeader frame obu &&& 0x04 ≠ 0 then 1 else 0) ∧
    (sentHeader frame obu &&& 0x02 ≠ 0 ↔
      decide (obu.payloadIndex + obu.payloadSize < frame.length) = true) ∧
    (decide (obu.payloadIndex + obu.payloadSize < frame.length) = true →
      (sentPiece frame i obu).2.length < 2 ^ 64) := by
  obtain ⟨-, -, hroom, hlt, -⟩ := readObu_spec ho
  obtain ⟨hextension, hsize⟩ := sentHeader_spec ho
  have hlen : (sentPiece frame i obu).2.length = obu.payloadSize := by
    have hle := (readObu_lt ho).2
    simp only [sentPiece, length_slice]
    omega
  refine ⟨?_, ?_, ?_, ?_⟩
  · rw [hlen]
    simp only [sentPiece, decide_eq_true_eq]
  · simp only [hextension, sentExtension]
    split
    next h =>
      have := hroom h
      rw [length_slice]
      omega
    next => rfl
  · rw [decide_eq_true_eq]
    exact hsize
  · intro h
    rw [hlen]
    exact hlt ((keepsSize_iff ho).mpr (of_decide_eq_true h)).1

/-- The packetizer can read it. -/
lemma head_sentPiece (ho : readObu frame i = some obu) :
    Head (obu.payloadIndex + obu.payloadSize < frame.length) (sentPiece frame i obu).1
      (sentPiece frame i obu).2.length :=
  ⟨_, _, sentPiece_spec ho⟩

/-- What the loop makes of the units from `i` on. -/
lemma processObus_units (hc : Carries p m x) (hlt : i < frame.length)
    (h : processObus frame i p = some p') : ∃ us, Units (endsKept frame i) us ∧
      Carries p' (m ++ pieceMask us) (x ++ pieceBytes us) := by
  fun_induction processObus frame i p generalizing m x with
  | case1 => cases h
  | case2 i p _ obu ho ih =>
    obtain ⟨p₁, h₁, h₂⟩ := Option.bind_eq_some_iff.mp h
    have hle := (readObu_lt ho).2
    have hhead := head_sentPiece ho
    rcases hle.lt_or_eq with hmore | hlast
    · rw [decide_eq_true hmore] at hhead
      rw [endsKept_of_lt ho hmore]
      by_cases hkept : Dropped obu.obuType
      · have hp₁ : some p = some p₁ := (if_pos hkept).symm.trans h₁
        cases hp₁
        exact ih p hc hmore h₂
      · obtain ⟨us, hus, hcarries⟩ := ih p₁ (processObu_carries hc ho hkept h₁) hmore h₂
        refine ⟨sentPiece frame i obu :: us, .more hhead hus, ?_⟩
        simpa [pieceMask, pieceBytes] using hcarries
    · rw [decide_eq_false hlast.not_lt] at hhead
      rw [endsKept_of_le ho hlast.ge]
      rw [processObus, if_neg hlast.not_lt] at h₂
      cases h₂
      by_cases hkept : Dropped obu.obuType
      · have hp₁ : some p = some p' := (if_pos hkept).symm.trans h₁
        cases hp₁
        rw [decide_eq_false (not_not.mpr hkept)]
        exact ⟨[], .nil, by simpa [pieceMask, pieceBytes] using hc⟩
      · rw [decide_eq_true hkept]
        exact ⟨[sentPiece frame i obu], .last hhead, processObu_carries hc ho hkept h₁⟩
  | case3 i p hge => exact absurd hlt hge

/-- **A processed frame is a row of units.** The last one has no size exactly when it ends the
input. -/
theorem processAv1Frame_units (h : processAv1Frame frame {} = some p) :
    ∃ us, Units (endsKept frame 0) us ∧ Carries p (pieceMask us) (pieceBytes us) := by
  rcases frame with _ | ⟨header, rest⟩
  · rw [processAv1Frame, processObus, if_neg (by simp)] at h
    cases h
    have hends : endsKept [] 0 = false := by
      rw [endsKept, lastObu]
      rfl
    exact ⟨[], hends ▸ .nil, carries_empty⟩
  · exact processObus_units carries_empty (Nat.succ_pos _) h

/-! ### What the packetizer reads -/

/-- The end of a unit, or of the frame when the unit has no size. -/
lemma av1ObuEnd_head {sized : Bool} {head payload : Bytes} (hu : Head sized head payload.length)
    (before rest : Bytes) :
    av1ObuEnd .av1 (before ++ (head ++ payload ++ rest)) before.length =
      .ok (if sized then before.length + (head ++ payload).length
        else (before ++ (head ++ payload ++ rest)).length) := by
  obtain ⟨header, extension, rfl, hextension, hsize, hlt⟩ := hu
  set size : Bytes := if sized then encode payload.length else [] with hbytes
  set o := before ++ (header :: (extension ++ size) ++ payload ++ rest) with ho
  have hlen : o.length = before.length + 1 + extension.length + size.length + payload.length +
      rest.length := by
    simp only [ho, List.length_append, List.length_cons]
    omega
  have hget : o[before.length]? = some header := by
    rw [ho, List.getElem?_append_right le_rfl, Nat.sub_self]
    rfl
  have hdrop : o.drop (before.length + 1 + extension.length) = size ++ (payload ++ rest) := by
    have hsplit : o = (before ++ header :: extension) ++ (size ++ (payload ++ rest)) := by
      simp [ho]
    have hfront : before.length + 1 + extension.length =
        (before ++ header :: extension).length := by
      simp only [List.length_append, List.length_cons]
      omega
    rw [hsplit, hfront, List.drop_left]
  have hinside : ¬ o.length < before.length + 1 + extension.length := by omega
  rw [av1ObuEnd, hget]
  dsimp only
  rw [← hextension, if_neg hinside]
  cases sized with
  | false =>
    have hbit : header &&& 0x02 = 0 := by simpa using hsize
    rw [if_pos hbit, if_neg Bool.false_ne_true]
  | true =>
    have hbit : header &&& 0x02 ≠ 0 := by simpa using hsize
    have hsized : size = encode payload.length := if_pos rfl
    rw [if_neg hbit, hdrop, hsized, read_encode (hlt rfl)]
    rw [hsized] at hlen
    dsimp only
    rw [if_pos (by omega), if_pos rfl]
    simp only [List.length_append, List.length_cons]
    congr 1
    omega

lemma obus_step {start stop : ℕ} (hlt : start < o.length)
    (hend : av1ObuEnd .av1 o start = .ok stop) : Obus o start ↔ Obus o stop := by
  constructor
  · intro h
    cases h with
    | done => exact absurd hlt (lt_irrefl _)
    | more _ hend' hrest =>
      cases hend.symm.trans hend'
      exact hrest
  · exact .more hlt hend

lemma Head.pos {sized : Bool} {head : Bytes} {len : ℕ} (h : Head sized head len) :
    0 < head.length := by
  obtain ⟨header, extension, rfl, -⟩ := h
  exact Nat.succ_pos _

/-- The units that were sent are found again, and a last one without a size takes the rest. -/
lemma Units.obus {ends : Bool} {us : List Piece} (h : Units ends us) (before rest : Bytes) :
    if ends then Obus (before ++ (pieceBytes us ++ rest)) before.length
    else (Obus (before ++ (pieceBytes us ++ rest)) before.length ↔
      Obus (before ++ (pieceBytes us ++ rest)) (before ++ pieceBytes us).length) := by
  induction h generalizing before with
  | nil =>
    rw [if_neg Bool.false_ne_true, pieceBytes, List.flatMap_nil, List.append_nil]
  | @last u hu =>
    have hpos := hu.pos
    have hend := av1ObuEnd_head hu before rest
    rw [if_neg Bool.false_ne_true] at hend
    rw [if_pos rfl, pieceBytes, List.flatMap_singleton]
    refine .more ?_ hend .done
    simp only [List.length_append]
    omega
  | @more ends u us hu hus ih =>
    have hpos := hu.pos
    have hcons : before ++ (pieceBytes (u :: us) ++ rest) =
        before ++ (u.1 ++ u.2 ++ (pieceBytes us ++ rest)) := by
      simp [pieceBytes]
    have hend := av1ObuEnd_head hu before (pieceBytes us ++ rest)
    rw [if_pos rfl, ← List.length_append] at hend
    have hstep := obus_step (by simp only [List.length_append]; omega) hend
    have hrest := ih (before ++ (u.1 ++ u.2))
    have hassoc : before ++ (u.1 ++ u.2) ++ pieceBytes us = before ++ pieceBytes (u :: us) := by
      simp [pieceBytes]
    rw [hcons, hstep]
    rwa [List.append_assoc before, hassoc] at hrest

/-- A header with a size that no trailer is long enough for. -/
def oversizedTag : Bytes := [0x02, 0xFF, 0xFF, 0x7F, 0, 0, 0, 0]

lemma not_obus_oversizedTag (before : Bytes) {rest : Bytes} (hrest : rest.length ≤ 255) :
    ¬ Obus (before ++ (oversizedTag ++ rest)) before.length := by
  set o := before ++ (oversizedTag ++ rest) with ho
  have hlen : o.length = before.length + 8 + rest.length := by
    rw [ho, List.length_append, List.length_append, oversizedTag]
    simp only [List.length_cons, List.length_nil]
    omega
  have hget : o[before.length]? = some 0x02 := by
    rw [ho, List.getElem?_append_right le_rfl, Nat.sub_self]
    rfl
  have hdrop : o.drop (before.length + 1) =
      0xFF :: 0xFF :: 0x7F :: 0 :: 0 :: 0 :: 0 :: rest := by
    rw [ho, ← List.drop_drop, List.drop_left]
    rfl
  have hread : DecodedUleb128.read (0xFF :: 0xFF :: 0x7F :: 0 :: 0 :: 0 :: 0 :: rest) =
      some (2097151, 3) := rfl
  have hend : av1ObuEnd .av1 o before.length =
      malformed .av1 "truncated AV1 OBU payload" := by
    rw [av1ObuEnd, hget]
    have hsize : ¬ (0x02 : UInt8) &&& 0x02 = 0 := by decide
    have hnone : ¬ (0x02 : UInt8) &&& 0x04 ≠ 0 := by decide
    simp only [if_neg hnone, if_neg hsize, Nat.add_zero, hdrop, hread]
    rw [if_neg (by omega), if_neg (by omega)]
  intro h
  generalize hstart : before.length = start at h hend
  cases h with
  | done => omega
  | more _ hend' _ => cases hend.symm.trans hend'

/-! ### The sender -/

/-- Whatever the cipher returns, an encrypted frame can be sent, and is rebuilt from its packets. -/
def StaysPacketizable (frame : Bytes) : Prop :=
  ∀ (A : Aead) (K : Kdf) (e : Encryptor) (calls : List Encryptor.Call) (o : Bytes),
    (e.encryptInto A K .av1 frame calls).1 = some (.ok o) →
      ∃ packetizer xs, RtpPayloadPacketizer.new .av1 o = .ok packetizer ∧ Gives packetizer xs ∧
        ∀ {ρ : Type} (S : Stream ρ) (seq : UInt16), Rebuilds S .av1 seq xs o

lemma packetizable_iff (hne : o ≠ []) : (∃ packetizer xs,
    RtpPayloadPacketizer.new .av1 o = .ok packetizer ∧ Gives packetizer xs ∧
      ∀ {ρ : Type} (S : Stream ρ) (seq : UInt16), Rebuilds S .av1 seq xs o) ↔ Obus o 0 := by
  constructor
  · rintro ⟨packetizer, xs, hnew, hxs, -⟩
    exact obus_of_packets hnew hxs
  · intro h
    obtain ⟨packetizer, xs, hnew, hxs, hpacked⟩ := packed_of_obus h hne
    exact ⟨packetizer, xs, hnew, hxs, fun S seq => rebuilds_of_carries hpacked.carries S seq⟩

/-- A cipher that hides nothing. -/
def oversizedAead : Aead where
  encrypt _ _ _ b := some (b, oversizedTag)
  decrypt _ _ _ b _ := some b
  length_encrypt h := by
    cases h
    exact ⟨rfl, rfl⟩
  decrypt_encrypt h := by
    cases h
    rfl

/-- **Packets.** A processed AV1 frame can be sent whatever the cipher returns, exactly when its
last unit is sent, or when it has too many clear ranges to be encrypted at all. -/
theorem staysPacketizable_iff (h : processAv1Frame frame {} = some p) :
    StaysPacketizable frame ↔ endsKept frame 0 = true ∨ ¬ FitsTrailer p := by
  obtain ⟨us, hus, hc⟩ := processAv1Frame_units h
  have hp : process .av1 frame = p := by
    rw [process, Codec.processFrame, h, Option.getD_some]
  constructor
  · intro hstays
    by_contra hno
    obtain ⟨hkept, hfits⟩ := not_or.mp hno
    have hsize := supplementalSize_one (not_not.mp hfits)
    have henc (cipher : FrameCipher) : cipher.encryptProcessed oversizedAead 1 p =
        .ok (pieceBytes us ++ (oversizedTag ++ (tailBytes 1 p.unencryptedRanges ++
          ([UInt8.ofNat (supplementalSize 1 p.unencryptedRanges)] ++ marker)))) := by
      rw [encryptProcessed_of_encrypt hc rfl, if_neg (not_lt.mpr hsize), hc.merge_eq]
      simp only [List.append_assoc]
    obtain ⟨e, cipher, o, hsent, ho⟩ := exists_encryptInto oversizedAead .av1 frame fun cipher =>
      ⟨_, hp ▸ henc cipher, rfl⟩
    rw [hp, henc cipher] at ho
    cases ho
    have hobus := (packetizable_iff (by simp [oversizedTag])).mp (hstays _ _ _ _ _ hsent)
    have hunits := hus.obus [] (oversizedTag ++ (tailBytes 1 p.unencryptedRanges ++
      ([UInt8.ofNat (supplementalSize 1 p.unencryptedRanges)] ++ marker)))
    rw [if_neg hkept] at hunits
    refine not_obus_oversizedTag (pieceBytes us) ?_ (hunits.mp hobus)
    simp only [supplementalSize, tagBytes, List.length_append, marker, List.length_cons,
      List.length_nil] at hsize ⊢
    omega
  · rintro hcond A K e calls o hsent
    obtain ⟨cipher, nonce, henc, -⟩ := encryptInto_ok hsent
    rw [hp] at henc
    obtain ⟨ciphertext, tag, hencrypt, hsize, rfl⟩ := encryptProcessed_eq hc henc
    rcases hcond with hkept | hbig
    · obtain ⟨vs, hvs, hbytes⟩ := exists_sealed hc.is_match hc.merge_eq
        (A.length_encrypt hencrypt).1
      rw [hkept] at hus
      rw [packetizable_iff (by simp [marker]), hbytes]
      simp only [List.append_assoc]
      exact (hus.sealed hvs).obus [] _
    · exact absurd (fitsTrailer_of_supplementalSize hsize) hbig

/-- A frame of one unit. -/
theorem staysPacketizable_oneUnit : StaysPacketizable [0x32, 1, 7] :=
  (staysPacketizable_iff (p := ⟨2, [⟨0, 1⟩], [0x30], [7]⟩) (by decide +kernel)).mpr
    (.inl (by decide +kernel))

def oversizedPrimitives : Primitives where
  encryptBlock := startCodePrimitives.encryptBlock
  ghash _ _ := ⟨oversizedTag ++ List.replicate 8 0, rfl⟩

/-- A unit with padding behind it: the unit keeps its size, and the tag is read as a unit that is
longer than the frame. -/
theorem tag_read_as_unit : ∃ o,
    ((({ activeRatchet := some (.new []) } : Encryptor).encryptInto
      (aes128Gcm8 oversizedPrimitives) toyKdf .av1 [0x32, 1, 7, 0x7A, 0] []).1 = some (.ok o)) ∧
    (processAv1Frame [0x32, 1, 7, 0x7A, 0] {}).map (·.plaintext) = some [0x32, 1, 7] ∧
    (RtpPayloadPacketizer.next ⟨.av1, .av1 o 0 0 0⟩).1 =
      .ok (some ([0x10, 0x32, 1, 7], false)) ∧
    (RtpPayloadPacketizer.next ⟨.av1, .av1 o 0 0 0⟩).2.next.1 =
      .error (.malformedPayload .av1 "truncated AV1 OBU payload") :=
  ⟨[0x32, 1, 7, 0x02, 0xFF, 0xFF, 0x7F, 0, 0, 0, 0, 1, 0, 2, 14, 0xFA, 0xFA],
    by decide +kernel, by decide +kernel, by decide +kernel, by decide +kernel⟩

end Cacophony.EncryptedObus
