import Cacophony.EncryptedObus

/-!
The units of a processed AV1 frame.

`parseUnits` reads a row of units as the format defines it: a unit without a size runs to the end,
and may be empty there. Processing drops the units that are not to be sent, writes sizes in their
shortest form and takes the size from a unit that ends the frame; what it leaves reads as the units
of the input without the dropped ones.
-/

namespace Cacophony.ObuUnits

open Leb128 Cacophony.Frame FrameCodecs FrameRoundTrip
open EncryptedObus

/-- A unit, without the flag of its header that says whether it has a size. -/
structure ObuUnit where
  header : UInt8
  extension : Option UInt8
  payload : Bytes
  deriving DecidableEq

def withoutSize (header : UInt8) : UInt8 := header &&& ~~~0b00000010

def obuTypeOf (header : UInt8) : UInt8 := (header &&& 0b01111000) >>> 3

/-- The payload at the front of `bytes`, and what follows it. -/
def parsePayload (hasSize : Bool) (bytes : Bytes) : Option (Bytes × Bytes) :=
  if hasSize then
    match DecodedUleb128.read bytes with
    | none => none
    | some (size, n) =>
      if bytes.length < n + size then none
      else some (slice bytes n (n + size), bytes.drop (n + size))
  else some (bytes, [])

/-- The unit at the front of `bytes`, and what follows it. -/
def parseUnit : Bytes → Option (ObuUnit × Bytes)
  | [] => none
  | header :: bytes =>
    let hasExtension := header &&& 0b00000100 ≠ 0
    if hasExtension ∧ bytes = [] then none
    else
      let n := if hasExtension then 1 else 0
      (parsePayload (header &&& 0b00000010 ≠ 0) (bytes.drop n)).map fun r =>
        (⟨withoutSize header, (bytes.take n).head?, r.1⟩, r.2)

lemma parsePayload_le {hasSize : Bool} {bytes payload rest : Bytes}
    (h : parsePayload hasSize bytes = some (payload, rest)) : rest.length ≤ bytes.length := by
  unfold parsePayload at h
  split at h
  · split at h
    · cases h
    split at h
    · cases h
    · cases h
      rw [List.length_drop]
      exact Nat.sub_le _ _
  · cases h
    exact Nat.zero_le _

lemma parseUnit_lt {bytes rest : Bytes} {unit : ObuUnit} (h : parseUnit bytes = some (unit, rest)) :
    rest.length < bytes.length := by
  rcases bytes with _ | ⟨header, bytes⟩
  · cases h
  · unfold parseUnit at h
    dsimp only at h
    split at h
    · cases h
    · obtain ⟨⟨payload, rest'⟩, hpayload, heq⟩ := Option.map_eq_some_iff.mp h
      cases heq
      have hle := parsePayload_le hpayload
      rw [List.length_drop] at hle
      simp only [List.length_cons]
      omega

/-- The units of a frame; `none` when it is not a row of units. -/
def parseUnits (bytes : Bytes) : Option (List ObuUnit) :=
  if bytes = [] then some []
  else
    match _h : parseUnit bytes with
    | none => none
    | some (unit, rest) => (parseUnits rest).map (unit :: ·)
termination_by bytes.length
decreasing_by exact parseUnit_lt _h

@[simp] lemma parseUnits_nil : parseUnits [] = some [] := by
  rw [parseUnits, if_pos rfl]

lemma parseUnits_cons {bytes rest : Bytes} {unit : ObuUnit}
    (h : parseUnit bytes = some (unit, rest)) :
    parseUnits bytes = (parseUnits rest).map (unit :: ·) := by
  have hne : bytes ≠ [] := fun hnil => by
    rw [hnil] at h
    cases h
  rw [parseUnits, if_neg hne]
  split
  next hnone =>
    rw [h] at hnone
    cases hnone
  next unit' rest' hsome =>
    rw [h] at hsome
    cases hsome
    rfl

lemma eq_nil_of_parseUnits {bytes : Bytes} (h : parseUnits bytes = some []) : bytes = [] := by
  rw [parseUnits] at h
  split at h
  next hnil => exact hnil
  next =>
    split at h
    · cases h
    · obtain ⟨units, -, heq⟩ := Option.map_eq_some_iff.mp h
      cases heq

/-! ### Units of the input -/

variable {frame : Bytes} {i : ℕ} {obu : Obu}

/-- The unit that was read at `i`. -/
def unitOf (frame : Bytes) (i : ℕ) (obu : Obu) : ObuUnit where
  header := withoutSize obu.header
  extension := (sentExtension frame i obu).head?
  payload := slice frame obu.payloadIndex (obu.payloadIndex + obu.payloadSize)

lemma obuTypeOf_withoutSize : ∀ header : UInt8,
    obuTypeOf (withoutSize header) = obuTypeOf header := by
  decide +kernel

lemma withoutSize_withoutSize : ∀ header : UInt8,
    withoutSize (withoutSize header) = withoutSize header := by
  decide +kernel

lemma obuPayload_parse {index payloadIndex payloadSize : ℕ} {hasSize : Bool}
    (hindex : index ≤ frame.length)
    (h : obuPayload frame index hasSize = some (payloadIndex, payloadSize))
    (hle : payloadIndex + payloadSize ≤ frame.length) :
    parsePayload hasSize (frame.drop index) =
      some (slice frame payloadIndex (payloadIndex + payloadSize),
        frame.drop (payloadIndex + payloadSize)) := by
  unfold obuPayload at h
  unfold parsePayload
  split at h
  next hsize =>
    obtain ⟨⟨size, n⟩, hread, heq⟩ := Option.map_eq_some_iff.mp h
    cases heq
    rw [if_pos hsize, hread]
    dsimp only
    rw [if_neg (by rw [List.length_drop]; omega), List.drop_drop, ← Nat.add_assoc]
    simp only [slice, List.drop_drop, Nat.add_sub_cancel_left]
  next hsize =>
    cases h
    rw [if_neg hsize, List.drop_eq_nil_of_le (show frame.length ≤ index + (frame.length - index) by
      omega), slice, Nat.add_sub_cancel_left, List.take_of_length_le (by rw [List.length_drop])]

/-- The source reads a unit as the format says. -/
lemma parseUnit_of_readObu (h : readObu frame i = some obu) :
    parseUnit (frame.drop i) =
      some (unitOf frame i obu, frame.drop (obu.payloadIndex + obu.payloadSize)) := by
  have hread := readsObu h
  have hlt := hread.index_lt
  have hi : i < frame.length := by omega
  have hheader : frame[i] = obu.header := by
    rw [hread.header, List.getD_eq_getElem?_getD, List.getElem?_eq_getElem hi, Option.getD_some]
  have hroom : ¬ (obu.header &&& 0b00000100 ≠ 0 ∧ frame.drop (i + 1) = []) := by
    rintro ⟨hext, hnil⟩
    rw [List.drop_eq_nil_iff] at hnil
    rw [hread.extension, if_pos (decide_eq_true hext)] at hlt
    omega
  rw [List.drop_eq_getElem_cons hi, parseUnit, hheader]
  dsimp only
  have hn : (if obu.header &&& 0b00000100 ≠ 0 then 1 else 0) =
      if obu.hasExtension then 1 else 0 := by
    simp only [hread.extension, decide_eq_true_eq]
  rw [if_neg hroom, hn, List.drop_drop, ← hread.size,
    obuPayload_parse hlt.le hread.payload hread.le_length, Option.map_some]
  simp only [unitOf, sentExtension, slice]
  cases obu.hasExtension <;> simp

/-! ### Units of the result -/

/-- A unit that was written reads back, with what follows it. -/
lemma parseUnit_append {header : UInt8} {extension payload rest : Bytes} {sized : Bool}
    (hextension : extension.length = if header &&& 0x04 ≠ 0 then 1 else 0)
    (hsize : header &&& 0x02 ≠ 0 ↔ sized = true) (hlt : sized = true → payload.length < 2 ^ 64)
    (hrest : sized = false → rest = []) :
    parseUnit (header :: (extension ++ if sized = true then encode payload.length else []) ++
      (payload ++ rest)) =
      some (⟨withoutSize header, extension.head?, payload⟩, rest) := by
  set size : Bytes := if sized = true then encode payload.length else [] with hbytes
  have hroom : ¬ (header &&& 0x04 ≠ 0 ∧ extension ++ size ++ (payload ++ rest) = []) := by
    rintro ⟨hext, hnil⟩
    rw [if_pos hext] at hextension
    simp only [List.append_assoc, List.append_eq_nil_iff] at hnil
    simp [hnil.1] at hextension
  have hpayload : parsePayload (header &&& 0x02 ≠ 0) (size ++ (payload ++ rest)) =
      some (payload, rest) := by
    cases sized with
    | false =>
      have hflag : ¬ header &&& 0x02 ≠ 0 := by simpa using hsize
      simp [parsePayload, hflag, hbytes, hrest rfl]
    | true =>
      have hflag : header &&& 0x02 ≠ 0 := hsize.mpr rfl
      have hencode : size = encode payload.length := if_pos rfl
      obtain ⟨hslice, hdrop⟩ := slice_of_drop_eq
        (List.drop_left : (size ++ (payload ++ rest)).drop size.length = payload ++ rest)
      rw [parsePayload, if_pos (decide_eq_true hflag), hencode, read_encode (hlt rfl)]
      dsimp only
      rw [← hencode, if_neg (by simp only [List.length_append]; omega), hslice, hdrop]
  rw [List.cons_append, parseUnit]
  dsimp only
  rw [if_neg hroom, ← hextension, List.append_assoc, List.drop_left, List.take_left, hpayload,
    Option.map_some]

/-- A unit that is sent reads as the unit of the input. -/
lemma parseUnit_sentPiece (ho : readObu frame i = some obu) {rest : Bytes}
    (hrest : obu.payloadIndex + obu.payloadSize = frame.length → rest = []) :
    parseUnit (pieceBytes [sentPiece frame i obu] ++ rest) = some (unitOf frame i obu, rest) := by
  obtain ⟨hhead, hextension, hsize, hlt⟩ := sentPiece_spec ho
  have hheader : withoutSize (sentHeader frame obu) = withoutSize obu.header := by
    rw [sentHeader]
    split
    · exact withoutSize_withoutSize obu.header
    · rfl
  have hend : decide (obu.payloadIndex + obu.payloadSize < frame.length) = false → rest = [] := by
    intro h
    have hle := (readObu_lt ho).2
    have hge := of_decide_eq_false h
    exact hrest (by omega)
  rw [pieceBytes, List.flatMap_singleton, List.append_assoc, hhead,
    parseUnit_append hextension hsize hlt hend, hheader]
  rfl

lemma readObu_type (ho : readObu frame i = some obu) : obu.obuType = obuTypeOf obu.header :=
  (readsObu ho).obuType

/-- A unit that is sent. -/
def Kept (unit : ObuUnit) : Prop := ¬ Dropped (obuTypeOf unit.header)

instance (unit : ObuUnit) : Decidable (Kept unit) := inferInstanceAs (Decidable (¬ _))

lemma kept_unitOf (ho : readObu frame i = some obu) :
    Kept (unitOf frame i obu) ↔ ¬ Dropped obu.obuType := by
  rw [Kept, unitOf, obuTypeOf_withoutSize, readObu_type ho]

variable {p p' : OutboundFrameProcessor} {m : List Bool} {x : Bytes}

/-- What the loop makes of the units from `i` on. -/
lemma parseUnits_processObus (hc : Carries p m x) (h : processObus frame i p = some p') :
    ∃ units m' bytes, parseUnits (frame.drop i) = some units ∧ Carries p' m' (x ++ bytes) ∧
      parseUnits bytes = some (units.filter Kept) := by
  fun_induction processObus frame i p generalizing m x with
  | case1 => cases h
  | case2 i p _ obu ho ih =>
    obtain ⟨p₁, h₁, h₂⟩ := Option.bind_eq_some_iff.mp h
    have hread := parseUnits_cons (parseUnit_of_readObu ho)
    by_cases hkept : Dropped obu.obuType
    · have hp₁ : some p = some p₁ := (if_pos hkept).symm.trans h₁
      cases hp₁
      obtain ⟨units, m', bytes, hunits, hcarries, hbytes⟩ := ih p hc h₂
      refine ⟨unitOf frame i obu :: units, m', bytes, by rw [hread, hunits]; rfl, hcarries, ?_⟩
      rw [hbytes, List.filter_cons_of_neg]
      simpa [kept_unitOf ho] using hkept
    · obtain ⟨units, m', bytes, hunits, hcarries, hbytes⟩ :=
        ih p₁ (processObu_carries hc ho hkept h₁) h₂
      refine ⟨unitOf frame i obu :: units, m', pieceBytes [sentPiece frame i obu] ++ bytes,
        by rw [hread, hunits]; rfl, by rwa [← List.append_assoc], ?_⟩
      have hrest : obu.payloadIndex + obu.payloadSize = frame.length → bytes = [] := by
        intro hend
        rw [hend, List.drop_length, parseUnits_nil, Option.some.injEq] at hunits
        rw [← hunits] at hbytes
        exact eq_nil_of_parseUnits hbytes
      rw [parseUnits_cons (parseUnit_sentPiece ho hrest), hbytes, List.filter_cons_of_pos]
      · rfl
      · simpa [kept_unitOf ho] using hkept
  | case3 i p hge =>
    cases h
    refine ⟨[], m, [], ?_, by rwa [List.append_nil], parseUnits_nil⟩
    rw [List.drop_eq_nil_of_le (not_lt.mp hge), parseUnits_nil]

/-- For every AV1 frame: when it is processed, what the processor represents reads as the units of
the frame without temporal delimiters, tile lists and padding, with their headers (but for the
size flag), extensions and payloads; when it falls back, the processor represents the frame. -/
theorem parseUnits_process (frame : Bytes) :
    ((Codec.av1.processFrame frame {}).isSome →
      ∃ units, parseUnits frame = some units ∧
        parseUnits (process .av1 frame).plaintext = some (units.filter Kept)) ∧
    (Codec.av1.processFrame frame {} = none → (process .av1 frame).plaintext = frame) := by
  constructor
  · intro hsome
    obtain ⟨p, hp⟩ := Option.isSome_iff_exists.mp hsome
    obtain ⟨units, m, bytes, hunits, hcarries, hbytes⟩ := parseUnits_processObus carries_empty hp
    refine ⟨units, hunits, ?_⟩
    rw [process, hp, Option.getD_some, hcarries.plaintext_eq, List.nil_append, hbytes]
  · intro hnone
    obtain ⟨m, x, hc, -, hx⟩ := process_carries .av1 frame
    rw [hc.plaintext_eq, hx (.inr (.inr (.inr hnone)))]

end Cacophony.ObuUnits
