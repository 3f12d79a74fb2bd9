import Cacophony.FrameRoundTrip

/-!
Frames from the network are parsed and taken apart in bounds.

The functions of `Frame` slice lists, which is defined for any bounds. Here `parse`, `split` and
`reconstruct` are written once more with every index of the source checked, so that `none` stands
for a panic; they return, and what the functions of `Frame` return. The frame may be any bytes: the
parser rejects trailers and ranges that do not fit, and everything else follows from the ranges it
lets through.
-/

namespace Cacophony.FrameSafety

open Interleave Leb128 Gcm Cacophony.Frame FrameRoundTrip

/-! ### Checked indices -/

/-- `xs[start..stop]` -/
def sliceAt (xs : Bytes) (start stop : ℕ) : Option Bytes :=
  if start ≤ stop ∧ stop ≤ xs.length then some (slice xs start stop) else none

/-- `a - b` on `usize`. -/
def subAt (a b : ℕ) : Option ℕ := if b ≤ a then some (a - b) else none

lemma sliceAt_eq {xs : Bytes} {start stop : ℕ} (h : start ≤ stop) (hstop : stop ≤ xs.length) :
    sliceAt xs start stop = some (slice xs start stop) :=
  if_pos ⟨h, hstop⟩

lemma sliceAt_end {xs : Bytes} {start : ℕ} (h : start ≤ xs.length) :
    sliceAt xs start xs.length = some (xs.drop start) := by
  rw [sliceAt_eq h le_rfl, slice, List.take_of_length_le (by rw [List.length_drop])]

lemma subAt_eq {a b : ℕ} (h : b ≤ a) : subAt a b = some (a - b) := if_pos h

/-- The loop of `parse_unencrypted_ranges`. -/
def parseRangesAt (frameLen previousEnd : ℕ) (bytes : Bytes) :
    Option (Except FrameDecryptError (List UnencryptedRange)) :=
  if bytes.isEmpty then some (.ok [])
  else
    match _h : DecodedUleb128.read bytes with
    | none => some (.error .malformedFrame)
    | some (offset, n) =>
      -- `&bytes[offset.encoded_len()..]`
      if bytes.length < n then none
      else
        match DecodedUleb128.read (bytes.drop n) with
        | none => some (.error .malformedFrame)
        | some (len, n') =>
          if (bytes.drop n).length < n' then none
          else if offset < previousEnd ∨ frameLen < offset + len then
            some (.error .malformedFrame)
          else (parseRangesAt frameLen (offset + len) ((bytes.drop n).drop n')).map fun r =>
            r.map fun ranges => ⟨offset, len⟩ :: ranges
termination_by bytes.length
decreasing_by
  have := read_len _h
  simp only [List.length_drop]
  omega

/-- `FrameParseScratch::parse` -/
def parseAt (frame : Bytes) : Option (Except FrameDecryptError ParsedFrame) :=
  if frame.length < supplementalBaseBytes then some (.ok (plainFrame frame))
  else do
    let start ← subAt frame.length marker.length
    let suffix ← sliceAt frame start frame.length
    if suffix ≠ marker then some (.ok (plainFrame frame))
    else
      let index ← subAt start 1
      let size ← frame[index]?
      let supplementalSize := size.toNat
      if supplementalSize < supplementalBaseBytes ∨ frame.length < supplementalSize then
        some (.ok (plainFrame frame))
      else
        let interleavedLen ← subAt frame.length supplementalSize
        let supplemental ← sliceAt frame interleavedLen frame.length
        let tag ← sliceAt supplemental 0 tagBytes
        let stop ← subAt supplemental.length marker.length
        let stop ← subAt stop 1
        let nonceAndRanges ← sliceAt supplemental tagBytes stop
        match DecodedUleb128.read nonceAndRanges with
        | none => some (.ok (plainFrame frame))
        | some (truncatedNonce, n) =>
          if 2 ^ 32 - 1 < truncatedNonce then some (.ok (plainFrame frame))
          else
            let interleavedFrame ← sliceAt frame 0 interleavedLen
            let ranges ← sliceAt nonceAndRanges n nonceAndRanges.length
            let result ← parseRangesAt interleavedFrame.length 0 ranges
            match result with
            | .ok ranges =>
              some (.ok ⟨true, UInt32.ofNat truncatedNonce, interleavedFrame, ranges, tag⟩)
            | .error .malformedFrame => some (.ok (plainFrame frame))
            | .error error => some (.error error)

/-- `InterleavedFramePlan::split` from one range on. -/
def splitAt (frame : Bytes) (frameIndex : ℕ) (authenticated encrypted : Bytes) :
    List UnencryptedRange → Option (Bytes × Bytes)
  | [] =>
    if frameIndex < frame.length then do
      let rest ← sliceAt frame frameIndex frame.length
      some (authenticated, encrypted ++ rest)
    else some (authenticated, encrypted)
  | range :: ranges => do
    let hidden ← if frameIndex < range.offset then sliceAt frame frameIndex range.offset
      else some []
    let clear ← sliceAt frame range.offset range.stop
    splitAt frame range.stop (authenticated ++ clear) (encrypted ++ hidden) ranges

/-- `InterleavedFramePlan::reconstruct` from one range on. -/
def reconstructAt (authenticated encrypted : Bytes)
    (frameIndex authenticatedIndex encryptedIndex : ℕ) (output : Bytes) :
    List UnencryptedRange → Option Bytes
  | [] =>
    if encryptedIndex < encrypted.length then do
      let rest ← sliceAt encrypted encryptedIndex encrypted.length
      some (output ++ rest)
    else some output
  | range :: ranges => do
    let (hidden, encryptedIndex) ← if frameIndex < range.offset then do
        let len ← subAt range.offset frameIndex
        let hidden ← sliceAt encrypted encryptedIndex (encryptedIndex + len)
        some (hidden, encryptedIndex + len)
      else some ([], encryptedIndex)
    let clear ← sliceAt authenticated authenticatedIndex (authenticatedIndex + range.len)
    reconstructAt authenticated encrypted range.stop (authenticatedIndex + range.len)
      encryptedIndex (output ++ hidden ++ clear) ranges

/-- `ParsedFrame::authenticated_len` -/
def authenticatedLen (parsed : ParsedFrame) : ℕ := (parsed.unencryptedRanges.map (·.len)).sum

/-- `ParsedFrame::ciphertext_len` -/
def ciphertextLen (parsed : ParsedFrame) : Option ℕ :=
  subAt parsed.interleavedFrame.length (authenticatedLen parsed)

/-! ### Parsing -/

/-- A number that was read lies in the bytes. -/
lemma parseRangesAt_eq (frameLen previousEnd : ℕ) (bytes : Bytes) :
    parseRangesAt frameLen previousEnd bytes =
      some (parseRangesFrom frameLen previousEnd bytes) := by
  fun_induction parseRangesAt frameLen previousEnd bytes with
  | case1 previousEnd bytes hempty => rw [parseRangesFrom, if_pos hempty]
  | case2 previousEnd bytes hempty hread =>
    rw [parseRangesFrom_unread hempty]
    intro offset n hsome
    rw [hread] at hsome
    cases hsome
  | case3 previousEnd bytes hempty offset n hread hlt =>
    have := (read_len hread).2
    omega
  | case4 previousEnd bytes hempty offset n hread hlen hread' =>
    rw [parseRangesFrom_unread hempty]
    intro offset' m hsome
    rw [hread] at hsome
    cases hsome
    exact hread'
  | case5 previousEnd bytes hempty offset n hread hlen len n' hread' hlt =>
    have := (read_len hread').2
    omega
  | case6 previousEnd bytes hempty offset n hread hlen len n' hread' hlen' hbad =>
    rw [parseRangesFrom_range hempty hread hread', if_pos hbad]
  | case7 previousEnd bytes hempty offset n hread hlen len n' hread' hlen' hgood ih =>
    rw [parseRangesFrom_range hempty hread hread', if_neg hgood, ih]
    rfl

/-- The parser only lets ranges through that fit. -/
lemma fits_of_parseRanges {frameLen previousEnd : ℕ} {bytes : Bytes} {rs : List UnencryptedRange}
    (h : parseRangesFrom frameLen previousEnd bytes = .ok rs) (hle : previousEnd ≤ frameLen) :
    Fits previousEnd rs frameLen := by
  fun_induction parseRangesFrom frameLen previousEnd bytes generalizing rs with
  | case1 =>
    cases h
    exact hle
  | case2 => cases h
  | case3 => cases h
  | case4 => cases h
  | case5 previousEnd bytes _ offset n _ len n' _ hgood ih =>
    rcases hrest : parseRangesFrom frameLen (offset + len) ((bytes.drop n).drop n') with e | rs'
    · rw [hrest] at h
      cases h
    · rw [hrest] at h
      cases h
      exact ⟨show previousEnd ≤ offset by omega, ih hrest (by omega)⟩

/-- **The parser stays in bounds.** -/
lemma parseAt_eq (frame : Bytes) : parseAt frame = some (parse frame) := by
  unfold parseAt parse
  have hmarker : marker.length = 2 := rfl
  have htag : tagBytes = 8 := rfl
  have hbytes : supplementalBaseBytes = 11 := rfl
  by_cases hbase : frame.length < supplementalBaseBytes
  · rw [if_pos hbase, if_pos hbase]
  have hindex : frame.length - marker.length - 1 < frame.length := by omega
  have hsize : frame[frame.length - marker.length - 1]? =
      some (frame.getD (frame.length - marker.length - 1) 0) := by
    rw [List.getD_eq_getElem?_getD, List.getElem?_eq_getElem hindex, Option.getD_some]
  rw [if_neg hbase, if_neg hbase, subAt_eq (by omega), Option.bind_eq_bind, Option.bind_some,
    sliceAt_end (by omega), Option.bind_eq_bind, Option.bind_some]
  by_cases hend : frame.drop (frame.length - marker.length) ≠ marker
  · rw [if_pos hend, if_pos hend]
  rw [if_neg hend, if_neg hend, subAt_eq (by omega), Option.bind_eq_bind, Option.bind_some, hsize,
    Option.bind_eq_bind, Option.bind_some]
  dsimp only
  generalize (frame.getD (frame.length - marker.length - 1) 0).toNat = size
  by_cases hfits : size < supplementalBaseBytes ∨ frame.length < size
  · rw [if_pos hfits, if_pos hfits]
  have hsupplemental : (frame.drop (frame.length - size)).length = size := by
    rw [List.length_drop]
    omega
  rw [if_neg hfits, if_neg hfits, subAt_eq (by omega), Option.bind_some]
  rw [sliceAt_end (by omega), Option.bind_some]
  rw [sliceAt_eq (Nat.zero_le _) (by omega), Option.bind_some, subAt_eq (by omega),
    Option.bind_some, subAt_eq (by omega), Option.bind_some, sliceAt_eq (by omega) (by omega),
    Option.bind_some]
  generalize slice (frame.drop (frame.length - size)) tagBytes
    ((frame.drop (frame.length - size)).length - marker.length - 1) = nonceAndRanges
  rcases hread : DecodedUleb128.read nonceAndRanges with _ | ⟨truncatedNonce, n⟩
  · rfl
  dsimp only
  by_cases hnonce : 2 ^ 32 - 1 < truncatedNonce
  · rw [if_pos hnonce, if_pos hnonce]
  rw [if_neg hnonce, if_neg hnonce, sliceAt_eq (Nat.zero_le _) (by omega), Option.bind_some,
    sliceAt_end (read_len hread).2, Option.bind_some, parseRangesAt_eq, Option.bind_some]
  simp only [slice, List.drop_zero, Nat.sub_zero, parseUnencryptedRanges]
  rcases parseRangesFrom (frame.take (frame.length - size)).length 0 (nonceAndRanges.drop n) with
    (_ | _) | ranges <;> rfl

/-! ### Splitting and reconstructing -/

variable {rs : List UnencryptedRange} {frame as es : Bytes} {n i : ℕ}

lemma splitAt_eq (hf : Fits i rs frame.length) (a e : Bytes) :
    splitAt frame i a e rs = some (InterleavedFramePlan.splitFrom frame i a e rs) := by
  induction rs generalizing i a e with
  | nil =>
    rw [splitAt, InterleavedFramePlan.splitFrom]
    split
    · rw [sliceAt_end hf, Option.bind_eq_bind, Option.bind_some]
    · rfl
  | cons r rs ih =>
    have hr : r.stop ≤ frame.length := hf.2.le
    have hstop : r.offset ≤ r.stop := Nat.le_add_right _ _
    rw [splitAt, InterleavedFramePlan.splitFrom]
    split
    · rw [sliceAt_eq hf.1 (hstop.trans hr), sliceAt_eq hstop hr]
      exact ih hf.2 _ _
    · rw [sliceAt_eq hstop hr]
      simpa using ih hf.2 _ _

/-- The clear bytes are as many as the ranges say. -/
lemma length_splitFrom (hf : Fits i rs frame.length) (a e : Bytes) :
    (InterleavedFramePlan.splitFrom frame i a e rs).1.length =
      a.length + (rs.map (·.len)).sum := by
  induction rs generalizing i a e with
  | nil => simp [InterleavedFramePlan.splitFrom]
  | cons r rs ih =>
    have hr : r.stop ≤ frame.length := hf.2.le
    have hclear : (slice frame r.offset r.stop).length = r.len := by
      simp only [length_slice, Range.stop] at hr ⊢
      omega
    rw [InterleavedFramePlan.splitFrom, ih hf.2, List.length_append, hclear, List.map_cons,
      List.sum_cons, Nat.add_assoc]

/-- The indices into the two lists stay inside as long as the lists have what the mask asks for. -/
lemma reconstructAt_eq {ai ei : ℕ} {output : Bytes} (hf : Fits i rs n) (hai : ai ≤ as.length)
    (hei : ei ≤ es.length) (hm : Matches (mask i rs n) (as.drop ai) (es.drop ei)) :
    reconstructAt as es i ai ei output rs =
      some (InterleavedFramePlan.reconstructFrom as es i ai ei output rs) := by
  induction rs generalizing i ai ei output with
  | nil =>
    rw [reconstructAt, InterleavedFramePlan.reconstructFrom]
    split
    · rw [sliceAt_end hei, Option.bind_eq_bind, Option.bind_some]
    · rfl
  | cons r rs ih =>
    obtain ⟨e₁, e₂, he, hle, hm', -⟩ := hm.of_replicate_false
    obtain ⟨a₁, a₂, ha, hla, hm'', -⟩ := hm'.of_replicate_true
    have hdrop := (slice_of_drop_eq he).2
    have hadrop := (slice_of_drop_eq ha).2
    have hlen := congrArg List.length he
    have halen := congrArg List.length ha
    simp only [List.length_drop, List.length_append] at hlen halen
    rw [hle] at hdrop
    rw [hla] at hadrop
    rw [reconstructAt, InterleavedFramePlan.reconstructFrom]
    by_cases hgap : i < r.offset
    · rw [if_pos hgap, if_pos hgap, subAt_eq hgap.le]
      simp only [Option.bind_eq_bind, Option.bind_some]
      rw [sliceAt_eq (by omega) (by omega)]
      simp only [Option.bind_some]
      rw [sliceAt_eq (by omega) (by omega)]
      exact ih hf.2 (by omega) (by omega) (by rwa [hadrop, hdrop])
    · have h0 : r.offset - i = 0 := by omega
      rw [if_neg hgap, if_neg hgap]
      simp only [Option.bind_eq_bind, Option.bind_some]
      rw [sliceAt_eq (by omega) (by omega), List.append_nil]
      rw [h0, Nat.add_zero] at hdrop
      exact ih hf.2 (by omega) hei (by rwa [hadrop, hdrop])

/-! ### Any frame -/

/-- An encrypted frame that can be taken apart and put together. -/
structure Safe (parsed : ParsedFrame) : Prop where
  ordered : parsed.unencryptedRanges.Pairwise fun r r' => r.stop ≤ r'.offset
  inside : ∀ r ∈ parsed.unencryptedRanges, r.stop ≤ parsed.interleavedFrame.length
  divided : ∃ authenticated encrypted,
    splitAt parsed.interleavedFrame 0 [] [] parsed.unencryptedRanges =
      some (authenticated, encrypted) ∧
    authenticated.length + encrypted.length = parsed.interleavedFrame.length ∧
    ciphertextLen parsed = some encrypted.length ∧
    -- the encrypted bytes are replaced by as many decrypted ones
    (∀ decrypted : Bytes, decrypted.length = encrypted.length →
      ∃ output, reconstructAt authenticated decrypted 0 0 0 [] parsed.unencryptedRanges =
        some output ∧ output.length = parsed.interleavedFrame.length) ∧
    reconstructAt authenticated encrypted 0 0 0 [] parsed.unencryptedRanges =
      some parsed.interleavedFrame

/-- Ranges that fit are all that is needed. -/
lemma safe_of_fits {parsed : ParsedFrame}
    (hf : Fits 0 parsed.unencryptedRanges parsed.interleavedFrame.length) : Safe parsed := by
  obtain ⟨encrypted, nonce, frame, rs, tag⟩ := parsed
  change Fits 0 rs frame.length at hf
  have hmask : frame.length = (mask 0 rs frame.length).length := by
    rw [length_mask hf, Nat.sub_zero]
  obtain ⟨hmatch, hmerge⟩ := merge_pick hmask
  set a := pick true (mask 0 rs frame.length) frame
  set e := pick false (mask 0 rs frame.length) frame
  have hsplit : InterleavedFramePlan.splitFrom frame 0 [] [] rs = (a, e) := split_eq hf
  have hlen : a.length + e.length = frame.length := hmatch.length_add.trans hmask.symm
  have hreconstruct (d : Bytes) (hd : d.length = e.length) :
      reconstructAt a d 0 0 0 [] rs = some (merge (mask 0 rs frame.length) a d) := by
    rw [reconstructAt_eq hf (Nat.zero_le _) (Nat.zero_le _) (hmatch.congr hd)]
    exact congrArg some (reconstruct_eq hf (hmatch.congr hd))
  refine ⟨hf.pairwise, fun r hr => (hf.mem hr).2.trans hf.lastStop_le.2, a, e, ?_, hlen, ?_, ?_, ?_⟩
  · rw [splitAt_eq hf, hsplit]
  · have hclear : a.length = (rs.map (·.len)).sum := by
      simpa [hsplit] using length_splitFrom hf [] []
    have hauthenticated : authenticatedLen ⟨encrypted, nonce, frame, rs, tag⟩ = a.length :=
      hclear.symm
    rw [ciphertextLen, hauthenticated, subAt_eq (by dsimp only; omega)]
    dsimp only
    congr 1
    omega
  · intro d hd
    exact ⟨_, hreconstruct d hd, (length_merge (hmatch.congr hd)).trans hmask.symm⟩
  · rw [hreconstruct e rfl, hmerge]

lemma parse_cases (frame : Bytes) : (∃ error, parse frame = .error error) ∨
    parse frame = .ok (plainFrame frame) ∨
      ∃ parsed, parse frame = .ok parsed ∧ parsed.encrypted = true ∧
        Fits 0 parsed.unencryptedRanges parsed.interleavedFrame.length := by
  unfold parse
  dsimp only
  split
  · exact .inr (.inl rfl)
  split
  · exact .inr (.inl rfl)
  split
  · exact .inr (.inl rfl)
  split
  · exact .inr (.inl rfl)
  split
  · exact .inr (.inl rfl)
  split
  next hranges =>
    exact .inr (.inr ⟨_, rfl, rfl, fits_of_parseRanges hranges (Nat.zero_le _)⟩)
  · exact .inr (.inl rfl)
  · exact .inl ⟨_, rfl⟩

/-- For every byte string, `parse` stays in bounds, and it fails, or reports a plain frame, or
returns an encrypted frame with ordered and disjoint ranges inside the interleaved part, which
`split` and `reconstruct` take apart and put together in bounds. -/
theorem parse_safe (frame : Bytes) :
    ∃ result, parseAt frame = some result ∧
      ((∃ error, result = .error error) ∨ result = .ok (plainFrame frame) ∨
        ∃ parsed, result = .ok parsed ∧ parsed.encrypted = true ∧ Safe parsed) := by
  refine ⟨parse frame, parseAt_eq frame, (parse_cases frame).imp_right (Or.imp_right ?_)⟩
  rintro ⟨parsed, hparse, hencrypted, hfits⟩
  exact ⟨parsed, hparse, hencrypted, safe_of_fits hfits⟩

end Cacophony.FrameSafety
