import Cacophony.FrameSafety
import Cacophony.Rtpsize

/-!
Datagrams from the network are read in bounds.

As for frames, the functions are written once more with every index and subtraction of the source
checked, so that `none` stands for a panic: the header of a datagram, and the payload behind it.
They return for any bytes. The payload is cut by the lengths of a header that the parser has let
through.
-/

namespace Cacophony.ReceiveSafety

open Transport Rtpsize FrameSafety

/-! ### Headers -/

/-- `RtpFixedHeader::parse` -/
def fixedHeaderAt (bytes : Bytes) : Option (Option RtpFixedHeader) :=
  if bytes.length < 12 then some none
  else do
    let b₀ : UInt8 ← bytes[0]?
    let b₁ : UInt8 ← bytes[1]?
    let b₂ : UInt8 ← bytes[2]?
    let b₃ : UInt8 ← bytes[3]?
    let b₄ : UInt8 ← bytes[4]?
    let b₅ : UInt8 ← bytes[5]?
    let b₆ : UInt8 ← bytes[6]?
    let b₇ : UInt8 ← bytes[7]?
    let b₈ : UInt8 ← bytes[8]?
    let b₉ : UInt8 ← bytes[9]?
    let b₁₀ : UInt8 ← bytes[10]?
    let b₁₁ : UInt8 ← bytes[11]?
    some (some
      { version := b₀ >>> 6
        padding := b₀ &&& 0x20 ≠ 0
        extension := b₀ &&& 0x10 ≠ 0
        marker := b₁ &&& 0x80 ≠ 0
        payloadType := b₁ &&& 0x7f
        csrcCount := b₀ &&& 0x0f
        seq := UInt16.ofNat (ofBe [b₂, b₃])
        timestamp := UInt32.ofNat (ofBe [b₄, b₅, b₆, b₇])
        ssrc := UInt32.ofNat (ofBe [b₈, b₉, b₁₀, b₁₁]) })

/-- `RtpHeader::parse` -/
def parseHeaderAt (bytes : Bytes) : Option (Except RtpPacketError RtpHeader) := do
  match ← fixedHeaderAt bytes with
  | none => some (.error (.packetTooShort bytes.length))
  | some fixed =>
    let headerLen := 12 + fixed.csrcCount.toNat * 4
    if fixed.version ≠ rtpVersion then some (.error (.unsupportedVersion fixed.version))
    else if bytes.length < headerLen then
      some (.error (.truncatedCsrcList bytes.length headerLen))
    else if fixed.extension then
      if bytes.length < headerLen + 4 then
        some (.error (.truncatedExtensionHeader bytes.length (headerLen + 4)))
      else do
        let high : UInt8 ← bytes[headerLen + 2]?
        let low : UInt8 ← bytes[headerLen + 3]?
        let extendedLen := headerLen + (4 + ofBe [high, low] * 4)
        if bytes.length < extendedLen then
          some (.error (.truncatedExtensionPayload bytes.length extendedLen))
        else some (.ok (fixed.header extendedLen (headerLen + 4)))
    else some (.ok (fixed.header headerLen headerLen))

lemma fixedHeaderAt_eq (bytes : Bytes) :
    fixedHeaderAt bytes = some (RtpFixedHeader.parse bytes) := by
  unfold fixedHeaderAt
  split
  · next hlen =>
    rw [RtpFixedHeader.parse]
    rintro b₀ b₁ b₂ b₃ b₄ b₅ b₆ b₇ b₈ b₉ b₁₀ b₁₁ rest rfl
    simp only [List.length_cons] at hlen
    omega
  · next hlen =>
    obtain ⟨front, rest, rfl, hfront⟩ : ∃ front rest, bytes = front ++ rest ∧ front.length = 12 :=
      ⟨bytes.take 12, bytes.drop 12, (List.take_append_drop 12 bytes).symm,
        List.length_take_of_le (by omega)⟩
    match front, hfront with
    | [b₀, b₁, b₂, b₃, b₄, b₅, b₆, b₇, b₈, b₉, b₁₀, b₁₁], _ => rfl

lemma parseHeaderAt_eq (bytes : Bytes) : parseHeaderAt bytes = some (parseHeader bytes) := by
  rw [parseHeaderAt, fixedHeaderAt_eq, parseHeader, Option.bind_eq_bind, Option.bind_some]
  rcases RtpFixedHeader.parse bytes with _ | fixed
  · rfl
  dsimp only
  generalize 12 + fixed.csrcCount.toNat * 4 = headerLen
  by_cases hversion : fixed.version ≠ rtpVersion
  · rw [if_pos hversion, if_pos hversion]
  rw [if_neg hversion, if_neg hversion]
  by_cases hcsrcs : bytes.length < headerLen
  · rw [if_pos hcsrcs, if_pos hcsrcs]
  rw [if_neg hcsrcs, if_neg hcsrcs]
  cases fixed.extension with
  | false => rfl
  | true =>
    rw [if_pos rfl, if_pos rfl, parseExtension]
    have hget (i : ℕ) : bytes[headerLen + i]? = (bytes.drop headerLen)[i]? :=
      List.getElem?_drop.symm
    have hlen : (bytes.drop headerLen).length = bytes.length - headerLen := List.length_drop
    rw [hget, hget]
    clear hget
    generalize bytes.drop headerLen = tail at hlen ⊢
    rcases tail with _ | ⟨a, _ | ⟨b, _ | ⟨c, _ | ⟨d, rest⟩⟩⟩⟩
    all_goals simp only [List.length_cons, List.length_nil] at hlen
    · exact if_pos (by omega)
    · exact if_pos (by omega)
    · exact if_pos (by omega)
    · exact if_pos (by omega)
    · rw [if_neg (by omega)]
      simp only [List.getElem?_cons_zero, List.getElem?_cons_succ, Option.bind_eq_bind,
        Option.bind_some]
      split <;> rfl

/-! ### Payloads of datagrams -/

/-- `copy_from_slice` and `from_slice`, which ask for a length. -/
def exactly (n : ℕ) (xs : Bytes) : Option Bytes := if xs.length = n then some xs else none

/-- `payload.drain(..opus_offset)` -/
def drainAt (payload : Bytes) (opusOffset : ℕ) : Option Bytes :=
  if 0 < opusOffset then sliceAt payload opusOffset payload.length else some payload

/-- `strip_decrypted_rtp_payload` -/
def stripDecryptedRtpPayloadAt (payload : Bytes) (opusOffset : ℕ) (rtp : RtpHeader) :
    Option (Except RtpPacketError Bytes) :=
  if payload.length < opusOffset then some (.error .truncatedEncryptedExtension)
  else do
    let payload ← drainAt payload opusOffset
    if rtp.padding then
      match payload.getLast? with
      | none => some (.error .emptyPaddedPayload)
      | some last =>
        let padding := last.toNat
        if padding = 0 ∨ payload.length < padding then
          some (.error (.invalidPadding padding payload.length))
        else do
          let len ← subAt payload.length padding
          some (.ok (payload.take len))
    else some (.ok payload)

/-- `decrypt_payload_into` -/
def decryptPayloadIntoAt (T : TransportCipher) (packet : Bytes) (rtp : RtpHeader) :
    Option (Except ReceiveError Bytes) :=
  let minLen := rtp.encryptedBodyOffset + aeadTagLen + rtpsizeNonceLen
  if packet.length < minLen then some (.error (.missingRtpSizeNonce packet.length minLen))
  else do
    let nonceSuffixOffset ← subAt packet.length rtpsizeNonceLen
    let tagOffset ← subAt nonceSuffixOffset aeadTagLen
    let suffix ← sliceAt packet nonceSuffixOffset packet.length
    let suffix ← exactly rtpsizeNonceLen suffix
    let tag ← sliceAt packet tagOffset nonceSuffixOffset
    let aad ← sliceAt packet 0 rtp.encryptedBodyOffset
    let output ← sliceAt packet rtp.encryptedBodyOffset tagOffset
    let opusOffset ← subAt rtp.headerLen rtp.encryptedBodyOffset
    let tag ← exactly aeadTagLen tag
    match T.decryptInPlaceDetached (rtpsizeNonce T.mode.nonceLen (UInt32.ofNat (ofBe suffix))) aad
        output tag with
    | none => some (.error (.decryptFailed T.mode))
    | some output => do
      let result ← stripDecryptedRtpPayloadAt output opusOffset rtp
      some (result.mapError .rtp)

/-- A datagram: its header, and then its payload. -/
def receiveAt (T : TransportCipher) (packet : Bytes) :
    Option (Except ReceiveError (RtpHeader × Bytes)) := do
  match ← parseHeaderAt packet with
  | .error error => some (.error (.rtp error))
  | .ok rtp =>
    let result ← decryptPayloadIntoAt T packet rtp
    some (result.map fun payload => (rtp, payload))

lemma stripDecryptedRtpPayloadAt_eq (payload : Bytes) (opusOffset : ℕ) (rtp : RtpHeader) :
    stripDecryptedRtpPayloadAt payload opusOffset rtp =
      some (stripDecryptedRtpPayload payload opusOffset rtp) := by
  unfold stripDecryptedRtpPayloadAt stripDecryptedRtpPayload
  by_cases hoffset : payload.length < opusOffset
  · rw [if_pos hoffset, if_pos hoffset]
  have hdrain : drainAt payload opusOffset = some (payload.drop opusOffset) := by
    unfold drainAt
    split
    · exact sliceAt_end (by omega)
    · rw [show opusOffset = 0 by omega, List.drop_zero]
  rw [if_neg hoffset, if_neg hoffset, hdrain, Option.bind_eq_bind, Option.bind_some]
  dsimp only
  generalize payload.drop opusOffset = payload
  cases rtp.padding with
  | false => rfl
  | true =>
    rw [if_pos rfl, if_pos rfl, stripPadding]
    rcases payload.getLast? with _ | last
    · rfl
    dsimp only
    by_cases hpadding : last.toNat = 0 ∨ payload.length < last.toNat
    · rw [if_pos hpadding, if_pos hpadding]
    · rw [if_neg hpadding, if_neg hpadding, subAt_eq (by omega)]
      rfl

/-- The clear part of a header is no longer than the header. -/
lemma encryptedBodyOffset_le {bytes : Bytes} {rtp : RtpHeader} (h : parseHeader bytes = .ok rtp) :
    rtp.encryptedBodyOffset ≤ rtp.headerLen := by
  unfold parseHeader at h
  split at h
  · cases h
  · dsimp only at h
    split at h
    · cases h
    split at h
    · cases h
    split at h
    · unfold parseExtension at h
      split at h
      · dsimp only at h
        split at h
        · cases h
        · cases h
          simp only [RtpFixedHeader.header]
          omega
      · cases h
    · cases h
      exact le_rfl

lemma decryptPayloadIntoAt_eq (T : TransportCipher) (packet : Bytes) {rtp : RtpHeader}
    (hrtp : rtp.encryptedBodyOffset ≤ rtp.headerLen) :
    decryptPayloadIntoAt T packet rtp = some (T.decryptPayloadInto packet rtp) := by
  unfold decryptPayloadIntoAt TransportCipher.decryptPayloadInto
  have htagLen : aeadTagLen = 16 := rfl
  have hnonceLen : rtpsizeNonceLen = 4 := rfl
  dsimp only
  by_cases hmin : packet.length < rtp.encryptedBodyOffset + aeadTagLen + rtpsizeNonceLen
  · rw [if_pos hmin, if_pos hmin]
  rw [if_neg hmin, if_neg hmin, subAt_eq (by omega), Option.bind_eq_bind, Option.bind_some,
    subAt_eq (by omega), Option.bind_eq_bind, Option.bind_some, sliceAt_end (by omega),
    Option.bind_eq_bind, Option.bind_some]
  have hsuffix : exactly rtpsizeNonceLen (packet.drop (packet.length - rtpsizeNonceLen)) =
      some (packet.drop (packet.length - rtpsizeNonceLen)) :=
    if_pos (by rw [List.length_drop]; omega)
  have htag : exactly aeadTagLen (slice packet (packet.length - rtpsizeNonceLen - aeadTagLen)
      (packet.length - rtpsizeNonceLen)) = some (slice packet
        (packet.length - rtpsizeNonceLen - aeadTagLen) (packet.length - rtpsizeNonceLen)) :=
    if_pos (by rw [length_slice]; omega)
  have haad : slice packet 0 rtp.encryptedBodyOffset = packet.take rtp.encryptedBodyOffset := by
    rw [slice, List.drop_zero, Nat.sub_zero]
  rw [hsuffix, Option.bind_some, sliceAt_eq (by omega) (by omega), Option.bind_some,
    sliceAt_eq (by omega) (by omega), haad, Option.bind_some, sliceAt_eq (by omega) (by omega),
    Option.bind_some, subAt_eq hrtp, Option.bind_some, htag, Option.bind_some]
  generalize T.decryptInPlaceDetached _ _ _ _ = opened
  rcases opened with _ | output
  · rfl
  · dsimp only
    rw [stripDecryptedRtpPayloadAt_eq]
    rfl

/-- A datagram, unchecked. -/
def receive (T : TransportCipher) (packet : Bytes) :
    Except ReceiveError (RtpHeader × Bytes) :=
  match parseHeader packet with
  | .error error => .error (.rtp error)
  | .ok rtp => (T.decryptPayloadInto packet rtp).map fun payload => (rtp, payload)

lemma receiveAt_eq (T : TransportCipher) (packet : Bytes) :
    receiveAt T packet = some (receive T packet) := by
  rw [receiveAt, receive, parseHeaderAt_eq, Option.bind_eq_bind, Option.bind_some]
  rcases h : parseHeader packet with error | rtp
  · rfl
  · dsimp only
    rw [decryptPayloadIntoAt_eq T packet (encryptedBodyOffset_le h)]
    rfl

end Cacophony.ReceiveSafety
