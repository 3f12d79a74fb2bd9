import Cacophony.Transport

/-!
Inbound RTP, `media.rs`: the header of a datagram, and the payload behind it.

In rtpsize form the fixed header, the contributing sources and the first four bytes of a header
extension are sent in the clear and authenticated. The body of the extension, the payload and the
padding are encrypted; the tag and the four bytes of the nonce follow.
-/

namespace Cacophony.Rtpsize

open Transport

def aeadTagLen : ℕ := 16

/-- The errors of `RtpError` for headers and padding. -/
inductive RtpPacketError
  | packetTooShort (len : ℕ)
  | unsupportedVersion (version : UInt8)
  | truncatedCsrcList (len expectedHeaderLen : ℕ)
  | truncatedExtensionHeader (len expectedHeaderLen : ℕ)
  | truncatedExtensionPayload (len expectedHeaderLen : ℕ)
  | truncatedEncryptedExtension
  | emptyPaddedPayload
  | invalidPadding (padding payloadLen : ℕ)
  deriving DecidableEq

inductive ReceiveError
  | missingRtpSizeNonce (packetLen minLen : ℕ)
  | decryptFailed (mode : EncryptionMode)
  | rtp (error : RtpPacketError)
  deriving DecidableEq

/-- `from_be_bytes` -/
def ofBe (bytes : Bytes) : ℕ := bytes.foldl (fun n b => n * 2 ^ 8 + b.toNat) 0

/-! ### Headers -/

structure RtpFixedHeader where
  version : UInt8
  padding : Bool
  extension : Bool
  marker : Bool
  payloadType : UInt8
  csrcCount : UInt8
  seq : UInt16
  timestamp : UInt32
  ssrc : UInt32
  deriving DecidableEq

namespace RtpFixedHeader

def parse : Bytes → Option RtpFixedHeader
  | b₀ :: b₁ :: b₂ :: b₃ :: b₄ :: b₅ :: b₆ :: b₇ :: b₈ :: b₉ :: b₁₀ :: b₁₁ :: _ => some
    { version := b₀ >>> 6
      padding := b₀ &&& 0x20 ≠ 0
      extension := b₀ &&& 0x10 ≠ 0
      marker := b₁ &&& 0x80 ≠ 0
      payloadType := b₁ &&& 0x7f
      csrcCount := b₀ &&& 0x0f
      seq := UInt16.ofNat (ofBe [b₂, b₃])
      timestamp := UInt32.ofNat (ofBe [b₄, b₅, b₆, b₇])
      ssrc := UInt32.ofNat (ofBe [b₈, b₉, b₁₀, b₁₁]) }
  | _ => none

/-- The header with its lengths. -/
def header (fixed : RtpFixedHeader) (headerLen encryptedBodyOffset : ℕ) : RtpHeader where
  version := fixed.version
  padding := fixed.padding
  extension := fixed.extension
  marker := fixed.marker
  payloadType := fixed.payloadType
  seq := fixed.seq
  timestamp := fixed.timestamp
  ssrc := fixed.ssrc
  headerLen
  encryptedBodyOffset

end RtpFixedHeader

/-- The part of `RtpHeader::parse` behind the contributing sources, which end at `headerLen`. -/
def parseExtension (bytes : Bytes) (fixed : RtpFixedHeader) (headerLen : ℕ) :
    Except RtpPacketError RtpHeader :=
  match bytes.drop headerLen with
  | _ :: _ :: high :: low :: _ =>
    let extensionWords := ofBe [high, low]
    let extendedLen := headerLen + (4 + extensionWords * 4)
    if bytes.length < extendedLen then
      .error (.truncatedExtensionPayload bytes.length extendedLen)
    else .ok (fixed.header extendedLen (headerLen + 4))
  | _ => .error (.truncatedExtensionHeader bytes.length (headerLen + 4))

def parseHeader (bytes : Bytes) : Except RtpPacketError RtpHeader :=
  match RtpFixedHeader.parse bytes with
  | none => .error (.packetTooShort bytes.length)
  | some fixed =>
    let headerLen := 12 + fixed.csrcCount.toNat * 4
    if fixed.version ≠ rtpVersion then .error (.unsupportedVersion fixed.version)
    else if bytes.length < headerLen then .error (.truncatedCsrcList bytes.length headerLen)
    else if fixed.extension then parseExtension bytes fixed headerLen
    else .ok (fixed.header headerLen headerLen)

/-! ### Payloads -/

/-- `TransportCipher`: the cipher of `TransportCrypto`, in both directions. It decrypts what it
has encrypted. -/
structure TransportCipher extends TransportCrypto where
  decryptInPlaceDetached : (nonce aad payload tag : Bytes) → Option Bytes
  length_encrypt : ∀ {nonce aad payload sealed tag},
    encryptInPlaceDetached nonce aad payload = some (sealed, tag) →
      sealed.length = payload.length ∧ tag.length = aeadTagLen
  decrypt_encrypt : ∀ {nonce aad payload sealed tag},
    encryptInPlaceDetached nonce aad payload = some (sealed, tag) →
      decryptInPlaceDetached nonce aad sealed tag = some payload

/-- The end of `strip_decrypted_rtp_payload`. -/
def stripPadding (payload : Bytes) : Except RtpPacketError Bytes :=
  match payload.getLast? with
  | none => .error .emptyPaddedPayload
  | some last =>
    let padding := last.toNat
    if padding = 0 ∨ payload.length < padding then
      .error (.invalidPadding padding payload.length)
    else .ok (payload.take (payload.length - padding))

def stripDecryptedRtpPayload (payload : Bytes) (opusOffset : ℕ) (rtp : RtpHeader) :
    Except RtpPacketError Bytes :=
  if payload.length < opusOffset then .error .truncatedEncryptedExtension
  else
    let payload := payload.drop opusOffset
    if rtp.padding then stripPadding payload else .ok payload

/-- `decrypt_payload_into`; the result is what the output holds. -/
def TransportCipher.decryptPayloadInto (T : TransportCipher) (packet : Bytes) (rtp : RtpHeader) :
    Except ReceiveError Bytes :=
  let minLen := rtp.encryptedBodyOffset + aeadTagLen + rtpsizeNonceLen
  if packet.length < minLen then .error (.missingRtpSizeNonce packet.length minLen)
  else
    let nonceSuffixOffset := packet.length - rtpsizeNonceLen
    let tagOffset := nonceSuffixOffset - aeadTagLen
    let nonceSuffix := UInt32.ofNat (ofBe (packet.drop nonceSuffixOffset))
    let tag := slice packet tagOffset nonceSuffixOffset
    let aad := packet.take rtp.encryptedBodyOffset
    let output := slice packet rtp.encryptedBodyOffset tagOffset
    let opusOffset := rtp.headerLen - rtp.encryptedBodyOffset
    match T.decryptInPlaceDetached (rtpsizeNonce T.mode.nonceLen nonceSuffix) aad output tag with
    | none => .error (.decryptFailed T.mode)
    | some output => (stripDecryptedRtpPayload output opusOffset rtp).mapError .rtp

end Cacophony.Rtpsize
