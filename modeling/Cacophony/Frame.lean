import Cacophony.Gcm
import Cacophony.Interleave
import Cacophony.Leb128

/-!
Encrypted media frames, `frame.rs`: the processor that sorts the bytes of a frame into clear
and hidden ones, the frame cipher, and the trailer behind an encrypted frame.

An encrypted frame is the interleaved part (clear bytes as they are, hidden bytes encrypted),
the tag, the truncated nonce and the clear ranges as LEB128 numbers, one byte with the size of
the trailer, and the marker.
-/

namespace Cacophony.Frame

open Gcm Interleave Leb128

def marker : Bytes := [0xFA, 0xFA]
def keyBytes : ℕ := 16
def nonceBytes : ℕ := 12
def truncatedNonceBytes : ℕ := 4
def supplementalBaseBytes : ℕ := tagBytes + 1 + marker.length

inductive MediaType
  | audio
  | video
  deriving DecidableEq

inductive EncryptError
  | senderNotReady
  | invalidKey
  | aead
  | frameEncoding
  | supplementalDataTooLarge
  | tooManyAttempts
  | missingRatchetKey
  deriving DecidableEq

inductive FrameDecryptError
  | passthroughDisabled
  | malformedFrame
  | replayedNonce
  | missingCryptor (generation : UInt32)
  | aead (generation : UInt32)
  | noValidCryptor (mediaType : MediaType) (encryptedSize plaintextCapacity managerCount : ℕ)
  | invalidKey
  deriving DecidableEq

abbrev UnencryptedRange := Range

/-! ### Interleaved frames -/

namespace InterleavedFramePlan

/-- The loop of `split` over the ranges. -/
def splitFrom (frame : Bytes) (frameIndex : ℕ) (authenticated encrypted : Bytes) :
    List UnencryptedRange → Bytes × Bytes
  | [] => (authenticated,
      if frameIndex < frame.length then encrypted ++ frame.drop frameIndex else encrypted)
  | range :: ranges =>
    let encrypted := if frameIndex < range.offset then
      encrypted ++ slice frame frameIndex range.offset else encrypted
    splitFrom frame range.stop (authenticated ++ slice frame range.offset range.stop) encrypted
      ranges

def split (ranges : List UnencryptedRange) (frame : Bytes) : Bytes × Bytes :=
  splitFrom frame 0 [] [] ranges

/-- The loop of `reconstruct` over the ranges. -/
def reconstructFrom (authenticated encrypted : Bytes)
    (frameIndex authenticatedIndex encryptedIndex : ℕ) (output : Bytes) :
    List UnencryptedRange → Bytes
  | [] => if encryptedIndex < encrypted.length then output ++ encrypted.drop encryptedIndex
      else output
  | range :: ranges =>
    let len := range.offset - frameIndex
    let (output, encryptedIndex) := if frameIndex < range.offset then
        (output ++ slice encrypted encryptedIndex (encryptedIndex + len), encryptedIndex + len)
      else (output, encryptedIndex)
    reconstructFrom authenticated encrypted range.stop (authenticatedIndex + range.len)
      encryptedIndex
      (output ++ slice authenticated authenticatedIndex (authenticatedIndex + range.len)) ranges

def reconstruct (ranges : List UnencryptedRange) (authenticated encrypted : Bytes) : Bytes :=
  reconstructFrom authenticated encrypted 0 0 0 [] ranges

end InterleavedFramePlan

/-! ### The processor -/

/-- `OutboundFrameProcessor`, without the buffer `ciphertext`, which `encrypt_processed` fills
before it reads it. -/
structure OutboundFrameProcessor where
  frameIndex : ℕ := 0
  unencryptedRanges : List UnencryptedRange := []
  unencryptedBytes : Bytes := []
  encryptedBytes : Bytes := []
  deriving DecidableEq

namespace OutboundFrameProcessor

def addRange (frameIndex len : ℕ) (ranges : List UnencryptedRange) : List UnencryptedRange :=
  match ranges.getLast? with
  | some range =>
    if range.stop = frameIndex then ranges.dropLast ++ [{ range with len := range.len + len }]
    else ranges ++ [⟨frameIndex, len⟩]
  | none => ranges ++ [⟨frameIndex, len⟩]

def addUnencryptedBytes (p : OutboundFrameProcessor) (bytes : Bytes) : OutboundFrameProcessor :=
  if bytes.isEmpty then p
  else { p with
    unencryptedRanges := addRange p.frameIndex bytes.length p.unencryptedRanges
    unencryptedBytes := p.unencryptedBytes ++ bytes
    frameIndex := p.frameIndex + bytes.length }

def addEncryptedBytes (p : OutboundFrameProcessor) (bytes : Bytes) : OutboundFrameProcessor :=
  if bytes.isEmpty then p
  else { p with
    encryptedBytes := p.encryptedBytes ++ bytes
    frameIndex := p.frameIndex + bytes.length }

/-- The bytes the processor was given, clear and hidden ones in their order. -/
def plaintext (p : OutboundFrameProcessor) : Bytes :=
  InterleavedFramePlan.reconstruct p.unencryptedRanges p.unencryptedBytes p.encryptedBytes

end OutboundFrameProcessor

/-! ### The trailer -/

def unencryptedRangesSize (ranges : List UnencryptedRange) : ℕ :=
  (ranges.map fun r => Uleb128.encodedLen r.offset + Uleb128.encodedLen r.len).sum

/-- `Uleb128::write_to` on `output[start..stop]`. -/
def writeAt (output : Bytes) (start stop value : ℕ) : Except EncryptError (Bytes × ℕ) :=
  match Uleb128.writeTo value (slice output start stop) with
  | some (bytes, written) => .ok (output.take start ++ bytes ++ output.drop stop, written)
  | none => .error .frameEncoding

/-- The loop of `write_supplemental_tail` over the ranges. -/
def writeRanges (output : Bytes) (offset : ℕ) :
    List UnencryptedRange → Except EncryptError (Bytes × ℕ)
  | [] => .ok (output, offset)
  | range :: ranges => do
    let (output, written) ← writeAt output offset output.length range.offset
    let offset := offset + written
    let (output, written) ← writeAt output offset output.length range.len
    writeRanges output (offset + written) ranges

def writeSupplementalTail (truncatedNonce : UInt32) (ranges : List UnencryptedRange)
    (output : Bytes) : Except EncryptError Bytes := do
  let nonceSize := Uleb128.encodedLen truncatedNonce.toNat
  let rangesSize := unencryptedRangesSize ranges
  let supplementalSize := tagBytes + nonceSize + rangesSize + 1 + marker.length
  if 255 < supplementalSize then throw .supplementalDataTooLarge
  let start := output.length
  let output := output ++ List.replicate (nonceSize + rangesSize + 1 + marker.length) 0
  let (output, _) ← writeAt output start (start + nonceSize) truncatedNonce.toNat
  let (output, offset) ← writeRanges output (start + nonceSize) ranges
  return output.take offset ++ [UInt8.ofNat supplementalSize] ++ marker

structure ParsedFrame where
  encrypted : Bool
  truncatedNonce : UInt32
  interleavedFrame : Bytes
  unencryptedRanges : List UnencryptedRange
  tag : Bytes
  deriving DecidableEq

def plainFrame (frame : Bytes) : ParsedFrame := ⟨false, 0, frame, [], []⟩

/-- The loop of `parse_unencrypted_ranges`. The sums of the source are checked for overflow; one
that overflows is behind the end of the frame in any case. -/
def parseRangesFrom (frameLen previousEnd : ℕ) (bytes : Bytes) :
    Except FrameDecryptError (List UnencryptedRange) :=
  if bytes.isEmpty then .ok []
  else
    match _h : DecodedUleb128.read bytes with
    | none => .error .malformedFrame
    | some (offset, n) =>
      match DecodedUleb128.read (bytes.drop n) with
      | none => .error .malformedFrame
      | some (len, n') =>
        if offset < previousEnd ∨ frameLen < offset + len then .error .malformedFrame
        else (parseRangesFrom frameLen (offset + len) ((bytes.drop n).drop n')).map
          fun ranges => ⟨offset, len⟩ :: ranges
termination_by bytes.length
decreasing_by
  have := read_len _h
  simp only [List.length_drop]
  omega

/-- One round of the loop, when both numbers of a range can be read. -/
lemma parseRangesFrom_range {frameLen previousEnd offset n len n' : ℕ} {bytes : Bytes}
    (hne : ¬ bytes.isEmpty) (hread : DecodedUleb128.read bytes = some (offset, n))
    (hread' : DecodedUleb128.read (bytes.drop n) = some (len, n')) :
    parseRangesFrom frameLen previousEnd bytes =
      if offset < previousEnd ∨ frameLen < offset + len then .error .malformedFrame
      else (parseRangesFrom frameLen (offset + len) ((bytes.drop n).drop n')).map
        fun ranges => ⟨offset, len⟩ :: ranges := by
  rw [parseRangesFrom, if_neg hne]
  split
  next hnone =>
    rw [hread] at hnone
    cases hnone
  next offset' m hsome =>
    rw [hread] at hsome
    cases hsome
    rw [hread']

/-- The loop stops when the offset or the length cannot be read. -/
lemma parseRangesFrom_unread {frameLen previousEnd : ℕ} {bytes : Bytes} (hne : ¬ bytes.isEmpty)
    (hread : ∀ offset n, DecodedUleb128.read bytes = some (offset, n) →
      DecodedUleb128.read (bytes.drop n) = none) :
    parseRangesFrom frameLen previousEnd bytes = .error .malformedFrame := by
  rw [parseRangesFrom, if_neg hne]
  split
  · rfl
  next offset n hsome => rw [hread offset n hsome]

def parseUnencryptedRanges (bytes : Bytes) (frameLen : ℕ) :
    Except FrameDecryptError (List UnencryptedRange) := parseRangesFrom frameLen 0 bytes

/-- `FrameParseScratch::parse`. Malformed ranges, the only error below it, make a plain
frame. -/
def parse (frame : Bytes) : Except FrameDecryptError ParsedFrame :=
  if frame.length < supplementalBaseBytes then .ok (plainFrame frame)
  else if frame.drop (frame.length - marker.length) ≠ marker then .ok (plainFrame frame)
  else
    let supplementalSize := (frame.getD (frame.length - marker.length - 1) 0).toNat
    if supplementalSize < supplementalBaseBytes ∨ frame.length < supplementalSize then
      .ok (plainFrame frame)
    else
      let supplemental := frame.drop (frame.length - supplementalSize)
      let tag := supplemental.take tagBytes
      let nonceAndRanges :=
        slice supplemental tagBytes (supplemental.length - marker.length - 1)
      match DecodedUleb128.read nonceAndRanges with
      | none => .ok (plainFrame frame)
      | some (truncatedNonce, n) =>
        if 2 ^ 32 - 1 < truncatedNonce then .ok (plainFrame frame)
        else
          let interleavedFrame := frame.take (frame.length - supplementalSize)
          match parseUnencryptedRanges (nonceAndRanges.drop n) interleavedFrame.length with
          | .ok ranges =>
            .ok ⟨true, UInt32.ofNat truncatedNonce, interleavedFrame, ranges, tag⟩
          | .error .malformedFrame => .ok (plainFrame frame)
          | .error error => .error error

/-! ### The cipher -/

def u32Le (n : UInt32) : Bytes :=
  [n.toNat, n.toNat / 2 ^ 8, n.toNat / 2 ^ 16, n.toNat / 2 ^ 24].map UInt8.ofNat

def nonceFromTruncated (truncatedNonce : UInt32) : Bytes :=
  List.replicate (nonceBytes - truncatedNonceBytes) 0 ++ u32Le truncatedNonce

/-- A cipher is the key it was made from; keys have sixteen bytes. -/
structure FrameCipher where
  key : Bytes
  length_key : key.length = keyBytes
  deriving DecidableEq

namespace FrameCipher

def new (key : Bytes) : Except FrameDecryptError FrameCipher :=
  if h : key.length = keyBytes then .ok ⟨key, h⟩ else .error .invalidKey

variable (A : Aead) (cipher : FrameCipher)

/-- `encrypt_processed`, with the encryption it makes, whether that fails or not. -/
def encryptLogged (truncatedNonce : UInt32) (p : OutboundFrameProcessor) :
    Except EncryptError Bytes × Sealing :=
  let sealing : Sealing :=
    ⟨cipher.key, nonceFromTruncated truncatedNonce, p.unencryptedBytes, p.encryptedBytes⟩
  match A.seal sealing with
  | none => (.error .aead, sealing)
  | some (ciphertext, tag) =>
    let output := InterleavedFramePlan.reconstruct p.unencryptedRanges p.unencryptedBytes ciphertext
    (writeSupplementalTail truncatedNonce p.unencryptedRanges (output ++ tag), sealing)

def encryptProcessed (truncatedNonce : UInt32) (p : OutboundFrameProcessor) :
    Except EncryptError Bytes :=
  (encryptLogged A cipher truncatedNonce p).1

def decryptContiguousInto (generation : UInt32) (parsed : ParsedFrame) :
    Except FrameDecryptError Bytes :=
  match A.decrypt cipher.key (nonceFromTruncated parsed.truncatedNonce) []
      parsed.interleavedFrame parsed.tag with
  | none => .error (.aead generation)
  | some output => .ok output

def decryptInto (generation : UInt32) (parsed : ParsedFrame) : Except FrameDecryptError Bytes :=
  if parsed.unencryptedRanges.isEmpty then decryptContiguousInto A cipher generation parsed
  else
    let (authenticated, encrypted) :=
      InterleavedFramePlan.split parsed.unencryptedRanges parsed.interleavedFrame
    match A.decrypt cipher.key (nonceFromTruncated parsed.truncatedNonce) authenticated
        encrypted parsed.tag with
    | none => .error (.aead generation)
    | some encrypted =>
      .ok (InterleavedFramePlan.reconstruct parsed.unencryptedRanges authenticated encrypted)

end FrameCipher

end Cacophony.Frame
