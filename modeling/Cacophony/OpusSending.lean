import Cacophony.OpusFraming
import Cacophony.PayloadRoundTrip
import Cacophony.StartCodes

/-!
Which of the accepted Opus packets can be sent.

An Opus frame is one RTP payload, of at most 1200 bytes. The validator lets packets of up to 4096
bytes through, with frames of up to 1275, and the encryption adds its tag and its trailer. So there
are packets that a playout takes and that stop it when their turn comes, and others that stop it
when they are encrypted; the length of the packet and the size of the next nonce decide.
-/

namespace Cacophony.OpusSending

open Interleave Leb128 Gcm Cacophony.Frame FrameCodecs
  FrameRoundTrip Ratchet SenderNonces RtpPayload
  Assembler PayloadRoundTrip OpusPackets OpusFraming

/-- The packetizer makes one payload of the frame, and no error. -/
def Sendable (frame : Bytes) : Prop :=
  ∃ p x, RtpPayloadPacketizer.new .opus frame = .ok p ∧ Gives p [x]

/-- The bytes that encryption adds to an Opus frame: the tag, the nonce, the size of the trailer and
the marker. -/
def overhead (e : Encryptor) : ℕ :=
  tagBytes + Uleb128.encodedLen (e.truncatedNonce + 1).toNat + 1 + marker.length

lemma sendable_iff_length {frame : Bytes} (h : frame ≠ []) :
    Sendable frame ↔ frame.length ≤ rtpMediaPayloadMaxBytes := by
  constructor
  · rintro ⟨p, x, hnew, hgives⟩
    exact (eq_of_gives_opus hnew hgives).2
  · intro hle
    have hnew : RtpPayloadPacketizer.new .opus frame = .ok ⟨.opus, .single frame false false⟩ := by
      simp [RtpPayloadPacketizer.new, h, packetizerState, Except.map]
    refine ⟨_, (frame, false), hnew, ?_⟩
    simp [Gives, RtpPayloadPacketizer.next, RtpPayloadPacketizer.nextState, not_lt.mpr hle]

/-! ### The length of an encrypted packet -/

variable {A : Aead} {K : Kdf} {e : Encryptor} {calls : List Encryptor.Call} {bytes o : Bytes}

/-- The nonce of a frame is the next one, whether or not the cipher is renewed. -/
lemma nonce_of_advanceCipher {nonce : UInt32} (h : (e.advanceCipher K).1 = some (.ok nonce)) :
    nonce = e.truncatedNonce + 1 := by
  unfold Encryptor.advanceCipher at h
  split at h
  · cases h
  · dsimp only at h
    split at h
    · unfold Encryptor.renewCipher at h
      dsimp only at h
      split at h
      · cases h
      · cases h
      · split at h
        · cases h
        · cases h
          rfl
    · cases h
      rfl

/-- No encrypted Opus frame is rejected, so the first attempt counts. -/
lemma encryptProcessed_of_encryptInto
    (h : (e.encryptInto A K .opus bytes calls).1 = some (.ok o)) :
    ∃ cipher, FrameCipher.encryptProcessed A cipher (e.truncatedNonce + 1)
      (process .opus bytes) = .ok o := by
  rw [Encryptor.encryptInto, show maxCiphertextValidationRetries = 9 + 1 from rfl,
    Encryptor.attempts] at h
  rcases hatt : e.attempt A K (process .opus bytes) with ⟨_ | _ | output, e', call⟩
  · simp [hatt] at h
  · simp [hatt] at h
  rw [hatt] at h
  cases h
  obtain ⟨nonce, cipher, he, -, henc⟩ := attempt_ok hatt
  obtain rfl := nonce_of_advanceCipher (congrArg Prod.fst he)
  exact ⟨cipher, henc⟩

lemma process_opus (bytes : Bytes) : (process .opus bytes).unencryptedRanges = [] ∧
    (process .opus bytes).encryptedBytes = bytes := by
  change (OutboundFrameProcessor.addEncryptedBytes {} bytes).unencryptedRanges = [] ∧
    (OutboundFrameProcessor.addEncryptedBytes {} bytes).encryptedBytes = bytes
  rcases bytes with _ | ⟨b, bytes⟩ <;> exact ⟨rfl, rfl⟩

lemma length_encryptInto (h : (e.encryptInto A K .opus bytes calls).1 = some (.ok o)) :
    o.length = bytes.length + overhead e := by
  obtain ⟨cipher, henc⟩ := encryptProcessed_of_encryptInto h
  have hc : Carries (process .opus bytes) ([] ++ List.replicate bytes.length false) ([] ++ bytes) :=
    carries_empty.addEncryptedBytes bytes
  obtain ⟨ciphertext, tag, hencrypt, -, rfl⟩ := encryptProcessed_eq hc henc
  obtain ⟨hciphertext, htag⟩ := A.length_encrypt hencrypt
  obtain ⟨hranges, hencrypted⟩ := process_opus bytes
  rw [hencrypted] at hciphertext
  rw [List.nil_append, ← hciphertext, merge_replicate_false, hranges, tailBytes,
    show encodeRanges [] = [] from rfl, List.append_nil]
  simp only [List.length_append, List.length_singleton, htag, overhead, encodedLen_eq]
  omega

/-- **What can be sent.** An accepted packet can be sent as it is exactly when it has at most 1200
bytes, and as it is and encrypted exactly when it has room for the trailer in them. -/
theorem sendable_accepted_iff {packet : Packet} (h : Packet.fromBytes bytes = .ok packet) :
    (Sendable packet.bytes ↔ packet.bytes.length ≤ 1200) ∧
      ∀ (A : Aead) (K : Kdf) (e : Encryptor) (calls : List Encryptor.Call) (o : Bytes),
        (e.encryptInto A K .opus packet.bytes calls).1 = some (.ok o) →
          (Sendable packet.bytes ∧ Sendable o ↔ packet.bytes.length + overhead e ≤ 1200) := by
  obtain ⟨_, hvalid, hpacket⟩ := (Progs.bind_ok_iff _ _ _).mp h
  cases hpacket
  have hne : bytes ≠ [] := ((fromBytes_ok_iff bytes).mp h).1
  have hplain : Sendable bytes ↔ bytes.length ≤ 1200 := sendable_iff_length hne
  dsimp only
  refine ⟨hplain, fun A K e calls o hsent => ?_⟩
  have hlength := length_encryptInto hsent
  have hone : o ≠ [] := List.length_pos_iff.mp (by rw [hlength, overhead]; omega)
  rw [hplain, sendable_iff_length hone, hlength, rtpMediaPayloadMaxBytes]
  omega

/-- The silence frame, in the clear and as the first frame of a sender. -/
theorem sendable_silence :
    Packet.fromBytes [0xf8, 0xff, 0xfe] = .ok ⟨[0xf8, 0xff, 0xfe]⟩ ∧
      (Sendable [0xf8, 0xff, 0xfe] ↔ [(0xf8 : UInt8), 0xff, 0xfe].length ≤ 1200) ∧
      (Sendable [0xf8, 0xff, 0xfe] ∧
          Sendable [196, 195, 194, 0, 0, 0, 0, 0, 0, 0, 0, 1, 12, 250, 250] ↔
        [(0xf8 : UInt8), 0xff, 0xfe].length + overhead { activeRatchet := some (.new []) } ≤
          1200) := by
  have h : Packet.fromBytes [0xf8, 0xff, 0xfe] = .ok ⟨[0xf8, 0xff, 0xfe]⟩ := by decide +kernel
  have hsent : (({ activeRatchet := some (.new []) } : Encryptor).encryptInto toyAead toyKdf .opus
      [0xf8, 0xff, 0xfe] []).1 =
        some (.ok [196, 195, 194, 0, 0, 0, 0, 0, 0, 0, 0, 1, 12, 250, 250]) := by
    decide +kernel
  exact ⟨h, (sendable_accepted_iff h).1, (sendable_accepted_iff h).2 _ _ _ _ _ hsent⟩

/-- A packet of one frame of 1200 bytes is accepted, and no payload can be made of it. -/
theorem accepted_not_sendable :
    Packet.fromBytes (0xf8 :: List.replicate 1200 0) = .ok ⟨0xf8 :: List.replicate 1200 0⟩ ∧
      ¬ Sendable (0xf8 :: List.replicate 1200 0) := by
  refine ⟨by decide +kernel, ?_⟩
  rw [sendable_iff_length (List.cons_ne_nil _ _), List.length_cons, List.length_replicate]
  decide

end Cacophony.OpusSending
