import Cacophony.FrameRoundTrip
import Cacophony.SenderNonces

/-!
The frames of a sender, with their numbers.

A frame that `encrypt_into` returns is sealed with the number of the last call of `advance_cipher`
that was made for it: with the key of its generation and the number as the nonce. Numbers go up from
frame to frame, and anyone with the key of the generation can open the frame again.
-/

namespace Cacophony.SealedFrames

open Gcm Cacophony.Frame FrameCodecs FrameRoundTrip
open Interleave Runs Ratchet SenderNonces Encryptor

/-- A frame that was sent, and what it was made from. -/
structure SealedFrame where
  number : ℕ
  codec : Codec
  payload : Bytes
  bytes : Bytes
  deriving DecidableEq

namespace SealedFrame

def generation (f : SealedFrame) : ℕ := f.number / 2 ^ 24
def processed (f : SealedFrame) : OutboundFrameProcessor := process f.codec f.payload

variable (A : Aead) (K : Kdf) (secret : Bytes)

/-- The frame was made with the keys of `secret` and its own number. -/
def Sealed (f : SealedFrame) : Prop :=
  ∃ cipher : FrameCipher, cipher.key = (ratchetSecrets K secret f.generation).key ∧
    cipher.encryptProcessed A (UInt32.ofNat f.number) f.processed = .ok f.bytes

end SealedFrame

open SealedFrame

/-! ### A sender and what it sent -/

/-- A sender, with the frames since the last activation. -/
structure Sending where
  sender : Sender := {}
  sent : List SealedFrame := []

def Sending.step (A : Aead) (K : Kdf) (s : Sending) (op : Op) : Sending :=
  let sender := s.sender.step A K op
  if s.sender.stuck then s
  else
    match op with
    | .stageRatchet _ => { s with sender }
    | .activatePending =>
      if s.sender.encryptor.pendingRatchet.isSome then { sender } else { s with sender }
    | .encryptInto codec payload =>
      match (s.sender.encryptor.encryptInto A K codec payload s.sender.calls).1 with
      | some (.ok bytes) =>
        { sender, sent := s.sent ++ [⟨sender.calls.length, codec, payload, bytes⟩] }
      | _ => { s with sender }
    | .reset => {}

variable {A : Aead} {K : Kdf} {secret : Bytes} {f : SealedFrame}

lemma length_le_attempts (C : Codec) (p : OutboundFrameProcessor) (retries : ℕ) (e : Encryptor)
    (calls : List Call) : calls.length ≤ (e.attempts A K C p retries calls).2.2.length :=
  attempts_inv (I := fun _ c => calls.length ≤ c.length)
    (fun _ c hc => by rw [List.length_append]; omega) C retries le_rfl

/-- **A frame comes out sealed.** The loop returns the frame of its last call. -/
theorem attempts_sealed {C : Codec} {p : OutboundFrameProcessor} {retries : ℕ} {e : Encryptor}
    {calls : List Call} {o : Bytes} (h : Counted K secret e calls)
    (ho : (e.attempts A K C p retries calls).1 = some (.ok o)) :
    calls.length < (e.attempts A K C p retries calls).2.2.length ∧
      ((e.attempts A K C p retries calls).2.2.length < callLimit →
        ∃ cipher : FrameCipher, cipher.key = (ratchetSecrets K secret
            ((e.attempts A K C p retries calls).2.2.length / 2 ^ 24)).key ∧
          cipher.encryptProcessed A
            (UInt32.ofNat (e.attempts A K C p retries calls).2.2.length) p = .ok o) := by
  induction retries generalizing e calls with
  | zero => exact absurd ho (by simp [attempts])
  | succ retries ih =>
    have hnext := h.attempt (A := A) p
    rw [attempts] at ho ⊢
    rcases hatt : e.attempt A K p with ⟨_ | _ | output, e', call⟩
    · simp [hatt] at ho
    · simp [hatt] at ho
    rw [hatt] at ho hnext
    dsimp only at ho hnext ⊢
    split at ho
    next hvalid =>
      obtain rfl : output = o := by simpa using ho
      rw [if_pos hvalid]
      simp only [List.length_append, List.length_singleton]
      refine ⟨Nat.lt_succ_self _, fun hl => ?_⟩
      obtain ⟨nonce, cipher, he, hcipher, henc⟩ := attempt_ok hatt
      obtain ⟨e₁, he₁, hact⟩ := (h.active (by omega)).advanceCipher hl
      obtain ⟨hnonce, rfl⟩ := Prod.mk.inj (he.symm.trans he₁)
      cases hnonce
      have hkey := hact.cipher
      rw [if_neg (Nat.succ_ne_zero _), hcipher] at hkey
      exact ⟨cipher, Option.some.inj hkey, hact.nonce ▸ henc⟩
    next hinvalid =>
      rw [if_neg hinvalid]
      obtain ⟨hlt, hsealed⟩ := ih hnext ho
      rw [List.length_append, List.length_singleton] at hlt
      exact ⟨by omega, hsealed⟩

/-- The frames since the activation of `secret`, below the limit of its ratchet. -/
structure Numbered (A : Aead) (K : Kdf) (secret : Bytes) (s : Sending) : Prop where
  ascending : (s.sent.map SealedFrame.number).Pairwise (· < ·)
  number_le : ∀ f ∈ s.sent, f.number ≤ s.sender.calls.length
  is_sealed : ∀ f ∈ s.sent, f.number < callLimit → f.Sealed A K secret

/-- The sender is sound, and what it sent is numbered. -/
structure Sends (A : Aead) (K : Kdf) (s : Sending) : Prop where
  sound : Sound K s.sender
  numbered : ∀ secret, s.sender.secret = some secret → Numbered A K secret s

lemma sends_init : Sends A K {} := ⟨sound_init, by simp⟩

/-- Frames and calls together go on. -/
lemma Numbered.encryptInto {s : Sending} (h : Numbered A K secret s)
    (hcounted : Counted K secret s.sender.encryptor s.sender.calls) (C : Codec) (payload : Bytes)
    {sender : Sender} (hcalls : sender.calls =
      (s.sender.encryptor.encryptInto A K C payload s.sender.calls).2.2) :
    Numbered A K secret { s with sender } ∧
      ∀ o, (s.sender.encryptor.encryptInto A K C payload s.sender.calls).1 = some (.ok o) →
        Numbered A K secret
          ⟨sender, s.sent ++ [⟨sender.calls.length, C, payload, o⟩]⟩ := by
  have hle : s.sender.calls.length ≤ sender.calls.length := by
    rw [hcalls]
    exact length_le_attempts _ _ _ _ _
  refine ⟨⟨h.ascending, fun f hf => (h.number_le f hf).trans hle, h.is_sealed⟩, fun o ho => ?_⟩
  obtain ⟨hlt, hsealed⟩ := attempts_sealed hcounted ho
  change _ < (s.sender.encryptor.encryptInto A K C payload s.sender.calls).2.2.length at hlt
  rw [← hcalls] at hlt
  refine ⟨?_, fun f hf => ?_, fun f hf hl => ?_⟩
  · simp only [List.map_append, List.map_cons, List.map_nil]
    refine List.pairwise_append.mpr ⟨h.ascending, List.pairwise_singleton _ _, ?_⟩
    intro n hn n' hn'
    obtain ⟨f, hf, rfl⟩ := List.mem_map.mp hn
    rw [List.mem_singleton.mp hn']
    exact (h.number_le f hf).trans_lt hlt
  · rcases List.mem_append.mp hf with hf | hf
    · exact (h.number_le f hf).trans hle
    · rw [List.mem_singleton.mp hf]
  · rcases List.mem_append.mp hf with hf | hf
    · exact h.is_sealed f hf hl
    · obtain rfl := List.mem_singleton.mp hf
      rw [hcalls] at hl
      obtain ⟨cipher, hkey, henc⟩ := hsealed hl
      refine ⟨cipher, ?_, ?_⟩
      · rw [hkey, generation, hcalls]
        rfl
      · dsimp only [processed]
        rw [hcalls]
        exact henc

/-- **Every operation keeps the numbers.** -/
theorem Sends.step {s : Sending} (h : Sends A K s) (op : Op) : Sends A K (s.step A K op) := by
  have hsound := h.sound.step (A := A) op
  by_cases hstuck : s.sender.stuck
  · simpa only [Sending.step, if_pos hstuck] using h
  cases op with
  | stageRatchet ratchet =>
    simp only [Sending.step, hstuck, Bool.false_eq_true, if_false]
    refine ⟨hsound, fun secret hs => ?_⟩
    simp only [Sender.step, hstuck, Bool.false_eq_true, if_false] at hs ⊢
    obtain ⟨hasc, hle, hseal⟩ := h.numbered secret hs
    exact ⟨hasc, hle, hseal⟩
  | activatePending =>
    simp only [Sending.step, hstuck, Bool.false_eq_true, if_false]
    split
    · exact ⟨hsound, fun secret _ => ⟨.nil, by simp, by simp⟩⟩
    next hnone =>
      refine ⟨hsound, fun secret hs => ?_⟩
      have hnone' : s.sender.encryptor.pendingRatchet = none := by simpa using hnone
      simp only [Sender.step, hstuck, Bool.false_eq_true, if_false, activatePending, hnone'] at hs ⊢
      obtain ⟨hasc, hle, hseal⟩ := h.numbered secret hs
      exact ⟨hasc, hle, hseal⟩
  | encryptInto codec payload =>
    have hcalls : (s.sender.step A K (.encryptInto codec payload)).calls =
        (s.sender.encryptor.encryptInto A K codec payload s.sender.calls).2.2 := by
      simp [Sender.step, hstuck]
    have hsecret : (s.sender.step A K (.encryptInto codec payload)).secret = s.sender.secret := by
      simp [Sender.step, hstuck]
    simp only [Sending.step, hstuck, Bool.false_eq_true, if_false]
    split
    next o ho =>
      exact ⟨hsound, fun secret hs => ((h.numbered secret (hsecret ▸ hs)).encryptInto
        (h.sound.counted secret (hsecret ▸ hs)) codec payload hcalls).2 o ho⟩
    next =>
      exact ⟨hsound, fun secret hs => ((h.numbered secret (hsecret ▸ hs)).encryptInto
        (h.sound.counted secret (hsecret ▸ hs)) codec payload hcalls).1⟩
  | reset =>
    simp only [Sending.step, hstuck, Bool.false_eq_true, if_false]
    exact sends_init

lemma sends_run (ops : List Op) : Sends A K (run (Sending.step A K) {} ops) :=
  run_inv_of_step (fun _ op hI => hI.step op) ops sends_init

/-! ### Opening a frame -/

/-- What a sealed frame is made of. -/
lemma SealedFrame.Sealed.pieces (h : f.Sealed A K secret) :
    ∃ m ciphertext tag, Carries f.processed m f.processed.plaintext ∧
      A.encrypt (ratchetSecrets K secret f.generation).key
        (nonceFromTruncated (UInt32.ofNat f.number)) f.processed.unencryptedBytes
        f.processed.encryptedBytes = some (ciphertext, tag) ∧
      supplementalSize (UInt32.ofNat f.number) f.processed.unencryptedRanges ≤ 255 ∧
      f.bytes = merge m f.processed.unencryptedBytes ciphertext ++ tag ++
        tailBytes (UInt32.ofNat f.number) f.processed.unencryptedRanges ++
        [UInt8.ofNat (supplementalSize (UInt32.ofNat f.number)
          f.processed.unencryptedRanges)] ++ marker := by
  obtain ⟨cipher, hkey, henc⟩ := h
  obtain ⟨m, x, hc, -, -⟩ := process_carries f.codec f.payload
  obtain ⟨ciphertext, tag, haead, hsize, hbytes⟩ := encryptProcessed_eq hc henc
  refine ⟨m, ciphertext, tag, ?_, hkey ▸ haead, hsize, hbytes⟩
  rw [show f.processed.plaintext = x from hc.plaintext_eq]
  exact hc

/-- **A sealed frame is opened** by the cipher of its generation. -/
theorem SealedFrame.Sealed.opens (h : f.Sealed A K secret) (hlen : f.payload.length < 2 ^ 63) :
    ∃ parsed, parse f.bytes = .ok parsed ∧ parsed.encrypted = true ∧
      parsed.truncatedNonce = UInt32.ofNat f.number ∧
      ∀ cipher : FrameCipher, cipher.key = (ratchetSecrets K secret f.generation).key →
        ∀ generation, cipher.decryptInto A generation parsed = .ok f.processed.plaintext := by
  obtain ⟨m, ciphertext, tag, hc, henc, hs, hbytes⟩ := h.pieces
  obtain ⟨hlct, hltag⟩ := A.length_encrypt henc
  have hlen' : (merge m f.processed.unencryptedBytes ciphertext).length =
      f.processed.frameIndex := by
    rw [length_merge (hc.is_match.congr hlct), hc.length_mask]
  have hbound : f.processed.frameIndex < 2 ^ 64 := by
    obtain ⟨m', x, hc', hle, -⟩ := process_carries f.codec f.payload
    have hx : x.length = f.processed.frameIndex := hc'.length_eq
    omega
  refine ⟨_, hbytes ▸ parse_tail _ tag _ hltag (hlen' ▸ hc.fits) (hlen' ▸ hbound) hs, rfl, rfl, ?_⟩
  intro cipher hkey generation
  exact decryptInto_eq hc (hkey.symm ▸ henc) generation

/-- A sealed frame ends in the trailer, so it is not one of the short frames. -/
lemma SealedFrame.Sealed.length_bytes (h : f.Sealed A K secret) : 11 ≤ f.bytes.length := by
  obtain ⟨m, ciphertext, tag, -, henc, -, hbytes⟩ := h.pieces
  obtain ⟨-, hltag⟩ := A.length_encrypt henc
  rw [hbytes]
  simp only [List.length_append, hltag, tagBytes, marker, List.length_cons, List.length_nil]
  omega

/-- What is read back is the payload, unless the codec rewrites it. -/
lemma plaintext_eq_payload (f : SealedFrame) (h : f.codec = .opus ∨ f.codec = .vp8 ∨
    f.codec = .vp9 ∨ f.codec.processFrame f.payload {} = none) :
    f.processed.plaintext = f.payload := by
  obtain ⟨m, x, hc, -, hx⟩ := process_carries f.codec f.payload
  rw [show f.processed.plaintext = x from hc.plaintext_eq, hx h]

end Cacophony.SealedFrames
