import Cacophony.Basic

/-!
Authenticated encryption, and the AES-GCM of `gcm.rs` as a case of it.

The frame layer needs three facts of its cipher: decryption with the same key, nonce and
associated data gives the buffer back, the ciphertext is as long as the buffer, and the tag has
eight bytes. `Aead` carries them. The block cipher and GHASH are those of other crates and stay
parameters; for any choice of them the counter mode of the source has the three facts.
-/

namespace Cacophony.Gcm

def tagBytes : ℕ := 8

/-- An authenticated cipher with detached tags. -/
structure Aead where
  encrypt : (key nonce associatedData buffer : Bytes) → Option (Bytes × Bytes)
  decrypt : (key nonce associatedData buffer tag : Bytes) → Option Bytes
  length_encrypt : ∀ {k n a b c t}, encrypt k n a b = some (c, t) →
    c.length = b.length ∧ t.length = tagBytes
  decrypt_encrypt : ∀ {k n a b c t}, encrypt k n a b = some (c, t) → decrypt k n a c t = some b

/-- What an encryption is called with. -/
structure Sealing where
  key : Bytes
  nonce : Bytes
  associatedData : Bytes
  buffer : Bytes
  deriving DecidableEq

def Aead.seal (A : Aead) (s : Sealing) : Option (Bytes × Bytes) :=
  A.encrypt s.key s.nonce s.associatedData s.buffer

abbrev Block := { b : Bytes // b.length = 16 }

@[simp] lemma length_block (b : Block) : b.1.length = 16 := b.2

/-- AES-128 and GHASH under a key. -/
structure Primitives where
  encryptBlock : Bytes → Bytes → Block
  ghash : Block → Bytes → Block

namespace Aes128Gcm8

variable (P : Primitives) (key nonce : Bytes)

/-- Block `i` of the counter mode that starts at `nonce ‖ 1`. -/
def keystreamBlock (i : ℕ) : Block := P.encryptBlock key (nonce ++ u32Be (1 + i))

/-- The first block masks the tag. -/
def mask : Block := keystreamBlock P key nonce 0

/-- Byte `i` of the buffer meets byte `i` of the blocks behind the mask. -/
def applyKeystream (buffer : Bytes) : Bytes :=
  buffer.zipIdx.map fun (b, i) => b ^^^ (keystreamBlock P key nonce (1 + i / 16)).1.getD (i % 16) 0

def padded (b : Bytes) : Bytes := b ++ List.replicate ((16 - b.length % 16) % 16) 0

def computeTag (associatedData buffer : Bytes) : Bytes :=
  let ghashKey := P.encryptBlock key (List.replicate 16 0)
  let lengths := u64Be (associatedData.length * 8) ++ u64Be (buffer.length * 8)
  let hash := P.ghash ghashKey (padded associatedData ++ padded buffer ++ lengths)
  List.zipWith (· ^^^ ·) hash.1 (mask P key nonce).1

def encryptInPlaceDetached (associatedData buffer : Bytes) : Option (Bytes × Bytes) :=
  let buffer := applyKeystream P key nonce buffer
  some (buffer, (computeTag P key nonce associatedData buffer).take 8)

def decryptInPlaceDetached (associatedData buffer tag : Bytes) : Option Bytes :=
  if (computeTag P key nonce associatedData buffer).take 8 = tag then
    some (applyKeystream P key nonce buffer)
  else none

lemma length_applyKeystream (b : Bytes) : (applyKeystream P key nonce b).length = b.length := by
  simp [applyKeystream]

/-- The keystream is its own inverse. -/
lemma applyKeystream_applyKeystream (b : Bytes) :
    applyKeystream P key nonce (applyKeystream P key nonce b) = b := by
  refine List.ext_getElem (by simp [length_applyKeystream]) fun i h₁ h₂ => ?_
  simp only [applyKeystream, List.getElem_map, List.getElem_zipIdx, Nat.zero_add]
  rw [UInt8.xor_assoc, UInt8.xor_self, UInt8.xor_zero]

lemma length_computeTag (a b : Bytes) : (computeTag P key nonce a b).length = 16 := by
  simp [computeTag]

end Aes128Gcm8

open Aes128Gcm8 in
/-- AES-GCM as the source computes it, over any block cipher and hash. -/
def aes128Gcm8 (P : Primitives) : Aead where
  encrypt k n a b := encryptInPlaceDetached P k n a b
  decrypt k n a b t := decryptInPlaceDetached P k n a b t
  length_encrypt := by
    intro k n a b c t h
    simp only [encryptInPlaceDetached, Option.some.injEq, Prod.mk.injEq] at h
    obtain ⟨rfl, rfl⟩ := h
    simp [length_applyKeystream, length_computeTag, tagBytes]
  decrypt_encrypt := by
    intro k n a b c t h
    simp only [encryptInPlaceDetached, Option.some.injEq, Prod.mk.injEq] at h
    obtain ⟨rfl, rfl⟩ := h
    simp [decryptInPlaceDetached, applyKeystream_applyKeystream]

end Cacophony.Gcm
