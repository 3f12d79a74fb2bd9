import Mathlib.Data.Finset.Basic
import Cacophony.Ratchet

/-!
The receiving side of a ratchet, `CryptorManager` of `ratchet.rs`.

A manager decrypts the frames of one ratchet. It makes ciphers as generations come up and drops
them again some time after a newer one was seen. It takes every nonce once: it keeps the newest
nonce, and those below it that are missing. Times are in nanoseconds, and a call is given the
readings of the clock that it makes.
-/

namespace Cacophony.Receiver

open Gcm Cacophony.Frame Ratchet

def cipherExpiry : ℕ := 10 * 10 ^ 9
def maxGenerationGap : UInt32 := 250
def maxMissingNonces : ℕ := 1000
def maxFramesPerSecond : ℕ := 50 + 2 * 60

/-- The generation and the low bytes of the nonce; together they have 56 bits. -/
def wrappedNonce (generation nonce : UInt32) : ℕ :=
  (generation.toNat <<< 24) ||| (nonce.toNat &&& (1 <<< 24 - 1))

/-! ### Missing nonces -/

structure MissingNonceWindow where
  order : List ℕ := []
  members : Finset ℕ := ∅

namespace MissingNonceWindow

def contains (w : MissingNonceWindow) (nonce : ℕ) : Bool := nonce ∈ w.members

/-- The nonce stays in `order`. -/
def remove (w : MissingNonceWindow) (nonce : ℕ) : MissingNonceWindow :=
  { w with members := w.members.erase nonce }

/-- The loop of `prune_before`. -/
def pruneFrom (oldest : ℕ) : List ℕ → Finset ℕ → MissingNonceWindow
  | [], members => ⟨[], members⟩
  | nonce :: order, members =>
    if nonce < oldest then pruneFrom oldest order (members.erase nonce)
    else ⟨nonce :: order, members⟩

def pruneBefore (w : MissingNonceWindow) (oldest : ℕ) : MissingNonceWindow :=
  pruneFrom oldest w.order w.members

def pushBack (w : MissingNonceWindow) (nonce : ℕ) : MissingNonceWindow :=
  if nonce ∈ w.members then w else ⟨w.order ++ [nonce], insert nonce w.members⟩

end MissingNonceWindow

/-! ### The manager -/

structure ExpiringCipher where
  cipher : FrameCipher
  expiry : Option ℕ

/-- `CryptorManager`, without `ratchet_expiry`, which only the owner of the manager reads. -/
structure CryptorManager where
  ratchet : HashRatchet
  ciphers : UInt32 → Option ExpiringCipher := fun _ => none
  ratchetCreatedAt : ℕ
  oldestGeneration : UInt32 := 0
  newestGeneration : UInt32 := 0
  newestNonce : Option ℕ := none
  missingNonces : MissingNonceWindow := {}

/-- What the clock says each time a call of `decrypt` asks it. -/
structure Readings where
  cleanup : ℕ
  lifetime : ℕ
  insert : ℕ
  success : ℕ

namespace CryptorManager

def new (createdAt : ℕ) (ratchet : HashRatchet) : CryptorManager :=
  { ratchet, ratchetCreatedAt := createdAt }

def canProcessNonce (m : CryptorManager) (generation nonce : UInt32) : Bool :=
  let wrapped := wrappedNonce generation nonce
  match m.newestNonce with
  | none => true
  | some newest => newest < wrapped || m.missingNonces.contains wrapped

/-- The loop of `cleanup_expired_ciphers`. It ends at the newest generation at the latest. -/
def eraseUnused (ciphers : UInt32 → Option ExpiringCipher) (newest : UInt32) :
    ℕ → UInt32 → HashRatchet → UInt32 × HashRatchet
  | 0, oldest, ratchet => (oldest, ratchet)
  | k + 1, oldest, ratchet =>
    if oldest < newest ∧ (ciphers oldest).isNone then
      eraseUnused ciphers newest k (oldest + 1) (ratchet.erase oldest)
    else (oldest, ratchet)

def cleanupExpiredCiphers (m : CryptorManager) (elapsed : ℕ) : CryptorManager :=
  let ciphers generation := (m.ciphers generation).filter fun cipher =>
    cipher.expiry.all fun expiry => elapsed < expiry
  let (oldest, ratchet) := eraseUnused ciphers m.newestGeneration
    (m.newestGeneration.toNat - m.oldestGeneration.toNat) m.oldestGeneration m.ratchet
  { m with ciphers, oldestGeneration := oldest, ratchet }

def maxLifetimeGeneration (m : CryptorManager) (elapsed : ℕ) : UInt32 :=
  let frames := maxFramesPerSecond * ((elapsed - m.ratchetCreatedAt) / 10 ^ 9)
  UInt32.ofNat (frames >>> 24)

/-- The part of `cipher` that makes a new cipher. -/
def insertCipher (K : Kdf) (m : CryptorManager) (generation : UInt32) (elapsed : ℕ) :
    Option (Except FrameDecryptError FrameCipher) × CryptorManager :=
  match m.ratchet.get K generation with
  | (none, ratchet) => (none, { m with ratchet })
  | (some (.error _), ratchet) => (some (.error (.missingCryptor generation)), { m with ratchet })
  | (some (.ok secrets), ratchet) =>
    let m := { m with ratchet }
    let expiry := if generation < m.newestGeneration then some (elapsed + cipherExpiry) else none
    match FrameCipher.new secrets.key with
    | .error error => (some (.error error), m)
    | .ok cipher =>
      (some (.ok cipher),
        { m with ciphers := Function.update m.ciphers generation (some ⟨cipher, expiry⟩) })

def cipher (K : Kdf) (m : CryptorManager) (generation : UInt32) (now : Readings) :
    Option (Except FrameDecryptError FrameCipher) × CryptorManager :=
  let m := m.cleanupExpiredCiphers now.cleanup
  if generation < m.oldestGeneration ∨ m.newestGeneration + maxGenerationGap < generation ∨
      m.maxLifetimeGeneration now.lifetime < generation then
    (some (.error (.missingCryptor generation)), m)
  else
    match m.ciphers generation with
    | some cipher => (some (.ok cipher.cipher), m)
    | none => m.insertCipher K generation now.insert

/-- The first half of `report_success`. -/
def recordNonce (m : CryptorManager) (wrapped : ℕ) : CryptorManager :=
  match m.newestNonce with
  | none => { m with newestNonce := some wrapped }
  | some newest =>
    if newest < wrapped then
      let oldestMissing := wrapped - maxMissingNonces
      let first := max oldestMissing (newest + 1)
      { m with
        missingNonces := (List.range' first (wrapped - first)).foldl MissingNonceWindow.pushBack
          (m.missingNonces.pruneBefore oldestMissing)
        newestNonce := some wrapped }
    else { m with missingNonces := m.missingNonces.remove wrapped }

def reportSuccess (m : CryptorManager) (generation nonce : UInt32) (elapsed : ℕ) :
    CryptorManager :=
  let m := m.recordNonce (wrappedNonce generation nonce)
  if generation ≤ m.newestGeneration ∨ (m.ciphers generation).isNone then m
  else { m with
    newestGeneration := generation
    ciphers := fun g => (m.ciphers g).map fun cipher =>
      if g < generation then { cipher with expiry := some (elapsed + cipherExpiry) } else cipher }

/-- The generation of a frame. -/
def generationOf (m : CryptorManager) (parsed : ParsedFrame) : UInt32 :=
  computeWrappedGeneration m.oldestGeneration (parsed.truncatedNonce >>> ratchetGenerationShiftBits)

/-- `decrypt`; `none` when it does not return. -/
def decrypt (A : Aead) (K : Kdf) (m : CryptorManager) (parsed : ParsedFrame) (now : Readings) :
    Option (Except FrameDecryptError Bytes) × CryptorManager :=
  let generation := m.generationOf parsed
  if m.canProcessNonce generation parsed.truncatedNonce then
    match m.cipher K generation now with
    | (none, m) => (none, m)
    | (some (.error error), m) => (some (.error error), m)
    | (some (.ok cipher), m) =>
      match cipher.decryptInto A generation parsed with
      | .error error => (some (.error error), m)
      | .ok output =>
        (some (.ok output), m.reportSuccess generation parsed.truncatedNonce now.success)
  else (some (.error .replayedNonce), m)

end CryptorManager

end Cacophony.Receiver
