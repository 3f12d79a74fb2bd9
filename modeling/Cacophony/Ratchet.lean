import Cacophony.FrameCodecs
import Cacophony.Loops
import Cacophony.Runs

/-!
The key ratchet and the sender, `HashRatchet` and `Encryptor` of `ratchet.rs`.

The sender numbers its encryptions with a 32-bit nonce. The top byte of the nonce selects the
generation of the key, and generations are counted on when the nonce wraps, so that a key meets
each of its nonces once. Key derivation is a parameter.
-/

namespace Cacophony.Ratchet

open Gcm Cacophony.Frame FrameCodecs Loops Runs

/-- `derive_tree_secret`. -/
structure Kdf where
  deriveTreeSecret : (secret : Bytes) → (label : String) → (generation : UInt32) → ℕ → Bytes
  length_derive : ∀ s l g n, (deriveTreeSecret s l g n).length = n

inductive UpdateRatchetsError
  | deriveSecret
  deriving DecidableEq

structure RatchetGenerationSecrets where
  key : Bytes
  nonce : Bytes

structure HashRatchet where
  nextSecret : Bytes
  nextGeneration : UInt32
  cache : UInt32 → Option RatchetGenerationSecrets

namespace HashRatchet

def new (secret : Bytes) : HashRatchet := ⟨secret, 0, fun _ => none⟩

variable (K : Kdf)

def next (r : HashRatchet) : HashRatchet :=
  let generation := r.nextGeneration
  let key := K.deriveTreeSecret r.nextSecret "key" generation 16
  let nonce := K.deriveTreeSecret r.nextSecret "nonce" generation 12
  { nextSecret := K.deriveTreeSecret r.nextSecret "secret" generation 32
    nextGeneration := generation + 1
    cache := Function.update r.cache generation (some ⟨key, nonce⟩) }

def lookup (r : HashRatchet) (generation : UInt32) :
    Except UpdateRatchetsError RatchetGenerationSecrets :=
  match r.cache generation with
  | some secrets => .ok secrets
  | none => .error .deriveSecret

/-- `get`: the secrets of a generation, and the ratchet behind it. `none` when the loop does not
end: the counter of the last generation wraps. -/
def get (r : HashRatchet) (generation : UInt32) :
    Option (Except UpdateRatchetsError RatchetGenerationSecrets) × HashRatchet :=
  if (r.cache generation).isSome then (some (r.lookup generation), r)
  else if generation < r.nextGeneration then (some (.error .deriveSecret), r)
  else
    match loop (fun r => r.nextGeneration ≤ generation) (next K) (2 ^ 32) r with
    | none => (none, r)
    | some r => (some (r.lookup generation), r)

def erase (r : HashRatchet) (generation : UInt32) : HashRatchet :=
  { r with cache := Function.update r.cache generation none }

end HashRatchet

def ratchetGenerationShiftBits : UInt32 := 24
def generationWrap : UInt32 := 256
def maxCiphertextValidationRetries : ℕ := 10

def computeWrappedGeneration (oldest generation : UInt32) : UInt32 :=
  let remainder := oldest % generationWrap
  let factor := oldest / generationWrap + if generation < remainder then 1 else 0
  factor * generationWrap + generation

/-! ### The sender -/

/-- `Encryptor`, without its frame processor: `encrypt_into` fills it anew for every frame. -/
structure Encryptor where
  activeRatchet : Option HashRatchet := none
  pendingRatchet : Option HashRatchet := none
  cipher : Option FrameCipher := none
  currentGeneration : UInt32 := 0
  truncatedNonce : UInt32 := 0

namespace Encryptor

def stageRatchet (e : Encryptor) (ratchet : HashRatchet) : Encryptor :=
  { e with pendingRatchet := some ratchet }

def activatePending (e : Encryptor) : Bool × Encryptor :=
  match e.pendingRatchet with
  | none => (false, e)
  | some ratchet => (true, { e with
      pendingRatchet := none, activeRatchet := some ratchet, cipher := none
      currentGeneration := 0, truncatedNonce := 0 })

/-- The part of `advance_cipher` that makes a new cipher. -/
def renewCipher (K : Kdf) (e : Encryptor) (ratchet : HashRatchet) (generation : UInt32) :
    Option (Except EncryptError UInt32) × Encryptor :=
  let e := { e with currentGeneration := generation }
  match ratchet.get K generation with
  | (none, ratchet) => (none, { e with activeRatchet := some ratchet })
  | (some (.error _), ratchet) =>
    (some (.error .missingRatchetKey), { e with activeRatchet := some ratchet })
  | (some (.ok secrets), ratchet) =>
    let e := { e with activeRatchet := some ratchet }
    match FrameCipher.new secrets.key with
    | .error _ => (some (.error .invalidKey), e)
    | .ok cipher => (some (.ok e.truncatedNonce), { e with cipher := some cipher })

/-- `advance_cipher`; `none` when it does not return. -/
def advanceCipher (K : Kdf) (e : Encryptor) : Option (Except EncryptError UInt32) × Encryptor :=
  match e.activeRatchet with
  | none => (some (.error .senderNotReady), e)
  | some ratchet =>
    let e := { e with truncatedNonce := e.truncatedNonce + 1 }
    let generation := computeWrappedGeneration e.currentGeneration
      (e.truncatedNonce >>> ratchetGenerationShiftBits)
    if generation ≠ e.currentGeneration ∨ e.cipher.isNone then renewCipher K e ratchet generation
    else (some (.ok e.truncatedNonce), e)

/-- A call of `advance_cipher`: what it returned, what it left in the sender, and the encryption
that was made after it. -/
structure Call where
  result : Option (Except EncryptError UInt32)
  generation : UInt32
  cipher : Option FrameCipher
  sealing : Option Sealing
  deriving DecidableEq

variable (A : Aead) (K : Kdf)

/-- The body of the loop of `encrypt_into`, up to the validation. -/
def attempt (p : OutboundFrameProcessor) (e : Encryptor) :
    Option (Except EncryptError Bytes) × Encryptor × Call :=
  let (result, e) := advanceCipher K e
  let call : Call := ⟨result, e.currentGeneration, e.cipher, none⟩
  match result with
  | none => (none, e, call)
  | some (.error error) => (some (.error error), e, call)
  | some (.ok truncatedNonce) =>
    match e.cipher with
    | none => (some (.error .missingRatchetKey), e, call)
    | some cipher =>
      let (output, sealing) := cipher.encryptLogged A truncatedNonce p
      (some output, e, { call with sealing := some sealing })

/-- The loop of `encrypt_into`, which tries a new nonce while the codec rejects the encrypted
frame. The calls of `advance_cipher` are added to `calls`. -/
def attempts (C : Codec) (p : OutboundFrameProcessor) :
    ℕ → Encryptor → List Call → Option (Except EncryptError Bytes) × Encryptor × List Call
  | 0, e, calls => (some (.error .tooManyAttempts), e, calls)
  | retries + 1, e, calls =>
    match attempt A K p e with
    | (some (.ok output), e, call) =>
      if C.validateProcessedFrame p output then (some (.ok output), e, calls ++ [call])
      else attempts C p retries e (calls ++ [call])
    | (result, e, call) => (result, e, calls ++ [call])

def encryptInto (C : Codec) (payload : Bytes) (e : Encryptor) (calls : List Call) :
    Option (Except EncryptError Bytes) × Encryptor × List Call :=
  attempts A K C (process C payload) maxCiphertextValidationRetries e calls

end Encryptor

end Cacophony.Ratchet
