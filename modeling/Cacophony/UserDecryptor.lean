import Cacophony.Receiver

/-!
The receiver of one user, `Decryptor` of `ratchet.rs`, and the window for plaintext frames,
`PlaintextPassthrough` of `passthrough.rs`.

A decryptor keeps one manager a ratchet, the newest at the end, and drops an old one some time
after it was superseded. A frame that is not encrypted is let through while the window is open.
Instants and durations are in nanoseconds, and a call reads the clock once.
-/

namespace Cacophony.UserDecryptor

open Gcm Cacophony.Frame Ratchet Receiver

/-! ### Plaintext -/

inductive PassthroughMode
  | enabled
  | disabledAfter (transitionExpiry : ℕ)
  deriving DecidableEq

/-- Plaintext is let through before `openUntil`, or without an end. -/
structure PlaintextPassthrough where
  openUntil : Option ℕ
  deriving DecidableEq

namespace PlaintextPassthrough

def disabled (now : ℕ) : PlaintextPassthrough := ⟨some now⟩

def apply (p : PlaintextPassthrough) (mode : PassthroughMode) (now : ℕ) : PlaintextPassthrough :=
  match mode with
  | .enabled => ⟨none⟩
  | .disabledAfter transitionExpiry =>
    let expiry := now + transitionExpiry
    match p.openUntil with
    | some old => ⟨some (min old expiry)⟩
    | none => ⟨some expiry⟩

def allowsPlaintext (p : PlaintextPassthrough) (now : ℕ) : Bool :=
  p.openUntil.all fun expiry => now < expiry

end PlaintextPassthrough

/-! ### The decryptor -/

def ratchetExpiry : ℕ := 10 * 10 ^ 9
def opusSilenceFrame : Bytes := [0xf8, 0xff, 0xfe]

/-- A manager with the field of `CryptorManager` that the decryptor reads. -/
structure ManagedRatchet where
  manager : CryptorManager
  ratchetExpiry : Option ℕ := none

/-- `CryptorManager::expired` -/
def ManagedRatchet.expired (m : ManagedRatchet) (elapsed : ℕ) : Bool :=
  m.ratchetExpiry.any fun expiry => expiry < elapsed

/-- `Decryptor`, without its scratch buffers. `clock` is the instant it was made at. -/
structure Decryptor where
  clock : ℕ
  managers : List ManagedRatchet := []
  passthrough : PlaintextPassthrough

namespace Decryptor

def withPlaintextPassthrough (passthrough : PlaintextPassthrough) (now : ℕ) : Decryptor :=
  { clock := now, passthrough }

def elapsed (d : Decryptor) (now : ℕ) : ℕ := now - d.clock

def updateManagerExpiry (d : Decryptor) (duration now : ℕ) : Decryptor :=
  { d with managers := d.managers.map fun m =>
      { m with ratchetExpiry := some (d.elapsed now + duration) } }

def transitionToRatchet (d : Decryptor) (ratchet : HashRatchet) (now : ℕ) : Decryptor :=
  let d := d.updateManagerExpiry ratchetExpiry now
  { d with managers := d.managers ++ [{ manager := .new (d.elapsed now) ratchet }] }

def transitionToPassthrough (d : Decryptor) (mode : PassthroughMode) (now : ℕ) : Decryptor :=
  { d with passthrough := d.passthrough.apply mode now }

def cleanupExpiredManagers (d : Decryptor) (now : ℕ) : Decryptor :=
  { d with managers := d.managers.dropWhile fun m => m.expired (d.elapsed now) }

/-- The loop over the managers, from the newest to the oldest. `none` when a call does not
return. -/
def tryManagers (A : Aead) (K : Kdf) (parsed : ParsedFrame) (now : Readings) :
    List ManagedRatchet → Option FrameDecryptError →
      Option (Except (Option FrameDecryptError) Bytes) × List ManagedRatchet
  | [], lastError => (some (.error lastError), [])
  | m :: ms, _ =>
    match m.manager.decrypt A K parsed now with
    | (none, manager) => (none, { m with manager } :: ms)
    | (some (.ok output), manager) => (some (.ok output), { m with manager } :: ms)
    | (some (.error error), manager) =>
      let (result, ms) := tryManagers A K parsed now ms (some error)
      (result, { m with manager } :: ms)

/-- The error when no manager has decrypted the frame. -/
def undecrypted (lastError : Option FrameDecryptError) (mediaType : MediaType)
    (encryptedSize capacity managerCount : ℕ) : FrameDecryptError :=
  let other := .noValidCryptor mediaType encryptedSize capacity managerCount
  if managerCount = 1 then
    match lastError with
    | some .replayedNonce => .replayedNonce
    | some (.missingCryptor generation) => .missingCryptor generation
    | some (.aead generation) => .aead generation
    | _ => other
  else other

/-- `decrypt`, with the bytes it leaves in the output; `capacity` is that of the output buffer. -/
def decrypt (A : Aead) (K : Kdf) (d : Decryptor) (mediaType : MediaType) (frame : Bytes)
    (capacity now : ℕ) : Option (Except FrameDecryptError Bytes) × Decryptor :=
  let d := d.cleanupExpiredManagers now
  if mediaType = .audio ∧ frame = opusSilenceFrame then (some (.ok frame), d)
  else
    match parse frame with
    | .error error => (some (.error error), d)
    | .ok parsed =>
      if ¬ parsed.encrypted then
        (some (if d.passthrough.allowsPlaintext now then .ok frame
          else .error .passthroughDisabled), d)
      else
        let managerCount := d.managers.length
        let elapsed := d.elapsed now
        let (result, managers) := tryManagers A K parsed ⟨elapsed, elapsed, elapsed, elapsed⟩
          d.managers.reverse none
        let d := { d with managers := managers.reverse }
        match result with
        | none => (none, d)
        | some (.ok output) => (some (.ok output), d)
        | some (.error lastError) =>
          (some (.error (undecrypted lastError mediaType frame.length capacity managerCount)), d)

end Decryptor

end Cacophony.UserDecryptor
