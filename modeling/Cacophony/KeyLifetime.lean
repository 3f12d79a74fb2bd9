import Cacophony.Replay
import Cacophony.SenderNonces

/-!
The keys of a receiver.

Ciphers come and go: a frame, forged or not, makes the cipher of its generation, a cipher below
the newest generation gets an expiry, and the cleanup drops the expired ones and erases what the
ratchet holds below the oldest one. One invariant ties them together: the ratchet has derived the
generations below some `k` and erased exactly those below the oldest generation, and the ciphers
lie between the two.
-/

namespace Cacophony.KeyLifetime

open Gcm Cacophony.Frame Runs Ratchet Receiver
open Replay SenderNonces CryptorManager

/-- The three bounds that `cipher` checks behind the cleanup. -/
def Passes (m : CryptorManager) (generation : UInt32) (elapsed : ℕ) : Prop :=
  m.oldestGeneration ≤ generation ∧ generation ≤ m.newestGeneration + maxGenerationGap ∧
    generation ≤ m.maxLifetimeGeneration elapsed

variable (K : Kdf) (secret : Bytes)

/-- The ratchet of `secret` has derived the generations below `k`. -/
structure Keeps (k : ℕ) (m : CryptorManager) : Prop where
  oldest_le : m.oldestGeneration ≤ m.newestGeneration
  newest_le : m.newestGeneration.toNat ≤ k
  ratchet : Erased K secret {g | g < m.oldestGeneration} k m.ratchet
  bounds : ∀ g c, m.ciphers g = some c → m.oldestGeneration ≤ g ∧ g.toNat < k
  key_eq : ∀ g c, m.ciphers g = some c → c.cipher.key = (ratchetSecrets K secret g.toNat).key
  expires : ∀ g c, m.ciphers g = some c → g < m.newestGeneration → c.expiry.isSome

variable {K secret} {k n elapsed : ℕ} {m : CryptorManager} {g : UInt32}

lemma keeps_new (createdAt : ℕ) : Keeps K secret 0 (.new createdAt (.new secret)) where
  oldest_le := UInt32.le_refl _
  newest_le := le_rfl
  ratchet := by
    have hempty : {g : UInt32 | g < 0} = ∅ :=
      Set.eq_empty_of_forall_notMem fun g => UInt32.not_lt_zero
    have hnew : Erased K secret ∅ 0 (.new secret) := erased_new
    rwa [← hempty] at hnew
  bounds _ _ h := nomatch h
  key_eq _ _ h := nomatch h
  expires _ _ h := nomatch h

/-! ### The cleanup -/

/-- The loop of the cleanup: it erases up to a generation in use, or up to the newest one. -/
lemma eraseUnused_spec {ciphers : UInt32 → Option ExpiringCipher} {newest : UInt32}
    (hk : newest.toNat ≤ k) {oldest : UInt32} {r : HashRatchet}
    (hn : newest.toNat - oldest.toNat ≤ n) (hle : oldest ≤ newest)
    (hlow : ∀ g, (ciphers g).isSome → oldest ≤ g)
    (hr : Erased K secret {g | g < oldest} k r) :
    (eraseUnused ciphers newest n oldest r).1 ≤ newest ∧
      (∀ g, (ciphers g).isSome → (eraseUnused ciphers newest n oldest r).1 ≤ g) ∧
      Erased K secret {g | g < (eraseUnused ciphers newest n oldest r).1} k
        (eraseUnused ciphers newest n oldest r).2 ∧
      ((eraseUnused ciphers newest n oldest r).1 = newest ∨
        (ciphers (eraseUnused ciphers newest n oldest r).1).isSome) := by
  induction n generalizing oldest r with
  | zero =>
    have heq : oldest.toNat = newest.toNat := by
      rw [UInt32.le_iff_toNat_le] at hle
      omega
    exact ⟨hle, hlow, hr, .inl (UInt32.toNat.inj heq)⟩
  | succ n ih =>
    unfold eraseUnused
    split
    next hmore =>
      obtain ⟨hlt, hnone⟩ := hmore
      rw [UInt32.lt_iff_toNat_lt] at hlt
      have hsucc : (oldest + 1).toNat = oldest.toNat + 1 := by
        rw [UInt32.toNat_add, show (1 : UInt32).toNat = 1 from rfl]
        exact Nat.mod_eq_of_lt (by have := newest.toNat_lt; omega)
      have hset : {g | g < oldest + 1} = insert oldest {g | g < oldest} := by
        ext g
        simp only [Set.mem_ofPred_eq, Set.mem_insert_iff, UInt32.lt_iff_toNat_lt, hsucc,
          ← UInt32.toNat_inj]
        omega
      refine ih (by omega) (UInt32.le_iff_toNat_le.mpr (by omega)) (fun g hg => ?_) ?_
      · have hge := UInt32.le_iff_toNat_le.mp (hlow g hg)
        have hne : g.toNat ≠ oldest.toNat := by
          intro heq
          rw [UInt32.toNat.inj heq, Option.isNone_iff_eq_none.mp hnone] at hg
          exact absurd hg (by simp)
        rw [UInt32.le_iff_toNat_le]
        omega
      · rw [hset]
        exact hr.erase (by omega)
    next hend =>
      refine ⟨hle, hlow, hr, ?_⟩
      by_cases hlt : oldest < newest
      · exact .inr (by simpa [Option.isSome_iff_ne_none] using fun h => hend ⟨hlt, by simp [h]⟩)
      · have heq : oldest.toNat = newest.toNat := by
          rw [UInt32.lt_iff_toNat_lt] at hlt
          rw [UInt32.le_iff_toNat_le] at hle
          omega
        exact .inl (UInt32.toNat.inj heq)

/-- A cipher that is left by the cleanup. -/
lemma ciphers_cleanup {c : ExpiringCipher}
    (h : (m.cleanupExpiredCiphers elapsed).ciphers g = some c) :
    m.ciphers g = some c ∧ ∀ e, c.expiry = some e → elapsed < e := by
  obtain ⟨hc, hlive⟩ := Option.filter_eq_some_iff.mp h
  refine ⟨hc, fun e he => ?_⟩
  simpa [he] using hlive

lemma Keeps.unused (h : Keeps K secret k m) (elapsed : ℕ) :
    Keeps K secret k (m.cleanupExpiredCiphers elapsed) ∧
      ((m.cleanupExpiredCiphers elapsed).oldestGeneration = m.newestGeneration ∨
        ((m.cleanupExpiredCiphers elapsed).ciphers
          (m.cleanupExpiredCiphers elapsed).oldestGeneration).isSome) := by
  have hlow : ∀ g, ((m.cleanupExpiredCiphers elapsed).ciphers g).isSome →
      m.oldestGeneration ≤ g := by
    intro g hg
    obtain ⟨c, hc⟩ := Option.isSome_iff_exists.mp hg
    exact (h.bounds g c (ciphers_cleanup hc).1).1
  obtain ⟨hle, hlow', hr, hend⟩ := eraseUnused_spec h.newest_le le_rfl h.oldest_le hlow h.ratchet
  refine ⟨⟨hle, h.newest_le, hr, fun g c hc => ⟨?_, ?_⟩, fun g c hc => ?_, fun g c hc => ?_⟩, hend⟩
  · exact hlow' g (by rw [hc]; rfl)
  · exact (h.bounds g c (ciphers_cleanup hc).1).2
  · exact h.key_eq g c (ciphers_cleanup hc).1
  · exact h.expires g c (ciphers_cleanup hc).1

lemma Keeps.cleanup (h : Keeps K secret k m) (elapsed : ℕ) :
    Keeps K secret k (m.cleanupExpiredCiphers elapsed) := (h.unused elapsed).1

/-- Nothing is held below the oldest generation. -/
lemma Keeps.absent (h : Keeps K secret k m) (hg : g < m.oldestGeneration) :
    m.ciphers g = none ∧ m.ratchet.cache g = none := by
  refine ⟨Option.eq_none_iff_forall_ne_some.mpr fun c hc => ?_, h.ratchet.absent g fun _ => hg⟩
  exact UInt32.not_lt.mpr (h.bounds g c hc).1 hg

/-! ### The cipher of a frame -/

/-- A manager with the cipher of `g`; a cipher that is not in `m` expires late, if it does. -/
structure Serves (K : Kdf) (secret : Bytes) (g : UInt32) (elapsed : ℕ) (m m' : CryptorManager) :
    Prop where
  keeps : ∃ k, Keeps K secret k m'
  oldest : m'.oldestGeneration = m.oldestGeneration
  newest : m'.newestGeneration = m.newestGeneration
  nonce : m'.newestNonce = m.newestNonce
  created : m'.ratchetCreatedAt = m.ratchetCreatedAt
  cached : (m'.ciphers g).isSome
  late : ∀ g c, m'.ciphers g = some c → m.ciphers g = some c ∨
    ∀ e, c.expiry = some e → e = elapsed + cipherExpiry

/-- A generation that is not erased can be derived, unless it is the last one. -/
lemma Keeps.get (h : Keeps K secret k m) (hold : m.oldestGeneration ≤ g)
    (hg : g.toNat + 1 < 2 ^ 32) :
    ∃ r, m.ratchet.get K g = (some (.ok (ratchetSecrets K secret g.toNat)), r) ∧
      Erased K secret {g | g < m.oldestGeneration} (max k (g.toNat + 1)) r :=
  h.ratchet.get hg fun hlt => UInt32.not_lt.mpr hold hlt

lemma Keeps.insertCipher (h : Keeps K secret k m) (hold : m.oldestGeneration ≤ g)
    (hg : g.toNat + 1 < 2 ^ 32) (elapsed : ℕ) :
    ∃ c m', m.insertCipher K g elapsed = (some (.ok c), m') ∧ Serves K secret g elapsed m m' := by
  obtain ⟨r, hget, hr⟩ := h.get hold hg
  have hkey : (ratchetSecrets K secret g.toNat).key.length = keyBytes := K.length_derive _ _ _ _
  let expiry := if g < m.newestGeneration then some (elapsed + cipherExpiry) else none
  let c : FrameCipher := ⟨_, hkey⟩
  let m' : CryptorManager :=
    { m with ciphers := Function.update m.ciphers g (some ⟨c, expiry⟩), ratchet := r }
  have hm' : ∀ g' c', m'.ciphers g' = some c' →
      (g' = g ∧ c' = ⟨c, expiry⟩) ∨ (g' ≠ g ∧ m.ciphers g' = some c') := by
    intro g' c' hc'
    by_cases hgg : g' = g
    · subst hgg
      exact .inl ⟨rfl, by simpa [m'] using hc'.symm⟩
    · exact .inr ⟨hgg, by simpa [m', hgg] using hc'⟩
  refine ⟨c, m', ?_, ⟨max k (g.toNat + 1), ?_⟩, rfl, rfl, rfl, rfl, by simp [m'],
    fun g' c' hc' => ?_⟩
  · simp only [CryptorManager.insertCipher, hget, FrameCipher.new, hkey, dif_pos]
    rfl
  · refine ⟨h.oldest_le, h.newest_le.trans (le_max_left _ _), hr, fun g' c' hc' => ?_,
      fun g' c' hc' => ?_, fun g' c' hc' hlt => ?_⟩
    · rcases hm' g' c' hc' with ⟨rfl, -⟩ | ⟨-, hc'⟩
      · exact ⟨hold, lt_of_lt_of_le (Nat.lt_succ_self _) (le_max_right _ _)⟩
      · exact ⟨(h.bounds g' c' hc').1, lt_of_lt_of_le (h.bounds g' c' hc').2 (le_max_left _ _)⟩
    · rcases hm' g' c' hc' with ⟨rfl, rfl⟩ | ⟨-, hc'⟩
      · rfl
      · exact h.key_eq g' c' hc'
    · rcases hm' g' c' hc' with ⟨rfl, rfl⟩ | ⟨-, hc'⟩
      · have hlt' : g' < m.newestGeneration := hlt
        simp [expiry, hlt']
      · exact h.expires g' c' hc' hlt
  · rcases hm' g' c' hc' with ⟨rfl, rfl⟩ | ⟨-, hc'⟩
    · refine .inr fun e he => ?_
      simp only [expiry] at he
      split at he
      · exact (Option.some.inj he).symm
      · exact absurd he (by simp)
    · exact .inl hc'

variable {now : Readings}

lemma cipher_of_not_passes (h : ¬ Passes (m.cleanupExpiredCiphers now.cleanup) g now.lifetime) :
    m.cipher K g now =
      (some (.error (.missingCryptor g)), m.cleanupExpiredCiphers now.cleanup) := by
  unfold CryptorManager.cipher
  dsimp only
  rw [if_pos]
  by_contra hno
  obtain ⟨h1, hno⟩ := not_or.mp hno
  obtain ⟨h2, h3⟩ := not_or.mp hno
  exact h ⟨UInt32.not_lt.mp h1, UInt32.not_lt.mp h2, UInt32.not_lt.mp h3⟩

lemma cipher_of_passes (h : Passes (m.cleanupExpiredCiphers now.cleanup) g now.lifetime) :
    m.cipher K g now =
      ((m.cleanupExpiredCiphers now.cleanup).ciphers g).elim
        ((m.cleanupExpiredCiphers now.cleanup).insertCipher K g now.insert)
        fun c => (some (.ok c.cipher), m.cleanupExpiredCiphers now.cleanup) := by
  unfold CryptorManager.cipher
  dsimp only
  rw [if_neg]
  · cases (m.cleanupExpiredCiphers now.cleanup).ciphers g <;> rfl
  · rintro (hlt | hlt | hlt)
    · exact UInt32.not_lt.mpr h.1 hlt
    · exact UInt32.not_lt.mpr h.2.1 hlt
    · exact UInt32.not_lt.mpr h.2.2 hlt

/-- **The cipher.** A generation that passes the bounds gets its cipher. -/
lemma Keeps.cipher (h : Keeps K secret k m) (now : Readings)
    (hp : Passes (m.cleanupExpiredCiphers now.cleanup) g now.lifetime)
    (hg : g.toNat + 1 < 2 ^ 32) :
    ∃ c m', m.cipher K g now = (some (.ok c), m') ∧
      Serves K secret g now.insert (m.cleanupExpiredCiphers now.cleanup) m' := by
  have hc := h.cleanup now.cleanup
  rw [cipher_of_passes hp]
  rcases hfound : (m.cleanupExpiredCiphers now.cleanup).ciphers g with _ | c
  · exact hc.insertCipher hp.1 hg now.insert
  · exact ⟨c.cipher, _, rfl, ⟨k, hc⟩, rfl, rfl, rfl, rfl, by rw [hfound]; rfl, fun _ _ h => .inl h⟩

/-- The last generation: `get` does not return. -/
lemma Keeps.get_last (h : Keeps K secret k m) (hg : g.toNat + 1 = 2 ^ 32) :
    m.ciphers g = none ∧ m.ratchet.get K g = (none, m.ratchet) := by
  have hk : k < 2 ^ 32 := by
    rw [← h.ratchet.generation]
    exact m.ratchet.nextGeneration.toNat_lt
  refine ⟨Option.eq_none_iff_forall_ne_some.mpr fun c hc => ?_, SenderNonces.get_last hg
    (h.ratchet.absent g fun hlt => ?_)⟩
  · have := (h.bounds g c hc).2
    omega
  · omega

lemma Keeps.cipher_last (h : Keeps K secret k m)
    (hp : Passes (m.cleanupExpiredCiphers now.cleanup) g now.lifetime)
    (hg : g.toNat + 1 = 2 ^ 32) :
    m.cipher K g now = (none, m.cleanupExpiredCiphers now.cleanup) := by
  obtain ⟨hnone, hget⟩ := (h.cleanup now.cleanup).get_last hg
  rw [cipher_of_passes hp, hnone]
  simp only [CryptorManager.insertCipher, hget, Option.elim_none]

lemma Keeps.cipher_keeps (h : Keeps K secret k m) (g : UInt32) (now : Readings) :
    ∃ k', Keeps K secret k' (m.cipher K g now).2 := by
  by_cases hp : Passes (m.cleanupExpiredCiphers now.cleanup) g now.lifetime
  · rcases (Nat.succ_le_of_lt g.toNat_lt).lt_or_eq with hg | hg
    · obtain ⟨c, m', heq, hm'⟩ := h.cipher now hp hg
      rw [heq]
      exact hm'.keeps
    · rw [h.cipher_last hp hg]
      exact ⟨k, h.cleanup _⟩
  · rw [cipher_of_not_passes hp]
    exact ⟨k, h.cleanup _⟩

/-! ### A call of `decrypt` -/

lemma recordNonce_eq (m : CryptorManager) (w : ℕ) : ∃ missing,
    m.recordNonce w =
      { m with missingNonces := missing, newestNonce := (m.recordNonce w).newestNonce } := by
  unfold CryptorManager.recordNonce
  split
  · exact ⟨_, rfl⟩
  · split <;> exact ⟨_, rfl⟩

/-- The manager behind a success. -/
lemma reportSuccess_shape (hc : (m.ciphers g).isSome) (nonce : UInt32) (elapsed : ℕ) :
    ∃ missing, m.reportSuccess g nonce elapsed = { m with
      newestNonce := (m.recordNonce (wrappedNonce g nonce)).newestNonce
      missingNonces := missing
      newestGeneration := if m.newestGeneration < g then g else m.newestGeneration
      ciphers := fun g' => if m.newestGeneration < g ∧ g' < g then
        (m.ciphers g').map fun c => { c with expiry := some (elapsed + cipherExpiry) }
        else m.ciphers g' } := by
  obtain ⟨missing, hrec⟩ := recordNonce_eq m (wrappedNonce g nonce)
  refine ⟨missing, ?_⟩
  unfold CryptorManager.reportSuccess
  dsimp only
  rw [hrec]
  by_cases hlt : m.newestGeneration < g
  · have hno : ¬ (g ≤ m.newestGeneration ∨ (m.ciphers g).isNone) := by
      rintro (hle | hnone)
      · exact UInt32.not_lt.mpr hle hlt
      · rw [Option.isNone_iff_eq_none.mp hnone] at hc
        exact absurd hc (by simp)
    rw [if_neg hno, if_pos hlt]
    simp only [hlt, true_and]
    congr 1
    funext g'
    split
    · rfl
    · simp
  · rw [if_pos (.inl (UInt32.not_lt.mp hlt)), if_neg hlt]
    simp only [hlt, false_and, if_false]

lemma newestNonce_recordNonce {w : ℕ} (hn : ∀ w', m.newestNonce = some w' → w' < w) :
    (m.recordNonce w).newestNonce = some w := by
  unfold CryptorManager.recordNonce
  split
  · rfl
  next w' hw' => rw [if_pos (hn w' hw')]

lemma Keeps.reportSuccess (h : Keeps K secret k m) (nonce : UInt32) (elapsed : ℕ) :
    Keeps K secret k (m.reportSuccess g nonce elapsed) := by
  obtain ⟨missing, heq⟩ := recordNonce_eq m (wrappedNonce g nonce)
  have hrec : Keeps K secret k (m.recordNonce (wrappedNonce g nonce)) := by
    rw [heq]
    exact ⟨h.oldest_le, h.newest_le, h.ratchet, h.bounds, h.key_eq, h.expires⟩
  unfold CryptorManager.reportSuccess
  dsimp only
  split
  · exact hrec
  next hnew =>
    obtain ⟨hlt, hsome⟩ := not_or.mp hnew
    generalize m.recordNonce (wrappedNonce g nonce) = m at hrec hlt hsome
    have hlt' := UInt32.lt_iff_toNat_lt.mp (UInt32.not_le.mp hlt)
    obtain ⟨c, hc⟩ : ∃ c, m.ciphers g = some c :=
      Option.ne_none_iff_exists'.mp (by simpa using hsome)
    have hold : m.oldestGeneration ≤ g := by
      have := UInt32.le_iff_toNat_le.mp hrec.oldest_le
      rw [UInt32.le_iff_toNat_le]
      omega
    refine ⟨hold, (hrec.bounds g c hc).2.le, hrec.ratchet,
      fun g' c' hc' => ?_, fun g' c' hc' => ?_, fun g' c' hc' hlow => ?_⟩
    all_goals
      obtain ⟨c₀, hc₀, rfl⟩ := Option.map_eq_some_iff.mp hc'
    · exact hrec.bounds g' c₀ hc₀
    · rw [← hrec.key_eq g' c₀ hc₀]
      split <;> rfl
    · simp [show g' < g from hlow]

variable (A : Aead)

lemma Keeps.decrypt (h : Keeps K secret k m) (parsed : ParsedFrame) (now : Readings) :
    ∃ k', Keeps K secret k' (m.decrypt A K parsed now).2 := by
  unfold CryptorManager.decrypt
  dsimp only
  split
  · have hc := h.cipher_keeps (m.generationOf parsed) now
    generalize m.cipher K (m.generationOf parsed) now = found at hc
    obtain ⟨k', hk'⟩ := hc
    obtain ⟨_ | _ | cipher, m'⟩ := found
    · exact ⟨k', hk'⟩
    · exact ⟨k', hk'⟩
    · dsimp only
      rcases cipher.decryptInto A (m.generationOf parsed) parsed with _ | output
      · exact ⟨k', hk'⟩
      · exact ⟨k', hk'.reportSuccess _ _⟩
  · exact ⟨k, h⟩

/-- A call that fails leaves the nonces and the newest generation. -/
lemma decrypt_error (m : CryptorManager) {parsed : ParsedFrame} {now : Readings}
    {e : FrameDecryptError} (he : (m.decrypt A K parsed now).1 = some (.error e)) :
    (m.decrypt A K parsed now).2.newestNonce = m.newestNonce ∧
      (m.decrypt A K parsed now).2.missingNonces = m.missingNonces ∧
      (m.decrypt A K parsed now).2.newestGeneration = m.newestGeneration := by
  unfold CryptorManager.decrypt at he ⊢
  dsimp only at he ⊢
  split at he
  next hcan =>
    rw [if_pos hcan]
    have hkeep := Replay.cipher_keeps K m (m.generationOf parsed) now
    generalize m.cipher K (m.generationOf parsed) now = found at hkeep he
    obtain ⟨_ | _ | cipher, m'⟩ := found
    · exact hkeep
    · exact hkeep
    · dsimp only at he ⊢
      generalize cipher.decryptInto A (m.generationOf parsed) parsed = output at he
      rcases output with _ | output
      · exact hkeep
      · exact absurd he (by simp)
  next hcan =>
    rw [if_neg hcan]
    exact ⟨rfl, rfl, rfl⟩

/-! ### Runs -/

/-- The manager of a new ratchet, after a sequence of calls. -/
def after (A : Aead) (K : Kdf) (secret : Bytes) (createdAt : ℕ)
    (calls : List (ParsedFrame × Readings)) : CryptorManager :=
  run (fun m call => (m.decrypt A K call.1 call.2).2) (.new createdAt (.new secret)) calls

lemma keeps_after (createdAt : ℕ) (calls : List (ParsedFrame × Readings)) :
    ∃ k, Keeps K secret k (after A K secret createdAt calls) :=
  run_inv_of_step (I := fun m => ∃ k, Keeps K secret k m)
    (fun _ call h => h.elim fun _ h => h.decrypt A call.1 call.2) calls ⟨0, keeps_new createdAt⟩

variable (K secret)

/-- What holds of the keys of a manager. -/
structure Lifetime (m : CryptorManager) : Prop where
  oldest_le_newest : m.oldestGeneration ≤ m.newestGeneration
  keyed : ∀ g c, m.ciphers g = some c → c.cipher.key = (ratchetSecrets K secret g.toNat).key
  expires : ∀ g c, m.ciphers g = some c → g < m.newestGeneration → c.expiry.isSome
  erased : ∀ elapsed, ∀ g < (m.cleanupExpiredCiphers elapsed).oldestGeneration,
    (m.cleanupExpiredCiphers elapsed).ciphers g = none ∧
      (m.cleanupExpiredCiphers elapsed).ratchet.cache g = none
  derives : ∀ elapsed lifetime g, Passes (m.cleanupExpiredCiphers elapsed) g lifetime →
    g.toNat < 2 ^ 32 - 1 →
    ((m.cleanupExpiredCiphers elapsed).ratchet.get K g).1 =
      some (.ok (ratchetSecrets K secret g.toNat))
  unchanged : ∀ parsed now e, (m.decrypt A K parsed now).1 = some (.error e) →
    (m.decrypt A K parsed now).2.newestNonce = m.newestNonce ∧
      (m.decrypt A K parsed now).2.missingNonces = m.missingNonces ∧
      (m.decrypt A K parsed now).2.newestGeneration = m.newestGeneration

/-- **The keys of a receiver.** Whatever frames a manager is given, and at whatever times. -/
theorem lifetime_after (createdAt : ℕ) (calls : List (ParsedFrame × Readings)) :
    Lifetime K secret A (after A K secret createdAt calls) := by
  obtain ⟨k, h⟩ : ∃ k, Keeps K secret k (after A K secret createdAt calls) :=
    keeps_after A createdAt calls
  refine ⟨h.oldest_le, h.key_eq, h.expires, fun elapsed g hg => (h.cleanup elapsed).absent hg,
    fun elapsed lifetime g hp hg => ?_, fun parsed now e he => decrypt_error A _ he⟩
  obtain ⟨r, hget, -⟩ := (h.cleanup elapsed).get hp.1 (by omega)
  rw [hget]

/-! ### The last generation

The bound on the generation is needed: a manager that is old enough, and has seen the generations
come up one by one, asks its ratchet for the last one. -/

/-- The readings of the clock do not go down, from the creation of the manager on. -/
def Nondecreasing (createdAt : ℕ) (calls : List (ParsedFrame × Readings)) : Prop :=
  (createdAt :: calls.flatMap fun call =>
    [call.2.cleanup, call.2.lifetime, call.2.insert, call.2.success]).Pairwise (· ≤ ·)

def openAead : Aead where
  encrypt _ _ _ b := some (b, List.replicate tagBytes 0)
  decrypt _ _ _ b _ := some b
  length_encrypt h := by
    cases h
    exact ⟨rfl, rfl⟩
  decrypt_encrypt h := by
    cases h
    rfl

/-- A frame with the first nonce of its generation. -/
def frameOf (generation : ℕ) : ParsedFrame :=
  ⟨true, UInt32.ofNat (generation % 256 * 2 ^ 24), [], [], []⟩

def readingsAt (seconds : ℕ) : Readings :=
  ⟨seconds * 10 ^ 9, seconds * 10 ^ 9, seconds * 10 ^ 9, seconds * 10 ^ 9⟩

/-- The second at which the frame of a generation comes. The last ones come when the lifetime of
the ratchet allows the last generation. -/
def secondOf (generation : ℕ) : ℕ := 423825250529550 + 10 * generation

/-- One frame of each generation up to `n`. -/
def climb (n : ℕ) : List (ParsedFrame × Readings) :=
  (List.range n).map fun i => (frameOf (i + 1), readingsAt (secondOf (i + 1)))

lemma climb_succ (n : ℕ) :
    climb (n + 1) = climb n ++ [(frameOf (n + 1), readingsAt (secondOf (n + 1)))] := by
  simp [climb, List.range_succ]

/-- The manager behind `climb n`. -/
structure Climbed (K : Kdf) (secret : Bytes) (n : ℕ) (m : CryptorManager) : Prop where
  keeps : ∃ k, Keeps K secret k m
  created : m.ratchetCreatedAt = 0
  newest : m.newestGeneration.toNat = n
  oldest : n ≤ m.oldestGeneration.toNat + 1
  nonce : ∀ w, m.newestNonce = some w → w ≤ n * 2 ^ 24
  early : ∀ g c e, m.ciphers g = some c → c.expiry = some e → e ≤ secondOf (n + 1) * 10 ^ 9

variable {K secret} {G : ℕ}

lemma climbed_new : Climbed K secret 0 (.new 0 (.new secret)) where
  keeps := ⟨0, keeps_new 0⟩
  created := rfl
  newest := rfl
  oldest := Nat.zero_le _
  nonce _ h := nomatch h
  early _ _ _ h := nomatch h

/-- All ciphers below the newest generation have expired when the next frame comes. -/
lemma Climbed.oldest_cleanup (h : Climbed K secret n m) :
    (m.cleanupExpiredCiphers (secondOf (n + 1) * 10 ^ 9)).oldestGeneration =
      m.newestGeneration := by
  obtain ⟨k, hk⟩ := h.keeps
  obtain ⟨hclean, hend | hend⟩ := hk.unused (secondOf (n + 1) * 10 ^ 9)
  · exact hend
  · by_contra hne
    obtain ⟨c, hc⟩ := Option.isSome_iff_exists.mp hend
    obtain ⟨hc', hlive⟩ := ciphers_cleanup hc
    have hlt : (m.cleanupExpiredCiphers (secondOf (n + 1) * 10 ^ 9)).oldestGeneration <
        m.newestGeneration := by
      have hle := UInt32.le_iff_toNat_le.mp hclean.oldest_le
      have hne' := fun heq => hne (UInt32.toNat.inj heq)
      rw [UInt32.lt_iff_toNat_lt]
      exact lt_of_le_of_ne hle hne'
    obtain ⟨e, he⟩ := Option.isSome_iff_exists.mp (hk.expires _ c hc' hlt)
    exact absurd (h.early _ c e hc' he) (not_le.mpr (hlive e he))

lemma Climbed.passes (h : Climbed K secret n m) (hn : n ≤ G) (hgap : G ≤ n + 250)
    (hlast : n + 250 < 2 ^ 32) (hlife : G * 2 ^ 24 ≤ 170 * secondOf (n + 1)) :
    Passes (m.cleanupExpiredCiphers (secondOf (n + 1) * 10 ^ 9)) (UInt32.ofNat G)
      (secondOf (n + 1) * 10 ^ 9) := by
  have hG := UInt32.toNat_ofNat_of_lt' (show G < 2 ^ 32 by omega)
  refine ⟨?_, ?_, ?_⟩
  · rw [h.oldest_cleanup, UInt32.le_iff_toNat_le, hG, h.newest]
    exact hn
  · have hsum : (m.newestGeneration + maxGenerationGap).toNat = n + 250 := by
      rw [UInt32.toNat_add, h.newest]
      exact Nat.mod_eq_of_lt hlast
    rw [UInt32.le_iff_toNat_le, hG]
    exact hgap.trans hsum.ge
  · have hseconds : (secondOf (n + 1) * 10 ^ 9 - m.ratchetCreatedAt) / 10 ^ 9 =
        secondOf (n + 1) := by
      rw [h.created, Nat.sub_zero, Nat.mul_div_cancel _ (by norm_num)]
    have hlt : 170 * secondOf (n + 1) / 2 ^ 24 < 2 ^ 32 := by
      simp only [secondOf]
      omega
    have hmax : (UInt32.ofNat (170 * secondOf (n + 1) / 2 ^ 24)).toNat =
        170 * secondOf (n + 1) / 2 ^ 24 := UInt32.toNat_ofNat_of_lt' hlt
    rw [UInt32.le_iff_toNat_le, hG]
    simp only [maxLifetimeGeneration, cleanupExpiredCiphers, hseconds,
      Nat.shiftRight_eq_div_pow, maxFramesPerSecond]
    rw [hmax]
    exact (Nat.le_div_iff_mul_le (by norm_num)).mpr hlife

lemma generationOf_frameOf (hle : m.oldestGeneration.toNat ≤ G)
    (hgap : G ≤ m.oldestGeneration.toNat + 255) (hG : G < 2 ^ 32) :
    m.generationOf (frameOf G) = UInt32.ofNat G := by
  apply UInt32.toNat.inj
  have hshift : (UInt32.ofNat (G % 256 * 2 ^ 24) >>> ratchetGenerationShiftBits).toNat =
      G % 256 := by
    rw [ratchetGenerationShiftBits, UInt32.toNat_shiftRight, UInt32.toNat_ofNat',
      Nat.shiftRight_eq_div_pow, show (24 : UInt32).toNat % 32 = 24 from rfl]
    omega
  rw [generationOf, frameOf, toNat_computeWrappedGeneration, hshift, UInt32.toNat_ofNat_of_lt' hG]
  split <;> omega

lemma Climbed.generationOf (h : Climbed K secret n m) (hn : n ≤ G) (hgap : G ≤ n + 250)
    (hlast : n + 250 < 2 ^ 32) : m.generationOf (frameOf G) = UInt32.ofNat G := by
  obtain ⟨k, hk⟩ := h.keeps
  have hle := UInt32.le_iff_toNat_le.mp hk.oldest_le
  rw [h.newest] at hle
  have := h.oldest
  exact generationOf_frameOf (by omega) (by omega) (by omega)

lemma wrappedNonce_frameOf (hG : G < 2 ^ 32) :
    wrappedNonce (UInt32.ofNat G) (frameOf G).truncatedNonce = G * 2 ^ 24 := by
  have hlow : (UInt32.ofNat (G % 256 * 2 ^ 24)).toNat &&& (1 <<< 24 - 1) = 0 := by
    rw [UInt32.toNat_ofNat', show (1 <<< 24 - 1 : ℕ) = 2 ^ 24 - 1 from rfl,
      Nat.and_two_pow_sub_one_eq_mod]
    omega
  rw [wrappedNonce, frameOf, hlow, Nat.or_zero, UInt32.toNat_ofNat_of_lt' hG, Nat.shiftLeft_eq]

lemma Climbed.canProcessNonce (h : Climbed K secret n m) (hn : n < G) (hG : G < 2 ^ 32) :
    m.canProcessNonce (UInt32.ofNat G) (frameOf G).truncatedNonce = true := by
  unfold CryptorManager.canProcessNonce
  rw [wrappedNonce_frameOf hG]
  rcases hnonce : m.newestNonce with _ | w
  · rfl
  · have := h.nonce w hnonce
    simp only [Bool.or_eq_true, decide_eq_true_eq]
    exact .inl (by omega)

/-- The frame of the next generation is decrypted. -/
lemma Climbed.step (h : Climbed K secret n m) (hn : n + 251 < 2 ^ 32) :
    Climbed K secret (n + 1)
      (m.decrypt openAead K (frameOf (n + 1)) (readingsAt (secondOf (n + 1)))).2 := by
  obtain ⟨k, hk⟩ := h.keeps
  have hG := UInt32.toNat_ofNat_of_lt' (show n + 1 < 2 ^ 32 by omega)
  have hw := wrappedNonce_frameOf (show n + 1 < 2 ^ 32 by omega)
  have hlife : (n + 1) * 2 ^ 24 ≤ 170 * secondOf (n + 1) := by
    simp only [secondOf]
    omega
  have hp := h.passes (Nat.le_succ n) (by omega) (by omega) hlife
  have hgen := h.generationOf (Nat.le_succ n) (by omega) (by omega)
  have hold := h.oldest_cleanup
  obtain ⟨c, m', hcipher, hm'⟩ := hk.cipher (readingsAt (secondOf (n + 1))) hp
    (by rw [hG]; omega)
  have hkeeps := hk.decrypt openAead (frameOf (n + 1)) (readingsAt (secondOf (n + 1)))
  have hreport : (m.decrypt openAead K (frameOf (n + 1)) (readingsAt (secondOf (n + 1)))).2 =
      m'.reportSuccess (UInt32.ofNat (n + 1)) (frameOf (n + 1)).truncatedNonce
        (secondOf (n + 1) * 10 ^ 9) := by
    simp only [CryptorManager.decrypt, hgen, h.canProcessNonce (Nat.lt_succ_self n) (by omega),
      if_true, hcipher]
    rfl
  have hnewer : m'.newestGeneration < UInt32.ofNat (n + 1) := by
    have hnewest : m'.newestGeneration = m.newestGeneration := hm'.newest
    rw [UInt32.lt_iff_toNat_lt, hnewest, h.newest, hG]
    exact Nat.lt_succ_self n
  have hnonce : ∀ w, m'.newestNonce = some w →
      w < wrappedNonce (UInt32.ofNat (n + 1)) (frameOf (n + 1)).truncatedNonce := by
    intro w hn
    have := h.nonce w (hm'.nonce.symm.trans hn)
    rw [hw]
    omega
  obtain ⟨missing, hafter⟩ := reportSuccess_shape hm'.cached (frameOf (n + 1)).truncatedNonce
    (secondOf (n + 1) * 10 ^ 9)
  rw [hreport, hafter, newestNonce_recordNonce hnonce, if_pos hnewer] at hkeeps ⊢
  refine ⟨hkeeps, hm'.created.trans h.created, hG, ?_, fun w hn => ?_, fun g c e hc he => ?_⟩
  · have hoff : m'.oldestGeneration = m.newestGeneration := hm'.oldest.trans hold
    dsimp only
    rw [hoff, h.newest]
  · rw [← Option.some.inj hn, hw]
  · -- a cipher either got its expiry now, or had it before
    have hnext : secondOf (n + 1 + 1) * 10 ^ 9 = secondOf (n + 1) * 10 ^ 9 + cipherExpiry := by
      simp only [secondOf, cipherExpiry]
      omega
    rw [hnext]
    dsimp only at hc
    split at hc
    · obtain ⟨c₀, -, rfl⟩ := Option.map_eq_some_iff.mp hc
      exact (Option.some.inj he).ge
    · rcases hm'.late g c hc with hc | hlate
      · exact (h.early g c e (ciphers_cleanup hc).1 he).trans (Nat.le_add_right _ _)
      · exact (hlate e he).le

lemma climbed_climb (hn : n + 250 < 2 ^ 32) :
    Climbed K secret n (after openAead K secret 0 (climb n)) := by
  induction n with
  | zero => exact climbed_new
  | succ n ih =>
    rw [climb_succ, after, run_append]
    exact (ih (by omega)).step hn

/-- The clock of a climb, and of another frame behind it. -/
lemma nondecreasing_climb (n : ℕ) (parsed : ParsedFrame) :
    Nondecreasing 0 (climb n ++ [(parsed, readingsAt (secondOf (n + 1)))]) := by
  have hclimb : (climb n).map Prod.snd =
      (List.range n).map fun i => readingsAt (secondOf (i + 1)) := by
    simp [climb]
  have hreadings : ((climb n ++ [(parsed, readingsAt (secondOf (n + 1)))]).map Prod.snd) =
      (List.range (n + 1)).map fun i => readingsAt (secondOf (i + 1)) := by
    rw [List.map_append, hclimb, List.range_succ, List.map_append]
    rfl
  have hflat (calls : List (ParsedFrame × Readings)) : (calls.flatMap fun call =>
      [call.2.cleanup, call.2.lifetime, call.2.insert, call.2.success]) =
        (calls.map Prod.snd).flatMap fun now =>
          [now.cleanup, now.lifetime, now.insert, now.success] := by
    rw [List.flatMap_map]
  refine List.pairwise_cons.mpr ⟨fun _ _ => Nat.zero_le _, ?_⟩
  rw [hflat, hreadings, List.flatMap_map, List.pairwise_flatMap]
  constructor
  · intro i _
    simp [readingsAt]
  · refine List.pairwise_lt_range.imp fun {i j} hij => ?_
    simp only [readingsAt, secondOf, List.mem_cons, List.not_mem_nil, or_false, or_self]
    rintro x rfl y rfl
    omega

/-- The highest generation from which the last one is in reach. -/
def highest : ℕ := 2 ^ 32 - 251

/-- **The last generation.** It passes the bounds, and neither `get` nor `decrypt` returns. -/
theorem get_last_generation :
    let calls := climb highest
    let m := after openAead toyKdf [] 0 calls
    let parsed := frameOf (2 ^ 32 - 1)
    let now := readingsAt (secondOf (highest + 1))
    Nondecreasing 0 (calls ++ [(parsed, now)]) ∧
      m.generationOf parsed = UInt32.ofNat (2 ^ 32 - 1) ∧
      Passes (m.cleanupExpiredCiphers now.cleanup) (m.generationOf parsed) now.lifetime ∧
      ((m.cleanupExpiredCiphers now.cleanup).ratchet.get toyKdf (m.generationOf parsed)).1 = none ∧
      (m.decrypt openAead toyKdf parsed now).1 = none := by
  intro calls m parsed now
  have h : Climbed toyKdf [] highest m := climbed_climb (by simp [highest])
  obtain ⟨k, hk⟩ := h.keeps
  have hgen : m.generationOf parsed = UInt32.ofNat (2 ^ 32 - 1) :=
    h.generationOf (by simp [highest]) (by simp [highest]) (by simp [highest])
  have hlast : (UInt32.ofNat (2 ^ 32 - 1)).toNat + 1 = 2 ^ 32 := by decide
  have hp : Passes (m.cleanupExpiredCiphers now.cleanup) (UInt32.ofNat (2 ^ 32 - 1)) now.lifetime :=
    h.passes (by simp [highest]) (by simp [highest]) (by simp [highest])
      (by simp [highest, secondOf])
  have hcan := h.canProcessNonce (show highest < 2 ^ 32 - 1 by simp [highest]) (by norm_num)
  have hdecrypt : (m.decrypt openAead toyKdf parsed now).1 = none := by
    simp only [CryptorManager.decrypt, hgen, parsed, hcan, if_true, hk.cipher_last hp hlast]
  rw [hgen]
  refine ⟨?_, rfl, hp, ?_, hdecrypt⟩
  · exact nondecreasing_climb highest parsed
  · rw [((hk.cleanup now.cleanup).get_last hlast).2]

end Cacophony.KeyLifetime
