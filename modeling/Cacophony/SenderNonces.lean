import Cacophony.Ratchet

/-!
The sender never uses a key and a nonce together twice.

The calls of `advance_cipher` since an activation are numbered from `1`. Call `n` returns the
nonce `n` modulo `2 ^ 32` under the key of generation `n / 2 ^ 24`, the encryption behind it is
made with these two, and `n` can be read off them; this holds up to the last generation that the
ratchet can derive.
-/

namespace Cacophony.SenderNonces

open Gcm Cacophony.Frame FrameCodecs Loops Runs
open Ratchet Encryptor

variable (K : Kdf) (secret : Bytes)

/-! ### The chain of secrets -/

/-- The secret that generation `k` is derived from. -/
def chainSecret : ℕ → Bytes
  | 0 => secret
  | k + 1 => K.deriveTreeSecret (chainSecret k) "secret" (UInt32.ofNat k) 32

def ratchetSecrets (k : ℕ) : RatchetGenerationSecrets where
  key := K.deriveTreeSecret (chainSecret K secret k) "key" (UInt32.ofNat k) 16
  nonce := K.deriveTreeSecret (chainSecret K secret k) "nonce" (UInt32.ofNat k) 12

/-- A ratchet that was started with `secret`, has derived the generations below `k`, and has
erased those of `E` again. -/
structure Erased (E : Set UInt32) (k : ℕ) (r : HashRatchet) : Prop where
  generation : r.nextGeneration.toNat = k
  secret_eq : r.nextSecret = chainSecret K secret k
  erased_lt : ∀ g ∈ E, g.toNat < k
  cached : ∀ g, g.toNat < k → g ∉ E → r.cache g = some (ratchetSecrets K secret g.toNat)
  absent : ∀ g, (g.toNat < k → g ∈ E) → r.cache g = none

variable {K secret} {r : HashRatchet} {k n : ℕ} {E : Set UInt32} {e : Encryptor} {g : UInt32}

lemma Erased.ofNat_eq (h : Erased K secret E k r) : UInt32.ofNat k = r.nextGeneration := by
  rw [← h.generation, UInt32.ofNat_toNat]

lemma Erased.next (h : Erased K secret E k r) (hk : k + 1 < 2 ^ 32) :
    Erased K secret E (k + 1) (r.next K) where
  generation := by
    simp only [HashRatchet.next, UInt32.toNat_add, h.generation]
    exact Nat.mod_eq_of_lt hk
  secret_eq := by
    simp only [HashRatchet.next, chainSecret, h.secret_eq, h.ofNat_eq]
  erased_lt g hg := Nat.lt_succ_of_lt (h.erased_lt g hg)
  cached := by
    intro g hlt hg
    simp only [HashRatchet.next, Function.update_apply, h.secret_eq]
    split
    next heq => simp [heq, h.generation, ratchetSecrets, h.ofNat_eq]
    next hne =>
      have hk' : g.toNat ≠ k := fun heq => hne (UInt32.toNat.inj (heq.trans h.generation.symm))
      exact h.cached g (by omega) hg
  absent := by
    intro g hg
    have hne : g ≠ r.nextGeneration := by
      rintro rfl
      rw [h.generation] at hg
      have := h.erased_lt _ (hg (Nat.lt_succ_self k))
      rw [h.generation] at this
      exact this.false
    simp only [HashRatchet.next, Function.update_of_ne hne]
    exact h.absent g fun hlt => hg (Nat.lt_succ_of_lt hlt)

/-- **The ratchet.** Every generation but the last can be asked for, in any order, unless it was
erased, and has the secrets of the chain. -/
theorem Erased.get (h : Erased K secret E k r) (hg : g.toNat + 1 < 2 ^ 32) (hE : g ∉ E) :
    ∃ r', r.get K g = (some (.ok (ratchetSecrets K secret g.toNat)), r') ∧
      Erased K secret E (max k (g.toNat + 1)) r' := by
  have hlookup {k r} (h : Erased K secret E k r) (hlt : g.toNat < k) :
      r.lookup g = .ok (ratchetSecrets K secret g.toNat) := by
    simp [HashRatchet.lookup, h.cached g hlt hE]
  unfold HashRatchet.get
  by_cases hlt : g.toNat < k
  · refine ⟨r, ?_, by rwa [Nat.max_eq_left hlt]⟩
    simp [h.cached g hlt hE, hlookup h hlt]
  · have hnone : r.cache g = none := h.absent g fun h => absurd h hlt
    have hno : ¬ g < r.nextGeneration := by
      rw [UInt32.lt_iff_toNat_lt, h.generation]
      exact hlt
    -- each round derives one generation, up to the one asked for
    obtain ⟨r', hloop, ⟨k', hd, hle⟩, hend⟩ :
        ∃ r', loop (fun r => r.nextGeneration ≤ g) (HashRatchet.next K) (2 ^ 32) r = some r' ∧
          (∃ k', Erased K secret E k' r' ∧ k' ≤ g.toNat + 1) ∧
          decide (r'.nextGeneration ≤ g) = false := by
      refine loop_spec (fun r => g.toNat + 1 - r.nextGeneration.toNat) ?_ ⟨k, h, by omega⟩
        (by omega)
      rintro r ⟨k', hd, hle⟩ hc
      have hc' : k' ≤ g.toNat := by
        rw [← hd.generation]
        exact UInt32.le_iff_toNat_le.mp (by simpa using hc)
      have hn := hd.next (by omega)
      refine ⟨⟨k' + 1, hn, by omega⟩, ?_⟩
      rw [hn.generation, hd.generation]
      omega
    have hk' : k' = g.toNat + 1 := by
      simp only [decide_eq_false_iff_not, UInt32.le_iff_toNat_le, hd.generation] at hend
      omega
    subst hk'
    rw [Nat.max_eq_right (by omega)]
    simp only [hnone, Option.isSome_none, Bool.false_eq_true, if_false, hno, hloop,
      hlookup hd (Nat.lt_succ_self _)]
    exact ⟨r', rfl, hd⟩

/-- The last generation cannot be derived: the counter wraps at it, and the loop goes on. -/
lemma get_last {r : HashRatchet} (hg : g.toNat + 1 = 2 ^ 32) (hcache : r.cache g = none) :
    r.get K g = (none, r) := by
  have hle (n : UInt32) : n ≤ g := by
    rw [UInt32.le_iff_toNat_le]
    have := n.toNat_lt
    omega
  have hloop : loop (fun r => r.nextGeneration ≤ g) (HashRatchet.next K) (2 ^ 32) r = none :=
    loop_eq_none (I := fun _ => True) (fun r _ => ⟨by simpa using hle r.nextGeneration, trivial⟩)
      _ trivial
  have hno : ¬ g < r.nextGeneration := UInt32.not_lt.mpr (hle _)
  simp only [HashRatchet.get, hcache, Option.isSome_none, Bool.false_eq_true, if_false, hno, hloop]

lemma Erased.erase (h : Erased K secret E k r) (hg : g.toNat < k) :
    Erased K secret (insert g E) k (r.erase g) where
  generation := h.generation
  secret_eq := h.secret_eq
  erased_lt := by
    rintro g' (rfl | hg')
    · exact hg
    · exact h.erased_lt g' hg'
  cached := by
    intro g' hlt hg'
    obtain ⟨hne, hg'⟩ := not_or.mp hg'
    simp only [HashRatchet.erase, Function.update_of_ne hne]
    exact h.cached g' hlt hg'
  absent := by
    intro g' hg'
    simp only [HashRatchet.erase, Function.update_apply]
    split
    · rfl
    next hne => exact h.absent g' fun hlt => (hg' hlt).resolve_left hne

lemma erased_new : Erased K secret ∅ 0 (.new secret) :=
  ⟨rfl, rfl, fun _ hg => hg.elim, fun _ hlt => absurd hlt (Nat.not_lt_zero _), fun _ _ => rfl⟩

/-! ### One call of `advance_cipher` -/

lemma toNat_computeWrappedGeneration (o g : UInt32) : (computeWrappedGeneration o g).toNat =
    ((o.toNat / 256 + if g.toNat < o.toNat % 256 then 1 else 0) * 256 + g.toNat) % 2 ^ 32 := by
  have hmod : (o % generationWrap).toNat = o.toNat % 256 := by
    rw [UInt32.toNat_mod]
    rfl
  have hdiv : (o / generationWrap).toNat = o.toNat / 256 := by
    rw [UInt32.toNat_div]
    rfl
  have hlt : g < o % generationWrap ↔ g.toNat < o.toNat % 256 := by
    rw [UInt32.lt_iff_toNat_lt, hmod]
  have hwrap : generationWrap.toNat = 256 := rfl
  simp only [computeWrappedGeneration, UInt32.toNat_add, UInt32.toNat_mul, hdiv, hwrap, hlt]
  split
  · rw [show (1 : UInt32).toNat = 1 from rfl]
    omega
  · rw [show (0 : UInt32).toNat = 0 from rfl]
    omega

/-- The top byte of nonce `n`. -/
lemma toNat_topByte (n : ℕ) :
    (UInt32.ofNat n >>> ratchetGenerationShiftBits).toNat = n / 2 ^ 24 % 256 := by
  rw [ratchetGenerationShiftBits, UInt32.toNat_shiftRight, UInt32.toNat_ofNat',
    Nat.shiftRight_eq_div_pow, show (24 : UInt32).toNat % 32 = 24 from rfl]
  omega

/-- The generation that the top byte of nonce `n + 1` stands for, behind the one of nonce `n`. -/
lemma computeWrappedGeneration_eq (hn : n + 1 < 2 ^ 56) :
    computeWrappedGeneration (UInt32.ofNat (n / 2 ^ 24))
      (UInt32.ofNat (n + 1) >>> ratchetGenerationShiftBits) = UInt32.ofNat ((n + 1) / 2 ^ 24) := by
  apply UInt32.toNat.inj
  have hold : (UInt32.ofNat (n / 2 ^ 24)).toNat = n / 2 ^ 24 := by
    rw [UInt32.toNat_ofNat']
    omega
  rw [toNat_computeWrappedGeneration, toNat_topByte, hold, UInt32.toNat_ofNat']
  split <;> omega

/-- The sender after `n` calls since the ratchet of `secret` was activated. -/
structure Active (K : Kdf) (secret : Bytes) (n : ℕ) (e : Encryptor) : Prop where
  ratchet : ∃ r, e.activeRatchet = some r ∧
    Erased K secret ∅ (if n = 0 then 0 else n / 2 ^ 24 + 1) r
  generation : e.currentGeneration = UInt32.ofNat (n / 2 ^ 24)
  nonce : e.truncatedNonce = UInt32.ofNat n
  cipher : e.cipher.map FrameCipher.key =
    if n = 0 then none else some (ratchetSecrets K secret (n / 2 ^ 24)).key

lemma active_fresh (secret : Bytes) :
    Active K secret 0 { activeRatchet := some (HashRatchet.new secret) } where
  ratchet := ⟨_, rfl, erased_new⟩
  generation := by rw [Nat.zero_div]; rfl
  nonce := rfl
  cipher := rfl

/-- The last call whose generation the ratchet can derive. -/
def callLimit : ℕ := 2 ^ 56 - 2 ^ 24

/-- What call `n` returns and leaves. -/
structure Advanced (K : Kdf) (secret : Bytes) (n : ℕ) (call : Call) : Prop where
  result : call.result = some (.ok (UInt32.ofNat n))
  generation : call.generation = UInt32.ofNat (n / 2 ^ 24)
  cipher : call.cipher.map FrameCipher.key = some (ratchetSecrets K secret (n / 2 ^ 24)).key
  sealing : ∀ s, call.sealing = some s → s.key = (ratchetSecrets K secret (n / 2 ^ 24)).key ∧
    s.nonce = nonceFromTruncated (UInt32.ofNat n)

/-- A generation the ratchet can derive gives its cipher. -/
lemma Erased.renewCipher {count : ℕ} (hd : Erased K secret ∅ count r) (e : Encryptor)
    (hg : g.toNat + 1 < 2 ^ 32) :
    ∃ r' cipher, Encryptor.renewCipher K e r g = (some (.ok e.truncatedNonce),
        { e with currentGeneration := g, activeRatchet := some r', cipher := some cipher }) ∧
      cipher.key = (ratchetSecrets K secret g.toNat).key ∧
      Erased K secret ∅ (max count (g.toNat + 1)) r' := by
  obtain ⟨r', hget, hd'⟩ := hd.get hg id
  have hkey : (ratchetSecrets K secret g.toNat).key.length = keyBytes := K.length_derive _ _ _ _
  refine ⟨r', ⟨_, hkey⟩, ?_, rfl, hd'⟩
  simp only [Encryptor.renewCipher, hget, FrameCipher.new, hkey, dif_pos]

/-- **One call.** -/
theorem Active.advanceCipher (h : Active K secret n e) (hn : n + 1 < callLimit) :
    ∃ e', e.advanceCipher K = (some (.ok e'.truncatedNonce), e') ∧
      Active K secret (n + 1) e' := by
  simp only [callLimit] at hn
  obtain ⟨r, hr, hd⟩ := h.ratchet
  have hnonce : e.truncatedNonce + 1 = UInt32.ofNat (n + 1) := by
    rw [h.nonce, UInt32.ofNat_add]
    rfl
  have hgen : computeWrappedGeneration e.currentGeneration
      ((e.truncatedNonce + 1) >>> ratchetGenerationShiftBits) =
        UInt32.ofNat ((n + 1) / 2 ^ 24) := by
    rw [hnonce, h.generation, computeWrappedGeneration_eq (by omega)]
  have hto {k : ℕ} (hk : k < 2 ^ 32) : (UInt32.ofNat k).toNat = k := by
    rw [UInt32.toNat_ofNat', Nat.mod_eq_of_lt hk]
  unfold Encryptor.advanceCipher
  simp only [hr, hgen]
  split
  next hnew =>
    obtain ⟨r', cipher, hrenew, hkey, hd'⟩ := hd.renewCipher
      { e with truncatedNonce := e.truncatedNonce + 1, activeRatchet := some r }
      (show (UInt32.ofNat ((n + 1) / 2 ^ 24)).toNat + 1 < 2 ^ 32 by rw [hto (by omega)]; omega)
    rw [hto (by omega)] at hkey hd'
    have hcount : max (if n = 0 then 0 else n / 2 ^ 24 + 1) ((n + 1) / 2 ^ 24 + 1) =
        (n + 1) / 2 ^ 24 + 1 := by
      split <;> omega
    refine ⟨{ e with
      truncatedNonce := e.truncatedNonce + 1, activeRatchet := some r'
      currentGeneration := UInt32.ofNat ((n + 1) / 2 ^ 24), cipher := some cipher },
      hrenew, ⟨⟨r', rfl, ?_⟩, rfl, hnonce, ?_⟩⟩
    · rw [if_neg (Nat.succ_ne_zero n), ← hcount]
      exact hd'
    · rw [if_neg (Nat.succ_ne_zero n), ← hkey]
      rfl
  next hsame =>
    obtain ⟨hg, hcipher⟩ := not_or.mp hsame
    have hn0 : n ≠ 0 := by
      rintro rfl
      have hnone : e.cipher = none := by simpa using h.cipher
      exact hcipher (by rw [hnone]; rfl)
    have hgen' : (n + 1) / 2 ^ 24 = n / 2 ^ 24 := by
      have hg' := congrArg UInt32.toNat (not_not.mp hg)
      rw [h.generation, hto (by omega), hto (by omega)] at hg'
      exact hg'
    refine ⟨{ e with truncatedNonce := e.truncatedNonce + 1 }, by rw [hr],
      ⟨⟨r, hr, ?_⟩, ?_, hnonce, ?_⟩⟩
    · rw [if_neg hn0] at hd
      rw [if_neg (Nat.succ_ne_zero n), hgen']
      exact hd
    · rw [hgen']
      exact h.generation
    · rw [if_neg (Nat.succ_ne_zero n), hgen']
      simpa [hn0] using h.cipher

/-! ### Runs -/

inductive Op
  | stageRatchet (secret : Bytes)
  | activatePending
  | encryptInto (codec : Codec) (payload : Bytes)
  | reset

/-- A sender with the secrets of its ratchets, and the calls of `advance_cipher` since the last
activation. -/
structure Sender where
  encryptor : Encryptor := {}
  secret : Option Bytes := none
  pendingSecret : Option Bytes := none
  calls : List Call := []
  /-- A call has not returned. -/
  stuck : Bool := false

variable (A : Aead) (K : Kdf)

/-- Ratchets are staged as they come out of `HashRatchet::new`. -/
def Sender.step (s : Sender) (op : Op) : Sender :=
  if s.stuck then s
  else
    match op with
    | .stageRatchet secret => { s with
        encryptor := s.encryptor.stageRatchet (.new secret), pendingSecret := some secret }
    | .activatePending =>
      let (activated, encryptor) := s.encryptor.activatePending
      if activated then
        { s with encryptor, secret := s.pendingSecret, pendingSecret := none, calls := [] }
      else { s with encryptor }
    | .encryptInto codec payload =>
      let (result, encryptor, calls) := s.encryptor.encryptInto A K codec payload s.calls
      { s with encryptor, calls, stuck := result.isNone }
    | .reset => {}

/-- The calls, and the sender behind them, up to the limit. -/
structure Counted (secret : Bytes) (e : Encryptor) (calls : List Call) : Prop where
  calls_eq : ∀ i call, calls[i]? = some call → i + 1 < callLimit → Advanced K secret (i + 1) call
  active : calls.length < callLimit → Active K secret calls.length e

variable {A K}

section Attempt

variable {p : OutboundFrameProcessor} {e e' : Encryptor} {nonce : UInt32} {cipher : FrameCipher}

/-- The encryption behind a call of `advance_cipher`. -/
lemma attempt_eq (he : e.advanceCipher K = (some (.ok nonce), e')) (hc : e'.cipher = some cipher) :
    e.attempt A K p = (some (cipher.encryptProcessed A nonce p), e',
      ⟨some (.ok nonce), e'.currentGeneration, some cipher, some ⟨cipher.key,
        nonceFromTruncated nonce, p.unencryptedBytes, p.encryptedBytes⟩⟩) := by
  simp only [attempt, he, hc, FrameCipher.encryptProcessed, FrameCipher.encryptLogged]
  split <;> rfl

lemma attempt_ok {call : Call} {o : Bytes} (h : e.attempt A K p = (some (.ok o), e', call)) :
    ∃ nonce cipher, e.advanceCipher K = (some (.ok nonce), e') ∧ e'.cipher = some cipher ∧
      cipher.encryptProcessed A nonce p = .ok o := by
  rcases he : e.advanceCipher K with ⟨_ | _ | nonce, e₁⟩
  · simp [attempt, he] at h
  · simp [attempt, he] at h
  rcases hc : e₁.cipher with _ | cipher
  · simp [attempt, he, hc] at h
  · rw [attempt_eq he hc] at h
    obtain ⟨ho, rfl, -⟩ : _ ∧ e₁ = e' ∧ _ := by simpa using h
    exact ⟨nonce, cipher, rfl, hc, ho⟩

lemma encryptor_attempt : (e.attempt A K p).2.1 = (e.advanceCipher K).2 := by
  rcases he : e.advanceCipher K with ⟨_ | _ | nonce, e₁⟩
  · simp [attempt, he]
  · simp [attempt, he]
  rcases hc : e₁.cipher with _ | cipher
  · simp [attempt, he, hc]
  · rw [attempt_eq he hc]

end Attempt

/-- **One attempt.** -/
lemma Active.attempt {e : Encryptor} (h : Active K secret n e) (hn : n + 1 < callLimit)
    (p : OutboundFrameProcessor) :
    Active K secret (n + 1) (e.attempt A K p).2.1 ∧
      Advanced K secret (n + 1) (e.attempt A K p).2.2 := by
  obtain ⟨e', he, hact⟩ := h.advanceCipher hn
  have hkey := hact.cipher
  rw [if_neg (Nat.succ_ne_zero n)] at hkey
  obtain ⟨cipher, hcipher, hkey⟩ := Option.map_eq_some_iff.mp hkey
  rw [attempt_eq he hcipher]
  refine ⟨hact, by rw [hact.nonce], hact.generation, congrArg some hkey, ?_⟩
  rintro _ ⟨⟩
  exact ⟨hkey, by rw [hact.nonce]⟩

lemma Counted.attempt {calls : List Call} (h : Counted K secret e calls)
    (p : OutboundFrameProcessor) :
    Counted K secret (e.attempt A K p).2.1 (calls ++ [(e.attempt A K p).2.2]) := by
  have hstep (hl : calls.length + 1 < callLimit) := (h.active (by omega)).attempt (A := A) hl p
  refine ⟨fun i call hi hlt => ?_, fun hl => ?_⟩
  · rcases lt_or_ge i calls.length with hlen | hlen
    · exact h.calls_eq i call (by rwa [List.getElem?_append_left hlen] at hi) hlt
    · have hi' := (List.getElem?_eq_some_iff.mp hi).1
      rw [List.length_append, List.length_singleton] at hi'
      obtain rfl : i = calls.length := by omega
      rw [List.getElem?_concat_length] at hi
      cases hi
      exact (hstep hlt).2
  · rw [List.length_append, List.length_singleton] at hl ⊢
    exact (hstep hl).1

lemma pendingRatchet_advanceCipher (e : Encryptor) :
    (e.advanceCipher K).2.pendingRatchet = e.pendingRatchet := by
  unfold Encryptor.advanceCipher
  split
  · rfl
  dsimp only
  split
  · unfold renewCipher
    split
    · rfl
    · rfl
    dsimp only
    split <;> rfl
  · rfl

/-- What one attempt keeps, the retry loop keeps. -/
lemma attempts_inv {I : Encryptor → List Call → Prop} {p : OutboundFrameProcessor}
    (hstep : ∀ e calls, I e calls → I (e.attempt A K p).2.1 (calls ++ [(e.attempt A K p).2.2]))
    (C : Codec) (retries : ℕ) {calls : List Call} (h : I e calls) :
    I (e.attempts A K C p retries calls).2.1 (e.attempts A K C p retries calls).2.2 := by
  induction retries generalizing e calls with
  | zero => exact h
  | succ retries ih =>
    have hnext := hstep e calls h
    rw [Encryptor.attempts]
    generalize e.attempt A K p = next at hnext ⊢
    obtain ⟨_ | _ | output, e', call⟩ := next
    · exact hnext
    · exact hnext
    dsimp only at hnext ⊢
    split
    · exact hnext
    · exact ih hnext

/-- What holds of a sender in every run. -/
structure Sound (K : Kdf) (s : Sender) : Prop where
  pending : s.encryptor.pendingRatchet = s.pendingSecret.map .new
  counted : ∀ secret, s.secret = some secret → Counted K secret s.encryptor s.calls

lemma sound_init : Sound K {} := ⟨rfl, by simp⟩

/-- **Every operation keeps the count.** -/
theorem Sound.step {s : Sender} (h : Sound K s) (op : Op) : Sound K (s.step A K op) := by
  unfold Sender.step
  split
  · exact h
  cases op with
  | stageRatchet secret =>
    refine ⟨rfl, fun secret' hs => ⟨(h.counted secret' hs).calls_eq, fun hl => ?_⟩⟩
    obtain ⟨hr, hg, hn, hc⟩ := (h.counted secret' hs).active hl
    exact ⟨hr, hg, hn, hc⟩
  | activatePending =>
    dsimp only
    rcases hp : s.encryptor.pendingRatchet with _ | r
    · simpa [activatePending, hp] using h
    · have hps := h.pending
      rw [hp] at hps
      obtain ⟨secret, hsecret, rfl⟩ := Option.map_eq_some_iff.mp hps.symm
      simp only [activatePending, hp, if_true]
      refine ⟨rfl, fun secret' hs => ⟨by simp, fun _ => ?_⟩⟩
      obtain rfl : secret = secret' := Option.some.inj (hsecret.symm.trans hs)
      exact active_fresh secret
  | encryptInto codec payload =>
    refine ⟨?_, fun secret hs => ?_⟩
    · exact attempts_inv (I := fun e _ => e.pendingRatchet = s.pendingSecret.map .new)
        (fun e _ he => by rwa [encryptor_attempt, pendingRatchet_advanceCipher]) _ _ h.pending
    · exact attempts_inv (fun _ _ hc => hc.attempt _) _ _ (h.counted secret hs)
  | reset => exact sound_init

/-- Two calls below the limit that share a generation and a nonce are one call. -/
lemma eq_of_generation_nonce {n n' : ℕ} (hn : n < callLimit) (hn' : n' < callLimit)
    (hg : UInt32.ofNat (n / 2 ^ 24) = UInt32.ofNat (n' / 2 ^ 24))
    (hnonce : UInt32.ofNat n = UInt32.ofNat n') : n = n' := by
  have hg' := congrArg UInt32.toNat hg
  have hnonce' := congrArg UInt32.toNat hnonce
  simp only [UInt32.toNat_ofNat', callLimit] at hg' hnonce' hn hn'
  omega

lemma u32Le_injective {a b : UInt32} (h : u32Le a = u32Le b) : a = b := by
  simp only [u32Le, List.map_cons, List.map_nil, List.cons.injEq, and_true] at h
  obtain ⟨h0, h1, h2, h3⟩ := h
  have hb (x y : ℕ) (hxy : UInt8.ofNat x = UInt8.ofNat y) : x % 256 = y % 256 := by
    simpa using congrArg UInt8.toNat hxy
  have h0' := hb _ _ h0
  have h1' := hb _ _ h1
  have h2' := hb _ _ h2
  have h3' := hb _ _ h3
  have ha := a.toNat_lt
  have hb := b.toNat_lt
  exact UInt32.toNat.inj (by omega)

lemma nonceFromTruncated_injective : Function.Injective nonceFromTruncated :=
  fun _ _ h => u32Le_injective (List.append_cancel_left h)

/-- The encryptions of the calls below the limit, each as `f` sees it. -/
def sealings {β : Type} (f : Call → Sealing → β) (calls : List Call) : List β :=
  (calls.take (callLimit - 1)).filterMap fun call => call.sealing.map (f call)

/-- What tells the calls below the limit apart tells their encryptions apart. -/
lemma Counted.nodup_sealings {e : Encryptor} {calls : List Call} (h : Counted K secret e calls)
    {β : Type} {f : Call → Sealing → β} (hf : ∀ n n' call call' s s', n < n' → n' < callLimit →
      Advanced K secret n call → Advanced K secret n' call' → call.sealing = some s →
      call'.sealing = some s' → f call s ≠ f call' s') : (sealings f calls).Nodup := by
  refine List.pairwise_filterMap.mpr
    (List.pairwise_iff_getElem.mpr fun i j hi hj hij b hb b' hb' => ?_)
  rw [List.length_take] at hj
  rw [List.getElem_take] at hb hb'
  obtain ⟨s, hs, rfl⟩ := Option.map_eq_some_iff.mp hb
  obtain ⟨s', hs', rfl⟩ := Option.map_eq_some_iff.mp hb'
  have hlt : j + 1 < callLimit := by omega
  exact hf _ _ _ _ s s' (Nat.succ_lt_succ hij) hlt
    (h.calls_eq i _ (List.getElem?_eq_getElem _) (by omega))
    (h.calls_eq j _ (List.getElem?_eq_getElem _) hlt) hs hs'

/-- **Nonces.** In every run of sender operations, call `n` of `advance_cipher` since an
activation returns, with nonce `n` modulo `2 ^ 32` and the cipher of generation `n / 2 ^ 24` of
the activated ratchet; no two of these calls have the same generation and the same nonce. An
encryption behind call `n`, successful or not, has the key of that generation and that nonce: no
two encryptions have the same generation and the same nonce, nor the same key and the same nonce
if the ratchet derives no key twice. -/
theorem calls_since_activation (ops : List Op) (secret : Bytes)
    (hs : (run (Sender.step A K) {} ops).secret = some secret) :
    (∀ (n : ℕ) (call : Call), 1 ≤ n → n < 2 ^ 56 - 2 ^ 24 →
      (run (Sender.step A K) {} ops).calls[n - 1]? = some call →
      call.result = some (.ok (UInt32.ofNat n)) ∧
      call.generation = UInt32.ofNat (n / 2 ^ 24) ∧
      call.cipher.map FrameCipher.key = some (ratchetSecrets K secret (n / 2 ^ 24)).key ∧
      ∀ s, call.sealing = some s → s.key = (ratchetSecrets K secret (n / 2 ^ 24)).key ∧
        s.nonce = nonceFromTruncated (UInt32.ofNat n)) ∧
    (∀ (n n' : ℕ) (call call' : Call), 1 ≤ n → n < n' → n' < 2 ^ 56 - 2 ^ 24 →
      (run (Sender.step A K) {} ops).calls[n - 1]? = some call →
      (run (Sender.step A K) {} ops).calls[n' - 1]? = some call' →
      ¬ (call.generation = call'.generation ∧ call.result = call'.result)) ∧
    (sealings (fun call s => (call.generation, s.nonce))
      (run (Sender.step A K) {} ops).calls).Nodup ∧
    ((∀ g g', g < 2 ^ 32 → g' < 2 ^ 32 →
        (ratchetSecrets K secret g).key = (ratchetSecrets K secret g').key → g = g') →
      (sealings (fun _ s => (s.key, s.nonce)) (run (Sender.step A K) {} ops).calls).Nodup) := by
  have hsound : Sound K (run (Sender.step A K) {} ops) :=
    run_inv_of_step (fun _ op hI => hI.step op) ops sound_init
  have hcounted := hsound.counted secret hs
  have hcall (n : ℕ) (call : Call) (h1 : 1 ≤ n) (hn : n < 2 ^ 56 - 2 ^ 24)
      (hget : (run (Sender.step A K) {} ops).calls[n - 1]? = some call) :
      Advanced K secret n call := by
    have := hcounted.calls_eq (n - 1) call hget
    rw [Nat.sub_add_cancel h1] at this
    exact this hn
  refine ⟨fun n call h1 hn hget => ?_, fun n n' call call' h1 hlt hn' hget hget' heq => ?_,
    hcounted.nodup_sealings fun n n' call call' s s' hlt hn' hc hc' hs hs' heq => ?_,
    fun hkeys => hcounted.nodup_sealings fun n n' call call' s s' hlt hn' hc hc' hs hs' heq => ?_⟩
  · obtain ⟨hr, hg, hc, hs⟩ := hcall n call h1 hn hget
    exact ⟨hr, hg, hc, hs⟩
  · have hc := hcall n call h1 (by omega) hget
    have hc' := hcall n' call' (by omega) hn' hget'
    have heqn : n = n' := eq_of_generation_nonce (by simp only [callLimit]; omega)
      (by simp only [callLimit]; omega) (by rw [← hc.generation, ← hc'.generation, heq.1])
      (by simpa [hc.result, hc'.result] using heq.2)
    omega
  · obtain ⟨hgen, hnonce⟩ := Prod.mk.inj heq
    rw [hc.generation, hc'.generation] at hgen
    rw [(hc.sealing s hs).2, (hc'.sealing s' hs').2] at hnonce
    exact hlt.ne (eq_of_generation_nonce (hlt.trans hn') hn' hgen
      (nonceFromTruncated_injective hnonce))
  · obtain ⟨hkey, hnonce⟩ := Prod.mk.inj heq
    rw [(hc.sealing s hs).1, (hc'.sealing s' hs').1] at hkey
    rw [(hc.sealing s hs).2, (hc'.sealing s' hs').2] at hnonce
    simp only [callLimit] at hn'
    exact hlt.ne (eq_of_generation_nonce (by simp only [callLimit]; omega) hn'
      (congrArg UInt32.ofNat (hkeys _ _ (by omega) (by omega) hkey))
      (nonceFromTruncated_injective hnonce))

def toyAead : Aead := aes128Gcm8 ⟨fun _ _ => ⟨List.replicate 16 0x3c, rfl⟩, fun h _ => h⟩

def toyKdf : Kdf where
  deriveTreeSecret secret _ generation n := List.replicate n (secret.headD 0 + generation.toUInt8)
  length_derive := by simp

/-- Two frames after an activation: the second call has nonce `2` and the first key. -/
def twoFrames : List Op :=
  [.stageRatchet [7], .activatePending, .encryptInto .opus [1, 2], .encryptInto .vp8 [3]]

theorem calls_since_activation_twoFrames :
    (run (Sender.step toyAead toyKdf) {} twoFrames).secret = some [7] ∧
    (∃ call, (run (Sender.step toyAead toyKdf) {} twoFrames).calls[2 - 1]? = some call ∧
      call.result = some (.ok 2) ∧ call.generation = 0 ∧
      call.cipher.map FrameCipher.key = some (ratchetSecrets toyKdf [7] 0).key ∧
      ∃ s, call.sealing = some s ∧ s.key = (ratchetSecrets toyKdf [7] 0).key ∧
        s.nonce = nonceFromTruncated 2) ∧
    sealings (fun call s => (call.generation, s.nonce))
        (run (Sender.step toyAead toyKdf) {} twoFrames).calls =
      [(0, nonceFromTruncated 1), (0, nonceFromTruncated 2)] ∧
    [((0 : UInt32), nonceFromTruncated 1), (0, nonceFromTruncated 2)].Nodup := by
  have hsecret : (run (Sender.step toyAead toyKdf) {} twoFrames).secret = some [7] := by
    decide +kernel
  have hget : (run (Sender.step toyAead toyKdf) {} twoFrames).calls[2 - 1]? =
      some ⟨some (.ok 2), 0, some ⟨List.replicate 16 7, rfl⟩, some ⟨List.replicate 16 7,
        nonceFromTruncated 2, (process .vp8 [3]).unencryptedBytes,
        (process .vp8 [3]).encryptedBytes⟩⟩ := by
    decide +kernel
  have hlog : sealings (fun call s => (call.generation, s.nonce))
      (run (Sender.step toyAead toyKdf) {} twoFrames).calls =
      [(0, nonceFromTruncated 1), (0, nonceFromTruncated 2)] := by
    decide +kernel
  obtain ⟨hcalls, -, hnodup, -⟩ := calls_since_activation twoFrames [7] hsecret
  obtain ⟨hr, hg, hc, hsealing⟩ := hcalls 2 _ (by decide) (by decide) hget
  rw [hlog] at hnodup
  exact ⟨hsecret, ⟨_, hget, hr, hg, hc, _, rfl, hsealing _ rfl⟩, hlog, hnodup⟩

end Cacophony.SenderNonces
