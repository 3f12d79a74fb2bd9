import Mathlib.Data.Nat.ModEq
import Cacophony.Panics
import Cacophony.Receiver
import Cacophony.SenderNonces

/-!
Generations, as a receiver reads them off a nonce and as a ratchet is asked for them.

A frame carries the lowest byte of its generation. The receiver takes it for the first generation
from its oldest one on that has this byte, which is the right one for `256` generations. The ratchet
derives generations up to the one it is asked for and forgets those that are erased, in any order;
what it answers does not depend on how it came there.
-/

namespace Cacophony.Generations

open Panics Runs Ratchet Receiver SenderNonces

/-! ### Generations of nonces -/

def addChecked (a b : UInt32) : Checked Empty UInt32 := guarded (a.toNat + b.toNat < 2 ^ 32) (a + b)
def mulChecked (a b : UInt32) : Checked Empty UInt32 := guarded (a.toNat * b.toNat < 2 ^ 32) (a * b)

/-- `compute_wrapped_generation` where arithmetic is checked for overflow. -/
def checkedWrappedGeneration (oldest generation : UInt32) : Checked Empty UInt32 := do
  let remainder := oldest % generationWrap
  let factor ← addChecked (oldest / generationWrap) (if generation < remainder then 1 else 0)
  let base ← mulChecked factor generationWrap
  addChecked base generation

lemma addChecked_of {a b : UInt32} (h : a.toNat + b.toNat < 2 ^ 32) :
    addChecked a b = .ok (a + b) := guarded_of h

lemma mulChecked_of {a b : UInt32} (h : a.toNat * b.toNat < 2 ^ 32) :
    mulChecked a b = .ok (a * b) := guarded_of h

/-- The sums and the product, when the last sum fits. -/
lemma checked_of_carry {o v carry : UInt32}
    (h : (o.toNat / 256 + carry.toNat) * 256 + v.toNat < 2 ^ 32) :
    (do
      let factor ← addChecked (o / generationWrap) carry
      let base ← mulChecked factor generationWrap
      addChecked base v) = .ok ((o / generationWrap + carry) * generationWrap + v) := by
  have hbase : (o.toNat / 256 + carry.toNat) * 256 < 2 ^ 32 := Nat.lt_of_le_of_lt (by omega) h
  have hfactor : o.toNat / 256 + carry.toNat < 2 ^ 32 := by omega
  have hwrap : generationWrap.toNat = 256 := rfl
  have hdiv : (o / generationWrap).toNat = o.toNat / 256 := by rw [UInt32.toNat_div, hwrap]
  have hadd : (o / generationWrap + carry).toNat = o.toNat / 256 + carry.toNat := by
    rw [UInt32.toNat_add, hdiv]
    exact Nat.mod_eq_of_lt hfactor
  have hmul : ((o / generationWrap + carry) * generationWrap).toNat =
      (o.toNat / 256 + carry.toNat) * 256 := by
    rw [UInt32.toNat_mul, hadd, hwrap]
    exact Nat.mod_eq_of_lt hbase
  have hproduct : (o / generationWrap + carry).toNat * generationWrap.toNat < 2 ^ 32 := by
    rw [hadd, hwrap]
    exact hbase
  rw [addChecked_of (by rwa [hdiv])]
  change (mulChecked _ _ >>= _) = _
  rw [mulChecked_of hproduct]
  refine addChecked_of ?_
  rw [hmul]
  exact h

section Window

variable {o v : UInt32} (ho : o.toNat + 256 < 2 ^ 32) (hv : v.toNat < 256)

include ho hv

/-- The generation is read without overflow. -/
lemma checkedWrappedGeneration_eq :
    checkedWrappedGeneration o v = .ok (computeWrappedGeneration o v) := by
  refine checked_of_carry ?_
  have hmod : (o % generationWrap).toNat = o.toNat % 256 := by
    rw [UInt32.toNat_mod]
    rfl
  split
  next hlt =>
    rw [UInt32.lt_iff_toNat_lt, hmod] at hlt
    rw [UInt32.toNat_one]
    omega
  · rw [UInt32.toNat_zero]
    omega

/-- The generation read is the only one of the window with its byte. -/
lemma eq_computeWrappedGeneration_iff (g : ℕ) :
    g = (computeWrappedGeneration o v).toNat ↔
      o.toNat ≤ g ∧ g < o.toNat + 256 ∧ g ≡ v.toNat [MOD 256] := by
  rw [toNat_computeWrappedGeneration, Nat.ModEq]
  split <;> omega

end Window

lemma wrappedNonce_ofNat {n : ℕ} (h : n < 2 ^ 56) :
    wrappedNonce (UInt32.ofNat (n / 2 ^ 24)) (UInt32.ofNat n) = n := by
  have hmask : n % 2 ^ 32 &&& (1 <<< 24 - 1) = n % 2 ^ 24 := by
    rw [Nat.shiftLeft_eq, Nat.one_mul, Nat.and_two_pow_sub_one_eq_mod]
    omega
  have hgeneration : (UInt32.ofNat (n / 2 ^ 24)).toNat = n / 2 ^ 24 :=
    UInt32.toNat_ofNat_of_lt' (show n / 2 ^ 24 < 2 ^ 32 by omega)
  rw [wrappedNonce, hgeneration, UInt32.toNat_ofNat', hmask,
    ← Nat.shiftLeft_add_eq_or_of_lt (Nat.mod_lt n (Nat.two_pow_pos 24)), Nat.shiftLeft_eq]
  omega

/-- The top byte of a nonce gives its generation back. -/
lemma toNat_computeWrappedGeneration_topByte {n : ℕ} {o : UInt32} (hold : o.toNat ≤ n / 2 ^ 24)
    (hnew : n / 2 ^ 24 < o.toNat + 256) (hlast : n / 2 ^ 24 + 256 < 2 ^ 32) :
    (computeWrappedGeneration o (UInt32.ofNat n >>> ratchetGenerationShiftBits)).toNat =
      n / 2 ^ 24 := by
  refine ((eq_computeWrappedGeneration_iff (by omega) ?_ _).mpr ⟨hold, hnew, ?_⟩).symm
  · rw [toNat_topByte]
    exact Nat.mod_lt _ (Nat.succ_pos 255)
  · rw [toNat_topByte]
    exact (Nat.mod_modEq _ _).symm

/-- **Nonces are read back.** -/
theorem computeWrappedGeneration_inverts (N : ℕ) (o : UInt32) (hold : o.toNat ≤ N / 2 ^ 24)
    (hnew : N / 2 ^ 24 < o.toNat + 256) (hlast : N / 2 ^ 24 + 256 < 2 ^ 32) :
    (computeWrappedGeneration o (UInt32.ofNat N >>> ratchetGenerationShiftBits)).toNat =
        N / 2 ^ 24 ∧
      wrappedNonce (UInt32.ofNat (N / 2 ^ 24)) (UInt32.ofNat N) = N ∧
      ∀ v : UInt32, v.toNat < 256 →
        checkedWrappedGeneration o v = .ok (computeWrappedGeneration o v) ∧
          ∀ g : ℕ, g = (computeWrappedGeneration o v).toNat ↔
            o.toNat ≤ g ∧ g < o.toNat + 256 ∧ g ≡ v.toNat [MOD 256] := by
  refine ⟨toNat_computeWrappedGeneration_topByte hold hnew hlast, wrappedNonce_ofNat (by omega),
    fun v hv => ⟨checkedWrappedGeneration_eq (by omega) hv,
      eq_computeWrappedGeneration_iff (by omega) hv⟩⟩

theorem computeWrappedGeneration_inverts_carry :
    (computeWrappedGeneration 255
      (UInt32.ofNat (258 * 2 ^ 24 + 7) >>> ratchetGenerationShiftBits)).toNat = 258 :=
  (computeWrappedGeneration_inverts (258 * 2 ^ 24 + 7) 255 (by decide) (by decide) (by decide)).1

/-! ### A ratchet that is asked and told to forget -/

inductive RatchetCall
  | get (generation : UInt32)
  | erase (generation : UInt32)
  deriving DecidableEq

namespace RatchetCall

def generation : RatchetCall → UInt32
  | get g => g
  | erase g => g

def perform (K : Kdf) (r : HashRatchet) : RatchetCall → HashRatchet
  | get g => (r.get K g).2
  | erase g => r.erase g

end RatchetCall

/-- A generation has been derived: it, or a later one, was asked for. -/
def WasDerived (calls : List RatchetCall) (g : UInt32) : Prop :=
  ∃ g', RatchetCall.get g' ∈ calls ∧ g ≤ g'

/-- A generation was erased when it had been derived. -/
def ErasedSince (calls : List RatchetCall) (g : UInt32) : Prop :=
  ∃ earlier later, calls = earlier ++ .erase g :: later ∧ WasDerived earlier g

variable {K : Kdf} {secret : Bytes} {calls : List RatchetCall} {r : HashRatchet} {g x : UInt32}

lemma wasDerived_get : WasDerived (calls ++ [.get g]) x ↔ WasDerived calls x ∨ x ≤ g := by
  constructor
  · rintro ⟨g', hmem, hle⟩
    rcases List.mem_append.mp hmem with hmem | hmem
    · exact .inl ⟨g', hmem, hle⟩
    · cases List.mem_singleton.mp hmem
      exact .inr hle
  · rintro (⟨g', hmem, hle⟩ | hle)
    · exact ⟨g', List.mem_append_left _ hmem, hle⟩
    · exact ⟨g, List.mem_append_right _ List.mem_cons_self, hle⟩

lemma wasDerived_erase : WasDerived (calls ++ [.erase g]) x ↔ WasDerived calls x := by
  simp [WasDerived]

lemma erasedSince_concat {call : RatchetCall} :
    ErasedSince (calls ++ [call]) x ↔
      ErasedSince calls x ∨ call = .erase x ∧ WasDerived calls x := by
  constructor
  · rintro ⟨earlier, later, heq, hderived⟩
    rcases List.eq_nil_or_concat later with rfl | ⟨later, last, rfl⟩
    · obtain ⟨rfl, hcall⟩ := List.append_inj' heq rfl
      exact .inr ⟨List.singleton_injective hcall, hderived⟩
    · rw [List.concat_eq_append, ← List.cons_append, ← List.append_assoc] at heq
      exact .inl ⟨earlier, later, (List.append_inj' heq rfl).1, hderived⟩
  · rintro (⟨earlier, later, rfl, hderived⟩ | ⟨rfl, hderived⟩)
    · exact ⟨earlier, later ++ [call], by simp, hderived⟩
    · exact ⟨calls, [], rfl, hderived⟩

/-- A ratchet has derived and forgotten what the calls say. -/
structure Follows (K : Kdf) (secret : Bytes) (calls : List RatchetCall) (r : HashRatchet) :
    Prop where
  erased : Erased K secret {g | ErasedSince calls g} r.nextGeneration.toNat r
  derived : ∀ g, WasDerived calls g ↔ g < r.nextGeneration

lemma follows_new (K : Kdf) (secret : Bytes) : Follows K secret [] (.new secret) where
  erased := by
    have hnone : {g | ErasedSince [] g} = ∅ := by
      ext g
      simp [ErasedSince]
    rw [hnone]
    exact erased_new
  derived g := by
    have hlt : ¬ g < (HashRatchet.new secret).nextGeneration := UInt32.not_lt.mpr UInt32.zero_le
    simpa only [WasDerived, List.not_mem_nil, false_and, exists_false, false_iff] using hlt

/-- A generation that was erased is refused. -/
lemma get_erased {E : Set UInt32} {k : ℕ} (h : Erased K secret E k r) (hg : g ∈ E) :
    r.get K g = (some (.error .deriveSecret), r) := by
  have hnone : r.cache g = none := h.absent g fun _ => hg
  have hlt : g < r.nextGeneration := by
    rw [UInt32.lt_iff_toNat_lt, h.generation]
    exact h.erased_lt g hg
  simp [HashRatchet.get, hnone, hlt]

/-- What has not been derived is not in the cache either. -/
lemma erase_of_le {E : Set UInt32} {k : ℕ} (h : Erased K secret E k r) (hg : k ≤ g.toNat) :
    r.erase g = r := by
  have hnone : r.cache g = none := h.absent g fun hlt => absurd hlt (Nat.not_lt.mpr hg)
  rw [HashRatchet.erase, ← hnone, Function.update_eq_self]

lemma Follows.get (h : Follows K secret calls r) (hg : g.toNat + 1 < 2 ^ 32) :
    Follows K secret (calls ++ [.get g]) (r.get K g).2 := by
  have hsame : {x | ErasedSince (calls ++ [.get g]) x} = {x | ErasedSince calls x} := by
    ext x
    simp [erasedSince_concat]
  by_cases hE : ErasedSince calls g
  · rw [get_erased h.erased hE]
    refine ⟨hsame ▸ h.erased, fun x => ?_⟩
    have hlt : g < r.nextGeneration := UInt32.lt_iff_toNat_lt.mpr (h.erased.erased_lt g hE)
    rw [wasDerived_get, h.derived]
    exact ⟨fun hx => hx.elim id fun hle => UInt32.lt_of_le_of_lt hle hlt, .inl⟩
  · obtain ⟨r', hget, hr'⟩ := h.erased.get hg hE
    rw [hget]
    dsimp only
    have hgeneration := hr'.generation
    refine ⟨hsame ▸ hgeneration ▸ hr', fun x => ?_⟩
    rw [wasDerived_get, h.derived, UInt32.lt_iff_toNat_lt, UInt32.lt_iff_toNat_lt,
      UInt32.le_iff_toNat_le, hgeneration]
    omega

lemma Follows.erase (h : Follows K secret calls r) (g : UInt32) :
    Follows K secret (calls ++ [.erase g]) (r.erase g) := by
  refine ⟨?_, fun x => wasDerived_erase.trans (h.derived x)⟩
  by_cases hlt : g < r.nextGeneration
  · have hset : {x | ErasedSince (calls ++ [.erase g]) x} =
        insert g {x | ErasedSince calls x} := by
      ext x
      simp only [erasedSince_concat, RatchetCall.erase.injEq, Set.mem_ofPred_eq, Set.mem_insert_iff]
      rw [or_comm]
      refine or_congr_left ⟨fun hx => hx.1.symm, ?_⟩
      rintro rfl
      exact ⟨rfl, (h.derived x).mpr hlt⟩
    rw [hset]
    exact h.erased.erase (UInt32.lt_iff_toNat_lt.mp hlt)
  · have hset : {x | ErasedSince (calls ++ [.erase g]) x} = {x | ErasedSince calls x} := by
      ext x
      simp only [erasedSince_concat, RatchetCall.erase.injEq, Set.mem_ofPred_eq]
      refine or_iff_left ?_
      rintro ⟨rfl, hderived⟩
      exact hlt ((h.derived g).mp hderived)
    rw [hset, erase_of_le h.erased (Nat.not_lt.mp fun hx => hlt (UInt32.lt_iff_toNat_lt.mpr hx))]
    exact h.erased

/-- Calls are followed, whatever their order. -/
lemma follows_run (K : Kdf) (secret : Bytes) {calls : List RatchetCall}
    (h : ∀ call ∈ calls, call.generation.toNat < 2 ^ 32 - 1) :
    Follows K secret calls (run (RatchetCall.perform K) (.new secret) calls) := by
  induction calls using List.reverseRecOn with
  | nil => exact follows_new K secret
  | append_singleton calls call ih =>
    rw [run_append]
    have hcalls := ih fun c hc => h c (List.mem_append_left _ hc)
    have hcall := h call (List.mem_append_right _ List.mem_cons_self)
    cases call with
    | get g => exact hcalls.get (by change g.toNat < _ at hcall; omega)
    | erase g => exact hcalls.erase g

/-- **What a ratchet answers.** -/
theorem get_history (K : Kdf) (secret : Bytes) (calls : List RatchetCall)
    (hcalls : ∀ call ∈ calls, call.generation.toNat < 2 ^ 32 - 1) :
    (run (RatchetCall.perform K) (.new secret) calls).nextSecret =
        chainSecret K secret
          (run (RatchetCall.perform K) (.new secret) calls).nextGeneration.toNat ∧
      ∀ g : UInt32, g.toNat < 2 ^ 32 - 1 →
        ∃ answer r', (run (RatchetCall.perform K) (.new secret) calls).get K g =
            (some answer, r') ∧
          (WasDerived calls g ↔
            g < (run (RatchetCall.perform K) (.new secret) calls).nextGeneration) ∧
          ((∃ secrets, answer = .ok secrets) ↔
            ¬ WasDerived calls g ∨ WasDerived calls g ∧ ¬ ErasedSince calls g) ∧
          ∀ secrets, answer = .ok secrets → secrets = ratchetSecrets K secret g.toNat := by
  have hfollows := follows_run K secret hcalls
  refine ⟨hfollows.erased.secret_eq, fun g hg => ?_⟩
  by_cases hE : ErasedSince calls g
  · refine ⟨_, _, get_erased hfollows.erased hE, hfollows.derived g, ?_, nofun⟩
    have hderived : WasDerived calls g :=
      (hfollows.derived g).mpr (UInt32.lt_iff_toNat_lt.mpr (hfollows.erased.erased_lt g hE))
    simp [hderived, hE]
  · obtain ⟨r', hget, -⟩ := hfollows.erased.get (by omega) hE
    refine ⟨_, r', hget, hfollows.derived g, ?_, fun secrets h => (Except.ok.inj h).symm⟩
    simp only [Except.ok.injEq, exists_eq', true_iff, hE, not_false_eq_true, and_true]
    exact (em _).symm

theorem get_history_erased : ∃ answer r',
    (run (RatchetCall.perform toyKdf) (.new [1]) [.get 2, .erase 1]).get toyKdf 0 =
        (some answer, r') ∧ ∃ secrets, answer = .ok secrets := by
  obtain ⟨answer, r', hget, -, hok, -⟩ :=
    (get_history toyKdf [1] [.get 2, .erase 1] (by decide)).2 0 (by decide)
  refine ⟨answer, r', hget, hok.mpr (.inr ⟨⟨2, by decide, by decide⟩, ?_⟩)⟩
  rintro ⟨earlier, later, heq, -⟩
  have hmem : RatchetCall.erase 0 ∈ earlier ++ .erase 0 :: later := by simp
  exact absurd (heq ▸ hmem) (by decide)

end Cacophony.Generations
