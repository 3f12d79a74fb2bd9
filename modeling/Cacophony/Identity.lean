import Cacophony.RtpsizeRoundTrip
import Mathlib.Data.Sym.Sym2

/-!
What two users compare to be sure of each other, `identity.rs`.

The fingerprint of two identities is the hash of a passphrase, which is the inputs of the two one
behind the other, the smaller one first. Nothing in it says where the first input ends, so keys of
different lengths could be confused; with keys of one length the passphrase gives the pair back.
-/

namespace Cacophony.Identity

open RtpsizeRoundTrip

structure IdentityPublicKey where
  userId : UInt64
  publicKey : Bytes
  deriving DecidableEq

inductive FingerprintError
  | invalidScryptParams
  | invalidOutputLength
  deriving DecidableEq

/-- The `scrypt` crate: its parameters, and the hash that fills an output of some length. -/
structure Scrypt (π : Type) where
  params : (logN : UInt8) → (r p : UInt32) → Option π
  scrypt : (password salt : Bytes) → π → (n : ℕ) → Option { output : Bytes // output.length = n }

def pairwiseFingerprintBytes : ℕ := 64

def pairwiseFingerprintVersion : Bytes := [0, 0]

def pairwiseFingerprintSalt : Bytes :=
  [0x24, 0xca, 0xb1, 0x7a, 0x7a, 0xf8, 0xec, 0x2b, 0x82, 0xb4, 0x12, 0xb9, 0x2d, 0xab, 0x19, 0x2e]

/-! ### Fingerprints -/

def pairwiseFingerprintInput (identity : IdentityPublicKey) : Bytes :=
  pairwiseFingerprintVersion ++ identity.publicKey ++ u64Be identity.userId.toNat

/-- Two byte strings, swapped if the second is smaller. -/
def inOrder (x y : Bytes) : Bytes × Bytes := if y < x then (y, x) else (x, y)

/-- The passphrase of `pairwise_fingerprint`. -/
def passphrase (ours theirs : IdentityPublicKey) : Bytes :=
  let inputs := inOrder (pairwiseFingerprintInput ours) (pairwiseFingerprintInput theirs)
  inputs.1 ++ inputs.2

def pairwiseFingerprint {π : Type} (S : Scrypt π) (ours theirs : IdentityPublicKey) :
    Except FingerprintError { output : Bytes // output.length = pairwiseFingerprintBytes } :=
  match S.params 14 8 2 with
  | none => .error .invalidScryptParams
  | some params =>
    (S.scrypt (passphrase ours theirs) pairwiseFingerprintSalt params
      pairwiseFingerprintBytes).elim (.error .invalidOutputLength) .ok

lemma inOrder_comm (x y : Bytes) : inOrder x y = inOrder y x := by
  unfold inOrder
  by_cases hyx : y < x
  · rw [if_pos hyx, if_neg (List.lt_asymm hyx)]
  · by_cases hxy : x < y
    · rw [if_neg hyx, if_pos hxy]
    · have heq : x = y := List.le_antisymm hyx hxy
      rw [if_neg hyx, if_neg hxy, heq]

lemma mk_inOrder (x y : Bytes) : s((inOrder x y).1, (inOrder x y).2) = s(x, y) := by
  unfold inOrder
  split
  · exact Sym2.eq_swap
  · rfl

lemma u32Be_inj {m n : ℕ} (h : u32Be m = u32Be n) : m % 2 ^ 32 = n % 2 ^ 32 := by
  rw [← ofBe_u32Be, h, ofBe_u32Be]

lemma u64Be_inj {m n : UInt64} (h : u64Be m.toNat = u64Be n.toNat) : m = n := by
  obtain ⟨hhigh, hlow⟩ := List.append_inj h rfl
  have hhigh := u32Be_inj hhigh
  have hlow := u32Be_inj hlow
  have hm := m.toNat_lt
  have hn := n.toNat_lt
  exact UInt64.toNat_inj.mp (by omega)

lemma length_pairwiseFingerprintInput (identity : IdentityPublicKey) :
    (pairwiseFingerprintInput identity).length = identity.publicKey.length + 10 := by
  simp [pairwiseFingerprintInput, pairwiseFingerprintVersion, u64Be, u32Be]

lemma pairwiseFingerprintInput_inj {a b : IdentityPublicKey}
    (hlength : a.publicKey.length = b.publicKey.length)
    (h : pairwiseFingerprintInput a = pairwiseFingerprintInput b) : a = b := by
  have hkeys : (pairwiseFingerprintVersion ++ a.publicKey).length =
      (pairwiseFingerprintVersion ++ b.publicKey).length := by
    rw [List.length_append, List.length_append, hlength]
  obtain ⟨hkey, huser⟩ := List.append_inj h hkeys
  cases a
  cases b
  rw [IdentityPublicKey.mk.injEq]
  exact ⟨u64Be_inj huser, List.append_cancel_left hkey⟩

lemma passphrase_comm (a b : IdentityPublicKey) : passphrase a b = passphrase b a := by
  rw [passphrase, passphrase, inOrder_comm]

section Lengths

variable {n : ℕ} {a b c d : IdentityPublicKey}
  (h : ∀ i ∈ [a, b, c, d], i.publicKey.length = n)

include h

/-- The smaller input is as long as any. -/
lemma length_inOrder {x y : IdentityPublicKey} (hx : x ∈ [a, b, c, d]) (hy : y ∈ [a, b, c, d]) :
    (inOrder (pairwiseFingerprintInput x) (pairwiseFingerprintInput y)).1.length = n + 10 := by
  unfold inOrder
  split
  · rw [length_pairwiseFingerprintInput, h y hy]
  · rw [length_pairwiseFingerprintInput, h x hx]

/-- Keys of one length are found again in the passphrase. -/
lemma passphrase_inj (heq : passphrase a b = passphrase c d) : s(a, b) = s(c, d) := by
  have hfirst := length_inOrder h (x := a) (y := b) (by simp) (by simp)
  have hsecond := length_inOrder h (x := c) (y := d) (by simp) (by simp)
  obtain ⟨hlow, hhigh⟩ := List.append_inj heq (hfirst.trans hsecond.symm)
  have hinputs : s(pairwiseFingerprintInput a, pairwiseFingerprintInput b) =
      s(pairwiseFingerprintInput c, pairwiseFingerprintInput d) := by
    rw [← mk_inOrder, hlow, hhigh, mk_inOrder]
  have hsame {x y : IdentityPublicKey} (hx : x ∈ [a, b, c, d]) (hy : y ∈ [a, b, c, d])
      (hxy : pairwiseFingerprintInput x = pairwiseFingerprintInput y) : x = y :=
    pairwiseFingerprintInput_inj ((h x hx).trans (h y hy).symm) hxy
  rcases Sym2.eq_iff.mp hinputs with ⟨hac, hbd⟩ | ⟨had, hbc⟩
  · rw [hsame (by simp) (by simp) hac, hsame (by simp) (by simp) hbd]
  · rw [hsame (by simp) (by simp) had, hsame (by simp) (by simp) hbc, Sym2.eq_swap]

end Lengths

lemma pairwiseFingerprint_ok {π : Type} {S : Scrypt π} {a b : IdentityPublicKey}
    {output : { output : Bytes // output.length = pairwiseFingerprintBytes }}
    (h : pairwiseFingerprint S a b = .ok output) :
    ∃ params, S.params 14 8 2 = some params ∧
      S.scrypt (passphrase a b) pairwiseFingerprintSalt params pairwiseFingerprintBytes =
        some output := by
  unfold pairwiseFingerprint at h
  split at h
  · cases h
  next params hparams =>
    refine ⟨params, hparams, ?_⟩
    cases hscrypt : S.scrypt (passphrase a b) pairwiseFingerprintSalt params
        pairwiseFingerprintBytes with
    | none =>
      rw [hscrypt] at h
      cases h
    | some output' =>
      rw [hscrypt] at h
      cases h
      rfl

/-- **The fingerprint of two identities.** -/
theorem passphrase_unordered {π : Type} (S : Scrypt π) (a b : IdentityPublicKey) :
    passphrase a b = passphrase b a ∧ pairwiseFingerprint S a b = pairwiseFingerprint S b a ∧
      ∀ (n : ℕ) (c d : IdentityPublicKey), (∀ i ∈ [a, b, c, d], i.publicKey.length = n) →
        (passphrase a b = passphrase c d → s(a, b) = s(c, d)) ∧
          ∀ output, pairwiseFingerprint S a b = .ok output →
            pairwiseFingerprint S c d = .ok output → s(a, b) = s(c, d) ∨
              ∃ params password password', password ≠ password' ∧
                S.scrypt password pairwiseFingerprintSalt params pairwiseFingerprintBytes =
                  some output ∧
                S.scrypt password' pairwiseFingerprintSalt params pairwiseFingerprintBytes =
                  some output := by
  refine ⟨passphrase_comm a b, ?_, fun n c d h => ⟨passphrase_inj h, ?_⟩⟩
  · unfold pairwiseFingerprint
    rw [passphrase_comm]
  · intro output hab hcd
    obtain ⟨params, hparams, hab⟩ := pairwiseFingerprint_ok hab
    obtain ⟨params', hparams', hcd⟩ := pairwiseFingerprint_ok hcd
    obtain rfl : params = params' := Option.some_injective _ (hparams.symm.trans hparams')
    by_cases heq : passphrase a b = passphrase c d
    · exact .inl (passphrase_inj h heq)
    · exact .inr ⟨params, _, _, heq, hab, hcd⟩

def alice : IdentityPublicKey := ⟨1, [1, 2, 3]⟩
def bob : IdentityPublicKey := ⟨2, [4, 5, 6]⟩

/-- A hash under which everything collides. -/
def constantScrypt : Scrypt Unit where
  params _ _ _ := some ()
  scrypt _ _ _ n := some ⟨List.replicate n 0, List.length_replicate⟩

theorem passphrase_alice_bob :
    passphrase alice bob = passphrase bob alice ∧ passphrase alice bob ≠ passphrase bob bob := by
  obtain ⟨hswap, -, hpairs⟩ := passphrase_unordered constantScrypt alice bob
  obtain ⟨hsame, -⟩ := hpairs 3 bob bob (by decide)
  refine ⟨hswap, fun heq => ?_⟩
  have hpair : alice = bob := by simpa using hsame heq
  exact absurd hpair (by decide)

/-- Where the keys may be of different lengths, the end of one can be taken for the start of the
next. -/
example : passphrase ⟨0, [0, 0, 0, 0, 0, 0, 0, 0, 0, 0, 0]⟩ ⟨0, []⟩ =
    passphrase ⟨0, [0]⟩ ⟨0, [0, 0, 0, 0, 0, 0, 0, 0, 0, 0]⟩ := by decide +kernel

end Cacophony.Identity
