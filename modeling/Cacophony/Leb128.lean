import Mathlib.Data.FinEnum
import Mathlib.Tactic.Ring
import Cacophony.Basic

/-!
Unsigned LEB128 numbers, `leb128.rs`: seven bits a byte, the lowest first, and the top bit set
on every byte but the last.

`encode` is the byte string the writer produces and the reader is proved against; the functions
of the source write into a buffer and read from a slice.
-/

namespace Cacophony.Leb128

/-! ### The functions of the source -/

namespace Uleb128

def encodedLen (value : ℕ) : ℕ :=
  if 0x80 ≤ value then encodedLen (value >>> 7) + 1 else 1
termination_by value
decreasing_by simp only [Nat.shiftRight_eq_div_pow]; omega

/-- The bytes land at the front of `output`; the rest of it stays. `none` when it is too
short. -/
def writeTo (value : ℕ) : Bytes → Option (Bytes × ℕ)
  | [] => none
  | _ :: output =>
    let byte := UInt8.ofNat (value &&& 0x7f)
    let value := value >>> 7
    if value = 0 then some (byte :: output, 1)
    else (writeTo value output).map fun (output, written) =>
      ((byte ||| 0x80) :: output, written + 1)

end Uleb128

namespace DecodedUleb128

/-- The loop of `read`, at byte `index` with the bits below it in `value`. -/
def readFrom (index value : ℕ) : Bytes → Option (ℕ × ℕ)
  | [] => none
  | byte :: input =>
    if index = 9 then
      if 1 < byte then none else some (value ||| (byte.toNat <<< 63), index + 1)
    else
      let value := value ||| ((byte &&& 0x7f).toNat <<< (index * 7))
      if byte &&& 0x80 = 0 then some (value, index + 1) else readFrom (index + 1) value input

/-- The value, and the number of bytes it takes. -/
def read (input : Bytes) : Option (ℕ × ℕ) := readFrom 0 0 input

end DecodedUleb128

variable {v n : ℕ} {input : Bytes}

lemma readFrom_len {index value : ℕ} {input : Bytes}
    (h : DecodedUleb128.readFrom index value input = some (v, n)) :
    index < n ∧ n ≤ index + input.length := by
  induction input generalizing index value with
  | nil => simp [DecodedUleb128.readFrom] at h
  | cons b input ih =>
    simp only [DecodedUleb128.readFrom] at h
    split at h
    · split at h
      · simp at h
      · simp only [Option.some.injEq, Prod.mk.injEq] at h
        simp only [List.length_cons]
        omega
    · split at h
      · simp only [Option.some.injEq, Prod.mk.injEq] at h
        simp only [List.length_cons]
        omega
      · have := ih h
        simp only [List.length_cons]
        omega

lemma read_len (h : DecodedUleb128.read input = some (v, n)) : 0 < n ∧ n ≤ input.length := by
  simpa using readFrom_len h

/-! ### The byte string of a number -/

def encode (value : ℕ) : Bytes :=
  if value < 0x80 then [UInt8.ofNat value]
  else (UInt8.ofNat (value % 0x80) ||| 0x80) :: encode (value / 0x80)
termination_by value

lemma encode_of_lt (h : v < 0x80) : encode v = [UInt8.ofNat v] := by
  rw [encode, if_pos h]

lemma encode_of_ge (h : 0x80 ≤ v) :
    encode v = (UInt8.ofNat (v % 0x80) ||| 0x80) :: encode (v / 0x80) := by
  rw [encode, if_neg (by omega)]

lemma encode_ne_nil (v : ℕ) : encode v ≠ [] := by
  rcases Nat.lt_or_ge v 0x80 with h | h
  · simp [encode_of_lt h]
  · simp [encode_of_ge h]

lemma encodedLen_eq (v : ℕ) : Uleb128.encodedLen v = (encode v).length := by
  induction v using Nat.strong_induction_on with
  | _ v ih =>
    rw [Uleb128.encodedLen, Nat.shiftRight_eq_div_pow]
    split
    next h => rw [ih _ (by omega), encode_of_ge h]; rfl
    next h => rw [encode_of_lt (by omega)]; rfl

/-- The writer writes `encode`, if there is room. -/
theorem writeTo_eq (v : ℕ) (output : Bytes) : Uleb128.writeTo v output =
    if (encode v).length ≤ output.length then
      some (encode v ++ output.drop (encode v).length, (encode v).length)
    else none := by
  induction output generalizing v with
  | nil => simp [Uleb128.writeTo, encode_ne_nil]
  | cons b output ih =>
    have hand : v &&& 0x7f = v % 0x80 := Nat.and_two_pow_sub_one_eq_mod v 7
    have hshift : v >>> 7 = v / 0x80 := Nat.shiftRight_eq_div_pow v 7
    simp only [Uleb128.writeTo, hand, hshift]
    rcases Nat.lt_or_ge v 0x80 with h | h
    · simp [Nat.div_eq_of_lt h, Nat.mod_eq_of_lt h, encode_of_lt h]
    · rw [if_neg (by omega), ih, encode_of_ge h]
      simp only [List.length_cons, Nat.add_le_add_iff_right]
      split <;> simp

/-! ### Reading it back -/

lemma low_byte (b : UInt8) (h : b < 0x80) : b &&& 0x7f = b ∧ b &&& 0x80 = 0 := by
  revert b
  decide +kernel

lemma and_low_lt (b : UInt8) : b &&& 0x7f < 0x80 := by
  revert b
  decide +kernel

lemma high_byte (b : UInt8) (h : b < 0x80) :
    (b ||| 0x80) &&& 0x7f = b ∧ (b ||| 0x80) &&& 0x80 ≠ 0 := by
  revert b
  decide +kernel

lemma ofNat_low (h : v < 0x80) : UInt8.ofNat v < 0x80 ∧ (UInt8.ofNat v).toNat = v := by
  have hv : (UInt8.ofNat v).toNat = v :=
    UInt8.toNat_ofNat_of_lt' (show v < 256 by omega)
  exact ⟨UInt8.lt_iff_toNat_lt.mpr (by rw [hv]; exact h), hv⟩

lemma pow_seven_succ (k : ℕ) : 2 ^ ((k + 1) * 7) = 0x80 * 2 ^ (k * 7) := by
  rw [Nat.add_mul, Nat.pow_add, Nat.mul_comm]

/-- Adding bits above the ones that are there. -/
lemma or_shiftLeft {acc k : ℕ} (h : acc < 2 ^ k) (x : ℕ) : acc ||| (x <<< k) = acc + x * 2 ^ k := by
  rw [Nat.or_comm, ← Nat.shiftLeft_add_eq_or_of_lt h, Nat.shiftLeft_eq, Nat.add_comm]

/-- Nine bytes carry seven bits each, and the tenth the last one. -/
lemma readFrom_encode {index acc : ℕ} (rest : Bytes) (hi : index ≤ 9) (hacc : acc < 2 ^ (index * 7))
    (hv : v * 2 ^ (index * 7) < 2 ^ 64) :
    DecodedUleb128.readFrom index acc (encode v ++ rest) =
      some (acc + v * 2 ^ (index * 7), index + (encode v).length) := by
  induction v using Nat.strong_induction_on generalizing index acc with
  | _ v ih =>
    by_cases h9 : index = 9
    · subst h9
      have hv1 : v ≤ 1 := by omega
      obtain ⟨-, hto⟩ := ofNat_low (show v < 0x80 by omega)
      have hbyte : ¬ 1 < UInt8.ofNat v := by
        rw [UInt8.lt_iff_toNat_lt, hto]
        exact Nat.not_lt.mpr hv1
      rw [encode_of_lt (by omega)]
      simp only [List.cons_append, DecodedUleb128.readFrom, if_true, hbyte, if_false, hto]
      rw [or_shiftLeft hacc]
      rfl
    rcases Nat.lt_or_ge v 0x80 with h | h
    · obtain ⟨hlt, hto⟩ := ofNat_low h
      obtain ⟨hand, htop⟩ := low_byte _ hlt
      rw [encode_of_lt h]
      simp only [List.cons_append, DecodedUleb128.readFrom, h9, if_false, hand, htop, if_true, hto]
      rw [or_shiftLeft hacc]
      rfl
    · obtain ⟨hlt, hto⟩ := ofNat_low (Nat.mod_lt v (show 0 < 0x80 by norm_num))
      obtain ⟨hand, htop⟩ := high_byte _ hlt
      rw [encode_of_ge h]
      simp only [List.cons_append, DecodedUleb128.readFrom, h9, if_false, hand, htop, hto]
      rw [or_shiftLeft hacc]
      have hpow := pow_seven_succ index
      have hdiv : v = v % 0x80 + 0x80 * (v / 0x80) := (Nat.mod_add_div v 0x80).symm
      have hsum : v % 0x80 * 2 ^ (index * 7) + v / 0x80 * 2 ^ ((index + 1) * 7) =
          v * 2 ^ (index * 7) := by
        rw [hpow]
        conv_rhs => rw [hdiv]
        ring
      have hmod : v % 0x80 * 2 ^ (index * 7) ≤ 0x7f * 2 ^ (index * 7) :=
        Nat.mul_le_mul_right _ (by omega)
      rw [ih (v / 0x80) (by omega) (by omega) (by omega) (by omega)]
      simp only [List.length_cons, Option.some.injEq, Prod.mk.injEq]
      exact ⟨by omega, by omega⟩

/-- **The reader inverts the writer**, on every number of 64 bits. -/
theorem read_encode (h : v < 2 ^ 64) (rest : Bytes) :
    DecodedUleb128.read (encode v ++ rest) = some (v, (encode v).length) := by
  have h0 := readFrom_encode rest (Nat.zero_le 9) (show 0 < 2 ^ (0 * 7) by norm_num) (v := v)
    (by simpa using h)
  simpa [DecodedUleb128.read] using h0

/-! ### The writer is never longer than what was read -/

lemma length_encode_le {k : ℕ} (hk : 0 < k) (h : v < 2 ^ (k * 7)) : (encode v).length ≤ k := by
  induction k generalizing v with
  | zero => omega
  | succ k ih =>
    rcases Nat.lt_or_ge v 0x80 with hv | hv
    · rw [encode_of_lt hv]
      simp
    · have hpow : 2 ^ ((k + 1) * 7) = 2 ^ (k * 7) * 0x80 := by rw [Nat.add_mul, Nat.pow_add]
      have hdiv : v / 0x80 < 2 ^ (k * 7) := by
        rw [Nat.div_lt_iff_lt_mul (by norm_num), ← hpow]
        exact h
      have hk0 : 0 < k := by
        rcases Nat.eq_zero_or_pos k with rfl | hk0
        · simp at h; omega
        · exact hk0
      rw [encode_of_ge hv, List.length_cons]
      exact Nat.succ_le_succ (ih hk0 hdiv)

/-- Seven more bits. -/
lemma add_low_lt (b : UInt8) {index acc : ℕ} (hacc : acc < 2 ^ (index * 7)) :
    acc + (b &&& 0x7f).toNat * 2 ^ (index * 7) < 2 ^ ((index + 1) * 7) := by
  have hpow := pow_seven_succ index
  have hb : (b &&& 0x7f).toNat < 0x80 := UInt8.lt_iff_toNat_lt.mp (and_low_lt b)
  have hmul : (b &&& 0x7f).toNat * 2 ^ (index * 7) ≤ 0x7f * 2 ^ (index * 7) :=
    Nat.mul_le_mul_right _ (by omega)
  omega

lemma readFrom_lt {index value v : ℕ} (hi : index ≤ 9) (hvalue : value < 2 ^ (index * 7))
    (h : DecodedUleb128.readFrom index value input = some (v, n)) :
    v < 2 ^ (n * 7) ∧ v < 2 ^ 64 := by
  induction input generalizing index value with
  | nil => simp [DecodedUleb128.readFrom] at h
  | cons b input ih =>
    have hnew : value ||| ((b &&& 0x7f).toNat <<< (index * 7)) < 2 ^ ((index + 1) * 7) := by
      rw [or_shiftLeft hvalue]
      exact add_low_lt b hvalue
    simp only [DecodedUleb128.readFrom] at h
    split at h
    next h9 =>
      subst h9
      split at h
      · cases h
      next hbyte =>
        simp only [Option.some.injEq, Prod.mk.injEq] at h
        obtain ⟨rfl, rfl⟩ := h
        have hb1 : b.toNat ≤ 1 := by
          have := mt UInt8.lt_iff_toNat_lt.mpr hbyte
          simpa using this
        rw [or_shiftLeft hvalue]
        omega
    next h9 =>
      split at h
      · simp only [Option.some.injEq, Prod.mk.injEq] at h
        obtain ⟨rfl, rfl⟩ := h
        have hpow_le : 2 ^ ((index + 1) * 7) ≤ 2 ^ 64 :=
          Nat.pow_le_pow_right (by norm_num) (by omega)
        exact ⟨hnew, hnew.trans_le hpow_le⟩
      · exact ih (by omega) hnew h

/-- A number is never written with more bytes than it was read from. -/
theorem length_encode_le_of_read (h : DecodedUleb128.read input = some (v, n)) :
    (encode v).length ≤ n :=
  length_encode_le (read_len h).1 (readFrom_lt (by omega) (by norm_num) h).1

lemma read_lt (h : DecodedUleb128.read input = some (v, n)) : v < 2 ^ 64 :=
  (readFrom_lt (by omega) (by norm_num) h).2

end Cacophony.Leb128
