import Cacophony.Leb128

/-!
LEB128 on words of 64 bits, `leb128.rs`.

`Leb128` computes with numbers, on which no shift loses a bit. Here the functions are written on
the words of the source and do the same. What the reader accepts is then said without it: a part
of the input of at most ten bytes whose top bits mark its end, with a number that fits a word. The
part need not be the shortest for its number.
-/

namespace Cacophony.Leb128Words

open Leb128

/-! ### The functions of the source -/

lemma toNat_shiftRight_seven (v : UInt64) : (v >>> 7).toNat = v.toNat >>> 7 := by
  rw [UInt64.toNat_shiftRight]
  rfl

def encodedLen (value : UInt64) : ℕ :=
  if 0x80 ≤ value then encodedLen (value >>> 7) + 1 else 1
termination_by value.toNat
decreasing_by
  have h : 0x80 ≤ value.toNat := UInt64.le_iff_toNat_le.mp ‹0x80 ≤ value›
  rw [toNat_shiftRight_seven, Nat.shiftRight_eq_div_pow]
  omega

def writeTo (value : UInt64) : Bytes → Option (Bytes × ℕ)
  | [] => none
  | _ :: output =>
    let byte := (value &&& 0x7f).toUInt8
    let value := value >>> 7
    if value = 0 then some (byte :: output, 1)
    else (writeTo value output).map fun (output, written) =>
      ((byte ||| 0x80) :: output, written + 1)

/-- The loop of `read`: a shift drops the bits that leave the word. -/
def readFrom (index : ℕ) (value : UInt64) : Bytes → Option (UInt64 × ℕ)
  | [] => none
  | byte :: input =>
    if index = 9 then
      if 1 < byte then none else some (value ||| (byte.toUInt64 <<< 63), index + 1)
    else
      let value := value ||| ((byte &&& 0x7f).toUInt64 <<< UInt64.ofNat (index * 7))
      if byte &&& 0x80 = 0 then some (value, index + 1) else readFrom (index + 1) value input

def read (input : Bytes) : Option (UInt64 × ℕ) := readFrom 0 0 input

/-! ### Words and numbers -/

lemma encodedLen_toNat (v : UInt64) : encodedLen v = Uleb128.encodedLen v.toNat := by
  fun_induction encodedLen v with
  | case1 v h ih =>
    have hle : 0x80 ≤ v.toNat := UInt64.le_iff_toNat_le.mp h
    rw [Uleb128.encodedLen, if_pos hle, ih, toNat_shiftRight_seven]
  | case2 v h =>
    have hlt : ¬ 0x80 ≤ v.toNat := fun hle => h (UInt64.le_iff_toNat_le.mpr hle)
    rw [Uleb128.encodedLen, if_neg hlt]

lemma toUInt8_low (v : UInt64) : (v &&& 0x7f).toUInt8 = UInt8.ofNat (v.toNat &&& 0x7f) := by
  apply UInt8.toNat_inj.mp
  rw [UInt64.toNat_toUInt8, UInt8.toNat_ofNat', UInt64.toNat_and]
  rfl

lemma writeTo_toNat (v : UInt64) (output : Bytes) :
    writeTo v output = Uleb128.writeTo v.toNat output := by
  induction output generalizing v with
  | nil => rfl
  | cons b output ih =>
    have hzero : v >>> 7 = 0 ↔ v.toNat >>> 7 = 0 := by
      rw [← UInt64.toNat_inj, toNat_shiftRight_seven]
      rfl
    simp only [writeTo, Uleb128.writeTo, ih, toUInt8_low, toNat_shiftRight_seven, hzero]

/-- A shift that keeps every bit in the word. -/
lemma toNat_or_shiftLeft {acc x : UInt64} {k : ℕ} (hk : k < 64) (hacc : acc.toNat < 2 ^ k)
    (hx : x.toNat * 2 ^ k < 2 ^ 64) :
    (acc ||| (x <<< UInt64.ofNat k)).toNat = acc.toNat + x.toNat * 2 ^ k := by
  have hmod : (UInt64.ofNat k).toNat % 64 = k := by
    rw [UInt64.toNat_ofNat']
    omega
  have hfits : x.toNat <<< k < 2 ^ 64 := by rwa [Nat.shiftLeft_eq]
  rw [UInt64.toNat_or, UInt64.toNat_shiftLeft, hmod, Nat.mod_eq_of_lt hfits, or_shiftLeft hacc]

variable {index : ℕ} {b : UInt8}

/-- The bytes before the tenth stay in the word. -/
lemma pow_le_of_lt (hi : index < 9) : 2 ^ ((index + 1) * 7) ≤ 2 ^ 63 :=
  Nat.pow_le_pow_right (by norm_num) (by omega)

/-! ### What the reader accepts -/

/-- The top bit is set on every byte but the last. -/
def Terminated (bytes : Bytes) : Prop :=
  ∃ init last, bytes = init ++ [last] ∧ (∀ b ∈ init, b &&& 0x80 ≠ 0) ∧ last &&& 0x80 = 0

/-- The number in the low seven bits of the bytes, the lowest first. -/
def number : Bytes → ℕ
  | [] => 0
  | b :: bytes => (b &&& 0x7f).toNat + 0x80 * number bytes

lemma not_terminated_nil : ¬ Terminated [] := by
  rintro ⟨init, last, h, -, -⟩
  simp at h

lemma terminated_cons {bytes : Bytes} : Terminated (b :: bytes) ↔
    (b &&& 0x80 = 0 ∧ bytes = []) ∨ (b &&& 0x80 ≠ 0 ∧ Terminated bytes) := by
  constructor
  · rintro ⟨init, last, h, hinit, hlast⟩
    cases init with
    | nil =>
      obtain ⟨rfl, rfl⟩ := List.cons.inj h
      exact .inl ⟨hlast, rfl⟩
    | cons c init =>
      obtain ⟨rfl, rfl⟩ := List.cons.inj h
      obtain ⟨hc, hinit⟩ := List.forall_mem_cons.mp hinit
      exact .inr ⟨hc, init, last, rfl, hinit, hlast⟩
  · rintro (⟨h, rfl⟩ | ⟨h, init, last, rfl, hinit, hlast⟩)
    · exact ⟨[], b, rfl, by simp, h⟩
    · exact ⟨b :: init, last, rfl, List.forall_mem_cons.mpr ⟨h, hinit⟩, hlast⟩

/-- What is read from `input` on, with `acc` in the `index` bytes before it. -/
def Reads (index acc : ℕ) (input : Bytes) (v n : ℕ) : Prop :=
  ∃ p, p <+: input ∧ index + p.length = n ∧ n ≤ 10 ∧ Terminated p ∧
    acc + number p * 2 ^ (index * 7) = v ∧ v < 2 ^ 64

variable {input : Bytes} {n : ℕ} {v : UInt64}

lemma Reads.lt {acc v : ℕ} (h : Reads index acc input v n) : index < 10 := by
  obtain ⟨p, -, hlen, hn, hp, -⟩ := h
  have hpos : 0 < p.length := List.length_pos_iff.mpr fun hnil => not_terminated_nil (hnil ▸ hp)
  omega

lemma not_reads_nil {acc v : ℕ} : ¬ Reads index acc [] v n := by
  rintro ⟨p, hp, -, -, hterm, -⟩
  rw [List.prefix_nil.mp hp] at hterm
  exact not_terminated_nil hterm

/-- The first byte ends the number, or the rest of the input goes on with it. -/
lemma reads_cons {acc v : ℕ} :
    Reads index acc (b :: input) v n ↔
      (b &&& 0x80 = 0 ∧ index + 1 = n ∧ n ≤ 10 ∧
        acc + (b &&& 0x7f).toNat * 2 ^ (index * 7) = v ∧ v < 2 ^ 64) ∨
      (b &&& 0x80 ≠ 0 ∧
        Reads (index + 1) (acc + (b &&& 0x7f).toNat * 2 ^ (index * 7)) input v n) := by
  have hsum (q : Bytes) : acc + number (b :: q) * 2 ^ (index * 7) =
      acc + (b &&& 0x7f).toNat * 2 ^ (index * 7) + number q * 2 ^ ((index + 1) * 7) := by
    rw [pow_seven_succ, number]
    ring
  constructor
  · rintro ⟨p, hpre, hlen, hn, hterm, hv, hlt⟩
    cases p with
    | nil => exact absurd hterm not_terminated_nil
    | cons c p =>
      obtain ⟨rfl, htail⟩ := List.cons_prefix_cons.mp hpre
      rw [hsum] at hv
      rw [List.length_cons] at hlen
      rcases terminated_cons.mp hterm with ⟨hc, rfl⟩ | ⟨hc, hterm⟩
      · exact .inl ⟨hc, by simpa using hlen, hn, by simpa [number] using hv, hlt⟩
      · exact .inr ⟨hc, p, htail, by omega, hn, hterm, hv, hlt⟩
  · rintro (⟨hb, hlen, hn, hv, hlt⟩ | ⟨hb, p, hpre, hlen, hn, hterm, hv, hlt⟩)
    · refine ⟨[b], by simp, hlen, hn, terminated_cons.mpr (.inl ⟨hb, rfl⟩), ?_, hlt⟩
      rw [hsum, number, Nat.zero_mul, Nat.add_zero, hv]
    · refine ⟨b :: p, List.cons_prefix_cons.mpr ⟨rfl, hpre⟩, ?_, hn,
        terminated_cons.mpr (.inr ⟨hb, hterm⟩), ?_, hlt⟩
      · rw [List.length_cons]
        omega
      · rw [hsum, hv]

/-- The tenth byte has room for one bit. -/
lemma tenth_byte (b : UInt8) : ¬ 1 < b ↔ b &&& 0x80 = 0 ∧ (b &&& 0x7f).toNat ≤ 1 := by
  revert b
  decide +kernel

lemma low_of_top (b : UInt8) (h : b &&& 0x80 = 0) : b &&& 0x7f = b := by
  revert b
  decide +kernel

/-- A byte that ends the number. -/
lemma some_eq_iff_of_top {v v' : ℕ} (htop : b &&& 0x80 = 0) (hi : index ≤ 9) (hv : v' < 2 ^ 64) :
    some (v', index + 1) = some (v, n) ↔
      b &&& 0x80 = 0 ∧ index + 1 = n ∧ n ≤ 10 ∧ v' = v ∧ v < 2 ^ 64 := by
  simp only [Option.some.injEq, Prod.mk.injEq]
  constructor
  · rintro ⟨rfl, rfl⟩
    exact ⟨htop, rfl, by omega, rfl, hv⟩
  · rintro ⟨-, rfl, -, rfl, -⟩
    exact ⟨rfl, rfl⟩

theorem readFrom_iff {acc v : ℕ} (hi : index ≤ 9) (hacc : acc < 2 ^ (index * 7)) :
    DecodedUleb128.readFrom index acc input = some (v, n) ↔ Reads index acc input v n := by
  induction input generalizing index acc with
  | nil => simp [DecodedUleb128.readFrom, not_reads_nil]
  | cons b input ih =>
    simp only [DecodedUleb128.readFrom, or_shiftLeft hacc]
    rw [reads_cons]
    by_cases h9 : index = 9
    · subst h9
      rw [if_pos rfl, or_iff_left fun h => absurd h.2.lt (lt_irrefl _)]
      by_cases hb : 1 < b
      · -- a larger tenth byte does not end the number, or has bits above the word
        rw [if_pos hb]
        refine iff_of_false (by simp) ?_
        rintro ⟨htop, -, -, hv, hlt⟩
        exact (tenth_byte b).mpr ⟨htop, by omega⟩ hb
      · obtain ⟨htop, hone⟩ := (tenth_byte b).mp hb
        rw [low_of_top b htop] at hone ⊢
        rw [if_neg hb, or_shiftLeft hacc]
        exact some_eq_iff_of_top htop hi (by omega)
    · have hnew := add_low_lt b hacc
      have hpow := pow_le_of_lt (show index < 9 by omega)
      rw [if_neg h9]
      by_cases htop : b &&& 0x80 = 0
      · rw [if_pos htop, or_iff_left fun h => h.1 htop]
        exact some_eq_iff_of_top htop hi (by omega)
      · rw [if_neg htop, or_iff_right fun h => htop h.1, ih (by omega) hnew, and_iff_right htop]

/-! ### On words -/

theorem readFrom_toNat {value : UInt64} (input : Bytes) (hi : index ≤ 9)
    (hvalue : value.toNat < 2 ^ (index * 7)) :
    (readFrom index value input).map (fun r => (r.1.toNat, r.2)) =
      DecodedUleb128.readFrom index value.toNat input := by
  induction input generalizing index value with
  | nil => rfl
  | cons b input ih =>
    simp only [readFrom, DecodedUleb128.readFrom]
    by_cases h9 : index = 9
    · subst h9
      rw [if_pos rfl, if_pos rfl]
      by_cases hb : 1 < b
      · rw [if_pos hb, if_pos hb]
        rfl
      · obtain ⟨htop, hone⟩ := (tenth_byte b).mp hb
        rw [low_of_top b htop] at hone
        have hword : (value ||| b.toUInt64 <<< 63).toNat = value.toNat ||| b.toNat <<< 63 := by
          rw [or_shiftLeft hvalue]
          refine toNat_or_shiftLeft (k := 63) (by norm_num) hvalue ?_
          rw [UInt8.toNat_toUInt64]
          omega
        rw [if_neg hb, if_neg hb, Option.map_some, hword]
    · have hnew := add_low_lt b hvalue
      have hpow := pow_le_of_lt (show index < 9 by omega)
      have hword : (value ||| (b &&& 0x7f).toUInt64 <<< UInt64.ofNat (index * 7)).toNat =
          value.toNat ||| (b &&& 0x7f).toNat <<< (index * 7) := by
        rw [or_shiftLeft hvalue, toNat_or_shiftLeft (by omega) hvalue, UInt8.toNat_toUInt64]
        rw [UInt8.toNat_toUInt64]
        omega
      rw [if_neg h9, if_neg h9]
      by_cases htop : b &&& 0x80 = 0
      · rw [if_pos htop, if_pos htop, Option.map_some, hword]
      · rw [if_neg htop, if_neg htop, ← hword]
        refine ih (by omega) ?_
        rwa [hword, or_shiftLeft hvalue]

/-- The reader on words does what the one on numbers does. -/
lemma read_toNat : read input = some (v, n) ↔ DecodedUleb128.read input = some (v.toNat, n) := by
  have hword : (read input).map (fun r => (r.1.toNat, r.2)) = DecodedUleb128.read input :=
    readFrom_toNat input (Nat.zero_le 9) (by decide)
  rw [← hword, Option.map_eq_some_iff]
  constructor
  · intro h
    exact ⟨(v, n), h, rfl⟩
  · rintro ⟨⟨w, m⟩, h, hwm⟩
    obtain ⟨hw, rfl⟩ := Prod.mk.inj hwm
    rwa [← UInt64.toNat_inj.mp hw]

theorem read_iff : read input = some (v, n) ↔ Reads 0 0 input v.toNat n := by
  rw [read_toNat, DecodedUleb128.read, readFrom_iff (Nat.zero_le 9) (by decide)]

/-- A terminated part is read, whatever stands behind it. -/
theorem read_of_terminated {p : Bytes} (hpre : p <+: input) (hlen : p.length ≤ 10)
    (hp : Terminated p) (hlt : number p < 2 ^ 64) :
    ∃ v : UInt64, read input = some (v, p.length) ∧ v.toNat = number p := by
  refine ⟨UInt64.ofNat (number p), read_iff.mpr ⟨p, hpre, Nat.zero_add _, hlen, hp, ?_, ?_⟩, ?_⟩
  all_goals rw [UInt64.toNat_ofNat_of_lt' hlt]
  · simp
  · exact hlt

lemma exists_terminated_of_read (h : read input = some (v, n)) :
    ∃ p, p <+: input ∧ p.length ≤ 10 ∧ Terminated p ∧ number p < 2 ^ 64 := by
  obtain ⟨p, hpre, hlen, hn, hp, hv, hlt⟩ := read_iff.mp h
  refine ⟨p, hpre, by omega, hp, ?_⟩
  rw [Nat.zero_mul, pow_zero, Nat.mul_one, Nat.zero_add] at hv
  rwa [hv]

lemma writeTo_eq_encode (v : UInt64) (output : Bytes) : writeTo v output =
    if encodedLen v ≤ output.length then
      some (encode v.toNat ++ output.drop (encodedLen v), encodedLen v)
    else none := by
  rw [writeTo_toNat, encodedLen_toNat, encodedLen_eq, writeTo_eq]

lemma length_encode_toNat (v : UInt64) : (encode v.toNat).length = encodedLen v := by
  rw [encodedLen_toNat, encodedLen_eq]

lemma encodedLen_le (v : UInt64) : encodedLen v ≤ 10 := by
  rw [← length_encode_toNat]
  refine length_encode_le (by norm_num) (v.toNat_lt.trans ?_)
  exact Nat.pow_lt_pow_right (by norm_num) (by omega)

/-- The bytes of the word stand at the front of the buffer. -/
lemma writeTo_some {output written : Bytes} {n : ℕ} (h : writeTo v output = some (written, n)) :
    n = encodedLen v ∧ written.length = output.length ∧ written.take n = encode v.toNat ∧
      written.drop n = output.drop n := by
  rw [writeTo_eq_encode] at h
  split at h
  next hle =>
    obtain ⟨rfl, rfl⟩ := Prod.mk.inj (Option.some.inj h)
    rw [← length_encode_toNat] at hle ⊢
    refine ⟨rfl, ?_, List.take_left, List.drop_left⟩
    rw [List.length_append, List.length_drop]
    omega
  next => cases h

/-- **Words in LEB128.** The writer fills the bytes that `encoded_len` counts, at most ten, fails on
a shorter buffer only, and the reader gets the word back in front of any bytes. What the reader
returns is the number of a terminated part of at most ten bytes, with every bit of it. -/
theorem leb128_words :
    (∀ (v : UInt64) (output : Bytes),
      encodedLen v ≤ 10 ∧ (writeTo v output = none ↔ output.length < encodedLen v) ∧
      ∀ written n, writeTo v output = some (written, n) →
        n = encodedLen v ∧ written.length = output.length ∧ written.drop n = output.drop n ∧
        ∀ suffix, read (written.take n ++ suffix) = some (v, encodedLen v)) ∧
    ∀ input : Bytes,
      ((read input).isSome ↔
        ∃ p, p <+: input ∧ p.length ≤ 10 ∧ Terminated p ∧ number p < 2 ^ 64) ∧
      ∀ p, p <+: input → p.length ≤ 10 → Terminated p → number p < 2 ^ 64 →
        ∃ v : UInt64, read input = some (v, p.length) ∧ v.toNat = number p := by
  refine ⟨fun v output => ?_, fun input => ⟨?_, fun p => read_of_terminated⟩⟩
  · refine ⟨encodedLen_le v, by simp [writeTo_eq_encode], fun written n h => ?_⟩
    obtain ⟨rfl, hlen, htake, hdrop⟩ := writeTo_some h
    refine ⟨rfl, hlen, hdrop, fun suffix => ?_⟩
    rw [htake, read_toNat, ← length_encode_toNat]
    exact read_encode v.toNat_lt suffix
  · constructor
    · intro h
      obtain ⟨r, hr⟩ := Option.isSome_iff_exists.mp h
      exact exists_terminated_of_read hr
    · rintro ⟨p, hpre, hlen, hp, hlt⟩
      obtain ⟨v, hv, -⟩ := read_of_terminated hpre hlen hp hlt
      simp [hv]

-- two bytes for 1, and ten bytes whose last one has a bit too many
example : read [0x81, 0x00] = some (1, 2) ∧
    read [0xff, 0xff, 0xff, 0xff, 0xff, 0xff, 0xff, 0xff, 0xff, 0x02] = none := by
  decide +kernel

end Cacophony.Leb128Words
