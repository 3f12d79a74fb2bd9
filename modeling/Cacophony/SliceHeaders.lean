import Mathlib.Data.List.Perm.Subperm
import Mathlib.Data.List.Sort
import Mathlib.Data.Nat.Bitwise
import Cacophony.FrameCodecs

/-!
How much of an H.264 slice stays in the clear, `bytes_covering_h264_pps` of `frame.rs`.

The first three numbers of a slice header are Exp-Golomb codes: zeros, a one, and a suffix of as
many bits as there were zeros. They are codes of the raw payload, from which the emulation
prevention bytes have been taken out, while the function walks over the payload with these bytes.
It steps over such a byte where the walk comes upon it, but the suffix of a code is jumped over, and
an emulation prevention byte in there is counted as suffix bits. Bits are named by their position
in the payload, the most significant bit of the first byte first.
-/

namespace Cacophony.SliceHeaders

open FrameCodecs

/-! ### The raw payload -/

/-- An emulation prevention byte: a `03` behind two zeros. -/
def Escape (payload : Bytes) (k : ℕ) : Prop :=
  2 ≤ k ∧ payload.getD k 0 = 0x03 ∧ payload.getD (k - 1) 0 = 0 ∧ payload.getD (k - 2) 0 = 0

instance (payload : Bytes) (k : ℕ) : Decidable (Escape payload k) :=
  inferInstanceAs (Decidable (_ ∧ _))

def bitAt (payload : Bytes) (q : ℕ) : Bool := (payload.getD (q / 8) 0).toNat.testBit (7 - q % 8)

/-- The positions from `p` on that are not in an emulation prevention byte. -/
def rbspFrom (payload : Bytes) (p : ℕ) : List ℕ :=
  (List.range' p (payload.length * 8 - p)).filter fun q => ¬ Escape payload (q / 8)

/-- The raw payload: the positions of its bits, in order. -/
def rbsp (payload : Bytes) : List ℕ := rbspFrom payload 0

/-- An Exp-Golomb code with fewer than 32 leading zeros. -/
structure UeCode (payload : Bytes) where
  zeros : List ℕ
  one : ℕ
  suffix : List ℕ
  bit_zeros : ∀ q ∈ zeros, bitAt payload q = false
  bit_one : bitAt payload one = true
  length_suffix : suffix.length = zeros.length
  short : zeros.length < 32

variable {payload : Bytes}

/-- The bits of the code. -/
def UeCode.bits (c : UeCode payload) : List ℕ := c.zeros ++ c.one :: c.suffix

/-- An emulation prevention byte stands among the suffix bits. -/
def UeCode.Broken (c : UeCode payload) : Prop :=
  ∃ k, Escape payload k ∧ c.one < 8 * k ∧ ∃ q ∈ c.suffix, 8 * k < q

def UeCode.last (c : UeCode payload) : ℕ := c.suffix.getLastD c.one

variable {p q k parsed : ℕ}

lemma Escape.lt (h : Escape payload k) : k < payload.length := by
  by_contra hle
  have h3 := h.2.1
  rw [List.getD_eq_getElem?_getD, List.getElem?_eq_none (not_lt.mp hle)] at h3
  exact absurd h3 (by decide)

lemma mem_rbspFrom : q ∈ rbspFrom payload p ↔
    p ≤ q ∧ q < payload.length * 8 ∧ ¬ Escape payload (q / 8) := by
  have hrange : p ≤ q ∧ q < p + (payload.length * 8 - p) ↔ p ≤ q ∧ q < payload.length * 8 := by
    omega
  simp only [rbspFrom, List.mem_filter, List.mem_range'_1, decide_eq_true_eq, hrange, and_assoc]

lemma rbspFrom_pairwise (payload : Bytes) (p : ℕ) : (rbspFrom payload p).Pairwise (· < ·) :=
  (List.pairwise_lt_range' (s := p) _).sublist List.filter_sublist

lemma rbspFrom_cons (hp : p < payload.length * 8) (h : ¬ Escape payload (p / 8)) :
    rbspFrom payload p = p :: rbspFrom payload (p + 1) := by
  rw [rbspFrom, show payload.length * 8 - p = (payload.length * 8 - (p + 1)) + 1 by omega,
    List.range'_succ, List.filter_cons_of_pos (by simpa using h)]
  rfl

/-- An emulation prevention byte is stepped over as a whole. -/
lemma rbspFrom_escape (h : Escape payload k) :
    rbspFrom payload (8 * k) = rbspFrom payload (8 * k + 8) := by
  refine (rbspFrom_pairwise payload _).eq_of_mem_iff (rbspFrom_pairwise payload _) fun x => ?_
  rw [mem_rbspFrom, mem_rbspFrom]
  constructor
  · rintro ⟨hle, hlt, hx⟩
    refine ⟨?_, hlt, hx⟩
    by_contra hinside
    exact hx (by rwa [show x / 8 = k by omega])
  · rintro ⟨hle, hx⟩
    exact ⟨by omega, hx⟩

/-- Behind one of its bits the raw payload goes on with the next position. -/
lemma rbspFrom_tail {front back : List ℕ} (h : rbspFrom payload p = front ++ q :: back) :
    rbspFrom payload (q + 1) = back := by
  have hpairwise := rbspFrom_pairwise payload p
  have hmem (x : ℕ) : x ∈ front ++ q :: back ↔
      p ≤ x ∧ x < payload.length * 8 ∧ ¬ Escape payload (x / 8) := by
    rw [← h, mem_rbspFrom]
  rw [h] at hpairwise
  obtain ⟨-, hback, hfront⟩ := List.pairwise_append.mp hpairwise
  obtain ⟨hq, hback⟩ := List.pairwise_cons.mp hback
  refine (rbspFrom_pairwise payload (q + 1)).eq_of_mem_iff hback fun x => ?_
  rw [mem_rbspFrom]
  constructor
  · rintro ⟨hlt, hx⟩
    have hle := ((hmem q).mp (by simp)).1
    rcases List.mem_append.mp ((hmem x).mpr ⟨by omega, hx⟩) with hx | hx
    · exact absurd (hfront x hx q List.mem_cons_self) (by omega)
    · exact (List.mem_cons.mp hx).resolve_left (by omega)
  · intro hx
    exact ⟨hq x hx, ((hmem x).mp (by simp [hx])).2⟩

/-! ### The walk -/

/-- The walk does not stand inside an emulation prevention byte, at most at its first bit. -/
def Aligned (payload : Bytes) (p : ℕ) : Prop := Escape payload (p / 8) → p % 8 = 0

lemma aligned_succ (h : ¬ Escape payload (p / 8)) : Aligned payload (p + 1) := by
  intro hesc
  by_contra hmod
  exact h (by rwa [show p / 8 = (p + 1) / 8 by omega])

lemma and_shiftLeft_eq_zero (n i : ℕ) : n &&& (1 <<< i) = 0 ↔ n.testBit i = false := by
  rw [Nat.shiftLeft_eq, Nat.one_mul, Nat.and_two_pow]
  cases n.testBit i <;> simp

section Steps

variable {z parsed : ℕ} (hp : p < payload.length * 8) (hparsed : parsed < 3)
include hp hparsed

lemma ppsBits_escape (hmod : p % 8 = 0) (h : Escape payload (p / 8)) :
    ppsBits payload p z parsed = ppsBits payload (p + 8) z parsed := by
  rw [ppsBits, if_pos ⟨hp, hparsed⟩]
  exact if_pos ⟨hmod, h⟩

lemma ppsBits_bit (h : ¬ Escape payload (p / 8)) : ppsBits payload p z parsed =
    if bitAt payload p then ppsBits payload (p + (1 + z)) 0 (parsed + 1)
    else if 32 ≤ z + 1 then none else ppsBits payload (p + 1) (z + 1) parsed := by
  rw [ppsBits, if_pos ⟨hp, hparsed⟩]
  dsimp only
  rw [if_neg fun hesc => h hesc.2]
  by_cases hbit : bitAt payload p
  · rw [if_pos hbit, if_neg]
    rw [and_shiftLeft_eq_zero]
    simpa [bitAt] using hbit
  · rw [if_neg hbit, if_pos]
    rw [and_shiftLeft_eq_zero]
    simpa [bitAt] using hbit

end Steps

/-- **Leading zeros.** The walk steps over the zeros of a code and jumps from its one. -/
lemma ppsBits_zeros {zeros rest : List ℕ} {one z : ℕ} (ha : Aligned payload p)
    (hlist : rbspFrom payload p = zeros ++ one :: rest)
    (hzeros : ∀ q ∈ zeros, bitAt payload q = false) (hone : bitAt payload one = true)
    (hz : z + zeros.length < 32) (hparsed : parsed < 3) :
    ppsBits payload p z parsed =
      ppsBits payload (one + (1 + (z + zeros.length))) 0 (parsed + 1) := by
  -- on the bits that are left, since the walk also moves on where the list stays the same
  induction hleft : payload.length * 8 - p using Nat.strong_induction_on generalizing p zeros z with
  | _ left ih =>
    have hp : p < payload.length * 8 := by
      have hmem : one ∈ rbspFrom payload p := by simp [hlist]
      have := mem_rbspFrom.mp hmem
      omega
    by_cases hesc : Escape payload (p / 8)
    · -- the walk comes upon an emulation prevention byte, at its first bit
      have hmod := ha hesc
      have hnext : rbspFrom payload (p + 8) = rbspFrom payload p := by
        obtain ⟨k, rfl⟩ : ∃ k, p = 8 * k := ⟨p / 8, by omega⟩
        rw [Nat.mul_div_cancel_left k (by norm_num)] at hesc
        exact (rbspFrom_escape hesc).symm
      rw [ppsBits_escape hp hparsed hmod hesc]
      exact ih _ (by omega) (fun _ => by omega) (hnext.trans hlist) hzeros hz rfl
    · rw [rbspFrom_cons hp hesc] at hlist
      rw [ppsBits_bit hp hparsed hesc]
      cases zeros with
      | nil =>
        obtain ⟨rfl, -⟩ := List.cons.inj hlist
        rw [if_pos hone]
        rfl
      | cons q zeros =>
        obtain ⟨rfl, hnext⟩ := List.cons.inj hlist
        obtain ⟨hq, hrest⟩ := List.forall_mem_cons.mp hzeros
        rw [List.length_cons] at hz ⊢
        rw [hq, if_neg (by decide), if_neg (by omega),
          show z + (zeros.length + 1) = z + 1 + zeros.length by omega]
        exact ih _ (by omega) (aligned_succ hesc) hnext hrest (by omega) rfl

/-! ### Suffixes -/

/-- Bits with no emulation prevention byte among them follow each other in the payload. -/
lemma eq_range_of_unbroken {bits rest : List ℕ} (ha : Aligned payload p)
    (hlist : rbspFrom payload p = bits ++ rest)
    (hclean : ∀ k, Escape payload k → p ≤ 8 * k → ∀ q ∈ bits, q ≤ 8 * k) :
    bits = List.range' p bits.length ∧ rbspFrom payload (p + bits.length) = rest ∧
      Aligned payload (p + bits.length) := by
  induction bits generalizing p with
  | nil => exact ⟨rfl, hlist, ha⟩
  | cons q bits ih =>
    have hmem : q ∈ rbspFrom payload p := by simp [hlist]
    obtain ⟨hle, hlt, hq⟩ := mem_rbspFrom.mp hmem
    have hesc : ¬ Escape payload (p / 8) := by
      intro hesc
      have hmod := ha hesc
      have hqp := hclean _ hesc (by omega) q List.mem_cons_self
      exact hq (by rwa [show q / 8 = p / 8 by omega])
    rw [rbspFrom_cons (by omega) hesc] at hlist
    obtain ⟨rfl, hnext⟩ := List.cons.inj hlist
    obtain ⟨hrange, hrest, hal⟩ := ih (aligned_succ hesc) hnext fun k hk hpk q' hq' =>
      hclean k hk (by omega) q' (List.mem_cons_of_mem _ hq')
    rw [List.length_cons, show p + (bits.length + 1) = p + 1 + bits.length by omega]
    refine ⟨?_, hrest, hal⟩
    rw [List.range'_succ, ← hrange]

/-- A part of the payload without emulation prevention bytes. -/
lemma rbspFrom_append (ha : Aligned payload p) (hpq : p ≤ q) (hq : q ≤ payload.length * 8)
    (hclean : ∀ k, Escape payload k → p ≤ 8 * k → q ≤ 8 * k) :
    rbspFrom payload p = List.range' p (q - p) ++ rbspFrom payload q := by
  have hkeep : ∀ x ∈ List.range' p (q - p), ¬ Escape payload (x / 8) := by
    intro x hx hesc
    rw [List.mem_range'_1] at hx
    rcases Nat.lt_or_ge (8 * (x / 8)) p with hlt | hge
    · have hmod := ha (by rwa [show p / 8 = x / 8 by omega])
      omega
    · have := hclean _ hesc hge
      omega
  rw [rbspFrom, show payload.length * 8 - p = (q - p) + (payload.length * 8 - q) by omega,
    ← List.range'_append_1, List.filter_append, List.filter_eq_self.mpr (by simpa using hkeep),
    show p + (q - p) = q by omega]
  rfl

/-! ### Emulation prevention bytes in a suffix -/

/-- Two zeros stand before an emulation prevention byte. -/
lemma Escape.zeros (h : Escape payload k) (hge : 8 * (k - 2) ≤ q) (hlt : q < 8 * k) :
    bitAt payload q = false ∧ ¬ Escape payload (q / 8) := by
  obtain ⟨hk, -, h1, h2⟩ := h
  have hbyte : payload.getD (q / 8) 0 = 0 := by
    rcases (show q / 8 = k - 1 ∨ q / 8 = k - 2 by omega) with hq | hq <;> rwa [hq]
  refine ⟨by rw [bitAt, hbyte]; simp, fun hesc => ?_⟩
  exact absurd (hesc.2.1.symm.trans hbyte) (by decide)

lemma Escape.gap {k' : ℕ} (h : Escape payload k) (h' : Escape payload k') (hlt : k < k') :
    k + 3 ≤ k' := by
  by_contra hgap
  have hzero := (h'.zeros (q := 8 * k) (by omega) (by omega)).2
  rw [Nat.mul_div_cancel_left k (by norm_num)] at hzero
  exact hzero h

lemma getLastD_range (a n : ℕ) : (List.range' (a + 1) n).getLastD a = a + n := by
  cases n with
  | zero => rfl
  | succ n =>
    rw [List.range'_1_concat]
    simp [Nat.add_comm, Nat.add_left_comm]

variable {c : UeCode payload} {rest : List ℕ}

section Suffix

variable (hlist : rbspFrom payload (c.one + 1) = c.suffix ++ rest)
include hlist

/-- The bits of the raw payload up to a suffix bit are suffix bits. -/
lemma mem_suffix {x : ℕ} (hx : x ∈ rbspFrom payload (c.one + 1)) (hq : q ∈ c.suffix)
    (hlt : x < q) : x ∈ c.suffix := by
  have hpairwise := rbspFrom_pairwise payload (c.one + 1)
  rw [hlist] at hpairwise hx
  rcases List.mem_append.mp hx with hx | hx
  · exact hx
  · exact absurd ((List.pairwise_append.mp hpairwise).2.2 q hq x hx) (by omega)

/-- The two zeros before an emulation prevention byte in a suffix are suffix bits. -/
lemma zeros_mem_suffix (hk : Escape payload k) (hone : c.one < 8 * k) (hq : q ∈ c.suffix)
    (hlt : 8 * k < q) {x : ℕ} (hge : 8 * (k - 2) ≤ x) (hx : x < 8 * k) : x ∈ c.suffix := by
  -- the one of the code is not in the two zeros
  have hbefore : c.one < 8 * (k - 2) := by
    by_contra hle
    have hbit := (hk.zeros (not_lt.mp hle) hone).1
    rw [c.bit_one] at hbit
    cases hbit
  have hlen := hk.lt
  refine mem_suffix hlist (mem_rbspFrom.mpr ⟨by omega, by omega, (hk.zeros hge hx).2⟩) hq ?_
  omega

/-- A suffix with an emulation prevention byte has more than 16 bits. -/
lemma length_of_broken (h : c.Broken) : 16 < c.suffix.length := by
  obtain ⟨k, hk, hone, q, hq, hlt⟩ := h
  have h2 := hk.1
  have hsub : List.range' (8 * (k - 2)) 16 ++ [q] ⊆ c.suffix := by
    intro x hx
    rcases List.mem_append.mp hx with hx | hx
    · rw [List.mem_range'_1] at hx
      exact zeros_mem_suffix hlist hk hone hq hlt hx.1 (by omega)
    · rwa [List.mem_singleton.mp hx]
  have hnodup : (List.range' (8 * (k - 2)) 16 ++ [q]).Nodup := by
    refine List.nodup_append.mpr ⟨List.nodup_range', List.nodup_singleton q, ?_⟩
    intro x hx y hy
    rw [List.mem_range'_1] at hx
    rw [List.mem_singleton.mp hy]
    omega
  have hlen := (hnodup.subperm hsub).length_le
  simp only [List.length_append, List.length_range', List.length_singleton] at hlen
  omega

/-- A suffix has room for one emulation prevention byte at most. -/
lemma escape_unique {k' q' : ℕ} (hk : Escape payload k) (hone : c.one < 8 * k)
    (hk' : Escape payload k') (hkk : k < k') (hq' : q' ∈ c.suffix) (hlt' : 8 * k' < q') :
    False := by
  have h2 := hk.1
  have hgap := hk.gap hk' hkk
  -- four bytes of zeros would be suffix bits
  have hsub : List.range' (8 * (k - 2)) 16 ++ List.range' (8 * (k' - 2)) 16 ⊆ c.suffix := by
    intro x hx
    simp only [List.mem_append, List.mem_range'_1] at hx
    rcases hx with hx | hx
    · exact zeros_mem_suffix hlist hk hone hq' (by omega) hx.1 (by omega)
    · exact zeros_mem_suffix hlist hk' (by omega) hq' hlt' hx.1 (by omega)
  have hnodup : (List.range' (8 * (k - 2)) 16 ++ List.range' (8 * (k' - 2)) 16).Nodup := by
    refine List.nodup_append.mpr ⟨List.nodup_range', List.nodup_range', ?_⟩
    intro x hx y hy
    rw [List.mem_range'_1] at hx hy
    omega
  have hlen := (hnodup.subperm hsub).length_le
  have hshort := c.short
  rw [← c.length_suffix] at hshort
  simp only [List.length_append, List.length_range'] at hlen
  omega

/-- Where an unbroken code ends, for the walk and in the raw payload. -/
lemma of_not_broken (ha : Aligned payload (c.one + 1)) (h : ¬ c.Broken) :
    c.last = c.one + c.suffix.length ∧
      rbspFrom payload (c.one + (1 + c.suffix.length)) = rest ∧
      Aligned payload (c.one + (1 + c.suffix.length)) := by
  obtain ⟨hrange, hrest, hal⟩ := eq_range_of_unbroken ha hlist fun k hk hpk q hq =>
    not_lt.mp fun hlt => h ⟨k, hk, hpk, q, hq, hlt⟩
  rw [← Nat.add_assoc]
  refine ⟨?_, hrest, hal⟩
  rw [UeCode.last, hrange, getLastD_range, List.length_range']

/-- A broken code ends one byte later. -/
lemma last_of_broken (ha : Aligned payload (c.one + 1)) (h : c.Broken) :
    c.last = c.one + c.suffix.length + 8 := by
  obtain ⟨k, hk, hone, q, hq, hlt⟩ := h
  have hlen := hk.lt
  have hrun := rbspFrom_append (q := 8 * k) ha hone (by omega) fun k' hk' hle =>
    not_lt.mp fun hkk => escape_unique hlist hk' hle hk (by omega) hq hlt
  rw [rbspFrom_escape hk, hlist] at hrun
  have hbehind : q ∉ List.range' (c.one + 1) (8 * k - (c.one + 1)) := by
    rw [List.mem_range'_1]
    omega
  rcases List.append_eq_append_iff.mp hrun with ⟨l, hsplit, -⟩ | ⟨l, hsplit, hrest⟩
  · -- the suffix would end before the emulation prevention byte
    rw [hsplit] at hbehind
    exact absurd (List.mem_append_left _ hq) hbehind
  · obtain ⟨hrange, -, -⟩ := eq_range_of_unbroken (fun _ => by omega) hrest
      fun k' hk' hle q' hq' => not_lt.mp fun hlt' =>
        escape_unique hlist hk hone hk' (by omega) (hsplit ▸ List.mem_append_right _ hq') hlt'
    cases l with
    | nil =>
      rw [hsplit, List.append_nil] at hq
      exact absurd hq hbehind
    | cons a l =>
      rw [List.length_cons, List.range'_1_concat] at hrange
      rw [UeCode.last, hsplit, hrange, ← List.append_assoc]
      simp only [List.getLastD_concat, List.length_append, List.length_range',
        List.length_singleton]
      omega

end Suffix

/-! ### Three codes -/

/-- What stands behind the one of a code. -/
lemma rbspFrom_one (front : List ℕ) (hlist : rbspFrom payload p = front ++ (c.bits ++ rest)) :
    rbspFrom payload (c.one + 1) = c.suffix ++ rest ∧ Aligned payload (c.one + 1) := by
  rw [UeCode.bits, List.append_assoc, List.cons_append, ← List.append_assoc] at hlist
  have hmem : c.one ∈ rbspFrom payload p := by simp [hlist]
  exact ⟨rbspFrom_tail hlist, aligned_succ (mem_rbspFrom.mp hmem).2.2⟩

/-- The walk over one code. -/
lemma ppsBits_code (ha : Aligned payload p) (hlist : rbspFrom payload p = c.bits ++ rest)
    (hparsed : parsed < 3) :
    ppsBits payload p 0 parsed =
      ppsBits payload (c.one + (1 + c.suffix.length)) 0 (parsed + 1) := by
  rw [UeCode.bits, List.append_assoc, List.cons_append] at hlist
  have hshort := c.short
  rw [ppsBits_zeros ha hlist c.bit_zeros c.bit_one (by omega) hparsed, Nat.zero_add,
    c.length_suffix]

/-- An unbroken code is walked over to its end. -/
lemma ppsBits_of_not_broken (ha : Aligned payload p) (hlist : rbspFrom payload p = c.bits ++ rest)
    (hparsed : parsed < 3) (h : ¬ c.Broken) :
    ∃ p', ppsBits payload p 0 parsed = ppsBits payload p' 0 (parsed + 1) ∧
      rbspFrom payload p' = rest ∧ Aligned payload p' := by
  obtain ⟨hsuffix, hone⟩ := rbspFrom_one [] hlist
  obtain ⟨-, hrest, hal⟩ := of_not_broken hsuffix hone h
  exact ⟨_, ppsBits_code ha hlist hparsed, hrest, hal⟩

/-- What the function returns when the first two codes are unbroken. -/
lemma bytesCovering_eq {c₁ c₂ c₃ : UeCode payload}
    (hlist : rbsp payload = c₁.bits ++ (c₂.bits ++ (c₃.bits ++ rest))) (h₁ : ¬ c₁.Broken)
    (h₂ : ¬ c₂.Broken) :
    bytesCoveringH264Pps payload = some ((c₃.one + (1 + c₃.suffix.length)) / 8 + 1) := by
  obtain ⟨p₁, hwalk₁, hlist₁, ha₁⟩ :=
    ppsBits_of_not_broken (fun _ => rfl) hlist (show 0 < 3 by omega) h₁
  obtain ⟨p₂, hwalk₂, hlist₂, ha₂⟩ :=
    ppsBits_of_not_broken ha₁ hlist₁ (show 0 + 1 < 3 by omega) h₂
  have hwalk₃ := ppsBits_code ha₂ hlist₂ (show 0 + 1 + 1 < 3 by omega)
  rw [bytesCoveringH264Pps, hwalk₁, hwalk₂, hwalk₃, ppsBits, if_neg (by simp), if_pos rfl]

lemma UeCode.exists_bits_eq (c : UeCode payload) : ∃ init, c.bits = init ++ [c.last] := by
  rcases List.eq_nil_or_concat' c.suffix with hnil | ⟨init, l, hsuffix⟩
  · exact ⟨c.zeros, by rw [UeCode.bits, UeCode.last, hnil]; rfl⟩
  · exact ⟨c.zeros ++ c.one :: init, by rw [UeCode.bits, UeCode.last, hsuffix]; simp⟩

/-- The last bit of a code is behind all others. -/
lemma forall_lt_iff {front : List ℕ} {n : ℕ} (h : (front ++ c.bits).Pairwise (· < ·)) :
    (∀ q ∈ front ++ c.bits, q < n) ↔ c.last < n := by
  obtain ⟨init, hbits⟩ := c.exists_bits_eq
  rw [hbits, ← List.append_assoc] at h ⊢
  constructor
  · intro hall
    exact hall _ (by simp)
  · intro hlast q hq
    rcases List.mem_append.mp hq with hq | hq
    · exact ((List.pairwise_append.mp h).2.2 q hq _ (by simp)).trans hlast
    · rwa [List.mem_singleton.mp hq]

lemma covered_iff_last {c₁ c₂ c₃ : UeCode payload} {n : ℕ}
    (hcodes : c₁.bits ++ (c₂.bits ++ c₃.bits) <+: rbsp payload) :
    (∀ q ∈ c₁.bits ++ (c₂.bits ++ c₃.bits), q < n) ↔ c₃.last < n := by
  rw [← List.append_assoc] at hcodes ⊢
  exact forall_lt_iff ((rbspFrom_pairwise payload 0).sublist hcodes.sublist)

lemma exists_rest {c₁ c₂ c₃ : UeCode payload}
    (hcodes : c₁.bits ++ (c₂.bits ++ c₃.bits) <+: rbsp payload) :
    ∃ rest, rbsp payload = c₁.bits ++ (c₂.bits ++ (c₃.bits ++ rest)) := by
  obtain ⟨rest, hrbsp⟩ := hcodes
  exact ⟨rest, by rw [← hrbsp, List.append_assoc, List.append_assoc]⟩

/-- **The first three codes of a slice.** When no emulation prevention byte stands among the suffix
bits of the first two codes, the function counts bytes, and these cover all three codes if and only
if none stands among the suffix bits of the third either, or that code ends with its byte. -/
theorem pps_covered_iff (c₁ c₂ c₃ : UeCode payload)
    (hcodes : c₁.bits ++ (c₂.bits ++ c₃.bits) <+: rbsp payload) (h₁ : ¬ c₁.Broken)
    (h₂ : ¬ c₂.Broken) :
    ∃ n, bytesCoveringH264Pps payload = some n ∧
      ((∀ q ∈ c₁.bits ++ (c₂.bits ++ c₃.bits), q < 8 * n) ↔
        ¬ c₃.Broken ∨ (c₃.last + 1) % 8 = 0) := by
  obtain ⟨rest, hlist⟩ := exists_rest hcodes
  refine ⟨_, bytesCovering_eq hlist h₁ h₂, ?_⟩
  rw [covered_iff_last hcodes]
  rw [← List.append_assoc] at hlist
  obtain ⟨hsuffix, ha⟩ := rbspFrom_one _ hlist
  by_cases hb : c₃.Broken
  · have hlast := last_of_broken hsuffix ha hb
    simp only [hb, not_true, false_or]
    omega
  · have hlast := (of_not_broken hsuffix ha hb).1
    simp only [hb, not_false_iff, true_or, iff_true]
    omega

/-- A slice of type 7, from the first block on, with the first parameter set. -/
theorem pps_covered_two : ∃ c₁ c₂ c₃ : UeCode [0x88, 0x80],
    c₁.bits ++ (c₂.bits ++ c₃.bits) <+: rbsp [0x88, 0x80] ∧ ¬ c₁.Broken ∧ ¬ c₂.Broken ∧
    ∃ n, bytesCoveringH264Pps [0x88, 0x80] = some n ∧
      ((∀ q ∈ c₁.bits ++ (c₂.bits ++ c₃.bits), q < 8 * n) ↔
        ¬ c₃.Broken ∨ (c₃.last + 1) % 8 = 0) := by
  let c₁ : UeCode [0x88, 0x80] := ⟨[], 0, [], by simp, by decide, rfl, by decide⟩
  let c₂ : UeCode [0x88, 0x80] := ⟨[1, 2, 3], 4, [5, 6, 7], by decide, by decide, rfl, by decide⟩
  let c₃ : UeCode [0x88, 0x80] := ⟨[], 8, [], by simp, by decide, rfl, by decide⟩
  have hcodes : c₁.bits ++ (c₂.bits ++ c₃.bits) <+: rbsp [0x88, 0x80] := by decide +kernel
  have h₁ : ¬ c₁.Broken := by simp [UeCode.Broken, c₁]
  have h₂ : ¬ c₂.Broken := by
    rintro ⟨k, hk, -, q, hq, hlt⟩
    have := hk.1
    simp only [c₂, List.mem_cons, List.not_mem_nil, or_false] at hq
    omega
  exact ⟨c₁, c₂, c₃, hcodes, h₁, h₂, pps_covered_iff c₁ c₂ c₃ hcodes h₁ h₂⟩

/-- The fourth and fifth bytes are suffix bits of the first code, and its last bit stands behind the
emulation prevention byte. The walk goes on inside that byte, and comes to the end of three codes
when it has seen the zeros of the third one. -/
theorem pps_not_covered : ∃ c₁ c₂ c₃ : UeCode
    [0x00, 0x00, 0x08, 0x00, 0x00, 0x03, 0x03, 0xf0, 0x80],
    c₁.bits ++ (c₂.bits ++ c₃.bits) <+:
      rbsp [0x00, 0x00, 0x08, 0x00, 0x00, 0x03, 0x03, 0xf0, 0x80] ∧
    bytesCoveringH264Pps [0x00, 0x00, 0x08, 0x00, 0x00, 0x03, 0x03, 0xf0, 0x80] = some 8 ∧
    ¬ ∀ q ∈ c₁.bits ++ (c₂.bits ++ c₃.bits), q < 8 * 8 :=
  ⟨⟨List.range 20, 20, List.range' 21 19 ++ [48], by decide +kernel, by decide, rfl, by decide⟩,
    ⟨[49, 50, 51, 52, 53], 54, [55, 56, 57, 58, 59], by decide +kernel, by decide, rfl, by decide⟩,
    ⟨[60, 61, 62, 63], 64, [65, 66, 67, 68], by decide +kernel, by decide, rfl, by decide⟩,
    by decide +kernel, by decide +kernel, by decide +kernel⟩

-- a broken first code may be covered all the same: the walk ends behind the third code by chance
example : ∃ c₁ c₂ c₃ : UeCode [0x00, 0x00, 0x08, 0x00, 0x00, 0x03, 0x28],
    c₁.Broken ∧ c₁.bits ++ (c₂.bits ++ c₃.bits) <+:
      rbsp [0x00, 0x00, 0x08, 0x00, 0x00, 0x03, 0x28] ∧
    bytesCoveringH264Pps [0x00, 0x00, 0x08, 0x00, 0x00, 0x03, 0x28] = some 7 ∧
    ∀ q ∈ c₁.bits ++ (c₂.bits ++ c₃.bits), q < 8 * 7 :=
  ⟨⟨List.range 20, 20, List.range' 21 19 ++ [48], by decide +kernel, by decide, rfl, by decide⟩,
    ⟨[49], 50, [51], by decide, by decide, rfl, by decide⟩,
    ⟨[], 52, [], by simp, by decide, rfl, by decide⟩,
    ⟨5, by decide, by decide, 48, by simp, by decide⟩, by decide +kernel, by decide +kernel,
    by decide +kernel⟩

/-- A code with at most 16 leading zeros has no room for an emulation prevention byte. -/
lemma not_broken_of_short (front : List ℕ) (hlist : rbsp payload = front ++ (c.bits ++ rest))
    (hshort : c.zeros.length ≤ 16) : ¬ c.Broken := by
  intro hb
  have hlen := length_of_broken (rbspFrom_one front hlist).1 hb
  rw [c.length_suffix] at hlen
  omega

/-- **Short codes** are covered. -/
theorem pps_covered_of_short (c₁ c₂ c₃ : UeCode payload)
    (hcodes : c₁.bits ++ (c₂.bits ++ c₃.bits) <+: rbsp payload) (h₁ : c₁.zeros.length ≤ 16)
    (h₂ : c₂.zeros.length ≤ 16) (h₃ : c₃.zeros.length ≤ 16) :
    ∃ n, bytesCoveringH264Pps payload = some n ∧
      ∀ q ∈ c₁.bits ++ (c₂.bits ++ c₃.bits), q < 8 * n := by
  obtain ⟨rest, hlist⟩ := exists_rest hcodes
  have hb₁ : ¬ c₁.Broken := not_broken_of_short [] hlist h₁
  have hb₂ : ¬ c₂.Broken := not_broken_of_short _ hlist h₂
  refine ⟨_, bytesCovering_eq hlist hb₁ hb₂, (covered_iff_last hcodes).mpr ?_⟩
  rw [← List.append_assoc] at hlist
  obtain ⟨hsuffix, ha⟩ := rbspFrom_one _ hlist
  have hlast := (of_not_broken hsuffix ha (not_broken_of_short _ hlist h₃)).1
  omega

end Cacophony.SliceHeaders
