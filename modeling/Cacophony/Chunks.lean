import Cacophony.Basic

/-!
Lists in pieces of one length.

`chunksExact` cuts a list from its front and leaves out a rest that is too short, `padded` fills the
rest up first. `Cut` says what the pieces and the rest are, and how they go on when more is put
behind.
-/

namespace Cacophony.Chunks

variable {α : Type*} {n : ℕ} {xs ys rest rest' : List α} {bs bs' : List (List α)}

lemma slice_append_left {a b : ℕ} (h : b ≤ xs.length) : slice (xs ++ ys) a b = slice xs a b := by
  ext i : 1
  rw [getElem?_slice, getElem?_slice]
  split
  · next hi => rw [List.getElem?_append_left (by omega)]
  · rfl

lemma slice_append_right (xs ys : List α) (a b : ℕ) :
    slice (xs ++ ys) (xs.length + a) (xs.length + b) = slice ys a b := by
  rw [slice, slice, List.drop_append, Nat.add_sub_add_left, List.drop_eq_nil_of_le (by omega),
    List.nil_append, Nat.add_sub_cancel_left]

/-- The pieces of `n` elements, from the front. -/
def chunksExact (n : ℕ) (xs : List α) : List (List α) :=
  (List.range (xs.length / n)).map fun i => slice xs (i * n) (i * n + n)

lemma chunksExact_of_lt (h : xs.length < n) : chunksExact n xs = [] := by
  rw [chunksExact, Nat.div_eq_of_lt h]
  rfl

lemma chunksExact_self (hn : 0 < n) (h : xs.length = n) : chunksExact n xs = [xs] := by
  rw [chunksExact, h, Nat.div_self hn, List.range_one, List.map_singleton, slice, Nat.zero_mul,
    List.drop_zero, Nat.zero_add, Nat.sub_zero, List.take_of_length_le h.le]

lemma chunksExact_append (hn : 0 < n) (h : n ∣ xs.length) (ys : List α) :
    chunksExact n (xs ++ ys) = chunksExact n xs ++ chunksExact n ys := by
  obtain ⟨k, hk⟩ := h
  have hcount : (xs ++ ys).length / n = k + ys.length / n := by
    rw [List.length_append, hk, Nat.mul_add_div hn]
  rw [chunksExact, hcount, List.range_add, List.map_append, List.map_map]
  congr 1
  · rw [chunksExact, hk, Nat.mul_div_cancel_left k hn]
    refine List.map_congr_left fun i hi => slice_append_left ?_
    have hle : (i + 1) * n ≤ k * n := Nat.mul_le_mul_right n (List.mem_range.mp hi)
    rw [hk, Nat.mul_comm n k]
    rwa [Nat.succ_mul] at hle
  · refine List.map_congr_left fun i _ => ?_
    rw [Function.comp_apply, Nat.add_mul, Nat.mul_comm k, ← hk, Nat.add_assoc]
    exact slice_append_right xs ys _ _

/-- The list in pieces, and a rest that is not a piece. -/
structure Cut (n : ℕ) (xs : List α) (bs : List (List α)) (rest : List α) : Prop where
  eq_append : xs = bs.flatten ++ rest
  length_eq : ∀ b ∈ bs, b.length = n
  length_lt : rest.length < n

lemma cut_rest (h : rest.length < n) : Cut n rest [] rest := ⟨rfl, by simp, h⟩

/-- One more piece in front. -/
lemma Cut.cons {b : List α} (h : Cut n xs bs rest) (hb : b.length = n) :
    Cut n (b ++ xs) (b :: bs) rest where
  eq_append := by rw [h.eq_append, List.flatten_cons, List.append_assoc]
  length_eq := List.forall_mem_cons.mpr ⟨hb, h.length_eq⟩
  length_lt := h.length_lt

/-- What comes behind is cut together with the rest. -/
lemma Cut.append (h : Cut n xs bs rest) (h' : Cut n (rest ++ ys) bs' rest') :
    Cut n (xs ++ ys) (bs ++ bs') rest' where
  eq_append := by
    rw [h.eq_append, List.append_assoc, h'.eq_append, List.flatten_append, List.append_assoc]
  length_eq := by
    intro b hb
    rcases List.mem_append.mp hb with hb | hb
    · exact h.length_eq b hb
    · exact h'.length_eq b hb
  length_lt := h'.length_lt

lemma chunksExact_flatten (hn : 0 < n) (h : ∀ b ∈ bs, b.length = n) (ys : List α) :
    chunksExact n (bs.flatten ++ ys) = bs ++ chunksExact n ys := by
  induction bs with
  | nil => rfl
  | cons b bs ih =>
    obtain ⟨hb, hbs⟩ := List.forall_mem_cons.mp h
    rw [List.flatten_cons, List.append_assoc, chunksExact_append hn (hb ▸ Nat.dvd_refl _),
      chunksExact_self hn hb, ih hbs, List.singleton_append, List.cons_append]

lemma Cut.eq_chunksExact (h : Cut n xs bs rest) : bs = chunksExact n xs := by
  rw [h.eq_append, chunksExact_flatten (Nat.zero_lt_of_lt h.length_lt) h.length_eq,
    chunksExact_of_lt h.length_lt, List.append_nil]

/-- Cuts of one list are the same. -/
lemma Cut.unique (h : Cut n xs bs rest) (h' : Cut n xs bs' rest') : bs = bs' ∧ rest = rest' := by
  have hbs : bs = bs' := h.eq_chunksExact.trans h'.eq_chunksExact.symm
  refine ⟨hbs, ?_⟩
  have heq : bs.flatten ++ rest = bs.flatten ++ rest' := by
    rw [← h.eq_append, hbs, ← h'.eq_append]
  exact List.append_cancel_left heq

lemma dvd_length_flatten (h : ∀ b ∈ bs, b.length = n) : n ∣ bs.flatten.length := by
  induction bs with
  | nil => exact Nat.dvd_zero n
  | cons b bs ih =>
    obtain ⟨hb, hbs⟩ := List.forall_mem_cons.mp h
    rw [List.flatten_cons, List.length_append]
    exact Nat.dvd_add (hb ▸ Nat.dvd_refl _) (ih hbs)

/-- The list up to a full last piece. -/
def padded (n : ℕ) (z : α) (xs : List α) : List α :=
  xs ++ List.replicate ((n - xs.length % n) % n) z

/-- The pieces of the padded list: those of the list, and the rest if there is one. -/
lemma Cut.chunksExact_padded (h : Cut n xs bs rest) (z : α) :
    chunksExact n (padded n z xs) =
      bs ++ if rest = [] then [] else [rest ++ List.replicate (n - rest.length) z] := by
  have hn : 0 < n := Nat.zero_lt_of_lt h.length_lt
  have hmod : xs.length % n = rest.length := by
    obtain ⟨k, hk⟩ := dvd_length_flatten h.length_eq
    rw [h.eq_append, List.length_append, hk, Nat.mul_add_mod, Nat.mod_eq_of_lt h.length_lt]
  rw [padded, hmod, h.eq_append, List.append_assoc, chunksExact_flatten hn h.length_eq]
  congr 1
  split
  · next hrest =>
    subst hrest
    rw [List.length_nil, Nat.sub_zero, Nat.mod_self, List.replicate_zero, List.append_nil,
      chunksExact_of_lt hn]
  · next hrest =>
    have hpos : 0 < rest.length := List.length_pos_iff.mpr hrest
    have hlt := h.length_lt
    rw [Nat.mod_eq_of_lt (by omega), chunksExact_self hn]
    rw [List.length_append, List.length_replicate]
    omega

end Cacophony.Chunks
