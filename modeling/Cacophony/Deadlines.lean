import Mathlib.Data.List.AList
import Mathlib.Data.List.Sort

/-!
Keys with deadlines, `DeadlineSet` of `queue.rs`.

Every key has at most one deadline, and every deadline an entry with its keys. `RawSet` has the two
maps as the source has them, and a call of `expect` that fails is an error there. `DeadlineSet` is a
set whose maps agree and have no empty entry. A `HashSet` is a list of its keys here; the order in
which it gives them is any permutation of that list.
-/

namespace Cacophony.Deadlines

/-- The keys of each deadline; a `BTreeMap`. -/
abbrev Index (κ : Type) := AList fun _ : ℕ => List κ

variable {κ : Type} {deadlines : Index κ} {deadline d : ℕ}

def bucket (deadlines : Index κ) (deadline : ℕ) : List κ := (deadlines.lookup deadline).getD []

lemma bucket_insert (keys : List κ) : bucket (deadlines.insert deadline keys) d =
    if d = deadline then keys else bucket deadlines d := by
  unfold bucket
  split
  next hd => rw [hd, AList.lookup_insert, Option.getD_some]
  next hd => rw [AList.lookup_insert_ne hd]

lemma bucket_erase : bucket (deadlines.erase deadline) d =
    if d = deadline then [] else bucket deadlines d := by
  unfold bucket
  split
  next hd => rw [hd, AList.lookup_erase, Option.getD_none]
  next hd => rw [AList.lookup_erase_ne hd]

lemma mem_keys_of_mem_bucket {key : κ} (h : key ∈ bucket deadlines deadline) :
    deadline ∈ deadlines.keys := by
  refine AList.mem_keys.mp (AList.lookup_isSome.mp ?_)
  unfold bucket at h
  rcases hlookup : deadlines.lookup deadline with _ | keys
  · simp [hlookup] at h
  · rfl

/-- An index without empty entries. -/
def Filled (deadlines : Index κ) : Prop := ∀ deadline, deadlines.lookup deadline ≠ some []

variable [DecidableEq κ] {key k : κ}

def removeFromDeadline (deadlines : Index κ) (key : κ) (deadline : ℕ) : Index κ :=
  match deadlines.lookup deadline with
  | none => deadlines
  | some keys =>
    let keys := keys.filter (· ≠ key)
    if keys.isEmpty then deadlines.erase deadline else deadlines.insert deadline keys

/-- `entry(deadline).or_default().insert(key)`. -/
def addToDeadline (deadlines : Index κ) (key : κ) (deadline : ℕ) : Index κ :=
  let keys := bucket deadlines deadline
  deadlines.insert deadline (if key ∈ keys then keys else keys ++ [key])

lemma bucket_remove : bucket (removeFromDeadline deadlines key deadline) d =
    if d = deadline then (bucket deadlines deadline).filter (· ≠ key) else bucket deadlines d := by
  unfold removeFromDeadline
  split
  next hnone =>
    split
    next hd => rw [hd, bucket, hnone, Option.getD_none, List.filter_nil]
    next => rfl
  next keys hkeys =>
    have hbucket : bucket deadlines deadline = keys := by rw [bucket, hkeys, Option.getD_some]
    dsimp only
    split
    next hempty => rw [bucket_erase, hbucket, List.isEmpty_iff.mp hempty]
    next => rw [bucket_insert, hbucket]

lemma mem_bucket_remove : k ∈ bucket (removeFromDeadline deadlines key deadline) d ↔
    k ∈ bucket deadlines d ∧ ¬ (k = key ∧ d = deadline) := by
  rw [bucket_remove]
  split
  next hd => simp [hd]
  next hd => simp [hd]

lemma mem_bucket_add : k ∈ bucket (addToDeadline deadlines key deadline) d ↔
    k ∈ bucket deadlines d ∨ (k = key ∧ d = deadline) := by
  rw [addToDeadline, bucket_insert]
  split
  next hd =>
    subst hd
    split
    next hmem =>
      constructor
      · exact .inl
      · rintro (h | ⟨rfl, -⟩)
        · exact h
        · exact hmem
    next => simp
  next hd => simp [hd]

lemma Filled.remove (h : Filled deadlines) :
    Filled (removeFromDeadline deadlines key deadline) := by
  intro d
  unfold removeFromDeadline
  split
  · exact h d
  next keys hkeys =>
    dsimp only
    by_cases hd : d = deadline
    · subst hd
      split
      · simp
      next hne => simpa [List.isEmpty_iff] using hne
    · split
      · rw [AList.lookup_erase_ne hd]
        exact h d
      · rw [AList.lookup_insert_ne hd]
        exact h d

lemma Filled.add (h : Filled deadlines) : Filled (addToDeadline deadlines key deadline) := by
  intro d
  unfold addToDeadline
  by_cases hd : d = deadline
  · subst hd
    rw [AList.lookup_insert]
    split
    next hmem => exact fun h => List.ne_nil_of_mem hmem (Option.some.inj h)
    next => simp
  · rw [AList.lookup_insert_ne hd]
    exact h d

/-- The order in which the `HashSet` of a deadline gives its keys. -/
structure HashOrder (κ : Type) where
  iter : ℕ → List κ → List κ
  perm : ∀ deadline keys, (iter deadline keys).Perm keys

/-- Keys as they stand in the list. -/
def HashOrder.listed (κ : Type) : HashOrder κ := ⟨fun _ => id, fun _ _ => .refl _⟩

/-- The calls of `expect`, by what they say. -/
inductive Expect
  /-- `out-of-order queue insertion checked` -/
  | insertionChecked
  /-- `deadline buckets are never empty` -/
  | neverEmpty
  deriving DecidableEq

/-- `DeadlineSet`: its two maps. -/
structure RawSet (κ : Type) [DecidableEq κ] where
  keys : AList fun _ : κ => ℕ
  deadlines : Index κ

namespace RawSet

def empty : RawSet κ := ⟨∅, ∅⟩

variable (s : RawSet κ)

def insert (key : κ) (deadline : ℕ) : RawSet κ where
  keys := s.keys.insert key deadline
  deadlines :=
    match s.keys.lookup key with
    | some old =>
      if old = deadline then s.deadlines
      else addToDeadline (removeFromDeadline s.deadlines key old) key deadline
    | none => addToDeadline s.deadlines key deadline

def remove (key : κ) : Bool × RawSet κ :=
  match s.keys.lookup key with
  | none => (false, s)
  | some deadline => (true, ⟨s.keys.erase key, removeFromDeadline s.deadlines key deadline⟩)

def nextDeadline : Option ℕ := s.deadlines.keys.min?

def popExpired (order : HashOrder κ) (now : ℕ) : Except Expect (Option κ × RawSet κ) :=
  match s.nextDeadline with
  | none => .ok (none, s)
  | some deadline =>
    if now < deadline then .ok (none, s)
    else
      match (s.deadlines.lookup deadline).bind fun keys => (order.iter deadline keys).head? with
      | none => .error .neverEmpty
      | some key => .ok (some key, (s.remove key).2)

/-- `first_matching`: the deadlines from the earliest on. -/
def firstMatching (order : HashOrder κ) (included : κ → Bool) : Option κ :=
  (s.deadlines.keys.insertionSort (· ≤ ·)).findSome? fun deadline =>
    (order.iter deadline (bucket s.deadlines deadline)).find? included

/-- Each map says what the other one says, and no deadline is without a key. -/
structure Inverse : Prop where
  indexed : ∀ key deadline, s.keys.lookup key = some deadline ↔ key ∈ bucket s.deadlines deadline
  filled : Filled s.deadlines

variable {s}

lemma inverse_empty : (empty : RawSet κ).Inverse :=
  ⟨fun key deadline => by simp [empty, bucket], fun deadline => by simp [empty]⟩

lemma lookup_insert : (s.insert key deadline).keys.lookup k =
    if k = key then some deadline else s.keys.lookup k := by
  split
  next hk => rw [hk, insert, AList.lookup_insert]
  next hk => rw [insert, AList.lookup_insert_ne hk]

lemma lookup_remove : (s.remove key).2.keys.lookup k =
    if k = key then none else s.keys.lookup k := by
  unfold remove
  split
  next hnone =>
    split
    next hk => rw [hk, hnone]
    next => rfl
  next =>
    split
    next hk => rw [hk, AList.lookup_erase]
    next hk => rw [AList.lookup_erase_ne hk]

lemma Inverse.mem_bucket_insert (h : s.Inverse) : k ∈ bucket (s.insert key deadline).deadlines d ↔
    if k = key then d = deadline else k ∈ bucket s.deadlines d := by
  dsimp only [RawSet.insert]
  split
  next old hold =>
    have honly : ∀ d, key ∈ bucket s.deadlines d ↔ d = old := fun d => by
      rw [← h.indexed, hold, Option.some.injEq, eq_comm]
    split
    next heq =>
      by_cases hk : k = key
      · rw [hk, honly, if_pos rfl, heq]
      · rw [if_neg hk]
    next hne =>
      rw [mem_bucket_add, mem_bucket_remove]
      by_cases hk : k = key
      · simp [hk, honly]
      · simp [hk]
  next hnone =>
    have hnot : ∀ d, key ∉ bucket s.deadlines d := fun d hmem => by
      rw [(h.indexed key d).mpr hmem] at hnone
      cases hnone
    rw [mem_bucket_add]
    by_cases hk : k = key
    · simp [hk, hnot]
    · simp [hk]

lemma Inverse.insert (h : s.Inverse) (key : κ) (deadline : ℕ) :
    (s.insert key deadline).Inverse where
  indexed k d := by
    rw [h.mem_bucket_insert, lookup_insert]
    by_cases hk : k = key
    · rw [if_pos hk, if_pos hk, Option.some.injEq, eq_comm]
    · rw [if_neg hk, if_neg hk, h.indexed]
  filled := by
    dsimp only [RawSet.insert]
    split
    · split
      · exact h.filled
      · exact h.filled.remove.add
    · exact h.filled.add

lemma Inverse.remove (h : s.Inverse) (key : κ) : (s.remove key).2.Inverse := by
  unfold RawSet.remove
  split
  · exact h
  next deadline hkey =>
    refine ⟨fun k d => ?_, h.filled.remove⟩
    rw [mem_bucket_remove, ← h.indexed]
    by_cases hk : k = key
    · subst hk
      simp [hkey, eq_comm]
    · rw [AList.lookup_erase_ne hk]
      simp [hk]

/-- A key is due exactly when one is taken, and then none is due before it. -/
lemma Inverse.popExpired (h : s.Inverse) (order : HashOrder κ) (now : ℕ) :
    (s.popExpired order now = .ok (none, s) ∧
        ∀ key deadline, s.keys.lookup key = some deadline → now < deadline) ∨
      ∃ key deadline, s.popExpired order now = .ok (some key, (s.remove key).2) ∧
        s.keys.lookup key = some deadline ∧ deadline ≤ now ∧
        ∀ k d, s.keys.lookup k = some d → deadline ≤ d := by
  have hkeys {k : κ} {d : ℕ} (hk : s.keys.lookup k = some d) : d ∈ s.deadlines.keys :=
    mem_keys_of_mem_bucket ((h.indexed k d).mp hk)
  unfold RawSet.popExpired RawSet.nextDeadline
  rcases hmin : s.deadlines.keys.min? with _ | first
  · refine .inl ⟨rfl, fun key deadline hkey => ?_⟩
    have hin := hkeys hkey
    rw [List.min?_eq_none_iff.mp hmin] at hin
    cases hin
  · obtain ⟨hfirst, hleast⟩ := List.min?_eq_some_iff.mp hmin
    dsimp only
    by_cases hlater : now < first
    · rw [if_pos hlater]
      exact .inl ⟨rfl, fun key deadline hkey => hlater.trans_le (hleast deadline (hkeys hkey))⟩
    · -- the entry of the index has a key, whichever comes first
      obtain ⟨keys, hlookup⟩ := Option.isSome_iff_exists.mp
        (AList.lookup_isSome.mpr (AList.mem_keys.mpr hfirst))
      rcases hiter : order.iter first keys with _ | ⟨key, rest⟩
      · have hnil : keys = [] := (hiter ▸ order.perm first keys).nil_eq.symm
        exact absurd (hnil ▸ hlookup) (h.filled first)
      · have hmem : key ∈ keys := (order.perm first keys).mem_iff.mp (hiter ▸ List.mem_cons_self)
        have hkey : s.keys.lookup key = some first := by
          rw [h.indexed, bucket, hlookup]
          exact hmem
        refine .inr ⟨key, first, ?_, hkey, not_lt.mp hlater, fun k d hk => hleast d (hkeys hk)⟩
        rw [if_neg hlater, hlookup, Option.bind_some, hiter, List.head?_cons]

/-- A key that matches is found when there is one, and then none that matches is due before it. -/
lemma Inverse.firstMatching (h : s.Inverse) (order : HashOrder κ) (included : κ → Bool) :
    (s.firstMatching order included = none ∧
        ∀ key, included key = true → s.keys.lookup key = none) ∨
      ∃ key deadline, s.firstMatching order included = some key ∧ included key = true ∧
        s.keys.lookup key = some deadline ∧
        ∀ k d, included k = true → s.keys.lookup k = some d → deadline ≤ d := by
  have hsorted : ∀ {k d}, s.keys.lookup k = some d →
      d ∈ s.deadlines.keys.insertionSort (· ≤ ·) := by
    intro k d hk
    rw [List.mem_insertionSort]
    exact mem_keys_of_mem_bucket ((h.indexed k d).mp hk)
  have hnone : ∀ {k d}, included k = true → s.keys.lookup k = some d →
      (order.iter d (bucket s.deadlines d)).find? included ≠ none := by
    intro k d hincluded hk hfind
    have hmem : k ∈ order.iter d (bucket s.deadlines d) :=
      (order.perm _ _).mem_iff.mpr ((h.indexed k d).mp hk)
    exact absurd hincluded (List.find?_eq_none.mp hfind k hmem)
  rcases hfirst : s.firstMatching order included with _ | key
  · refine .inl ⟨rfl, fun key hkey => ?_⟩
    by_contra hne
    obtain ⟨d, hd⟩ := Option.ne_none_iff_exists'.mp hne
    exact hnone hkey hd (List.findSome?_eq_none_iff.mp hfirst d (hsorted hd))
  · obtain ⟨front, deadline, back, hsplit, hfind, hfront⟩ := List.findSome?_eq_some_iff.mp hfirst
    have hmem : key ∈ bucket s.deadlines deadline :=
      (order.perm _ _).mem_iff.mp (List.mem_of_find?_eq_some hfind)
    refine .inr ⟨key, deadline, rfl, List.find?_some hfind, (h.indexed key deadline).mpr hmem, ?_⟩
    intro k d hincluded hk
    have hd := hsorted hk
    have hpairwise := List.pairwise_insertionSort (· ≤ ·) s.deadlines.keys
    rw [hsplit] at hd hpairwise
    rcases List.mem_append.mp hd with hd | hd
    · exact absurd (hfront d hd) (hnone hincluded hk)
    · rcases List.mem_cons.mp hd with rfl | hd
      · exact le_rfl
      · exact (List.pairwise_cons.mp (List.pairwise_append.mp hpairwise).2.1).1 d hd

end RawSet

/-- A set whose maps agree, with the order its `HashSet`s have. -/
structure DeadlineSet (κ : Type) [DecidableEq κ] extends RawSet κ where
  order : HashOrder κ
  inverse : toRawSet.Inverse

namespace DeadlineSet

def empty (order : HashOrder κ := .listed κ) : DeadlineSet κ :=
  ⟨.empty, order, RawSet.inverse_empty⟩

variable (s : DeadlineSet κ) {s' : DeadlineSet κ} {now : ℕ}

def insert (key : κ) (deadline : ℕ) : DeadlineSet κ :=
  ⟨s.toRawSet.insert key deadline, s.order, s.inverse.insert key deadline⟩

def remove (key : κ) : Bool × DeadlineSet κ :=
  ((s.toRawSet.remove key).1, ⟨(s.toRawSet.remove key).2, s.order, s.inverse.remove key⟩)

/-- `pop_expired`; the error does not happen, by `inverse`. -/
def popExpired (now : ℕ) : Option κ × DeadlineSet κ :=
  match s.toRawSet.popExpired s.order now with
  | .ok (some key, _) => (some key, (s.remove key).2)
  | _ => (none, s)

def firstMatching (included : κ → Bool) : Option κ := s.toRawSet.firstMatching s.order included

lemma lookup_insert : (s.insert key deadline).keys.lookup k =
    if k = key then some deadline else s.keys.lookup k := RawSet.lookup_insert

lemma lookup_remove : (s.remove key).2.keys.lookup k =
    if k = key then none else s.keys.lookup k := RawSet.lookup_remove

lemma keys_remove_lt (h : s.keys.lookup key = some deadline) :
    (s.remove key).2.keys.keys.length < s.keys.keys.length := by
  have hmem : key ∈ s.keys.keys := AList.mem_keys.mp (AList.lookup_isSome.mp (h ▸ rfl))
  have hpos := List.length_pos_of_mem hmem
  dsimp only [remove, RawSet.remove]
  rw [h]
  dsimp only
  rw [AList.keys_erase, List.length_erase_of_mem hmem]
  omega

/-- What the two maps return and become. -/
lemma popExpired_raw (now : ℕ) : s.toRawSet.popExpired s.order now =
    .ok ((s.popExpired now).1, (s.popExpired now).2.toRawSet) := by
  unfold popExpired
  rcases s.inverse.popExpired s.order now with ⟨hpop, -⟩ | ⟨key, deadline, hpop, -⟩
  · rw [hpop]
  · rw [hpop]
    rfl

/-- A key that is taken was due, and is removed. -/
lemma popExpired_eq_some (h : s.popExpired now = (some key, s')) :
    s' = (s.remove key).2 ∧ ∃ deadline ≤ now, s.keys.lookup key = some deadline := by
  unfold popExpired at h
  rcases s.inverse.popExpired s.order now with ⟨hpop, -⟩ | ⟨k, deadline, hpop, hk, hdue, -⟩
  · rw [hpop] at h
    cases h
  · rw [hpop] at h
    cases h
    exact ⟨rfl, deadline, hdue, hk⟩

/-- When none is taken, none is due. -/
lemma popExpired_eq_none (h : s.popExpired now = (none, s')) :
    s' = s ∧ ∀ key deadline, s.keys.lookup key = some deadline → now < deadline := by
  unfold popExpired at h
  rcases s.inverse.popExpired s.order now with ⟨hpop, hlater⟩ | ⟨k, deadline, hpop, -⟩
  · rw [hpop] at h
    cases h
    exact ⟨rfl, hlater⟩
  · rw [hpop] at h
    cases h

/-- The next deadline is the earliest. -/
lemma nextDeadline_later : (∀ deadline, s.nextDeadline = some deadline → now < deadline) ↔
    ∀ key deadline, s.keys.lookup key = some deadline → now < deadline := by
  constructor
  · intro h key deadline hkey
    have hmem := mem_keys_of_mem_bucket ((s.inverse.indexed key deadline).mp hkey)
    rcases hmin : s.nextDeadline with _ | first
    · rw [List.min?_eq_none_iff.mp hmin] at hmem
      cases hmem
    · exact (h first hmin).trans_le ((List.min?_eq_some_iff.mp hmin).2 deadline hmem)
  · intro h deadline hnext
    have hmem := (List.min?_eq_some_iff.mp hnext).1
    obtain ⟨keys, hkeys⟩ := Option.isSome_iff_exists.mp
      (AList.lookup_isSome.mpr (AList.mem_keys.mpr hmem))
    obtain ⟨key, hkey⟩ := List.exists_mem_of_ne_nil keys fun hnil =>
      s.inverse.filled deadline (hnil ▸ hkeys)
    refine h key deadline ((s.inverse.indexed key deadline).mpr ?_)
    rwa [bucket, hkeys, Option.getD_some]

/-- A key that is taken is there no longer. -/
lemma keys_popExpired_lt (h : s.popExpired now = (some key, s')) :
    s'.keys.keys.length < s.keys.keys.length := by
  obtain ⟨rfl, deadline, -, hkey⟩ := s.popExpired_eq_some h
  exact s.keys_remove_lt hkey

end DeadlineSet

end Cacophony.Deadlines
