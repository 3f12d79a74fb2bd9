import Mathlib.Algebra.Order.BigOperators.Group.Finset
import Mathlib.Algebra.Order.Group.Multiset
import Mathlib.Data.Fintype.Basic
import Cacophony.Deadlines
import Cacophony.StableOrder

/-!
Queues of values with deadlines, one a bucket, `BucketDeadlineQueue` of `queue.rs`.

A bucket keeps its values in the order of their deadlines, and the deadline of a bucket is the
one of its front. `RawQueue` has the parts of the queue as the source has them; that they agree is
part of the type `BucketDeadlineQueue`. What is in the buckets is a multiset: a value that is pushed
is added to it, and one that is popped is taken away.
-/

namespace Cacophony.BucketQueue

open Deadlines StableOrder

structure DeadlineValue (τ : Type) where
  deadline : ℕ
  value : τ

section Items

variable {τ : Type} {items arrived : List (DeadlineValue τ)}

/-- Where `push` puts an item. -/
def insertItem (items : List (DeadlineValue τ)) (item : DeadlineValue τ) :
    List (DeadlineValue τ) :=
  if items.getLast?.all fun queued => queued.deadline ≤ item.deadline then items ++ [item]
  else items.insertIdx (items.findIdx fun queued => item.deadline < queued.deadline) item

lemma perm_insertItem (items : List (DeadlineValue τ)) (item : DeadlineValue τ) :
    (insertItem items item).Perm (item :: items) := by
  unfold insertItem
  split
  · exact List.perm_append_singleton item items
  · exact List.perm_insertIdx _ _ (List.findIdx_le_length)

/-- When the last item is later, the search for a later one finds one. -/
lemma findIdx?_of_getLast? {deadline : ℕ}
    (h : ¬ (items.getLast?.all fun queued => decide (queued.deadline ≤ deadline)) = true) :
    (items.findIdx? fun queued => deadline < queued.deadline) =
      some (items.findIdx fun queued => deadline < queued.deadline) := by
  rcases hlast : items.getLast? with _ | last
  · simp [hlast] at h
  · refine List.findIdx?_eq_some_of_exists ⟨last, List.mem_of_getLast? hlast, ?_⟩
    simpa [hlast] using h

/-- The item stands behind all that are not later. -/
lemma stable_insertItem (h : Stable DeadlineValue.deadline items arrived) (item : DeadlineValue τ) :
    Stable DeadlineValue.deadline (insertItem items item) (arrived ++ [item]) := by
  have hsorted := h.pairwise
  unfold insertItem
  split
  next hlast =>
    refine Stable.insert (by rwa [List.append_nil]) (fun x hx => ?_) (List.forall_mem_nil _)
    -- the last one is the latest
    obtain ⟨front, last, rfl⟩ := (List.eq_nil_or_concat' items).resolve_left (List.ne_nil_of_mem hx)
    have hle : last.deadline ≤ item.deadline := by simpa using hlast
    rcases List.mem_append.mp hx with hx | hx
    · exact ((List.pairwise_append.mp hsorted).2.2 x hx last (List.mem_singleton_self _)).trans hle
    · rwa [List.mem_singleton.mp hx]
  next hlast =>
    obtain ⟨front, next, back, rfl, hinsert, hfront, hnext⟩ :=
      insertIdx_of_findIdx? (findIdx?_of_getLast? hlast) item
    rw [hinsert]
    refine Stable.insert h (fun x hx => by simpa using hfront x hx) (fun x hx => ?_)
    have hlt : item.deadline < next.deadline := by simpa using hnext
    rcases List.mem_cons.mp hx with rfl | hx
    · exact hlt
    · have hrest := List.pairwise_cons.mp (List.pairwise_append.mp hsorted).2.1
      exact hlt.trans_le (hrest.1 x hx)

end Items

/-- `BucketDeadlineQueue`, with nothing said about its parts. The index of a bucket tells it from
all others, so the array of the buckets is a function of them. -/
structure RawQueue (β τ : Type) [DecidableEq β] where
  buckets : β → List (DeadlineValue τ)
  deadlines : RawSet β

namespace RawQueue

variable {β τ : Type} [DecidableEq β]

/-- `default` -/
def empty : RawQueue β τ := ⟨fun _ => [], .empty⟩

variable (q : RawQueue β τ)

def refreshBucketDeadline (b : β) : RawQueue β τ :=
  match (q.buckets b).head? with
  | some front => { q with deadlines := q.deadlines.insert b front.deadline }
  | none => { q with deadlines := (q.deadlines.remove b).2 }

def setBucket (b : β) (items : List (DeadlineValue τ)) : RawQueue β τ :=
  { q with buckets := Function.update q.buckets b items }

def push (b : β) (value : τ) (deadline : ℕ) : Except Expect (RawQueue β τ) :=
  let items := q.buckets b
  if items.getLast?.all fun queued => queued.deadline ≤ deadline then
    .ok ((q.setBucket b (items ++ [⟨deadline, value⟩])).refreshBucketDeadline b)
  else
    match items.findIdx? fun queued => deadline < queued.deadline with
    | none => .error .insertionChecked
    | some index =>
      .ok ((q.setBucket b (items.insertIdx index ⟨deadline, value⟩)).refreshBucketDeadline b)

def popBucketFront (b : β) : Option τ × RawQueue β τ :=
  match q.buckets b with
  | [] => (none, q)
  | item :: items => (some item.value, (q.setBucket b items).refreshBucketDeadline b)

def popExpired (order : HashOrder β) (now : ℕ) : Except Expect (Option τ × RawQueue β τ) :=
  match q.deadlines.popExpired order now with
  | .error error => .error error
  | .ok (none, deadlines) => .ok (none, { q with deadlines })
  | .ok (some b, deadlines) => .ok (popBucketFront { q with deadlines } b)

def popMatching (order : HashOrder β) (included : β → Bool) : Option τ × RawQueue β τ :=
  match q.deadlines.firstMatching order included with
  | none => (none, q)
  | some b => q.popBucketFront b

def retain (b : β) (keep : τ → Bool) : RawQueue β τ :=
  (q.setBucket b ((q.buckets b).filter fun item => keep item.value)).refreshBucketDeadline b

variable {q} {b : β}

lemma buckets_refresh (q : RawQueue β τ) (b : β) :
    (q.refreshBucketDeadline b).buckets = q.buckets := by
  unfold refreshBucketDeadline
  split <;> rfl

lemma inverse_refresh (h : q.deadlines.Inverse) (b : β) :
    (q.refreshBucketDeadline b).deadlines.Inverse := by
  unfold refreshBucketDeadline
  split
  · exact h.insert _ _
  · exact h.remove _

/-- Each bucket that is not empty has the deadline of its front, and the others have none. -/
def Fronts (q : RawQueue β τ) : Prop :=
  ∀ b, q.deadlines.keys.lookup b = (q.buckets b).head?.map DeadlineValue.deadline

/-- After a refresh a bucket has its deadline, if the others have theirs. -/
lemma fronts_refresh (h : ∀ b' ≠ b,
      q.deadlines.keys.lookup b' = (q.buckets b').head?.map DeadlineValue.deadline) :
    (q.refreshBucketDeadline b).Fronts := by
  intro b'
  rw [buckets_refresh]
  unfold refreshBucketDeadline
  rcases hhead : (q.buckets b).head? with _ | front
  · dsimp only
    rw [RawSet.lookup_remove]
    split
    next hb => rw [hb, hhead, Option.map_none]
    next hb => exact h b' hb
  · dsimp only
    rw [RawSet.lookup_insert]
    split
    next hb => rw [hb, hhead, Option.map_some]
    next hb => exact h b' hb

lemma push_eq (q : RawQueue β τ) (b : β) (value : τ) (deadline : ℕ) :
    q.push b value deadline = .ok
      ((q.setBucket b (insertItem (q.buckets b) ⟨deadline, value⟩)).refreshBucketDeadline b) := by
  unfold push insertItem
  dsimp only
  split
  · rfl
  next hlast => rw [findIdx?_of_getLast? hlast]

end RawQueue

structure BucketDeadlineQueue (β τ : Type) [DecidableEq β] extends RawQueue β τ where
  order : HashOrder β
  inverse : deadlines.Inverse
  fronts : toRawQueue.Fronts

namespace BucketDeadlineQueue

variable {β τ : Type} [DecidableEq β]

def empty (order : HashOrder β := .listed β) : BucketDeadlineQueue β τ :=
  ⟨.empty, order, RawSet.inverse_empty, fun _ => rfl⟩

variable (q : BucketDeadlineQueue β τ) {items : List (DeadlineValue τ)} {item : DeadlineValue τ}

/-- The deadlines of the buckets. -/
def deadlineSet : DeadlineSet β := ⟨q.deadlines, q.order, q.inverse⟩

/-- The queue with other items in a bucket. -/
def withBucket (b : β) (items : List (DeadlineValue τ)) : BucketDeadlineQueue β τ where
  toRawQueue := (q.setBucket b items).refreshBucketDeadline b
  order := q.order
  inverse := RawQueue.inverse_refresh (q := q.setBucket b items) q.inverse b
  fronts := RawQueue.fronts_refresh fun b' hb => by
    dsimp only [RawQueue.setBucket]
    rw [Function.update_of_ne hb, q.fronts b']

lemma buckets_withBucket (b : β) (items : List (DeadlineValue τ)) :
    (q.withBucket b items).buckets = Function.update q.buckets b items :=
  RawQueue.buckets_refresh _ b

lemma mem_withBucket {b b' : β} :
    item ∈ (q.withBucket b items).buckets b' ↔
      if b' = b then item ∈ items else item ∈ q.buckets b' := by
  rw [buckets_withBucket]
  split
  next hb => rw [hb, Function.update_self]
  next hb => rw [Function.update_of_ne hb]

lemma lookup_deadlineSet (b : β) :
    q.deadlineSet.keys.lookup b = (q.buckets b).head?.map DeadlineValue.deadline := q.fronts b

def push (b : β) (value : τ) (deadline : ℕ) : BucketDeadlineQueue β τ :=
  q.withBucket b (insertItem (q.buckets b) ⟨deadline, value⟩)

def popBucketFront (b : β) : Option τ × BucketDeadlineQueue β τ :=
  match q.buckets b with
  | [] => (none, q)
  | item :: items => (some item.value, q.withBucket b items)

def popMatching (included : β → Bool) : Option τ × BucketDeadlineQueue β τ :=
  match q.deadlineSet.firstMatching included with
  | none => (none, q)
  | some b => q.popBucketFront b

/-- `pop_expired`; the bucket is refreshed, so its old deadline need not be taken out first. -/
def popExpired (now : ℕ) : Option τ × BucketDeadlineQueue β τ :=
  match q.deadlineSet.popExpired now with
  | (none, _) => (none, q)
  | (some b, _) => q.popBucketFront b

def nextDeadline : Option ℕ := q.deadlineSet.nextDeadline

def retain (b : β) (keep : τ → Bool) : BucketDeadlineQueue β τ :=
  q.withBucket b ((q.buckets b).filter fun item => keep item.value)

variable {q} {now : ℕ} {q' : BucketDeadlineQueue β τ}

lemma popMatching_cases (q : BucketDeadlineQueue β τ) (included : β → Bool) :
    (q.popMatching included = (none, q) ∧ ∀ b, included b = true → q.buckets b = []) ∨
      ∃ b item items, included b = true ∧ q.buckets b = item :: items ∧
        q.popMatching included = (some item.value, q.withBucket b items) := by
  unfold popMatching DeadlineSet.firstMatching
  rcases q.inverse.firstMatching q.order included with
    ⟨hfirst, hnone⟩ | ⟨b, deadline, hfirst, hb, hdeadline, -⟩
  · refine .inl ⟨by rw [deadlineSet, hfirst], fun b hb => ?_⟩
    have hempty := hnone b hb
    rw [q.fronts] at hempty
    simpa using hempty
  · rw [q.fronts] at hdeadline
    rcases hitems : q.buckets b with _ | ⟨item, items⟩
    · simp [hitems] at hdeadline
    · refine .inr ⟨b, item, items, hb, hitems, ?_⟩
      simp [deadlineSet, hfirst, popBucketFront, hitems]

/-- A value that has expired is at the front of its bucket, and is popped from there. -/
lemma popExpired_eq_some {value : τ} (h : q.popExpired now = (some value, q')) :
    ∃ b item items, q.buckets b = item :: items ∧ item.value = value ∧
      q' = q.withBucket b items := by
  unfold popExpired popBucketFront at h
  split at h
  · cases h
  next b _ _ =>
    split at h
    · cases h
    next item items hitems =>
      cases h
      exact ⟨b, item, items, hitems, rfl, rfl⟩

/-- When none has expired, the fronts of the buckets are later. -/
lemma popExpired_eq_none (h : q.popExpired now = (none, q')) :
    q' = q ∧ ∀ b item items, q.buckets b = item :: items → now < item.deadline := by
  unfold popExpired popBucketFront at h
  split at h
  next hpop =>
    cases h
    refine ⟨rfl, fun b item items hitems => ?_⟩
    refine (q.deadlineSet.popExpired_eq_none hpop).2 b item.deadline ?_
    rw [lookup_deadlineSet, hitems, List.head?_cons, Option.map_some]
  next b _ hpop =>
    split at h
    next hitems =>
      -- a bucket with a deadline has a front
      obtain ⟨-, deadline, -, hdeadline⟩ := q.deadlineSet.popExpired_eq_some hpop
      rw [lookup_deadlineSet, hitems] at hdeadline
      cases hdeadline
    · cases h

/-! ### The order of the values -/

/-- Every bucket has its values in the order of their deadlines. -/
def Ordered (q : BucketDeadlineQueue β τ) : Prop :=
  ∀ b, (q.buckets b).Pairwise fun x y => x.deadline ≤ y.deadline

lemma ordered_empty : (empty : BucketDeadlineQueue β τ).Ordered := fun _ => List.Pairwise.nil

lemma Ordered.withBucket (h : q.Ordered) {b : β}
    (hitems : items.Pairwise fun x y => x.deadline ≤ y.deadline) :
    (q.withBucket b items).Ordered := by
  intro b'
  rw [buckets_withBucket]
  by_cases hb : b' = b
  · rw [hb, Function.update_self]
    exact hitems
  · rw [Function.update_of_ne hb]
    exact h b'

lemma Ordered.push (h : q.Ordered) (b : β) (value : τ) (deadline : ℕ) :
    (q.push b value deadline).Ordered :=
  h.withBucket (stable_insertItem ⟨h b, fun _ => rfl⟩ _).pairwise

lemma Ordered.popExpired (h : q.Ordered) (now : ℕ) : (q.popExpired now).2.Ordered := by
  rcases hpop : q.popExpired now with ⟨_ | value, q'⟩
  · rw [(popExpired_eq_none hpop).1]
    exact h
  · obtain ⟨b, item, items, hitems, -, rfl⟩ := popExpired_eq_some hpop
    exact h.withBucket (List.pairwise_cons.mp (hitems ▸ h b)).2

lemma Ordered.popMatching (h : q.Ordered) (included : β → Bool) :
    (q.popMatching included).2.Ordered := by
  rcases q.popMatching_cases included with ⟨hpop, -⟩ | ⟨b, item, items, -, hitems, hpop⟩
  · rw [hpop]
    exact h
  · rw [hpop]
    exact h.withBucket (List.pairwise_cons.mp (hitems ▸ h b)).2

lemma Ordered.retain (h : q.Ordered) (b : β) (keep : τ → Bool) : (q.retain b keep).Ordered :=
  h.withBucket ((h b).filter _)

lemma mem_retain (b : β) (keep : τ → Bool) (b' : β) (item : DeadlineValue τ) :
    item ∈ (q.retain b keep).buckets b' ↔
      item ∈ q.buckets b' ∧ (b' = b → keep item.value = true) := by
  rw [BucketDeadlineQueue.retain, mem_withBucket]
  by_cases hb : b' = b
  · simp [hb]
  · simp [hb]

/-- No value has expired. -/
def Later (now : ℕ) (q : BucketDeadlineQueue β τ) : Prop :=
  ∀ b, ∀ item ∈ q.buckets b, now < item.deadline

lemma Ordered.later (h : q.Ordered)
    (hfront : ∀ b item items, q.buckets b = item :: items → now < item.deadline) : q.Later now := by
  intro b x hx
  rcases hitems : q.buckets b with _ | ⟨item, items⟩
  · rw [hitems] at hx
    cases hx
  · have hlater := hfront b item items hitems
    rw [hitems] at hx
    rcases List.mem_cons.mp hx with rfl | hx
    · exact hlater
    · exact hlater.trans_le ((List.pairwise_cons.mp (hitems ▸ h b)).1 x hx)

/-- The next deadline is the one of a value, and no value is earlier. -/
lemma Ordered.nextDeadline_later (h : q.Ordered) :
    (∀ deadline, q.nextDeadline = some deadline → now < deadline) ↔ q.Later now := by
  rw [nextDeadline, DeadlineSet.nextDeadline_later]
  constructor
  · intro hkeys
    refine h.later fun b item items hitems => hkeys b item.deadline ?_
    rw [lookup_deadlineSet, hitems, List.head?_cons, Option.map_some]
  · intro hlater b deadline hdeadline
    rw [lookup_deadlineSet] at hdeadline
    obtain ⟨item, hitem, rfl⟩ := Option.map_eq_some_iff.mp hdeadline
    exact hlater b item (List.mem_of_mem_head? hitem)

lemma later_push (b : β) (value : τ) (deadline : ℕ) :
    (q.push b value deadline).Later now ↔ q.Later now ∧ now < deadline := by
  have hbucket (b' : β) (x : DeadlineValue τ) : x ∈ (q.push b value deadline).buckets b' ↔
      x ∈ q.buckets b' ∨ (b' = b ∧ x = ⟨deadline, value⟩) := by
    rw [push, mem_withBucket, (perm_insertItem _ _).mem_iff, List.mem_cons]
    by_cases hb : b' = b
    · simp [hb, or_comm]
    · simp [hb]
  simp only [Later, hbucket]
  constructor
  · intro h
    exact ⟨fun b' x hx => h b' x (.inl hx), h b ⟨deadline, value⟩ (.inr ⟨rfl, rfl⟩)⟩
  · rintro ⟨hlater, hdeadline⟩ b' x (hx | ⟨-, rfl⟩)
    · exact hlater b' x hx
    · exact hdeadline

/-! ### What is in the buckets -/

variable [Fintype β]

def contents (q : BucketDeadlineQueue β τ) (p : β → Bool) : Multiset τ :=
  ∑ b with p b, ((q.buckets b).map DeadlineValue.value : Multiset τ)

lemma contents_eq_zero {p : β → Bool} :
    q.contents p = 0 ↔ ∀ b, p b = true → q.buckets b = [] := by
  simp [contents, Finset.sum_eq_zero_iff]

/-- The contents, once a bucket has other items. -/
lemma contents_withBucket (b : β) (items : List (DeadlineValue τ)) (p : β → Bool) :
    (q.withBucket b items).contents p +
        (if p b then ((q.buckets b).map DeadlineValue.value : Multiset τ) else 0) =
      q.contents p + (if p b then (items.map DeadlineValue.value : Multiset τ) else 0) := by
  unfold contents
  rw [buckets_withBucket]
  by_cases hp : p b = true
  · have hmem : b ∈ Finset.univ.filter fun b => p b = true := by simpa using hp
    rw [← Finset.add_sum_erase _ _ hmem, ← Finset.add_sum_erase (Finset.univ.filter _) (fun b =>
      ((q.buckets b).map DeadlineValue.value : Multiset τ)) hmem]
    have hrest : ∑ x ∈ (Finset.univ.filter fun b => p b = true).erase b,
        ((Function.update q.buckets b items x).map DeadlineValue.value : Multiset τ) =
        ∑ x ∈ (Finset.univ.filter fun b => p b = true).erase b,
          ((q.buckets x).map DeadlineValue.value : Multiset τ) :=
      Finset.sum_congr rfl fun x hx => by rw [Function.update_of_ne (Finset.ne_of_mem_erase hx)]
    rw [hrest, Function.update_self, if_pos hp, if_pos hp]
    ac_rfl
  · have hsame : ∑ x with p x = true,
        ((Function.update q.buckets b items x).map DeadlineValue.value : Multiset τ) =
        ∑ x with p x = true, ((q.buckets x).map DeadlineValue.value : Multiset τ) :=
      Finset.sum_congr rfl fun x hx => by
        have hne : x ≠ b := fun heq => hp (heq ▸ (Finset.mem_filter.mp hx).2)
        rw [Function.update_of_ne hne]
    rw [hsame, if_neg hp, if_neg hp]

lemma contents_push (b : β) (value : τ) (deadline : ℕ) (p : β → Bool) :
    (q.push b value deadline).contents p = q.contents p + if p b then {value} else 0 := by
  have h := contents_withBucket (q := q) b (insertItem (q.buckets b) ⟨deadline, value⟩) p
  rw [← push] at h
  have hperm : ((insertItem (q.buckets b) ⟨deadline, value⟩).map DeadlineValue.value :
      Multiset τ) = {value} + ((q.buckets b).map DeadlineValue.value : Multiset τ) :=
    Multiset.coe_eq_coe.mpr ((perm_insertItem _ _).map DeadlineValue.value)
  split
  next hp =>
    rw [if_pos hp, if_pos hp, hperm, ← add_assoc] at h
    exact add_right_cancel h
  next hp =>
    rw [if_neg hp, if_neg hp, add_zero] at h
    exact h

/-- The front of a bucket is taken from the contents. -/
lemma contents_front {b : β} (hitems : q.buckets b = item :: items) (p : β → Bool) :
    q.contents p = (q.withBucket b items).contents p + if p b then {item.value} else 0 := by
  have h := contents_withBucket (q := q) b items p
  split
  next hp =>
    have hcons : ((q.buckets b).map DeadlineValue.value : Multiset τ) =
        {item.value} + (items.map DeadlineValue.value : Multiset τ) := by
      rw [hitems]
      rfl
    rw [if_pos hp, if_pos hp, hcons, ← add_assoc] at h
    exact (add_right_cancel h).symm
  next hp =>
    rw [if_neg hp, if_neg hp, add_zero, add_zero] at h
    rw [add_zero, h]

/-- What is popped was in one of the buckets, unless they are empty. -/
lemma contents_popMatching (q : BucketDeadlineQueue β τ) (included : β → Bool) :
    (q.popMatching included = (none, q) ∧ q.contents included = 0) ∨
      ∃ b value q', included b = true ∧ q.popMatching included = (some value, q') ∧
        ∀ p, q.contents p = q'.contents p + if p b then {value} else 0 := by
  rcases q.popMatching_cases included with ⟨hpop, hempty⟩ | ⟨b, item, items, hb, hitems, hpop⟩
  · exact .inl ⟨hpop, contents_eq_zero.mpr hempty⟩
  · exact .inr ⟨b, item.value, q.withBucket b items, hb, hpop, contents_front hitems⟩

end BucketDeadlineQueue

end Cacophony.BucketQueue
