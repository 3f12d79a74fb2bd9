import Cacophony.BucketQueue

/-!
Runs of a `BucketDeadlineQueue`.

The queue is the one of the source, with nothing said about its maps, and a call of `expect` that
fails ends the run. Beside the queue stands the list of its entries in the order in
which they were pushed. Every run keeps the two together: the buckets are the entries in the order
of their deadlines, the deadline of a bucket is the one of its front, and what is popped is an entry
with the least deadline.
-/

namespace Cacophony.DeadlineRuns

open Deadlines BucketQueue StableOrder

/-! ### The entries in the order of arrival -/

/-- The values of a queue with their buckets, in the order in which they were pushed. -/
abbrev Entries (β τ : Type) : Type := List (β × DeadlineValue τ)

section Entries

variable {β τ : Type} [DecidableEq β] {es : Entries β τ}

/-- The entries of a bucket. -/
def inBucket (b : β) (es : Entries β τ) : List (DeadlineValue τ) :=
  es.filterMap fun e => if e.1 = b then some e.2 else none

lemma mem_inBucket {b : β} {item : DeadlineValue τ} : item ∈ inBucket b es ↔ (b, item) ∈ es := by
  simp only [inBucket, List.mem_filterMap, Option.ite_none_right_eq_some, Option.some.injEq]
  constructor
  · rintro ⟨⟨b', item'⟩, hmem, rfl, rfl⟩
    exact hmem
  · intro hmem
    exact ⟨(b, item), hmem, rfl, rfl⟩

lemma inBucket_append (b : β) (es fs : Entries β τ) :
    inBucket b (es ++ fs) = inBucket b es ++ inBucket b fs := List.filterMap_append

lemma inBucket_cons_self (b : β) (item : DeadlineValue τ) (es : Entries β τ) :
    inBucket b ((b, item) :: es) = item :: inBucket b es := by
  simp [inBucket]

lemma inBucket_cons_ne {b b' : β} (h : b' ≠ b) (item : DeadlineValue τ)
    (es : Entries β τ) : inBucket b' ((b, item) :: es) = inBucket b' es := by
  simp [inBucket, h.symm]

/-- Where an entry of a bucket stands among all entries. -/
lemma inBucket_eq_append {b : β} {item : DeadlineValue τ} {before after : List (DeadlineValue τ)}
    (h : inBucket b es = before ++ item :: after) :
    ∃ front back, es = front ++ (b, item) :: back ∧ inBucket b front = before ∧
      inBucket b back = after := by
  obtain ⟨front, rest, rfl, hfront, hrest⟩ := List.filterMap_eq_append_iff.mp h
  obtain ⟨skipped, ⟨b', item'⟩, back, rfl, hskipped, hitem, hback⟩ :=
    List.filterMap_eq_cons_iff.mp hrest
  obtain ⟨rfl, rfl⟩ : b' = b ∧ item' = item := by simpa using hitem
  refine ⟨front ++ skipped, back, by simp, ?_, hback⟩
  rw [inBucket_append, inBucket, hfront, inBucket, List.filterMap_eq_nil_iff.mpr hskipped,
    List.append_nil]

/-- The entry leaves. Of the buckets in `included` none has an earlier one, and it is the oldest of
its bucket with its deadline. -/
structure Leaves (included : β → Bool) (es : Entries β τ) (e : β × DeadlineValue τ)
    (es' : Entries β τ) : Prop where
  matches_eq : included e.1 = true
  least : ∀ x ∈ es, included x.1 = true → e.2.deadline ≤ x.2.deadline
  oldest : ∃ front back, es = front ++ e :: back ∧ es' = front ++ back ∧
    ∀ x ∈ front, x.1 = e.1 → x.2.deadline ≠ e.2.deadline

end Entries

/-! ### One call -/

inductive Op (β τ : Type)
  | push (b : β) (value : τ) (deadline : ℕ)
  | popExpired (order : HashOrder β) (now : ℕ)
  | popMatching (order : HashOrder β) (included : β → Bool)
  | retain (b : β) (keep : τ → Bool)

variable {β τ : Type} [DecidableEq β]

/-- What a call returns, and the queue after it. -/
def runOp (q : RawQueue β τ) : Op β τ → Except Expect (Option τ × RawQueue β τ)
  | .push b value deadline => (q.push b value deadline).map fun q => (none, q)
  | .popExpired order now => q.popExpired order now
  | .popMatching order included => .ok (q.popMatching order included)
  | .retain b keep => .ok (none, q.retain b keep)

/-- What a priority queue may answer to a call, and its entries after it. -/
inductive Answers : Entries β τ → Op β τ → Option τ → Entries β τ → Prop
  | push (es : Entries β τ) (b : β) (value : τ) (deadline : ℕ) :
      Answers es (.push b value deadline) none (es ++ [(b, ⟨deadline, value⟩)])
  | expired {es es' : Entries β τ} {e : β × DeadlineValue τ} {order : HashOrder β}
      {now : ℕ} (hdue : e.2.deadline ≤ now) (h : Leaves (fun _ => true) es e es') :
      Answers es (.popExpired order now) (some e.2.value) es'
  | notExpired {es : Entries β τ} {order : HashOrder β} {now : ℕ}
      (h : ∀ e ∈ es, now < e.2.deadline) : Answers es (.popExpired order now) none es
  | matching {es es' : Entries β τ} {e : β × DeadlineValue τ} {order : HashOrder β}
      {included : β → Bool} (h : Leaves included es e es') :
      Answers es (.popMatching order included) (some e.2.value) es'
  | noMatching {es : Entries β τ} {order : HashOrder β} {included : β → Bool}
      (h : ∀ e ∈ es, included e.1 = false) : Answers es (.popMatching order included) none es
  | retain (es : Entries β τ) (b : β) (keep : τ → Bool) :
      Answers es (.retain b keep) none (es.filter fun e => e.1 ≠ b || keep e.2.value)

section Answers

variable {es es' : Entries β τ} {out : Option τ} {order : HashOrder β} {now : ℕ}
  {included : β → Bool}

/-- A value is returned exactly when one has expired. -/
lemma Answers.isSome_popExpired (h : Answers es (.popExpired order now) out es') :
    out.isSome = true ↔ ∃ e ∈ es, e.2.deadline ≤ now := by
  cases h with
  | expired hdue hleaves =>
    obtain ⟨front, back, rfl, -, -⟩ := hleaves.oldest
    exact iff_of_true rfl ⟨_, List.mem_append_right _ List.mem_cons_self, hdue⟩
  | notExpired hlater =>
    refine iff_of_false Bool.false_ne_true ?_
    rintro ⟨e, he, hdue⟩
    exact absurd (hlater e he) (not_lt.mpr hdue)

/-- A value is returned exactly when one of the buckets has one. -/
lemma Answers.isSome_popMatching (h : Answers es (.popMatching order included) out es') :
    out.isSome = true ↔ ∃ e ∈ es, included e.1 = true := by
  cases h with
  | matching hleaves =>
    obtain ⟨front, back, rfl, -, -⟩ := hleaves.oldest
    exact iff_of_true rfl ⟨_, List.mem_append_right _ List.mem_cons_self, hleaves.matches_eq⟩
  | noMatching hnone =>
    refine iff_of_false Bool.false_ne_true ?_
    rintro ⟨e, he, hincluded⟩
    rw [hnone e he] at hincluded
    cases hincluded

end Answers

/-- The buckets are the entries in the order of their deadlines, equal deadlines in the order of
arrival. Each bucket that is not empty has the deadline of its front in the set, the others none,
and the maps of the set agree. -/
structure Sound (q : RawQueue β τ) (es : Entries β τ) : Prop where
  stable : ∀ b, Stable DeadlineValue.deadline (q.buckets b) (inBucket b es)
  front : ∀ b, q.deadlines.keys.lookup b = (q.buckets b).head?.map DeadlineValue.deadline
  inverse : q.deadlines.Inverse

variable {q : RawQueue β τ} {es : Entries β τ} {b : β}

lemma sound_empty : Sound (RawQueue.empty : RawQueue β τ) [] :=
  ⟨fun _ => stable_nil _, fun _ => rfl, RawSet.inverse_empty⟩

/-- A bucket gets other items, and is refreshed. -/
lemma sound_setBucket {es' : Entries β τ} {items : List (DeadlineValue τ)}
    (h : Sound q es) (hitems : Stable DeadlineValue.deadline items (inBucket b es'))
    (hother : ∀ b' ≠ b, inBucket b' es' = inBucket b' es) {deadlines : RawSet β}
    (hdeadlines : ∀ b' ≠ b, deadlines.keys.lookup b' = q.deadlines.keys.lookup b')
    (hinverse : deadlines.Inverse) :
    Sound ((RawQueue.setBucket { q with deadlines } b items).refreshBucketDeadline b) es' := by
  refine ⟨fun b' => ?_, RawQueue.fronts_refresh fun b' hb => ?_,
    RawQueue.inverse_refresh hinverse b⟩
  · rw [RawQueue.buckets_refresh]
    dsimp only [RawQueue.setBucket]
    by_cases hb : b' = b
    · subst hb
      rwa [Function.update_self]
    · rw [Function.update_of_ne hb, hother b' hb]
      exact h.stable b'
  · dsimp only [RawQueue.setBucket]
    rw [Function.update_of_ne hb, hdeadlines b' hb, h.front b']

lemma sound_push (h : Sound q es) (b : β) (value : τ) (deadline : ℕ) :
    ∃ q', q.push b value deadline = .ok q' ∧ Sound q' (es ++ [(b, ⟨deadline, value⟩)]) := by
  refine ⟨_, q.push_eq b value deadline,
    sound_setBucket h ?_ (fun b' hb => ?_) (fun _ _ => rfl) h.inverse⟩
  · rw [inBucket_append, inBucket_cons_self]
    exact stable_insertItem (h.stable b) _
  · rw [inBucket_append, inBucket_cons_ne hb]
    exact List.append_nil _

/-- An entry is not before the front of its bucket. -/
lemma Sound.front_le (h : Sound q es) {e : β × DeadlineValue τ} (he : e ∈ es) :
    ∃ deadline, q.deadlines.keys.lookup e.1 = some deadline ∧ deadline ≤ e.2.deadline := by
  have hmem : e.2 ∈ q.buckets e.1 := (h.stable e.1).mem_iff.mpr (mem_inBucket.mpr he)
  have hsorted := (h.stable e.1).pairwise
  rw [h.front]
  rcases hitems : q.buckets e.1 with _ | ⟨front, items⟩
  · rw [hitems] at hmem
    cases hmem
  · refine ⟨front.deadline, rfl, ?_⟩
    rw [hitems] at hmem hsorted
    rcases List.mem_cons.mp hmem with heq | hmem
    · rw [heq]
    · exact (List.pairwise_cons.mp hsorted).1 _ hmem

/-- The front of a bucket with the least deadline leaves. -/
lemma sound_popBucketFront (h : Sound q es) (included : β → Bool) {deadline : ℕ}
    (hincluded : included b = true) (hb : q.deadlines.keys.lookup b = some deadline)
    (hleast : ∀ k d, included k = true → q.deadlines.keys.lookup k = some d → deadline ≤ d)
    {deadlines : RawSet β}
    (hdeadlines : ∀ b' ≠ b, deadlines.keys.lookup b' = q.deadlines.keys.lookup b')
    (hinverse : deadlines.Inverse) :
    ∃ item q' es', RawQueue.popBucketFront { q with deadlines } b = (some item.value, q') ∧
      item.deadline = deadline ∧ Leaves included es (b, item) es' ∧ Sound q' es' := by
  rcases hitems : q.buckets b with _ | ⟨item, items⟩
  · rw [h.front, hitems] at hb
    cases hb
  obtain rfl : item.deadline = deadline := by
    rw [h.front, hitems] at hb
    exact Option.some.inj hb
  obtain ⟨-, before, after, harrived, hbefore, hrest⟩ := (hitems ▸ h.stable b).tail
  obtain ⟨front, back, rfl, hfront, hback⟩ := inBucket_eq_append harrived
  have hself : inBucket b (front ++ back) = before ++ after := by
    rw [inBucket_append, hfront, hback]
  have hother : ∀ b' ≠ b, inBucket b' (front ++ back) =
      inBucket b' (front ++ (b, item) :: back) := by
    intro b' hne
    rw [inBucket_append, inBucket_append, inBucket_cons_ne hne]
  refine ⟨item, _, front ++ back, ?_, rfl, ⟨hincluded, fun x hx hxin => ?_, ?_⟩,
    sound_setBucket h (hself ▸ hrest) hother hdeadlines hinverse⟩
  · simp only [RawQueue.popBucketFront, hitems]
  · obtain ⟨d, hd, hle⟩ := h.front_le hx
    exact (hleast x.1 d hxin hd).trans hle
  · refine ⟨front, back, rfl, rfl, fun x hx hxb => hbefore x.2 ?_⟩
    have hbucket : x.1 = b := hxb
    rw [← hfront, mem_inBucket, ← hbucket]
    exact hx

lemma sound_retain (h : Sound q es) (b : β) (keep : τ → Bool) :
    Sound (q.retain b keep) (es.filter fun e => e.1 ≠ b || keep e.2.value) := by
  have hself : inBucket b (es.filter fun e => e.1 ≠ b || keep e.2.value) =
      (inBucket b es).filter fun item => keep item.value := by
    rw [inBucket, inBucket, List.filterMap_filter, List.filter_filterMap]
    refine List.filterMap_congr fun e _ => ?_
    by_cases hb : e.1 = b
    · simp [hb, Option.filter]
    · simp [hb]
  have hother : ∀ b' ≠ b, inBucket b' (es.filter fun e => e.1 ≠ b || keep e.2.value) =
      inBucket b' es := by
    intro b' hne
    rw [inBucket, inBucket, List.filterMap_filter]
    refine List.filterMap_congr fun e _ => ?_
    by_cases hb : e.1 = b'
    · simp [hb, hne]
    · simp [hb]
  exact sound_setBucket h (hself ▸ (h.stable b).filter _) hother (fun _ _ => rfl) h.inverse

/-- **One call.** It does not fail, its answer is one of a priority queue, and the queue is sound
again. -/
theorem Sound.step (h : Sound q es) (op : Op β τ) :
    ∃ out q' es', runOp q op = .ok (out, q') ∧ Answers es op out es' ∧ Sound q' es' := by
  cases op with
  | push b value deadline =>
    obtain ⟨q', hpush, hsound⟩ := sound_push h b value deadline
    exact ⟨none, q', _, by rw [runOp, hpush]; rfl, .push es b value deadline, hsound⟩
  | popExpired order now =>
    rcases h.inverse.popExpired order now with
      ⟨hpop, hlater⟩ | ⟨b, deadline, hpop, hb, hdue, hleast⟩
    · refine ⟨none, q, es, ?_, .notExpired fun e he => ?_, h⟩
      · simp only [runOp, RawQueue.popExpired, hpop]
      · obtain ⟨d, hd, hle⟩ := h.front_le he
        exact (hlater e.1 d hd).trans_le hle
    · obtain ⟨item, q', es', hfront, rfl, hleaves, hsound⟩ :=
        sound_popBucketFront h (fun _ => true) rfl hb (fun k d _ => hleast k d)
          (fun b' hb' => by rw [RawSet.lookup_remove, if_neg hb']) (h.inverse.remove b)
      refine ⟨_, q', es', ?_, .expired hdue hleaves, hsound⟩
      simp only [runOp, RawQueue.popExpired, hpop, hfront]
  | popMatching order included =>
    rcases h.inverse.firstMatching order included with
      ⟨hfirst, hnone⟩ | ⟨b, deadline, hfirst, hincluded, hb, hleast⟩
    · refine ⟨none, q, es, ?_, .noMatching fun e he => ?_, h⟩
      · simp only [runOp, RawQueue.popMatching, hfirst]
      · obtain ⟨d, hd, -⟩ := h.front_le he
        refine Bool.eq_false_iff.mpr fun hincluded => ?_
        rw [hnone e.1 hincluded] at hd
        cases hd
    · obtain ⟨item, q', es', hfront, rfl, hleaves, hsound⟩ :=
        sound_popBucketFront h included hincluded hb hleast (fun _ _ => rfl) h.inverse
      refine ⟨_, q', es', ?_, .matching hleaves, hsound⟩
      simp only [runOp, RawQueue.popMatching, hfirst, hfront]
  | retain b keep => exact ⟨none, _, _, rfl, .retain es b keep, sound_retain h b keep⟩

/-! ### Runs -/

/-- What the calls return, and the queue after them. -/
def runOps (q : RawQueue β τ) : List (Op β τ) →
    Except Expect (List (Option τ) × RawQueue β τ)
  | [] => .ok ([], q)
  | op :: ops =>
    match runOp q op with
    | .error error => .error error
    | .ok (out, q) => (runOps q ops).map fun r => (out :: r.1, r.2)

/-- The answers of a priority queue to the calls, one after the other. -/
inductive Serves : Entries β τ → List (Op β τ) → List (Option τ) → Entries β τ → Prop
  | nil (es : Entries β τ) : Serves es [] [] es
  | cons {es es' es'' : Entries β τ} {op : Op β τ} {ops : List (Op β τ)}
      {out : Option τ} {outs : List (Option τ)} (h : Answers es op out es')
      (hrest : Serves es' ops outs es'') : Serves es (op :: ops) (out :: outs) es''

lemma Sound.run (h : Sound q es) (ops : List (Op β τ)) :
    ∃ outs q' es', runOps q ops = .ok (outs, q') ∧ Serves es ops outs es' ∧ Sound q' es' := by
  induction ops generalizing q es with
  | nil => exact ⟨[], q, es, rfl, .nil es, h⟩
  | cons op ops ih =>
    obtain ⟨out, q', es', hstep, hanswers, hsound⟩ := h.step op
    obtain ⟨outs, q'', es'', hrun, hserves, hsound'⟩ := ih hsound
    refine ⟨out :: outs, q'', es'', ?_, .cons hanswers hserves, hsound'⟩
    simp only [runOps, hstep, hrun]
    rfl

/-- **A priority queue.** No run of calls fails; the answers are those of a priority queue that has
the entries in the order of their arrival; and behind every run the buckets, their deadlines and the
index of these are in order. -/
theorem serves_run (ops : List (Op β τ)) :
    ∃ outs q es, runOps (RawQueue.empty : RawQueue β τ) ops = .ok (outs, q) ∧
      Serves [] ops outs es ∧ Sound q es :=
  sound_empty.run ops

/-! ### The queue with its invariant -/

/-- The queue with its invariant pushes as the source does, ... -/
theorem push_raw (q : BucketDeadlineQueue β τ) (b : β) (value : τ) (deadline : ℕ) :
    q.toRawQueue.push b value deadline = .ok (q.push b value deadline).toRawQueue :=
  q.toRawQueue.push_eq b value deadline

lemma popBucketFront_raw (q : BucketDeadlineQueue β τ) (b : β) :
    q.toRawQueue.popBucketFront b =
      ((q.popBucketFront b).1, (q.popBucketFront b).2.toRawQueue) := by
  unfold RawQueue.popBucketFront BucketDeadlineQueue.popBucketFront
  rcases q.buckets b with _ | ⟨item, items⟩
  · rfl
  · rfl

/-- ... pops the same value of the buckets in question, ... -/
theorem popMatching_raw (q : BucketDeadlineQueue β τ) (included : β → Bool) :
    q.toRawQueue.popMatching q.order included =
      ((q.popMatching included).1, (q.popMatching included).2.toRawQueue) := by
  unfold RawQueue.popMatching BucketDeadlineQueue.popMatching DeadlineSet.firstMatching
  dsimp only [BucketDeadlineQueue.deadlineSet]
  rcases q.deadlines.firstMatching q.order included with _ | b
  · rfl
  · exact popBucketFront_raw q b

/-- ... and the same value that has expired; the set may have its keys in another order then. -/
theorem popExpired_raw (q : BucketDeadlineQueue β τ) (now : ℕ) :
    ∃ q', q.toRawQueue.popExpired q.order now = .ok ((q.popExpired now).1, q') ∧
      q'.buckets = (q.popExpired now).2.buckets := by
  have hset := q.deadlineSet.popExpired_raw now
  unfold RawQueue.popExpired BucketDeadlineQueue.popExpired
  rw [show q.deadlines.popExpired q.order now = _ from hset]
  rcases q.deadlineSet.popExpired now with ⟨_ | b, s⟩
  · exact ⟨_, rfl, rfl⟩
  · dsimp only
    unfold RawQueue.popBucketFront BucketDeadlineQueue.popBucketFront
    dsimp only
    rcases q.buckets b with _ | ⟨item, items⟩
    · exact ⟨_, rfl, rfl⟩
    · refine ⟨_, rfl, ?_⟩
      rw [RawQueue.buckets_refresh, BucketDeadlineQueue.buckets_withBucket]
      rfl

end Cacophony.DeadlineRuns
