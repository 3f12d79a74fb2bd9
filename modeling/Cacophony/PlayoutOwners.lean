import Cacophony.PlayoutCommands
import Cacophony.PlayoutHandles

/-!
Who will end the active playout.

The driver's playout is always owned: its number is on the way to a client, a client holds a handle
with it, or the command that ends it is in the queue or has been taken. An orderly step keeps it so.
-/

namespace Cacophony.PlayoutHandles

open Runs Playout

variable {ε π : Type} {p : ActiveOpusPlayout π}

/-! ### What replies do to clients -/

/-- A client that gets no reply, or the reply to its `finish`. -/
def Answered (c c' : Option (Client ε π)) : Prop :=
  c' = c ∨ ∃ id result, c = some (.awaitsFinish id) ∧ c' = some (.finished id result)

lemma Answered.trans {c c' c'' : Option (Client ε π)} (h : Answered c c') (h' : Answered c' c'') :
    Answered c c'' := by
  rcases h with rfl | ⟨id, result, rfl, rfl⟩
  · exact h'
  · rcases h' with rfl | ⟨_, _, hne, -⟩
    · exact .inr ⟨id, result, rfl, rfl⟩
    · cases hne

variable {s : System ε π} {events : List (Event ε π)}

@[simp] lemma setClient_clients (k : ℕ) (c : Option (Client ε π)) :
    (s.setClient k c).clients = Function.update s.clients k c := rfl

/-- All that a reply can do. -/
lemma reply_cases (s : System ε π) (e : Event ε π) :
    s.reply e = s ∨
      (∃ k result, e = .started k result ∧ s.clients k = some .awaitsStart ∧
        s.reply e = s.setClient k (some (.started result))) ∨
      ∃ k id result, s.clients k = some (.awaitsFinish id) ∧
        s.reply e = s.setClient k (some (.finished id result)) := by
  cases e with
  | started k result =>
    dsimp only [System.reply]
    split
    next h => exact .inr (.inl ⟨k, result, rfl, h, rfl⟩)
    next => exact .inl rfl
  | finished k result =>
    dsimp only [System.reply]
    split
    next id h => exact .inr (.inr ⟨k, id, result, h, rfl⟩)
    next => exact .inl rfl
  | hungUp k =>
    dsimp only [System.reply]
    split
    next id h => exact .inr (.inr ⟨k, id, _, h, rfl⟩)
    next => exact .inl rfl
  | speaking _ => exact .inl rfl
  | sent _ _ => exact .inl rfl
  | stale _ => exact .inl rfl
  | discarded _ => exact .inl rfl

lemma replies_eq (events : List (Event ε π)) :
    s.replies events = { s with clients := (s.replies events).clients } := by
  unfold System.replies
  induction events generalizing s with
  | nil => rfl
  | cons e es ih =>
    rw [List.foldl_cons, ih]
    obtain h | ⟨k, result, -, -, h⟩ | ⟨k, id, result, -, h⟩ := reply_cases s e <;> rw [h] <;> rfl

/-- Replies reach no client that is not there. -/
lemma replies_none (events : List (Event ε π)) {k : ℕ} (hk : s.clients k = none) :
    (s.replies events).clients k = none := by
  unfold System.replies
  induction events generalizing s with
  | nil => exact hk
  | cons e es ih =>
    rw [List.foldl_cons]
    refine ih ?_
    obtain h | ⟨j, result, -, hj, h⟩ | ⟨j, id, result, hj, h⟩ := reply_cases s e
    · rwa [h]
    all_goals
      have hne : k ≠ j := by
        rintro rfl
        simp [hk] at hj
      rw [h, setClient_clients, Function.update_of_ne hne, hk]

lemma answered_reply {e : Event ε π} (he : e.isStarted = false) (k : ℕ) :
    Answered (s.clients k) ((s.reply e).clients k) := by
  obtain h | ⟨j, result, rfl, -, -⟩ | ⟨j, id, result, hj, h⟩ := reply_cases s e
  · rw [h]
    exact .inl rfl
  · cases he
  · rw [h, setClient_clients]
    by_cases hk : k = j
    · subst hk
      exact .inr ⟨id, result, hj, Function.update_self _ _ _⟩
    · exact .inl (Function.update_of_ne hk _ _)

lemma answered_replies (h : ∀ e ∈ events, e.isStarted = false) (k : ℕ) :
    Answered (s.clients k) ((s.replies events).clients k) := by
  unfold System.replies
  induction events generalizing s with
  | nil => exact .inl rfl
  | cons e es ih =>
    have hrest := ih (s := s.reply e) fun e' he' => h e' (List.mem_cons_of_mem e he')
    exact (answered_reply (h e List.mem_cons_self) k).trans hrest

/-! ### Who will end the playout -/

/-- The number for which this client will send a `Cancel` or a `Finish`. -/
def Client.owns : Client ε π → Option UInt64
  | .handle id | .finishing id _ | .dropping id | .started (.ok id) => some id
  | _ => none

/-- The playout is asked to finish, a command that ends it is in the queue, or a client will send
one. -/
def Owned (s : System ε π) (p : ActiveOpusPlayout π) : Prop :=
  (∃ k c, s.clients k = some c ∧ c.owns = some p.id) ∨ .cancel p.id ∈ s.queue ∨
    (∃ response, .finish p.id response ∈ s.queue) ∨ p.finishResponse.isSome

/-- What every state of an orderly run satisfies. -/
structure Inv (s : System ε π) : Prop where
  stopped : s.running = false → s.send.activePlayout = none
  starts : ∀ k, .start k ∈ s.queue → s.clients k = some .awaitsStart
  nodup : (s.queue.filterMap startKey).Nodup
  fresh : ∀ k, s.next ≤ k → s.clients k = none
  owned : ∀ p, s.send.activePlayout = some p → Owned s p

lemma Inv.notBlocked (h : Inv s) : NotBlocked s := by
  intro p hp hlive hreply
  obtain ⟨k, c, hk, hc⟩ | hqueue := h.owned p hp
  · exfalso
    cases c with
    | started result =>
      cases result with
      | ok id => exact hreply k _ hk (by simpa [Client.owns, Client.Undelivered] using hc)
      | error e => cases hc
    | handle id => exact hlive k _ hk (Option.some.inj hc)
    | finishing id b => exact hlive k _ hk (Option.some.inj hc)
    | dropping id => exact hlive k _ hk (Option.some.inj hc)
    | _ => cases hc
  · exact hqueue

lemma mem_startKeys {commands : List PlayoutCommand} {k : ℕ} :
    k ∈ commands.filterMap startKey ↔ .start k ∈ commands := by
  rw [List.mem_filterMap]
  constructor
  · rintro ⟨command, hmem, hkey⟩
    cases command with
    | start j =>
      cases hkey
      exact hmem
    | _ => cases hkey
  · exact fun h => ⟨_, h, rfl⟩

lemma lt_next (h : Inv s) {k : ℕ} {c : Client ε π} (hk : s.clients k = some c) : k < s.next := by
  by_contra hge
  rw [h.fresh k (Nat.le_of_not_lt hge)] at hk
  cases hk

lemma inactive_of_stopped (h : Inv s) (hrunning : s.running = false) (id : UInt64) :
    Inactive s id := by
  intro p hp
  rw [h.stopped hrunning] at hp
  cases hp

/-- Promised slots and waiting pushes say nothing about who owns the playout. -/
lemma Inv.aside {t : System ε π} (h : Inv s) (hs : t = { s with
      promised := t.promised, closed := t.closed, pushes := t.pushes, next := t.next })
    (hnext : s.next ≤ t.next) : Inv t := by
  rw [hs]
  exact ⟨h.stopped, h.starts, h.nodup, fun j hj => h.fresh j (hnext.trans hj), h.owned⟩

variable {capacity k : ℕ} {id : UInt64} {c : Client ε π} {d : Option (Client ε π)}

/-- A client changes, and its command goes into the queue; it stays the owner of its playout, hands
the playout over to the command, or the playout is over. -/
lemma Inv.change (h : Inv s) (commands : List PlayoutCommand) (hk : d = none ∨ k < s.next)
    (hstart : s.clients k ≠ some .awaitsStart)
    (hcommands : ∀ j, .start j ∈ commands → j = k ∧ d = some .awaitsStart)
    (hnodup : (commands.filterMap startKey).Nodup)
    (howns : ∀ id, (s.clients k).bind Client.owns = some id → d.bind Client.owns = some id ∨
      .cancel id ∈ commands ∨ (∃ response, .finish id response ∈ commands) ∨ Inactive s id) :
    Inv { s with
      queue := s.queue ++ commands, clients := Function.update s.clients k d } where
  stopped := h.stopped
  starts := fun j hj => by
    dsimp only at hj ⊢
    rcases List.mem_append.mp hj with hj | hj
    · have hne : j ≠ k := by
        rintro rfl
        exact hstart (h.starts j hj)
      rw [Function.update_of_ne hne, h.starts j hj]
    · obtain ⟨rfl, hc⟩ := hcommands j hj
      rw [Function.update_self, hc]
  nodup := by
    rw [List.filterMap_append]
    refine List.nodup_append.mpr ⟨h.nodup, hnodup, fun i hi j hj heq => hstart ?_⟩
    subst heq
    obtain ⟨rfl, -⟩ := hcommands i (mem_startKeys.mp hj)
    exact h.starts i (mem_startKeys.mp hi)
  fresh := fun j hj => by
    dsimp only at hj ⊢
    by_cases hjk : j = k
    · subst hjk
      rcases hk with hk | hk
      · rw [Function.update_self, hk]
      · omega
    · rw [Function.update_of_ne hjk, h.fresh j hj]
  owned := fun p hp => by
    unfold Owned
    simp only [List.mem_append]
    obtain ⟨j, cl, hj, hcl⟩ | hcancel | ⟨response, hfinish⟩ | hsome := h.owned p hp
    · by_cases hjk : j = k
      · subst hjk
        obtain hc | hcancel | ⟨response, hfinish⟩ | hinactive := howns p.id (by rw [hj]; exact hcl)
        · obtain ⟨cl, rfl, hcl⟩ := Option.bind_eq_some_iff.mp hc
          exact .inl ⟨j, cl, Function.update_self _ _ _, hcl⟩
        · exact .inr (.inl (.inr hcancel))
        · exact .inr (.inr (.inl ⟨response, .inr hfinish⟩))
        · exact absurd rfl (hinactive p hp)
      · exact .inl ⟨j, cl, by rw [Function.update_of_ne hjk, hj], hcl⟩
    · exact .inr (.inl (.inl hcancel))
    · exact .inr (.inr (.inl ⟨response, .inl hfinish⟩))
    · exact .inr (.inr (.inr hsome))

/-- A client changes and sends nothing. -/
lemma Inv.client (h : Inv s) (hk : s.clients k = some c) (hstart : c ≠ .awaitsStart)
    (howns : ∀ id, c.owns = some id → d.bind Client.owns = some id ∨ Inactive s id) :
    Inv (s.setClient k d) := by
  have hchange := h.change (k := k) (d := d) [] (.inr (lt_next h hk)) (by simpa [hk] using hstart)
    (by simp) (by simp) ?_
  · rwa [List.append_nil] at hchange
  · intro id hid
    rw [hk] at hid
    exact (howns id hid).imp_right fun h => .inr (.inr h)

/-- A client that owns nothing changes. -/
lemma Inv.leave (h : Inv s) (hk : s.clients k = some c) (hstart : c ≠ .awaitsStart)
    (howns : c.owns = none) : Inv (s.setClient k d) :=
  h.client hk hstart fun _ hid => by rw [howns] at hid; cases hid

/-- Replies to `finish` change nothing about who owns the playout. -/
lemma Inv.replies (h : Inv s) (hevents : ∀ e ∈ events, e.isStarted = false) :
    Inv (s.replies events) := by
  have hanswered := answered_replies (s := s) hevents
  rw [replies_eq]
  generalize (s.replies events).clients = clients at hanswered
  refine ⟨h.stopped, fun k hk => ?_, h.nodup, fun k hk => ?_, fun p hp => ?_⟩
  · have hk := h.starts k hk
    obtain heq | ⟨_, _, hne, -⟩ := hanswered k
    · exact heq.trans hk
    · rw [hk] at hne
      cases hne
  · have hk := h.fresh k hk
    obtain heq | ⟨_, _, hne, -⟩ := hanswered k
    · exact heq.trans hk
    · rw [hk] at hne
      cases hne
  · refine (h.owned p hp).imp_left ?_
    rintro ⟨k, c, hk, hc⟩
    obtain heq | ⟨_, _, hne, -⟩ := hanswered k
    · exact ⟨k, c, heq.trans hk, hc⟩
    · rw [hk] at hne
      cases hne
      cases hc

/-- A frame goes into the queue. -/
lemma Inv.keep (h : Inv s) (command : PlayoutCommand) (hcommand : startKey command = none) :
    Inv { s with queue := s.queue ++ [command] } := by
  have hnone := h.fresh s.next le_rfl
  have hchange := h.change (k := s.next) (d := none) [command] (.inl rfl) (by simp [hnone]) ?_
    (by simp [hcommand]) (by simp [hnone])
  · rwa [← hnone, Function.update_eq_self] at hchange
  · intro j hj
    rw [← List.mem_singleton.mp hj] at hcommand
    cases hcommand

/-- A handle is dropped that owns nothing, or whose `Cancel` goes through. -/
lemma Inv.dropHandle (h : Inv s) (hk : s.clients k = some c) (hstart : c ≠ .awaitsStart)
    (howns : ∀ i, c.owns = some i → i = id ∧ (s.room capacity = true ∨ Inactive s id)) :
    Inv (s.dropHandle capacity k id) := by
  unfold System.dropHandle System.trySend
  split
  next hsent =>
    refine h.change [.cancel id] (.inl rfl) (by simpa [hk] using hstart) (by simp) List.nodup_nil
      fun i hi => ?_
    rw [hk] at hi
    obtain ⟨rfl, -⟩ := howns i hi
    exact .inr (.inl (List.mem_singleton_self _))
  next hlost =>
    refine h.client hk hstart fun i hi => .inr ?_
    obtain ⟨rfl, hroom | hinactive⟩ := howns i hi
    · have hrunning : s.running = false := by
        have hlost : ¬ (s.running && s.room capacity) = true := hlost
        simpa [hroom] using hlost
      exact inactive_of_stopped h hrunning i
    · exact hinactive

lemma Inv.drop (h : Inv s) (horderly : Orderly capacity s (.drop k)) : Inv (s.drop capacity k) := by
  unfold System.drop
  cases hk : s.clients k with
  | none => exact h
  | some c =>
    have hc := horderly c hk
    cases c with
    | starting b =>
      exact Inv.leave (s := s.release b) (h.aside rfl le_rfl) hk (by rintro ⟨⟩) rfl
    | awaitsStart => exact hc.elim
    | started result =>
      refine h.client hk (by rintro ⟨⟩) fun id hid => .inr ?_
      cases result with
      | ok i => exact Option.some.inj hid ▸ hc
      | error e => cases hid
    | finishing id b =>
      exact Inv.client (s := s.release b) (h.aside rfl le_rfl) hk (by rintro ⟨⟩) fun _ => .inl
    | handle id | dropping id =>
      exact h.dropHandle hk (by rintro ⟨⟩) fun i hi => ⟨(Option.some.inj hi).symm, hc⟩
    | awaitsFinish id | finished id result =>
      exact h.dropHandle hk (by rintro ⟨⟩) (by rintro _ ⟨⟩)

lemma Inv.finish (h : Inv s) (horderly : Orderly capacity s (.finish k)) :
    Inv (s.finish capacity k) := by
  unfold System.finish
  split
  next id hk =>
    split
    next hclosed =>
      refine h.dropHandle hk (by rintro ⟨⟩) fun i hi => ⟨(Option.some.inj hi).symm, ?_⟩
      exact (horderly id hk).resolve_left (by simp [hclosed])
    next => exact h.client hk (by rintro ⟨⟩) fun _ => .inl
  next => exact h

lemma Inv.poll (h : Inv s) : Inv (s.poll capacity k) := by
  unfold System.poll
  split
  next id hk => exact h.client hk (by rintro ⟨⟩) fun _ => .inl
  next hk => exact h.leave hk (by rintro ⟨⟩) rfl
  next hk => exact h.leave hk (by rintro ⟨⟩) rfl
  next hk => exact h.dropHandle hk (by rintro ⟨⟩) (by rintro _ ⟨⟩)
  next => exact h

lemma Inv.promise (h : Inv s) : Inv (s.promise capacity k) := by
  unfold System.promise
  split
  · split
    next hk => exact (h.leave hk (by rintro ⟨⟩) rfl).aside rfl le_rfl
    next hk => exact (h.client hk (by rintro ⟨⟩) fun _ => .inl).aside rfl le_rfl
    next => exact h
  · exact h

lemma Inv.enqueue (h : Inv s) : Inv (s.enqueue capacity k) := by
  have hrelease : Inv (s.release true) := h.aside rfl le_rfl
  unfold System.enqueue
  split
  next hk =>
    dsimp only
    split
    · exact hrelease.change [.start k] (.inr (lt_next h hk)) (by simp [System.release, hk])
        (by simp) (by simp [startKey]) (by simp [System.release, hk, Client.owns])
    · exact hrelease.leave hk (by rintro ⟨⟩) rfl
  next id hk =>
    dsimp only
    split
    next =>
      refine hrelease.change [.finish id k] (.inr (lt_next h hk)) (by simp [System.release, hk])
        (by simp) List.nodup_nil fun i hi => ?_
      obtain rfl : id = i := by simpa [System.release, hk, Client.owns] using hi
      exact .inr (.inr (.inl ⟨k, List.mem_singleton_self _⟩))
    next hrunning =>
      refine hrelease.dropHandle hk (by rintro ⟨⟩) fun i hi =>
        ⟨(Option.some.inj hi).symm, .inr ?_⟩
      exact inactive_of_stopped hrelease (by simpa using hrunning) id
  next => exact h

lemma Inv.start (h : Inv s) : Inv s.start := by
  have hnone := h.fresh s.next le_rfl
  unfold System.start
  split
  · exact h
  · have hchange := (h.aside (t := { s with next := s.next + 1 }) rfl (Nat.le_succ _)).change
      (k := s.next) (d := some (.starting false)) [] (.inr (Nat.lt_succ_self _)) (by simp [hnone])
      (by simp) (by simp) (by simp [hnone])
    rwa [List.append_nil] at hchange

lemma Inv.push (h : Inv s) (p : Push) : Inv (s.push k p) := by
  unfold System.push
  split
  · split
    · exact h
    · split
      · exact h
      · exact h.aside rfl (Nat.le_succ _)
  · exact h

lemma Inv.tryPush (h : Inv s) (p : Push) : Inv (s.tryPush capacity k p) := by
  unfold System.tryPush
  split
  · split
    · exact h
    · split
      · exact h
      next push _ =>
        unfold System.trySend
        split
        · exact h.keep push.command push.isFrame
        · exact h
  · exact h

lemma Inv.promisePush (h : Inv s) : Inv (s.promisePush capacity k) := by
  unfold System.promisePush
  split
  · split
    · exact h.aside rfl le_rfl
    · exact h
  · exact h

lemma Inv.enqueuePush (h : Inv s) : Inv (s.enqueuePush k) := by
  unfold System.enqueuePush
  split
  next push _ =>
    dsimp only
    split
    · exact (h.keep push.command push.isFrame).aside rfl le_rfl
    · exact h.aside rfl le_rfl
  next => exact h

lemma Inv.dropPush (h : Inv s) : Inv (s.dropPush k) := by
  unfold System.dropPush
  split
  · exact h.aside rfl le_rfl
  · exact h

/-! The driver -/

lemma Inv.stop (h : Inv s) : Inv s.stop := by
  unfold System.stop
  rw [replies_eq]
  exact ⟨fun _ => rfl, by simp, List.nodup_nil, fun k hk => replies_none _ (h.fresh k hk), by simp⟩

/-- The rest of a call of the driver, once the state and the replies to a `Start` are in order. -/
lemma Inv.drive {st : Step ε π}
    (h : Inv (System.replies { s with send := st.send } st.events)) :
    Inv (s.drive st) := by
  unfold System.drive
  dsimp only
  split
  · exact h
  · exact h.stop

lemma Inv.wake (h : Inv s) (env : Surroundings ε π) (now : ℕ) : Inv (s.wake env now) := by
  unfold System.wake
  split
  next hrunning =>
    obtain ⟨hevents, hactive⟩ := resolve_spec env now s.send
    refine Inv.drive (Inv.replies (s := { s with send := _ }) ?_ hevents)
    refine ⟨by simp [hrunning], h.starts, h.nodup, h.fresh, fun q hq => ?_⟩
    · obtain ⟨p, hp, hid, hfinish⟩ := hactive q hq
      have howned := h.owned p hp
      unfold Owned at howned ⊢
      rw [hid, hfinish]
      exact howned
  next => exact h

variable {rest : List PlayoutCommand} {send : SendPipeline π} {result : Except (Error ε) UInt64}
  {es : List (Event ε π)}

/-- A `Start` is answered: its call gets the new playout, or there is none. -/
lemma Inv.answerStart (h : Inv s) (hrunning : s.running = true)
    (hqueue : s.queue = .start k :: rest) (hactive : ∀ q, send.activePlayout = some q →
      result = .ok q.id ∨ s.send.activePlayout = some q) :
    Inv (System.setClient { s with queue := rest, send := send } k (some (.started result))) := by
  have hk : s.clients k = some .awaitsStart := h.starts k (by simp [hqueue])
  have hnodup := h.nodup
  rw [hqueue] at hnodup
  obtain ⟨hkey, hnodup⟩ := List.nodup_cons.mp hnodup
  refine ⟨by simp [System.setClient, hrunning], fun j hj => ?_, hnodup, fun j hj => ?_,
    fun q hq => ?_⟩
  · have hne : j ≠ k := by
      rintro rfl
      exact hkey (mem_startKeys.mpr hj)
    rw [setClient_clients, Function.update_of_ne hne]
    exact h.starts j (by rw [hqueue]; exact List.mem_cons_of_mem _ hj)
  · have hne : j ≠ k := by
      rintro rfl
      have := lt_next h hk
      exact absurd hj (Nat.not_le_of_lt this)
    rw [setClient_clients, Function.update_of_ne hne]
    exact h.fresh j hj
  · rcases hactive q hq with rfl | hq
    · exact .inl ⟨k, _, Function.update_self _ _ _, rfl⟩
    · obtain ⟨j, c, hj, hc⟩ | hcancel | ⟨response, hfinish⟩ | hsome := h.owned q hq
      · have hne : j ≠ k := by
          rintro rfl
          rw [hk] at hj
          cases hj
          cases hc
        exact .inl ⟨j, c, by rw [setClient_clients, Function.update_of_ne hne]; exact hj, hc⟩
      · rw [hqueue] at hcancel
        exact .inr (.inl (List.mem_of_ne_of_mem (by simp) hcancel))
      · rw [hqueue] at hfinish
        exact .inr (.inr (.inl ⟨response, List.mem_of_ne_of_mem (by simp) hfinish⟩))
      · exact .inr (.inr (.inr hsome))

lemma Inv.repliesStart (h : Inv s) (hrunning : s.running = true)
    (hqueue : s.queue = .start k :: rest) (hactive : ∀ q, send.activePlayout = some q →
      result = .ok q.id ∨ s.send.activePlayout = some q)
    (hes : ∀ e ∈ es, e.isStarted = false) :
    Inv (System.replies { s with queue := rest, send := send } (.started k result :: es)) := by
  have hk : s.clients k = some .awaitsStart := h.starts k (by simp [hqueue])
  have hreply : System.reply { s with queue := rest, send := send } (.started k result) =
      System.setClient { s with queue := rest, send := send } k (some (.started result)) := by
    simp only [System.reply, hk]
  rw [System.replies, List.foldl_cons, hreply]
  exact Inv.replies (h.answerStart hrunning hqueue hactive) hes

lemma Inv.receive (h : Inv s) (env : Surroundings ε π) (now : ℕ) : Inv (s.receive env now) := by
  unfold System.receive
  split
  next hrunning =>
    split
    next => exact h
    next command rest hqueue =>
      refine Inv.drive ?_
      cases handled env now s.send command with
      | refused response error hcommand heq =>
        subst hcommand
        rw [heq]
        exact h.repliesStart hrunning hqueue (fun q hq => .inr hq) (by simp)
      | starts response id es hcommand hevents hes hactive =>
        subst hcommand
        rw [hevents]
        exact h.repliesStart hrunning hqueue (fun q hq => .inl (by rw [hactive q hq])) hes
      | other hcommand hes hactive =>
        refine Inv.replies (s := { s with queue := rest, send := _ }) ?_ hes
        refine ⟨by simp [hrunning], fun j hj => ?_, ?_, h.fresh, fun q hq => ?_⟩
        · exact h.starts j (by rw [hqueue]; exact List.mem_cons_of_mem _ hj)
        · have hnodup := h.nodup
          rw [hqueue] at hnodup
          exact hnodup.sublist ((List.sublist_cons_self command rest).filterMap startKey)
        · obtain ⟨p, hp, hid, hcancel, hfinish⟩ := hactive q hq
          obtain howner | hmem | ⟨response, hmem⟩ | hsome := h.owned p hp
          · exact .inl (by rw [hid]; exact howner)
          · rw [hqueue] at hmem
            exact .inr (.inl (by rw [hid]; exact List.mem_of_ne_of_mem hcancel.symm hmem))
          · rw [hqueue] at hmem
            rcases List.mem_cons.mp hmem with rfl | hmem
            · exact .inr (.inr (.inr (hfinish (.inr ⟨response, rfl⟩))))
            · exact .inr (.inr (.inl ⟨response, by rw [hid]; exact hmem⟩))
          · exact .inr (.inr (.inr (hfinish (.inl hsome))))
  next => exact h

lemma Inv.step (h : Inv s) (a : Act ε π) (horderly : Orderly capacity s a) :
    Inv (s.step capacity a) := by
  cases a with
  | start => exact h.start
  | push k p => exact h.push p
  | tryPush k p => exact h.tryPush p
  | finish k => exact h.finish horderly
  | promise k => exact h.promise
  | promisePush k => exact h.promisePush
  | enqueue k => exact h.enqueue
  | enqueuePush k => exact h.enqueuePush
  | drop k => exact h.drop horderly
  | dropPush k => exact h.dropPush
  | poll k => exact h.poll
  | close => exact h.aside rfl le_rfl
  | receive env now => exact h.receive env now
  | wake env now => exact h.wake env now
  | stop => exact h.stop

lemma inv_initial : Inv ({} : System ε π) where
  stopped := fun _ => rfl
  starts := fun k hk => by cases hk
  nodup := List.nodup_nil
  fresh := fun _ _ => rfl
  owned := fun p hp => by cases hp

/-- In every state of an orderly run, whatever its order of calls, drops and driver steps, the
active playout has a handle, a reply on its way, or a command that ends it. -/
theorem notBlocked_of_orderly (capacity : ℕ) (acts : List (Act ε π))
    (h : Along (System.step capacity) (Orderly capacity) {} acts) :
    NotBlocked (run (System.step capacity) {} acts) :=
  (run_inv (fun _ a hs ha => hs.step a ha) inv_initial h).notBlocked

/-! A driver without DAVE whose sends go through, and the start of a first playout. -/

def calm : Surroundings Unit Unit where
  requiresDave := false
  mediaReady := true
  mediaReadyTimeout := 0
  sendSpeaking := fun _ => .ok ()
  sendReadyOpusPacket := fun _ _ => .ok ()
  sendElapsed := 0

def opening : List (Act Unit Unit) := [.start, .promise 0, .enqueue 0]

def opened : List (Act Unit Unit) := opening ++ [.receive calm 0, .poll 0]

def silence : Push := .packet ⟨[0xf8, 0xff, 0xfe]⟩

/-- With a slot to spare, the drop of a handle leaves its `Cancel`. -/
theorem notBlocked_with_room :
    (run (System.step 2) {} (opened ++ [.tryPush 0 silence, .drop 0])).queue.length = 2 ∧
      NotBlocked (run (System.step 2) {} (opened ++ [.tryPush 0 silence, .drop 0])) := by
  refine ⟨rfl, notBlocked_of_orderly 2 _ ?_⟩
  refine ⟨trivial, trivial, trivial, trivial, trivial, trivial, fun c hc => ?_, trivial⟩
  obtain rfl : .handle 1 = c := Option.some.inj hc
  exact .inl rfl

/-- A playout that nobody will end. -/
lemma not_notBlocked (hp : s.send.activePlayout = some p) (hclients : ∀ k, s.clients k = none)
    (hqueue : ∀ command ∈ s.queue,
      command ≠ .cancel p.id ∧ ∀ response, command ≠ .finish p.id response)
    (hfinish : p.finishResponse = none) : ¬ NotBlocked s := by
  intro h
  obtain hmem | ⟨response, hmem⟩ | hsome := h p hp (fun k c hc => by simp [hclients k] at hc)
    (fun k c hc => by simp [hclients k] at hc)
  · exact (hqueue _ hmem).1 rfl
  · exact (hqueue _ hmem).2 response rfl
  · simp [hfinish] at hsome

/-- One slot: a handle is dropped while a frame is in the queue, or the call that started the
playout is dropped before its reply. Nothing ends the playout then. -/
theorem playout_left_active :
    ¬ NotBlocked (run (System.step 1) {} (opened ++ [.tryPush 0 silence, .drop 0])) ∧
      ¬ NotBlocked (run (System.step 1) {} (opening ++ [.drop 0, .receive calm 0])) := by
  constructor
  · refine not_notBlocked (p := .new 1 false 0) rfl (fun k => by cases k <;> rfl) ?_ rfl
    intro command hmem
    obtain rfl := List.mem_singleton.mp hmem
    exact ⟨by simp, by simp⟩
  · refine not_notBlocked (p := .new 1 false 0) rfl (fun k => by cases k <;> rfl) ?_ rfl
    intro command hmem
    cases hmem

end Cacophony.PlayoutHandles
