import CounterTerrorist.Core.PersistentQueue
import Mathlib.Data.List.Count

/-!
# Attempts of the persistent queue

Each failed call of the handler adds one to the attempts stored with the item, which is moved to the
dead-letter queue when they reach `maxAttempts`. So an item should be tried at most `maxAttempts`
times and never after it was moved (`Bounded`).

This is not what happens. The dead letters lie below the prefix that `process` lists, so every call
tries them again, with one more attempt each time; and when the `catch` block cannot store a failed
attempt, it is forgotten: `dead_letter_tried_again`. There is no other way to miss the bound
(`attempts_bounded_iff`): with one `maxAttempts` for all calls, and as long as failures get stored,
it holds exactly if no entry that the listing hands out is a dead letter.

## The invariant

As long as that is so, the buffer of the listing is not stale: an entry of the active queue that
waits there is still stored as it was read, because `process` writes to one key at a time and
`enqueue` only to new ones. So the attempts stored with an item are the calls that were made on it,
except for the entry at hand (`Counted`).
-/

namespace Core

open List Machine Option OrderedStore PersistentQueue State

namespace PersistentQueue

variable {T : Type*}

/-! ### The bound -/

/-- Whether an event is a call of the handler on this item. -/
def Event.isCall (id : String) : Event T → Bool
  | .called id' _ => id' = id
  | _ => false

/-- The number of calls on an item. -/
def calls (history : List (Event T)) (id : String) : ℕ := history.countP (Event.isCall id)

/-- No call comes after the move of its item. The later event is on the left. -/
def NoCallAfterMove (history : List (Event T)) : Prop :=
  history.Pairwise fun later earlier ↦ ∀ id item, later = .called id item → earlier ≠ .moved id

/-- Every item is tried at most `m` times, and not after it was moved to the dead-letter queue. -/
def Bounded (m : ℕ) (history : List (Event T)) : Prop :=
  (∀ id, calls history id ≤ m) ∧ NoCallAfterMove history

/-- A dead letter is kept where it would be moved to. -/
def IsDead (key : Key) : Prop := dlqKey key = key

instance : DecidablePred IsDead := fun key ↦ inferInstanceAs (Decidable (dlqKey key = key))

/-- The entry that the listing hands out next. -/
def State.upcoming (s : State T) : Option (Key × Record T) := s.process.bind (·.buffer.head?)

/-- What the next call of the handler is made with lies in the active queue. -/
def HandlesActive (s : State T) : Label T → Prop
  | .next => ∀ e ∈ s.upcoming, ¬IsDead e.1
  | _ => True

instance (s : State T) : (l : Label T) → Decidable (HandlesActive s l)
  | .next => inferInstanceAs (Decidable (∀ e ∈ s.upcoming, ¬IsDead e.1))
  | .enqueue .. | .write .. | .process .. | .fetch .. | .settle .. | .commit | .reject ..
  | .finish => .isTrue trivial

/-- An operation of the `catch` block. -/
def Stage.caught : Stage T → Bool
  | .set _ _ caught | .atomic _ _ caught => caught
  | _ => false

/-- A call of `process` has the limit `m`, and what the `catch` block stores is not rejected. -/
def Regular (m : ℕ) (s : State T) : Label T → Prop
  | .process maxAttempts _ => maxAttempts = m
  | .reject _ => ∀ p ∈ s.process, p.stage.caught = false
  | _ => True

instance (m : ℕ) (s : State T) : (l : Label T) → Decidable (Regular m s l)
  | .process maxAttempts _ => inferInstanceAs (Decidable (maxAttempts = m))
  | .reject _ => inferInstanceAs (Decidable (∀ p ∈ s.process, p.stage.caught = false))
  | .enqueue .. | .write .. | .fetch .. | .next | .settle .. | .commit | .finish => .isTrue trivial

section

variable {history events : List (Event T)} {m : ℕ} {id : String}

theorem calls_cons_called (id' : String) (item : T) :
    calls (.called id' item :: history) id = calls history id + if id' = id then 1 else 0 := by
  rw [calls, countP_cons, calls]
  simp [Event.isCall]

/-- Events that are no calls. -/
theorem calls_append (h : ∀ e ∈ events, ∀ id item, e ≠ .called id item) :
    calls (events ++ history) id = calls history id := by
  have hnone : events.countP (Event.isCall id) = 0 := by
    refine countP_eq_zero.2 fun e he hcall ↦ ?_
    cases e with
    | called id' item => exact h _ he id' item rfl
    | _ => cases hcall
  rw [calls, countP_append, hnone, Nat.zero_add, calls]

theorem Bounded.of_append (h : Bounded m (events ++ history)) : Bounded m history := by
  refine ⟨fun id ↦ ?_, (pairwise_append.1 h.2).2.1⟩
  have hle := h.1 id
  rw [calls, countP_append] at hle
  exact (Nat.le_add_left _ _).trans hle

/-- Events that are no calls keep the bound. -/
theorem Bounded.append (h : Bounded m history)
    (hevs : ∀ e ∈ events, ∀ id item, e ≠ .called id item) : Bounded m (events ++ history) := by
  refine ⟨fun id ↦ (calls_append hevs).trans_le (h.1 id), pairwise_append.2 ⟨?_, h.2, ?_⟩⟩
  · exact pairwise_of_forall_mem_list fun later hlater _ _ id item heq ↦
      absurd heq (hevs later hlater id item)
  · exact fun later hlater _ _ id item heq ↦ absurd heq (hevs later hlater id item)

/-- A call on an item that was not moved and was tried less than `m` times. -/
theorem Bounded.called (h : Bounded m history) (hcalls : calls history id < m)
    (hmoved : .moved id ∉ history) (item : T) : Bounded m (.called id item :: history) := by
  refine ⟨fun id' ↦ ?_, pairwise_cons.2 ⟨?_, h.2⟩⟩
  · rw [calls_cons_called]
    split
    · next heq => exact heq ▸ hcalls
    · exact h.1 id'
  · rintro earlier hearlier _ _ ⟨⟩ rfl
    exact hmoved hearlier

end

/-! ### Active entries -/

/-- The key of an item in the active queue. -/
def IsActive (key : Key) : Prop := key = activeKey (lastPart key)

theorem IsActive.ne_dlqKey {key : Key} (h : IsActive key) (key' : Key) : key ≠ dlqKey key' := by
  rw [h]
  exact activeKey_ne_dlqKey _ _

theorem IsActive.eq_of_lastPart_eq {key key' : Key} (h : IsActive key) (h' : IsActive key')
    (heq : lastPart key = lastPart key') : key = key' := by
  rw [h, h', heq]

theorem Known.isActive {history : List (Event T)} {e : Key × Record T} (h : Known history e)
    (hdead : ¬IsDead e.1) : IsActive e.1 :=
  h.key.resolve_right fun hdlq ↦ hdead hdlq.1.symm

/-- The key that `process` is concerned with. -/
def Stage.key : Stage T → Option Key
  | .listing => none
  | .handler key _ | .delete key _ | .set key _ _ | .atomic key _ _ => some key

section

variable {stage : Stage T} {store store' : OrderedStore Key (Record T)} {e : Key × Record T}

section

variable (heff : stage.effect store = some store') (hact : IsActive e.1)
include heff hact

/-- An operation leaves the other entries of the active queue as they are. -/
theorem mem_effect (hkey : stage.key ≠ some e.1) : e ∈ store'.entries ↔ e ∈ store.entries := by
  cases stage with
  | listing | handler key record => cases heff
  | delete key record =>
    cases heff
    have hne : e.1 ≠ key := fun heq ↦ hkey (congrArg some heq.symm)
    rw [OrderedStore.mem_eraseAll, mem_singleton, and_iff_left hne]
  | set key record caught =>
    cases heff
    have hne : e.1 ≠ key := fun heq ↦ hkey (congrArg some heq.symm)
    rw [OrderedStore.mem_set, and_iff_right hne, or_iff_right fun heq ↦ hne (congrArg Prod.fst heq)]
  | atomic key record caught =>
    cases heff
    have hne : e.1 ≠ key := fun heq ↦ hkey (congrArg some heq.symm)
    have hdlq : e.1 ≠ dlqKey key := hact.ne_dlqKey key
    rw [OrderedStore.mem_set, and_iff_right hdlq,
      or_iff_right fun heq ↦ hdlq (congrArg Prod.fst heq), OrderedStore.mem_eraseAll,
      mem_singleton, and_iff_left hne]

/-- What an operation leaves under its own key, if that is in the active queue. -/
theorem eq_set_of_mem_effect
    (hkey : stage.key = some e.1) (he : e ∈ store'.entries) :
    ∃ caught, stage = .set e.1 e.2 caught := by
  cases stage with
  | listing | handler key record => cases heff
  | delete key record =>
    cases heff
    exact absurd (some.inj hkey.symm) (by simpa using (mem_eraseAll.1 he).2)
  | set key record caught =>
    cases heff
    rcases mem_set.1 he with rfl | ⟨hne, -⟩
    · exact ⟨caught, rfl⟩
    · exact absurd (some.inj hkey.symm) hne
  | atomic key record caught =>
    cases heff
    rcases mem_set.1 he with rfl | ⟨-, he⟩
    · exact absurd rfl (hact.ne_dlqKey key)
    · exact absurd (some.inj hkey.symm) (by simpa using (mem_eraseAll.1 he).2)

end

end

/-! ### Attempts are calls -/

/-- An entry of the active queue that waits for its next attempt. -/
structure Waiting (m : ℕ) (history : List (Event T)) (e : Key × Record T) : Prop where
  calls : calls history (lastPart e.1) = e.2.attempts
  attempts : e.2.attempts < m
  moved : .moved (lastPart e.1) ∉ history

/-- An entry of the active queue that the handler was called with so often. -/
structure Tried (history : List (Event T)) (key : Key) (attempts : ℕ) : Prop where
  active : IsActive key
  calls : calls history (lastPart key) = attempts
  moved : .moved (lastPart key) ∉ history

/-- What is known about the entry at hand. -/
def Stage.Counted (m : ℕ) (history : List (Event T)) : Stage T → Prop
  | .listing => True
  | .handler key record | .delete key record => Tried history key (record.attempts + 1)
  | .set key record _ => Tried history key record.attempts ∧ record.attempts < m
  | .atomic key record _ => Tried history key record.attempts

/-- The key of the entry at hand. -/
def State.current (s : State T) : Option Key := s.process.bind (·.stage.key)

structure Counted (m : ℕ) (s : State T) : Prop where
  bounded : Bounded m s.history
  store : ∀ e ∈ s.store.entries, IsActive e.1 → s.current ≠ some e.1 → Waiting m s.history e
  limit : ∀ p, s.process = some p → p.maxAttempts = m
  /-- No key is twice in the buffer. -/
  nodup : ∀ p, s.process = some p → (p.buffer.map Prod.fst).Nodup
  /-- The buffer is not stale. -/
  buffer : ∀ p, s.process = some p → ∀ e ∈ p.buffer, IsActive e.1 →
    e ∈ s.store.entries ∧ p.stage.key ≠ some e.1
  stage : ∀ p, s.process = some p → p.stage.Counted m s.history

section

variable {m : ℕ} {history events : List (Event T)} {s t : State T} {l : Label T}

variable {e : Key × Record T} {p : Process T} {rest : List (Key × Record T)} {id : String}
  {record : Record T} {labels : List (Label T)}

theorem Waiting.append (h : Waiting m history e)
    (hcalls : ∀ e ∈ events, ∀ id item, e ≠ .called id item)
    (hmoved : .moved (lastPart e.1) ∉ events) : Waiting m (events ++ history) e where
  calls := (calls_append hcalls).trans h.calls
  attempts := h.attempts
  moved hmem := (mem_append.1 hmem).elim hmoved h.moved

theorem Tried.append {key : Key} {attempts : ℕ} (h : Tried history key attempts)
    (hcalls : ∀ e ∈ events, ∀ id item, e ≠ .called id item)
    (hmoved : .moved (lastPart key) ∉ events) : Tried (events ++ history) key attempts where
  active := h.active
  calls := (calls_append hcalls).trans h.calls
  moved hmem := (mem_append.1 hmem).elim hmoved h.moved

theorem State.current_eq_none (hproc : s.process = some p) (hst : p.stage = .listing) :
    s.current = none := by
  rw [current, hproc, bind_some, hst]
  rfl

theorem State.upcoming_eq (hproc : s.process = some p) (hbuf : p.buffer = e :: rest) :
    s.upcoming = some e := by
  rw [upcoming, hproc, bind_some, hbuf, head?_cons]

/-- While no entry is at hand all entries of the active queue wait. -/
theorem Counted.waiting (h : Counted m s) (hcur : s.current = none) (he : e ∈ s.store.entries)
    (hact : IsActive e.1) : Waiting m s.history e :=
  h.store e he hact fun heq ↦ nomatch hcur.symm.trans heq

theorem counted_new : Counted m (new : State T) where
  bounded := ⟨fun _ ↦ Nat.zero_le m, .nil⟩
  store := forall_mem_nil _
  limit _ h := nomatch h
  nodup _ h := nomatch h
  buffer _ h := nomatch h
  stage _ h := nomatch h

section

variable (h : Consistent s) (hnot : ∀ item, .enqueued id item ∉ s.history)
include h hnot

/-- An item that was not stored yet was not tried. -/
theorem Consistent.calls_eq_zero : calls s.history id = 0 := by
  refine countP_eq_zero.2 fun e he hcall ↦ ?_
  cases e with
  | called id' item =>
    obtain rfl : id' = id := of_decide_eq_true hcall
    exact hnot item (h.events _ he)
  | _ => cases hcall

theorem Consistent.not_moved : .moved id ∉ s.history := by
  intro hmem
  obtain ⟨item, hitem⟩ := h.events _ hmem
  exact hnot item hitem

end

/-! ### One step -/

theorem Counted.write (h : Counted m s) (hs : Consistent s) (hm : 1 ≤ m)
    (hpend : (id, record) ∈ s.pending) :
    Counted m { s with
      store := s.store.set (activeKey id) record
      pending := s.pending.filter (·.1 ≠ id)
      history := .enqueued id record.item :: s.history } := by
  obtain ⟨-, hattempts, hnot⟩ := hs.pending _ hpend
  have hquiet : ∀ e ∈ [Event.enqueued id record.item], ∀ id item, e ≠ .called id item := by simp
  have hstill (id' : String) : .moved id' ∉ [Event.enqueued id record.item] := by simp
  refine ⟨h.bounded.append hquiet, ?_, h.limit, h.nodup, ?_, ?_⟩
  · intro e he hact hcur
    rcases mem_set.1 he with rfl | ⟨-, he⟩
    · have hwait : Waiting m s.history (activeKey id, record) :=
        ⟨(hs.calls_eq_zero hnot).trans hattempts.symm, hattempts.trans_lt hm, hs.not_moved hnot⟩
      exact hwait.append hquiet (hstill _)
    · exact (h.store e he hact hcur).append hquiet (hstill _)
  · intro p hp e he hact
    obtain ⟨hmem, hkey⟩ := h.buffer p hp e he hact
    have hne := hs.key_ne hpend (hs.buffer p hp e he)
    exact ⟨mem_set.2 (.inr ⟨hne, hmem⟩), hkey⟩
  · intro p hp
    have hst := h.stage p hp
    generalize p.stage = stage at hst
    cases stage with
    | listing => trivial
    | handler key record | delete key record | atomic key record caught =>
      exact Tried.append hst hquiet (hstill _)
    | set key record caught => exact ⟨hst.1.append hquiet (hstill _), hst.2⟩

section

variable (h : Counted m s) (hproc : s.process = some p) (hst : p.stage = .listing)
include h hproc hst

theorem Counted.fetch (size : ℕ) :
    Counted m { s with process := some (p.read (p.page s.store size) size) } := by
  have hcur := current_eq_none hproc hst
  have hsub : (p.page s.store size).Sublist s.store.entries :=
    (take_sublist _ _).trans filter_sublist
  refine ⟨h.bounded, fun e he hact _ ↦ h.waiting hcur he hact, ?_, ?_, ?_, ?_⟩ <;>
    rintro - ⟨rfl⟩
  · exact h.limit p hproc
  · exact s.store.keys_nodup.sublist (hsub.map Prod.fst)
  · intro e he _
    have hkey : p.stage.key = none := congrArg Stage.key hst
    exact ⟨hsub.subset he, fun heq ↦ nomatch hkey.symm.trans heq⟩
  · exact h.stage p hproc

theorem Counted.next {key : Key} (hbuffer : p.buffer = (key, record) :: rest)
    (hact : IsActive key) :
    Counted m { s with
      process := some { p with stage := .handler key record, buffer := rest }
      history := .called (lastPart key) record.item :: s.history } := by
  have hcur := current_eq_none hproc hst
  have hbuffered := h.buffer p hproc
  have hnodup := h.nodup p hproc
  rw [hbuffer] at hbuffered hnodup
  obtain ⟨hnot, hnodup⟩ := nodup_cons.1 hnodup
  have hstored := (hbuffered _ mem_cons_self hact).1
  have hwait : Waiting m s.history (key, record) := h.waiting hcur hstored hact
  refine ⟨h.bounded.called (hwait.calls.trans_lt hwait.attempts) hwait.moved _, ?_, ?_, ?_,
    ?_, ?_⟩
  · intro e he hactive' hkey
    have hold := h.waiting hcur he hactive'
    have hne : lastPart key ≠ lastPart e.1 := fun heq ↦
      hkey (congrArg some (hact.eq_of_lastPart_eq hactive' heq))
    refine ⟨?_, hold.attempts, fun hmem ↦ ?_⟩
    · rw [calls_cons_called, if_neg hne]
      exact hold.calls
    · exact hold.moved ((mem_cons.1 hmem).resolve_left (nomatch ·))
  all_goals rintro - ⟨rfl⟩
  · exact h.limit p hproc
  · exact hnodup
  · intro e he hactive'
    refine ⟨(hbuffered e (mem_cons_of_mem _ he) hactive').1, fun heq ↦ hnot ?_⟩
    have hmem : e.1 ∈ rest.map Prod.fst := List.mem_map_of_mem he
    exact some.inj heq ▸ hmem
  · refine ⟨hact, ?_, fun hmem ↦ ?_⟩
    · rw [calls_cons_called, if_pos rfl, hwait.calls]
    · exact hwait.moved ((mem_cons.1 hmem).resolve_left (nomatch ·))

end

section

variable {key : Key} (record) (now : ℕ)

/-- What is known about an entry that failed. -/
theorem handleFailure_counted {item : T} {attempts : ℕ} (h : Tried history key attempts)
    (caught : Bool) : (handleFailure key item attempts m now caught).Counted m history := by
  rw [handleFailure]
  split
  · exact h
  · next hlt => exact ⟨h, Nat.lt_of_not_le hlt⟩

theorem handleFailure_key (item : T) (attempts maxAttempts : ℕ) (caught : Bool) :
    (handleFailure key item attempts maxAttempts now caught).key = some key := by
  rw [handleFailure]
  split <;> rfl

variable (outcome : Outcome)

/-- What is known about the entry when the handler is done. -/
theorem afterHandler_counted (h : Tried history key (record.attempts + 1)) :
    (afterHandler key record m now outcome).Counted m (outcome.events key record ++ history) := by
  rcases afterHandler_cases key record m now outcome with ⟨hst, hevs⟩ | ⟨⟨caught, hst⟩, hevs⟩
  · rw [hst, hevs]
    exact h.append (by simp) (by simp)
  · rw [hst, hevs]
    exact handleFailure_counted now h caught

theorem afterHandler_key (maxAttempts : ℕ) :
    (afterHandler key record maxAttempts now outcome).key = some key := by
  rcases afterHandler_cases key record maxAttempts now outcome with ⟨hst, -⟩ | ⟨⟨caught, hst⟩, -⟩
  · rw [hst]
    rfl
  · rw [hst, handleFailure_key]

/-- The `catch` block goes on with the same entry and the same attempts. -/
theorem rejected_counted {stage stage' : Stage T} (h : stage.Counted m history)
    (hrej : stage.rejected m now = some stage') :
    stage'.Counted m history ∧ stage'.key = stage.key := by
  cases stage with
  | listing | handler key record => cases hrej
  | delete key record =>
    cases hrej
    exact ⟨handleFailure_counted now h true, handleFailure_key now _ _ _ _⟩
  | set key record caught =>
    cases caught with
    | true => cases hrej
    | false =>
      cases hrej
      exact ⟨handleFailure_counted now h.1 true, handleFailure_key now _ _ _ _⟩
  | atomic key record caught =>
    cases caught with
    | true => cases hrej
    | false =>
      cases hrej
      exact ⟨handleFailure_counted now h true, handleFailure_key now _ _ _ _⟩

/-- If nothing is stored any more, nothing was to be stored. -/
theorem eq_listing_of_rejected {stage : Stage T} (hst : ∀ key record, stage ≠ .handler key record)
    (hcaught : stage.caught = false) (hrej : stage.rejected m now = none) : stage = .listing := by
  cases stage with
  | listing => rfl
  | handler key record => exact absurd rfl (hst key record)
  | delete key record => cases hrej
  | set key record caught | atomic key record caught =>
    obtain rfl : caught = false := hcaught
    cases hrej

end

theorem Counted.settle (h : Counted m s) {key : Key} (hproc : s.process = some p)
    (hst : p.stage = .handler key record) (outcome : Outcome) (now : ℕ) :
    Counted m { s with
      process := some { p with stage := afterHandler key record p.maxAttempts now outcome }
      history := outcome.events key record ++ s.history } := by
  have hevs : ∀ e ∈ outcome.events key record, e = .succeeded (lastPart key) record.item := by
    rcases afterHandler_cases key record p.maxAttempts now outcome with ⟨-, heq⟩ | ⟨-, heq⟩
    · exact fun e he ↦ mem_singleton.1 (heq ▸ he)
    · exact fun e he ↦ absurd (heq ▸ he) not_mem_nil
  have hquiet : ∀ e ∈ outcome.events key record, ∀ id item, e ≠ .called id item :=
    fun e he _ _ heq ↦ nomatch (hevs e he).symm.trans heq
  have hstill (id : String) : .moved id ∉ outcome.events key record :=
    fun hmem ↦ nomatch hevs _ hmem
  have hkey : (afterHandler key record p.maxAttempts now outcome).key = some key :=
    afterHandler_key record now outcome p.maxAttempts
  have hcur : s.current = some key := by
    rw [current, hproc]
    exact congrArg Stage.key hst
  refine ⟨h.bounded.append hquiet, fun e he hact hne ↦ ?_, ?_, ?_, ?_, ?_⟩
  · refine (h.store e he hact ?_).append hquiet (hstill _)
    rw [hcur]
    exact hkey ▸ hne
  all_goals rintro - ⟨rfl⟩
  · exact h.limit p hproc
  · exact h.nodup p hproc
  · intro e he hact
    obtain ⟨hmem, hne⟩ := h.buffer p hproc e he hact
    rw [hst] at hne
    exact ⟨hmem, hkey ▸ hne⟩
  · have hcnt := h.stage p hproc
    rw [hst] at hcnt
    rw [h.limit p hproc]
    exact afterHandler_counted record now outcome hcnt

theorem exists_atomic_of_mem_events {stage : Stage T} {e : Event T} (he : e ∈ stage.events) :
    ∃ key record caught, stage = .atomic key record caught ∧ e = .moved (lastPart key) := by
  cases stage with
  | atomic key record caught => exact ⟨key, record, caught, rfl, mem_singleton.1 he⟩
  | _ => exact absurd he not_mem_nil

theorem Counted.commit (h : Counted m s) {store : OrderedStore Key (Record T)}
    (hproc : s.process = some p) (heff : p.stage.effect s.store = some store) :
    Counted m { s with
      store := store
      process := some { p with stage := .listing }
      history := p.stage.events ++ s.history } := by
  have hcur : s.current = p.stage.key := by rw [current, hproc, bind_some]
  have hst := h.stage p hproc
  have hbuf := h.buffer p hproc
  have hquiet : ∀ e ∈ p.stage.events, ∀ id item, e ≠ .called id item := by
    intro e he id item heq
    obtain ⟨key, record, caught, -, hmoved⟩ := exists_atomic_of_mem_events he
    exact nomatch hmoved.symm.trans heq
  -- only the item at hand can be moved
  have hstill {e : Key × Record T} (hact : IsActive e.1) (hne : p.stage.key ≠ some e.1) :
      .moved (lastPart e.1) ∉ p.stage.events := by
    intro hmem
    obtain ⟨key, record, caught, hatomic, hmoved⟩ := exists_atomic_of_mem_events hmem
    rw [hatomic] at hst hne
    have hlast : lastPart e.1 = lastPart key := Event.moved.inj hmoved
    exact hne (congrArg some (hact.eq_of_lastPart_eq hst.active hlast).symm)
  refine ⟨h.bounded.append hquiet, fun e he hact _ ↦ ?_, ?_, ?_, ?_, ?_⟩
  · by_cases hkey : p.stage.key = some e.1
    · obtain ⟨caught, hset⟩ := eq_set_of_mem_effect heff hact hkey he
      rw [hset] at hst ⊢
      exact ⟨hst.1.calls, hst.2, hst.1.moved⟩
    · have hmem := (mem_effect heff hact hkey).1 he
      exact (h.store e hmem hact (hcur ▸ hkey)).append hquiet (hstill hact hkey)
  all_goals rintro - ⟨rfl⟩
  · exact h.limit p hproc
  · exact h.nodup p hproc
  · intro e he hact
    obtain ⟨hmem, hkey⟩ := hbuf e he hact
    exact ⟨(mem_effect heff hact hkey).2 hmem, nofun⟩
  · trivial

/-- The call ends, with no entry at hand. -/
theorem Counted.ended (h : Counted m s) (hcur : s.current = none) :
    Counted m { s with process := none } := by
  refine ⟨h.bounded, fun e he hact _ ↦ h.waiting hcur he hact, ?_, ?_, ?_, ?_⟩ <;> rintro - ⟨⟩

theorem Counted.reject (h : Counted m s) (hproc : s.process = some p)
    (hst : ∀ key record, p.stage ≠ .handler key record) (hcaught : p.stage.caught = false)
    (now : ℕ) :
    Counted m { s with process :=
      (p.stage.rejected p.maxAttempts now).map fun stage ↦ { p with stage := stage } } := by
  have hcur : s.current = p.stage.key := by rw [current, hproc, bind_some]
  rcases hrej : p.stage.rejected p.maxAttempts now with - | stage
  · have hlisting := eq_listing_of_rejected now hst hcaught hrej
    exact h.ended (current_eq_none hproc hlisting)
  · rw [h.limit p hproc] at hrej
    obtain ⟨hcnt, hkey⟩ := rejected_counted now (h.stage p hproc) hrej
    refine ⟨h.bounded, fun e he hact hne ↦ h.store e he hact ?_, ?_, ?_, ?_, ?_⟩
    · rw [hcur, ← hkey]
      exact hne
    all_goals rintro - ⟨rfl⟩
    · exact h.limit p hproc
    · exact h.nodup p hproc
    · intro e he hact
      rw [hkey]
      exact h.buffer p hproc e he hact
    · exact hcnt

/-- Every step counts its attempts. -/
theorem Counted.step (h : Counted m s) (hs : Consistent s) (hm : 1 ≤ m) (hok : Regular m s l)
    (hguard : HandlesActive s l) (hstep : Step s l t) : Counted m t := by
  cases hstep with
  | enqueue hfresh => exact ⟨h.bounded, h.store, h.limit, h.nodup, h.buffer, h.stage⟩
  | write hpend => exact h.write hs hm hpend
  | busy => exact h
  | process hproc =>
    have hcur : s.current = none := by rw [current, hproc, bind_none]
    refine ⟨h.bounded, fun e he hact _ ↦ h.waiting hcur he hact, ?_, ?_, ?_, ?_⟩ <;>
      rintro - ⟨rfl⟩
    · exact hok
    · exact .nil
    · exact forall_mem_nil _
    · trivial
  | fetch hproc hst => exact h.fetch hproc hst _
  | @next p key record rest hproc hst hbuf =>
    have hmem : (key, record) ∈ p.buffer := hbuf ▸ mem_cons_self
    have hupcoming := upcoming_eq hproc hbuf
    have hdead := hguard _ hupcoming
    exact h.next hproc hst hbuf ((hs.buffer p hproc _ hmem).isActive hdead)
  | settle hproc hst => exact h.settle hproc hst _ _
  | commit hproc heff => exact h.commit hproc heff
  | reject hproc hst => exact h.reject hproc hst (hok _ hproc) _
  | finish hproc hst => exact h.ended (current_eq_none hproc hst)

/-! ### Every run -/

/-- History is only added to. -/
theorem Step.history_eq (hstep : Step s l t) : ∃ events, t.history = events ++ s.history := by
  cases hstep with
  | enqueue hfresh | busy | process hproc | fetch hproc hst | reject hproc hst
  | finish hproc hst => exact ⟨[], rfl⟩
  | write hpend | next hproc hst hbuf => exact ⟨[_], rfl⟩
  | settle hproc hst | commit hproc heff => exact ⟨_, rfl⟩

/-- A call on a dead letter comes after its move. -/
theorem Consistent.handlesActive (hs : Consistent s) (hstep : PersistentQueue.step s l = some t)
    (h : Bounded m t.history) : HandlesActive s l := by
  cases Step.of_step hstep with
  | @next p key record rest hproc hst hbuf =>
    intro e he hdead
    have hupcoming := upcoming_eq hproc hbuf
    obtain rfl : (key, record) = e := some.inj (hupcoming.symm.trans he)
    have hmem : (key, record) ∈ p.buffer := hbuf ▸ mem_cons_self
    have hmoved : Event.moved (lastPart key) ∈ s.history := by
      refine ((hs.buffer p hproc _ hmem).key.resolve_left fun hact ↦ ?_).2
      exact IsActive.ne_dlqKey hact key hdead.symm
    exact (pairwise_cons.1 h.2).1 _ hmoved _ _ rfl rfl
  | _ => trivial

/-- The attempts are counted as long as they are bounded. -/
def Tracked (m : ℕ) (s : State T) : Prop := Consistent s ∧ (Bounded m s.history → Counted m s)

/-- A step keeps the bound exactly if it hands out no dead letter. -/
theorem Tracked.step (hm : 1 ≤ m) (h : Tracked m s) (hok : Regular m s l)
    (hstep : PersistentQueue.step s l = some t) :
    Tracked m t ∧ (Bounded m t.history ↔ Bounded m s.history ∧ HandlesActive s l) := by
  have hcases := Step.of_step hstep
  obtain ⟨events, heq⟩ := hcases.history_eq
  have hback (ht : Bounded m t.history) : Bounded m s.history ∧ HandlesActive s l :=
    ⟨.of_append (heq ▸ ht), h.1.handlesActive hstep ht⟩
  have hforth (hs : Bounded m s.history ∧ HandlesActive s l) : Counted m t :=
    (h.2 hs.1).step h.1 hm hok hs.2 hcases
  exact ⟨⟨h.1.step hcases, fun ht ↦ hforth (hback ht)⟩, hback, fun hs ↦ (hforth hs).bounded⟩

/-- **When attempts are bounded.** In a run whose calls of `process` all have the limit `m`, and in
which no operation of the `catch` block is rejected: every item was tried at most `m` times and none
after its move to the dead-letter queue, exactly if the listing has never handed out a dead
letter. -/
theorem attempts_bounded_iff (hm : 1 ≤ m) {labels : List (Label T)}
    (hok : Machine.Guarded PersistentQueue.step (Regular m) new labels)
    (hrun : Machine.run PersistentQueue.step new labels = some s) :
    Bounded m s.history ↔ Machine.Guarded PersistentQueue.step HandlesActive new labels := by
  have hiff := run_iff_guarded (P := fun s ↦ Bounded m s.history)
    (fun h hok hstep ↦ (Tracked.step hm h hok hstep).1)
    (fun h hok hstep ↦ (Tracked.step hm h hok hstep).2)
    ⟨consistent_new, fun _ ↦ counted_new⟩ hok hrun
  exact hiff.trans (and_iff_right counted_new.bounded)

/-- Two attempts: the handler refuses an item, which is stored at the second try, and accepts it
when it is called again. -/
def acceptedSecond : List (Label String) :=
  [.enqueue "7f" "alert" 10, .write "7f", .process 2 100, .fetch 100, .next,
    .settle (.returned false) 20, .reject 21, .commit, .finish,
    .process 2 100, .fetch 100, .next, .settle (.returned true) 30, .commit, .finish]

theorem attempts_bounded_iff_acceptedSecond :
    ∃ s : State String, Machine.run PersistentQueue.step new acceptedSecond = some s ∧
      calls s.history "7f" = 2 ∧ Bounded 2 s.history := by
  have hrun : run step new acceptedSecond = some _ := rfl
  exact ⟨_, hrun, by decide, (attempts_bounded_iff (by decide) (by decide) hrun).2 (by decide)⟩

/-- One attempt: the handler refuses an item, and the item is moved. The next call of `process`
lists the dead letter, and the handler is called on it. -/
def triedAgain : List (Label String) :=
  [.enqueue "7f" "alert" 10, .write "7f",
    .process 1 100, .fetch 100, .next, .settle (.returned false) 20, .commit, .finish,
    .process 1 100, .fetch 100, .next]

/-- One attempt: the handler throws, and so does the store. The item is tried again. -/
def forgotten : List (Label String) :=
  [.enqueue "7f" "alert" 10, .write "7f", .process 1 100, .fetch 100, .next,
    .settle .threw 20, .reject 21, .process 1 100, .fetch 100, .next]

/-- **A dead letter is tried again**, and so is an item whose failure is not stored. -/
theorem dead_letter_tried_again :
    (∃ s : State String, Machine.run PersistentQueue.step new triedAgain = some s ∧
      Machine.Guarded PersistentQueue.step (Regular 1) new triedAgain ∧
      s.history =
        [.called "7f" "alert", .moved "7f", .called "7f" "alert", .enqueued "7f" "alert"] ∧
      ¬Bounded 1 s.history) ∧
    ∃ s : State String, Machine.run PersistentQueue.step new forgotten = some s ∧
      Machine.Guarded PersistentQueue.step HandlesActive new forgotten ∧
      ¬Bounded 1 s.history := by
  refine ⟨⟨_, rfl, by decide, rfl, fun h ↦ ?_⟩, _, rfl, by decide, fun h ↦ ?_⟩
  · exact absurd (h.1 "7f") (by decide)
  · exact absurd (h.1 "7f") (by decide)

end

end PersistentQueue

end Core
