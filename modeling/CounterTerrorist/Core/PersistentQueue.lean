import CounterTerrorist.Foundations.OrderedStore
import CounterTerrorist.Foundations.Run
import Mathlib.Data.Prod.Lex
import Mathlib.Data.String.Basic
import Mathlib.Order.WithBot

/-!
# The persistent queue

`PersistentQueue`: items that wait in `Deno.Kv` for a handler to accept them. `process` lists what
is stored under `["queue", name]` and calls the handler on one entry after the other. An item that
was accepted is deleted, one that was not is written back with one more attempt, and after
`maxAttempts` of them it is moved below `["queue", name, "dlq"]`.

## Steps

A label is what happens between two await points: a call, a reply of the handler, or the effect of
an operation of the store. `enqueue` and its write are two of them, and may be anywhere between
those of a `process`. A second `process` meanwhile returns at once.

An operation of the store can also be rejected. In the `try` block this leads to the `catch` block,
which stores the item as one that failed; in the `catch` block, or while the listing reads, it ends
the call. The write of an `enqueue` that is rejected is one that never happens.

The listing is read in pages. Their lengths are up to the runtime, so labels say them; `limit`
bounds the sum. Entries wait in a buffer between the moment a page is read and the call of the
handler, and what is written in between does not reach them.

`crypto.randomUUID` is a label too. That it never repeats is the only thing assumed about it.

## Dead letters

Their keys lie below the prefix that `process` lists, so they are handed to the handler like any
other entry, and moved onto their own key when it refuses them again. Nothing gets lost: the
operation deletes first and writes then (`no_item_lost`).
-/

namespace Core

open List Machine Option OrderedStore

namespace PersistentQueue

/-! ### Keys and records -/

/-- What follows `["queue", name]` in a key: an id, or two parts. In the order of the store. -/
abbrev Key := String ×ₗ WithBot String

/-- The key of an item in the active queue. -/
def activeKey (id : String) : Key := toLex (id, ⊥)

/-- The last part of a key. -/
def lastPart (key : Key) : String := (ofLex key).2.unbotD (ofLex key).1

/-- `dlqKey`: where the item with this key goes in the end. -/
def dlqKey (key : Key) : Key := toLex ("dlq", lastPart key)

/-- What is stored for an item. -/
structure Record (T : Type*) where
  item : T
  attempts : ℕ
  timestamp : ℕ
deriving Repr, DecidableEq

@[simp] theorem lastPart_dlqKey (key : Key) : lastPart (dlqKey key) = lastPart key := rfl

theorem activeKey_ne_dlqKey (id : String) (key : Key) : activeKey id ≠ dlqKey key := by
  intro h
  have hsnd : (⊥ : WithBot String) = lastPart key := congrArg (fun k : Key ↦ (ofLex k).2) h
  exact WithBot.bot_ne_coe hsnd

/-! ### The machine -/

variable {T : Type*}

/-- What a call of `process` waits for. -/
inductive Stage (T : Type*)
  /-- The next entry of the listing. -/
  | listing
  /-- The handler, called with the item of this entry. -/
  | handler (key : Key) (record : Record T)
  /-- `kv.delete(key)`, for an entry that the handler has accepted. -/
  | delete (key : Key) (record : Record T)
  /-- `kv.set(key, record)`, in the `catch` block or before. -/
  | set (key : Key) (record : Record T) (caught : Bool)
  /-- `kv.atomic().delete(key).set(dlqKey, record).commit()`, likewise. -/
  | atomic (key : Key) (record : Record T) (caught : Bool)

/-- A call of `process`. -/
structure Process (T : Type*) where
  maxAttempts : ℕ
  /-- How many more entries the listing may read. -/
  remaining : ℕ
  /-- The last key it has read. -/
  after : Option Key
  /-- Whether there is nothing behind it. -/
  exhausted : Bool
  /-- Entries that were read and not handed out. -/
  buffer : List (Key × Record T)
  stage : Stage T

/-- What has happened. -/
inductive Event (T : Type*)
  /-- An item was stored. -/
  | enqueued (id : String) (item : T)
  /-- The handler was called. -/
  | called (id : String) (item : T)
  /-- The handler returned true. -/
  | succeeded (id : String) (item : T)
  /-- An item was moved to the dead-letter queue. -/
  | moved (id : String)
deriving Repr, DecidableEq

/-- The queue and its part of the store. -/
structure State (T : Type*) where
  store : OrderedStore Key (Record T)
  /-- All calls of `enqueue`, with the ids they drew. -/
  enqueues : List (String × T)
  /-- Those that have not written yet. -/
  pending : List (String × Record T)
  /-- The call of `process` under way; `isProcessing` says if there is one. -/
  process : Option (Process T)
  /-- Latest first. -/
  history : List (Event T)

/-- What a handler does with an item. -/
inductive Outcome
  | returned (success : Bool)
  | threw
deriving Repr, DecidableEq

inductive Label (T : Type*)
  /-- A call of `enqueue`. -/
  | enqueue (id : String) (item : T) (now : ℕ)
  /-- Its write. -/
  | write (id : String)
  /-- A call of `process`. -/
  | process (maxAttempts batchSize : ℕ)
  /-- The listing reads a page. -/
  | fetch (size : ℕ)
  /-- The listing hands out an entry, and the handler is called. -/
  | next
  /-- The handler is done. -/
  | settle (outcome : Outcome) (now : ℕ)
  /-- The operation that `process` waits for takes effect. -/
  | commit
  /-- It is rejected. -/
  | reject (now : ℕ)
  /-- The listing ends. -/
  | finish
deriving Repr, DecidableEq

/-- A new object on an empty store. -/
def new : State T := ⟨.empty, [], [], none, []⟩

/-- `process`, up to its first await. -/
def begin (maxAttempts batchSize : ℕ) : Process T where
  maxAttempts := maxAttempts
  remaining := batchSize
  after := none
  exhausted := false
  buffer := []
  stage := .listing

/-- The page that is read next. -/
def Process.page (p : Process T) (store : OrderedStore Key (Record T)) (size : ℕ) :
    List (Key × Record T) :=
  (store.above p.after).take (min size p.remaining)

/-- The listing when it has read a page. -/
def Process.read (p : Process T) (page : List (Key × Record T)) (size : ℕ) : Process T :=
  { p with
    remaining := p.remaining - page.length
    after := OrderedStore.cursor page p.after
    exhausted := page.length < size
    buffer := page }

/-- `handleFailure`, up to its await. -/
def handleFailure (key : Key) (item : T) (attempts maxAttempts now : ℕ) (caught : Bool) : Stage T :=
  if attempts ≥ maxAttempts then .atomic key ⟨item, attempts, now⟩ caught
  else .set key ⟨item, attempts, now⟩ caught

/-- What `process` does with the answer of the handler. -/
def afterHandler (key : Key) (record : Record T) (maxAttempts now : ℕ) : Outcome → Stage T
  | .returned true => .delete key record
  | .returned false => handleFailure key record.item (record.attempts + 1) maxAttempts now false
  | .threw => handleFailure key record.item (record.attempts + 1) maxAttempts now true

/-- What `process` does when an operation is rejected: the `catch` block, or nothing any more. -/
def Stage.rejected (maxAttempts now : ℕ) : Stage T → Option (Stage T)
  | .delete key record =>
    some (handleFailure key record.item (record.attempts + 1) maxAttempts now true)
  | .set key record false | .atomic key record false =>
    some (handleFailure key record.item record.attempts maxAttempts now true)
  | .listing | .handler .. | .set _ _ true | .atomic _ _ true => none

/-- The effect on the store of what `process` waits for, if it waits for the store. -/
def Stage.effect (store : OrderedStore Key (Record T)) :
    Stage T → Option (OrderedStore Key (Record T))
  | .listing | .handler .. => none
  | .delete key _ => some (store.eraseAll [key])
  | .set key record _ => some (store.set key record)
  | .atomic key record _ => some ((store.eraseAll [key]).set (dlqKey key) record)

/-- What an operation of the store adds to the history. -/
def Stage.events : Stage T → List (Event T)
  | .atomic key _ _ => [.moved (lastPart key)]
  | _ => []

/-- What the answer of the handler adds to the history. -/
def Outcome.events (key : Key) (record : Record T) : Outcome → List (Event T)
  | .returned true => [.succeeded (lastPart key) record.item]
  | _ => []

/-- One step. -/
def step (s : State T) : Label T → Option (State T)
  | .enqueue id item now =>
    if id ∈ s.enqueues.map Prod.fst then none
    else some { s with
      enqueues := (id, item) :: s.enqueues
      pending := (id, ⟨item, 0, now⟩) :: s.pending }
  | .write id => do
    let record ← s.pending.lookup id
    some { s with
      store := s.store.set (activeKey id) record
      pending := s.pending.filter (·.1 ≠ id)
      history := .enqueued id record.item :: s.history }
  | .process maxAttempts batchSize =>
    if s.process.isSome then some s
    else some { s with process := some (begin maxAttempts batchSize) }
  | .fetch size => do
    let p ← s.process
    match p.stage, p.buffer with
    | .listing, [] =>
      if p.exhausted = false ∧ 0 < p.remaining ∧ 0 < size then
        some { s with process := some (p.read (p.page s.store size) size) }
      else none
    | _, _ => none
  | .next => do
    let p ← s.process
    match p.stage, p.buffer with
    | .listing, (key, record) :: rest =>
      some { s with
        process := some { p with stage := .handler key record, buffer := rest }
        history := .called (lastPart key) record.item :: s.history }
    | _, _ => none
  | .settle outcome now => do
    let p ← s.process
    match p.stage with
    | .handler key record =>
      some { s with
        process := some { p with stage := afterHandler key record p.maxAttempts now outcome }
        history := outcome.events key record ++ s.history }
    | _ => none
  | .commit => do
    let p ← s.process
    let store ← p.stage.effect s.store
    some { s with
      store := store
      process := some { p with stage := .listing }
      history := p.stage.events ++ s.history }
  | .reject now => do
    let p ← s.process
    match p.stage, p.buffer with
    | .handler .., _ | .listing, _ :: _ => none
    | stage, _ => some { s with
        process := (stage.rejected p.maxAttempts now).map fun stage ↦ { p with stage := stage } }
  | .finish => do
    let p ← s.process
    match p.stage, p.buffer with
    | .listing, [] =>
      if p.exhausted = true ∨ p.remaining = 0 then some { s with process := none } else none
    | _, _ => none

/-! ### What a step does -/

/-- The steps, one by one, with what can be said about the state before. -/
inductive Step (s : State T) : Label T → State T → Prop
  | enqueue {id : String} {item : T} {now : ℕ} (hfresh : id ∉ s.enqueues.map Prod.fst) :
    Step s (.enqueue id item now) { s with
      enqueues := (id, item) :: s.enqueues
      pending := (id, ⟨item, 0, now⟩) :: s.pending }
  | write {id : String} {record : Record T} (hpending : (id, record) ∈ s.pending) :
    Step s (.write id) { s with
      store := s.store.set (activeKey id) record
      pending := s.pending.filter (·.1 ≠ id)
      history := .enqueued id record.item :: s.history }
  | busy {maxAttempts batchSize : ℕ} : Step s (.process maxAttempts batchSize) s
  | process {maxAttempts batchSize : ℕ} (hprocess : s.process = none) :
    Step s (.process maxAttempts batchSize) { s with process := some (begin maxAttempts batchSize) }
  | fetch {p : Process T} {size : ℕ} (hprocess : s.process = some p) (hstage : p.stage = .listing) :
    Step s (.fetch size) { s with process := some (p.read (p.page s.store size) size) }
  | next {p : Process T} {key : Key} {record : Record T} {rest : List (Key × Record T)}
    (hprocess : s.process = some p) (hstage : p.stage = .listing)
    (hbuffer : p.buffer = (key, record) :: rest) :
    Step s .next { s with
      process := some { p with stage := .handler key record, buffer := rest }
      history := .called (lastPart key) record.item :: s.history }
  | settle {p : Process T} {key : Key} {record : Record T} {outcome : Outcome} {now : ℕ}
    (hprocess : s.process = some p) (hstage : p.stage = .handler key record) :
    Step s (.settle outcome now) { s with
      process := some { p with stage := afterHandler key record p.maxAttempts now outcome }
      history := outcome.events key record ++ s.history }
  | commit {p : Process T} {store : OrderedStore Key (Record T)} (hprocess : s.process = some p)
    (heffect : p.stage.effect s.store = some store) :
    Step s .commit { s with
      store := store
      process := some { p with stage := .listing }
      history := p.stage.events ++ s.history }
  | reject {p : Process T} {now : ℕ} (hprocess : s.process = some p)
    (hstage : ∀ key record, p.stage ≠ .handler key record) :
    Step s (.reject now) { s with
      process := (p.stage.rejected p.maxAttempts now).map fun stage ↦ { p with stage := stage } }
  | finish {p : Process T} (hprocess : s.process = some p) (hstage : p.stage = .listing) :
    Step s .finish { s with process := none }

/-- What becomes of an entry: the handler has accepted it, or it counts as a failure. -/
theorem afterHandler_cases (key : Key) (record : Record T) (maxAttempts now : ℕ)
    (outcome : Outcome) :
    (afterHandler key record maxAttempts now outcome = .delete key record ∧
        outcome.events key record = [.succeeded (lastPart key) record.item]) ∨
      (∃ caught, afterHandler key record maxAttempts now outcome =
          handleFailure key record.item (record.attempts + 1) maxAttempts now caught) ∧
        outcome.events key record = [] := by
  rcases outcome with success | -
  · cases success with
    | true => exact .inl ⟨rfl, rfl⟩
    | false => exact .inr ⟨⟨false, rfl⟩, rfl⟩
  · exact .inr ⟨⟨true, rfl⟩, rfl⟩

theorem mem_of_lookup {α β : Type*} [BEq α] [LawfulBEq α] {l : List (α × β)} {a : α} {b : β}
    (h : l.lookup a = some b) : (a, b) ∈ l := by
  obtain ⟨before, after, rfl, -⟩ := lookup_eq_some_iff.1 h
  simp

/-- Every step is one of these. -/
theorem Step.of_step {s t : State T} {l : Label T} (h : step s l = some t) : Step s l t := by
  cases l with
  | enqueue id item now =>
    obtain ⟨hfresh, h⟩ := ite_none_left_eq_some.1 h
    cases h
    exact .enqueue hfresh
  | write id =>
    obtain ⟨record, hlook, h⟩ := bind_eq_some_iff.1 h
    cases h
    exact .write (mem_of_lookup hlook)
  | process maxAttempts batchSize =>
    rw [step] at h
    split at h
    · cases h
      exact .busy
    · next hnone =>
      cases h
      exact .process (by simpa using hnone)
  | fetch size =>
    obtain ⟨p, hprocess, h⟩ := bind_eq_some_iff.1 h
    split at h
    · next hstage _ =>
      cases (ite_none_right_eq_some.1 h).2
      exact .fetch hprocess hstage
    · cases h
  | next =>
    obtain ⟨p, hprocess, h⟩ := bind_eq_some_iff.1 h
    split at h
    · next hstage hbuffer =>
      cases h
      exact .next hprocess hstage hbuffer
    · cases h
  | settle outcome now =>
    obtain ⟨p, hprocess, h⟩ := bind_eq_some_iff.1 h
    split at h
    · next hstage =>
      cases h
      exact .settle hprocess hstage
    · cases h
  | commit =>
    obtain ⟨p, hprocess, h⟩ := bind_eq_some_iff.1 h
    obtain ⟨store, heffect, h⟩ := bind_eq_some_iff.1 h
    cases h
    exact .commit hprocess heffect
  | reject now =>
    obtain ⟨p, hprocess, h⟩ := bind_eq_some_iff.1 h
    split at h
    · cases h
    · cases h
    · next hhandler _ =>
      cases h
      exact .reject hprocess hhandler
  | finish =>
    obtain ⟨p, hprocess, h⟩ := bind_eq_some_iff.1 h
    split at h
    · next hstage _ =>
      cases (ite_none_right_eq_some.1 h).2
      exact .finish hprocess hstage
    · cases h

/-! ### Consistency -/

/-- An entry of an item that was stored, under one of its two keys. -/
structure Known (history : List (Event T)) (e : Key × Record T) : Prop where
  enqueued : .enqueued (lastPart e.1) e.2.item ∈ history
  key : e.1 = activeKey (lastPart e.1) ∨ (e.1 = dlqKey e.1 ∧ .moved (lastPart e.1) ∈ history)

/-- An event is about an item that was stored. -/
def Event.Known (history : List (Event T)) : Event T → Prop
  | .enqueued _ _ => True
  | .called id item | .succeeded id item => .enqueued id item ∈ history
  | .moved id => ∃ item, .enqueued id item ∈ history

/-- An event of `process`, about an item that was stored before. -/
def Event.Follows (history : List (Event T)) : Event T → Prop
  | .enqueued _ _ => False
  | e => e.Known history

/-- What `process` waits for is about an item that was stored, and only what has succeeded is
deleted. -/
def Stage.Known (history : List (Event T)) : Stage T → Prop
  | .listing => True
  | .handler key record | .set key record _ | .atomic key record _ =>
    PersistentQueue.Known history (key, record)
  | .delete key record =>
    PersistentQueue.Known history (key, record) ∧
      .succeeded (lastPart key) record.item ∈ history

section

variable {history later : List (Event T)}

theorem Known.mono {e : Key × Record T} (h : Known history e) (hsub : history ⊆ later) :
    Known later e :=
  ⟨hsub h.enqueued, h.key.imp_right fun hdlq ↦ ⟨hdlq.1, hsub hdlq.2⟩⟩

variable {e : Event T}

theorem Event.Known.mono (h : e.Known history) (hsub : history ⊆ later) : e.Known later := by
  cases e with
  | enqueued id item => trivial
  | called id item | succeeded id item => exact hsub h
  | moved id => exact h.imp fun item hitem ↦ hsub hitem

theorem Event.Follows.known (h : e.Follows history) : e.Known history := by
  cases e with
  | enqueued id item => trivial
  | called id item | succeeded id item | moved id => exact h

/-- The events of `process` do not make an item known. -/
theorem enqueued_of_follows {events : List (Event T)} (hevs : ∀ e ∈ events, e.Follows history)
    {id : String} {item : T} (hmem : .enqueued id item ∈ events ++ history) :
    .enqueued id item ∈ history :=
  (mem_append.1 hmem).resolve_left fun hnew ↦ nomatch hevs _ hnew

theorem Stage.Known.mono {stage : Stage T} (h : stage.Known history) (hsub : history ⊆ later) :
    stage.Known later := by
  cases stage with
  | listing => trivial
  | handler key record | set key record caught | atomic key record caught =>
    exact PersistentQueue.Known.mono h hsub
  | delete key record => exact ⟨h.1.mono hsub, hsub h.2⟩

end

/-- What the parts of a state have to do with each other. -/
structure Consistent (s : State T) : Prop where
  ids : (s.enqueues.map Prod.fst).Nodup
  enqueued : ∀ {id item}, .enqueued id item ∈ s.history → (id, item) ∈ s.enqueues
  pending : ∀ e ∈ s.pending, (e.1, e.2.item) ∈ s.enqueues ∧ e.2.attempts = 0 ∧
    ∀ item, .enqueued e.1 item ∉ s.history
  events : ∀ e ∈ s.history, e.Known s.history
  store : ∀ e ∈ s.store.entries, Known s.history e
  buffer : ∀ p, s.process = some p → ∀ e ∈ p.buffer, Known s.history e
  stage : ∀ p, s.process = some p → p.stage.Known s.history

section

variable {s t : State T} {l : Label T}

theorem consistent_new : Consistent (new : State T) where
  ids := .nil
  enqueued h := absurd h not_mem_nil
  pending := forall_mem_nil _
  events := forall_mem_nil _
  store := forall_mem_nil _
  buffer _ h := nomatch h
  stage _ h := nomatch h

variable {id : String} {item : T} {stage : Stage T} {p : Process T}

/-- An id stands for one item. -/
theorem Consistent.item_unique (h : Consistent s) {item' : T}
    (hitem : .enqueued id item ∈ s.history) (hitem' : .enqueued id item' ∈ s.history) :
    item = item' :=
  congrArg Prod.snd (inj_on_of_nodup_map h.ids (h.enqueued hitem) (h.enqueued hitem') rfl)

variable {record : Record T} {store : OrderedStore Key (Record T)} {history : List (Event T)}
  {key : Key}

/-- The key that `enqueue` writes is the key of nothing that was stored before. -/
theorem Consistent.key_ne (h : Consistent s) (hpending : (id, record) ∈ s.pending)
    {e : Key × Record T} (he : Known s.history e) : e.1 ≠ activeKey id := by
  intro hkey
  have henq := he.enqueued
  rw [hkey] at henq
  exact (h.pending _ hpending).2.2 _ henq

/-- A step of `process`: no item becomes known by it, so it is enough to look at what it does to the
store and to the call. -/
theorem Consistent.grow (h : Consistent s) (events : List (Event T))
    {process : Option (Process T)} (hevs : ∀ e ∈ events, e.Follows s.history)
    (hstore : ∀ e ∈ store.entries, Known (events ++ s.history) e)
    (hprocess : ∀ p, process = some p →
      (∀ e ∈ p.buffer, Known s.history e) ∧ p.stage.Known (events ++ s.history)) :
    Consistent { s with store := store, process := process, history := events ++ s.history } := by
  have hsub : s.history ⊆ events ++ s.history := subset_append_right events s.history
  refine ⟨h.ids, fun hmem ↦ h.enqueued (enqueued_of_follows hevs hmem), fun e he ↦ ?_,
    fun e he ↦ ?_, hstore, fun p hp e he ↦ ((hprocess p hp).1 e he).mono hsub,
    fun p hp ↦ (hprocess p hp).2⟩
  · obtain ⟨hitem, hattempts, hnot⟩ := h.pending e he
    exact ⟨hitem, hattempts, fun item hmem ↦ hnot item (enqueued_of_follows hevs hmem)⟩
  · rcases mem_append.1 he with hnew | hmem
    · exact (hevs e hnew).known.mono hsub
    · exact (h.events e hmem).mono hsub

theorem outcome_events_follow (h : Known history (key, record)) (outcome : Outcome) :
    ∀ e ∈ outcome.events key record, e.Follows history := by
  intro e he
  rcases afterHandler_cases key record 0 0 outcome with ⟨-, hevs⟩ | ⟨-, hevs⟩
  · rw [hevs] at he
    obtain rfl := mem_singleton.1 he
    exact h.enqueued
  · rw [hevs] at he
    exact absurd he not_mem_nil

theorem stage_events_follow (h : stage.Known history) : ∀ e ∈ stage.events, e.Follows history := by
  intro e he
  cases stage with
  | atomic key record caught =>
    obtain rfl := mem_singleton.1 he
    exact ⟨record.item, h.enqueued⟩
  | _ => exact absurd he not_mem_nil

theorem handleFailure_known (h : Known history (key, record)) (attempts maxAttempts now : ℕ)
    (caught : Bool) :
    (handleFailure key record.item attempts maxAttempts now caught).Known history := by
  rw [handleFailure]
  split
  · exact ⟨h.enqueued, h.key⟩
  · exact ⟨h.enqueued, h.key⟩

/-- What the `catch` block waits for. -/
theorem rejected_known {stage' : Stage T} (h : stage.Known history) {maxAttempts now : ℕ}
    (heq : stage.rejected maxAttempts now = some stage') : stage'.Known history := by
  cases stage with
  | listing | handler key record => cases heq
  | delete key record =>
    cases heq
    exact handleFailure_known h.1 _ _ _ _
  | set key record caught | atomic key record caught =>
    cases caught with
    | true => cases heq
    | false =>
      cases heq
      exact handleFailure_known h _ _ _ _

/-- What `process` waits for after the handler. -/
theorem afterHandler_known (h : Known history (key, record)) (maxAttempts now : ℕ)
    (outcome : Outcome) :
    (afterHandler key record maxAttempts now outcome).Known
      (outcome.events key record ++ history) := by
  rcases afterHandler_cases key record maxAttempts now outcome with
    ⟨hstage, hevs⟩ | ⟨⟨caught, hstage⟩, hevs⟩
  · rw [hstage, hevs]
    exact ⟨h.mono (subset_cons_self _ _), mem_cons_self⟩
  · rw [hstage, hevs]
    exact handleFailure_known h _ _ _ _

/-- What the operations of the store leave there. -/
theorem effect_known {store' : OrderedStore Key (Record T)}
    (hstore : ∀ e ∈ store.entries, Known history e) (hstage : stage.Known history)
    (h : stage.effect store = some store') :
    ∀ e ∈ store'.entries, Known (stage.events ++ history) e := by
  have hsub : history ⊆ stage.events ++ history := subset_append_right _ history
  intro e he
  cases stage with
  | listing | handler key record => cases h
  | delete key record =>
    cases h
    exact hstore e (mem_eraseAll.1 he).1
  | set key record caught =>
    cases h
    rcases mem_set.1 he with rfl | ⟨-, he⟩
    · exact hstage
    · exact hstore e he
  | atomic key record caught =>
    cases h
    rcases mem_set.1 he with rfl | ⟨-, he⟩
    · exact ⟨hsub hstage.enqueued, .inr ⟨rfl, mem_cons_self⟩⟩
    · exact (hstore e (mem_eraseAll.1 he).1).mono hsub

theorem Consistent.enqueue (h : Consistent s) (hfresh : id ∉ s.enqueues.map Prod.fst) (item : T)
    (now : ℕ) :
    Consistent { s with
      enqueues := (id, item) :: s.enqueues
      pending := (id, ⟨item, 0, now⟩) :: s.pending } := by
  refine ⟨nodup_cons.2 ⟨hfresh, h.ids⟩, fun hmem ↦ mem_cons_of_mem _ (h.enqueued hmem),
    fun e he ↦ ?_, h.events, h.store, h.buffer, h.stage⟩
  rcases mem_cons.1 he with rfl | he
  · exact ⟨mem_cons_self, rfl, fun item hmem ↦
      hfresh (List.mem_map_of_mem (h.enqueued hmem))⟩
  · obtain ⟨hitem, hrest⟩ := h.pending e he
    exact ⟨mem_cons_of_mem _ hitem, hrest⟩

theorem Consistent.write (h : Consistent s) (hpending : (id, record) ∈ s.pending) :
    Consistent { s with
      store := s.store.set (activeKey id) record
      pending := s.pending.filter (·.1 ≠ id)
      history := .enqueued id record.item :: s.history } := by
  have hsub : s.history ⊆ .enqueued id record.item :: s.history := subset_cons_self _ _
  refine ⟨h.ids, fun {id' item'} hmem ↦ ?_, fun e he ↦ ?_, fun e he ↦ ?_, fun e he ↦ ?_,
    fun p hp e he ↦ (h.buffer p hp e he).mono hsub, fun p hp ↦ (h.stage p hp).mono hsub⟩
  · rcases mem_cons.1 hmem with heq | hmem
    · cases heq
      exact (h.pending _ hpending).1
    · exact h.enqueued hmem
  · -- what is still to be written has other ids
    obtain ⟨he, hne⟩ := mem_filter.1 he
    obtain ⟨hitem, hattempts, hnot⟩ := h.pending e he
    refine ⟨hitem, hattempts, fun item hmem ↦ ?_⟩
    rcases mem_cons.1 hmem with heq | hmem
    · cases heq
      exact absurd rfl (of_decide_eq_true hne)
    · exact hnot item hmem
  · rcases mem_cons.1 he with rfl | he
    · trivial
    · exact (h.events e he).mono hsub
  · rcases mem_set.1 he with rfl | ⟨-, he⟩
    · exact ⟨mem_cons_self, .inl rfl⟩
    · exact (h.store e he).mono hsub

/-- The entry that the handler was called with. -/
theorem Consistent.known_handler (h : Consistent s) (hprocess : s.process = some p)
    (hstage : p.stage = .handler key record) : Known s.history (key, record) := by
  have hknown := h.stage p hprocess
  rwa [hstage] at hknown

/-- Every step keeps the state consistent. -/
theorem Consistent.step (h : Consistent s) (hstep : Step s l t) : Consistent t := by
  cases hstep with
  | enqueue hfresh => exact h.enqueue hfresh _ _
  | write hpending => exact h.write hpending
  | busy => exact h
  | process hprocess =>
    refine h.grow [] (forall_mem_nil _) h.store ?_
    rintro - ⟨rfl⟩
    exact ⟨forall_mem_nil _, trivial⟩
  | @fetch p size hprocess hstage =>
    refine h.grow [] (forall_mem_nil _) h.store ?_
    rintro - ⟨rfl⟩
    exact ⟨fun e he ↦ h.store e (mem_of_mem_filter (mem_of_mem_take he)), h.stage p hprocess⟩
  | @next p key record rest hprocess hstage hbuffer =>
    have hknown := h.buffer p hprocess
    rw [hbuffer] at hknown
    obtain ⟨hentry, hrest⟩ := forall_mem_cons.1 hknown
    refine h.grow [_] (forall_mem_singleton.2 hentry.enqueued)
      (fun e he ↦ (h.store e he).mono (subset_cons_self _ _)) ?_
    rintro - ⟨rfl⟩
    exact ⟨hrest, hentry.mono (subset_cons_self _ _)⟩
  | @settle p key record outcome now hprocess hstage =>
    have hentry := h.known_handler hprocess hstage
    refine h.grow _ (outcome_events_follow hentry outcome)
      (fun e he ↦ (h.store e he).mono (subset_append_right _ _)) ?_
    rintro - ⟨rfl⟩
    exact ⟨h.buffer p hprocess, afterHandler_known hentry _ _ _⟩
  | @commit p store hprocess heffect =>
    refine h.grow _ (stage_events_follow (h.stage p hprocess))
      (effect_known h.store (h.stage p hprocess) heffect) ?_
    rintro - ⟨rfl⟩
    exact ⟨h.buffer p hprocess, trivial⟩
  | @reject p now hprocess hstage =>
    refine h.grow [] (forall_mem_nil _) h.store fun p' hp ↦ ?_
    obtain ⟨stage, hrejected, rfl⟩ := map_eq_some_iff.1 hp
    exact ⟨h.buffer p hprocess, rejected_known (h.stage p hprocess) hrejected⟩
  | finish hprocess hstage =>
    exact h.grow [] (forall_mem_nil _) h.store fun _ hp ↦ nomatch hp

/-! ### Nothing is lost -/

/-- The item is stored. -/
def Stored (store : OrderedStore Key (Record T)) (id : String) (item : T) : Prop :=
  ∃ e ∈ store.entries, lastPart e.1 = id ∧ e.2.item = item

/-- Every item that was enqueued is stored or has succeeded. -/
def Kept (s : State T) : Prop :=
  ∀ id item, .enqueued id item ∈ s.history → .succeeded id item ∈ s.history ∨ Stored s.store id item

/-- An operation of the store loses no item but one that has succeeded. -/
theorem Consistent.effect_keeps (h : Consistent s) (hprocess : s.process = some p)
    (heffect : p.stage.effect s.store = some store) (henq : .enqueued id item ∈ s.history)
    (hstored : Stored s.store id item) : .succeeded id item ∈ s.history ∨ Stored store id item := by
  have hstage := h.stage p hprocess
  obtain ⟨e, he, rfl, rfl⟩ := hstored
  generalize p.stage = stage at hstage heffect
  cases stage with
  | listing | handler key record => cases heffect
  | delete key record =>
    cases heffect
    by_cases hkey : e.1 = key
    · subst hkey
      rw [h.item_unique henq hstage.1.enqueued]
      exact .inl hstage.2
    · exact .inr ⟨e, mem_eraseAll.2 ⟨he, by simpa using hkey⟩, rfl, rfl⟩
  | set key record caught =>
    cases heffect
    by_cases hkey : e.1 = key
    · subst hkey
      exact .inr ⟨_, mem_set.2 (.inl rfl), rfl, h.item_unique hstage.enqueued henq⟩
    · exact .inr ⟨e, mem_set.2 (.inr ⟨hkey, he⟩), rfl, rfl⟩
  | atomic key record caught =>
    cases heffect
    -- the same last part is the same item, whichever of its keys `e` is stored under
    by_cases hlast : lastPart e.1 = lastPart key
    · have hitem : Event.enqueued (lastPart e.1) record.item ∈ s.history := hlast ▸ hstage.enqueued
      exact .inr ⟨_, mem_set.2 (.inl rfl), hlast.symm, h.item_unique hitem henq⟩
    · refine .inr ⟨e, mem_set.2 (.inr ⟨?_, mem_eraseAll.2 ⟨he, ?_⟩⟩),
        rfl, rfl⟩
      · exact fun hkey ↦ hlast ((congrArg lastPart hkey).trans (lastPart_dlqKey key))
      · exact fun hkey ↦ hlast (congrArg lastPart (mem_singleton.1 hkey))

/-- No step loses an item. -/
theorem Kept.step (hkept : Kept s) (h : Consistent s) (hstep : Step s l t) : Kept t := by
  intro id item hmem
  cases hstep with
  | enqueue hfresh | busy | process hprocess | fetch hprocess hstage | reject hprocess hstage
  | finish hprocess hstage => exact hkept _ _ hmem
  | @write id' record hpending =>
    rcases mem_cons.1 hmem with heq | hmem
    · cases heq
      exact .inr ⟨_, mem_set.2 (.inl rfl), rfl, rfl⟩
    · rcases hkept _ _ hmem with hsucc | ⟨e, he, rfl, rfl⟩
      · exact .inl (mem_cons_of_mem _ hsucc)
      · have hkey := h.key_ne hpending (h.store e he)
        exact .inr ⟨e, mem_set.2 (.inr ⟨hkey, he⟩), rfl, rfl⟩
  | next hprocess hstage hbuffer =>
    have hmem := (mem_cons.1 hmem).resolve_left (nomatch ·)
    exact (hkept _ _ hmem).imp_left (mem_cons_of_mem _)
  | @settle p key record outcome now hprocess hstage =>
    have hentry := h.known_handler hprocess hstage
    have henq := enqueued_of_follows (outcome_events_follow hentry outcome) hmem
    exact (hkept _ _ henq).imp_left (mem_append_right _)
  | @commit p store hprocess heffect =>
    have henq := enqueued_of_follows (stage_events_follow (h.stage p hprocess)) hmem
    rcases hkept _ _ henq with hsucc | hstored
    · exact .inl (mem_append_right _ hsucc)
    · exact (h.effect_keeps hprocess heffect henq hstored).imp_left (mem_append_right _)

/-- Both invariants, after every run. -/
theorem consistent_of_run {labels : List (Label T)} (hrun : run step new labels = some s) :
    Consistent s ∧ Kept s := by
  refine run_invariant' (P := fun s ↦ Consistent s ∧ Kept s) (fun {s l t} h hstep ↦ ?_)
    ⟨consistent_new, fun _ _ hmem ↦ absurd hmem not_mem_nil⟩ hrun
  exact ⟨h.1.step (.of_step hstep), h.2.step h.1 (.of_step hstep)⟩

/-- **No item is lost.** In every run, whatever the handler does, whatever the limits of the calls
are, which operations are rejected and however the writes of `enqueue` lie between the steps of
`process`: an item that was enqueued is stored, in the active queue or among the dead letters, or
the handler has returned true on it. -/
theorem no_item_lost {labels : List (Label T)} (hrun : Machine.run step new labels = some s)
    {id : String} {item : T} (henqueued : .enqueued id item ∈ s.history) :
    .succeeded id item ∈ s.history ∨
      ∃ record : Record T, record.item = item ∧
        ((activeKey id, record) ∈ s.store.entries ∨
          (dlqKey (activeKey id), record) ∈ s.store.entries) := by
  obtain ⟨h, hkept⟩ := consistent_of_run hrun
  refine (hkept _ _ henqueued).imp_right ?_
  rintro ⟨⟨key, record⟩, he, rfl, rfl⟩
  refine ⟨record, rfl, ?_⟩
  rcases (h.store _ he).key with hkey | ⟨hkey, -⟩
  · exact .inl (hkey ▸ he)
  · have hdlq : key = dlqKey (activeKey (lastPart key)) := hkey
    exact .inr (hdlq ▸ he)

/-- Two items, one attempt: the first one is refused and becomes a dead letter, the second one is
enqueued meanwhile and waits. -/
def refusedOnce : List (Label String) :=
  [.enqueue "7f" "alert" 10, .write "7f", .process 1 100, .fetch 100, .next,
    .enqueue "2a" "log" 20, .settle (.returned false) 30, .write "2a", .commit, .finish]

theorem no_item_lost_refusedOnce :
    ∃ s : State String, Machine.run step new refusedOnce = some s ∧
      (.succeeded "7f" "alert" ∈ s.history ∨
        ∃ record : Record String, record.item = "alert" ∧
          ((activeKey "7f", record) ∈ s.store.entries ∨
            (dlqKey (activeKey "7f"), record) ∈ s.store.entries)) ∧
      (dlqKey (activeKey "7f"), ⟨"alert", 1, 30⟩) ∈ s.store.entries := by
  have hrun : run step new refusedOnce = some _ := rfl
  exact ⟨_, hrun, no_item_lost hrun (by decide), by decide⟩

end

end PersistentQueue

end Core
