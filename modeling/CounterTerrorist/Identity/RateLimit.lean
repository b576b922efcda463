import CounterTerrorist.Foundations.InsertionMap
import CounterTerrorist.Foundations.Run
import Mathlib.Algebra.Order.Ring.Rat
import Mathlib.Logic.Function.Basic

/-!
# `RateLimitService`

The service counts requests by key in memory and pushes the counts to the KV store behind the back
of the callers. `checkLimit` has no `await`: it counts, starts a push if the count is high, and
answers. `flushMemoryTier` drops the windows that are over and pushes the rest, each after the
write in flight for it, if there is one.

## Objects

A `RateLimitState` is an object that outlives its place in `memoryTier`: a flush or a write may
still hold it when its window is over. So the objects live in a heap, and `memoryTier` and the tasks
have their addresses.

## Writes

A write goes through the attempts of `retry`: `kv.get`, then the commit, then a pause if one of
them failed and an attempt is left. What the store answers is part of the label. All writes ever
made are kept in `writes`, with the attempts that failed.

`retry` resolves to a `Result`, also when the last attempt has failed. So the promise of `syncToKv`
is never rejected, and the part of `syncKey` that gives the counts back (`caught`) is not reached.
-/

namespace Identity

open Option

/-- `RateLimitState`; `inflight` is the write in flight, by its position among all writes. -/
structure RateLimitState where
  count : ℕ
  resetAt : ℚ
  synced : ℕ
  inflight : Option ℕ
deriving DecidableEq

/-- `RateLimitStatus`. -/
structure RateLimitStatus where
  allowed : Bool
  count : ℕ
  resetAt : ℚ
  retryAfterMs : ℚ
deriving DecidableEq

/-- What the KV store holds for a key. -/
structure KvEntry where
  count : ℕ
  resetAt : ℚ
deriving DecidableEq

/-- Where a write is. -/
inductive Stage
  /-- Waits for `kv.get`. -/
  | get
  /-- Waits for the commit of this entry. -/
  | commit (newState : KvEntry) (expireIn : ℚ)
  /-- Waits for the next attempt. -/
  | pause
  /-- `retry` has returned this `Result`. -/
  | returned (result : Except String ℕ)
  /-- The last handler of the promise has run. -/
  | settled (result : Except String ℕ)

/-- A call of `syncToKv`. -/
structure Write where
  key : String
  /-- The state it was started for. -/
  addr : ℕ
  delta : ℕ
  resetAt : ℚ
  /-- The attempts that have failed. -/
  failures : ℕ
  stage : Stage

/-- `maxAttempts` of `syncToKv`. -/
def maxAttempts : ℕ := 3

/-- A failed attempt: `retry` makes another one, or returns the error. -/
def Write.fail (w : Write) (error : String) : Write :=
  { w with
    failures := w.failures + 1
    stage := if w.failures + 1 < maxAttempts then .pause else .returned (.error error) }

/-- Whether a write has settled. -/
def Write.done (w : Write) : Bool :=
  match w.stage with
  | .settled _ => true
  | _ => false

/-- A pending part of `flushMemoryTier`, with the write it waits for. -/
structure FlushTask where
  key : String
  addr : ℕ
  awaited : Option ℕ
deriving DecidableEq

/-- The service. -/
structure RateLimitService where
  /-- The objects, by address. -/
  objects : ℕ → RateLimitState
  /-- The number of addresses in use. -/
  allocated : ℕ
  memoryTier : InsertionMap String ℕ
  writes : List Write
  tasks : List FlushTask
  /-- The last reading of the clock. -/
  clock : ℚ

namespace RateLimitService

variable (s : RateLimitService)

/-- A new service. -/
def init (now : ℚ) : RateLimitService := ⟨fun _ ↦ ⟨0, 0, 0, none⟩, 0, .empty, [], [], now⟩

/-- An object changes. -/
def modify (addr : ℕ) (f : RateLimitState → RateLimitState) : RateLimitService :=
  { s with objects := Function.update s.objects addr (f (s.objects addr)) }

/-! ### `syncKey` -/

/-- `syncKey`, up to the first `await` of `syncToKv`. -/
def syncKey (key : String) (addr : ℕ) : RateLimitService :=
  let state := s.objects addr
  if state.inflight.isSome then s
  else if state.count ≤ state.synced then s
  else
    { s.modify addr fun state ↦
        { state with synced := state.count, inflight := some s.writes.length } with
      writes := s.writes ++
        [⟨key, addr, state.count - state.synced, state.resetAt, 0, .get⟩] }

/-- The entry that `syncToKv` makes of what it has read. -/
def newState (entry : Option KvEntry) (delta : ℕ) (resetAt now : ℚ) : KvEntry :=
  match entry with
  | none => ⟨delta, resetAt⟩
  | some value =>
    if now > value.resetAt then ⟨delta, resetAt⟩
    else ⟨value.count + delta, max value.resetAt resetAt⟩

/-- The handler behind `catch` in `syncKey`. -/
def caught (w : Write) : RateLimitService :=
  if s.memoryTier.get w.key = some w.addr then
    s.modify w.addr fun state ↦ { state with synced := state.synced - w.delta }
  else s

/-- The handler behind `finally`. -/
def finished (i : ℕ) (w : Write) : RateLimitService :=
  s.modify w.addr fun state ↦
    { state with inflight := if state.inflight = some i then none else state.inflight }

/-- The handlers of a write that has returned. `syncToKv` awaits `retry` and returns what comes of
it, so its promise is fulfilled with the `Result`, whichever it is. -/
def settle (i : ℕ) (w : Write) (result : Except String ℕ) : RateLimitService :=
  let promise : Except String (Except String ℕ) := .ok result
  let handled := match promise with
    | .ok _ => s
    | .error _ => s.caught w
  let finished := handled.finished i w
  { finished with writes := finished.writes.set i { w with stage := .settled result } }

/-! ### `checkLimit` and `flushMemoryTier` -/

/-- Whether the window of a state is over. -/
def expired (now : ℚ) (addr : ℕ) : Bool := now > (s.objects addr).resetAt

/-- A new state. -/
def alloc (windowMs now : ℚ) : ℕ × RateLimitService :=
  (s.allocated, { s.modify s.allocated fun _ ↦ ⟨0, now + windowMs, 0, none⟩ with
    allocated := s.allocated + 1 })

/-- The state that a request is counted in. -/
def locate (key : String) (windowMs now : ℚ) : ℕ × RateLimitService :=
  match s.memoryTier.get key with
  | some addr => if s.expired now addr then s.alloc windowMs now else (addr, s)
  | none => s.alloc windowMs now

/-- `state.count++` and `memoryTier.set(key, state)`. -/
def increment (key : String) (addr : ℕ) : RateLimitService :=
  { s.modify addr fun state ↦ { state with count := state.count + 1 } with
    memoryTier := s.memoryTier.set key addr }

/-- What `checkLimit` returns for a state. -/
def statusOf (state : RateLimitState) (limit now : ℚ) : RateLimitStatus where
  allowed := (state.count : ℚ) ≤ limit
  count := state.count
  resetAt := state.resetAt
  retryAfterMs := max 0 (state.resetAt - now)

/-- `checkLimit`. -/
def checkLimit (key : String) (limit windowMs now : ℚ) : RateLimitStatus × RateLimitService :=
  let located := s.locate key windowMs now
  let addr := located.1
  let counted := located.2.increment key addr
  let status := statusOf (counted.objects addr) limit now
  if !status.allowed || (status.count : ℚ) ≥ limit / 2 then (status, counted.syncKey key addr)
  else (status, counted)

/-- `flushMemoryTier`, up to the `await` of every entry. -/
def flushMemoryTier (now : ℚ) : RateLimitService :=
  let live := s.memoryTier.filter fun addr ↦ !s.expired now addr
  { s with
    memoryTier := live
    tasks := s.tasks ++ live.entries.map fun (key, addr) ↦ ⟨key, addr, (s.objects addr).inflight⟩ }

/-! ### Steps -/

/-- What can happen next. A label has what the clock says and what the store answers. -/
inductive Label
  /-- A call of `checkLimit`. -/
  | check (key : String) (limit windowMs now : ℚ)
  /-- A call of `flushMemoryTier`. -/
  | flush (now : ℚ)
  /-- The `i`-th part of a flush goes on. -/
  | resume (i : ℕ)
  /-- `kv.get` answers the `i`-th write, or fails. -/
  | read (i : ℕ) (entry : Except String (Option KvEntry)) (now : ℚ)
  /-- The commit of the `i`-th write succeeds, or fails. -/
  | commit (i : ℕ) (result : Except String Unit)
  /-- The pause of the `i`-th write is over. -/
  | wake (i : ℕ)
  /-- The handlers of the `i`-th write run. -/
  | settle (i : ℕ)

/-- A write moves on. -/
def advance (i : ℕ) (w : Write) : RateLimitService := { s with writes := s.writes.set i w }

/-- One step, up to the next `await`. -/
def step : Label → Option RateLimitService
  | .check key limit windowMs now =>
    some { (s.checkLimit key limit windowMs now).2 with clock := now }
  | .flush now => some { s.flushMemoryTier now with clock := now }
  | .resume i =>
    s.tasks[i]?.bind fun task ↦
      -- `await state.inflight`: the write it waits for has settled
      if task.awaited.all fun j ↦ s.writes[j]?.any Write.done then
        some { s.syncKey task.key task.addr with tasks := s.tasks.eraseIdx i }
      else none
  | .read i entry now =>
    s.writes[i]?.bind fun w ↦
      match w.stage, entry with
      | .get, .ok value =>
        let new := newState value w.delta w.resetAt now
        some (s.advance i { w with stage := .commit new (max 1000 (new.resetAt - now)) })
      | .get, .error e => some (s.advance i (w.fail e))
      | _, _ => none
  | .commit i result =>
    s.writes[i]?.bind fun w ↦
      match w.stage, result with
      | .commit new _, .ok _ => some (s.advance i { w with stage := .returned (.ok new.count) })
      | .commit _ _, .error e => some (s.advance i (w.fail e))
      | _, _ => none
  | .wake i =>
    s.writes[i]?.bind fun w ↦
      match w.stage with
      | .pause => some (s.advance i { w with stage := .get })
      | _ => none
  | .settle i =>
    s.writes[i]?.bind fun w ↦
      match w.stage with
      | .returned result => some (s.settle i w result)
      | _ => none

/-- What a step answers to a caller. -/
def answer : Label → List RateLimitStatus
  | .check key limit windowMs now => [(s.checkLimit key limit windowMs now).1]
  | _ => []

end RateLimitService

/-! ### What a step can do -/

/-- The next stage of a write, by an answer of the store or the end of a pause. -/
inductive Write.Moves (w : Write) : Write → Prop
  | read (new : KvEntry) (expireIn : ℚ) (hstage : w.stage = .get) :
    Moves w { w with stage := .commit new expireIn }
  | committed (new : KvEntry) (expireIn : ℚ) (hstage : w.stage = .commit new expireIn) :
    Moves w { w with stage := .returned (.ok new.count) }
  | failed (e : String) (hstage : w.stage = .get ∨ ∃ new expireIn, w.stage = .commit new expireIn) :
    Moves w (w.fail e)
  | woken (hstage : w.stage = .pause) : Moves w { w with stage := .get }

namespace RateLimitService

/-- The push that `syncKey` starts. -/
def push (s : RateLimitService) (key : String) (addr : ℕ) : RateLimitService :=
  { s.modify addr fun state ↦
      { state with synced := state.count, inflight := some s.writes.length } with
    writes := s.writes ++
      [⟨key, addr, (s.objects addr).count - (s.objects addr).synced, (s.objects addr).resetAt, 0,
        .get⟩] }

/-- `syncKey` does nothing, or starts a push of what is missing. -/
theorem syncKey_cases (s : RateLimitService) (key : String) (addr : ℕ) :
    s.syncKey key addr = s ∨ (s.objects addr).inflight = none ∧
      (s.objects addr).synced < (s.objects addr).count ∧ s.syncKey key addr = s.push key addr := by
  rw [syncKey]
  rcases hinflight : (s.objects addr).inflight with - | i
  · by_cases hcnt : (s.objects addr).count ≤ (s.objects addr).synced
    · exact .inl (by simp [hcnt])
    · exact .inr ⟨rfl, Nat.lt_of_not_le hcnt, by simp [hcnt, push]⟩
  · exact .inl (by simp)

/-- A request is counted in a new state, or in the one that is there if its window is not over. -/
theorem locate_cases (s : RateLimitService) (key : String) (windowMs now : ℚ) :
    s.locate key windowMs now = s.alloc windowMs now ∧
        (∀ addr, s.memoryTier.get key = some addr → now > (s.objects addr).resetAt) ∨
      ∃ addr, s.memoryTier.get key = some addr ∧ ¬now > (s.objects addr).resetAt ∧
        s.locate key windowMs now = (addr, s) := by
  rw [locate]
  rcases s.memoryTier.get key with - | addr
  · exact .inl ⟨rfl, nofun⟩
  · by_cases hover : now > (s.objects addr).resetAt
    · exact .inl ⟨by simp [expired, hover], fun _ h ↦ some.inj h ▸ hover⟩
    · exact .inr ⟨addr, rfl, hover, by simp [expired, hover]⟩

theorem modify_objects (s : RateLimitService) (addr : ℕ) (f : RateLimitState → RateLimitState)
    (a : ℕ) : (s.modify addr f).objects a = if a = addr then f (s.objects a) else s.objects a := by
  show Function.update s.objects addr (f (s.objects addr)) a = _
  rw [Function.update_apply]
  by_cases ha : a = addr
  · rw [if_pos ha, if_pos ha, ha]
  · rw [if_neg ha, if_neg ha]

/-- The steps of the service. -/
inductive Step (s : RateLimitService) : Label → RateLimitService → Prop
  | check (key : String) (limit windowMs now : ℚ) :
    Step s (.check key limit windowMs now)
      { (s.checkLimit key limit windowMs now).2 with clock := now }
  | flush (now : ℚ) : Step s (.flush now) { s.flushMemoryTier now with clock := now }
  | resume (i : ℕ) (task : FlushTask) (htask : s.tasks[i]? = some task) :
    Step s (.resume i) { s.syncKey task.key task.addr with tasks := s.tasks.eraseIdx i }
  | advance (l : Label) (i : ℕ) (w w' : Write) (hw : s.writes[i]? = some w) (hmoves : w.Moves w')
    (hl : s.answer l = []) : Step s l (s.advance i w')
  | settle (i : ℕ) (w : Write) (result : Except String ℕ) (hw : s.writes[i]? = some w)
    (hstage : w.stage = .returned result) : Step s (.settle i) (s.settle i w result)

/-- Every step is one of these. -/
theorem Step.of_step {s t : RateLimitService} {l : Label} (h : s.step l = some t) : Step s l t := by
  cases l with
  | check key limit windowMs now =>
    obtain rfl := some.inj h
    exact .check key limit windowMs now
  | flush now =>
    obtain rfl := some.inj h
    exact .flush now
  | resume i =>
    obtain ⟨task, htask, h⟩ := bind_eq_some_iff.1 h
    obtain ⟨-, ⟨⟩⟩ := ite_none_right_eq_some.1 h
    exact .resume i task htask
  | read i entry now =>
    obtain ⟨w, hw, h⟩ := bind_eq_some_iff.1 h
    split at h
    · obtain rfl := some.inj h
      exact .advance _ i w _ hw (.read _ _ ‹_›) rfl
    · obtain rfl := some.inj h
      exact .advance _ i w _ hw (.failed _ (.inl ‹_›)) rfl
    · cases h
  | commit i result =>
    obtain ⟨w, hw, h⟩ := bind_eq_some_iff.1 h
    split at h
    · obtain rfl := some.inj h
      exact .advance _ i w _ hw (.committed _ _ ‹_›) rfl
    · obtain rfl := some.inj h
      exact .advance _ i w _ hw (.failed _ (.inr ⟨_, _, ‹_›⟩)) rfl
    · cases h
  | wake i =>
    obtain ⟨w, hw, h⟩ := bind_eq_some_iff.1 h
    split at h
    · obtain rfl := some.inj h
      exact .advance _ i w _ hw (.woken ‹_›) rfl
    · cases h
  | settle i =>
    obtain ⟨w, hw, h⟩ := bind_eq_some_iff.1 h
    split at h
    · obtain rfl := some.inj h
      exact .settle i w _ hw ‹_›
    · cases h

end RateLimitService

end Identity
