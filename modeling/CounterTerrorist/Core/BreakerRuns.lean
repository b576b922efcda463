import CounterTerrorist.Core.CircuitBreaker
import CounterTerrorist.Foundations.Run
import Mathlib.Tactic.Linarith

/-!
# The circuit breaker under concurrent use

Calls of `CircuitBreaker.execute` may overlap: the part before the action and the part after it are
separate steps, and any number of actions can be in flight between them. The history keeps, latest
first, when actions start and as what, when the breaker opens and which action closes it.

A breaker should have three properties (`Safe`).

* Once it has opened, no action starts for `resetTimeoutMs`.
* While it is half open, at most one trial is in flight.
* It closes only through the success of a trial that was started after that delay.

None of them is guaranteed. `execute` lets every call through that finds the breaker half open, and
`onSuccess` closes the breaker whichever action succeeds, also one from before the breaker opened:
`two_trials_in_flight`. With a clock that does not go back, there is no other way to miss them
(`breaker_safe_apart`).
-/

namespace Core

open List Machine Option

namespace CircuitBreaker

/-- What is seen of a breaker. A trial is an action that was started while the breaker was not
closed. -/
inductive Event
  | started (id : ℕ) (trial : Bool) (time : ℤ)
  | opened (time : ℤ)
  | closed (id : ℕ)
deriving Repr, DecidableEq

/-- A breaker between two steps of its callers. -/
structure State where
  breaker : CircuitBreaker
  /-- The last reading of the clock. -/
  clock : ℤ
  /-- The number of calls so far, which is the name of the next one. -/
  calls : ℕ
  /-- The actions that have not settled, and whether they are trials. -/
  inflight : List (ℕ × Bool)
  history : List Event
deriving Repr, DecidableEq

/-- The steps of the callers: a call of `execute`, and the end of an action. -/
inductive Label
  | call (now : ℤ)
  | succeed (id : ℕ)
  | fail (id : ℕ) (now : ℤ)
deriving Repr, DecidableEq

/-- A new breaker that nobody has called. -/
def State.init (failureThreshold : ℕ) (resetTimeoutMs now : ℤ) : State :=
  ⟨new failureThreshold resetTimeoutMs, now, 0, [], []⟩

namespace State

variable (s : State)

/-- The trials in flight. -/
def trials : List (ℕ × Bool) := s.inflight.filter (·.2)

/-- An action starts. -/
def begin (trial : Bool) (now : ℤ) (breaker : CircuitBreaker) : State where
  breaker := breaker
  clock := now
  calls := s.calls + 1
  inflight := (s.calls, trial) :: s.inflight
  history := .started s.calls trial now :: s.history

/-- An action settles. -/
def settle (id : ℕ) (now : ℤ) (breaker : CircuitBreaker) (events : List Event) : State where
  breaker := breaker
  clock := now
  calls := s.calls
  inflight := s.inflight.filter (·.1 ≠ id)
  history := events ++ s.history

/-- What a success is seen as. -/
def closing (id : ℕ) : List Event :=
  if s.breaker.state = .closed then [] else [.closed id]

/-- What a failure is seen as. -/
def opening (now : ℤ) : List Event :=
  if s.breaker.state ≠ .opened ∧ (s.breaker.onFailure now).state = .opened then [.opened now]
  else []

/-- One step. Only an action in flight can settle. -/
def step : Label → Option State
  | .call now =>
    let started := s.breaker.start now
    if started.1 then some (s.begin (started.2.state ≠ .closed) now started.2)
    else some { s with clock := now, calls := s.calls + 1 }
  | .succeed id =>
    if id ∈ s.inflight.map Prod.fst then
      some (s.settle id s.clock s.breaker.onSuccess (s.closing id))
    else none
  | .fail id now =>
    if id ∈ s.inflight.map Prod.fst then
      some (s.settle id now (s.breaker.onFailure now) (s.opening now))
    else none

end State

/-! ### What is asked for -/

/-- After an opening no action starts before the delay is over. The later event is on the left. -/
def Waits (resetTimeoutMs : ℤ) (history : List Event) : Prop :=
  history.Pairwise fun later earlier ↦ ∀ id trial time openTime,
    later = .started id trial time → earlier = .opened openTime → openTime + resetTimeoutMs ≤ time

/-- Between an opening and a later closing there is the start of the trial that closes the breaker,
and it comes after the delay. -/
def ClosedByTrial (resetTimeoutMs : ℤ) (history : List Event) : Prop :=
  ∀ later mid earlier id openTime,
    history = later ++ .closed id :: (mid ++ .opened openTime :: earlier) →
      ∃ time, .started id true time ∈ mid ∧ openTime + resetTimeoutMs ≤ time

/-- The three properties of a breaker. -/
structure Safe (s : State) : Prop where
  waits : Waits s.breaker.resetTimeoutMs s.history
  oneTrial : s.breaker.state = .halfOpen → s.trials.length ≤ 1
  closedByTrial : ClosedByTrial s.breaker.resetTimeoutMs s.history

/-! ### When it holds -/

/-- The clock does not go back. -/
def Forward (s : State) : Label → Prop
  | .call now | .fail _ now => s.clock ≤ now
  | .succeed _ => True

instance (s : State) : (l : Label) → Decidable (Forward s l)
  | .call now | .fail _ now => inferInstanceAs (Decidable (s.clock ≤ now))
  | .succeed _ => .isTrue trivial

/-- `execute` turns the call down. -/
def Rejects (b : CircuitBreaker) (now : ℤ) : Prop :=
  b.state = .opened ∧ now - b.lastFailureTime.getD 0 ≤ b.resetTimeoutMs

instance (b : CircuitBreaker) (now : ℤ) : Decidable (b.Rejects now) :=
  inferInstanceAs (Decidable (_ ∧ _))

/-- Whether an event is an opening. -/
def Event.isOpened : Event → Bool
  | .opened _ => true
  | _ => false

/-- Whether an event is the start of this action as a trial. -/
def Event.isTrial (id : ℕ) : Event → Bool
  | .started id' trial _ => id' = id && trial
  | _ => false

/-- The events since the last opening. -/
def sinceOpening (history : List Event) : List Event := history.takeWhile (!·.isOpened)

/-- The calls keep out of each other's way: while the breaker is not closed, none comes through as
long as a trial is in flight, and no action succeeds but a trial that was started since the breaker
opened. -/
def Apart (s : State) : Label → Prop
  | .call now => s.breaker.state = .closed ∨ s.breaker.Rejects now ∨ s.trials = []
  | .succeed id =>
    s.breaker.state = .closed ∨ ∃ e ∈ sinceOpening s.history, e.isTrial id = true
  | .fail _ _ => True

instance (s : State) : (l : Label) → Decidable (Apart s l)
  | .call now =>
    inferInstanceAs (Decidable (s.breaker.state = .closed ∨ s.breaker.Rejects now ∨ s.trials = []))
  | .succeed id =>
    inferInstanceAs (Decidable
      (s.breaker.state = .closed ∨ ∃ e ∈ sinceOpening s.history, e.isTrial id = true))
  | .fail _ _ => .isTrue trivial

/-! ### Steps -/

/-- What a step can do. -/
inductive Step (s : State) : Label → State → Prop
  | reject (now : ℤ) (hrejects : s.breaker.Rejects now) :
    Step s (.call now) { s with clock := now, calls := s.calls + 1 }
  | trial (now : ℤ) (hstate : s.breaker.state ≠ .closed) (hrejects : ¬s.breaker.Rejects now) :
    Step s (.call now) (s.begin true now { s.breaker with state := .halfOpen })
  | normal (now : ℤ) (hstate : s.breaker.state = .closed) :
    Step s (.call now) (s.begin false now s.breaker)
  | succeed (id : ℕ) (hid : id ∈ s.inflight.map Prod.fst) :
    Step s (.succeed id) (s.settle id s.clock s.breaker.onSuccess (s.closing id))
  | fail (id : ℕ) (now : ℤ) (hid : id ∈ s.inflight.map Prod.fst) :
    Step s (.fail id now) (s.settle id now (s.breaker.onFailure now) (s.opening now))

section

variable {s t : State} {l : Label}

theorem step_call (s : State) (now : ℤ) :
    ∃ t, s.step (.call now) = some t ∧ Step s (.call now) t := by
  rcases hstate : s.breaker.state with - | - | -
  · refine ⟨_, ?_, .normal now hstate⟩
    simp [State.step, start, hstate]
  · rcases em (s.breaker.Rejects now) with hrejects | hrejects
    · refine ⟨_, ?_, .reject now hrejects⟩
      simp [State.step, start, hstate, not_lt.2 hrejects.2]
    · refine ⟨_, ?_, .trial now (by simp [hstate]) hrejects⟩
      have hdelay : s.breaker.resetTimeoutMs < now - s.breaker.lastFailureTime.getD 0 :=
        not_le.1 fun hle ↦ hrejects ⟨hstate, hle⟩
      simp [State.step, start, hstate, hdelay]
  · refine ⟨_, ?_, .trial now (by simp [hstate]) fun h ↦ ?_⟩
    · have hsame : { s.breaker with state := .halfOpen } = s.breaker := by rw [← hstate]
      simp [State.step, start, hstate, hsame]
    · exact absurd (hstate.symm.trans h.1) nofun

/-- Every step is one of these. -/
theorem Step.of_step (h : s.step l = some t) : Step s l t := by
  cases l with
  | call now =>
    obtain ⟨t', ht', hstep⟩ := step_call s now
    obtain rfl := some.inj (h.symm.trans ht')
    exact hstep
  | succeed id =>
    obtain ⟨hid, ⟨⟩⟩ := ite_none_right_eq_some.1 h
    exact .succeed id hid
  | fail id now =>
    obtain ⟨hid, ⟨⟩⟩ := ite_none_right_eq_some.1 h
    exact .fail id now hid

end

/-! ### The history -/

section

variable {history mid earlier : List Event} {e : Event} {reset : ℤ} {id : ℕ} {time : ℤ}

theorem Waits.cons (h : Waits reset history) (he : ∀ id trial time, e ≠ .started id trial time) :
    Waits reset (e :: history) :=
  pairwise_cons.2 ⟨fun _ _ id trial time _ hstart ↦ absurd hstart (he id trial time), h⟩

theorem Waits.started (h : Waits reset history) (trial : Bool)
    (hopen : ∀ openTime, .opened openTime ∈ history → openTime + reset ≤ time) :
    Waits reset (.started id trial time :: history) := by
  refine pairwise_cons.2 ⟨?_, h⟩
  rintro _ hmem _ _ _ openTime ⟨⟩ rfl
  exact hopen openTime hmem

theorem ClosedByTrial.cons (h : ClosedByTrial reset history) (he : ∀ id, e ≠ .closed id) :
    ClosedByTrial reset (e :: history) := by
  intro later mid earlier id openTime heq
  cases later with
  | nil => exact absurd (List.cons.inj heq).1 (he id)
  | cons _ later => exact h later mid earlier id openTime (List.cons.inj heq).2

theorem mem_of_mem_sinceOpening (h : e ∈ sinceOpening (mid ++ .opened time :: earlier)) :
    e ∈ mid := by
  induction mid with
  | nil => simp [sinceOpening, Event.isOpened] at h
  | cons x mid ih =>
    rw [sinceOpening, cons_append, takeWhile_cons] at h
    split at h
    · exact (mem_cons.1 h).elim (fun hx ↦ hx ▸ mem_cons_self) fun h ↦ mem_cons_of_mem _ (ih h)
    · cases h

/-- The last opening, after which come the events since then. -/
theorem exists_last_opening (h : .opened time ∈ history) :
    ∃ openTime earlier, history = sinceOpening history ++ .opened openTime :: earlier := by
  induction history with
  | nil => cases h
  | cons x history ih =>
    cases x with
    | opened openTime => exact ⟨openTime, history, rfl⟩
    | started | closed =>
      obtain ⟨openTime, earlier, heq⟩ := ih ((mem_cons.1 h).resolve_left nofun)
      exact ⟨openTime, earlier, congrArg (List.cons _) heq⟩

theorem Event.isTrial_iff : e.isTrial id = true ↔ ∃ time, e = .started id true time := by
  cases e with
  | started id' trial time => simp [Event.isTrial]
  | _ => simp [Event.isTrial]

/-- A trial since the last opening came after the delay of every opening. -/
theorem Waits.of_mem_sinceOpening (h : Waits reset history)
    (hmem : .started id true time ∈ sinceOpening history) {openTime : ℤ}
    (hopen : .opened openTime ∈ history) : openTime + reset ≤ time := by
  obtain ⟨mid, earlier, rfl⟩ := append_of_mem hopen
  have hpair := (pairwise_append.1 h).2.2 _ (mem_of_mem_sinceOpening hmem) _ mem_cons_self
  exact hpair id true time openTime rfl rfl

/-- The breaker closes through a trial since the last opening. -/
theorem ClosedByTrial.closed (h : ClosedByTrial reset history) (hwaits : Waits reset history)
    (hmem : .started id true time ∈ sinceOpening history) :
    ClosedByTrial reset (.closed id :: history) := by
  intro later mid earlier id' openTime heq
  cases later with
  | nil =>
    obtain ⟨⟨⟩, rfl⟩ := List.cons.inj heq
    exact ⟨time, mem_of_mem_sinceOpening hmem, hwaits.of_mem_sinceOpening hmem (by simp)⟩
  | cons _ later => exact h later mid earlier id' openTime (List.cons.inj heq).2

end

/-! ### The invariant -/

/-- What holds as long as the clock goes forward and the calls are apart. -/
structure Disciplined (s : State) : Prop extends Safe s where
  past : ∀ time, .opened time ∈ s.history ∨ (∃ id trial, .started id trial time ∈ s.history) →
    time ≤ s.clock
  lastFailure : s.breaker.state = .opened → ∀ time, .opened time ∈ s.history →
    time ≤ s.breaker.lastFailureTime.getD 0
  delay : s.breaker.state ≠ .opened → ∀ time, .opened time ∈ s.history →
    time + s.breaker.resetTimeoutMs ≤ s.clock
  failures : s.breaker.state ≠ .closed → s.breaker.failureThreshold ≤ s.breaker.failureCount
  trial : s.breaker.state = .halfOpen → s.trials ≠ []

section

variable {s t : State} {l : Label} {id : ℕ} {now : ℤ}

/-- Of a closed breaker only the history matters. -/
theorem Disciplined.of_closed (hstate : s.breaker.state = .closed)
    (hwaits : Waits s.breaker.resetTimeoutMs s.history)
    (hclosed : ClosedByTrial s.breaker.resetTimeoutMs s.history)
    (hpast : ∀ time, .opened time ∈ s.history ∨ (∃ id trial, .started id trial time ∈ s.history) →
      time ≤ s.clock)
    (hdelay : ∀ time, .opened time ∈ s.history → time + s.breaker.resetTimeoutMs ≤ s.clock) :
    Disciplined s where
  waits := hwaits
  oneTrial hhalf := absurd (hstate.symm.trans hhalf) nofun
  closedByTrial := hclosed
  past := hpast
  lastFailure hopen := absurd (hstate.symm.trans hopen) nofun
  delay _ := hdelay
  failures hne := absurd hstate hne
  trial hhalf := absurd (hstate.symm.trans hhalf) nofun

theorem Disciplined.init (failureThreshold : ℕ) (resetTimeoutMs now : ℤ) :
    Disciplined (.init failureThreshold resetTimeoutMs now) :=
  .of_closed rfl .nil (fun _ _ _ _ _ h ↦ by simp [State.init] at h)
    (fun _ h ↦ by simp [State.init] at h) nofun

theorem Disciplined.succeed (h : Disciplined s)
    (hapart : s.breaker.state = .closed ∨ ∃ e ∈ sinceOpening s.history, e.isTrial id = true) :
    Disciplined (s.settle id s.clock s.breaker.onSuccess (s.closing id)) := by
  have hmem : ∀ e, (∀ id, e ≠ .closed id) →
      (e ∈ (s.settle id s.clock s.breaker.onSuccess (s.closing id)).history ↔ e ∈ s.history) := by
    intro e he
    refine mem_append.trans (or_iff_right fun hclosing ↦ ?_)
    rw [State.closing] at hclosing
    split at hclosing
    · cases hclosing
    · exact he id (mem_singleton.1 hclosing)
  have hpast : ∀ time, .opened time ∈ s.history → time + s.breaker.resetTimeoutMs ≤ s.clock := by
    rcases hapart with hstate | ⟨e, he, htrial⟩
    · exact h.delay (by rw [hstate]; nofun)
    · obtain ⟨time, rfl⟩ := Event.isTrial_iff.1 htrial
      have hstart : Event.started id true time ∈ s.history := (takeWhile_sublist _).subset he
      exact fun openTime hopen ↦ (h.waits.of_mem_sinceOpening he hopen).trans
        (h.past time (.inr ⟨id, true, hstart⟩))
  have hhist : Waits s.breaker.resetTimeoutMs (s.closing id ++ s.history) ∧
      ClosedByTrial s.breaker.resetTimeoutMs (s.closing id ++ s.history) := by
    rw [State.closing]
    split
    · exact ⟨h.waits, h.closedByTrial⟩
    · next hstate =>
      obtain ⟨e, he, htrial⟩ := hapart.resolve_left hstate
      obtain ⟨time, rfl⟩ := Event.isTrial_iff.1 htrial
      exact ⟨h.waits.cons nofun, h.closedByTrial.closed h.waits he⟩
  exact .of_closed rfl hhist.1 hhist.2
    (fun time htime ↦ h.past time <| htime.imp (hmem (.opened time) nofun).1
      fun ⟨id', trial, hin⟩ ↦ ⟨id', trial, (hmem (.started id' trial time) nofun).1 hin⟩)
    fun time hin ↦ hpast time ((hmem (.opened time) nofun).1 hin)

theorem onFailure_state (b : CircuitBreaker) (now : ℤ) :
    (b.onFailure now).state = .opened ∧ b.failureThreshold ≤ b.failureCount + 1 ∨
      (b.onFailure now).state = b.state ∧ b.failureCount + 1 < b.failureThreshold := by
  rcases Nat.lt_or_ge (b.failureCount + 1) b.failureThreshold with hlt | hle
  · exact .inr ⟨if_neg (Nat.not_le.2 hlt), hlt⟩
  · exact .inl ⟨if_pos hle, hle⟩

section

variable (h : Disciplined s) (hclock : s.clock ≤ now)

include h hclock

theorem Disciplined.reject : Disciplined { s with clock := now, calls := s.calls + 1 } :=
  { h.toSafe, h with
    past := fun time htime ↦ (h.past time htime).trans hclock
    delay := fun hstate time htime ↦ (h.delay hstate time htime).trans hclock }

/-- The start of an action after the delay of every opening. -/
theorem Disciplined.past_begin (trial : Bool) (breaker : CircuitBreaker) (time : ℤ)
    (htime : .opened time ∈ (s.begin trial now breaker).history ∨
      ∃ id trial', .started id trial' time ∈ (s.begin trial now breaker).history) :
    time ≤ now := by
  rcases htime with hmem | ⟨id, trial', hmem⟩
  · exact (h.past time (.inl ((mem_cons.1 hmem).resolve_left nofun))).trans hclock
  · rcases mem_cons.1 hmem with heq | hmem
    · exact (Event.started.inj heq).2.2.le
    · exact (h.past time (.inr ⟨id, trial', hmem⟩)).trans hclock

theorem Disciplined.normal (hstate : s.breaker.state = .closed) :
    Disciplined (s.begin false now s.breaker) := by
  have hdelay := h.delay (by rw [hstate]; nofun)
  exact .of_closed hstate (h.waits.started false fun time hmem ↦ (hdelay time hmem).trans hclock)
    (h.closedByTrial.cons nofun) (h.past_begin hclock false s.breaker)
    fun time hmem ↦ (hdelay time ((mem_cons.1 hmem).resolve_left nofun)).trans hclock

/-- A trial starts only if the breaker was open, and then after the delay. -/
theorem Disciplined.trial_begin (hstate : s.breaker.state ≠ .closed)
    (hrejects : ¬s.breaker.Rejects now) (htrials : s.trials = []) :
    Disciplined (s.begin true now { s.breaker with state := .halfOpen }) := by
  have hopen : s.breaker.state = .opened := by
    rcases hcases : s.breaker.state with - | - | -
    · exact absurd hcases hstate
    · rfl
    · exact absurd htrials (h.trial hcases)
  have hafter : ∀ time, .opened time ∈ s.history → time + s.breaker.resetTimeoutMs ≤ now := by
    intro time hmem
    have hdelay : s.breaker.resetTimeoutMs < now - s.breaker.lastFailureTime.getD 0 :=
      not_le.1 fun hle ↦ hrejects ⟨hopen, hle⟩
    have hlast := h.lastFailure hopen time hmem
    linarith
  exact
    { waits := h.waits.started true hafter
      oneTrial := fun _ ↦ by
        show (s.begin true now _).trials.length ≤ 1
        exact (congrArg (·.length + 1) htrials).le
      closedByTrial := h.closedByTrial.cons nofun
      past := h.past_begin hclock true _
      lastFailure := nofun
      delay := fun _ time hmem ↦ hafter time ((mem_cons.1 hmem).resolve_left nofun)
      failures := fun _ ↦ h.failures hstate
      trial := fun _ ↦ by
        exact cons_ne_nil _ _ }

/-- A failure that leaves the breaker open, or opens it. -/
theorem Disciplined.fail_opened (hopened : (s.breaker.onFailure now).state = .opened)
    (hfail : s.breaker.failureThreshold ≤ s.breaker.failureCount + 1) :
    Disciplined (s.settle id now (s.breaker.onFailure now) (s.opening now)) := by
  have hmem : ∀ e, e ∈ s.opening now ++ s.history → e = .opened now ∨ e ∈ s.history := by
    intro e he
    refine (mem_append.1 he).imp_left fun hopening ↦ ?_
    rw [State.opening] at hopening
    split at hopening
    · exact mem_singleton.1 hopening
    · cases hopening
  have hpast : ∀ time, .opened time ∈ s.opening now ++ s.history → time ≤ now := by
    intro time htime
    rcases hmem _ htime with heq | hin
    · exact (Event.opened.inj heq).le
    · exact (h.past time (.inl hin)).trans hclock
  have hhist : Waits s.breaker.resetTimeoutMs (s.opening now ++ s.history) ∧
      ClosedByTrial s.breaker.resetTimeoutMs (s.opening now ++ s.history) := by
    rw [State.opening]
    split
    · exact ⟨h.waits.cons nofun, h.closedByTrial.cons nofun⟩
    · exact ⟨h.waits, h.closedByTrial⟩
  exact
    { waits := hhist.1
      oneTrial := fun hhalf ↦ absurd (hopened.symm.trans hhalf) nofun
      closedByTrial := hhist.2
      past := by
        rintro time (htime | ⟨id', trial, htime⟩)
        · exact hpast time htime
        · exact (h.past time (.inr ⟨id', trial, (hmem _ htime).resolve_left nofun⟩)).trans hclock
      lastFailure := fun _ ↦ hpast
      delay := fun hne ↦ absurd hopened hne
      failures := fun _ ↦ hfail
      trial := fun hhalf ↦ absurd (hopened.symm.trans hhalf) nofun }

/-- A failure below the threshold: the breaker was closed and stays so. -/
theorem Disciplined.fail_closed (hsame : (s.breaker.onFailure now).state = s.breaker.state)
    (hfail : s.breaker.failureCount + 1 < s.breaker.failureThreshold) :
    Disciplined (s.settle id now (s.breaker.onFailure now) (s.opening now)) := by
  have hclosed : s.breaker.state = .closed := by
    by_contra hne
    have := h.failures hne
    omega
  have hstate := hsame.trans hclosed
  have hopening : s.opening now = [] := by
    refine if_neg fun hopened ↦ ?_
    rw [hstate] at hopened
    exact nomatch hopened.2
  rw [hopening]
  exact .of_closed hstate h.waits h.closedByTrial
    (fun time htime ↦ (h.past time htime).trans hclock)
    fun time htime ↦ (h.delay (by rw [hclosed]; nofun) time htime).trans hclock

end

/-- Every step keeps the discipline. -/
theorem Disciplined.step (h : Disciplined s) (hfwd : Forward s l) (hapart : Apart s l)
    (hstep : s.step l = some t) : Disciplined t := by
  cases Step.of_step hstep with
  | reject now => exact h.reject hfwd
  | trial now hstate hrejects =>
    exact h.trial_begin hfwd hstate hrejects
      ((hapart.resolve_left hstate).resolve_left hrejects)
  | normal now hstate => exact h.normal hfwd hstate
  | succeed id => exact h.succeed hapart
  | fail id now =>
    rcases onFailure_state s.breaker now with ⟨hopen, hfail⟩ | ⟨hsame, hfail⟩
    · exact h.fail_opened hfwd hopen hfail
    · exact h.fail_closed hfwd hsame hfail

/-! ### The other direction -/

/-- A breaker that is not closed was opened, in every run. -/
def Opened (s : State) : Prop := s.breaker.state ≠ .closed → ∃ time, .opened time ∈ s.history

/-- No step forgets an opening. -/
theorem Opened.step (h : Opened s) (hstep : s.step l = some t) : Opened t := by
  cases Step.of_step hstep with
  | reject now => exact h
  | trial now hstate =>
    intro _
    obtain ⟨time, hmem⟩ := h hstate
    exact ⟨time, mem_cons_of_mem _ hmem⟩
  | normal now hstate => exact fun hne ↦ absurd hstate hne
  | succeed id => exact fun hne ↦ absurd rfl hne
  | fail id now =>
    intro hne
    show ∃ time, _ ∈ s.opening now ++ s.history
    rw [State.opening]
    split
    · exact ⟨now, mem_cons_self⟩
    · next hopening =>
      -- the breaker did not open just now, so it was not closed before
      refine h fun hclosed ↦ hopening ⟨by rw [hclosed]; nofun, ?_⟩
      rcases onFailure_state s.breaker now with ⟨hopened, -⟩ | ⟨hsame, -⟩
      · exact hopened
      · exact absurd (hsame.trans hclosed) hne

/-- A step after which the breaker is safe was apart from the other calls. -/
theorem Apart.of_safe (h : Opened s) (hstep : s.step l = some t) (hsafe : Safe t) : Apart s l := by
  cases Step.of_step hstep with
  | reject now hrejects => exact .inr (.inl hrejects)
  | trial now hstate =>
    have hone := hsafe.oneTrial rfl
    exact .inr (.inr (length_eq_zero_iff.1 (Nat.le_zero.1 (Nat.le_of_succ_le_succ hone))))
  | normal now hstate => exact .inl hstate
  | succeed id =>
    refine or_iff_not_imp_left.2 fun hstate ↦ ?_
    obtain ⟨time, hmem⟩ := h hstate
    obtain ⟨openTime, earlier, heq⟩ := exists_last_opening hmem
    have hclosed := hsafe.closedByTrial [] (sinceOpening s.history) earlier id openTime (by
      show s.closing id ++ s.history = _
      rw [State.closing, if_neg hstate, ← heq]
      rfl)
    obtain ⟨time, hstart, -⟩ := hclosed
    exact ⟨_, hstart, Event.isTrial_iff.2 ⟨time, rfl⟩⟩
  | fail id now => trivial

/-- In every state that the run passes through, the breaker is safe. -/
def AlwaysSafe (s : State) (as : List Label) : Prop :=
  ∀ bs t, bs <+: as → Machine.run State.step s bs = some t → Safe t

variable {as : List Label}

theorem AlwaysSafe.tail {a : Label} (h : AlwaysSafe s (a :: as)) (hstep : s.step a = some t) :
    AlwaysSafe t as := fun bs u hbs hrun ↦
  h (a :: bs) u (cons_prefix_cons.2 ⟨rfl, hbs⟩) (run_cons.2 ⟨t, hstep, hrun⟩)

theorem guarded_of_alwaysSafe (hopen : Opened s) (h : AlwaysSafe s as)
    (hrun : run State.step s as = some t) : Guarded State.step Apart s as := by
  induction as generalizing s with
  | nil => trivial
  | cons a as ih =>
    obtain ⟨u, hu, hrun⟩ := run_cons.1 hrun
    have hsafe := h.tail hu [] u nil_prefix rfl
    refine ⟨.of_safe hopen hu hsafe, fun v hv ↦ ?_⟩
    obtain rfl := some.inj (hu.symm.trans hv)
    exact ih (hopen.step hu) (h.tail hu) hrun

/-- If calls keep apart, all is safe. -/
theorem alwaysSafe_of_guarded (h : Disciplined s) (hfwd : Guarded State.step Forward s as)
    (hapart : Guarded State.step Apart s as) : AlwaysSafe s as := by
  rintro bs t ⟨cs, rfl⟩ hrun
  have hguarded := (guarded_append.1 hfwd).1.and (guarded_append.1 hapart).1
  exact (run_invariant (fun h hok hstep ↦ h.step hok.1 hok.2 hstep) h hguarded hrun).toSafe

end

/-- **When a breaker is safe.** If the breaker is safe in every state of a run, then while it is not
closed, no call comes through beside a trial in flight and no action succeeds but a trial started
since the breaker opened. As long as the clock does not go back, this is also enough. -/
theorem breaker_safe_apart (failureThreshold : ℕ) (resetTimeoutMs now : ℤ) (as : List Label)
    {t : State}
    (hrun : Machine.run State.step (.init failureThreshold resetTimeoutMs now) as = some t) :
    (AlwaysSafe (.init failureThreshold resetTimeoutMs now) as →
        Machine.Guarded State.step Apart (.init failureThreshold resetTimeoutMs now) as) ∧
      (Machine.Guarded State.step Forward (.init failureThreshold resetTimeoutMs now) as →
        Machine.Guarded State.step Apart (.init failureThreshold resetTimeoutMs now) as →
        AlwaysSafe (.init failureThreshold resetTimeoutMs now) as) :=
  ⟨fun h ↦ guarded_of_alwaysSafe (fun hne ↦ absurd rfl hne) h hrun,
    alwaysSafe_of_guarded (.init failureThreshold resetTimeoutMs now)⟩

/-- Three commands fail, and after the delay one more is tried. -/
def recovery : List Label :=
  [.call 1, .fail 0 2, .call 3, .fail 1 4, .call 5, .fail 2 6, .call 7, .call 30007, .succeed 4]

/-- The breaker of a sidecar that recovers is safe. -/
theorem breaker_safe_apart_recovery : AlwaysSafe (.init 3 30000 0) recovery := by
  obtain ⟨t, ht⟩ := isSome_iff_exists.1
    (show (run State.step (.init 3 30000 0) recovery).isSome from by decide)
  exact (breaker_safe_apart 3 30000 0 recovery ht).2 (by decide) (by decide)

/-- Two commands after the delay. -/
def overlapping : List Label :=
  [.call 1, .fail 0 2, .call 3, .fail 1 4, .call 5, .fail 2 6, .call 30007, .call 30008]

/-- A command from before the breaker opened succeeds, and the next one starts at once. -/
def lateSuccess : List Label :=
  [.call 1, .call 1, .call 1, .call 1, .fail 0 2, .fail 1 2, .fail 2 2, .succeed 3, .call 3]

/-- The breaker of a sidecar misses all three properties: two trials are in flight, the breaker is
closed by a command from before it opened, and a command starts before the delay is over. -/
theorem two_trials_in_flight :
    ¬AlwaysSafe (.init 3 30000 0) overlapping ∧
      ∃ t, Machine.run State.step (.init 3 30000 0) lateSuccess = some t ∧
        ¬Waits 30000 t.history ∧ ¬ClosedByTrial 30000 t.history := by
  refine ⟨fun h ↦ ?_, _, rfl, fun h ↦ ?_, fun h ↦ ?_⟩
  · have hone := (h overlapping _ (prefix_refl _) rfl).oneTrial rfl
    exact absurd hone (by decide)
  · have hdelay := (pairwise_cons.1 h).1 (.opened 2) (by decide) 4 false 3 2 rfl rfl
    exact absurd hdelay (by decide)
  · obtain ⟨time, hmem, -⟩ := h [.started 4 false 3] [] _ 3 2 rfl
    cases hmem

end CircuitBreaker

end Core
