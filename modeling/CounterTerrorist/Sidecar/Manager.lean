import CounterTerrorist.Core.CircuitBreaker
import CounterTerrorist.Foundations.Run
import CounterTerrorist.Sidecar.Response
import Mathlib.Logic.Function.Basic

/-!
# Commands to sidecars

`SidecarManager` as a machine. A call of `sendCommand` runs from one await point to the next, and
between two of its steps anything else can happen: other calls, its own timer, lines from any
sidecar. Everything that is decided elsewhere comes with the label of a step: whether there is a
sidecar, the generated id, whether the slot took the command, what a write came to.

## Promises

A call owns two promises, the response and the timeout, and a lock that the next call for the same
sidecar waits for. A waiter is known by the call whose response it resolves, a lock by the call that
releases it. `Promise.race` is decided when the first of the two settles, or at once, for the
response, when both have settled before (`Call.startRace`).

## What is left out

`getPersistentSidecar` is one await point with three outcomes. Handlers of events run inside
`handleIpcLine`; what they start reaches no waiter before they return, so it comes as later steps.
-/

namespace Sidecar

open Core

/-! ### Calls -/

/-- The second argument of `sendCommand`. -/
inductive Command
  | text (type : String)
  | object (entries : List (String × JsTree))

/-- `commandObj`. -/
def Command.withId (cmd : Command) (id : String) : JsTree :=
  match cmd with
  | text type => .obj [("id", .str id), ("type", .str type)]
  | object entries => (JsTree.obj entries).set "id" (.str id)

/-- How `rawSendCommand` ends. -/
inductive Outcome
  | result (r : CommandResult)
  | thrown (message : String)

/-- Whether it ends with success. -/
def Outcome.success : Outcome → Bool
  | result r => r.success
  | thrown _ => false

/-- What `sendCommand` makes of it. -/
def Env.report (env : Env) : Outcome → CommandResult
  | .result r =>
    if r.success then r else .failure ("Circuit Breaker: " ++ env.text r.stderr)
  | .thrown message => .failure ("Circuit Breaker: " ++ message)

/-- The value of a response, and the number of the line that it came with. -/
structure Response where
  result : CommandResult
  line : ℕ

/-- What a call has set up before it queues: its id, its promises, its timer. -/
structure Request where
  id : String
  type : JsTree
  /-- `responsePromise`. -/
  response : Option Response
  /-- `timeoutPromise`. -/
  timedOut : Bool
  /-- Whether the timer is running. -/
  armed : Bool

/-- Where a call is. A call that has ended may have done so before it had an id; whether it had
written its command is remembered. -/
inductive Stage
  /-- At `getPersistentSidecar`. -/
  | spawning
  /-- At `prevLock`, which the given call releases. -/
  | queued (q : Request) (prevLock : Option ℕ)
  /-- At `writer.write`. -/
  | writing (q : Request)
  /-- At `Promise.race`, which may be decided already. -/
  | racing (q : Request) (race : Option CommandResult)
  /-- `rawSendCommand` has ended, the circuit breaker has not been told. -/
  | returned (q : Option Request) (written : Bool) (outcome : Outcome)
  | done (q : Option Request) (written : Bool) (result : CommandResult)

/-- A call of `sendCommand`. -/
structure Call where
  name : String
  cmd : Command
  stage : Stage

/-- The request of a call, once there is one. -/
def Stage.request : Stage → Option Request
  | spawning => none
  | queued q _ | writing q | racing q _ => some q
  | returned q _ _ | done q _ _ => q

/-- Whether the command was written, to the slot or to stdin. As long as the call waits or writes,
this is open. -/
def Stage.written : Stage → Option Bool
  | spawning | queued _ _ | writing _ => none
  | racing _ _ => some true
  | returned _ written _ | done _ written _ => some written

/-- A change of the promises of a call. -/
def Stage.modify (f : Request → Request) : Stage → Stage
  | spawning => spawning
  | queued q prevLock => queued (f q) prevLock
  | writing q => writing (f q)
  | racing q race => racing (f q) race
  | returned q written outcome => returned (q.map f) written outcome
  | done q written result => done (q.map f) written result

/-- A promise settles. If it is the first one of a race, the race is decided. -/
def Stage.settle (r : CommandResult) : Stage → Stage
  | racing q race => racing q (race.or (some r))
  | stage => stage

@[simp] theorem Stage.request_modify (f : Request → Request) (stage : Stage) :
    (stage.modify f).request = stage.request.map f := by
  cases stage <;> rfl

@[simp] theorem Stage.request_settle (r : CommandResult) (stage : Stage) :
    (stage.settle r).request = stage.request := by
  cases stage <;> rfl

@[simp] theorem Stage.written_modify (f : Request → Request) (stage : Stage) :
    (stage.modify f).written = stage.written := by
  cases stage <;> rfl

@[simp] theorem Stage.written_settle (r : CommandResult) (stage : Stage) :
    (stage.settle r).written = stage.written := by
  cases stage <;> rfl

/-- `timeoutMs`. -/
def timeoutMs (type : JsTree) : ℕ :=
  if ["KillProcess", "BlockIp", "QuarantineProcess", "DumpProcess", "LOCKDOWN", "ENFORCE_PID"].any
      type.isStr then 5000
  else 60000

/-- What a call resolves to when its timer fires. -/
def Env.timeoutResult (env : Env) (name : String) (type : JsTree) : CommandResult :=
  .failure ("Command " ++ env.text type ++ " to " ++ name ++ " timed out after " ++
    toString (timeoutMs type) ++ "ms")

/-- `waiter.resolve`. A promise that has a value keeps it. -/
def Call.respond (c : Call) (r : Response) : Call :=
  if (c.stage.request.bind Request.response).isSome then c
  else
    { c with stage := (c.stage.modify fun q ↦ { q with response := some r }).settle r.result }

/-- The timer fires. -/
def Call.expire (env : Env) (c : Call) (q : Request) : Call :=
  { c with
    stage := (c.stage.modify fun q ↦ { q with timedOut := true, armed := false }).settle
      (env.timeoutResult c.name q.type) }

/-- The command has been written, and the race starts. It is decided at once if a promise has
settled before; for the response, if both have. -/
def Call.startRace (env : Env) (c : Call) (q : Request) : Call :=
  { c with
    stage := .racing q ((q.response.map Response.result).or
      (if q.timedOut then some (env.timeoutResult c.name q.type) else none)) }

/-- The `finally` block, as far as the call itself is concerned. -/
def Call.leave (c : Call) (q : Request) (written : Bool) (outcome : Outcome) : Call :=
  { c with stage := .returned (some { q with armed := false }) written outcome }

/-! ### The manager -/

/-- The manager, its calls, and the lines it has received. -/
structure SidecarManager where
  circuitBreakers : String → Option CircuitBreaker
  responseWaiters : String × String → Option ℕ
  stdinLocks : String → Option ℕ
  calls : List Call
  received : List (String × String)

namespace SidecarManager

/-- A new manager. -/
def init : SidecarManager := ⟨fun _ ↦ none, fun _ ↦ none, fun _ ↦ none, [], []⟩

/-- `addWaiter`. -/
def addWaiter (s : SidecarManager) (name id : String) (i : ℕ) : SidecarManager :=
  { s with responseWaiters := Function.update s.responseWaiters (name, id) (some i) }

/-- `removeWaiter`. -/
def removeWaiter (s : SidecarManager) (name id : String) : SidecarManager :=
  { s with responseWaiters := Function.update s.responseWaiters (name, id) none }

/-- Call `i` is now `c`. -/
def put (s : SidecarManager) (i : ℕ) (c : Call) : SidecarManager :=
  { s with calls := s.calls.set i c }

/-- The `finally` block of `rawSendCommand`. -/
def leave (s : SidecarManager) (i : ℕ) (c : Call) (q : Request) (written : Bool)
    (outcome : Outcome) : SidecarManager :=
  (s.put i (c.leave q written outcome)).removeWaiter c.name q.id

/-- Whether the lock of call `i` has been released. -/
def released (s : SidecarManager) (i : ℕ) : Bool :=
  s.calls[i]?.any fun c ↦ match c.stage with
    | .returned _ _ _ | .done _ _ _ => true
    | _ => false

/-- What an await point yields. -/
inductive Reply
  /-- `getPersistentSidecar` found a sidecar; the id that is generated next. -/
  | sidecar (id : String)
  | noSidecar
  | spawnFailed (message : String)
  /-- The lock is free. The writer, or an exception; and whether the slot takes the command. -/
  | locked (exception : Option String) (slot : Bool)
  | wrote
  | writeFailed (message : String)
  | settled
  /-- The circuit breaker is told the outcome. -/
  | reported (now : ℤ)

/-- What can happen. -/
inductive Action
  | sendCommand (name : String) (cmd : Command) (now : ℤ)
  | resume (i : ℕ) (reply : Reply)
  | timeout (i : ℕ)
  | line (name text : String)

/-- `sendCommand`, up to its first await point. -/
def sendCommand (s : SidecarManager) (name : String) (cmd : Command) (now : ℤ) : SidecarManager :=
  let (starts, breaker) := ((s.circuitBreakers name).getD (.new 3 30000)).start now
  let stage : Stage :=
    if starts then .spawning
    else .done none false (.failure
      "Circuit Breaker: Circuit breaker is OPEN. Request rejected for stability.")
  { s with
    circuitBreakers := Function.update s.circuitBreakers name (some breaker)
    calls := s.calls ++ [⟨name, cmd, stage⟩] }

/-- `rawSendCommand` ends before there is anything to clean up. -/
def giveUp (s : SidecarManager) (i : ℕ) (c : Call) (outcome : Outcome) : SidecarManager :=
  s.put i { c with stage := .returned none false outcome }

/-- A valid command gets its waiter and its timer, and takes its place behind the lock. -/
def enqueue (s : SidecarManager) (i : ℕ) (c : Call) (id : String) : SidecarManager :=
  let q : Request := ⟨id, (c.cmd.withId id).get "type", none, false, true⟩
  { (s.put i { c with stage := .queued q (s.stdinLocks c.name) }).addWaiter c.name id i with
    stdinLocks := Function.update s.stdinLocks c.name (some i) }

/-- The circuit breaker after the action. -/
def recordOutcome (s : SidecarManager) (name : String) (outcome : Outcome) (now : ℤ) :
    SidecarManager :=
  let breaker := (s.circuitBreakers name).getD (.new 3 30000)
  let breaker' := match outcome with
    | .result r => if r.success then breaker.onSuccess else breaker.onFailure now
    | .thrown _ => breaker.onFailure now
  { s with circuitBreakers := Function.update s.circuitBreakers name (some breaker') }

/-- Call `i` goes on. -/
def resume (env : Env) (s : SidecarManager) (i : ℕ) (reply : Reply) : Option SidecarManager := do
  let c ← s.calls[i]?
  match c.stage, reply with
  | .spawning, .sidecar id =>
    if env.validateRequest c.name (c.cmd.withId id) then some (s.enqueue i c id)
    else some (s.giveUp i c (.result (.failure
      ("Security violation: Invalid command for sidecar '" ++ c.name ++ "'"))))
  | .spawning, .noSidecar =>
    some (s.giveUp i c (.result (.failure ("Sidecar " ++ c.name ++ " not found"))))
  | .spawning, .spawnFailed message => some (s.giveUp i c (.thrown message))
  | .queued q prevLock, .locked exception slot =>
    if prevLock.all s.released then
      match exception with
      | some message => some (s.leave i c q false (.thrown message))
      | none =>
        -- the other sidecars have no slot
        if slot ∧ (c.name = "sentinel" ∨ c.name = "netcap") then some (s.put i (c.startRace env q))
        else some (s.put i { c with stage := .writing q })
    else none
  | .writing q, .wrote => some (s.put i (c.startRace env q))
  | .writing q, .writeFailed message => some (s.leave i c q false (.thrown message))
  | .racing q (some r), .settled => some (s.leave i c q true (.result r))
  | .returned q written outcome, .reported now =>
    some ((s.put i { c with stage := .done q written (env.report outcome) }).recordOutcome c.name
      outcome now)
  | _, _ => none

/-- The timer of call `i` fires. -/
def fire (env : Env) (s : SidecarManager) (i : ℕ) : Option SidecarManager := do
  let c ← s.calls[i]?
  let q ← c.stage.request
  if q.armed then some ((s.put i (c.expire env q)).removeWaiter c.name q.id) else none

/-- `handleIpcLine`, as far as waiters are concerned. -/
def handleIpcLine (env : Env) (s : SidecarManager) (name text : String) : SidecarManager :=
  let s' := { s with received := s.received ++ [(name, text)] }
  match readLine env text with
  | none => s'
  | some data =>
    match idOf data with
    | none => s'
    | some id =>
      match s.responseWaiters (name, id) with
      | none => s'
      | some i =>
        let answered (c : Call) := c.respond ⟨resultOf data, s.received.length⟩
        removeWaiter { s' with calls := s.calls.modify i answered } name id

/-- One step. -/
def step (env : Env) (s : SidecarManager) : Action → Option SidecarManager
  | .sendCommand name cmd now => some (s.sendCommand name cmd now)
  | .resume i reply => s.resume env i reply
  | .timeout i => s.fire env i
  | .line name text => some (s.handleIpcLine env name text)

/-! ### What a step does -/

/-- `sendCommand` adds a call that waits for its sidecar, or has been refused. -/
theorem sendCommand_eq (s : SidecarManager) (name : String) (cmd : Command) (now : ℤ) :
    ∃ breakers stage, s.sendCommand name cmd now =
        { s with circuitBreakers := breakers, calls := s.calls ++ [⟨name, cmd, stage⟩] } ∧
      (stage = .spawning ∨ ∃ r, stage = .done none false r) := by
  rw [sendCommand]
  rcases ((s.circuitBreakers name).getD (.new 3 30000)).start now with ⟨_ | _, breaker⟩
  · exact ⟨_, _, rfl, .inr ⟨_, rfl⟩⟩
  · exact ⟨_, _, rfl, .inl rfl⟩

/-- A line answers at most one call. -/
theorem handleIpcLine_eq (env : Env) (s : SidecarManager) (name text : String) :
    ∃ calls waiters, s.handleIpcLine env name text = { s with
          received := s.received ++ [(name, text)]
          calls := calls
          responseWaiters := waiters } ∧
      (calls = s.calls ∨ ∃ i data, readLine env text = some data ∧
        calls = s.calls.modify i fun c ↦ c.respond ⟨resultOf data, s.received.length⟩) := by
  rw [handleIpcLine]
  rcases readLine env text with - | data
  · exact ⟨_, _, rfl, .inl rfl⟩
  dsimp only
  rcases idOf data with - | id
  · exact ⟨_, _, rfl, .inl rfl⟩
  dsimp only
  rcases s.responseWaiters (name, id) with - | i
  · exact ⟨_, _, rfl, .inl rfl⟩
  · exact ⟨_, _, rfl, .inr ⟨i, data, rfl, rfl⟩⟩

/-- What is true of every call, and stays true of a call that gets a response, is true of every call
after a line. -/
theorem forall_handleIpcLine {env : Env} {s : SidecarManager} {name text : String}
    {P : Call → Prop} (h : ∀ c ∈ s.calls, P c)
    (hrespond : ∀ data, readLine env text = some data →
      ∀ c, P c → P (c.respond ⟨resultOf data, s.received.length⟩)) :
    ∀ c ∈ (s.handleIpcLine env name text).calls, P c := by
  obtain ⟨calls, waiters, heq, rfl | ⟨i, data, hdata, rfl⟩⟩ := handleIpcLine_eq env s name text
  · rw [heq]
    exact h
  · rw [heq]
    intro c' hc'
    obtain ⟨j, hj⟩ := List.getElem?_of_mem hc'
    rw [List.getElem?_modify] at hj
    obtain ⟨c, hc, rfl⟩ := Option.map_eq_some_iff.1 hj
    have hc := h c (List.mem_of_getElem? hc)
    split
    · exact hrespond data hdata c hc
    · exact hc

/-- What a call comes to when it goes on. -/
inductive Resumed (env : Env) (s : SidecarManager) (i : ℕ) (c : Call) : SidecarManager → Prop
  | gaveUp (outcome : Outcome) (hstage : c.stage = .spawning) (hfails : outcome.success = false) :
      Resumed env s i c (s.giveUp i c outcome)
  | enqueued (id : String) (hstage : c.stage = .spawning)
      (hvalid : env.validateRequest c.name (c.cmd.withId id) = true) :
      Resumed env s i c (s.enqueue i c id)
  | entered {q : Request} {prevLock : Option ℕ} (hstage : c.stage = .queued q prevLock)
      (hfree : prevLock.all s.released = true) :
      Resumed env s i c (s.put i { c with stage := .writing q })
  | wroteSlot {q : Request} {prevLock : Option ℕ} (hstage : c.stage = .queued q prevLock)
      (hfree : prevLock.all s.released = true) (hname : c.name = "sentinel" ∨ c.name = "netcap") :
      Resumed env s i c (s.put i (c.startRace env q))
  | wrote {q : Request} (hstage : c.stage = .writing q) :
      Resumed env s i c (s.put i (c.startRace env q))
  | threwEarly {q : Request} {prevLock : Option ℕ} (message : String)
      (hstage : c.stage = .queued q prevLock) (hfree : prevLock.all s.released = true) :
      Resumed env s i c (s.leave i c q false (.thrown message))
  | threw {q : Request} (message : String) (hstage : c.stage = .writing q) :
      Resumed env s i c (s.leave i c q false (.thrown message))
  | settled {q : Request} {r : CommandResult} (hstage : c.stage = .racing q (some r)) :
      Resumed env s i c (s.leave i c q true (.result r))
  | reported {q : Option Request} {written : Bool} {outcome : Outcome} (now : ℤ)
      (hstage : c.stage = .returned q written outcome) :
      Resumed env s i c
        ((s.put i { c with stage := .done q written (env.report outcome) }).recordOutcome c.name
          outcome now)

variable {env : Env} {s t : SidecarManager} {i : ℕ}

/-- A timer that fires belongs to a request. -/
theorem exists_of_fire (hfire : s.fire env i = some t) :
    ∃ c q, s.calls[i]? = some c ∧ c.stage.request = some q ∧
      t = (s.put i (c.expire env q)).removeWaiter c.name q.id := by
  obtain ⟨c, hc, h⟩ := Option.bind_eq_some_iff.1 hfire
  obtain ⟨q, hq, h⟩ := Option.bind_eq_some_iff.1 h
  obtain ⟨-, h⟩ := Option.ite_none_right_eq_some.1 h
  exact ⟨c, q, hc, hq, (Option.some.inj h).symm⟩

/-- What a call does when it goes on. -/
theorem resumed_of_resume {reply : Reply} (hres : s.resume env i reply = some t) :
    ∃ c, s.calls[i]? = some c ∧ Resumed env s i c t := by
  obtain ⟨c, hc, h⟩ := Option.bind_eq_some_iff.1 hres
  refine ⟨c, hc, ?_⟩
  split at h
  · rename_i id hstage
    split at h <;> cases h
    · exact .enqueued id hstage ‹_›
    · exact .gaveUp _ hstage rfl
  iterate 2
    · cases h
      exact .gaveUp _ ‹_› rfl
  · rename_i q prevLock exception slot hstage
    obtain ⟨hfree, h⟩ := Option.ite_none_right_eq_some.1 h
    split at h
    · cases h
      exact .threwEarly _ hstage hfree
    · split at h <;> cases h
      · rename_i hslot
        exact .wroteSlot hstage hfree hslot.2
      · exact .entered hstage hfree
  · cases h
    exact .wrote ‹_›
  · cases h
    exact .threw _ ‹_›
  · cases h
    exact .settled ‹_›
  · cases h
    exact .reported _ ‹_›
  · cases h

end SidecarManager

end Sidecar
