import Mathlib.Data.Int.Init

/-!
# The circuit breaker

`CircuitBreaker.execute` runs an action unless too many of the last ones failed. It has one part
before the action starts (`start`) and one after it has settled (`onSuccess`, `onFailure`); other
calls can come in between.
-/

namespace Core

/-- `CircuitState`. -/
inductive CircuitState
  | closed
  | opened
  | halfOpen
deriving Repr, DecidableEq

/-- A breaker and its options. -/
structure CircuitBreaker where
  failureThreshold : ℕ
  resetTimeoutMs : ℤ
  state : CircuitState
  failureCount : ℕ
  lastFailureTime : Option ℤ
deriving Repr, DecidableEq

namespace CircuitBreaker

/-- A new breaker. -/
def new (failureThreshold : ℕ) (resetTimeoutMs : ℤ) : CircuitBreaker :=
  ⟨failureThreshold, resetTimeoutMs, .closed, 0, none⟩

/-- `execute` up to the start of the action; the Boolean says whether it starts. -/
def start (b : CircuitBreaker) (now : ℤ) : Bool × CircuitBreaker :=
  if b.state = .opened then
    if now - b.lastFailureTime.getD 0 > b.resetTimeoutMs then (true, { b with state := .halfOpen })
    else (false, b)
  else (true, b)

/-- `onSuccess`. -/
def onSuccess (b : CircuitBreaker) : CircuitBreaker :=
  { b with failureCount := 0, state := .closed }

/-- `onFailure`. -/
def onFailure (b : CircuitBreaker) (now : ℤ) : CircuitBreaker :=
  { b with
    failureCount := b.failureCount + 1
    lastFailureTime := some now
    state := if b.failureCount + 1 ≥ b.failureThreshold then .opened else b.state }

end CircuitBreaker

end Core
