import CounterTerrorist.Core.CircuitBreaker
import Mathlib.Data.Nat.Basic

/-!
# `retry` and `execute`

What a promise settles as is an `Except`: `error` is a rejection. A `Result` is one too, but it is a
value: `retry` resolves to one and is never rejected, however often the action fails.
-/

namespace Core

variable {T : Type*}

/-- The loop of `retry` from one attempt on, with the attempts that are left. The second component
is the number of calls of the action. -/
def retryFrom (action : ℕ → Except String T) : ℕ → ℕ → String → Except String T × ℕ
  | 0, attempt, lastError => (.error lastError, attempt)
  | left + 1, attempt, _ =>
    match action (attempt + 1) with
    | .ok data => (.ok data, attempt + 1)
    | .error e => retryFrom action left (attempt + 1) e

/-- `retry`: the `Result` that its promise resolves to, and the number of calls of the action. The
outcome of the action may depend on the attempt. -/
def retry (maxAttempts : ℕ) (action : ℕ → Except String T) : Except String T × ℕ :=
  retryFrom action maxAttempts 0 "Retry failed after max attempts"

theorem le_retryFrom_calls (action : ℕ → Except String T) (left attempt : ℕ) (lastError : String) :
    attempt ≤ (retryFrom action left attempt lastError).2 := by
  induction left generalizing attempt lastError with
  | zero => exact le_rfl
  | succ left ih =>
    rw [retryFrom]
    split
    · exact Nat.le_succ attempt
    · exact Nat.le_trans (Nat.le_succ attempt) (ih (attempt + 1) _)

/-- `retry` calls the action at least once. -/
theorem one_le_retry_calls {maxAttempts : ℕ} (h : 0 < maxAttempts)
    (action : ℕ → Except String T) : 1 ≤ (retry maxAttempts action).2 := by
  obtain ⟨left, rfl⟩ := Nat.exists_eq_add_of_lt h
  rw [Nat.zero_add, retry, retryFrom]
  split
  · exact le_rfl
  · exact le_retryFrom_calls action left 1 _

namespace CircuitBreaker

/-- `execute` with the action's promise and the time it settles at: the `Result`, and the breaker
afterwards. -/
def execute (b : CircuitBreaker) (now : ℤ) (action : Except String T) (settled : ℤ) :
    Except String T × CircuitBreaker :=
  let started := b.start now
  if started.1 then
    match action with
    | .ok result => (.ok result, started.2.onSuccess)
    | .error e => (.error e, started.2.onFailure settled)
  else (.error "Circuit breaker is OPEN. Request rejected for stability.", started.2)

end CircuitBreaker

end Core
