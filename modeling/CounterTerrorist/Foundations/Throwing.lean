import Mathlib.Tactic.Common

/-!
# Programs that change a state and may throw

A program gets a state, changes it, and returns or throws; what was done before is not undone when
it throws. `result` runs a program, and there is one equation for each way to build one. After
`result_bind` and `result_tryCatch`, the outcome of a program is a case analysis over the outcomes
of its parts.
-/

/-- A program that changes a state and may throw. -/
abbrev Throwing (S : Type) := ExceptT String (StateM S)

namespace Throwing

variable {S α β : Type}

/-- What a program returns, and the state after it. -/
def result (p : Throwing S α) (s : S) : Except String α × S := p.run.run s

variable (s : S)

@[simp] theorem result_pure (a : α) : (pure a : Throwing S α).result s = (.ok a, s) := rfl

@[simp] theorem result_throw (e : String) : (throw e : Throwing S α).result s = (.error e, s) := rfl

@[simp] theorem result_get : (get : Throwing S S).result s = (.ok s, s) := rfl

@[simp] theorem result_modify (f : S → S) :
    (modify f : Throwing S Unit).result s = (.ok (), f s) := rfl

@[simp] theorem result_liftExcept (e : Except String α) :
    (liftExcept e : Throwing S α).result s = (e, s) := by cases e <;> rfl

/-- What was thrown is thrown on. -/
theorem result_bind (p : Throwing S α) (f : α → Throwing S β) : (p >>= f).result s =
      match p.result s with
      | (.ok a, t) => (f a).result t
      | (.error e, t) => (.error e, t) := by
  show (ExceptT.bindCont f (p.result s).1 : StateM _ _) (p.result s).2 = _
  rcases p.result s with ⟨e | a, t⟩ <;> rfl

/-- What was thrown is handled. -/
theorem result_tryCatch (p : Throwing S α) (handler : String → Throwing S α) :
    (tryCatch p handler).result s =
      match p.result s with
      | (.ok a, t) => (.ok a, t)
      | (.error e, t) => (handler e).result t := by
  show (tryCatch (fun _ ↦ p.result s : Throwing S α) handler).result s = _
  rcases p.result s with ⟨e | a, t⟩ <;> rfl

end Throwing
