import Mathlib.Data.Rat.Cast.Order
import Mathlib.Tactic.NormNum

/-!
# Numbers

A number of JavaScript is a fraction, one of the two infinities, or `NaN`. A result that is not a
number of the format is rounded. Which way is left open (`Rounding`): what is said of a program
below never depends on it. What is known is that natural numbers up to `2 ^ 53` are not rounded.

The two zeros are one number here, as the comparisons of the language do not tell them apart.
-/

namespace Core

/-- A number. -/
inductive JsNum
  | nan
  | inf (negative : Bool)
  | fin (q : ℚ)
deriving Repr, DecidableEq

/-- How results are rounded. -/
structure Rounding where
  round : ℚ → JsNum
  /-- Natural numbers are exact, as long as they are small enough. -/
  round_nat : ∀ n : ℕ, n ≤ 2 ^ 53 → round n = .fin n

namespace JsNum

/-- A natural number. -/
def nat (n : ℕ) : JsNum := .fin n

/-! ### Comparisons -/

/-- `a < b`. -/
def lt : JsNum → JsNum → Bool
  | .fin p, .fin q => p < q
  | .fin _, .inf negative => !negative
  | .inf negative, .fin _ => negative
  | .inf a, .inf b => a && !b
  | _, _ => false

/-- `a === b`. -/
def eq (a b : JsNum) : Bool := a ≠ .nan && a = b

/-- `a <= b`. -/
def le (a b : JsNum) : Bool := a.lt b || a.eq b

/-- Natural numbers are compared as such. -/
@[simp] theorem lt_nat (m n : ℕ) : (nat m).lt (nat n) = decide (m < n) := by
  simp [nat, lt]

@[simp] theorem eq_nat (m n : ℕ) : (nat m).eq (nat n) = decide (m = n) := by
  simp [nat, eq]

@[simp] theorem le_nat (m n : ℕ) : (nat m).le (nat n) = decide (m ≤ n) := by
  rw [le, lt_nat, eq_nat, ← Bool.decide_or, decide_eq_decide]
  omega

/-- Nothing is below `NaN`. -/
@[simp] theorem lt_nan (a : JsNum) : a.lt .nan = false := by cases a <;> rfl

@[simp] theorem nan_lt (a : JsNum) : JsNum.nan.lt a = false := by cases a <;> rfl

@[simp] theorem eq_nan (a : JsNum) : a.eq .nan = false := by cases a <;> rfl

@[simp] theorem nan_le (a : JsNum) : JsNum.nan.le a = false := by rw [le]; rfl

@[simp] theorem le_nan (a : JsNum) : a.le .nan = false := by rw [le, lt_nan, eq_nan]; rfl

variable {a : JsNum}

/-- **Without `NaN`, one of two numbers is the smaller one or they are equal.** -/
theorem le_eq_not_lt {b : JsNum} (ha : a ≠ .nan) (hb : b ≠ .nan) : b.le a = !a.lt b := by
  cases a with
  | nan => exact absurd rfl ha
  | inf s =>
    cases b with
    | nan => exact absurd rfl hb
    | inf t => cases s <;> cases t <;> rfl
    | fin q => cases s <;> simp [le, lt, eq]
  | fin p =>
    cases b with
    | nan => exact absurd rfl hb
    | inf t => cases t <;> simp [le, lt, eq]
    | fin q =>
      simp only [le, lt, eq, ne_eq, reduceCtorEq, not_false_eq_true, decide_true, Bool.true_and,
        fin.injEq]
      rw [← Bool.decide_or, ← decide_not, decide_eq_decide, not_lt, le_iff_lt_or_eq]

/-- What is at most a natural number is at most every larger one. -/
theorem le_nat_of_le {m n : ℕ} (hmn : m ≤ n) (h : a.le (nat m) = true) : a.le (nat n) = true := by
  cases a with
  | nan => rwa [nan_le] at h
  | inf negative => exact h
  | fin q =>
    have hnum (k : ℕ) : (fin q).le (nat k) = true ↔ q ≤ k := by
      rw [le_eq_not_lt (a := nat k) JsNum.noConfusion JsNum.noConfusion]
      simp [nat, lt]
    rw [hnum] at h ⊢
    exact h.trans (Nat.cast_le.2 hmn)

/-! ### Arithmetic -/

/-- `-a`. -/
def neg : JsNum → JsNum
  | .nan => .nan
  | .inf negative => .inf !negative
  | .fin q => .fin (-q)

/-- `a % 2 === 1`. The remainder has the sign of `a`, and what is infinite has none. -/
def isOdd : JsNum → Bool
  | .fin q => q.num.tmod (2 * q.den) = q.den
  | _ => false

/-- `Math.floor(a / 2)`. -/
def half : JsNum → JsNum
  | .fin q => .fin (q.num / (2 * q.den) : ℤ)
  | a => a

/-- Oddness of natural numbers. -/
@[simp] theorem isOdd_nat (n : ℕ) : (nat n).isOdd = decide (n % 2 = 1) := by
  have hmod : (n : ℤ).tmod (2 * (1 : ℕ)) = (1 : ℕ) ↔ n % 2 = 1 := by
    rw [Int.tmod_eq_emod_of_nonneg n.cast_nonneg]
    omega
  rw [nat, isOdd, Rat.num_natCast, Rat.den_natCast, decide_eq_decide.2 hmod]

/-- Half of a natural number, rounded down. -/
@[simp] theorem half_nat (n : ℕ) : (nat n).half = nat (n / 2) := by
  exact_mod_cast rfl

end JsNum

namespace Rounding

variable (R : Rounding)

/-- `a + b`. -/
def add : JsNum → JsNum → JsNum
  | .fin p, .fin q => R.round (p + q)
  | .nan, _ => .nan
  | _, .nan => .nan
  | .inf a, .inf b => if a = b then .inf a else .nan
  | .inf a, .fin _ => .inf a
  | .fin _, .inf b => .inf b

/-- `a - b`. -/
def sub (a b : JsNum) : JsNum := R.add a b.neg

/-- `a * b`. -/
def mul : JsNum → JsNum → JsNum
  | .fin p, .fin q => R.round (p * q)
  | .nan, _ => .nan
  | _, .nan => .nan
  | .inf a, .inf b => .inf (a != b)
  | .inf a, .fin q => if q = 0 then .nan else .inf (a != decide (q < 0))
  | .fin p, .inf b => if p = 0 then .nan else .inf (b != decide (p < 0))

variable {R}

variable {m n : ℕ}

/-- Sums up to `2 ^ 53` are exact. -/
theorem add_nat (h : m + n ≤ 2 ^ 53) : R.add (.nat m) (.nat n) = .nat (m + n) := by
  have hround := R.round_nat (m + n) h
  rw [Nat.cast_add] at hround
  rw [JsNum.nat, JsNum.nat, add, hround, JsNum.nat, Nat.cast_add]

/-- Products up to `2 ^ 53` are exact. -/
theorem mul_nat (h : m * n ≤ 2 ^ 53) : R.mul (.nat m) (.nat n) = .nat (m * n) := by
  have hround := R.round_nat (m * n) h
  rw [Nat.cast_mul] at hround
  rw [JsNum.nat, JsNum.nat, mul, hround, JsNum.nat, Nat.cast_mul]

/-- Differences of natural numbers are exact. -/
theorem sub_nat (hle : n ≤ m) (h : m ≤ 2 ^ 53) : R.sub (.nat m) (.nat n) = .nat (m - n) := by
  have hround := R.round_nat (m - n) ((Nat.sub_le m n).trans h)
  rw [Nat.cast_sub hle] at hround
  rw [JsNum.nat, JsNum.nat, sub, JsNum.neg, add, ← sub_eq_add_neg, hround, JsNum.nat,
    Nat.cast_sub hle]

/-- Nothing is rounded: enough for numbers that stay small. -/
def exact : Rounding where
  round := .fin
  round_nat := fun _ _ ↦ rfl

end Rounding

end Core
