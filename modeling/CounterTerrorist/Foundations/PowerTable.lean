import Mathlib.Algebra.Field.Basic
import Mathlib.Algebra.Group.Hom.Defs
import Mathlib.Algebra.Group.Hom.End
import Mathlib.Logic.Function.Iterate

/-!
# A field from a table of powers

Programs that calculate in a small finite field often multiply by tables: every element but zero is
a power of one generator, so that a product is looked up as the power at the sum of two logarithms.
That such a multiplication is one of a field follows from very little. It is enough that

* multiplication with the generator, `shift`, is additive,
* `shift`, applied over and over to one, comes back to one after `period` steps, and
* every element but zero is met on the way; `log` says where.

The point is that multiplication with any element `a` but zero is `log a` shifts (`mul_eq`), hence
additive as well.
-/

/-- An additive group whose elements, but for zero, are the powers of a generator. -/
structure PowerTable (A : Type*) [AddCommGroup A] where
  /-- Multiplication with the generator. -/
  shift : A →+ A
  one : A
  one_ne_zero : one ≠ 0
  period : ℕ
  shift_period : shift^[period] one = one
  log : A → ℕ
  log_le : ∀ {a}, a ≠ 0 → log a ≤ period
  shift_log : ∀ {a}, a ≠ 0 → shift^[log a] one = a

namespace PowerTable

variable {A : Type*} [AddCommGroup A] (t : PowerTable A)

/-- The powers of the generator. -/
def exp (k : ℕ) : A := t.shift^[k] t.one

variable {a : A}

theorem exp_log (ha : a ≠ 0) : t.exp (t.log a) = a := t.shift_log ha

/-- Shifts add up. -/
theorem shift_exp (j k : ℕ) : t.shift^[j] (t.exp k) = t.exp (j + k) :=
  (Function.iterate_add_apply t.shift j k t.one).symm

open Classical in
/-- The product, by the table. -/
noncomputable def mul (a b : A) : A :=
  if a = 0 ∨ b = 0 then 0 else t.exp (t.log a + t.log b)

open Classical in
/-- The inverse, by the table. -/
noncomputable def inv (a : A) : A := if a = 0 then 0 else t.exp (t.period - t.log a)

/-- Logarithms are added. -/
theorem mul_of_ne_zero {b : A} (ha : a ≠ 0) (hb : b ≠ 0) :
    t.mul a b = t.exp (t.log a + t.log b) := by
  rw [mul, if_neg (not_or.2 ⟨ha, hb⟩)]

open Classical in
theorem mul_comm (a b : A) : t.mul a b = t.mul b a := by
  rw [mul, Nat.add_comm]
  exact if_congr or_comm rfl rfl

theorem zero_mul (b : A) : t.mul 0 b = 0 := if_pos (.inl rfl)

theorem mul_zero (a : A) : t.mul a 0 = 0 := if_pos (.inr rfl)

/-- **Multiplication is repeated multiplication with the generator.** -/
theorem mul_eq (ha : a ≠ 0) (b : A) : t.mul a b = t.shift^[t.log a] b := by
  rcases eq_or_ne b 0 with rfl | hb
  · rw [mul_zero, iterate_map_zero]
  · rw [t.mul_of_ne_zero ha hb, ← t.shift_exp, t.exp_log hb]

/-- Multiplication is additive, as shifts are. -/
theorem mul_add (a b c : A) : t.mul a (b + c) = t.mul a b + t.mul a c := by
  rcases eq_or_ne a 0 with rfl | ha
  · rw [zero_mul, zero_mul, zero_mul, add_zero]
  · rw [t.mul_eq ha, t.mul_eq ha, t.mul_eq ha, iterate_map_add]

theorem add_mul (a b c : A) : t.mul (a + b) c = t.mul a c + t.mul b c := by
  rw [mul_comm, mul_add, mul_comm, t.mul_comm c b]

/-- The sum of three logarithms. -/
theorem mul_assoc (a b c : A) : t.mul (t.mul a b) c = t.mul a (t.mul b c) := by
  rcases eq_or_ne a 0 with rfl | ha
  · rw [zero_mul, zero_mul, zero_mul]
  rcases eq_or_ne c 0 with rfl | hc
  · rw [mul_zero, mul_zero, mul_zero]
  -- shifts for `a` and for `c` can be made in any order
  rw [t.mul_comm _ c, t.mul_eq hc, t.mul_eq ha, t.mul_eq ha, t.mul_comm b c, t.mul_eq hc,
    ← Function.iterate_add_apply, ← Function.iterate_add_apply, Nat.add_comm]

theorem one_mul (a : A) : t.mul t.one a = a := by
  rcases eq_or_ne a 0 with rfl | ha
  · exact t.mul_zero _
  · rw [mul_comm, t.mul_eq ha]
    exact t.shift_log ha

theorem mul_one (a : A) : t.mul a t.one = a := by rw [mul_comm, one_mul]

theorem inv_zero : t.inv 0 = 0 := if_pos rfl

/-- The logarithms of inverses add up to the period. -/
theorem mul_inv_cancel (ha : a ≠ 0) : t.mul a (t.inv a) = t.one := by
  rw [inv, if_neg ha, t.mul_eq ha, t.shift_exp, Nat.add_sub_cancel' (t.log_le ha)]
  exact t.shift_period

/-- Division, by the table. -/
theorem mul_inv {b : A} (ha : a ≠ 0) (hb : b ≠ 0) :
    t.mul a (t.inv b) = t.exp (t.log a + t.period - t.log b) := by
  rw [inv, if_neg hb, t.mul_eq ha, t.shift_exp, Nat.add_sub_assoc (t.log_le hb)]

/-- The field. Its addition is that of the group. -/
noncomputable abbrev toField : Field A :=
  { ‹AddCommGroup A› with
    mul := t.mul
    one := t.one
    left_distrib := t.mul_add
    right_distrib := t.add_mul
    zero_mul := t.zero_mul
    mul_zero := t.mul_zero
    mul_assoc := t.mul_assoc
    one_mul := t.one_mul
    mul_one := t.mul_one
    mul_comm := t.mul_comm
    inv := t.inv
    exists_pair_ne := ⟨t.one, 0, t.one_ne_zero⟩
    mul_inv_cancel := fun _ ha ↦ t.mul_inv_cancel ha
    inv_zero := t.inv_zero
    nnqsmul := _
    qsmul := _ }

end PowerTable
