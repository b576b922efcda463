import CounterTerrorist.Foundations.PowerTable
import Mathlib.Data.Finset.Card
import Mathlib.Data.LawfulXor.Basic
import Mathlib.Dynamics.PeriodicPts.Defs
import Mathlib.NumberTheory.Divisors

/-!
# The field of bytes

The tables `EXP` and `LOG` that secrets are shared with, and the multiplication and division that
are made of them. Numbers are as in JavaScript, not known to be bytes; a read outside of a table
gives `undefined`, which all uses treat as zero.

## Why this is a field

`EXP` holds what `double` makes of one, step by step, and comes back to one after 255 steps but not
before. So the 255 numbers it holds first are all the bytes but zero, and `LOG` is its inverse
(`exp_log`). On bytes with exclusive or for addition `double` is additive, and the library
`PowerTable` does the rest: bytes are a field (`GF256`), and `multiply` and `divide` are the
operations of that field (`multiply_spec`, `divide_spec`).
-/

namespace Core.Threshold

open List Option Function

/-! ### The tables -/

/-- `x <<= 1; if (x & 0x100) x ^= 0x11d`. -/
def double (x : ℕ) : ℕ :=
  let x := x <<< 1
  if x &&& 0x100 ≠ 0 then x ^^^ 0x11d else x

/-- An assignment to an element of a `Uint8Array`. The value is taken modulo 256; an assignment
beyond the end has no effect. -/
def store (array : List ℕ) (i v : ℕ) : List ℕ := array.set i (v % 256)

structure Tables where
  EXP : List ℕ
  LOG : List ℕ

/-- The first loop of `init`: the tables and `x` after `i` rounds. -/
def initLoop : ℕ → Tables × ℕ
  | 0 => (⟨List.replicate 512 0, List.replicate 256 0⟩, 1)
  | i + 1 =>
    let (tables, x) := initLoop i
    (⟨store tables.EXP i x, store tables.LOG x i⟩, double x)

/-- The second loop of `init`: `EXP` after `j` rounds, the first of which is the one with
`i = 255`. -/
def copyLoop (table : List ℕ) : ℕ → List ℕ
  | 0 => table
  | j + 1 =>
    let table := copyLoop table j
    store table (255 + j) (table.getD (255 + j - 255) 0)

/-- The table of powers. The tables are irreducible: what they hold is known from the loops, not by
evaluation. -/
@[irreducible] def EXP : List ℕ := copyLoop (initLoop 255).1.EXP 257

/-- The table of logarithms. -/
@[irreducible] def LOG : List ℕ := (initLoop 255).1.LOG

/-- `multiply`. -/
def multiply (a b : ℕ) : ℕ :=
  if a = 0 ∨ b = 0 then 0
  else ((LOG[a]?.bind fun i ↦ LOG[b]?.bind fun j ↦ EXP[i + j]?).getD 0)

/-- What can be thrown: an `Error` with its message, or the `TypeError` for a property of
`undefined`. -/
inductive Thrown
  | error (message : String)
  | typeError
deriving Repr, DecidableEq

/-- `divide`. -/
def divide (a b : ℕ) : Except Thrown ℕ :=
  if b = 0 then .error (.error "Div0")
  else if a = 0 then .ok 0
  else .ok ((LOG[a]?.bind fun i ↦ LOG[b]?.bind fun j ↦ EXP[i + 255 - j]?).getD 0)

/-! ### The powers -/

/-- What `x` is after `j` rounds of the first loop. -/
def power (j : ℕ) : ℕ := double^[j] 1

theorem power_succ (j : ℕ) : power (j + 1) = double (power j) := iterate_succ_apply' ..

/-- Doubling keeps to bytes, and only zero gives zero. -/
theorem double_byte : ∀ x < 256, double x < 256 ∧ (x ≠ 0 → double x ≠ 0) := by decide +kernel

theorem power_lt (j : ℕ) : power j < 256 := by
  induction j with
  | zero => decide
  | succ j ih =>
    rw [power_succ]
    exact (double_byte _ ih).1

theorem power_ne_zero (j : ℕ) : power j ≠ 0 := by
  induction j with
  | zero => decide
  | succ j ih =>
    rw [power_succ]
    exact (double_byte _ (power_lt j)).2 ih

/-- After 255 steps, one comes back. -/
theorem isPeriodicPt_double : IsPeriodicPt double 255 1 := (by decide +kernel : double^[255] 1 = 1)

/-- The number 2 generates: its powers come back to one after 255 steps and not before. -/
theorem minimalPeriod_double : minimalPeriod double 1 = 255 := by
  have hdvd : minimalPeriod double 1 ∈ Nat.divisors 255 :=
    Nat.mem_divisors.2 ⟨isPeriodicPt_double.minimalPeriod_dvd, by decide⟩
  have hnot : ∀ d ∈ Nat.divisors 255, d ≠ 255 → double^[d] 1 ≠ 1 := by decide +kernel
  by_contra hne
  exact hnot _ hdvd hne (iterate_minimalPeriod (f := double) (x := 1))

variable {i a : ℕ}

variable {j b : ℕ}

/-- The first 255 powers differ. -/
theorem power_injOn (hi : i < 255) (hj : j < 255) (h : power i = power j) : i = j := by
  refine iterate_injOn_Iio_minimalPeriod (f := double) (x := 1) ?_ ?_ h
  · rwa [minimalPeriod_double]
  · rwa [minimalPeriod_double]

theorem power_add_period (j : ℕ) : power (j + 255) = power j := by
  rw [power, iterate_add_apply]
  exact congrArg double^[j] isPeriodicPt_double

/-- Every byte but zero is a power. -/
theorem exists_power (ha : a ≠ 0) (hlt : a < 256) : ∃ j < 255, power j = a := by
  have himage : (Finset.range 255).image power = (Finset.range 256).erase 0 := by
    refine Finset.eq_of_subset_of_card_le ?_ ?_
    · intro x hx
      obtain ⟨j, -, rfl⟩ := Finset.mem_image.1 hx
      exact Finset.mem_erase.2 ⟨power_ne_zero j, Finset.mem_range.2 (power_lt j)⟩
    · rw [Finset.card_image_of_injOn, Finset.card_erase_of_mem, Finset.card_range,
        Finset.card_range]
      · exact Finset.mem_range.2 (by decide)
      · intro i hi j hj h
        exact power_injOn (Finset.mem_range.1 hi) (Finset.mem_range.1 hj) h
  have hmem : a ∈ (Finset.range 255).image power := by
    rw [himage]
    exact Finset.mem_erase.2 ⟨ha, Finset.mem_range.2 hlt⟩
  obtain ⟨j, hj, rfl⟩ := Finset.mem_image.1 hmem
  exact ⟨j, Finset.mem_range.1 hj, rfl⟩

/-! ### What the tables hold -/

/-- The state of the first loop after `i` rounds. -/
structure Filled (i : ℕ) (tables : Tables) (x : ℕ) : Prop where
  current : x = power i
  lengthEXP : tables.EXP.length = 512
  lengthLOG : tables.LOG.length = 256
  powers : ∀ j < i, tables.EXP[j]? = some (power j)
  logs : ∀ j < i, tables.LOG[power j]? = some j

theorem getElem?_store {array : List ℕ} {v : ℕ} (hi : i < array.length) (hv : v < 256) (j : ℕ) :
    (store array i v)[j]? = if i = j then some v else array[j]? := by
  rw [store, getElem?_set, if_pos hi, Nat.mod_eq_of_lt hv]

theorem length_store (array : List ℕ) (i v : ℕ) : (store array i v).length = array.length :=
  length_set

/-- One round of the loop fills in two places. -/
theorem Filled.step {tables : Tables} {x : ℕ} (h : Filled i tables x) (hi : i < 255) :
    Filled (i + 1) ⟨store tables.EXP i x, store tables.LOG x i⟩ (double x) := by
  obtain ⟨rfl, hexp, hlog, hpowers, hlogs⟩ := h
  have hplace : i < tables.EXP.length := by omega
  have hplace' : power i < tables.LOG.length := by
    rw [hlog]
    exact power_lt i
  refine ⟨(power_succ i).symm, (length_store ..).trans hexp, (length_store ..).trans hlog,
    fun j hj ↦ ?_, fun j hj ↦ ?_⟩
  · rw [getElem?_store hplace (power_lt i)]
    split
    case isTrue heq => rw [heq]
    case isFalse hne => exact hpowers j (by omega)
  · rw [getElem?_store hplace' (by omega : i < 256)]
    split
    -- no power is met twice, so that no logarithm is overwritten
    case isTrue heq => rw [power_injOn hi (by omega) heq]
    case isFalse hne =>
      have hji : j ≠ i := by
        rintro rfl
        exact hne rfl
      exact hlogs j (by omega)

/-- The tables after some rounds. -/
theorem filled_initLoop (hi : i ≤ 255) : Filled i (initLoop i).1 (initLoop i).2 := by
  induction i with
  | zero => exact ⟨rfl, length_replicate, length_replicate, by simp, by simp⟩
  | succ i ih => exact (ih (by omega)).step (by omega)

/-- The second half of the table repeats the first. -/
theorem copyLoop_spec {table : List ℕ} (hlength : table.length = 512)
    (hpowers : ∀ j < 255, table[j]? = some (power j)) {n : ℕ} (hn : n ≤ 257) :
    (copyLoop table n).length = 512 ∧ ∀ j < 255 + n, (copyLoop table n)[j]? = some (power j) := by
  induction n with
  | zero => exact ⟨hlength, hpowers⟩
  | succ n ih =>
    obtain ⟨hlen, hbefore⟩ := ih (by omega)
    have hread : (copyLoop table n).getD (255 + n - 255) 0 = power n := by
      rw [Nat.add_sub_cancel_left, getD_eq_getElem?_getD, hbefore n (by omega), getD_some]
    have hperiod : power (255 + n) = power n := by rw [Nat.add_comm, power_add_period]
    refine ⟨(length_store ..).trans hlen, fun j hj ↦ ?_⟩
    show (store (copyLoop table n) (255 + n) _)[j]? = _
    rw [hread, getElem?_store (by omega) (power_lt n)]
    split
    case isTrue heq => rw [← heq, hperiod]
    case isFalse hne => exact hbefore j (by omega)

/-- **`EXP` holds the powers.** -/
theorem getElem?_EXP (hj : j < 512) : EXP[j]? = some (power j) := by
  have hfilled := filled_initLoop (le_refl 255)
  unfold EXP
  exact (copyLoop_spec hfilled.lengthEXP hfilled.powers (le_refl 257)).2 j (by omega)

/-- **`LOG` holds their exponents.** -/
theorem exp_log (ha : a ≠ 0) (hlt : a < 256) : ∃ j < 255, LOG[a]? = some j ∧ power j = a := by
  obtain ⟨j, hj, rfl⟩ := exists_power ha hlt
  refine ⟨j, hj, ?_, rfl⟩
  unfold LOG
  exact (filled_initLoop (le_refl 255)).logs j hj

/-! ### Bytes -/

/-- A byte, with exclusive or for addition. -/
@[ext] structure GF256 where
  bits : BitVec 8
deriving DecidableEq

namespace GF256

instance : Zero GF256 := ⟨⟨0⟩⟩

instance : Add GF256 := ⟨fun a b ↦ ⟨a.bits ^^^ b.bits⟩⟩

instance : Neg GF256 := ⟨id⟩

instance : AddCommGroup GF256 where
  add_assoc a b c := GF256.ext (BitVec.xor_assoc a.bits b.bits c.bits)
  zero_add _ := GF256.ext BitVec.zero_xor
  add_zero _ := GF256.ext BitVec.xor_zero
  neg_add_cancel _ := GF256.ext BitVec.xor_self
  add_comm a b := GF256.ext (BitVec.xor_comm a.bits b.bits)
  nsmul := nsmulRec
  zsmul := zsmulRec

theorem add_self (a : GF256) : a + a = 0 := neg_add_cancel a

theorem sub_eq_add (a b : GF256) : a - b = a + b := sub_eq_add_neg a b

/-- What makes good for a bit that falls off the end. -/
def carry (bit : Bool) : BitVec 8 := if bit then 0x1d else 0

theorem carry_xor (s t : Bool) : carry (s ^^ t) = carry s ^^^ carry t := by
  cases s <;> cases t <;> rfl

/-- Doubling is additive. -/
def doubleHom : GF256 →+ GF256 where
  toFun a := ⟨a.bits <<< 1 ^^^ carry a.bits.msb⟩
  map_zero' := by decide
  map_add' a b := by
    refine GF256.ext ?_
    show (a.bits ^^^ b.bits) <<< 1 ^^^ carry (a.bits ^^^ b.bits).msb =
      (a.bits <<< 1 ^^^ carry a.bits.msb) ^^^ (b.bits <<< 1 ^^^ carry b.bits.msb)
    rw [BitVec.shiftLeft_xor_distrib, BitVec.msb_xor, carry_xor]
    ac_rfl

end GF256

/-- A number as a byte. -/
def toGF (n : ℕ) : GF256 := ⟨BitVec.ofNat 8 n⟩

theorem toGF_xor (a b : ℕ) : toGF (a ^^^ b) = toGF a + toGF b := GF256.ext BitVec.ofNat_xor

theorem toGF_injOn (ha : a < 256) (hb : b < 256) (h : toGF a = toGF b) : a = b := by
  have hnat : a % 2 ^ 8 = b % 2 ^ 8 := congrArg (fun x ↦ x.bits.toNat) h
  omega

theorem toGF_toNat (a : GF256) : toGF a.bits.toNat = a :=
  GF256.ext ((BitVec.ofNat_toNat 8 a.bits).trans (BitVec.setWidth_eq a.bits))

/-- Doubling is that of the field. -/
theorem toGF_double : ∀ x < 256, toGF (double x) = GF256.doubleHom (toGF x) := by decide +kernel

theorem toGF_power (j : ℕ) : toGF (power j) = GF256.doubleHom^[j] ⟨1⟩ := by
  induction j with
  | zero => rfl
  | succ j ih => rw [power_succ, toGF_double _ (power_lt j), ih, iterate_succ_apply']

theorem toGF_ne_zero (ha : a ≠ 0) (hlt : a < 256) : toGF a ≠ 0 :=
  fun h ↦ ha (toGF_injOn hlt (by decide) h)

theorem toNat_ne_zero {a : GF256} (ha : a ≠ 0) : a.bits.toNat ≠ 0 := by
  intro h
  rw [← toGF_toNat a, h] at ha
  exact ha rfl

/-- The logarithm of a byte, by the table. -/
def GF256.log (a : GF256) : ℕ := LOG.getD a.bits.toNat 0

/-- Every element but zero is a power. -/
theorem GF256.log_spec {a : GF256} (ha : a ≠ 0) : a.log < 255 ∧ toGF (power a.log) = a := by
  obtain ⟨j, hj, hlog, hpower⟩ := exp_log (toNat_ne_zero ha) a.bits.isLt
  have heq : a.log = j := by
    rw [GF256.log, getD_eq_getElem?_getD, hlog, getD_some]
  rw [heq, hpower, toGF_toNat]
  exact ⟨hj, rfl⟩

/-- **The tables are a table of powers**, so that bytes are a field. -/
def powerTable : PowerTable GF256 where
  shift := GF256.doubleHom
  one := ⟨1⟩
  one_ne_zero := by decide
  period := 255
  shift_period := by
    rw [← toGF_power, ← Nat.zero_add 255, power_add_period]
    rfl
  log := GF256.log
  log_le ha := (GF256.log_spec ha).1.le
  shift_log ha := by
    rw [← toGF_power]
    exact (GF256.log_spec ha).2

noncomputable instance : Field GF256 := powerTable.toField

/-- Products and quotients, by the table. -/
theorem GF256.mul_eq {a b : GF256} (ha : a ≠ 0) (hb : b ≠ 0) :
    a * b = powerTable.exp (a.log + b.log) := powerTable.mul_of_ne_zero ha hb

/-- Logarithms are subtracted. -/
theorem GF256.div_eq {a b : GF256} (ha : a ≠ 0) (hb : b ≠ 0) :
    a / b = powerTable.exp (a.log + 255 - b.log) := by
  exact powerTable.mul_inv ha hb

theorem exp_powerTable (j : ℕ) : powerTable.exp j = toGF (power j) := (toGF_power j).symm

/-! ### The operations -/

/-- The logarithm of a number, as the program reads it. -/
theorem getElem?_LOG (ha : a ≠ 0) (hlt : a < 256) : LOG[a]? = some (toGF a).log := by
  obtain ⟨j, -, hlog, -⟩ := exp_log ha hlt
  have hbits : (toGF a).bits.toNat = a := Nat.mod_eq_of_lt hlt
  rw [GF256.log, hbits, getD_eq_getElem?_getD, hlog, getD_some]

/-- **`multiply` is the product of the field.** -/
theorem multiply_spec (ha : a < 256) (hb : b < 256) :
    multiply a b < 256 ∧ toGF (multiply a b) = toGF a * toGF b := by
  rcases Nat.eq_zero_or_pos a with rfl | hapos
  · exact ⟨by simp [multiply], (zero_mul (toGF b)).symm⟩
  rcases Nat.eq_zero_or_pos b with rfl | hbpos
  · exact ⟨by simp [multiply], by rw [multiply, if_pos (.inr rfl)]; exact (mul_zero (toGF a)).symm⟩
  have ha' := toGF_ne_zero hapos.ne' ha
  have hb' := toGF_ne_zero hbpos.ne' hb
  have hlook : multiply a b = power ((toGF a).log + (toGF b).log) := by
    have hi := (GF256.log_spec ha').1
    have hj := (GF256.log_spec hb').1
    rw [multiply, if_neg (by omega), getElem?_LOG hapos.ne' ha, getElem?_LOG hbpos.ne' hb,
      bind_some, bind_some, getElem?_EXP (by omega), getD_some]
  rw [hlook, GF256.mul_eq ha' hb', exp_powerTable]
  exact ⟨power_lt _, rfl⟩

/-- **`divide` is the quotient of the field.** -/
theorem divide_spec (ha : a < 256) (hb : b < 256) (hne : b ≠ 0) :
    ∃ c < 256, divide a b = .ok c ∧ toGF c = toGF a / toGF b := by
  rcases Nat.eq_zero_or_pos a with rfl | hapos
  · exact ⟨0, by decide, by rw [divide, if_neg hne, if_pos rfl], (zero_div (toGF b)).symm⟩
  have ha' := toGF_ne_zero hapos.ne' ha
  have hb' := toGF_ne_zero hne hb
  have hi := (GF256.log_spec ha').1
  refine ⟨power ((toGF a).log + 255 - (toGF b).log), power_lt _, ?_, ?_⟩
  · rw [divide, if_neg hne, if_neg hapos.ne', getElem?_LOG hapos.ne' ha, getElem?_LOG hne hb,
      bind_some, bind_some, getElem?_EXP (by omega), getD_some]
  · rw [GF256.div_eq ha' hb', exp_powerTable]

end Core.Threshold
