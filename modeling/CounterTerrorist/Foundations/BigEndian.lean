import Mathlib.Algebra.Order.Ring.Nat
import Mathlib.Data.List.Basic
import Mathlib.Tactic.Ring

/-!
# Big-endian numbers

A number as bytes, the highest one first (`bigEndian`), and the number that bytes are
(`ofBytes`). Programs put such numbers together in two ways: by adding up, byte by byte
(`ofBytes_append_singleton`), or by shifting bytes into place and joining the bits
(`shiftLeft_or_eq`).
-/

namespace BigEndian

open List UInt8

/-- A number in a fixed number of bytes. -/
def bigEndian : ℕ → ℕ → List UInt8
  | 0, _ => []
  | w + 1, n => UInt8.ofNat (n / 256 ^ w) :: bigEndian w n

/-- The number that bytes are. -/
def ofBytes (bs : List UInt8) : ℕ := bs.foldl (fun v b ↦ v * 256 + b.toNat) 0

@[simp] theorem length_bigEndian (w n : ℕ) : (bigEndian w n).length = w := by
  induction w with
  | zero => rfl
  | succ w ih => rw [bigEndian, length_cons, ih]

theorem bigEndian_one (n : ℕ) : bigEndian 1 n = [ofNat n] := by
  simp [bigEndian]

theorem bigEndian_two (n : ℕ) : bigEndian 2 n = [ofNat (n / 256), ofNat n] := by
  simp [bigEndian]

theorem bigEndian_three (n : ℕ) :
    bigEndian 3 n = [ofNat (n / 65536), ofNat (n / 256), ofNat n] := by
  simp [bigEndian]

theorem bigEndian_four (n : ℕ) :
    bigEndian 4 n = [ofNat (n / 16777216), ofNat (n / 65536), ofNat (n / 256), ofNat n] := by
  simp [bigEndian]

theorem toNat_ofNat (n : ℕ) : (ofNat n).toNat = n % 256 := by
  rw [toNat_ofNat']

/-- One more byte. -/
theorem ofBytes_append_singleton (bs : List UInt8) (b : UInt8) :
    ofBytes (bs ++ [b]) = ofBytes bs * 256 + b.toNat := by
  rw [ofBytes, foldl_append]
  rfl

/-- What a loop over the bytes adds up to. -/
theorem foldl_bigEndian (w v n : ℕ) :
    (bigEndian w n).foldl (fun v b ↦ v * 256 + b.toNat) v = v * 256 ^ w + n % 256 ^ w := by
  induction w generalizing v with
  | zero => rw [bigEndian, foldl_nil, Nat.pow_zero, Nat.mod_one, Nat.mul_one, Nat.add_zero]
  | succ w ih =>
    have hsplit : n % 256 ^ (w + 1) = n / 256 ^ w % 256 * 256 ^ w + n % 256 ^ w := by
      rw [Nat.pow_succ, Nat.mod_mul, Nat.add_comm, Nat.mul_comm]
    rw [bigEndian, foldl_cons, ih, toNat_ofNat, hsplit]
    ring

/-- **The bytes of a number are read back as the number.** -/
theorem ofBytes_bigEndian {w n : ℕ} (h : n < 256 ^ w) : ofBytes (bigEndian w n) = n := by
  rw [ofBytes, foldl_bigEndian, Nat.zero_mul, Nat.zero_add, Nat.mod_eq_of_lt h]

/-- The first bytes are a smaller number. -/
theorem ofBytes_take_le (bs : List UInt8) (n : ℕ) : ofBytes (bs.take n) ≤ ofBytes bs := by
  have hstep (rest : List UInt8) (v : ℕ) : v ≤ rest.foldl (fun v b ↦ v * 256 + b.toNat) v := by
    induction rest generalizing v with
    | nil => exact Nat.le_refl v
    | cons b rest ih =>
      have : v ≤ v * 256 + b.toNat := by omega
      exact this.trans (ih _)
  have happend : ofBytes bs =
      (bs.drop n).foldl (fun v b ↦ v * 256 + b.toNat) (ofBytes (bs.take n)) := by
    rw [ofBytes, ofBytes, ← foldl_append, take_append_drop]
  rw [happend]
  exact hstep _ _

variable {a b c : ℕ}

/-- Bits that do not overlap are joined as numbers are added. -/
theorem shiftLeft_or_eq {k : ℕ} (h : b < 2 ^ k) : a <<< k ||| b = a * 2 ^ k + b := by
  rw [← Nat.shiftLeft_add_eq_or_of_lt h, Nat.shiftLeft_eq]

/-- Joining two bytes. -/
theorem join_two (hb : b < 256) : a <<< 8 ||| b = a * 256 + b := shiftLeft_or_eq hb

theorem join_three (hb : b < 256) (hc : c < 256) :
    a <<< 16 ||| b <<< 8 ||| c = a * 65536 + b * 256 + c := by
  have hlow : b <<< 8 ||| c < 2 ^ 16 := by
    rw [join_two hc]
    omega
  rw [Nat.or_assoc, shiftLeft_or_eq hlow, join_two hc]
  omega

theorem join_four {d : ℕ} (hb : b < 256) (hc : c < 256) (hd : d < 256) :
    a <<< 24 ||| b <<< 16 ||| c <<< 8 ||| d = a * 16777216 + b * 65536 + c * 256 + d := by
  have hlow : b <<< 16 ||| c <<< 8 ||| d < 2 ^ 24 := by
    rw [join_three hc hd]
    omega
  rw [Nat.or_assoc, Nat.or_assoc, ← Nat.or_assoc (b <<< 16), shiftLeft_or_eq hlow, join_three hc hd]
  omega

end BigEndian
