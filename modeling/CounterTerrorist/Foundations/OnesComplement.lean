import Mathlib.Data.Nat.ModEq

/-!
# Checksums in one's complement

The checksum of the internet protocols adds 16-bit words and carries what does not fit back to the
lower end (`foldCarry`). Modulo `65535` this is addition, and only zero is folded to zero; so bytes
check out exactly if their sum is a positive multiple of `65535` (`checks_iff`). A checksum can be
kept up to date without adding all up again: `patch_modEq` says what a patch does to the sum.
-/

namespace OnesComplement

open List

/-- Carry what is above 16 bits back, until nothing is. -/
def foldCarry (n : ℕ) : ℕ := if n < 2 ^ 16 then n else foldCarry (n % 2 ^ 16 + n / 2 ^ 16)
termination_by n

/-- What is folded fits into a word. -/
theorem foldCarry_lt (n : ℕ) : foldCarry n < 2 ^ 16 := by
  fun_induction foldCarry n with
  | case1 n h => exact h
  | case2 n h ih => exact ih

/-- Folding keeps the remainder modulo `65535`. -/
theorem foldCarry_modEq (n : ℕ) : foldCarry n ≡ n [MOD 65535] := by
  fun_induction foldCarry n with
  | case1 n h => rfl
  | case2 n h ih =>
    refine ih.trans ?_
    rw [Nat.ModEq]
    omega

/-- Only zero is folded to zero. -/
theorem foldCarry_pos {n : ℕ} (h : 0 < n) : 0 < foldCarry n := by
  fun_induction foldCarry n with
  | case1 n hlt => exact h
  | case2 n hge ih => exact ih (by omega)

/-- The sum of the 16-bit words, in network order. A last odd byte is the upper half of a word. -/
def sum16 : List UInt8 → ℕ
  | a :: b :: rest => a.toNat * 256 + b.toNat + sum16 rest
  | [a] => a.toNat * 256
  | [] => 0

/-- Sums add up after whole words. -/
theorem sum16_append {as : List UInt8} (bs : List UInt8) (h : as.length % 2 = 0) :
    sum16 (as ++ bs) = sum16 as + sum16 bs := by
  fun_induction sum16 as with
  | case1 a b rest ih =>
    have hrest : rest.length % 2 = 0 := by
      simp only [length_cons] at h
      omega
    rw [cons_append, cons_append, sum16]
    omega
  | case2 a => simp at h
  | case3 => rw [nil_append, Nat.zero_add]

/-- The bytes, with their checksum among them, are as they were sent. -/
def Checks (bs : List UInt8) : Prop := foldCarry (sum16 bs) = 0xFFFF

instance (bs : List UInt8) : Decidable (Checks bs) :=
  inferInstanceAs (Decidable (_ = _))

/-- **When bytes check out.** -/
theorem checks_iff {bs : List UInt8} : Checks bs ↔ 0 < sum16 bs ∧ sum16 bs ≡ 0 [MOD 65535] := by
  have hmod := foldCarry_modEq (sum16 bs)
  have hlt := foldCarry_lt (sum16 bs)
  rw [Checks]
  constructor
  · intro h
    rw [h] at hmod
    refine ⟨Nat.pos_of_ne_zero fun hzero ↦ ?_, hmod.symm⟩
    rw [hzero] at h
    simp [foldCarry] at h
  · rintro ⟨hpos, hsum⟩
    have hfold := hmod.trans hsum
    have hpos' := foldCarry_pos hpos
    rw [Nat.ModEq] at hfold
    omega

/-- A checksum after old words were replaced by new ones. -/
def patch (csum : ℕ) (words : List (ℕ × ℕ)) : ℕ :=
  0xFFFF - foldCarry (words.foldl (fun sum w ↦ sum + (0xFFFF - w.1) + w.2) (0xFFFF - csum))

theorem patch_lt (csum : ℕ) (words : List (ℕ × ℕ)) : patch csum words < 2 ^ 16 :=
  Nat.lt_of_le_of_lt (Nat.sub_le _ _) (by decide)

/-- What the words of a patch add up to. -/
theorem foldl_modEq (words : List (ℕ × ℕ)) (hwords : ∀ w ∈ words, w.1 < 2 ^ 16) (sum : ℕ) :
    words.foldl (fun sum w ↦ sum + (0xFFFF - w.1) + w.2) sum + (words.map Prod.fst).sum ≡
      sum + (words.map Prod.snd).sum [MOD 65535] := by
  induction words generalizing sum with
  | nil => rfl
  | cons w words ih =>
    obtain ⟨hw, hwords⟩ := forall_mem_cons.1 hwords
    have hrest := ih hwords (sum + (0xFFFF - w.1) + w.2)
    rw [Nat.ModEq] at hrest ⊢
    simp only [foldl_cons, map_cons, sum_cons]
    omega

/-- With the new words, a patched checksum adds up to what the old one did with the old words. -/
theorem patch_modEq {csum : ℕ} (words : List (ℕ × ℕ)) (hcsum : csum < 2 ^ 16)
    (hwords : ∀ w ∈ words, w.1 < 2 ^ 16) :
    patch csum words + (words.map Prod.snd).sum ≡ csum + (words.map Prod.fst).sum [MOD 65535] := by
  have hfold := foldl_modEq words hwords (0xFFFF - csum)
  have hmod := foldCarry_modEq
    (words.foldl (fun sum w ↦ sum + (0xFFFF - w.1) + w.2) (0xFFFF - csum))
  have hlt := foldCarry_lt (words.foldl (fun sum w ↦ sum + (0xFFFF - w.1) + w.2) (0xFFFF - csum))
  rw [patch]
  rw [Nat.ModEq] at hfold hmod ⊢
  omega

end OnesComplement
