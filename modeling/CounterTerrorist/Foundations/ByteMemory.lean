import Mathlib.Data.List.Infix
import Mathlib.Tactic.Linarith

/-!
# Flat byte memory and little-endian words

A mapping is a list of bytes and nothing else. Everything two programs that share one mapping can
agree on is stated here: which bytes stand at an offset, what a write leaves in place, and how a
32-bit word is laid out.

## Positions, not pieces

The working predicate is `HoldsAt m off bs`: the bytes `bs` stand in `m` at offset `off`. It is a
pointwise statement, so a write (`splice`) is understood through one equation about single positions
(`getElem?_splice`), and every frame fact below is that equation read at the right index.

## Fixed-width arithmetic

`checkedAdd` is the checked addition of 32-bit words, with the overflow case visible.
-/

namespace ByteMemory

open List Option UInt32

/-- The content of a mapping. -/
abbrev Mem := List UInt8

/-- The `n` bytes at offset `off`. -/
def slice (m : Mem) (off n : ℕ) : List UInt8 := (m.drop off).take n

/-- Overwrite the bytes at offset `off` by `bs`. -/
def splice (m : Mem) (off : ℕ) (bs : List UInt8) : Mem :=
  m.take off ++ bs ++ m.drop (off + bs.length)

/-- The bytes `bs` stand in `m` at offset `off`. -/
def HoldsAt (m : Mem) (off : ℕ) (bs : List UInt8) : Prop :=
  ∀ i < bs.length, m[off + i]? = bs[i]?

instance (m : Mem) (off : ℕ) (bs : List UInt8) : Decidable (HoldsAt m off bs) :=
  inferInstanceAs (Decidable (∀ i < bs.length, m[off + i]? = bs[i]?))

/-! ### Single positions -/

theorem getElem?_slice (m : Mem) (off n i : ℕ) :
    (slice m off n)[i]? = if i < n then m[off + i]? else none := by
  simp [slice, getElem?_take]

variable {m : Mem} {off off' n : ℕ} {bs : List UInt8} {a b c : UInt32}

/-- A write read back position by position. The bound keeps the write inside the mapping, so that
positions after it are not shifted. -/
theorem getElem?_splice (h : off + bs.length ≤ m.length) (i : ℕ) : (splice m off bs)[i]? =
      if off ≤ i ∧ i < off + bs.length then bs[i - off]? else m[i]? := by
  have htake : (m.take off).length = off := by simp; omega
  rw [splice, append_assoc]
  rcases Nat.lt_or_ge i off with hlt | hge
  · rw [getElem?_append_left (by omega), getElem?_take]
    simp only [hlt, if_true]
    rw [if_neg (by omega)]
  · rw [getElem?_append_right (by omega), htake]
    rcases Nat.lt_or_ge i (off + bs.length) with hin | hout
    · rw [getElem?_append_left (by omega), if_pos ⟨hge, hin⟩]
    · rw [getElem?_append_right (by omega), getElem?_drop, if_neg (by omega)]
      congr 1
      omega

theorem length_splice (h : off + bs.length ≤ m.length) : (splice m off bs).length = m.length := by
  simp only [splice, length_append, length_take, length_drop]
  omega

/-! ### What stands where -/

theorem slice_eq_of_holdsAt (h : HoldsAt m off bs) : slice m off bs.length = bs := by
  refine ext_getElem? fun i ↦ ?_
  rw [getElem?_slice]
  split
  · exact h i ‹_›
  · rw [getElem?_eq_none (by omega)]

@[simp] theorem holdsAt_nil (m : Mem) (off : ℕ) : HoldsAt m off [] := by
  intro i hi
  simp at hi

variable {as : List UInt8} {w : UInt32}

theorem holdsAt_append :
    HoldsAt m off (as ++ bs) ↔ HoldsAt m off as ∧ HoldsAt m (off + as.length) bs := by
  constructor
  · intro h
    refine ⟨fun i hi ↦ ?_, fun i hi ↦ ?_⟩
    · rw [h i (by simp; omega), getElem?_append_left hi]
    · have := h (as.length + i) (by simp; omega)
      rwa [getElem?_append_right (by omega), ← Nat.add_assoc, Nat.add_sub_cancel_left] at this
  · rintro ⟨ha, hb⟩ i hi
    rw [length_append] at hi
    rcases Nat.lt_or_ge i as.length with hlt | hge
    · rw [ha i hlt, getElem?_append_left hlt]
    · rw [getElem?_append_right hge, ← hb (i - as.length) (by omega)]
      congr 1
      omega

/-- What was written stands where it was written. -/
theorem holdsAt_splice_self (h : off + bs.length ≤ m.length) :
    HoldsAt (splice m off bs) off bs := by
  intro i hi
  rw [getElem?_splice h, if_pos ⟨by omega, by omega⟩, Nat.add_sub_cancel_left]

/-- Frame rule: a write leaves alone whatever it does not overlap. -/
theorem HoldsAt.splice {cs : List UInt8} (hc : HoldsAt m off' cs) (h : off + bs.length ≤ m.length)
    (hd : off' + cs.length ≤ off ∨ off + bs.length ≤ off') : HoldsAt (splice m off bs) off' cs := by
  intro i hi
  rw [getElem?_splice h, if_neg (by omega)]
  exact hc i hi

/-- Reading at a disjoint place is not affected by a write. -/
theorem slice_splice_of_disjoint (h : off + bs.length ≤ m.length)
    (hd : off' + n ≤ off ∨ off + bs.length ≤ off') :
    slice (splice m off bs) off' n = slice m off' n := by
  refine ext_getElem? fun i ↦ ?_
  rw [getElem?_slice, getElem?_slice]
  split
  · rw [getElem?_splice h, if_neg (by omega)]
  · rfl

/-- Two adjacent writes are one write. -/
theorem splice_splice_append (h : off + as.length + bs.length ≤ m.length) :
    splice (splice m off as) (off + as.length) bs = splice m off (as ++ bs) := by
  have ha : off + as.length ≤ m.length := by omega
  refine ext_getElem? fun i ↦ ?_
  rw [getElem?_splice (by rw [length_splice ha]; omega), getElem?_splice ha,
    getElem?_splice (by simp; omega)]
  simp only [length_append]
  rcases Nat.lt_or_ge i off with hlt | hge
  · rw [if_neg (by omega), if_neg (by omega), if_neg (by omega)]
  rcases Nat.lt_or_ge i (off + as.length) with hin | hout
  · rw [if_neg (by omega), if_pos ⟨hge, hin⟩, if_pos (by omega), getElem?_append_left (by omega)]
  rcases Nat.lt_or_ge i (off + as.length + bs.length) with hin | hout'
  · rw [if_pos ⟨hout, hin⟩, if_pos (by omega), getElem?_append_right (by omega)]
    congr 1
    omega
  · rw [if_neg (by omega), if_neg (by omega), if_neg (by omega)]

/-! ### Bounds-checked access -/

/-- Bounds-checked read; `none` is an index out of range. -/
def readAt (m : Mem) (off n : ℕ) : Option (List UInt8) :=
  if off + n ≤ m.length then some (slice m off n) else none

/-- Bounds-checked write; `none` is an index out of range. -/
def writeAt (m : Mem) (off : ℕ) (bs : List UInt8) : Option Mem :=
  if off + bs.length ≤ m.length then some (splice m off bs) else none

theorem readAt_of_le (h : off + n ≤ m.length) : readAt m off n = some (slice m off n) := if_pos h

theorem writeAt_of_le (h : off + bs.length ≤ m.length) :
    writeAt m off bs = some (splice m off bs) := if_pos h

/-! ### Little-endian words -/

/-- The four bytes of a word, least significant first. -/
def toLeBytes (w : UInt32) : List UInt8 :=
  [UInt8.ofNat w.toNat, UInt8.ofNat (w.toNat / 2 ^ 8), UInt8.ofNat (w.toNat / 2 ^ 16),
    UInt8.ofNat (w.toNat / 2 ^ 24)]

/-- The word whose bytes, least significant first, are given. -/
def fromLeBytes (bs : List UInt8) : UInt32 :=
  UInt32.ofNat (bs.foldr (fun b acc ↦ b.toNat + 2 ^ 8 * acc) 0)

@[simp] theorem length_toLeBytes (w : UInt32) : (toLeBytes w).length = 4 := rfl

/-- Words survive their layout. -/
@[simp] theorem fromLeBytes_toLeBytes (w : UInt32) : fromLeBytes (toLeBytes w) = w := by
  have hw := w.toNat_lt
  apply UInt32.toNat.inj
  simp only [fromLeBytes, toLeBytes, foldr_cons, UInt8.toNat_ofNat', toNat_ofNat']
  omega

/-- The word stored at offset `off`. -/
def loadU32 (m : Mem) (off : ℕ) : UInt32 := fromLeBytes (slice m off 4)

theorem loadU32_of_holdsAt (h : HoldsAt m off (toLeBytes w)) : loadU32 m off = w := by
  rw [loadU32, show (4 : ℕ) = (toLeBytes w).length from rfl, slice_eq_of_holdsAt h,
    fromLeBytes_toLeBytes]

theorem loadU32_splice_self (h : off + 4 ≤ m.length) :
    loadU32 (splice m off (toLeBytes w)) off = w :=
  loadU32_of_holdsAt (holdsAt_splice_self (by simpa using h))

theorem loadU32_splice_of_disjoint (h : off + bs.length ≤ m.length)
    (hd : off' + 4 ≤ off ∨ off + bs.length ≤ off') :
    loadU32 (splice m off bs) off' = loadU32 m off' := by
  rw [loadU32, slice_splice_of_disjoint h hd, loadU32]

theorem loadU32_replicate_zero (h : off + 4 ≤ n) : loadU32 (List.replicate n 0) off = 0 := by
  have hs : slice (List.replicate n 0) off 4 = toLeBytes 0 := by
    rw [slice, drop_replicate, take_replicate, Nat.min_eq_left (by omega)]
    rfl
  rw [loadU32, hs, fromLeBytes_toLeBytes]

/-! ### Word arithmetic -/

/-- Addition of words that reports overflow. -/
def checkedAdd (a b : UInt32) : Option UInt32 :=
  if a.toNat + b.toNat < 2 ^ 32 then some (a + b) else none

theorem checkedAdd_of_lt (h : a.toNat + b.toNat < 2 ^ 32) :
    checkedAdd a b = some (a + b) := if_pos h

/-- A sum that does not overflow is the sum of naturals. -/
theorem toNat_add_of_lt (h : a.toNat + b.toNat < 2 ^ 32) : (a + b).toNat = a.toNat + b.toNat := by
  rw [UInt32.toNat_add]
  omega

/-- A difference that does not underflow is the difference of naturals. -/
theorem toNat_sub_of_ge (h : b.toNat ≤ a.toNat) : (a - b).toNat = a.toNat - b.toNat := by
  have ha := a.toNat_lt
  rw [UInt32.toNat_sub]
  omega

/-- A checked sum that overflows exceeds every word, so `all` and `any` compare the naturals. -/
theorem checkedAdd_all_gt : (checkedAdd a b).all (· > c) = true ↔ c.toNat < a.toNat + b.toNat := by
  have hc := c.toNat_lt
  by_cases h : a.toNat + b.toNat < 2 ^ 32
  · rw [checkedAdd_of_lt h, all_some, decide_eq_true_eq, gt_iff_lt, lt_iff_toNat_lt,
      toNat_add_of_lt h]
  · rw [checkedAdd, if_neg h]
    exact iff_of_true rfl (by omega)

theorem checkedAdd_any_le : (checkedAdd a b).any (· ≤ c) = true ↔ a.toNat + b.toNat ≤ c.toNat := by
  have hc := c.toNat_lt
  by_cases h : a.toNat + b.toNat < 2 ^ 32
  · rw [checkedAdd_of_lt h, any_some, decide_eq_true_eq, le_iff_toNat_le, toNat_add_of_lt h]
  · rw [checkedAdd, if_neg h]
    exact iff_of_false (by simp) (by omega)

/-- Two checked additions in a row, when they do not overflow. -/
theorem checkedAdd_bind_of_lt (h : a.toNat + b.toNat + c.toNat < 2 ^ 32) :
    (checkedAdd a b).bind (checkedAdd · c) = some (ofNat (a.toNat + b.toNat + c.toNat)) := by
  have hab : (a + b).toNat = a.toNat + b.toNat := toNat_add_of_lt (by omega)
  rw [checkedAdd_of_lt (by omega), bind_some, checkedAdd_of_lt (by omega), Option.some.injEq]
  apply UInt32.toNat.inj
  rw [toNat_add_of_lt (by omega), toNat_ofNat']
  omega

/-- Two checked additions in a row overflow together with the sum. -/
theorem checkedAdd_bind_eq_none (h : 2 ^ 32 ≤ a.toNat + b.toNat + c.toNat) :
    (checkedAdd a b).bind (checkedAdd · c) = none := by
  by_cases hab : a.toNat + b.toNat < 2 ^ 32
  · rw [checkedAdd_of_lt hab, bind_some, checkedAdd, if_neg (by rw [toNat_add_of_lt hab]; omega)]
  · rw [checkedAdd, if_neg hab, bind_none]

theorem toNat_ofNat_of_lt (h : n < 2 ^ 32) : (ofNat n).toNat = n := by
  rw [toNat_ofNat']
  omega

end ByteMemory
