import CounterTerrorist.Core.JsonText
import CounterTerrorist.Foundations.Bloom
import Mathlib.Data.Finset.Range

/-!
# `BloomFilter`

The filter of `core/cache.ts`: a bit array in bytes, and two rolling hashes that are combined to as
many positions as asked for. `positions` is the set of the bits that are set. Through it `has` and
`add` are the operations of a Bloom filter over positions below `size` (`has_iff`,
`positions_add`).
-/

namespace Core

open List

/-- `BloomFilter`. The array is as long as the constructor makes it. -/
structure BloomFilter where
  size : ℕ
  hashCount : ℕ
  bits : List (BitVec 8)
  size_pos : 0 < size
  length_bits : bits.length = (size + 7) / 8

namespace BloomFilter

/-- `new BloomFilter(size, hashCount)`. -/
def new (size hashCount : ℕ) (size_pos : 0 < size) : BloomFilter where
  size := size
  hashCount := hashCount
  bits := List.replicate ((size + 7) / 8) 0
  size_pos := size_pos
  length_bits := List.length_replicate

/-- A rolling hash of the code units: `h = (h * factor + code) >>> 0`. -/
def rolling (factor : ℕ) (val : String) : ℕ :=
  (utf16 val).foldl (fun h code ↦ (h * factor + code) % 2 ^ 32) 0

/-- `getHashes`. -/
def getHashes (size hashCount : ℕ) (val : String) : List ℕ :=
  let h1 := rolling 31 val
  let h2 := rolling 37 val
  (List.range hashCount).map fun i ↦ (h1 + i * h2) % size

/-- `1 << bitIdx`. -/
def mask (h : ℕ) : BitVec 8 := 1#8 <<< (h % 8)

/-- `this.bits[byteIdx] |= 1 << bitIdx`. -/
def setBit (bits : List (BitVec 8)) (h : ℕ) : List (BitVec 8) :=
  bits.modify (h / 8) (· ||| mask h)

/-- `this.bits[byteIdx] & (1 << bitIdx)`. -/
def testBit (bits : List (BitVec 8)) (h : ℕ) : Bool := (bits.getD (h / 8) 0 &&& mask h) != 0

/-- The array keeps its length. -/
theorem length_foldl_setBit (hs : List ℕ) (bits : List (BitVec 8)) :
    (hs.foldl setBit bits).length = bits.length := by
  induction hs generalizing bits with
  | nil => rfl
  | cons h hs ih => rw [foldl_cons, ih, setBit, length_modify]

/-- `add`. -/
def add (f : BloomFilter) (val : String) : BloomFilter :=
  { f with
    bits := (getHashes f.size f.hashCount val).foldl setBit f.bits
    length_bits := (length_foldl_setBit _ _).trans f.length_bits }

/-- `has`. -/
def has (f : BloomFilter) (val : String) : Bool :=
  (getHashes f.size f.hashCount val).all (testBit f.bits)

/-! ### Bits -/

theorem testBit_iff (bits : List (BitVec 8)) (h : ℕ) :
    testBit bits h = true ↔ (bits.getD (h / 8) 0).getLsbD (h % 8) = true := by
  have hbyte : ∀ byte : BitVec 8, ∀ k < 8, (byte &&& 1#8 <<< k != 0) = byte.getLsbD k := by
    decide +kernel
  rw [testBit, mask, hbyte _ _ (Nat.mod_lt h (by decide))]

/-- The mask sets one bit of a byte. -/
theorem getLsbD_or_mask (byte : BitVec 8) (h k : ℕ) (hk : k < 8) :
    (byte ||| mask h).getLsbD k = (byte.getLsbD k || k = h % 8) := by
  have hmask : ∀ j < 8, ∀ k < 8, (1#8 <<< j).getLsbD k = decide (k = j) := by decide
  rw [BitVec.getLsbD_or, mask, hmask _ (Nat.mod_lt h (by decide)) k hk]

/-- Setting a bit sets no other. -/
theorem testBit_setBit {bits : List (BitVec 8)} {g h : ℕ} (hg : g / 8 < bits.length) :
    testBit (setBit bits g) h = true ↔ testBit bits h = true ∨ h = g := by
  rw [testBit_iff, testBit_iff, setBit]
  by_cases hbyte : g / 8 = h / 8
  · rw [hbyte] at hg
    have hsame : h % 8 = g % 8 ↔ h = g := by omega
    simp [hbyte, hg, getLsbD_or_mask _ _ _ (Nat.mod_lt h (by decide : 0 < 8)), hsame]
  · have hne : h ≠ g := fun heq ↦ hbyte (congrArg (· / 8) heq.symm)
    simp [hbyte, hne]

/-- Setting several bits sets no other. -/
theorem testBit_foldl_setBit {h : ℕ} :
    ∀ {hs : List ℕ} {bits : List (BitVec 8)}, (∀ g ∈ hs, g / 8 < bits.length) →
      (testBit (hs.foldl setBit bits) h = true ↔ testBit bits h = true ∨ h ∈ hs)
  | [], bits, _ => by simp
  | g :: hs, bits, hlt => by
    obtain ⟨hg, hhs⟩ := forall_mem_cons.1 hlt
    have hlen : (setBit bits g).length = bits.length := length_modify ..
    rw [foldl_cons, testBit_foldl_setBit (fun g' hg' ↦ hlen ▸ hhs g' hg'),
      testBit_setBit hg, mem_cons, or_assoc]

/-! ### Positions -/

/-- The bits that are set. -/
def positions (f : BloomFilter) : Finset ℕ := (Finset.range f.size).filter fun h ↦ testBit f.bits h

/-- Hashes are below the size. -/
theorem lt_of_mem_getHashes {size hashCount h : ℕ} {val : String} (hsize : 0 < size)
    (hmem : h ∈ getHashes size hashCount val) : h < size := by
  obtain ⟨i, -, rfl⟩ := List.mem_map.1 hmem
  exact Nat.mod_lt _ hsize

variable {f : BloomFilter} {val : String}

/-- `has` looks for all positions of a value. -/
theorem has_iff : f.has val = true ↔ Bloom.Has (getHashes f.size f.hashCount) f.positions val := by
  rw [has, List.all_eq_true]
  refine forall₂_congr fun h hmem ↦ ?_
  rw [positions, Finset.mem_filter, Finset.mem_range]
  exact (and_iff_right (lt_of_mem_getHashes f.size_pos hmem)).symm

/-- `add` sets all positions of a value. -/
theorem positions_add :
    (f.add val).positions = Bloom.add (getHashes f.size f.hashCount) f.positions val := by
  have hlt : ∀ g ∈ getHashes f.size f.hashCount val, g / 8 < f.bits.length := by
    intro g hg
    have := lt_of_mem_getHashes f.size_pos hg
    rw [f.length_bits]
    omega
  ext h
  simp only [positions, Bloom.add, Finset.mem_filter, Finset.mem_union, List.mem_toFinset,
    Finset.mem_range]
  show h < f.size ∧ testBit ((getHashes f.size f.hashCount val).foldl setBit f.bits) h = true ↔ _
  rw [testBit_foldl_setBit hlt, and_or_left]
  exact or_congr_right (and_iff_right_of_imp (lt_of_mem_getHashes f.size_pos))

/-- A new filter is empty. -/
theorem positions_new (size hashCount : ℕ) (hsize : 0 < size) :
    (new size hashCount hsize).positions = ∅ := by
  refine Finset.filter_eq_empty_iff.2 fun h _ ↦ ?_
  have hzero : (List.replicate ((size + 7) / 8) (0 : BitVec 8)).getD (h / 8) 0 = 0 := by
    rw [getD_eq_getElem?_getD, getElem?_replicate]
    split <;> rfl
  rw [new, testBit_iff, hzero]
  simp

end BloomFilter

end Core
