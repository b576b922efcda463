import Mathlib.Data.List.Basic
import Mathlib.Tactic.Common

/-!
# Rolling keys

A list is combined with a key that is repeated as often as needed: position `i` meets the key
element `i % key.length`. An empty key changes nothing.

## Loops that compute it

One goes through the positions and replaces them in place (`inPlace`). The other cuts off blocks of
a fixed width, treats each of them on its own, and leaves the rest to a loop of the first kind
(`blockwise`). The second is right because the schedule only depends on the position modulo the
length of the key, so that a list may be cut at every multiple of it (`combine_append`).

When the combining operation can be undone element by element, so can the whole
(`combine_combine`).
-/

namespace RollingKey

open List

variable {α β : Type*} (f : α → β → α)

/-- Every element, combined with the key element that its position meets. -/
def combine (key : List β) (data : List α) : List α :=
  data.mapIdx fun i a ↦ (key[i % key.length]?).elim a (f a)

/-- A loop over all positions that replaces each element in place. -/
def inPlace (g : ℕ → α → α) (data : List α) : List α :=
  (List.range data.length).foldl (fun current i ↦ current.modify i (g i)) data

/-- A loop over `n` blocks of `width` elements, with a treatment of its own for the remainder. -/
def blockwise (width : ℕ) (block remainder : List α → List α) : ℕ → List α → List α
  | 0, rest => remainder rest
  | n + 1, data =>
    block (data.take width) ++ blockwise width block remainder n (data.drop width)

variable {f} {key : List β}

@[simp] theorem length_combine (data : List α) : (combine f key data).length = data.length :=
  length_mapIdx

theorem getElem?_combine (data : List α) (i : ℕ) :
    (combine f key data)[i]? = data[i]?.map fun a ↦ (key[i % key.length]?).elim a (f a) :=
  getElem?_mapIdx

/-- With a key, every position meets an element of it. -/
theorem getElem?_combine_of_ne_nil (hkey : key ≠ []) (data : List α) (i : ℕ) :
    (combine f key data)[i]? = data[i]?.map fun a ↦
      f a (key.get ⟨i % key.length, Nat.mod_lt _ (length_pos_iff.2 hkey)⟩) := by
  have hlt : i % key.length < key.length := Nat.mod_lt _ (length_pos_iff.2 hkey)
  rw [getElem?_combine, getElem?_eq_getElem hlt]
  rfl

@[simp] theorem combine_nil_key (data : List α) : combine f [] data = data := by
  refine ext_getElem? fun i ↦ ?_
  rw [getElem?_combine]
  cases data[i]? <;> rfl

/-- Combining twice with the same key gives the list back. -/
theorem combine_combine (hf : ∀ a b, f (f a b) b = a) (data : List α) :
    combine f key (combine f key data) = data := by
  refine ext_getElem? fun i ↦ ?_
  rw [getElem?_combine, getElem?_combine]
  rcases data[i]? with - | a
  · rfl
  · rcases key[i % key.length]? with - | b
    · rfl
    · exact congrArg some (hf a b)

/-- A list can be cut at a multiple of the length of the key. -/
theorem combine_append {xs ys : List α} (hdvd : key.length ∣ xs.length) :
    combine f key (xs ++ ys) = combine f key xs ++ combine f key ys := by
  refine ext_getElem? fun i ↦ ?_
  rcases Nat.lt_or_ge i xs.length with hlt | hge
  · rw [getElem?_combine, getElem?_append_left hlt,
      getElem?_append_left (by simpa using hlt), getElem?_combine]
  · have hmod : (i - xs.length) % key.length = i % key.length := by
      obtain ⟨q, hq⟩ := hdvd
      obtain ⟨j, rfl⟩ := Nat.exists_eq_add_of_le hge
      rw [Nat.add_sub_cancel_left, hq, Nat.add_comm, Nat.add_mul_mod_self_left]
    rw [getElem?_combine, getElem?_append_right hge,
      getElem?_append_right (by simpa using hge), getElem?_combine, length_combine, hmod]

/-- A block as long as the key meets each element of the key once. -/
theorem combine_block {block : List α} (hlen : block.length = key.length) :
    combine f key block = List.zipWith f block key := by
  refine ext_getElem? fun i ↦ ?_
  rw [getElem?_combine, getElem?_zipWith]
  rcases Nat.lt_or_ge i key.length with hlt | hge
  · rw [Nat.mod_eq_of_lt hlt, getElem?_eq_getElem hlt,
      getElem?_eq_getElem (show i < block.length by omega)]
    rfl
  · rw [getElem?_eq_none (show block.length ≤ i by omega)]
    rfl

/-! ### The loops -/

theorem foldl_modify_range (g : ℕ → α → α) (data : List α) (n : ℕ) :
    (List.range n).foldl (fun current i ↦ current.modify i (g i)) data =
      data.mapIdx fun i a ↦ if i < n then g i a else a := by
  induction n with
  | zero => exact (mapIdx_eq_iff.2 fun i ↦ by simp).symm
  | succ n ih =>
    rw [range_succ, foldl_append, ih]
    refine ext_getElem? fun i ↦ ?_
    simp only [foldl_cons, foldl_nil, getElem?_modify, getElem?_mapIdx]
    rcases data[i]? with - | a
    · rfl
    -- only position `n` is new, and it has not been replaced before
    · rcases Nat.lt_trichotomy i n with hlt | rfl | hgt
      · simp [hlt, Nat.lt_succ_of_lt hlt, Nat.ne_of_gt hlt]
      · simp
      · simp [Nat.ne_of_lt hgt, Nat.not_lt_of_gt hgt, show ¬i < n + 1 by omega]

/-- The loop in place visits every position once. -/
theorem inPlace_eq_mapIdx (g : ℕ → α → α) (data : List α) : inPlace g data = data.mapIdx g := by
  rw [inPlace, foldl_modify_range]
  refine ext_getElem? fun i ↦ ?_
  rw [getElem?_mapIdx, getElem?_mapIdx]
  rcases Nat.lt_or_ge i data.length with hlt | hge
  · simp [hlt]
  · rw [getElem?_eq_none hge, Option.map_none, Option.map_none]

/-- Going through a list block by block. -/
theorem blockwise_eq_combine {width : ℕ} {block remainder : List α → List α}
    (hwidth : key.length ∣ width)
    (hblock : ∀ xs : List α, xs.length = width → block xs = combine f key xs)
    (hremainder : ∀ xs, remainder xs = combine f key xs) {n : ℕ} {data : List α}
    (hn : n * width ≤ data.length) :
    blockwise width block remainder n data = combine f key data := by
  induction n generalizing data with
  | zero => exact hremainder data
  | succ n ih =>
    rw [Nat.succ_mul] at hn
    have hfirst : (data.take width).length = width := by
      rw [length_take]
      omega
    have hrest : n * width ≤ (data.drop width).length := by
      rw [length_drop]
      omega
    calc blockwise width block remainder (n + 1) data
        = block (data.take width) ++ blockwise width block remainder n (data.drop width) := rfl
      _ = combine f key (data.take width) ++ combine f key (data.drop width) := by
          rw [ih hrest, hblock _ hfirst]
      _ = combine f key (data.take width ++ data.drop width) :=
          (combine_append (hfirst.symm ▸ hwidth)).symm
      _ = combine f key data := by rw [take_append_drop]

end RollingKey
