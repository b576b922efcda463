import CounterTerrorist.Core.MerkleTree
import Mathlib.Data.List.Iterate
import Mathlib.Logic.Function.Basic

/-!
# What a Merkle root fixes

Hashes are ideal here: different pairs have different hashes, and no hash is the empty string. Then
climbing a proof can be undone. From one end point, one index and one length there is only one way
down (`climb_inj`), and since the honest proofs climb to the root (`exists_top`), two facts follow.

* Two lists of the same length with the same root are equal (`eq_of_getRoot_eq`).
* A proof of the length that honest proofs have, for an index of the tree, is accepted only with the
  leaf at that index (`getElem?_of_verify`).

## What `verify` does not know

`verify` is not told how many leaves there are. It takes a proof of any length, so it cannot tell a
leaf from a node further up or from what a leaf was hashed from; and of an index it looks at as many
bits as the proof is long, so indices beyond the last leaf are accepted as well, and so are numbers
that are no index: the way of `-1` or `0.5` is that of `0`. The second fact needs both conditions:
for every other length and number there is a tree and a proof against it (`verify_sound_iff`).
-/

namespace Core.MerkleTree

open List Function

variable {hashPair : String → String → String}

/-! ### The way down is unique -/

variable {x : String} {leaves : List String} {n : ℕ}

variable {i : ℕ} {leaf : String} {index : JsNum}

theorem climb_inj (hinj : Injective2 hashPair) {y : String} {p q : List String}
    (hlen : p.length = q.length) (h : climb hashPair x index p = climb hashPair y index q) :
    x = y ∧ p = q := by
  induction p generalizing x y index q with
  | nil =>
    obtain rfl : q = [] := eq_nil_of_length_eq_zero hlen.symm
    exact ⟨h, rfl⟩
  | cons a p ih =>
    obtain ⟨b, q, rfl⟩ := exists_cons_of_length_eq_add_one hlen.symm
    obtain ⟨hnode, rfl⟩ := ih (Nat.succ.inj hlen) h
    split at hnode
    · obtain ⟨rfl, rfl⟩ := hinj hnode
      exact ⟨rfl, rfl⟩
    · obtain ⟨rfl, rfl⟩ := hinj hnode
      exact ⟨rfl, rfl⟩

/-- The root of a tree of hashes is the node that every honest proof leads to. -/
theorem climb_getProof (hpair : ∀ a b, hashPair a b ≠ "") (hleaves : "" ∉ leaves)
    (hleaf : leaves[i]? = some leaf) :
    climb hashPair leaf (.nat i) (getProof hashPair leaves i) = getRoot hashPair leaves := by
  have hne : leaf ≠ "" := fun h ↦ hleaves (h ▸ mem_of_getElem? hleaf)
  exact beq_iff_eq.1 (verify_getProof hpair hleaf hne)

/-- **The root fixes the leaves, if their number is known.** -/
theorem eq_of_getRoot_eq (hinj : Injective2 hashPair) (hpair : ∀ a b, hashPair a b ≠ "")
    {xs ys : List String} (hxs : "" ∉ xs) (hys : "" ∉ ys) (hlen : xs.length = ys.length)
    (hroot : getRoot hashPair xs = getRoot hashPair ys) : xs = ys := by
  refine ext_getElem hlen fun i hx hy ↦ ?_
  have hnil {zs : List String} (hz : i < zs.length) : zs ≠ [] := ne_nil_of_length_pos (by omega)
  have hproofs : (getProof hashPair xs i).length = (getProof hashPair ys i).length := by
    rw [length_getProof hashPair (hnil hx), length_getProof hashPair (hnil hy), hlen]
  have hclimb : climb hashPair xs[i] (.nat i) (getProof hashPair xs i) =
      climb hashPair ys[i] (.nat i) (getProof hashPair ys i) := by
    rw [climb_getProof hpair hxs (getElem?_eq_getElem hx), hroot,
      climb_getProof hpair hys (getElem?_eq_getElem hy)]
  exact (climb_inj hinj hproofs hclimb).1

/-- **A proof of the right length is sound**, for an index below the number of leaves. -/
theorem getElem?_of_verify (hinj : Injective2 hashPair) (hpair : ∀ a b, hashPair a b ≠ "")
    (hleaves : "" ∉ leaves) {proof : List String} (hidx : i < leaves.length)
    (hproof : proof.length = Nat.clog 2 leaves.length)
    (h : verify hashPair (getRoot hashPair leaves) leaf (.nat i) proof = true) :
    leaves[i]? = some leaf := by
  have hnil : leaves ≠ [] := ne_nil_of_length_pos (by omega)
  have hhonest := climb_getProof hpair hleaves (getElem?_eq_getElem hidx)
  have hsame : climb hashPair leaf (.nat i) proof =
      climb hashPair leaves[i] (.nat i) (getProof hashPair leaves i) :=
    (beq_iff_eq.1 h).trans hhonest.symm
  have hlen : proof.length = (getProof hashPair leaves i).length :=
    hproof.trans (length_getProof hashPair hnil i).symm
  rw [getElem?_eq_getElem hidx, (climb_inj hinj hlen hsame).1]

/-! ### Trees with equal leaves -/

variable (hashPair) in
/-- The node over two equal nodes. -/
def twin (x : String) : String := hashPair x x

theorem nextLevel_replicate (n : ℕ) (x : String) :
    nextLevel hashPair (List.replicate n x) = List.replicate ((n + 1) / 2) (twin hashPair x) := by
  match n with
  | 0 => rfl
  | 1 => rfl
  | n + 2 =>
    have hhalf : (n + 2 + 1) / 2 = (n + 1) / 2 + 1 := by omega
    rw [hhalf, replicate_succ, replicate_succ, replicate_succ, nextLevel, nextLevel_replicate n]
    rfl

theorem getLast?_levels_replicate (rounds : ℕ) (hpos : 0 < n) (hn : n ≤ rounds + 1) (x : String) :
    (levels hashPair rounds (List.replicate n x)).getLast? =
      some [(twin hashPair)^[Nat.clog 2 n] x] := by
  induction rounds generalizing n x with
  | zero =>
    obtain rfl : n = 1 := by omega
    rfl
  | succ rounds ih =>
    rw [levels, length_replicate]
    split
    case isTrue hone =>
      obtain rfl : n = 1 := by omega
      rfl
    case isFalse hmany =>
      have hlast := ih (n := (n + 1) / 2) (by omega) (by omega) (twin hashPair x)
      rw [nextLevel_replicate, getLast?_cons, hlast,
        Nat.clog_of_two_le Nat.one_lt_two (by omega : 2 ≤ n)]
      rfl

theorem iterate_twin_ne_empty (hpair : ∀ a b, hashPair a b ≠ "") (hx : x ≠ "") (k : ℕ) :
    (twin hashPair)^[k] x ≠ "" := by
  cases k with
  | zero => exact hx
  | succ k =>
    rw [iterate_succ_apply']
    exact hpair _ _

/-- The root over `n` equal leaves. -/
theorem getRoot_replicate (hpair : ∀ a b, hashPair a b ≠ "") (hpos : 0 < n) (hx : x ≠ "") :
    getRoot hashPair (List.replicate n x) = (twin hashPair)^[Nat.clog 2 n] x := by
  have hnil : List.replicate n x ≠ [] := ne_nil_of_length_pos (by simpa using hpos)
  have htop : (buildTree hashPair (List.replicate n x)).getLast? =
      some [(twin hashPair)^[Nat.clog 2 n] x] := by
    rw [buildTree, if_neg hnil, length_replicate]
    exact getLast?_levels_replicate n hpos (Nat.le_succ n) x
  rw [getRoot_eq htop, if_neg (iterate_twin_ne_empty hpair hx _)]

/-- Among equal nodes the way up is the same for every number. -/
theorem climb_iterate (x : String) (index : JsNum) (l : ℕ) :
    climb hashPair x index (List.iterate (twin hashPair) x l) = (twin hashPair)^[l] x := by
  induction l generalizing x index with
  | zero => rfl
  | succ l ih =>
    rw [List.iterate, climb, ite_self]
    exact ih (twin hashPair x) index.half

/-- Over equal leaves a proof of any length is accepted, for any number: a short one from a node
further up, a long one from what the leaves were hashed from. -/
theorem verify_iterate (hpair : ∀ a b, hashPair a b ≠ "") (hpos : 0 < n) (hx : x ≠ "")
    (index : JsNum) (length : ℕ) :
    verify hashPair
      (getRoot hashPair (List.replicate n ((twin hashPair)^[length - Nat.clog 2 n] x)))
      ((twin hashPair)^[Nat.clog 2 n - length] x) index
      (List.iterate (twin hashPair) ((twin hashPair)^[Nat.clog 2 n - length] x) length) = true := by
  have hheight : length + (Nat.clog 2 n - length) = Nat.clog 2 n + (length - Nat.clog 2 n) := by
    omega
  rw [verify, beq_iff_eq, climb_iterate, getRoot_replicate hpair hpos
    (iterate_twin_ne_empty hpair hx _), ← iterate_add_apply, hheight,
    iterate_add_apply]

/-- A pair of different nodes is over no two equal ones, however high. -/
theorem eq_zero_of_iterate_twin (hinj : Injective2 hashPair) {a b : String} (hab : a ≠ b)
    {k : ℕ} (h : (twin hashPair)^[k] (hashPair a b) = hashPair a b) : k = 0 := by
  cases k with
  | zero => rfl
  | succ k =>
    rw [iterate_succ_apply'] at h
    obtain ⟨ha, hb⟩ := hinj h
    exact absurd (ha.symm.trans hb) hab

/-! ### When an accepted proof says something -/

/-- **`verify` is sound for one length of proofs, and for the indices of the tree.** Given the
number of leaves, a number for the index and the length of a proof, no wrong leaf is accepted
exactly if the number is a natural one below the number of leaves and the length is the height of
the tree. -/
theorem verify_sound_iff (hinj : Function.Injective2 hashPair) (hpair : ∀ a b, hashPair a b ≠ "")
    {n : ℕ} (hn : 1 ≤ n) (index : JsNum) (length : ℕ) :
    (∀ leaves leaf proof, leaves.length = n → "" ∉ leaves → proof.length = length →
      verify hashPair (getRoot hashPair leaves) leaf index proof = true →
      ∃ i, index = .nat i ∧ i < n ∧ leaves[i]? = some leaf) ↔
      (∃ i, index = .nat i ∧ i < n) ∧ length = Nat.clog 2 n := by
  constructor
  · intro hsound
    -- equal leaves, and the given number of levels between the leaf that is presented and the root
    let x := hashPair "0" "1"
    have hx : x ≠ "" := hpair _ _
    obtain ⟨i, hnat, hlt, hleaf⟩ := hsound _ _ _ length_replicate
      (fun h ↦ iterate_twin_ne_empty hpair hx _ (eq_of_mem_replicate h).symm)
      (length_iterate _ _ _) (verify_iterate hpair hn hx index length)
    rw [getElem?_replicate, if_pos hlt] at hleaf
    have hsame : (twin hashPair)^[length - Nat.clog 2 n] x =
        (twin hashPair)^[Nat.clog 2 n - length] x := Option.some.inj hleaf
    refine ⟨⟨i, hnat, hlt⟩, ?_⟩
    rcases Nat.le_total length (Nat.clog 2 n) with hle | hle
    · rw [Nat.sub_eq_zero_of_le hle] at hsame
      have hzero := eq_zero_of_iterate_twin hinj (by decide) hsame.symm
      omega
    · rw [Nat.sub_eq_zero_of_le hle] at hsame
      have hzero := eq_zero_of_iterate_twin hinj (by decide) hsame
      omega
  · rintro ⟨⟨i, rfl, hlt⟩, rfl⟩ leaves leaf proof rfl hleaves hproof hverify
    exact ⟨i, rfl, hlt, getElem?_of_verify hinj hpair hleaves hlt hproof hverify⟩

/-! ### An ideal hash -/

/-- A pair as a text from which it can be read back: the length of the first part in unary, a stop,
and the two parts. -/
def framed (a b : String) : String :=
  .ofList (List.replicate a.toList.length '1' ++ '0' :: (a.toList ++ b.toList))

theorem framed_ne_empty (a b : String) : framed a b ≠ "" := by
  intro h
  have := congrArg String.toList h
  simp [framed] at this

theorem replicate_append_inj {m : ℕ} {xs ys : List Char}
    (h : List.replicate m '1' ++ '0' :: xs = List.replicate n '1' ++ '0' :: ys) :
    m = n ∧ xs = ys := by
  induction m generalizing n with
  | zero =>
    cases n with
    | zero => exact ⟨rfl, (List.cons.inj h).2⟩
    | succ n => exact absurd (List.cons.inj h).1 (by decide)
  | succ m ih =>
    cases n with
    | zero => exact absurd (List.cons.inj h).1 (by decide)
    | succ n =>
      obtain ⟨rfl, rfl⟩ := ih (List.cons.inj h).2
      exact ⟨rfl, rfl⟩

theorem framed_injective : Injective2 framed := by
  intro a a' b b' h
  have hchars := congrArg String.toList h
  simp only [framed, String.toList_ofList] at hchars
  obtain ⟨hlen, hparts⟩ := replicate_append_inj hchars
  obtain ⟨ha, hb⟩ := append_inj hparts hlen
  exact ⟨String.toList_inj.1 ha, String.toList_inj.1 hb⟩

/-- For five leaves proofs of length three are sound, for the indices up to four. -/
theorem verify_sound_iff_five :
    (∀ leaves leaf proof, leaves.length = 5 → "" ∉ leaves → proof.length = 3 →
      verify framed (getRoot framed leaves) leaf (.nat 4) proof = true →
      ∃ i, JsNum.nat 4 = .nat i ∧ i < 5 ∧ leaves[i]? = some leaf) ↔
      (∃ i, JsNum.nat 4 = .nat i ∧ i < 5) ∧ 3 = Nat.clog 2 5 :=
  verify_sound_iff framed_injective framed_ne_empty (by decide) (.nat 4) 3

/-- Of the tree over three leaves, an inner node passes as the leaf at index 0, the last leaf as one
at index 3, where there is none, and the first one as the leaf at index -1. -/
theorem inner_node_accepted :
    Function.Injective2 framed ∧
      verify framed (getRoot framed ["a", "b", "c"]) (framed "a" "b") (.nat 0)
        [framed "c" "c"] = true ∧
      ["a", "b", "c"][0]? ≠ some (framed "a" "b") ∧
      verify framed (getRoot framed ["a", "b", "c"]) "c" (.nat 3) ["c", framed "a" "b"] = true ∧
      verify framed (getRoot framed ["a", "b", "c"]) "a" (.fin (-1))
        ["b", framed "c" "c"] = true ∧
      ["a", "b", "c"].length = 3 :=
  ⟨framed_injective, by decide, by decide, by decide, by decide, rfl⟩

end Core.MerkleTree
