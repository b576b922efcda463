import CounterTerrorist.Core.JsNumber
import Mathlib.Data.List.Basic
import Mathlib.Data.Nat.Log

/-!
# Merkle trees, built in one go

`MerkleTree` as its constructor builds it: the levels from the leaves up to the root. The hash of a
pair is a parameter.

The source builds levels while the current one has more than one node. A level of `n > 1` nodes is
followed by one of `⌈n / 2⌉ < n`, so `n` rounds are enough, and the recursion below is on their
number.

## Proofs of inclusion

`getProof` collects the sibling at every level on the way up, and `verify` hashes its way along such
a list. It can come from a peer, and so can the index, which is any number then. Every proof that is
made is accepted (`verify_getProof`): the node that `verify` has reached
is the node of the level above at half the index (`getElem?_nextLevel`). The one exception is a tree
with the empty string at its top, whose root is reported as `EMPTY` (`verify_getProof_iff`).
-/

namespace Core.MerkleTree

open List Option

/-- The next level: neighbours are hashed together, a last node without a neighbour with itself. -/
def nextLevel (hashPair : String → String → String) : List String → List String
  | [] => []
  | [a] => [hashPair a a]
  | a :: b :: rest => hashPair a b :: nextLevel hashPair rest

/-- The levels from the given one up, in at most `rounds` further steps. -/
def levels (hashPair : String → String → String) : ℕ → List String → List (List String)
  | 0, level => [level]
  | rounds + 1, level =>
    if level.length ≤ 1 then [level]
    else level :: levels hashPair rounds (nextLevel hashPair level)

/-- `buildTree`: all levels, leaves first. -/
def buildTree (hashPair : String → String → String) (leaves : List String) : List (List String) :=
  if leaves = [] then [["EMPTY"]] else levels hashPair leaves.length leaves

/-- `getRoot`: the single node of the last level. -/
def getRoot (hashPair : String → String → String) (leaves : List String) : String :=
  match (buildTree hashPair leaves).getLast?.bind List.head? with
  | some root => if root = "" then "EMPTY" else root
  | none => "EMPTY"

/-- What `getProof` takes from one level: the neighbour, or the node itself if it has none. -/
def siblingAt (level : List String) (index : ℕ) : String :=
  let siblingIndex := if index % 2 = 1 then index - 1 else index + 1
  if siblingIndex < level.length then level.getD siblingIndex "" else level.getD index ""

/-- The loop of `getProof`, over all levels but the last. -/
def proofLoop : List (List String) → ℕ → List String
  | level :: next :: rest, index => siblingAt level index :: proofLoop (next :: rest) (index / 2)
  | _, _ => []

/-- `getProof`. -/
def getProof (hashPair : String → String → String) (leaves : List String) (index : ℕ) :
    List String :=
  proofLoop (buildTree hashPair leaves) index

/-- The loop of `verify`: the node that is reached. -/
def climb (hashPair : String → String → String) : String → JsNum → List String → String
  | currentHash, _, [] => currentHash
  | currentHash, index, sibling :: proof =>
    climb hashPair
      (if index.isOdd then hashPair sibling currentHash else hashPair currentHash sibling)
      index.half proof

/-- `verify`. -/
def verify (hashPair : String → String → String) (root leaf : String) (index : JsNum)
    (proof : List String) : Bool :=
  climb hashPair leaf index proof == root

/-! ### Proofs are accepted -/

variable {hashPair : String → String → String}

theorem length_nextLevel (level : List String) :
    (nextLevel hashPair level).length = (level.length + 1) / 2 := by
  induction level using nextLevel.induct with
  | case1 => rfl
  | case2 a => simp [nextLevel]
  | case3 a b rest ih =>
    simp only [nextLevel, length_cons]
    omega

variable {i : ℕ} {x leaf : String} {level leaves : List String}

/-- The parent of a node is made of the node and its sibling. -/
theorem getElem?_nextLevel (level : List String) (hx : level[i]? = some x) :
    (nextLevel hashPair level)[i / 2]? = some (if i % 2 = 1 then hashPair (siblingAt level i) x
        else hashPair x (siblingAt level i)) := by
  induction level using nextLevel.induct generalizing i with
  | case1 => cases hx
  | case2 a =>
    obtain ⟨rfl, rfl⟩ : i = 0 ∧ a = x := by
      rcases i with - | i
      · exact ⟨rfl, some.inj hx⟩
      · cases hx
    rfl
  | case3 a b rest ih =>
    match i with
    | 0 =>
      obtain rfl : a = x := some.inj hx
      rfl
    | 1 =>
      obtain rfl : b = x := some.inj hx
      rfl
    | i + 2 =>
      have hhalf : (i + 2) / 2 = i / 2 + 1 := by omega
      have hparity : (i + 2) % 2 = i % 2 := by omega
      -- two nodes further on, everything is as in the rest of the level
      have hshift (j : ℕ) :
          (if j + 2 < (a :: b :: rest).length then (a :: b :: rest).getD (j + 2) ""
            else (a :: b :: rest).getD (i + 2) "") =
          if j < rest.length then rest.getD j "" else rest.getD i "" :=
        if_congr (by rw [length_cons, length_cons]; omega) rfl rfl
      have hsibling : siblingAt (a :: b :: rest) (i + 2) = siblingAt rest i := by
        simp only [siblingAt, hparity]
        by_cases hodd : i % 2 = 1
        · have hsub : i + 2 - 1 = (i - 1) + 2 := by omega
          rw [if_pos hodd, if_pos hodd, hsub]
          exact hshift (i - 1)
        · rw [if_neg hodd, if_neg hodd]
          exact hshift (i + 1)
      rw [hhalf, hparity, hsibling]
      exact ih hx

theorem eq_singleton (hlen : level.length ≤ 1) (hx : level[i]? = some x) : level = [x] := by
  match level, i with
  | [a], 0 => exact congrArg (fun a ↦ [a]) (some.inj hx)
  | [_], _ + 1 => cases hx
  | [], _ => cases hx
  | _ :: _ :: _, _ => simp at hlen

/-- With enough rounds the levels end in a single node, and the proof for a node leads there. -/
theorem climb_proofLoop (hashPair : String → String → String) (rounds : ℕ)
    (hlen : level.length ≤ rounds + 1) (hx : level[i]? = some x) :
    ∃ root, (levels hashPair rounds level).getLast? = some [root] ∧
      (root = x ∨ ∃ a b, root = hashPair a b) ∧
      climb hashPair x (.nat i) (proofLoop (levels hashPair rounds level) i) = root := by
  induction rounds generalizing level i x with
  | zero =>
    obtain rfl := eq_singleton hlen hx
    exact ⟨x, rfl, .inl rfl, rfl⟩
  | succ rounds ih =>
    by_cases hone : level.length ≤ 1
    · obtain rfl := eq_singleton hone hx
      exact ⟨x, rfl, .inl rfl, rfl⟩
    · have hnext : (nextLevel hashPair level).length ≤ rounds + 1 := by
        rw [length_nextLevel]
        omega
      have hlevels : levels hashPair (rounds + 1) level =
          level :: levels hashPair rounds (nextLevel hashPair level) := if_neg hone
      obtain ⟨root, hlast, hroot, hclimb⟩ := ih hnext (getElem?_nextLevel level hx)
      rcases hrest : levels hashPair rounds (nextLevel hashPair level) with - | ⟨above, rest⟩
      · rw [hrest] at hlast
        cases hlast
      · rw [hrest] at hlast hclimb
        rw [hlevels, hrest]
        refine ⟨root, by rw [getLast?_cons_cons, hlast], .inr ?_, ?_⟩
        · -- the parent is a pair, and so is everything above it
          rcases hroot with rfl | hpair
          · split <;> exact ⟨_, _, rfl⟩
          · exact hpair
        · simpa only [proofLoop, climb, JsNum.isOdd_nat, decide_eq_true_eq]

/-- The last level of a tree with leaves is a single node, and the proof for a leaf leads there. -/
theorem exists_top (hashPair : String → String → String) (hleaf : leaves[i]? = some leaf) :
    ∃ top, (buildTree hashPair leaves).getLast? = some [top] ∧
      (top = leaf ∨ ∃ a b, top = hashPair a b) ∧
      climb hashPair leaf (.nat i) (getProof hashPair leaves i) = top := by
  have hleaves : leaves ≠ [] := by
    rintro rfl
    cases hleaf
  rw [getProof, buildTree, if_neg hleaves]
  exact climb_proofLoop hashPair leaves.length (Nat.le_succ _) hleaf

theorem getRoot_eq {top : String} (htop : (buildTree hashPair leaves).getLast? = some [top]) :
    getRoot hashPair leaves = if top = "" then "EMPTY" else top := by
  simp only [getRoot, htop, bind_some, head?_cons]

/-- A proof that `getProof` makes is accepted against `getRoot`, except under an empty top node:
`getRoot` gives that another name. -/
theorem verify_getProof_iff (hashPair : String → String → String) (hleaf : leaves[i]? = some leaf) :
    verify hashPair (getRoot hashPair leaves) leaf (.nat i) (getProof hashPair leaves i) = true ↔
      (buildTree hashPair leaves).getLast? ≠ some [""] := by
  obtain ⟨top, htop, -, hclimb⟩ := exists_top hashPair hleaf
  rw [verify, hclimb, getRoot_eq htop, htop]
  split
  case isTrue hempty => simp [hempty]
  case isFalse hne => simpa using hne

/-- Every proof that `getProof` makes is accepted, if hashes are digests. An empty string is
none. -/
theorem verify_getProof (hpair : ∀ a b, hashPair a b ≠ "") (hleaf : leaves[i]? = some leaf)
    (hne : leaf ≠ "") :
    verify hashPair (getRoot hashPair leaves) leaf (.nat i) (getProof hashPair leaves i) =
      true := by
  refine (verify_getProof_iff hashPair hleaf).2 fun hempty ↦ ?_
  obtain ⟨top, htop, hcases, -⟩ := exists_top hashPair hleaf
  obtain rfl : top = "" := by simpa [htop] using hempty
  rcases hcases with heq | ⟨a, b, heq⟩
  · exact hne heq.symm
  · exact hpair a b heq.symm

/-! ### How high a tree is -/

theorem length_levels (hashPair : String → String → String) (rounds : ℕ)
    (hlen : level.length ≤ rounds + 1) :
    (levels hashPair rounds level).length = Nat.clog 2 level.length + 1 := by
  induction rounds generalizing level with
  | zero =>
    rw [Nat.clog_of_right_le_one hlen]
    rfl
  | succ rounds ih =>
    rw [levels]
    split
    case isTrue hone =>
      rw [Nat.clog_of_right_le_one hone]
      rfl
    case isFalse hmany =>
      have hnext : (nextLevel hashPair level).length ≤ rounds + 1 := by
        rw [length_nextLevel]
        omega
      have htwo : 2 ≤ level.length := by omega
      rw [length_cons, ih hnext, length_nextLevel, Nat.clog_of_two_le Nat.one_lt_two htwo]
      rfl

theorem length_proofLoop (tree : List (List String)) (i : ℕ) :
    (proofLoop tree i).length = tree.length - 1 := by
  induction tree, i using proofLoop.induct with
  | case1 level next rest index ih =>
    rw [proofLoop, length_cons, ih]
    simp only [length_cons]
    omega
  | case2 tree index hshort =>
    match tree, hshort with
    | [], _ => rfl
    | [_], _ => rfl
    | level :: next :: rest, hshort => exact absurd rfl (hshort level next rest)

/-- A proof has one element for each level above the leaves. -/
theorem length_getProof (hashPair : String → String → String) (hleaves : leaves ≠ []) (i : ℕ) :
    (getProof hashPair leaves i).length = Nat.clog 2 leaves.length := by
  rw [getProof, length_proofLoop, buildTree, if_neg hleaves,
    length_levels hashPair leaves.length (Nat.le_succ _), Nat.add_sub_cancel]

end Core.MerkleTree
