import CounterTerrorist.Core.MerkleTree
import CounterTerrorist.Foundations.Run

/-!
# Merkle trees that grow

`addLeaf` puts a leaf at the end of a tree and repairs only the path from it to the root, where the
constructor builds all levels from the leaves. The two agree after every leaf (`addLeaves_eq`).

## The path that is repaired

Let `level` be a level of the old tree and `i` the place on it that the path goes through. Then `i`
is the last place of the level, or the place right after it, and the level of the new tree is
`level.take i ++ [currentHash]`: the places before `i` are as they were, and there is none after it.
One step up, at place `i / 2`, this is so again (`nextLevel_take_append`).

So a read or a write beyond the end of a level is `none` here, and never happens.
-/

namespace Core

open List Machine Option

/-- A `MerkleTree` object, initialised. -/
structure MerkleTree where
  leaves : List String
  tree : List (List String)
deriving Repr, DecidableEq

namespace MerkleTree

variable (hashPair : String → String → String)

/-- The constructor. -/
def new (leaves : List String) : MerkleTree := ⟨leaves, buildTree hashPair leaves⟩

/-- `getRoot` of an object. -/
def root (t : MerkleTree) : String :=
  match t.tree.getLast?.bind List.head? with
  | some root => if root = "" then "EMPTY" else root
  | none => "EMPTY"

/-- `level[i] = hash`. An assignment right after the end makes the array longer; one beyond that
would leave a hole. -/
def assign (level : List String) (i : ℕ) (hash : String) : Option (List String) :=
  if i < level.length then some (level.set i hash)
  else if i = level.length then some (level ++ [hash])
  else none

/-- The loop of `addLeaf`, from a level that has `currentHash` at `currentIndex` already, and with
the levels above it. While the loop goes on there is a next level, so that its branch for a missing
one is never taken. -/
def addLoop (level : List String) : List (List String) → ℕ → String → Option (List (List String))
  | [], _, _ => some [level]
  | next :: above, currentIndex, currentHash => do
    let left ← (if currentIndex % 2 = 1 then level[currentIndex - 1]? else some currentHash)
    let right := if currentIndex % 2 = 1 then currentHash else left
    let hash := hashPair left right
    let next ← assign next (currentIndex / 2) hash
    return level :: (← addLoop next above (currentIndex / 2) hash)

/-- The end of `addLeaf`: a last level with more than one node gets a root. -/
def addRoot (tree : List (List String)) : List (List String) :=
  match tree.getLast? with
  | some (left :: right :: _) => tree ++ [[hashPair left right]]
  | _ => tree

/-- `addLeaf`: the new state of the object, and what the call returns. -/
def addLeaf (t : MerkleTree) (leaf : String) : Option (MerkleTree × String) :=
  let leaves := t.leaves ++ [leaf]
  match t.tree with
  | [] => some (⟨leaves, [[leaf]]⟩, leaf)
  | level :: above =>
    if level.head? = some "EMPTY" then some (⟨leaves, [[leaf]]⟩, leaf)
    else do
      let tree ← addLoop hashPair leaves above (leaves.length - 1) leaf
      let t' : MerkleTree := ⟨leaves, addRoot hashPair tree⟩
      return (t', t'.root)

/-- A call of `addLeaf` that is awaited, as a step. -/
def addStep (t : MerkleTree) (leaf : String) : Option MerkleTree :=
  (addLeaf hashPair t leaf).map Prod.fst

variable {hashPair}

/-! ### Levels side by side -/

/-- Behind an even number of nodes the pairs start anew. -/
theorem nextLevel_append {xs : List String} (heven : xs.length % 2 = 0) (ys : List String) :
    nextLevel hashPair (xs ++ ys) = nextLevel hashPair xs ++ nextLevel hashPair ys := by
  induction xs using nextLevel.induct with
  | case1 => rfl
  | case2 a => cases heven
  | case3 a b rest ih =>
    have hrest : rest.length % 2 = 0 := by
      simp only [length_cons] at heven
      omega
    show hashPair a b :: nextLevel hashPair (rest ++ ys) = _
    rw [ih hrest]
    rfl

variable {level leaves : List String} {i : ℕ} {c : String}

/-- The nodes over the first places of a level. -/
theorem nextLevel_take {q : ℕ} (hq : 2 * q ≤ level.length) :
    nextLevel hashPair (level.take (2 * q)) = (nextLevel hashPair level).take q := by
  have hlen : (level.take (2 * q)).length = 2 * q := length_take_of_le hq
  have hnext : (nextLevel hashPair (level.take (2 * q))).length = q := by
    rw [length_nextLevel]
    omega
  have hsplit : nextLevel hashPair level = nextLevel hashPair (level.take (2 * q)) ++
      nextLevel hashPair (level.drop (2 * q)) := by
    rw [← nextLevel_append (by rw [hlen]; omega), take_append_drop]
  rw [hsplit, take_append_of_le_length (Nat.le_of_eq hnext.symm),
    take_of_length_le (Nat.le_of_eq hnext)]

variable (hashPair) in
/-- The next level of a path: the node that the loop makes, behind the nodes that stay. -/
theorem nextLevel_take_append (hi : i ≤ level.length) {left : String}
    (hleft : (if i % 2 = 1 then level[i - 1]? else some c) = some left) :
    nextLevel hashPair (level.take i ++ [c]) = (nextLevel hashPair level).take (i / 2) ++
        [hashPair left (if i % 2 = 1 then c else left)] := by
  have hhalf : 2 * (i / 2) ≤ level.length := by omega
  have hstay : (level.take (2 * (i / 2))).length % 2 = 0 := by
    rw [length_take_of_le hhalf]
    omega
  rw [← nextLevel_take hhalf]
  split at hleft
  case isTrue hodd =>
    -- the new node is hashed with the one before it, and the pairs before that stay
    have hi' : i = 2 * (i / 2) + 1 := by omega
    have htake : level.take i = level.take (2 * (i / 2)) ++ [left] := by
      rw [hi', Nat.add_sub_cancel] at hleft
      rw [hi', take_add_one, hleft, ← hi']
      rfl
    rw [htake, append_assoc, nextLevel_append hstay, if_pos hodd]
    rfl
  case isFalse heven =>
    have hi' : i = 2 * (i / 2) := by omega
    obtain rfl : c = left := some.inj hleft
    rw [if_neg heven, ← hi', nextLevel_append (hi' ▸ hstay)]
    rfl

/-! ### One leaf -/

theorem assign_eq (hi : i = level.length ∨ i + 1 = level.length) (hash : String) :
    assign level i hash = some (level.take i ++ [hash]) := by
  rcases hi with rfl | hi
  · rw [assign, if_neg (Nat.lt_irrefl _), if_pos rfl, take_length]
  · rw [assign, if_pos (by omega), set_eq_take_append_cons_drop, if_pos (by omega),
      drop_of_length_le (by omega)]

theorem addRoot_cons (level : List String) {tree : List (List String)} (htree : tree ≠ []) :
    addRoot hashPair (level :: tree) = level :: addRoot hashPair tree := by
  obtain ⟨next, above, rfl⟩ := exists_cons_of_ne_nil htree
  rw [addRoot, addRoot, getLast?_cons_cons]
  split <;> rfl

theorem levels_eq_cons (rounds : ℕ) (level : List String) :
    levels hashPair rounds level = level :: (levels hashPair rounds level).tail := by
  cases rounds with
  | zero => rfl
  | succ rounds =>
    rw [levels]
    split <;> rfl

/-- A level without another one above it is the root, or gets one. -/
theorem addRoot_singleton (hlen : level.length ≤ 2) (rounds : ℕ) :
    addRoot hashPair [level] = levels hashPair (rounds + 1) level := by
  match level with
  | [] => rfl
  | [_] => rfl
  | [a, b] =>
    show [[a, b], [hashPair a b]] = [a, b] :: levels hashPair rounds [hashPair a b]
    cases rounds <;> rfl
  | _ :: _ :: _ :: _ => simp at hlen

/-- The left neighbour that the loop reads is there, and is a node that stays. -/
theorem exists_left (hi : i ≤ level.length) :
    ∃ left, (if i % 2 = 1 then level[i - 1]? else some c) = some left ∧
      (if i % 2 = 1 then (level.take i ++ [c])[i - 1]? else some c) = some left := by
  split
  · next hodd =>
    have hlt : i - 1 < (level.take i).length := by
      rw [length_take_of_le hi]
      omega
    refine ⟨_, getElem?_eq_getElem (by omega : i - 1 < level.length), ?_⟩
    rw [getElem?_append_left hlt, getElem?_take_of_lt (by omega)]
    exact getElem?_eq_getElem _
  · exact ⟨c, rfl, rfl⟩

variable (hashPair) in
/-- **The repaired path is all that changes.** From a level of the old tree on, with the new node at
the place the path goes through, `addLeaf` makes the levels over that level. -/
theorem addLoop_levels (rounds : ℕ) (hlen : level.length ≤ rounds + 1) (hne : level ≠ [])
    (hi : i = level.length ∨ i + 1 = level.length) :
    ∃ tree, tree ≠ [] ∧
      addLoop hashPair (level.take i ++ [c]) (levels hashPair rounds level).tail i c = some tree ∧
      addRoot hashPair tree = levels hashPair (rounds + 1) (level.take i ++ [c]) := by
  have hpos : 0 < level.length := length_pos_iff.2 hne
  have hnew : (level.take i ++ [c]).length = i + 1 := by
    rw [length_append, length_take_of_le (by omega)]
    rfl
  induction rounds generalizing level i c with
  | zero =>
    refine ⟨[level.take i ++ [c]], cons_ne_nil _ _, rfl, ?_⟩
    exact addRoot_singleton (by omega) 0
  | succ rounds ih =>
    rcases Nat.lt_or_ge 1 level.length with hmany | hone
    · have hlevels : levels hashPair (rounds + 1) level =
          level :: levels hashPair rounds (nextLevel hashPair level) :=
        if_neg (Nat.not_le_of_lt hmany)
      have hup : (nextLevel hashPair level).length = (level.length + 1) / 2 :=
        length_nextLevel level
      obtain ⟨left, hleft, hread⟩ := exists_left (c := c) (by omega : i ≤ level.length)
      have hnext := nextLevel_take_append hashPair (by omega) hleft
      set hash := hashPair left (if i % 2 = 1 then c else left) with hhash
      have hi' : i / 2 = (nextLevel hashPair level).length ∨
          i / 2 + 1 = (nextLevel hashPair level).length := by omega
      obtain ⟨tree, htree, hloop, hroot⟩ := ih (i := i / 2) (c := hash)
        (by omega : (nextLevel hashPair level).length ≤ rounds + 1)
        (ne_nil_of_length_pos (by omega)) hi' (by omega)
        (by rw [length_append, length_take_of_le (by omega)]; rfl)
      refine ⟨(level.take i ++ [c]) :: tree, cons_ne_nil _ _, ?_, ?_⟩
      · rw [hlevels, tail_cons, levels_eq_cons, addLoop, hread]
        show (assign _ _ hash >>= fun next ↦ addLoop hashPair next _ _ hash >>= fun up ↦ _) = _
        rw [assign_eq hi']
        show (addLoop hashPair _ _ _ hash >>= fun up ↦ _) = _
        rw [hloop]
        rfl
      · rw [addRoot_cons _ htree, hroot, ← hnext]
        exact (if_neg (by omega : ¬(level.take i ++ [c]).length ≤ 1)).symm
    · have hlevels : levels hashPair (rounds + 1) level = [level] := if_pos hone
      refine ⟨[level.take i ++ [c]], cons_ne_nil _ _, by rw [hlevels]; rfl, ?_⟩
      exact addRoot_singleton (by omega) (rounds + 1)

/-- One call, on a tree that has leaves. -/
theorem addStep_new (hne : leaves ≠ []) (hfirst : leaves.head? ≠ some "EMPTY") (leaf : String) :
    addStep hashPair (new hashPair leaves) leaf = some (new hashPair (leaves ++ [leaf])) := by
  have htree : (new hashPair leaves).tree = leaves ::
      (levels hashPair leaves.length leaves).tail := by
    show buildTree hashPair leaves = _
    rw [buildTree, if_neg hne, ← levels_eq_cons]
  obtain ⟨tree, -, hloop, hroot⟩ := addLoop_levels hashPair (c := leaf) leaves.length
    (Nat.le_succ _) hne (.inl rfl)
  rw [take_length] at hloop hroot
  have hidx : (leaves ++ [leaf]).length - 1 = leaves.length := by simp
  have hbuild : buildTree hashPair (leaves ++ [leaf]) = addRoot hashPair tree := by
    rw [buildTree, if_neg (by simp), length_append, hroot]
    rfl
  rw [addStep, addLeaf, htree]
  show Option.map Prod.fst (if leaves.head? = some "EMPTY" then _ else _) = _
  rw [if_neg hfirst]
  show Option.map Prod.fst (addLoop hashPair (leaves ++ [leaf]) _ ((leaves ++ [leaf]).length - 1)
    leaf >>= fun tree ↦ _) = _
  rw [hidx, hloop, new.eq_def hashPair (leaves ++ [leaf]), hbuild]
  rfl

/-- The first call: the tree without leaves is replaced. -/
theorem addStep_new_nil (leaf : String) :
    addStep hashPair (new hashPair []) leaf = some (new hashPair [leaf]) := rfl

/-! ### All leaves -/

/-- Leaves are added one by one. -/
theorem run_addStep (hne : leaves ≠ []) (hfirst : leaves.head? ≠ some "EMPTY")
    (more : List String) :
    run (addStep hashPair) (new hashPair leaves) more = some (new hashPair (leaves ++ more)) := by
  induction more generalizing leaves with
  | nil => rw [append_nil]; rfl
  | cons leaf more ih =>
    have hhead : (leaves ++ [leaf]).head? = leaves.head? := by
      obtain ⟨first, rest, rfl⟩ := exists_cons_of_ne_nil hne
      rfl
    rw [run, addStep_new hne hfirst, bind_some, ih (by simp) (by rwa [hhead]), append_assoc]
    rfl

/-- **Adding leaves one by one is building the tree.** After each awaited call of `addLeaf` on an
empty tree the object has the levels and the root of a tree built from the leaves so far. -/
theorem addLeaves_eq (hashPair : String → String → String) {leaves : List String}
    (hleaves : ∀ leaf ∈ leaves, leaf ≠ "EMPTY") {sofar : List String} (hsofar : sofar <+: leaves)
    (hne : sofar ≠ []) :
    ∃ t, Machine.run (addStep hashPair) (new hashPair []) sofar = some t ∧
      t.tree = (new hashPair sofar).tree ∧ t.root = (new hashPair sofar).root := by
  obtain ⟨first, rest, rfl⟩ := exists_cons_of_ne_nil hne
  have hfirst : first ≠ "EMPTY" := hleaves first (hsofar.subset mem_cons_self)
  refine ⟨new hashPair (first :: rest), ?_, rfl, rfl⟩
  rw [run, addStep_new_nil, bind_some, run_addStep (by simp) (by simpa using hfirst)]
  rfl

/-- A pair in brackets, in place of its digest. -/
def bracket (a b : String) : String := "(" ++ a ++ b ++ ")"

theorem addLeaves_eq_three :
    ∃ t, Machine.run (addStep bracket) (new bracket []) ["a", "b", "c"] = some t ∧
      t.tree = [["a", "b", "c"], ["(ab)", "(cc)"], ["((ab)(cc))"]] := by
  have hleaves : ∀ leaf ∈ ["a", "b", "c"], leaf ≠ "EMPTY" := by simp
  obtain ⟨t, hrun, htree, -⟩ := addLeaves_eq bracket hleaves (prefix_refl _) (by simp)
  exact ⟨t, hrun, htree.trans (by decide)⟩

end MerkleTree

end Core
