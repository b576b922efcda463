import Mathlib.Data.List.Basic
import Mathlib.Data.List.Infix

/-!
# Paths in a file system with links

A file system says what there is at a path of names: a directory, a file, a symbolic link, or
nothing. What a path with links denotes is found by walking along it (`walk`). A link is replaced by
its target; the number of links that are followed is bounded, so that the walk ends.

A walk that gets stuck has come as far as there are directories. What is left of the path is
appended to where it got stuck (`Outcome.place`): this is where a file would be created.

## Rules

* `walk_append`: a walk along a longer path is taken up where the shorter one ends.
* `walk_of_dir`: a walk to a directory that is not reached through links.
* `place_walk_trim`: segments that stay where they are do not change the place.
* `place_walk_names`: without links on the way, the place is the path.
-/

namespace FileTree

open List

/-- A segment of a path. -/
inductive Seg (N : Type*)
  /-- Stay: an empty segment, or a period. -/
  | here
  /-- Go up: two periods. -/
  | up
  | name (n : N)
deriving DecidableEq

/-- What can be at a path. -/
inductive Node (N : Type*)
  | dir
  | file
  | link (absolute : Bool) (target : List (Seg N))
deriving DecidableEq

/-- A file system. -/
structure FileSystem (N : Type*) where
  node : List N → Option (Node N)
  root : node [] = some .dir
  /-- What has a path is in a directory. -/
  parent : ∀ {path n}, node (path ++ [n]) ≠ none → node path = some .dir

/-- How a walk ends. -/
inductive Outcome (N : Type*)
  /-- There is something at the path, and that many links may still be followed. -/
  | found (path : List N) (left : ℕ)
  /-- There is nothing of the rest at the path. -/
  | stuck (path : List N) (rest : List (Seg N))
  | loop

variable {N : Type*}

/-- One segment without regard to what is there. -/
def descendOne (path : List N) : Seg N → List N
  | .here => path
  | .up => path.dropLast
  | .name n => path ++ [n]

/-- A path without regard to what is there. -/
def descend (path : List N) (segs : List (Seg N)) : List N := segs.foldl descendOne path

/-- The place that a walk leads to. -/
def Outcome.place : Outcome N → Option (List N)
  | found path _ => some path
  | stuck path rest => some (descend path rest)
  | loop => none

/-- What a segment leads to from a path. -/
inductive Move (N : Type*)
  | arrive (path : List N)
  /-- A link: where its target starts, and the target. -/
  | follow (path : List N) (target : List (Seg N))
  | nothing

namespace FileSystem

variable (fs : FileSystem N)

/-- Take a segment from a directory. -/
def takeFrom (path : List N) : Seg N → Move N
  | .here => .arrive path
  | .up => .arrive path.dropLast
  | .name n =>
    match fs.node (path ++ [n]) with
    | none => .nothing
    | some (.link absolute target) => .follow (if absolute then [] else path) target
    | some _ => .arrive (path ++ [n])

/-- Take a segment. -/
def take (path : List N) (seg : Seg N) : Move N :=
  match fs.node path with
  | some .dir => fs.takeFrom path seg
  | _ => .nothing

/-- A walk up to the first link; `next` is the walk from there on. -/
def walkWith (left : ℕ) (next : List N → List (Seg N) → Outcome N) :
    List N → List (Seg N) → Outcome N
  | path, [] => .found path left
  | path, seg :: rest =>
    match fs.take path seg with
    | .arrive path' => walkWith left next path' rest
    | .follow path' target => next path' (target ++ rest)
    | .nothing => .stuck path (seg :: rest)

/-- A walk that follows at most this many links. -/
def walk : ℕ → List N → List (Seg N) → Outcome N
  | 0 => fs.walkWith 0 fun _ _ ↦ .loop
  | limit + 1 => fs.walkWith (limit + 1) (walk limit)

/-- Take up a walk that ended. -/
def resume (more : List (Seg N)) : Outcome N → Outcome N
  | .found path left => fs.walk left path more
  | .stuck path rest => .stuck path (rest ++ more)
  | .loop => .loop

/-- There is a link at the path. -/
def IsLink (path : List N) : Prop := ∃ absolute target, fs.node path = some (.link absolute target)

end FileSystem

/-! ### Paths without regard to what is there -/

theorem descend_append (path : List N) (segs more : List (Seg N)) :
    descend path (segs ++ more) = descend (descend path segs) more := foldl_append

theorem descend_names (path names : List N) : descend path (names.map .name) = path ++ names := by
  induction names generalizing path with
  | nil => exact (append_nil path).symm
  | cons n names ih =>
    show descend (path ++ [n]) (names.map .name) = _
    rw [ih, append_assoc, singleton_append]

/-- How often the segments go up from where they start, and the names that none of them goes up
from again. -/
def remains : List (Seg N) → ℕ × List N
  | [] => (0, [])
  | .here :: segs => remains segs
  | .up :: segs => ((remains segs).1 + 1, (remains segs).2)
  | .name n :: segs =>
    match remains segs with
    | (0, names) => (0, n :: names)
    | (ups + 1, names) => (ups, names)

/-- A path loses as many of its names as the segments go up from it, and gets those that remain. -/
theorem descend_eq_remains (path : List N) (segs : List (Seg N)) :
    descend path segs = path.take (path.length - (remains segs).1) ++ (remains segs).2 := by
  induction segs generalizing path with
  | nil => simp [descend, remains]
  | cons seg segs ih =>
    show descend (descendOne path seg) segs = _
    rw [ih]
    cases seg with
    | here => rfl
    | up =>
      have hless : path.length - 1 - (remains segs).1 = path.length - ((remains segs).1 + 1) := by
        omega
      rw [descendOne, length_dropLast, dropLast_eq_take, take_take,
        Nat.min_eq_left (Nat.sub_le _ _), hless]
      rfl
    | name n =>
      rw [remains]
      rcases remains segs with ⟨_ | ups, names⟩
      · simp [descendOne, take_of_length_le]
      · simp [descendOne]

/-- A segment that does something. -/
def Seg.moves : Seg N → Bool
  | here => false
  | _ => true

/-- The segments that do something. -/
def trim (segs : List (Seg N)) : List (Seg N) := segs.filter Seg.moves

theorem trim_append (segs more : List (Seg N)) : trim (segs ++ more) = trim segs ++ trim more :=
  filter_append segs more

theorem trim_trim (segs : List (Seg N)) : trim (trim segs) = trim segs := by
  rw [trim, trim]
  simp

theorem moves_of_mem_names {names : List N} : ∀ seg ∈ names.map Seg.name, seg.moves = true := by
  simp [Seg.moves]

theorem trim_names (names : List N) : trim (names.map Seg.name) = names.map .name :=
  filter_eq_self.2 moves_of_mem_names

theorem descend_trim (path : List N) (segs : List (Seg N)) :
    descend path (trim segs) = descend path segs := by
  induction segs generalizing path with
  | nil => rfl
  | cons seg segs ih =>
    cases seg with
    | here => exact ih path
    | up => exact ih path.dropLast
    | name n => exact ih (path ++ [n])

/-! ### Walks -/

namespace FileSystem

variable {fs : FileSystem N} {left : ℕ} {next : List N → List (Seg N) → Outcome N}
  {path : List N}

theorem dir_of_append {more : List N} (h : fs.node (path ++ more) = some .dir) :
    fs.node path = some .dir := by
  induction more using List.reverseRecOn with
  | nil => simpa using h
  | append_singleton more n ih =>
    rw [← append_assoc] at h
    exact ih (fs.parent (h ▸ Option.some_ne_none _))

theorem take_of_dir (h : fs.node path = some .dir) (seg : Seg N) :
    fs.take path seg = fs.takeFrom path seg := by
  rw [take, h]

theorem take_of_ne_dir (h : fs.node path ≠ some .dir) (seg : Seg N) :
    fs.take path seg = .nothing := by
  rw [take]
  split
  case h_1 hdir => exact absurd hdir h
  case h_2 => rfl

/-- Where there is no directory, the walk goes no further. -/
theorem place_walkWith_of_ne_dir (h : fs.node path ≠ some .dir) (segs : List (Seg N)) :
    (fs.walkWith left next path segs).place = some (descend path segs) := by
  cases segs with
  | nil => rfl
  | cons seg rest =>
    rw [walkWith, take_of_ne_dir h]
    rfl

/-- A name that arrives does so without regard to what is there, and what is followed is a link. -/
theorem take_name_cases (path : List N) (n : N) :
    fs.take path (.name n) = .arrive (path ++ [n]) ∨ fs.IsLink (path ++ [n]) ∨
      fs.take path (.name n) = .nothing := by
  rw [take]
  split
  case h_1 =>
    rw [takeFrom]
    split
    case h_1 => exact .inr (.inr rfl)
    case h_2 absolute target hlink => exact .inr (.inl ⟨absolute, target, hlink⟩)
    case h_3 => exact .inl rfl
  case h_2 => exact .inr (.inr rfl)

theorem place_walkWith_trim
    (hnext : ∀ path segs, (next path segs).place = (next path (trim segs)).place)
    (path : List N) (segs : List (Seg N)) :
    (fs.walkWith left next path segs).place = (fs.walkWith left next path (trim segs)).place := by
  induction segs generalizing path with
  | nil => rfl
  | cons seg rest ih =>
    cases hseg : seg.moves with
    | false =>
      obtain rfl : seg = .here := by
        cases seg with
        | here => rfl
        | up | name n => cases hseg
      have htrim : trim (.here :: rest) = trim rest := rfl
      rw [htrim]
      rcases eq_or_ne (fs.node path) (some .dir) with hdir | hdir
      · rw [walkWith, take_of_dir hdir]
        exact ih path
      · rw [place_walkWith_of_ne_dir hdir, place_walkWith_of_ne_dir hdir, descend_trim]
        rfl
    | true =>
      have htrim : trim (seg :: rest) = seg :: trim rest := filter_cons_of_pos hseg
      rw [htrim, walkWith, walkWith]
      split
      case h_1 path' _ => exact ih path'
      case h_2 path' target _ =>
        rw [hnext, hnext _ (target ++ trim rest), trim_append, trim_append, trim_trim]
      case h_3 =>
        show some (descend (descendOne path seg) rest) =
          some (descend (descendOne path seg) (trim rest))
        rw [descend_trim]

/-- Segments that stay where they are do not change the place. -/
theorem place_walk_trim (limit : ℕ) (path : List N) (segs : List (Seg N)) :
    (fs.walk limit path segs).place = (fs.walk limit path (trim segs)).place := by
  induction limit generalizing path segs with
  | zero => exact place_walkWith_trim (fun _ _ ↦ rfl) path segs
  | succ limit ih => exact place_walkWith_trim ih path segs

/-! ### One walk after another -/

theorem walk_nil (limit : ℕ) (path : List N) : fs.walk limit path [] = .found path limit := by
  cases limit with
  | zero | succ limit => rfl

theorem walkWith_append {more : List (Seg N)}
    (hmore : ∀ path, fs.walkWith left next path more = fs.walk left path more)
    (hnext : ∀ path segs, next path (segs ++ more) = fs.resume more (next path segs))
    (path : List N) (segs : List (Seg N)) :
    fs.walkWith left next path (segs ++ more) =
      fs.resume more (fs.walkWith left next path segs) := by
  induction segs generalizing path with
  | nil => exact hmore path
  | cons seg rest ih =>
    rw [cons_append, walkWith, walkWith]
    split
    case h_1 path' _ => exact ih path'
    case h_2 path' target _ => rw [← append_assoc, hnext]
    case h_3 => rfl

/-- A walk along a longer path is taken up where the shorter one ends. -/
theorem walk_append (limit : ℕ) (path : List N) (segs more : List (Seg N)) :
    fs.walk limit path (segs ++ more) = fs.resume more (fs.walk limit path segs) := by
  induction limit generalizing path segs with
  | zero => exact walkWith_append (fun _ ↦ rfl) (fun _ _ ↦ rfl) path segs
  | succ limit ih => exact walkWith_append (fun _ ↦ rfl) ih path segs

variable {names : List N}

theorem walkWith_of_dir (h : fs.node (path ++ names) = some .dir) :
    fs.walkWith left next path (names.map .name) = .found (path ++ names) left := by
  induction names generalizing path with
  | nil => rw [append_nil, map_nil, walkWith]
  | cons n names ih =>
    have hsplit : path ++ n :: names = path ++ [n] ++ names := by simp
    rw [hsplit] at h ⊢
    have htake : fs.take path (.name n) = .arrive (path ++ [n]) := by
      rw [take_of_dir (dir_of_append (dir_of_append h)), takeFrom, dir_of_append h]
    rw [map_cons, walkWith, htake]
    exact ih h

/-- A walk to a directory that is not reached through links. -/
theorem walk_of_dir (limit : ℕ) (h : fs.node (path ++ names) = some .dir) :
    fs.walk limit path (names.map .name) = .found (path ++ names) limit := by
  cases limit with
  | zero | succ limit => exact walkWith_of_dir h

/-- From a directory, a segment that stays does nothing. -/
theorem walk_here (limit : ℕ) (h : fs.node path = some .dir) (segs : List (Seg N)) :
    fs.walk limit path (.here :: segs) = fs.walk limit path segs := by
  have htake : fs.take path .here = .arrive path := take_of_dir h .here
  cases limit with
  | zero | succ limit => rw [walk, walkWith, htake]

theorem place_walkWith_names
    (h : ∀ before n after, names = before ++ n :: after → ¬fs.IsLink (path ++ before ++ [n])) :
    (fs.walkWith left next path (names.map .name)).place = some (path ++ names) := by
  induction names generalizing path with
  | nil => exact congrArg some (append_nil path).symm
  | cons n names ih =>
    rw [map_cons, walkWith]
    obtain htake | hlink | htake := fs.take_name_cases path n
    · have hrest : ∀ before m after, names = before ++ m :: after →
          ¬fs.IsLink (path ++ [n] ++ before ++ [m]) := by
        rintro before m after rfl
        simpa using h (n :: before) m after rfl
      rw [htake]
      exact (ih hrest).trans (by rw [append_assoc, singleton_append])
    · exact absurd hlink (by simpa using h [] n names rfl)
    · rw [htake]
      exact congrArg some (descend_names path (n :: names))

/-- Without links on the way, the place is the path. -/
theorem place_walk_names (limit : ℕ)
    (h : ∀ before n after, names = before ++ n :: after → ¬fs.IsLink (path ++ before ++ [n])) :
    (fs.walk limit path (names.map .name)).place = some (path ++ names) := by
  cases limit with
  | zero | succ limit => exact place_walkWith_names h

/-- One name, unless it is the name of a link. -/
theorem place_walk_name (limit : ℕ) {n : N} (h : ¬fs.IsLink (path ++ [n])) :
    (fs.walk limit path [.name n]).place = some (path ++ [n]) := by
  have hnames (before m after) (hsplit : [n] = before ++ m :: after) :
      ¬fs.IsLink (path ++ before ++ [m]) := by
    cases before with
    | nil =>
      cases hsplit
      simpa using h
    | cons first before => simp at hsplit
  exact place_walk_names limit hnames

end FileSystem

/-! ### File systems from lists -/

section Entries

variable [DecidableEq N]

/-- What a list of entries has at a path. -/
def entryAt (entries : List (List N × Node N)) (path : List N) : Option (Node N) :=
  if path = [] then some .dir else (entries.find? fun entry ↦ entry.1 = path).map Prod.snd

/-- The file system with these entries, each of which is in a directory. -/
def FileSystem.ofEntries (entries : List (List N × Node N))
    (h : ∀ entry ∈ entries, entryAt entries entry.1.dropLast = some .dir) : FileSystem N where
  node := entryAt entries
  root := if_pos rfl
  parent := by
    intro path n hnode
    rw [entryAt, if_neg (List.append_ne_nil_of_right_ne_nil _ (List.cons_ne_nil _ _)), ne_eq,
      Option.map_eq_none_iff] at hnode
    obtain ⟨entry, hentry⟩ := Option.ne_none_iff_exists'.1 hnode
    have hpath : entry.1 = path ++ [n] := by simpa using List.find?_some hentry
    have hdir := h entry (List.mem_of_find?_eq_some hentry)
    rwa [hpath, List.dropLast_concat] at hdir

end Entries

end FileTree
