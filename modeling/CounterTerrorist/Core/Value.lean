import Mathlib.Data.List.Basic
import Mathlib.Data.Int.Notation

/-!
# JavaScript values and their sanitised form

The values a caller hands to the ledger are JavaScript values: objects have identity and may be
shared or cyclic, so they live in a heap and are referred to by address. What the ledger keeps is a
finite tree. `sanitizeDataForAudit` goes from one to the other.

It terminates by its depth bound. The recursion below is on the number of levels that are still
allowed, seven at the top, so the source's test `depth > 6` is the base case. The set of objects
seen is threaded through siblings as well as children, as in the source.

Numbers are integers.

## Canonical form

`computeHash` digests what `canonicalStringify` returns, and `canonicalStringify` throws on values
that are too deep or too broad. Sanitised values are neither (`sanitizeDataForAudit_returns`).
-/

namespace Core

/-- A JavaScript value; objects are addresses in a heap. -/
inductive JsVal
  | undefined
  | null
  | bool (b : Bool)
  | num (n : ℤ)
  | str (s : String)
  | bigint (n : ℤ)
  | symbol (description : String)
  | func
  | ref (addr : ℕ)
deriving Repr, DecidableEq

/-- An object: an array, or a record with its own enumerable entries. -/
inductive JsObject
  | array (items : List JsVal)
  | record (entries : List (String × JsVal))
deriving Repr, DecidableEq

/-- The objects, by address. -/
abbrev Heap := List JsObject

/-- A finite value without sharing, as the ledger stores it. -/
inductive JsTree
  | undefined
  | null
  | bool (b : Bool)
  | num (n : ℤ)
  | str (s : String)
  | func
  | arr (items : List JsTree)
  | obj (entries : List (String × JsTree))
deriving Repr

namespace JsVal

/-- The values JavaScript treats as true. -/
def truthy : JsVal → Bool
  | undefined | null => false
  | bool b => b
  | num n | bigint n => n != 0
  | str s => s != ""
  | symbol _ | func | ref _ => true

end JsVal

/-- `a || b` where `a` is an optional string: the empty string counts as absent. -/
def strOr (a : Option String) (b : String) : String :=
  match a with
  | some s => if s = "" then b else s
  | none => b

/-- Whether an optional string counts as present. -/
def strTruthy (a : Option String) : Bool :=
  match a with
  | some s => s != ""
  | none => false

/-! ### Sanitising -/

/-- Apply `f` along a list, threading the set of seen objects. -/
def sanitizeItems (f : JsVal → List ℕ → JsTree × List ℕ) :
    List JsVal → List ℕ → List JsTree × List ℕ
  | [], seen => ([], seen)
  | v :: vs, seen =>
    let (t, seen) := f v seen
    let (ts, seen) := sanitizeItems f vs seen
    (t :: ts, seen)

/-- The same for the entries of a record. Functions are left out, and assigning to `__proto__`
creates no property. -/
def sanitizeEntries (f : JsVal → List ℕ → JsTree × List ℕ) :
    List (String × JsVal) → List ℕ → List (String × JsTree) × List ℕ
  | [], seen => ([], seen)
  | (k, v) :: es, seen =>
    if v = .func then sanitizeEntries f es seen
    else
      let (t, seen) := f v seen
      let (ts, seen) := sanitizeEntries f es seen
      (if k = "__proto__" then ts else (k, t) :: ts, seen)

/-- `sanitizeDataForAudit` with the number of levels that are still allowed. -/
def sanitizeAt (heap : Heap) : ℕ → JsVal → List ℕ → JsTree × List ℕ
  | 0, _, seen => (.str "[Truncated: Max Depth]", seen)
  | _ + 1, .bigint n, seen => (.str (toString n ++ "n"), seen)
  | _ + 1, .symbol d, seen => (.str ("Symbol(" ++ d ++ ")"), seen)
  | _ + 1, .undefined, seen => (.undefined, seen)
  | _ + 1, .null, seen => (.null, seen)
  | _ + 1, .bool b, seen => (.bool b, seen)
  | _ + 1, .num n, seen => (.num n, seen)
  | _ + 1, .str s, seen => (.str s, seen)
  | _ + 1, .func, seen => (.func, seen)
  | levels + 1, .ref addr, seen =>
    if addr ∈ seen then (.str "[Circular]", seen)
    else
      match heap[addr]? with
      | some (.array items) =>
        let (ts, seen) := sanitizeItems (sanitizeAt heap levels) (items.take 50) (addr :: seen)
        (.arr ts, seen)
      | some (.record entries) =>
        let (ts, seen) :=
          sanitizeEntries (sanitizeAt heap levels) (entries.take 50) (addr :: seen)
        (.obj ts, seen)
      -- an address always refers to an object
      | none => (.undefined, seen)

/-- The finite tree that stands for a value in the ledger. -/
def sanitizeDataForAudit (heap : Heap) (value : JsVal) : JsTree := (sanitizeAt heap 7 value []).1

/-! ### Canonical form -/

/-- Whether `canonicalStringify` returns, with the number of levels that are still allowed. -/
def canonicalStringifyReturns : ℕ → JsTree → Bool
  | 0, _ => false
  | levels + 1, .arr items => decide (items.length ≤ 100) &&
      items.all (canonicalStringifyReturns levels)
  | levels + 1, .obj entries => decide (entries.length ≤ 100) &&
      entries.all fun e ↦ canonicalStringifyReturns levels e.2
  | _ + 1, _ => true

theorem sanitizeItems_spec (f : JsVal → List ℕ → JsTree × List ℕ) (vs : List JsVal)
    (seen : List ℕ) : (sanitizeItems f vs seen).1.length = vs.length ∧
      ∀ t ∈ (sanitizeItems f vs seen).1, ∃ v seen, t = (f v seen).1 := by
  induction vs generalizing seen with
  | nil => exact ⟨rfl, nofun⟩
  | cons v vs ih =>
    obtain ⟨hlen, hmem⟩ := ih (f v seen).2
    refine ⟨congrArg (· + 1) hlen, fun t ht ↦ ?_⟩
    rcases List.mem_cons.1 ht with rfl | ht
    · exact ⟨v, seen, rfl⟩
    · exact hmem t ht

theorem sanitizeEntries_spec (f : JsVal → List ℕ → JsTree × List ℕ) (es : List (String × JsVal))
    (seen : List ℕ) : (sanitizeEntries f es seen).1.length ≤ es.length ∧
      ∀ e ∈ (sanitizeEntries f es seen).1, ∃ v seen, e.2 = (f v seen).1 := by
  induction es generalizing seen with
  | nil => exact ⟨Nat.le_refl _, nofun⟩
  | cons e es ih =>
    obtain ⟨k, v⟩ := e
    rw [sanitizeEntries]
    split
    · obtain ⟨hlen, hmem⟩ := ih seen
      exact ⟨Nat.le_succ_of_le hlen, hmem⟩
    · obtain ⟨hlen, hmem⟩ := ih (f v seen).2
      dsimp only
      split
      · exact ⟨Nat.le_succ_of_le hlen, hmem⟩
      · refine ⟨Nat.succ_le_succ hlen, fun e he ↦ ?_⟩
        rcases List.mem_cons.1 he with rfl | he
        · exact ⟨v, seen, rfl⟩
        · exact hmem e he

/-- A sanitised value has at most one level more than it was allowed, and no level is broad. -/
theorem sanitizeAt_returns (heap : Heap) {n m : ℕ} (hnm : n ≤ m) (v : JsVal) (seen : List ℕ) :
    canonicalStringifyReturns (m + 1) (sanitizeAt heap n v seen).1 = true := by
  induction n generalizing m v seen with
  | zero => rfl
  | succ n ih =>
    obtain ⟨m, rfl⟩ := Nat.exists_eq_succ_of_ne_zero (Nat.ne_zero_of_lt hnm)
    have hle : n ≤ m := Nat.le_of_succ_le_succ hnm
    cases v with
    | ref addr =>
      rw [sanitizeAt]
      split
      · rfl
      · split
        · rename_i items _
          obtain ⟨hlen, hmem⟩ :=
            sanitizeItems_spec (sanitizeAt heap n) (items.take 50) (addr :: seen)
          have hbroad : (items.take 50).length ≤ 50 := List.length_take_le ..
          show (decide _ && List.all _ _) = true
          rw [Bool.and_eq_true, decide_eq_true_eq, List.all_eq_true]
          refine ⟨by omega, fun t ht ↦ ?_⟩
          obtain ⟨v, seen, rfl⟩ := hmem t ht
          exact ih hle v seen
        · rename_i entries _
          obtain ⟨hlen, hmem⟩ :=
            sanitizeEntries_spec (sanitizeAt heap n) (entries.take 50) (addr :: seen)
          have hbroad : (entries.take 50).length ≤ 50 := List.length_take_le ..
          show (decide _ && List.all _ _) = true
          rw [Bool.and_eq_true, decide_eq_true_eq, List.all_eq_true]
          refine ⟨by omega, fun e he ↦ ?_⟩
          obtain ⟨v, seen, heq⟩ := hmem e he
          rw [heq]
          exact ih hle v seen
        · rfl
    | _ => rfl

/-- Sanitised data is never what keeps an event from being hashed: at one level below the top it
still has ten levels. -/
theorem sanitizeDataForAudit_returns (heap : Heap) (value : JsVal) :
    canonicalStringifyReturns 10 (sanitizeDataForAudit heap value) = true :=
  sanitizeAt_returns heap (by decide) value []

end Core
