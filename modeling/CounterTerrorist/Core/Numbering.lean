import CounterTerrorist.Core.Value
import Mathlib.Data.Countable.Basic
import Mathlib.Data.Nat.Pairing
import Mathlib.Logic.Equiv.List

/-!
# Value trees can be numbered

Statements about collision-free hashing speak of an injective function from ledger data to strings.
There is one, because there are only countably many trees. The numbering here pairs a tag for the
constructor with a number for its arguments.
-/

namespace Core

/-- A string is a list of characters, and a character is a number. -/
instance countable_string : Countable String := by
  have hchar : Countable Char :=
    Function.Injective.countable (f := Char.toNat) fun a b h ↦ Char.toNat_inj.1 h
  exact Function.Injective.countable (f := String.toList) fun a b h ↦ String.toList_inj.1 h

namespace JsTree

variable (c : String → ℕ)

mutual

/-- A number for a tree, given numbers for strings. -/
def code : JsTree → ℕ
  | undefined => Nat.pair 0 0
  | null => Nat.pair 1 0
  | bool b => Nat.pair 2 b.toNat
  | num n => Nat.pair 3 (Encodable.encode n)
  | str s => Nat.pair 4 (c s)
  | func => Nat.pair 5 0
  | arr items => Nat.pair 6 (codeItems items)
  | obj entries => Nat.pair 7 (codeEntries entries)

/-- A number for the items of an array. -/
def codeItems : List JsTree → ℕ
  | [] => 0
  | t :: ts => Nat.pair (code t) (codeItems ts) + 1

/-- A number for the entries of a record. -/
def codeEntries : List (String × JsTree) → ℕ
  | [] => 0
  | (k, t) :: es => Nat.pair (c k) (Nat.pair (code t) (codeEntries es)) + 1

end

variable {c}

mutual

/-- **Different trees have different numbers.** -/
theorem code_inj (hc : Function.Injective c) : ∀ {t u : JsTree}, code c t = code c u → t = u
  | t, u, h => by
    -- different constructors have different tags, which leaves the five with arguments
    cases t <;> cases u <;> simp only [code, Nat.pair_eq_pair] at h <;>
      first
        | rfl
        | (exfalso; omega)
        | skip
    · rename_i a b; cases a <;> cases b <;> simp_all
    · exact congrArg num (Encodable.encode_injective h.2)
    · exact congrArg str (hc h.2)
    · exact congrArg arr (codeItems_inj hc h.2)
    · exact congrArg obj (codeEntries_inj hc h.2)

theorem codeItems_inj (hc : Function.Injective c) :
    ∀ {ts us : List JsTree}, codeItems c ts = codeItems c us → ts = us
  | [], [], _ => rfl
  | [], _ :: _, h => by simp [codeItems] at h
  | _ :: _, [], h => by simp [codeItems] at h
  | t :: ts, u :: us, h => by
    simp only [codeItems, Nat.add_right_cancel_iff, Nat.pair_eq_pair] at h
    rw [code_inj hc h.1, codeItems_inj hc h.2]

theorem codeEntries_inj (hc : Function.Injective c) :
    ∀ {es fs : List (String × JsTree)}, codeEntries c es = codeEntries c fs → es = fs
  | [], [], _ => rfl
  | [], _ :: _, h => by simp [codeEntries] at h
  | _ :: _, [], h => by simp [codeEntries] at h
  | (k, t) :: es, (l, u) :: fs, h => by
    simp only [codeEntries, Nat.add_right_cancel_iff, Nat.pair_eq_pair] at h
    rw [hc h.1, code_inj hc h.2.1, codeEntries_inj hc h.2.2]

end

/-- There are countably many trees. -/
instance countable : Countable JsTree := by
  obtain ⟨c, hc⟩ := exists_injective_nat String
  exact Function.Injective.countable (f := code c) fun _ _ h ↦ code_inj hc h

end JsTree

end Core
