import CounterTerrorist.Core.Value

/-!
# Healing a binary

`IntegrityManager.verifyAndHeal` compares the hash of an installed binary with the golden hash, from
the manifest or the environment. If they differ, it copies a file from the golden repository over
the binary and compares again. With `force`, as in the rotation of sidecars every six hours, it
copies in any case.

The file in the repository is not looked at before it is copied, and nothing is kept of the binary.
So a binary with the golden hash can be lost, and `healing_safe_iff` says when. A binary for which
`true` is returned has the golden hash.
-/

namespace Sidecar

open Core

/-- The hashes in `SidecarManifest`, by sidecar and architecture. -/
structure SidecarManifest where
  sidecars : String → Option (String → Option String)

/-- How `cp` ends: what it leaves of the binary, for the content that it copies, and whether the
executor throws. -/
structure Copy (C : Type) where
  left : C → Option C
  throws : Bool

/-- `===` for two hashes. A hash that could not be calculated is `null`, one that is not given is
`undefined`. -/
def sameHash : Option String → Option String → Bool
  | some a, some b => a == b
  | _, _ => false

/-- The hash of a content, `Deno.build.arch` and the environment. -/
structure IntegrityManager (C : Type) where
  digest : C → String
  arch : String
  getEnv : String → Option String

namespace IntegrityManager

variable {C : Type} (m : IntegrityManager C) (name : String) (manifest : Option SidecarManifest)

/-- `calculateHash`; there is no hash without a file. -/
def calculateHash (file : Option C) : Option String := file.map m.digest

def isProduction : Bool := m.getEnv "ENVIRONMENT" == some "production"

def manifestHash : Option String :=
  (manifest.bind (·.sidecars name)).bind fun architectures ↦ architectures m.arch

def goldenHash : Option String :=
  if m.isProduction || strTruthy (m.manifestHash name manifest) then m.manifestHash name manifest
  else m.getEnv ("CTS_HASH_" ++ name.toUpper)

/-- `healFromGolden`: whether it has healed the binary, and the binary afterwards. -/
def healFromGolden (binary golden : Option C) (cp : Copy C) (goldenHash : Option String) :
    Bool × Option C :=
  match golden with
  | some content =>
    (!cp.throws && sameHash (m.calculateHash (cp.left content)) goldenHash, cp.left content)
  | none => (false, binary)

/-- `verifyAndHeal`: what it returns, and the binary afterwards. -/
def verifyAndHeal (binary golden : Option C) (cp : Copy C) (force : Bool) : Bool × Option C :=
  let currentHash := m.calculateHash binary
  let goldenHash := m.goldenHash name manifest
  if !strTruthy currentHash && !force then (false, binary)
  else if m.isProduction && !strTruthy (m.manifestHash name manifest) then (false, binary)
  else if !force && (!strTruthy goldenHash || sameHash currentHash goldenHash) then (true, binary)
  else m.healFromGolden binary golden cp goldenHash

variable {m name manifest} {binary golden : Option C} {cp : Copy C} {hash : String}

theorem sameHash_iff {a : Option String} : sameHash a (some hash) = true ↔ a = some hash := by
  cases a <;> simp [sameHash]

/-- With a golden hash, the copy is made unless there is no `force` and the binary has that hash or
cannot be read. -/
theorem verifyAndHeal_eq {force : Bool} (hne : hash ≠ "")
    (h : m.goldenHash name manifest = some hash) :
    m.verifyAndHeal name manifest binary golden cp force =
      if !strTruthy (m.calculateHash binary) && !force then (false, binary)
      else if !force && sameHash (m.calculateHash binary) (some hash) then (true, binary)
      else m.healFromGolden binary golden cp (some hash) := by
  have hproduction : (m.isProduction && !strTruthy (m.manifestHash name manifest)) = false := by
    rw [Bool.eq_false_iff, ne_eq, Bool.and_eq_true]
    rintro ⟨hproduction, hmanifest⟩
    rw [goldenHash, hproduction, Bool.true_or, if_pos rfl] at h
    simp [h, strTruthy, hne] at hmanifest
  have hhash : strTruthy (some hash) = true := bne_iff_ne.2 hne
  simp only [verifyAndHeal, hproduction, h, hhash, Bool.false_eq_true, if_false, Bool.not_true,
    Bool.false_or]

/-- **A binary that has the golden hash keeps it, and one for which `true` is returned has it,
exactly as long as no forced copy destroys it:** with `force`, a binary with the golden hash must
come out of the copy with that hash. An empty text counts as no hash. -/
theorem healing_safe_iff {force : Bool} :
    (∀ hash ≠ "", m.goldenHash name manifest = some hash →
      (m.calculateHash binary = some hash → m.calculateHash
        (m.verifyAndHeal name manifest binary golden cp force).2 = some hash) ∧
      ((m.verifyAndHeal name manifest binary golden cp force).1 = true → m.calculateHash
        (m.verifyAndHeal name manifest binary golden cp force).2 = some hash)) ↔
    (force = true → ∀ hash ≠ "", m.goldenHash name manifest = some hash →
      m.calculateHash binary = some hash → ∀ content, golden = some content →
        m.calculateHash (cp.left content) = some hash) := by
  constructor
  · rintro h rfl hash hne hgolden hbinary content rfl
    simpa [verifyAndHeal_eq hne hgolden, healFromGolden] using (h hash hne hgolden).1 hbinary
  · intro h hash hne hgolden
    rw [verifyAndHeal_eq hne hgolden]
    refine ⟨fun hbinary ↦ ?_, fun htrue ↦ ?_⟩
    · cases force with
      | false => simp [hbinary, strTruthy, sameHash, hne]
      | true =>
        cases golden with
        | none => simpa [healFromGolden]
        | some content => simpa [healFromGolden] using h rfl hash hne hgolden hbinary content rfl
    · -- `true` is returned only after a comparison with the golden hash.
      split_ifs at htrue ⊢ with hnone hsame
      · exact sameHash_iff.1 (Bool.and_eq_true _ _ ▸ hsame).2
      · cases golden with
        | none => cases htrue
        | some content => exact sameHash_iff.1 (Bool.and_eq_true _ _ ▸ htrue).2

/-- Here the manifest asks for version 2 and version 2 is installed, but the golden repository still
has version 1. The forced copy succeeds, and version 1 is what is left. -/
theorem healing_replaces_golden :
    let m : IntegrityManager String := ⟨id, "x86_64", fun _ ↦ none⟩
    let manifest : SidecarManifest := ⟨fun _ ↦ some fun _ ↦ some "v2"⟩
    m.goldenHash "ebpf" (some manifest) = some "v2" ∧ m.calculateHash (some "v2") = some "v2" ∧
      m.verifyAndHeal "ebpf" (some manifest) (some "v2") (some "v1") ⟨some, false⟩ true =
        (false, some "v1") := by
  decide

end IntegrityManager

end Sidecar
