import CounterTerrorist.Core.JsText
import CounterTerrorist.Foundations.Throwing

/-!
# The rotation of secrets

`SecretRotationService.rotateSecret` makes a new secret, has it sealed by the TPM, stages it in
`MeshAuthService`, writes it to the configuration and tells the other nodes. After a minute the
staged secret is dropped. `validateMeshSecret` accepts the configured secret and the staged one.

`rotateSecret` is one call from its start to its end here, a program that may throw at each of its
four calls to the outside. Such a call may have had its effect when it throws, and sealing may have
none without throwing (`Outcome`).

## What is proved

A rotation that fails undoes nothing. `failed_rotation_iff` says for which failures nothing was
done. If the configuration cannot be updated, the new secret is accepted all the same
(`failed_rotation_accepts`).
-/

namespace Identity

open Core Throwing

/-! ### The secrets -/

/-- The secrets that can be rotated. -/
inductive SecretType
  | MESH_SECRET
  | API_TOKEN
deriving DecidableEq, Repr

/-- Where secrets are. -/
structure Secrets where
  /-- `config.getEnv`. -/
  env : SecretType → Option Text
  secondaryMeshSecret : Option Text
  /-- What the TPM holds. -/
  sealedSecret : SecretType → Option Text

namespace Secrets

/-- `config.setEnv`. -/
def setEnv (type : SecretType) (secret : Text) (s : Secrets) : Secrets :=
  { s with env := Function.update s.env type (some secret) }

/-- `tpm.sealSecret`. -/
def sealSecret (type : SecretType) (secret : Text) (s : Secrets) : Secrets :=
  { s with sealedSecret := Function.update s.sealedSecret type (some secret) }

/-- `stageSecondarySecret`. -/
def stageSecondarySecret (secret : Text) (s : Secrets) : Secrets :=
  { s with secondaryMeshSecret := some secret }

/-- `validateMeshSecret`. -/
def validateMeshSecret (s : Secrets) (provided : Text) : Bool :=
  if s.env .MESH_SECRET = some provided then true
  else if s.secondaryMeshSecret = some provided ∧ provided ≠ [] then true
  else false

end Secrets

/-! ### One call -/

/-- How a call to the outside ends: whether it had its effect, and whether it throws. -/
structure Outcome where
  effect : Bool
  error : Option String
deriving DecidableEq, Repr

/-- It works. -/
def Outcome.done : Outcome := ⟨true, none⟩

/-- What a call returns. -/
def Outcome.result (o : Outcome) : Except String Unit :=
  match o.error with
  | some e => .error e
  | none => .ok ()

/-- What a call does. -/
def Outcome.apply {S : Type} (o : Outcome) (f : S → S) (s : S) : S := if o.effect then f s else s

/-- The secret is staged and configured. -/
def Secrets.publish (type : SecretType) (newSecret : Text) (setEnv : Outcome) (s : Secrets) :
    Secrets :=
  let staged := if type = .MESH_SECRET then s.stageSecondarySecret newSecret else s
  setEnv.apply (Secrets.setEnv type newSecret) staged

/-- The answers to the calls of a rotation. -/
structure Replies where
  /-- There is a TPM. -/
  tpm : Bool
  getPcrs : Except String Unit
  sealSecret : Outcome
  setEnv : Outcome
  broadcast : Except String Unit

section

variable (w : Replies) (type : SecretType) (newSecret : Text)

/-- The new secret is sealed. -/
def sealNew : Throwing Secrets Unit := do
  liftExcept w.getPcrs
  modify (w.sealSecret.apply (Secrets.sealSecret type newSecret))
  liftExcept w.sealSecret.result

/-- The new secret is staged and configured, and the other nodes are told. -/
def publishNew : Throwing Secrets Unit := do
  modify (Secrets.publish type newSecret w.setEnv)
  liftExcept w.setEnv.result
  -- the answer of the other nodes does not matter, as long as it is one
  if type = .MESH_SECRET then liftExcept w.broadcast

/-- `rotateSecret`. -/
def rotateSecret : Throwing Secrets Unit := do
  if w.tpm then sealNew w type newSecret
  publishNew w type newSecret

end

/-! ### A call that fails -/

variable {w : Replies} {type : SecretType} {newSecret : Text} {s : Secrets}

theorem snd_publishNew :
    ((publishNew w type newSecret).result s).2 = s.publish type newSecret w.setEnv := by
  simp only [publishNew, result_bind]
  cases w.setEnv.result with
  | error e => rfl
  | ok => by_cases htype : type = .MESH_SECRET <;> simp [htype]

/-- What sealing leaves, and whether it throws. -/
theorem sealNew_cases (w : Replies) (type : SecretType) (newSecret : Text) (s : Secrets) :
    (w.getPcrs.isOk = false ∧ ∃ e, (sealNew w type newSecret).result s = (.error e, s)) ∨
    (w.getPcrs.isOk = true ∧ ∃ t, t = w.sealSecret.apply (Secrets.sealSecret type newSecret) s ∧
      (w.sealSecret.error ≠ none ∧ (∃ e, (sealNew w type newSecret).result s = (.error e, t)) ∨
        w.sealSecret.error = none ∧ (sealNew w type newSecret).result s = (.ok (), t))) := by
  simp only [sealNew, Outcome.result]
  cases w.getPcrs with
  | error e => exact .inl ⟨rfl, e, rfl⟩
  | ok =>
    refine .inr ⟨rfl, _, rfl, ?_⟩
    cases w.sealSecret.error with
    | some e => exact .inl ⟨nofun, e, rfl⟩
    | none => exact .inr ⟨rfl, rfl⟩

/-- What the call of the TPM has done, when there is one. -/
def Replies.sealEffect (w : Replies) (type : SecretType) (newSecret : Text) (s : Secrets) :
    Secrets :=
  if w.tpm && w.sealSecret.effect then s.sealSecret type newSecret else s

/-- What a call leaves: it fails at the TPM, or it comes to the configuration. -/
theorem rotateSecret_cases (w : Replies) (type : SecretType) (newSecret : Text) (s : Secrets) :
    (w.tpm = true ∧ w.getPcrs.isOk = false ∧ ((rotateSecret w type newSecret).result s).2 = s) ∨
    (w.tpm = true ∧ w.getPcrs.isOk = true ∧ w.sealSecret.error ≠ none ∧
      ((rotateSecret w type newSecret).result s).2 = w.sealEffect type newSecret s) ∨
    ((w.tpm = true → w.getPcrs.isOk = true ∧ w.sealSecret.error = none) ∧
      ((rotateSecret w type newSecret).result s).2 =
        (w.sealEffect type newSecret s).publish type newSecret w.setEnv) := by
  cases htpm : w.tpm with
  | false =>
    refine .inr (.inr ⟨nofun, ?_⟩)
    rw [rotateSecret, if_neg (by simp [htpm]), snd_publishNew, Replies.sealEffect, htpm]
    rfl
  | true =>
    have heff : w.sealEffect type newSecret s =
        w.sealSecret.apply (Secrets.sealSecret type newSecret) s := by
      rw [Replies.sealEffect, htpm, Bool.true_and, Outcome.apply]
    rw [heff, rotateSecret, if_pos htpm, result_bind]
    obtain ⟨hpcrs, e, heq⟩ | ⟨hpcrs, t, rfl, ⟨herror, e, heq⟩ | ⟨herror, heq⟩⟩ :=
      sealNew_cases w type newSecret s
    · exact .inl ⟨rfl, hpcrs, by rw [heq]⟩
    · exact .inr (.inl ⟨rfl, hpcrs, herror, by rw [heq]⟩)
    · refine .inr (.inr ⟨fun _ ↦ ⟨hpcrs, herror⟩, ?_⟩)
      rw [heq]
      exact snd_publishNew

/-- The new secret was not there before. -/
structure Fresh (newSecret : Text) (s : Secrets) : Prop where
  ne_nil : newSecret ≠ []
  env : ∀ type, s.env type ≠ some newSecret
  secondary : s.secondaryMeshSecret ≠ some newSecret
  sealedSecret : ∀ type, s.sealedSecret type ≠ some newSecret

/-- The same secrets are accepted, configured and sealed. -/
structure Unchanged (s t : Secrets) : Prop where
  accepted : ∀ x, t.validateMeshSecret x = s.validateMeshSecret x
  env : t.env = s.env
  sealedSecret : t.sealedSecret = s.sealedSecret

theorem unchanged_refl (s : Secrets) : Unchanged s s := ⟨fun _ ↦ rfl, rfl, rfl⟩

theorem Fresh.validateMeshSecret (h : Fresh newSecret s) :
    s.validateMeshSecret newSecret = false := by
  rw [Secrets.validateMeshSecret, if_neg (h.env _), if_neg fun hstaged ↦ h.secondary hstaged.1]

theorem update_ne {f : SecretType → Option Text} (h : ∀ type, f type ≠ some newSecret)
    (type : SecretType) : Function.update f type (some newSecret) ≠ f := by
  intro heq
  exact h type ((congrFun heq type).symm.trans (Function.update_self ..))

/-- A new secret cannot be sealed without a change. -/
theorem unchanged_sealEffect_iff (hfresh : Fresh newSecret s) :
    Unchanged s (w.sealEffect type newSecret s) ↔ (w.tpm = true → w.sealSecret.effect = false) := by
  rw [Replies.sealEffect]
  split
  case isTrue hseals =>
    obtain ⟨htpm, heff⟩ := Bool.and_eq_true_iff.1 hseals
    refine iff_of_false (fun h ↦ update_ne hfresh.sealedSecret type h.sealedSecret) fun h ↦ ?_
    exact Bool.false_ne_true ((h htpm).symm.trans heff)
  case isFalse hseals =>
    refine iff_of_true (unchanged_refl s) fun htpm ↦ ?_
    simpa [htpm] using hseals

/-- A mesh secret that is staged is accepted. -/
theorem not_unchanged_publish (hfresh : Fresh newSecret s) (t : Secrets) (setEnv : Outcome) :
    ¬Unchanged s (t.publish .MESH_SECRET newSecret setEnv) := by
  intro h
  have hstaged : (t.publish .MESH_SECRET newSecret setEnv).secondaryMeshSecret =
      some newSecret := by
    rw [Secrets.publish, Outcome.apply]
    split <;> rfl
  have hacc : (t.publish .MESH_SECRET newSecret setEnv).validateMeshSecret newSecret =
      true := by
    simp [Secrets.validateMeshSecret, hstaged, hfresh.ne_nil]
  rw [h.accepted, hfresh.validateMeshSecret] at hacc
  cases hacc

theorem unchanged_publish_iff (hfresh : Fresh newSecret s) :
    Unchanged s ((w.sealEffect .API_TOKEN newSecret s).publish .API_TOKEN newSecret w.setEnv) ↔
      (w.tpm = true → w.sealSecret.effect = false) ∧ w.setEnv.effect = false := by
  rw [← unchanged_sealEffect_iff hfresh, Secrets.publish, Outcome.apply]
  split
  case isTrue heff =>
    refine iff_of_false (fun h ↦ ?_) fun h ↦ Bool.false_ne_true (h.2.symm.trans heff)
    have henv : (w.sealEffect .API_TOKEN newSecret s).env = s.env := by
      rw [Replies.sealEffect]
      split <;> rfl
    refine update_ne hfresh.env .API_TOKEN ?_
    rw [← henv]
    exact h.env.trans henv.symm
  case isFalse heff =>
    exact (and_iff_left (Bool.not_eq_true _ ▸ heff)).symm

/-- **Rotations that fail.** A rotation, also one that fails, leaves all secrets as they were if and
only if the TPM did not tell its registers, or threw without sealing the secret, or the token of the
interface was to be rotated, and was neither sealed nor configured. -/
theorem failed_rotation_iff (w : Replies) (type : SecretType) (hfresh : Fresh newSecret s) :
    Unchanged s ((rotateSecret w type newSecret).result s).2 ↔
      (w.tpm = true ∧ w.getPcrs.isOk = false) ∨
      (w.tpm = true ∧ w.sealSecret.error ≠ none ∧ w.sealSecret.effect = false) ∨
      (type = .API_TOKEN ∧ (w.tpm = true → w.sealSecret.effect = false) ∧
        w.setEnv.effect = false) := by
  obtain ⟨htpm, hpcrs, heq⟩ | ⟨htpm, hpcrs, herror, heq⟩ | ⟨hpassed, heq⟩ :=
    rotateSecret_cases w type newSecret s
  · rw [heq]
    exact iff_of_true (unchanged_refl s) (.inl ⟨htpm, hpcrs⟩)
  · rw [heq, unchanged_sealEffect_iff hfresh]
    constructor
    · exact fun h ↦ .inr (.inl ⟨htpm, herror, h htpm⟩)
    · rintro (⟨-, h⟩ | ⟨-, -, h⟩ | ⟨-, h, -⟩)
      · exact absurd (hpcrs.symm.trans h) (by decide)
      · exact fun _ ↦ h
      · exact h
  · have hfirst : ¬(w.tpm = true ∧ w.getPcrs.isOk = false) := fun ⟨htpm, h⟩ ↦
      absurd ((hpassed htpm).1.symm.trans h) (by decide)
    have hsecond : ¬(w.tpm = true ∧ w.sealSecret.error ≠ none ∧ w.sealSecret.effect = false) :=
      fun ⟨htpm, herror, _⟩ ↦ herror (hpassed htpm).2
    rw [heq, or_iff_right hfirst, or_iff_right hsecond]
    cases type with
    | MESH_SECRET => exact iff_of_false (not_unchanged_publish hfresh _ _) nofun
    | API_TOKEN => exact (unchanged_publish_iff hfresh).trans (and_iff_right rfl).symm

/-- A secret of the mesh in use, and no other. -/
def inUse : Secrets := ⟨fun type ↦ if type = .MESH_SECRET then some "old".toList else none, none,
  fun _ ↦ none⟩

/-- The TPM cannot be read. -/
def noPcrs : Replies := ⟨true, .error "no TPM", .done, .done, .ok ()⟩

/-- There is no TPM, and the configuration cannot be changed. -/
def readOnlyConfig : Replies :=
  ⟨false, .ok (), .done, ⟨false, some "setEnv is not a function"⟩, .ok ()⟩

theorem failed_rotation_iff_noPcrs :
    ((rotateSecret noPcrs .MESH_SECRET "new".toList).result inUse).1.isOk = false ∧
      Unchanged inUse ((rotateSecret noPcrs .MESH_SECRET "new".toList).result inUse).2 := by
  have hfresh : Fresh "new".toList inUse := by
    refine ⟨by decide, fun type ↦ ?_, nofun, nofun⟩
    cases type <;> decide
  exact ⟨rfl, (failed_rotation_iff noPcrs .MESH_SECRET hfresh).2 (.inl ⟨rfl, rfl⟩)⟩

/-- **A secret that nobody was told.** The configuration cannot be changed, and the rotation fails;
the new secret is accepted. -/
theorem failed_rotation_accepts :
    inUse.validateMeshSecret "new".toList = false ∧
      ((rotateSecret readOnlyConfig .MESH_SECRET "new".toList).result inUse).1.isOk = false ∧
      ((rotateSecret readOnlyConfig .MESH_SECRET "new".toList).result inUse).2.validateMeshSecret
        "new".toList = true := by
  decide +kernel

end Identity
