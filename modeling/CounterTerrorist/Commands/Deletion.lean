import CounterTerrorist.Commands.ExecutionPolicy
import CounterTerrorist.Files.Paths

/-!
# Deleting temporary files

`rm` may delete the probe for reflinks and the profiles in `/var/lib/cts/tmp`. Its policy looks at
how a path begins and ends. What stands between may have slashes, and `..` between them, and `rm` is
not among the commands whose paths are checked for that. So the path may lead anywhere
(`deletion_leaves`). It is directly in the directory if the names that no `..` takes back are those
of the directories that other `..` have left, and one more (`deletions_inTmp_iff`), for example if
there is no slash after the directory.
-/

namespace Commands

open Core Files FileTree List

/-- How the path of a profile begins. -/
def profileStart : Text := "/var/lib/cts/tmp/cts-profile-".toList

/-- The refinement of the schema of `rm`. -/
def rmRefine (args : List Text) : List Text :=
  let paths := args.filter fun a ↦ a.head? ≠ some '-'
  (paths.filter fun p ↦ p ≠ "/var/lib/cts/tmp/cts_reflink_probe".toList ∧
    ¬(profileStart <+: p ∧ ".profile".toList <:+ p)).map fun _ ↦ "Unauthorized rm path".toList

/-- `z.array(z.string()).max(2).superRefine(…)`. -/
def rmSchema (tooBig : ℕ → Text) (args : List Text) : List Text :=
  (if 2 < args.length then [tooBig 2] else []) ++ rmRefine args

/-- `COMMAND_POLICIES["rm"]`. -/
def rmPolicy (tooBig : ℕ → Text) : CommandPolicy where
  schema := some (rmSchema tooBig)
  blockedStrings := none
  schemaOwnsArgumentValidation := false

/-- `/var/lib/cts/tmp`. -/
def tmpDir : List Name :=
  [⟨"var".toList, by decide⟩, ⟨"lib".toList, by decide⟩, ⟨"cts".toList, by decide⟩,
    ⟨"tmp".toList, by decide⟩]

/-- The path is, as a text, that of something directly in `/var/lib/cts/tmp`. -/
def InTmp (path : Text) : Prop := ∃ n, ∀ cwd, resolve cwd path = tmpDir ++ [n]

/-- The names after `/var/lib/cts/tmp/` that no `..` takes back are those of the directories that
the other `..` go up from, and one more. -/
def LeadsBack (rest : Text) : Prop :=
  let (ups, names) := remains (segsOf rest)
  ∃ n, names = tmpDir.drop (4 - ups) ++ [n]

/-- The path is then directly in the directory. -/
theorem inTmp_iff {rest : Text} :
    InTmp ("/var/lib/cts/tmp".toList ++ '/' :: rest) ↔ LeadsBack rest := by
  have hresolve (cwd : List Name) : resolve cwd ("/var/lib/cts/tmp".toList ++ '/' :: rest) =
      descend tmpDir (segsOf rest) := by
    rfl
  simp only [InTmp, hresolve, forall_const, descend_eq_remains]
  refine exists_congr fun n ↦ ?_
  have hsplit : tmpDir ++ [n] = tmpDir.take (4 - (remains (segsOf rest)).1) ++
      (tmpDir.drop (4 - (remains (segsOf rest)).1) ++ [n]) := by
    rw [← append_assoc, take_append_drop]
  rw [hsplit]
  exact append_right_inj _

/-- A name without a slash leads nowhere else. -/
theorem leadsBack_of_isName {rest : Text} (h : IsName rest) : LeadsBack rest := by
  refine ⟨⟨rest, h⟩, ?_⟩
  rw [segsOf, Text.split_of_notMem h.2.1, map_singleton, toSeg, dif_pos h]
  rfl

/-- **Where accepted deletions are.** Every path that is deleted is directly in `/var/lib/cts/tmp`
if and only if what follows this directory leads back to it, for every path of a profile. -/
theorem deletions_inTmp_iff {executor : SystemExecutor} {cmd : Text} {args : List Text}
    (hpolicy : executor.policyOf cmd = some (rmPolicy executor.tooBig))
    (h : executor.validateArguments cmd args = .ok ()) :
    (∀ arg ∈ args, arg.head? ≠ some '-' → InTmp arg) ↔
      ∀ rest, profileStart ++ rest ∈ args → LeadsBack ("cts-profile-".toList ++ rest) := by
  have hstart (rest : Text) : profileStart ++ rest =
      "/var/lib/cts/tmp".toList ++ '/' :: ("cts-profile-".toList ++ rest) := rfl
  constructor
  · intro hall rest hmem
    have hin := hall _ hmem (by decide : some '/' ≠ some '-')
    rw [hstart] at hin
    exact inTmp_iff.1 hin
  · intro hback arg hmem hoption
    have hschema : rmSchema executor.tooBig args = [] :=
      SystemExecutor.schema_of_validateArguments hpolicy rfl h
    have hrefine : rmRefine args = [] := (append_eq_nil_iff.1 hschema).2
    have hpath := filter_eq_nil_iff.1 (map_eq_nil_iff.1 hrefine) arg
      (mem_filter.2 ⟨hmem, decide_eq_true hoption⟩)
    rw [decide_eq_true_eq, not_and, not_not] at hpath
    by_cases hprobe : arg = "/var/lib/cts/tmp/cts_reflink_probe".toList
    · rw [hprobe, show "/var/lib/cts/tmp/cts_reflink_probe".toList =
        "/var/lib/cts/tmp".toList ++ '/' :: "cts_reflink_probe".toList from rfl]
      exact inTmp_iff.2 (leadsBack_of_isName (by decide))
    · obtain ⟨⟨rest, rfl⟩, -⟩ := hpath hprobe
      rw [hstart]
      exact inTmp_iff.2 (hback rest hmem)

/-- An executor with the policies of `sh` and `rm`. -/
def deleting : SystemExecutor where
  tooBig := shellOnly.tooBig
  commandPolicies := fun cmd ↦
    if cmd = "rm".toList then some (rmPolicy shellOnly.tooBig) else shellOnly.commandPolicies cmd
  validateSensitiveArgument := shellOnly.validateSensitiveArgument
  sh_entry := rfl

theorem deletions_inTmp_iff_profile :
    deleting.validateArguments "rm".toList [profileStart ++ "a.profile".toList] = .ok () ∧
      InTmp (profileStart ++ "a.profile".toList) := by
  have hvalid : deleting.validateArguments "rm".toList [profileStart ++ "a.profile".toList] =
      .ok () := by decide +kernel
  refine ⟨hvalid, (deletions_inTmp_iff rfl hvalid).2 (fun rest hmem ↦ ?_) _ mem_cons_self
    (by decide : some '/' ≠ some '-')⟩
  rw [append_cancel_left (mem_singleton.1 hmem)]
  exact leadsBack_of_isName (by decide)

/-- A path that is accepted and leads to another directory. -/
theorem deletion_leaves :
    deleting.validateArguments "rm".toList
        ["/var/lib/cts/tmp/cts-profile-/../../../../../etc/cron.d/x.profile".toList] = .ok () ∧
      ¬InTmp "/var/lib/cts/tmp/cts-profile-/../../../../../etc/cron.d/x.profile".toList := by
  refine ⟨by decide +kernel, fun ⟨n, hn⟩ ↦ ?_⟩
  have hlength : (resolve [] _).length = 5 := congrArg length (hn [])
  exact absurd hlength (by decide +kernel)

end Commands
