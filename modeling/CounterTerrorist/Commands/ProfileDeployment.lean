import CounterTerrorist.Commands.ExecutionPolicy

/-!
# How `KernelService` writes a profile

A profile for AppArmor is written by `sh -c`, because the executor has no other way to write a file.
The service puts it between single quotes and escapes the quotes in it. The policy of `sh` has to
accept that, and the shell has to give `echo` the profile as it was (`profile_round_trip`).

The name of a sidecar becomes a part of the name of the file, and so do the first characters of a
random UUID.
-/

namespace Commands

open Core Patterns Shell List

/-- `profile.replace(/'/g, "'\\''")`. -/
def escapeQuotes (profile : Text) : Text := replaceAll (one (· == '\x27')) "'\\''".toList profile

/-- `tempFile`. -/
def tempFile (name randomSuffix : Text) : Text :=
  "/var/lib/cts/tmp/cts-profile-".toList ++ (name ++ "-".toList ++ randomSuffix) ++
    ".profile".toList

/-- The arguments for `sh`. -/
def profileArgs (profile name randomSuffix : Text) : List Text :=
  ["-c".toList, "umask 077 && ".toList ++ ("echo '".toList ++ escapeQuotes profile ++
    "' > ".toList ++ tempFile name randomSuffix)]

/-- The replacement escapes one character after the other. -/
theorem escapeQuotes_eq (profile : Text) : escapeQuotes profile = profile.flatMap escapeChar := by
  induction profile with
  | nil => rfl
  | cons c cs ih =>
    rw [escapeQuotes, replaceAll, replaceFrom, flatMap_cons, ← ih]
    by_cases hc : c = '\x27'
    · rw [hc]
      show _ ++ replaceFrom _ _ (cs.length - cs.length) cs = _
      rw [Nat.sub_self]
      rfl
    · rw [one, if_neg (by simpa using hc), escapeChar, if_neg hc]
      rfl

/-- **Every profile arrives as it is.** The policy of `sh` accepts the command that the service
builds, and the shell reads it as an `echo` of the profile into the temporary file. -/
theorem profile_round_trip (executor : SystemExecutor) (profile : Text) {name randomSuffix : Text}
    (hname : ∀ c ∈ name, isSafe c = true) (hsuffix : ∀ c ∈ randomSuffix, isSafe c = true) :
    executor.validateArguments "sh".toList (profileArgs profile name randomSuffix) = .ok () ∧
      ∃ command, profileArgs profile name randomSuffix = ["-c".toList, command] ∧
        Shell.read command = some [⟨["umask".toList, "077".toList], []⟩,
          ⟨["echo".toList, profile], [tempFile name randomSuffix]⟩] := by
  have hsafe : ∀ c ∈ name ++ "-".toList ++ randomSuffix, isSafe c = true :=
    forall_mem_append.2 ⟨forall_mem_append.2
      ⟨hname, List.all_eq_true.1 (by decide +kernel)⟩, hsuffix⟩
  have hne : name ++ "-".toList ++ randomSuffix ≠ [] := append_ne_nil_of_left_ne_nil
    (append_ne_nil_of_right_ne_nil _ (by decide +kernel)) _
  have hcommand : profileArgs profile name randomSuffix =
      ["-c".toList, umaskText true ++ echoText profile (tempFile name randomSuffix)] := by
    rw [profileArgs, escapeQuotes_eq]
    rfl
  have hwrite : isProfileWrite (umaskText true ++ echoText profile (tempFile name randomSuffix)) =
      true := isProfileWrite_iff.2 ⟨true, profile, _, hne, hsafe, rfl⟩
  have htarget : IsTarget (tempFile name randomSuffix) := .profile hne hsafe
  refine ⟨SystemExecutor.validateArguments_sh_iff.2 ?_, _, hcommand,
    read_echoText true profile htarget⟩
  rw [hcommand, shSchema, shRefine, hwrite]
  simp

/-- A profile with a quote in it. -/
theorem profile_round_trip_quote :
    shellOnly.validateArguments "sh".toList
        (profileArgs "it's".toList "netcap".toList "0a1b2c3d".toList) = .ok () ∧
      ∃ command, profileArgs "it's".toList "netcap".toList "0a1b2c3d".toList =
          ["-c".toList, command] ∧
        Shell.read command = some [⟨["umask".toList, "077".toList], []⟩,
          ⟨["echo".toList, "it's".toList],
            [tempFile "netcap".toList "0a1b2c3d".toList]⟩] :=
  profile_round_trip shellOnly "it's".toList (List.all_eq_true.1 (by decide +kernel))
    (List.all_eq_true.1 (by decide +kernel))

end Commands
