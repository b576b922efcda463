import CounterTerrorist.Core.JsText
import CounterTerrorist.Foundations.PatternLanguages
import CounterTerrorist.Foundations.Shell

/-!
# `COMMAND_POLICIES.sh` and `SystemExecutor.validateArguments`

Before a command is started, its arguments are checked against its policy. Nearly all commands are
started without a shell, and their arguments may not have any character that means something to one.
The exception is `sh -c`: two regular expressions say which texts may be given to the shell, and no
other check is made.

These agree with the way in which a shell reads a text (`sh_reads`): every text that is let through
is at most `umask 077`, and then one `echo` of one quoted word into one file, which is the name of a
process or a temporary profile. The word may have quotes in it, but only in the spelling that ends
the quotation, gives one quote after a backslash, and begins the quotation again: what a text
becomes when its quotes are escaped (`mem_body_iff`).
-/

namespace Commands

open Core Patterns Shell List Machine Option
open scoped Computability

/-! ### The policy of `sh` -/

/-- The fields of `CommandPolicy` that are read; a schema gives the messages of its issues. -/
structure CommandPolicy where
  schema : Option (List Text → List Text)
  blockedStrings : Option (List Text)
  schemaOwnsArgumentValidation : Bool

/-- `[a-zA-Z0-9._-]`. -/
def isSafe (c : Char) : Bool := c.isAlphanum || c == '.' || c == '_' || c == '-'

/-- `[^']`. -/
def notQuote (c : Char) : Bool := c != '\x27'

/-- `(?:[^']|'\\'')*`. -/
def profileBody : Pattern Char := star (alt [one notQuote, literal "'\\''".toList])

/-- `/^echo '[^']+' > \/proc\/[0-9]+\/comm$/`. -/
def commUpdate : Pattern Char :=
  seq (literal "echo '".toList) (seq (plus (one notQuote)) (seq (literal "' > /proc/".toList)
    (seq (plus (one Char.isDigit)) (literal "/comm".toList))))

/-- `/^(umask 077 && )?echo '(?:[^']|'\\'')*' > \/var\/lib\/cts\/tmp\/cts-profile-`, and then
`[a-zA-Z0-9._-]+\.profile$/`. -/
def profileWrite : Pattern Char :=
  seq (opt (literal "umask 077 && ".toList)) (seq (literal "echo '".toList) (seq profileBody
    (seq (literal "' > /var/lib/cts/tmp/cts-profile-".toList)
      (seq (plus (one isSafe)) (literal ".profile".toList)))))

def isCommUpdate (command : Text) : Bool := full commUpdate command

def isProfileWrite (command : Text) : Bool := full profileWrite command

/-- The refinement of the schema. -/
def shRefine : List Text → List Text
  | [flag, command] =>
    if flag ≠ "-c".toList then ["Only sh -c <command> is allowed".toList] else
    if isCommUpdate command = false ∧ isProfileWrite command = false then
      ["Unauthorized sh command pattern".toList]
    else []
  | _ => ["Only sh -c <command> is allowed".toList]

section Executor

-- the message of the schema library for an array with more elements than allowed
variable (tooBig : ℕ → Text)

/-- `z.array(z.string()).max(2).superRefine(…)`. -/
def shSchema (args : List Text) : List Text :=
  (if 2 < args.length then [tooBig 2] else []) ++ shRefine args

/-- `COMMAND_POLICIES["sh"]`. -/
def shPolicy : CommandPolicy where
  schema := some (shSchema tooBig)
  blockedStrings := none
  schemaOwnsArgumentValidation := true

end Executor

/-! ### `validateArguments` -/

/-- `basename` of the path library. -/
def basename (path : Text) : Text :=
  ((Text.split path '/').filter (· ≠ [])).getLast?.getD (if path = [] then [] else ['/'])

/-- `PATH_SENSITIVE_COMMANDS`. -/
def pathSensitiveCommands : List Text :=
  ["openssl", "mkdir", "cp", "mv", "chmod", "ls", "sha256sum", "sentinel", "ebpf", "analyzer",
    "watchfile", "netcap", "ssh", "scp"].map String.toList

/-- The policies, and the check of the arguments of path-sensitive commands. -/
structure SystemExecutor where
  tooBig : ℕ → Text
  commandPolicies : Text → Option CommandPolicy
  validateSensitiveArgument : Text → Text → Except Text Unit
  sh_entry : commandPolicies "sh".toList = some (shPolicy tooBig)

namespace SystemExecutor

variable (executor : SystemExecutor)

/-- `COMMAND_POLICIES[cmd] || COMMAND_POLICIES[baseCmd]`. -/
def policyOf (cmd : Text) : Option CommandPolicy :=
  (executor.commandPolicies cmd).or (executor.commandPolicies (basename cmd))

/-- `/[;&|><`$!]/.test(arg)`. -/
def hasMetacharacter (arg : Text) : Bool :=
  arg.any fun c ↦ c ∈ [';', '&', '|', '>', '<', '\x60', '$', '!']

/-- The sidecars that take messages as arguments. -/
def takesJson (baseCmd : Text) : Bool :=
  (["sentinel", "ebpf", "analyzer"].map String.toList).contains baseCmd

/-- The body of the loop over the arguments. -/
def validateArgument (cmd : Text) (policy : CommandPolicy) (arg : Text) : Except Text Unit := do
  if let some blocked := (policy.blockedStrings.getD []).find? (· <:+: arg) then
    throw ("Security Violation: Argument '".toList ++ arg ++ "' contains blocked sequence: '".toList
      ++ blocked ++ "'".toList)
  if policy.schemaOwnsArgumentValidation = false then
    if ¬(takesJson (basename cmd) = true ∧ arg.head? = some '\x7b') then
      if hasMetacharacter arg then
        throw "Security Violation: Shell metacharacter detected in command arguments.".toList
  if pathSensitiveCommands.contains (basename cmd) || pathSensitiveCommands.contains cmd then
    executor.validateSensitiveArgument arg (basename cmd)

/-- The reason if there is no schema. -/
def noPolicy (cmd : Text) : Text :=
  "No exhaustive Zod security policy defined for whitelisted command '".toList ++ cmd
    ++ "'. Blocking for safety.".toList

/-- The reason if the schema has issues. -/
def schemaFailed (cmd : Text) (issues : List Text) : Text :=
  "Structured validation failed for '".toList ++ basename cmd ++ "': ".toList
    ++ ", ".toList.intercalate issues

/-- `validateArguments`; an error is the reason. -/
def validateArguments (cmd : Text) (args : List Text) : Except Text Unit := do
  let some policy := executor.policyOf cmd | throw (noPolicy cmd)
  let some schema := policy.schema | throw (noPolicy cmd)
  if schema args ≠ [] then throw (schemaFailed cmd (schema args))
  args.forM (executor.validateArgument cmd policy)

variable {executor}

theorem policyOf_sh : executor.policyOf "sh".toList = some (shPolicy executor.tooBig) := by
  rw [policyOf, executor.sh_entry, some_or]

variable {args : List Text} {cmd : Text}

section

variable {policy : CommandPolicy} {schema : List Text → List Text}
  (hpolicy : executor.policyOf cmd = some policy) (hschema : policy.schema = some schema)
include hpolicy hschema

/-- First the schema and then the loop. -/
theorem validateArguments_eq : executor.validateArguments cmd args =
      if schema args ≠ [] then .error (schemaFailed cmd (schema args))
      else args.forM (executor.validateArgument cmd policy) := by
  simp only [validateArguments, hpolicy, hschema]
  by_cases h : schema args = []
  · simp [h]
  · simp only [ne_eq, h, not_false_eq_true, if_true]
    rfl

/-- Whatever is accepted is accepted by the schema. -/
theorem schema_of_validateArguments (h : executor.validateArguments cmd args = .ok ()) :
    schema args = [] := by
  rw [validateArguments_eq hpolicy hschema] at h
  by_contra hissues
  rw [if_pos hissues] at h
  cases h

end

/-- For `sh` itself, the schema is the whole check. -/
theorem validateArguments_sh_iff :
    executor.validateArguments "sh".toList args = .ok () ↔ shSchema executor.tooBig args = [] := by
  refine ⟨schema_of_validateArguments policyOf_sh rfl, fun h ↦ ?_⟩
  have harg (arg : Text) :
      executor.validateArgument "sh".toList (shPolicy executor.tooBig) arg = .ok () := rfl
  rw [validateArguments_eq policyOf_sh rfl, if_neg (not_not_intro h)]
  clear h
  induction args with
  | nil => rfl
  | cons arg args ih =>
    rw [List.forM, harg]
    exact ih

end SystemExecutor

/-! ### The texts that the policy lets through -/

/-- The files to which the shell may write. -/
inductive IsTarget : Text → Prop
  | comm {digits : Text} (hne : digits ≠ []) (hdigits : ∀ c ∈ digits, c.isDigit = true) :
    IsTarget ("/proc/".toList ++ digits ++ "/comm".toList)
  | profile {name : Text} (hne : name ≠ []) (hsafe : ∀ c ∈ name, isSafe c = true) :
    IsTarget ("/var/lib/cts/tmp/cts-profile-".toList ++ name ++ ".profile".toList)

/-- The text before `echo`. -/
def umaskText (umask : Bool) : Text := if umask then "umask 077 && ".toList else []

/-- Write a text into a file. -/
def echoText (content target : Text) : Text :=
  "echo '".toList ++ content.flatMap escapeChar ++ "' > ".toList ++ target

/-- What the body of a profile can be is what a text becomes when its quotes are escaped. -/
theorem mem_body_iff {body : Text} : body ∈ (letters notQuote + {"'\\''".toList})∗ ↔
      ∃ content : Text, body = content.flatMap escapeChar := by
  have hunit (w : Text) :
      w ∈ letters notQuote + {"'\\''".toList} ↔ ∃ c : Char, True ∧ w = escapeChar c := by
    simp only [true_and, Language.mem_add, mem_letters, mem_word, notQuote, bne_iff_ne]
    constructor
    · rintro (⟨c, hc, rfl⟩ | rfl)
      · exact ⟨c, (if_neg hc).symm⟩
      · exact ⟨'\x27', rfl⟩
    · rintro ⟨c, rfl⟩
      by_cases hc : c = '\x27'
      · exact .inr (if_pos hc)
      · exact .inl ⟨c, hc, if_neg hc⟩
  simp only [mem_kstar_of_image hunit, implies_true, true_and]

/-- What the body of a profile reads. -/
theorem reads_profileBody : Reads profileBody ((letters notQuote + {"'\\''".toList})∗) :=
  ((reads_one notQuote).alt (reads_literal _)).star

variable {text command : Text}

/-- Fixed texts with a word of a language after the first and the third. -/
theorem mem_frame_iff {L M : Language Char} {front middle middle' back : Text} :
    text ∈ ({front} : Language Char) * (L * ({middle ++ middle'} * (M * {back}))) ↔
      ∃ v ∈ L, ∃ w ∈ M, text = front ++ v ++ middle ++ (middle' ++ w ++ back) := by
  simp only [Language.mem_mul, mem_word, exists_eq_left]
  constructor
  · rintro ⟨-, ⟨v, hv, -, ⟨-, ⟨w, hw, rfl⟩, rfl⟩, rfl⟩, rfl⟩
    exact ⟨v, hv, w, hw, by simp only [append_assoc]⟩
  · rintro ⟨v, hv, w, hw, rfl⟩
    exact ⟨_, ⟨v, hv, _, ⟨_, ⟨w, hw, rfl⟩, rfl⟩, rfl⟩, by simp only [append_assoc]⟩

theorem mem_umask_iff {start : Text} :
    start ∈ ({"umask 077 && ".toList} : Language Char) + 1 ↔ ∃ umask, start = umaskText umask := by
  rw [Language.mem_add, mem_word, Language.mem_one, Bool.exists_bool, or_comm]
  rfl

/-- **What the first pattern accepts.** -/
theorem isProfileWrite_iff : isProfileWrite command = true ↔ ∃ (umask : Bool) (content name : Text),
      name ≠ [] ∧ (∀ c ∈ name, isSafe c = true) ∧ command = umaskText umask ++
        echoText content ("/var/lib/cts/tmp/cts-profile-".toList ++ name ++ ".profile".toList) := by
  have hreads := (reads_literal "umask 077 && ".toList).opt.seq <|
    (reads_literal "echo '".toList).seq <| reads_profileBody.seq <|
    (reads_literal "' > /var/lib/cts/tmp/cts-profile-".toList).seq <|
    (reads_plus_one isSafe).seq (reads_literal ".profile".toList)
  have hmid : "' > /var/lib/cts/tmp/cts-profile-".toList =
      "' > ".toList ++ "/var/lib/cts/tmp/cts-profile-".toList := by decide +kernel
  rw [isProfileWrite, profileWrite, hreads.full_iff, Language.mem_mul, hmid]
  constructor
  · rintro ⟨start, hstart, rest, hrest, rfl⟩
    obtain ⟨umask, rfl⟩ := mem_umask_iff.1 hstart
    obtain ⟨body, hbody, name, hname, rfl⟩ := mem_frame_iff.1 hrest
    obtain ⟨content, rfl⟩ := mem_body_iff.1 hbody
    exact ⟨umask, content, name, hname.1, hname.2, rfl⟩
  · rintro ⟨umask, content, name, hne, hsafe, rfl⟩
    exact ⟨_, mem_umask_iff.2 ⟨umask, rfl⟩, _, mem_frame_iff.2
      ⟨_, mem_body_iff.2 ⟨content, rfl⟩, name, ⟨hne, hsafe⟩, rfl⟩, rfl⟩

/-- A body that closes the quotation to write somewhere else is refused. -/
example : isProfileWrite
    "echo 'a' > /etc/passwd && echo 'b' > /var/lib/cts/tmp/cts-profile-x.profile".toList =
      false := by
  decide +kernel

/-- A text without quotes is its own escape. -/
theorem flatMap_escapeChar (h : ∀ c ∈ text, notQuote c = true) :
    text.flatMap escapeChar = text := by
  have hself : ∀ c ∈ text, escapeChar c = [c] := fun c hc ↦ if_neg (bne_iff_ne.1 (h c hc))
  rw [flatMap_congr hself, flatMap_singleton']

theorem echoText_of_notQuote {content : Text} (h : ∀ c ∈ content, notQuote c = true)
    (target : Text) :
    echoText content target = "echo '".toList ++ content ++ "' > ".toList ++ target :=
  congrArg (fun body ↦ "echo '".toList ++ body ++ "' > ".toList ++ target) (flatMap_escapeChar h)

/-- **What the second pattern accepts.** -/
theorem isCommUpdate_iff : isCommUpdate command = true ↔ ∃ content digits : Text,
      content ≠ [] ∧ (∀ c ∈ content, notQuote c = true) ∧
        digits ≠ [] ∧ (∀ c ∈ digits, c.isDigit = true) ∧
        command = echoText content ("/proc/".toList ++ digits ++ "/comm".toList) := by
  have hreads := (reads_literal "echo '".toList).seq <| (reads_plus_one notQuote).seq <|
    (reads_literal "' > /proc/".toList).seq <|
    (reads_plus_one Char.isDigit).seq (reads_literal "/comm".toList)
  have hmid : "' > /proc/".toList = "' > ".toList ++ "/proc/".toList := by
    decide +kernel
  rw [isCommUpdate, commUpdate, hreads.full_iff, hmid, mem_frame_iff]
  constructor
  · rintro ⟨content, hcont, digits, hdigits, rfl⟩
    exact ⟨content, digits, hcont.1, hcont.2, hdigits.1, hdigits.2,
      (echoText_of_notQuote hcont.2 _).symm⟩
  · rintro ⟨content, digits, hne, hquote, hne', hdigits, rfl⟩
    exact ⟨content, ⟨hne, hquote⟩, digits, ⟨hne', hdigits⟩, echoText_of_notQuote hquote _⟩

/-- The arguments that the schema accepts. -/
theorem exists_of_shSchema {tooBig : ℕ → Text} {args : List Text}
    (h : shSchema tooBig args = []) : ∃ (umask : Bool) (content target : Text), IsTarget target ∧
      args = ["-c".toList, umaskText umask ++ echoText content target] := by
  obtain ⟨-, href⟩ := append_eq_nil_iff.1 h
  unfold shRefine at href
  split at href
  case h_2 => cases href
  case h_1 flag command =>
    by_cases hflag : flag = "-c".toList
    case neg =>
      rw [if_pos hflag] at href
      cases href
    rw [if_neg (not_not_intro hflag)] at href
    subst hflag
    by_cases hprofile : isProfileWrite command = true
    · obtain ⟨umask, content, name, hne, hsafe, rfl⟩ := isProfileWrite_iff.1 hprofile
      exact ⟨umask, content, _, .profile hne hsafe, rfl⟩
    by_cases hcomm : isCommUpdate command = true
    · obtain ⟨content, digits, -, -, hne, hdigits, rfl⟩ := isCommUpdate_iff.1 hcomm
      exact ⟨false, content, _, .comm hne hdigits, rfl⟩
    rw [if_pos ⟨Bool.eq_false_iff.2 hcomm, Bool.eq_false_iff.2 hprofile⟩] at href
    cases href

/-! ### How the shell reads them -/

variable {target : Text}

theorem IsTarget.ne_nil (h : IsTarget target) : target ≠ [] := by
  cases h <;> exact cons_ne_nil _ _

/-- No character of a target means anything to the shell. -/
theorem IsTarget.bare (h : IsTarget target) : ∀ c ∈ target, c ∉ special := by
  -- The checks are by `List.all`: there are too many characters to go through all of them.
  have hfixed {text : Text} (htext : (text.all fun c ↦ decide (c ∉ special)) = true) :
      ∀ c ∈ text, c ∉ special :=
    fun c hc ↦ of_decide_eq_true (List.all_eq_true.1 htext c hc)
  have hclass {cls : Char → Bool} (hcls : (special.all fun c ↦ !cls c) = true) {text : Text}
      (htext : ∀ c ∈ text, cls c = true) : ∀ c ∈ text, c ∉ special := by
    intro c hc hmem
    have hfalse := List.all_eq_true.1 hcls c hmem
    rw [htext c hc] at hfalse
    exact Bool.false_ne_true hfalse
  cases h with
  | comm _ hdigits =>
    exact forall_mem_append.2 ⟨forall_mem_append.2
      ⟨hfixed (by decide +kernel), hclass (by decide +kernel) hdigits⟩,
      hfixed (by decide +kernel)⟩
  | profile _ hsafe =>
    exact forall_mem_append.2 ⟨forall_mem_append.2
      ⟨hfixed (by decide +kernel), hclass (by decide +kernel) hsafe⟩,
      hfixed (by decide +kernel)⟩

/-- The tokens before `echo`. -/
def umaskTokens (umask : Bool) : List Token :=
  if umask then
    [.word (bareWord "umask".toList), .word (bareWord "077".toList), .operator .andIf]
  else []

/-- An `echo` of one quoted word, and one output redirection. -/
def echoTokens (content target : Text) : List Token :=
  [.word (bareWord "echo".toList), .word (quotedWord content), .operator .great,
    .word (bareWord target)]

theorem run_umaskText (umask : Bool) :
    run step ⟨[], .blank⟩ (umaskText umask) = some ⟨umaskTokens umask, .blank⟩ := by
  cases umask
  · rfl
  · decide +kernel

theorem run_echo (tokens : List Token) : run step ⟨tokens, .blank⟩ "echo '".toList =
    some ⟨tokens ++ [.word (bareWord "echo".toList)], .single []⟩ := rfl

theorem run_great (tokens : List Token) (w : Word) : run step ⟨tokens, .single w⟩ "' > ".toList =
      some ⟨tokens ++ [.word w] ++ [.operator .great], .blank⟩ := rfl

/-- **A command that is let through is split into the tokens it should have.** -/
theorem split_echoText (umask : Bool) (content : Text) (h : IsTarget target) :
    split (umaskText umask ++ echoText content target) =
      some (umaskTokens umask ++ echoTokens content target) := by
  have hrun := run_trans (run_umaskText umask) <| run_trans
    (run_trans (run_trans (run_echo _) (run_escape content)) (run_great _ _))
    (run_blank_bare h.ne_nil h.bare)
  have happend (tokens : List Token) (a b c d : Token) :
      tokens ++ [a] ++ [b] ++ [c] ++ [d] = tokens ++ [a, b, c, d] := by
    simp only [append_assoc, cons_append, nil_append]
  exact (congrArg (Option.bind · Reader.finish) hrun).trans (congrArg some (happend _ _ _ _ _))

/-- The commands before `echo`. -/
def umaskCommands (umask : Bool) : List Command :=
  if umask then [⟨["umask".toList, "077".toList], []⟩] else []

/-- An `echo` of a text into a file. -/
def echoCommand (content target : Text) : Command := ⟨["echo".toList, content], [target]⟩

theorem andList_umaskTokens (umask : Bool) (tokens : List Token) :
    andList ⟨[], []⟩ (umaskTokens umask ++ tokens) =
      (andList ⟨[], []⟩ tokens).map (umaskCommands umask ++ ·) := by
  cases umask with
  | false => exact Option.map_id'.symm
  | true =>
    have hname : Command.add ⟨[], []⟩ (bareWord "umask".toList) =
        some ⟨["umask".toList], []⟩ := by decide +kernel
    have hmask : Command.add ⟨["umask".toList], []⟩ (bareWord "077".toList) =
        some ⟨["umask".toList, "077".toList], []⟩ := by decide +kernel
    have hfirst : andList ⟨[], []⟩ (umaskTokens true ++ tokens) =
        (Command.add ⟨[], []⟩ (bareWord "umask".toList)).bind fun cmd ↦
          (cmd.add (bareWord "077".toList)).bind fun cmd ↦
            andList cmd (.operator .andIf :: tokens) := rfl
    rewrite [hfirst, hname, bind_some, hmask, bind_some]
    rfl

theorem andList_echoTokens (content : Text) (h : IsTarget target) :
    andList ⟨[], []⟩ (echoTokens content target) = some [echoCommand content target] := by
  have hname : Command.add ⟨[], []⟩ (bareWord "echo".toList) = some ⟨["echo".toList], []⟩ := by
    decide +kernel
  have hcont : Command.add ⟨["echo".toList], []⟩ (quotedWord content) =
      some ⟨["echo".toList, content], []⟩ := by
    rewrite [Command.add, if_neg fun h ↦ cons_ne_nil _ _ h.1, field_quotedWord]
    rfl
  have hfirst : andList ⟨[], []⟩ (echoTokens content target) =
      (Command.add ⟨[], []⟩ (bareWord "echo".toList)).bind fun cmd ↦
        (cmd.add (quotedWord content)).bind fun cmd ↦ (field (bareWord target)).bind fun target ↦
          andList { cmd with output := cmd.output ++ [target] } [] := rfl
  rewrite [hfirst, hname, bind_some, hcont, bind_some, field_bareWord h.bare]
  rfl

/-- **It is read as the commands it should be.** -/
theorem read_echoText (umask : Bool) (content : Text) (h : IsTarget target) :
    Shell.read (umaskText umask ++ echoText content target) =
      some (umaskCommands umask ++ [echoCommand content target]) := by
  rewrite [Shell.read, split_echoText umask content h, bind_some, andList_umaskTokens,
    andList_echoTokens content h]
  rfl

/-- **Every text that the policy of `sh` lets through is an `echo` of one quoted word into one of
the files meant for it.** At most `umask 077` stands before it, and there is nothing else: no other
command, no other redirection, and nothing that is expanded. -/
theorem sh_reads {executor : SystemExecutor} {cmd : Text} {args : List Text}
    (hpolicy : executor.policyOf cmd = some (shPolicy executor.tooBig))
    (h : executor.validateArguments cmd args = .ok ()) :
    ∃ (command : Text) (umask : Bool) (content target : Text),
      args = ["-c".toList, command] ∧ IsTarget target ∧
        split command = some (umaskTokens umask ++ echoTokens content target) ∧
        Shell.read command = some (umaskCommands umask ++ [echoCommand content target]) := by
  obtain ⟨umask, content, target, htarget, hargs⟩ :=
    exists_of_shSchema (SystemExecutor.schema_of_validateArguments hpolicy rfl h)
  exact ⟨_, umask, content, target, hargs, htarget, split_echoText umask content htarget,
    read_echoText umask content htarget⟩

/-- An executor with no other policy. -/
def shellOnly : SystemExecutor where
  tooBig := fun _ ↦ "Too big".toList
  commandPolicies := fun cmd ↦
    if cmd = "sh".toList then some (shPolicy fun _ ↦ "Too big".toList) else none
  validateSensitiveArgument := fun _ _ ↦ .ok ()
  sh_entry := if_pos rfl

/-- A profile with a quote in it. -/
def quotedProfile : List Text :=
  ["-c".toList,
    "umask 077 && echo 'it'\\''s; id' > /var/lib/cts/tmp/cts-profile-a.profile".toList]

theorem sh_reads_quotedProfile :
    shellOnly.validateArguments "sh".toList quotedProfile = .ok () ∧
      ∃ (command : Text) (umask : Bool) (content target : Text),
        quotedProfile = ["-c".toList, command] ∧ IsTarget target ∧
          split command = some (umaskTokens umask ++ echoTokens content target) ∧
          Shell.read command = some (umaskCommands umask ++ [echoCommand content target]) := by
  have hvalid : shellOnly.validateArguments "sh".toList quotedProfile = .ok () :=
    SystemExecutor.validateArguments_sh_iff.2 (by decide +kernel)
  exact ⟨hvalid, sh_reads SystemExecutor.policyOf_sh hvalid⟩

end Commands
