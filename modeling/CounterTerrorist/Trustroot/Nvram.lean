import CounterTerrorist.Core.Json
import CounterTerrorist.Foundations.InsertionMap
import CounterTerrorist.Foundations.Run

/-!
# The virtual TPM

Without a TPM, `trustroot` keeps one table in a file: the entries of the NV indices under `nv`, the
proxy keys under `keys`, the key of the CA under `ca`. Every command loads the table (`loadState`),
and the commands that change it write it back as a whole.

`load_state` gives the empty table for a file that is missing, empty, not JSON, or that cannot be
read now, and the next command that saves puts its own entry into that one.
`commands_frame_iff` says when a command leaves everything else as it was.

A saved table is an object, and no proper beginning of its text is JSON. So a write that is cut
short leaves a file without a table. Commands that neither use nor change the table are left out,
and so is the XOR with the machine id, which undoes itself.
-/

namespace Trustroot

open Core InsertionMap

/-! ### The table -/

/-- `value[key] = x`; `none` is a panic. A field is replaced or added at the end; what is missing or
`null` becomes an object. -/
def assign (v : JsTree) (k : String) (x : JsTree) : Option JsTree :=
  match v with
  | .obj entries => some (.obj (setIn k x entries))
  | .null | .undefined => some (.obj [(k, x)])
  | _ => none

/-- `state[table][key] = x`. -/
def assignIn (state : JsTree) (table key : String) (x : JsTree) : Option JsTree :=
  (assign (state.get table) key x).bind (assign state table)

/-- What an assignment changes is the field. -/
theorem get_assign {v w x : JsTree} {k : String} (h : assign v k x = some w) (j : String) :
    w.get j = if j = k then x else v.get j := by
  cases v with
  | obj entries =>
    cases h
    rw [JsTree.get, lookup_setIn]
    split <;> rfl
  | null | undefined =>
    cases h
    rw [JsTree.get, lookup_cons_eq_ite]
    split <;> rfl
  | _ => cases h

/-- The same two levels down. -/
theorem get_assignIn {s t x : JsTree} {table key : String} (h : assignIn s table key x = some t)
    (table' key' : String) : (t.get table').get key' =
      if table' = table ∧ key' = key then x else (s.get table').get key' := by
  obtain ⟨u, hu, ht⟩ := Option.bind_eq_some_iff.1 h
  rw [get_assign ht]
  by_cases htable : table' = table
  · rw [if_pos htable, get_assign hu, htable]
    simp
  · rw [if_neg htable, if_neg fun h ↦ htable h.1]

/-- The entry of an index. -/
def entry (state : JsTree) (index : String) : JsTree := (state.get "nv").get index

/-- A proxy key. -/
def proxyKey (state : JsTree) (keyId : String) : JsTree := (state.get "keys").get keyId

/-! ### Commands -/

/-- `TpmCommand`, as far as it concerns the table. For the CA there is what was generated. -/
inductive TpmCommand
  | sealAt (index data : String) (auth : Option String) (pcrs : Option (List (String × String)))
  | unsealAt (index : String) (auth : Option String)
  | wipeSecrets
  | nvDefine (index : String) (size : ℕ) (auth : Option String)
  | nvWrite (index data : String) (auth : Option String)
  | nvRead (index : String) (auth : Option String)
  | generateProxyKey (keyId : String)
  | generateSelfSignedCA (cert key : String)

/-- A command, the time, and the current PCR values. -/
structure TpmCall where
  command : TpmCommand
  now : String
  pcrs : ℕ → Option String

/-- What a command comes to. A table is saved with a message for success and one for failure. -/
inductive Outcome
  | respond (success : Bool) (message : String) (data : Option JsTree)
  | save (state : JsTree) (done failed : String)
  | removeFile
  | abort

/-- The JSON of an optional text. -/
def ofAuth : Option String → JsTree
  | some a => .str a
  | none => .null

/-- The JSON of a policy. -/
def ofPcrs : Option (List (String × String)) → JsTree
  | some pcrs => .obj (pcrs.map fun (idx, val) ↦ (idx, .str val))
  | none => .null

/-- `as_str`. -/
def asStr : JsTree → Option String
  | .str s => some s
  | _ => none

/-- The policy is checked: the message for the first PCR that does not have its value. -/
def policyError (parse : String → Option ℕ) (current : ℕ → Option String) (index : String) :
    List (String × JsTree) → Option String
  | [] => none
  | (idxStr, expected) :: rest =>
    let idx := (parse idxStr).getD 999
    let violation := "PCR Policy Violation for index " ++ index ++ ": PCR " ++ toString idx
    match current idx with
    | some val =>
      if asStr expected = some val then policyError parse current index rest
      else some (violation ++ " mismatch")
    | none => some (violation ++ " not available")

/-- `as_object`, of a policy. -/
def fields : JsTree → List (String × JsTree)
  | .obj entries => entries
  | _ => []

/-- The table is saved, unless there was a panic. -/
def saving (state : Option JsTree) (done failed : String) : Outcome :=
  match state with
  | some state => .save state done failed
  | none => .abort

/-- The response to a wrong password. -/
def authFailed : Outcome :=
  .respond false "TPM Authorization Failed: Invalid NVRAM password" none

/-- `if let Some(entry) = value`, on a value that may be missing. -/
def ifFound (e : JsTree) (missing : Outcome) (found : JsTree → Outcome) : Outcome :=
  match e with
  | .undefined => missing
  | e => found e

/-- What is there is found. -/
theorem ifFound_of_ne {e : JsTree} (h : e ≠ .undefined) (missing : Outcome)
    (found : JsTree → Outcome) : ifFound e missing found = found e := by
  cases e with
  | undefined => exact absurd rfl h
  | _ => rfl

/-- The branches of `main`. -/
def handle (parse : String → Option ℕ) (call : TpmCall) (state : JsTree) : Outcome :=
  match call.command with
  | .sealAt index data auth pcrs =>
    saving (assignIn state "nv" index (.obj [("data", .str data), ("sealed", .bool true),
      ("auth", ofAuth auth), ("pcrs", ofPcrs pcrs), ("timestamp", .str call.now)]))
      ("Data sealed to virtual hardware index " ++ index) "Failed to persist virtual TPM state"
  | .unsealAt index auth =>
    ifFound (entry state index)
      (.respond false ("Index " ++ index ++ " not found in virtual TPM") none) fun e ↦
      if (asStr (e.get "auth")).isSome ∧ auth ≠ asStr (e.get "auth") then authFailed
      else
        match policyError parse call.pcrs index (fields (e.get "pcrs")) with
        | some message => .respond false message none
        | none =>
          .respond true ("Unsealed from index " ++ index) (some (.obj [("data", e.get "data")]))
  | .wipeSecrets => .removeFile
  | .nvDefine index size auth =>
    if auth = none then
      .respond false "TPM Authorization Error: NV index must be defined with a password" none
    else
      saving (assignIn state "nv" index (.obj [("size", .num size), ("auth", ofAuth auth),
        ("data", .str ""), ("defined", .bool true), ("timestamp", .str call.now)]))
        ("NV index " ++ index ++ " defined with authorization") "Failed to persist NV definition"
  | .nvWrite index data auth =>
    -- `state["nv"]` is taken as a place here, which panics if there cannot be one
    if (assign state "nv" .null).isNone then .abort
    else
      ifFound (entry state index) (.respond false ("NV index " ++ index ++ " not defined") none)
        fun e ↦
        if auth.getD "" ≠ (asStr (e.get "auth")).getD "" then authFailed
        else
          let written := (assign e "data" (.str data)).bind (assign · "timestamp" (.str call.now))
          saving (written.bind (assignIn state "nv" index))
            ("Data written to NV index " ++ index) "Failed to persist NV write"
  | .nvRead index auth =>
    ifFound (entry state index)
      (if index = "0x1500002" then
        .respond true "Read from legacy NV index" (some (.obj [("data",
          .str "e3b0c44298fc1c149afbf4c8996fb92427ae41e4649b934ca495991b7852b855")]))
      else .respond false ("NV index " ++ index ++ " not found") none) fun e ↦
      if auth.getD "" ≠ (asStr (e.get "auth")).getD "" then authFailed
      else .respond true ("Read from NV index " ++ index)
        (some (.obj [("data", .str ((asStr (e.get "data")).getD ""))]))
  | .generateProxyKey keyId =>
    match state with
    | .obj _ =>
      saving (assignIn state "keys" keyId (.str ("proxy-key-data-" ++ keyId)))
        ("Hardware-resident proxy key '" ++ keyId ++ "' generated.") "Failed to persist proxy key"
    | _ => .abort
  | .generateSelfSignedCA cert key =>
    -- the response does not depend on whether the table was saved
    saving (assign state "ca" (.obj [("cert", .str cert), ("key", .str key)]))
      "Root CA generated and hardware-bound" "Root CA generated and hardware-bound"

/-- `{ "nv": {}, "keys": {} }`. -/
def emptyState : JsTree := .obj [("nv", .obj []), ("keys", .obj [])]

/-! ### Commands on the file -/

/-- How a write ends. One that is cut short has truncated the file before. -/
inductive Write
  | done
  | failed
  | cut

/-- A command, whether the file can be read then, and how a write would end. -/
structure Event where
  call : TpmCall
  readable : Bool
  write : Write

/-- The table of a file. `none` is a file that is missing, empty, or not JSON. -/
def stored (file : Option JsTree) : JsTree := file.getD emptyState

/-- `load_state`. -/
def loadState (file : Option JsTree) (readable : Bool) : JsTree :=
  if readable then stored file else emptyState

/-- The file after a command. -/
def nextFile (parse : String → Option ℕ) (file : Option JsTree) (ev : Event) : Option JsTree :=
  match handle parse ev.call (loadState file ev.readable), ev.write with
  | .save state _ _, .done => some state
  | .save .., .cut | .removeFile, _ => none
  | _, _ => file

/-- The index that a command writes. -/
def TpmCommand.written : TpmCommand → Option String
  | .sealAt index .. | .nvDefine index .. | .nvWrite index .. => some index
  | _ => none

/-- Both tables have the same keys, that of the CA among them, and the same entries except for one
index. -/
structure SameOthers (index : String) (s t : JsTree) : Prop where
  entries : ∀ j ≠ index, entry t j = entry s j
  keys : ∀ k, proxyKey t k = proxyKey s k
  ca : t.get "ca" = s.get "ca"

/-- A command that writes an index leaves all others alone. -/
def Frames (parse : String → Option ℕ) (file : Option JsTree) (ev : Event) : Prop :=
  ∀ index, ev.call.command.written = some index →
    SameOthers index (stored file) (stored (nextFile parse file ev))

/-- The command is refused, the file can be read and written, it is not touched, or there is nothing
else in it. -/
def Intact (parse : String → Option ℕ) (file : Option JsTree) (ev : Event) : Prop :=
  ∀ index, ev.call.command.written = some index →
    (∀ state done failed,
      handle parse ev.call (loadState file ev.readable) ≠ .save state done failed) ∨
    ev.write = .failed ∨ (ev.readable = true ∧ ev.write = .done) ∨
    SameOthers index emptyState (stored file)

section Frame

variable {s t u : JsTree} {call : TpmCall} {index : String}

theorem SameOthers.refl (index : String) (s : JsTree) : SameOthers index s s :=
  ⟨fun _ _ ↦ rfl, fun _ ↦ rfl, rfl⟩

theorem SameOthers.symm (h : SameOthers index s t) : SameOthers index t s :=
  ⟨fun j hj ↦ (h.entries j hj).symm, fun k ↦ (h.keys k).symm, h.ca.symm⟩

theorem SameOthers.trans (h : SameOthers index s t) (h' : SameOthers index t u) :
    SameOthers index s u :=
  ⟨fun j hj ↦ (h'.entries j hj).trans (h.entries j hj), fun k ↦ (h'.keys k).trans (h.keys k),
    h'.ca.trans h.ca⟩

/-- A new value for an index leaves the rest of the table as it is. -/
theorem sameOthers_assignIn {x : JsTree} (h : assignIn s "nv" index x = some t) :
    SameOthers index s t := by
  refine ⟨fun j hj ↦ ?_, fun k ↦ ?_, ?_⟩
  · rw [entry, get_assignIn h, if_neg fun h ↦ hj h.2, entry]
  · rw [proxyKey, get_assignIn h, if_neg (by simp), proxyKey]
  · obtain ⟨nv, -, ht⟩ := Option.bind_eq_some_iff.1 h
    rw [get_assign ht, if_neg (by decide)]

/-- The outcome writes nothing, or a table with a new value for one index. -/
def Outcome.WritesOnly (index : String) (s : JsTree) : Outcome → Prop
  | .save t _ _ => ∃ x, assignIn s "nv" index x = some t
  | .removeFile => False
  | _ => True

/-- A table that is saved has a new value for one index, if it was made so. -/
theorem writesOnly_saving {x : Option JsTree}
    (h : ∀ t, x = some t → ∃ y, assignIn s "nv" index y = some t) (done failed : String) :
    (saving x done failed).WritesOnly index s := by
  cases x with
  | none => exact trivial
  | some t => exact h t rfl

/-- The commands that write an index write nothing else into the table that they have loaded. -/
theorem writesOnly_handle (parse : String → Option ℕ) (s : JsTree)
    (hidx : call.command.written = some index) :
    (handle parse call s).WritesOnly index s := by
  rw [handle]
  cases hcmd : call.command with
  | sealAt i data auth pcrs =>
    obtain rfl : i = index := by simpa [hcmd, TpmCommand.written] using hidx
    exact writesOnly_saving (fun t ht ↦ ⟨_, ht⟩) _ _
  | nvDefine i size auth =>
    obtain rfl : i = index := by simpa [hcmd, TpmCommand.written] using hidx
    simp only
    split
    · trivial
    · exact writesOnly_saving (fun t ht ↦ ⟨_, ht⟩) _ _
  | nvWrite i data auth =>
    obtain rfl : i = index := by simpa [hcmd, TpmCommand.written] using hidx
    simp only
    split
    · trivial
    · by_cases hfound : entry s i = .undefined
      · rw [hfound]
        trivial
      · rw [ifFound_of_ne hfound]
        split
        · trivial
        · refine writesOnly_saving (fun t ht ↦ ?_) _ _
          obtain ⟨x, -, hx⟩ := Option.bind_eq_some_iff.1 ht
          exact ⟨x, hx⟩
  | _ => simp [hcmd, TpmCommand.written] at hidx

/-- One command touches only its own index exactly on an intact file. -/
theorem frames_iff_intact (parse : String → Option ℕ) (file : Option JsTree) (ev : Event) :
    Frames parse file ev ↔ Intact parse file ev := by
  refine forall_congr' fun index ↦ forall_congr' fun hidx ↦ ?_
  have hwrites := writesOnly_handle parse (loadState file ev.readable) hidx
  rw [nextFile]
  cases hout : handle parse ev.call (loadState file ev.readable) with
  | save t done failed =>
    rw [hout] at hwrites
    obtain ⟨x, hx⟩ := hwrites
    have hsame := sameOthers_assignIn hx
    rw [or_iff_right fun h ↦ h t done failed rfl]
    cases hwrite : ev.write with
    | done =>
      cases hread : ev.readable with
      | true =>
        rw [hread] at hsame
        exact iff_of_true hsame (.inr (.inl ⟨rfl, rfl⟩))
      | false =>
        -- the new entry was put into the empty table
        rw [hread] at hsame
        rw [or_iff_right nofun, or_iff_right fun h ↦ nomatch h.1]
        exact ⟨fun h ↦ hsame.trans h.symm, fun h ↦ h.symm.trans hsame⟩
    | failed => exact iff_of_true (.refl index _) (.inl rfl)
    | cut =>
      rw [or_iff_right nofun, or_iff_right fun h ↦ nomatch h.2]
      exact ⟨SameOthers.symm, SameOthers.symm⟩
  | removeFile =>
    rw [hout] at hwrites
    cases hwrites
  | _ => exact iff_of_true (.refl index _) (.inl nofun)

/-- A table with one sealed entry. -/
def sealedState : JsTree :=
  .obj [("nv", .obj [("0x1", .obj [("data", .str "secret"), ("sealed", .bool true),
    ("auth", .str "pw"), ("pcrs", .obj [("0", .str "0xab")]), ("timestamp", .str "t")])])]

end Frame

end Trustroot
