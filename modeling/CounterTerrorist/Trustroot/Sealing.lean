import CounterTerrorist.Trustroot.Nvram

/-!
# Sealed data

`Unseal` checks the password and the PCR policy of an entry. The other commands use the same table:
`NvRead` looks only at the password, `Seal` and `NvDefine` replace an entry without looking at it,
and to `NvRead` and `NvWrite` a missing password is the empty one. `sealed_protected_iff` says for
which commands sealed data is protected, in every run of commands on a file that can be read and
written.
-/

namespace Trustroot

open Core InsertionMap Option

/-! ### What is protected -/

/-- The index of a command. -/
def TpmCommand.index : TpmCommand → Option String
  | .sealAt index .. | .unsealAt index .. | .nvDefine index .. | .nvWrite index .. |
    .nvRead index .. => some index
  | _ => none

/-- The password that a command presents. -/
def TpmCommand.auth : TpmCommand → Option String
  | .sealAt _ _ auth _ | .unsealAt _ auth | .nvDefine _ _ auth | .nvWrite _ _ auth |
    .nvRead _ auth => auth
  | _ => none

/-- The data of a response. -/
def Outcome.data : Outcome → Option JsTree
  | .respond _ _ data => data
  | _ => none

/-- The table afterwards. -/
def Outcome.next (state : JsTree) : Outcome → JsTree
  | .save state' _ _ => state'
  | .removeFile => emptyState
  | _ => state

/-- A command, on a file that can be read and written. -/
def nextTable (parse : String → Option ℕ) (s : JsTree) (call : TpmCall) : Option JsTree :=
  some ((handle parse call s).next s)

/-- The entry holds data that was sealed with a password and a policy. -/
structure Sealed (e : JsTree) (data : String) (auth : Option String)
    (pcrs : Option (List (String × String))) : Prop where
  isSealed : e.get "sealed" = .bool true
  data : e.get "data" = .str data
  auth : e.get "auth" = ofAuth auth
  pcrs : e.get "pcrs" = ofPcrs pcrs

/-- If there is a password, it was presented. -/
def Presents (auth presented : Option String) : Prop := auth.isSome → presented = auth

/-- The current PCR values match a policy. -/
def Matches (parse : String → Option ℕ) (current : ℕ → Option String)
    (pcrs : Option (List (String × String))) : Prop :=
  ∀ p ∈ pcrs.getD [], current ((parse p.1).getD 999) = some p.2

/-- A response has sealed data only for the password and under the policy, and the entry is changed
only for the password, or with everything. -/
def Protected (parse : String → Option ℕ) (s : JsTree) (call : TpmCall) : Prop :=
  ∀ index data auth pcrs, Sealed (entry s index) data auth pcrs →
    (call.command.index = some index →
      (handle parse call s).data = some (.obj [("data", .str data)]) →
      Presents auth call.command.auth ∧ Matches parse call.pcrs pcrs) ∧
    (entry ((handle parse call s).next s) index ≠ entry s index →
      Presents auth call.command.auth ∨ call.command = .wipeSecrets)

/-- What a command on a sealed index has to present. -/
def Required (parse : String → Option ℕ) (call : TpmCall) (e : JsTree) (data : String)
    (auth : Option String) (pcrs : Option (List (String × String))) : Prop :=
  match call.command with
  | .sealAt _ _ presented _ => Presents auth presented
  | .nvDefine _ _ presented => presented = none ∨ Presents auth presented
  | .nvWrite _ data' presented =>
    auth = some "" → presented = none → data' = data ∧ e.get "timestamp" = .str call.now
  | .nvRead _ presented =>
    presented.getD "" = auth.getD "" → Presents auth presented ∧ Matches parse call.pcrs pcrs
  | _ => True

/-- The command presents what is required for its index. -/
def Proper (parse : String → Option ℕ) (s : JsTree) (call : TpmCall) : Prop :=
  ∀ index data auth pcrs, call.command.index = some index →
    Sealed (entry s index) data auth pcrs → Required parse call (entry s index) data auth pcrs

/-! ### What a command does -/

section

variable {parse : String → Option ℕ} {s x : JsTree} {call : TpmCall} {index data : String}
  {auth : Option String} {pcrs : Option (List (String × String))}

variable {e : JsTree} {k : String}

theorem Sealed.ne_undefined (h : Sealed e data auth pcrs) : e ≠ .undefined := by
  rintro rfl
  cases h.data

theorem Sealed.asStr_auth (h : Sealed e data auth pcrs) : asStr (e.get "auth") = auth := by
  rw [h.auth]
  cases auth <;> rfl

theorem exists_obj_of_get {v : JsTree} (h : v.get k ≠ .undefined) :
    ∃ entries, v = .obj entries := by
  cases v with
  | obj entries => exact ⟨entries, rfl⟩
  | _ => exact absurd rfl h

theorem entry_next_saving (h : entry s index ≠ .undefined) (x : JsTree) (done failed : String) :
    entry ((saving (assignIn s "nv" index x) done failed).next s) index = x := by
  obtain ⟨entries, hnv⟩ := exists_obj_of_get h
  obtain ⟨fields, rfl⟩ := exists_obj_of_get (k := "nv") (by rw [hnv]; exact nofun)
  have hx : assignIn (.obj fields) "nv" index x =
      some (.obj (setIn "nv" (.obj (setIn index x entries)) fields)) := by
    rw [assignIn, hnv]
    rfl
  rw [hx]
  exact (get_assignIn hx "nv" index).trans (if_pos ⟨rfl, rfl⟩)

theorem data_saving (x : Option JsTree) (done failed : String) :
    (saving x done failed).data = none := by
  cases x <;> rfl

variable {es : List (String × JsTree)}

theorem setIn_of_lookup (h : es.lookup k = some x) : setIn k x es = es := by
  induction es with
  | nil => cases h
  | cons e es ih =>
    obtain ⟨j, v⟩ := e
    rw [lookup_cons_eq_ite] at h
    rw [setIn]
    by_cases hj : j = k
    · rw [if_pos hj.symm] at h
      have hv : v = x := some.inj h
      rw [if_pos hj, hj, hv]
    · rw [if_neg (Ne.symm hj)] at h
      rw [if_neg hj, ih h]

/-- Writing an entry changes it, unless data and time are the same. -/
theorem setIn_eq_iff (data' now : String) (hdata : (JsTree.obj es).get "data" = .str data) :
    JsTree.obj (setIn "timestamp" (.str now) (setIn "data" (.str data') es)) = .obj es ↔
      data' = data ∧ (JsTree.obj es).get "timestamp" = .str now := by
  have hlook {k v : String} (h : (JsTree.obj es).get k = .str v) :
      es.lookup k = some (.str v) := by
    rw [JsTree.get] at h
    cases hk : es.lookup k with
    | none => simp [hk] at h
    | some w => simpa [hk] using h
  constructor
  · intro hsame
    have hnew (k : String) := congrArg (JsTree.get · k) hsame
    have hd := (hnew "data").symm.trans rfl
    have ht := hnew "timestamp"
    simp only [JsTree.get, lookup_setIn] at hd ht hdata ⊢
    exact ⟨by simpa [hdata] using hd.symm, by simpa using ht.symm⟩
  · rintro ⟨rfl, htime⟩
    rw [setIn_of_lookup (hlook hdata), setIn_of_lookup (hlook htime)]

theorem matches_of_policyError {current : ℕ → Option String}
    (h : policyError parse current index (fields (ofPcrs pcrs)) = none) :
    Matches parse current pcrs := by
  cases pcrs with
  | none => exact nofun
  | some p =>
    induction p with
    | nil => exact nofun
    | cons p ps ih =>
      simp only [ofPcrs, fields, List.map_cons, policyError] at h
      cases hval : current ((parse p.1).getD 999) with
      | none => simp [hval] at h
      | some val =>
        simp only [hval, asStr, Option.some.injEq] at h
        split at h
        · rename_i hsame
          exact List.forall_mem_cons.2 ⟨hval.trans (congrArg some hsame.symm), ih h⟩
        · cases h

/-- Other entries stay. -/
theorem Outcome.WritesOnly.entry_next {out : Outcome} {i : String} (h : out.WritesOnly i s)
    (hne : index ≠ i) : entry (out.next s) index = entry s index := by
  cases out with
  | save t done failed =>
    obtain ⟨x, hx⟩ := h
    exact (sameOthers_assignIn hx).1 index hne
  | removeFile => cases h
  | _ => rfl

/-- A command leaves the other indices alone, unless it wipes everything. -/
theorem entry_next_of_ne (hidx : call.command.index ≠ some index)
    (hwipe : call.command ≠ .wipeSecrets) :
    entry ((handle parse call s).next s) index = entry s index := by
  cases hwritten : call.command.written with
  | some i =>
    refine (writesOnly_handle parse s hwritten).entry_next fun hi ↦ hidx ?_
    cases hcmd : call.command <;> simp_all [TpmCommand.written, TpmCommand.index]
  | none =>
    rw [handle]
    cases hcmd : call.command with
    | unsealAt i presented =>
      simp only
      by_cases hfound : entry s i = .undefined
      · rw [hfound]
        rfl
      · rw [ifFound_of_ne hfound]
        split
        · rfl
        · split <;> rfl
    | nvRead i presented =>
      simp only
      by_cases hfound : entry s i = .undefined
      · rw [hfound]
        split <;> rfl
      · rw [ifFound_of_ne hfound]
        split <;> rfl
    | generateProxyKey keyId =>
      cases s with
      | obj entries =>
        simp only
        cases hx : assignIn (.obj entries) "keys" keyId (.str ("proxy-key-data-" ++ keyId)) with
        | none => rfl
        | some t => exact (get_assignIn hx "nv" index).trans (if_neg (by simp))
      | _ => rfl
    | generateSelfSignedCA cert key =>
      simp only
      cases hx : assign s "ca" (.obj [("cert", .str cert), ("key", .str key)]) with
      | none => rfl
      | some t =>
        exact congrArg (JsTree.get · index) ((get_assign hx "nv").trans (if_neg (by simp)))
    | wipeSecrets => exact absurd hcmd hwipe
    | _ => simp [hcmd, TpmCommand.written] at hwritten

/-- On its own index, a command is protected exactly if it presents what is required. -/
theorem protected_at_iff (hidx : call.command.index = some index)
    (hsealed : Sealed (entry s index) data auth pcrs) :
    (((handle parse call s).data = some (.obj [("data", .str data)]) →
        Presents auth call.command.auth ∧ Matches parse call.pcrs pcrs) ∧
      (entry ((handle parse call s).next s) index ≠ entry s index →
        Presents auth call.command.auth ∨ call.command = .wipeSecrets)) ↔
      Required parse call (entry s index) data auth pcrs := by
  have hne := hsealed.ne_undefined
  have hstored := hsealed.asStr_auth
  have hnone {p : Prop} (h : none = some (JsTree.obj [("data", .str data)])) : p := by cases h
  obtain ⟨command, now, current⟩ := call
  have hnew {x : JsTree} {presented : Option String} (hx : x.get "auth" = ofAuth presented)
      (hsame : x = entry s index) : Presents auth presented := by
    rw [hsame, hsealed.auth] at hx
    cases auth <;> cases presented <;> simp_all [ofAuth, Presents]
  cases command with
  | sealAt i data' presented pcrs' =>
    obtain rfl : i = index := some.inj hidx
    simp only [handle, entry_next_saving hne, data_saving]
    refine ⟨fun h ↦ by_contra fun hno ↦ ?_, fun h ↦ ⟨hnone, fun _ ↦ .inl h⟩⟩
    exact (h.2 fun hsame ↦ hno (hnew rfl hsame)).elim hno (by simp)
  | nvDefine i size presented =>
    obtain rfl : i = index := some.inj hidx
    simp only [handle, Required]
    cases presented with
    | none => exact iff_of_true ⟨hnone, fun h ↦ absurd rfl h⟩ (.inl rfl)
    | some a =>
      simp only [reduceCtorEq, if_false, entry_next_saving hne, data_saving, false_or]
      refine ⟨fun h ↦ by_contra fun hno ↦ ?_, fun h ↦ ⟨False.elim, fun _ ↦ .inl h⟩⟩
      exact (h.2 fun hsame ↦ hno (hnew rfl hsame)).elim hno (by simp)
  | nvWrite i data' presented =>
    obtain rfl : i = index := some.inj hidx
    obtain ⟨es, he⟩ := exists_obj_of_get (v := entry s i) (k := "data") (by simp [hsealed.data])
    have hplace : ¬ (assign s "nv" .null).isNone := by
      obtain ⟨entries, hnv⟩ := exists_obj_of_get hne
      obtain ⟨fields, rfl⟩ := exists_obj_of_get (v := s) (k := "nv") (by simp [hnv])
      exact Bool.false_ne_true
    have hwritten : ((assign (entry s i) "data" (.str data')).bind
        (assign · "timestamp" (.str now))) =
          some (.obj (setIn "timestamp" (.str now) (setIn "data" (.str data') es))) := by
      rw [he]
      rfl
    simp only [handle, Required, ifFound_of_ne hne, hstored, if_neg hplace, hwritten, bind_some]
    by_cases hpass : presented.getD "" = auth.getD ""
    · have hpresents : ¬ Presents auth presented ↔ auth = some "" ∧ presented = none := by
        cases auth <;> cases presented <;> simp_all [Presents]
      have hsame := setIn_eq_iff data' now (he ▸ hsealed.data)
      rw [if_neg (not_not.2 hpass), entry_next_saving hne, data_saving, and_iff_right hnone, he,
        ← hsame, ← and_imp, ← hpresents]
      change (_ → Presents auth presented ∨ _) ↔ _
      rw [or_iff_left (by simp), not_imp_comm]
    · rw [if_pos hpass]
      refine iff_of_true ⟨hnone, fun h ↦ absurd rfl h⟩ fun hempty hno ↦ absurd ?_ hpass
      rw [hempty, hno]
      rfl
  | nvRead i presented =>
    obtain rfl : i = index := some.inj hidx
    simp only [handle, Required, ifFound_of_ne hne, hstored, hsealed.data]
    by_cases hauth : presented.getD "" = auth.getD ""
    · simp [hauth, Outcome.data, Outcome.next, asStr, TpmCommand.auth]
    · simp [hauth, Outcome.data, Outcome.next, authFailed]
  | unsealAt i presented =>
    obtain rfl : i = index := some.inj hidx
    simp only [handle, Required, ifFound_of_ne hne, hstored, hsealed.pcrs]
    split
    · simp [authFailed, Outcome.data, Outcome.next]
    · rename_i hpasses
      cases hpol : policyError parse current i (fields (ofPcrs pcrs)) with
      | some message => simp [Outcome.data, Outcome.next]
      | none =>
        have hpresents : Presents auth presented := fun hsome ↦
          by_contra fun hno ↦ hpasses ⟨hsome, hno⟩
        simp [TpmCommand.auth, hpresents, matches_of_policyError hpol]
  | _ => cases hidx

theorem protected_iff_proper (parse : String → Option ℕ) (s : JsTree) (call : TpmCall) :
    Protected parse s call ↔ Proper parse s call := by
  constructor
  · intro h index data auth pcrs hidx hsealed
    have hall := h index data auth pcrs hsealed
    exact (protected_at_iff hidx hsealed).1 ⟨hall.1 hidx, hall.2⟩
  · intro h index data auth pcrs hsealed
    by_cases hidx : call.command.index = some index
    · have hall := (protected_at_iff hidx hsealed).2 (h index data auth pcrs hidx hsealed)
      exact ⟨fun _ ↦ hall.1, hall.2⟩
    · refine ⟨fun h ↦ absurd h hidx, fun hne ↦ .inr ?_⟩
      by_contra hwipe
      exact hne (entry_next_of_ne hidx hwipe)

end

/-- **Sealed data is protected** in every step of a run if and only if every command on a sealed
index presents what is required. -/
theorem sealed_protected_iff (parse : String → Option ℕ) (s : JsTree) (calls : List TpmCall) :
    Machine.Guarded (nextTable parse) (Protected parse) s calls ↔
      Machine.Guarded (nextTable parse) (Proper parse) s calls := by
  rw [show Protected parse = Proper parse from
    funext₂ fun s call ↦ propext (protected_iff_proper parse s call)]

/-- **Sealed data is read and replaced.** `NvRead` gives it away though the PCR does not have its
value, and `Seal` replaces it under another password. -/
theorem sealed_data_taken :
    Sealed (entry sealedState "0x1") "secret" (some "pw") (some [("0", "0xab")]) ∧
      (handle String.toNat? ⟨.nvRead "0x1" (some "pw"), "t", fun _ ↦ some "0xcd"⟩
        sealedState).data = some (.obj [("data", .str "secret")]) ∧
      ¬ Matches String.toNat? (fun _ ↦ some "0xcd") (some [("0", "0xab")]) ∧
      (entry ((handle String.toNat? ⟨.sealAt "0x1" "other" (some "mine") none, "t", fun _ ↦ none⟩
        sealedState).next sealedState) "0x1").get "auth" = .str "mine" := by
  refine ⟨⟨rfl, rfl, rfl, rfl⟩, rfl, fun h ↦ ?_, rfl⟩
  exact absurd (h _ List.mem_cons_self) (by decide)

end Trustroot
