import CounterTerrorist.Audit.Sync
import CounterTerrorist.Audit.Verifier
import CounterTerrorist.Sidecar.Results

/-!
# Signatures of the trust root

`trustroot` is a process that stands in for a TPM. `TPMManager` sends it a command and reads the
result, so a signature crosses two programs: the agent puts it into the `data` of its response, the
manager of the sidecars turns the response into a `CommandResult`, and `TPMManager` takes it from
there.

The names do not match. The agent answers `Sign` with `{ "sig": … }`, and `TPMManager.sign` looks
for `signature`. Whatever was signed, the result is the empty text (`signResult_eq`), which the
agent does not accept (`eq_of_verifyResult`). It accepts what it has put under `sig`, and that is
what nobody gets to see.

## In the ledger

For an event of the ledger the empty text is no signature at all. A checkpoint with it passes the
verifier as an unsigned one, for the mark of truncation that it carries, and another node does not
take it.

## The way back

Every line of a sidecar is redacted before it is parsed. `Answers` says that the agent answers, and
that its responses arrive, up to that.
-/

namespace Trustroot

open Core Sidecar Audit Machine

/-! ### The agent -/

/-- `TpmResponse`. -/
structure TpmResponse where
  id : String
  success : Bool
  message : String
  data : Option JsTree
  timestamp : String

/-- What `emit_response` prints: without data, the field is left out. -/
def TpmResponse.toJson (r : TpmResponse) : JsTree :=
  .obj ([("id", .str r.id), ("success", .bool r.success), ("message", .str r.message)] ++
    (r.data.map (Prod.mk "data")).toList ++ [("timestamp", .str r.timestamp)])

/-- The branch `Sign`. -/
def onSign (id data timestamp : String) : TpmResponse :=
  ⟨id, true, "Signed (Virtual)", some (.obj [("sig", .str ("v-sig:" ++ data))]), timestamp⟩

/-- The branch `Verify`. -/
def onVerify (id data signature timestamp : String) : TpmResponse :=
  let valid := signature == "v-sig:" ++ data
  ⟨id, valid, if valid then "Verified" else "Verification Failed", none, timestamp⟩

/-- The response to a line, for the commands that are about signatures. -/
def respond (cmd : JsTree) (timestamp : String) : Option TpmResponse :=
  match cmd.get "type", cmd.get "id", cmd.get "data", cmd.get "signature" with
  | .str "Sign", .str id, .str data, _ => some (onSign id data timestamp)
  | .str "Verify", .str id, .str data, .str signature =>
    some (onVerify id data signature timestamp)
  | _, _, _, _ => none

/-! ### The manager -/

namespace TPMManager

/-- The command of `sign`. -/
def signCommand (data : String) : Command := .object [("type", .str "Sign"), ("data", .str data)]

/-- The command of `verify`. -/
def verifyCommand (data signature : String) : Command :=
  .object [("type", .str "Verify"), ("data", .str data), ("signature", .str signature)]

/-- What `sign` makes of the result. -/
def signResult (res : CommandResult) : String :=
  match res.data.get "signature" with
  | .str signature => signature
  | _ => ""

/-- What `verify` makes of the result. -/
def verifyResult (res : CommandResult) : Bool := res.success

end TPMManager

/-! ### Redaction -/

mutual

/-- A value with its strings redacted. -/
def redacted (f : String → String) : JsTree → JsTree
  | .str s => .str (f s)
  | .arr items => .arr (redactedItems f items)
  | .obj entries => .obj (redactedEntries f entries)
  | v => v

/-- The elements of an array. -/
def redactedItems (f : String → String) : List JsTree → List JsTree
  | [] => []
  | v :: vs => redacted f v :: redactedItems f vs

/-- The values of an object. -/
def redactedEntries (f : String → String) : List (String × JsTree) → List (String × JsTree)
  | [] => []
  | (k, v) :: es => (k, redacted f v) :: redactedEntries f es

end

/-! ### Runs -/

/-- The agent answers: what is read in a line of `trustroot` with the id of a call is its response
to the command of that call. -/
def Answers (env : Sidecar.Env) (s : SidecarManager) : Prop :=
  ∀ (i n : ℕ) (c : Call) (text id : String) (data : JsTree), s.calls[i]? = some c →
    c.name = "trustroot" → c.stage.request.map Request.id = some id →
    s.received[n]? = some ("trustroot", text) → readLine env text = some data →
    data.get "id" = .str id →
    ∃ timestamp, ∀ response, respond (c.cmd.withId id) timestamp = some response →
      data = redacted (redact env.secrets) response.toJson

section

open TPMManager SidecarManager

variable {env : Sidecar.Env} {as : List SidecarManager.Action} {t : SidecarManager} {i : ℕ}
  {c : Call} {d signature : String} {q : Option Request} {written : Bool} {r : CommandResult}

section

variable (hrun : run (step env) init as = some t) (hagent : Answers env t)
  (hc : t.calls[i]? = some c) (hname : c.name = "trustroot")
include hrun hagent hc hname

/-- A command to the agent fails without data, or returns what the agent responds. -/
theorem result_of_answers (hst : c.stage = .done q written r) :
    r.success = false ∧ r.data = .undefined ∨
      ∃ id timestamp, ∀ response, respond (c.cmd.withId id) timestamp = some response →
        r = resultOf (redacted (redact env.secrets) response.toJson) := by
  obtain hfails | ⟨-, n, -, text, data, id, htext, hdata, hid, hreq, rfl⟩ :=
    result_of_done hrun hc hst
  · exact .inl hfails
  · rw [hname] at htext
    obtain ⟨timestamp, hresp⟩ := hagent i n c text id data hc hname hreq htext hdata hid
    exact .inr ⟨id, timestamp, fun response h ↦ by rw [hresp response h]⟩

/-- Nothing that is signed gets a signature. -/
theorem signResult_eq (hcmd : c.cmd = signCommand d)
    (hst : c.stage = .done q written r) : signResult r = "" := by
  obtain ⟨-, hdata⟩ | ⟨id, timestamp, hr⟩ := result_of_answers hrun hagent hc hname hst
  · rw [signResult, hdata]
    rfl
  · have hresp : respond (c.cmd.withId id) timestamp = some (onSign id d timestamp) := by
      rw [hcmd]
      rfl
    rw [hr _ hresp]
    rfl

/-- What is verified is what the agent has put under `sig`. -/
theorem eq_of_verifyResult
    (hcmd : c.cmd = verifyCommand d signature) (hst : c.stage = .done q written r)
    (hver : verifyResult r = true) : signature = "v-sig:" ++ d := by
  obtain ⟨hfails, -⟩ | ⟨id, timestamp, hr⟩ := result_of_answers hrun hagent hc hname hst
  · rw [verifyResult, hfails] at hver
    cases hver
  · have hresp : respond (c.cmd.withId id) timestamp =
        some (onVerify id d signature timestamp) := by
      rw [hcmd]
      rfl
    rw [hr _ hresp] at hver
    exact eq_of_beq hver

end

end

/-- Without a signature no other node takes a new start of the chain. -/
theorem acceptsRemote_unsigned (p : Ports) {e : AuditEvent} (lastHash : String)
    (hprev : e.prevHash = "TRUNCATED") (hunsigned : strTruthy e.hwSignature = false) :
    AuditService.acceptsRemote p lastHash e = false := by
  have hscreen : AuditService.screen p e = .reject := by
    rw [AuditService.screen, hunsigned]
    split
    · rfl
    · split
      · rfl
      · cases p.tpm <;> rfl
  rw [AuditService.acceptsRemote, hscreen, Bool.and_false]

/-- In every run of the manager of the sidecars with an agent that answers, whatever was signed: the
outcome is never verified, and a checkpoint that carries it counts as unsigned and is not taken by
another node. -/
theorem hardware_signature_never_verifies {env : Sidecar.Env} {as : List SidecarManager.Action}
    {t : SidecarManager} (hrun : Machine.run (SidecarManager.step env) .init as = some t)
    (hagent : Answers env t) {i : ℕ} {c : Call} {d : String} {q : Option Request} {written : Bool}
    {r : CommandResult} (hc : t.calls[i]? = some c) (hname : c.name = "trustroot")
    (hcmd : c.cmd = TPMManager.signCommand d) (hstage : c.stage = .done q written r) :
    (∀ (j : ℕ) (c' : Call) (q' : Option Request) (written' : Bool) (r' : CommandResult),
      t.calls[j]? = some c' → c'.name = "trustroot" →
      c'.cmd = TPMManager.verifyCommand d (TPMManager.signResult r) →
      c'.stage = .done q' written' r' → TPMManager.verifyResult r' = false) ∧
    (∀ (p : Ports) (e : AuditEvent) (lastHash : String), e.type = "CHECKPOINT" →
      e.prevHash = "TRUNCATED" → e.hash = d → e.hwSignature = some (TPMManager.signResult r) →
      p.checkedSignature e = none ∧ AuditService.acceptsRemote p lastHash e = false) := by
  have hempty := signResult_eq hrun hagent hc hname hcmd hstage
  rw [hempty]
  constructor
  · intro j c' q' written' r' hc' hname' hcmd' hstage'
    rw [← Bool.not_eq_true]
    intro hverified
    have hsignature := eq_of_verifyResult hrun hagent hc' hname' hcmd' hstage' hverified
    have hchars := congrArg String.toList hsignature
    rw [String.toList_append] at hchars
    cases hchars
  · intro p e lastHash htype hprev hhash hsigned
    constructor
    · rw [Ports.checkedSignature, hsigned]
      cases p.tpm <;> rfl
    · exact acceptsRemote_unsigned p lastHash hprev (by rw [hsigned]; rfl)

/-! ### A run -/

/-- The responses of the agent in `session`, by id. -/
def agentResponse (id : String) : TpmResponse :=
  if id = "u0" then onSign id "h" "now"
  else if id = "u1" then onVerify id "h" "" "now"
  else onVerify id "h" "v-sig:h" "now"

/-- A manager for the lines of `session`, which are the ids of their responses. -/
def agentEnv : Sidecar.Env where
  secrets := []
  parse line := some (agentResponse line).toJson
  validateRequest _ _ := true
  coerceString _ := ""

/-- A command and its answer, with nothing in between. -/
def exchange (i : ℕ) (cmd : Command) (id : String) : List SidecarManager.Action :=
  [.sendCommand "trustroot" cmd 0, .resume i (.sidecar id), .resume i (.locked none false),
    .resume i .wrote, .line "trustroot" id, .resume i .settled, .resume i (.reported 1)]

/-- A text is signed; then what came back is verified, and then what the agent had sent. -/
def session : List SidecarManager.Action :=
  exchange 0 (TPMManager.signCommand "h") "u0" ++
    exchange 1 (TPMManager.verifyCommand "h" "") "u1" ++
    exchange 2 (TPMManager.verifyCommand "h" "v-sig:h") "u2"

/-- A call of `session` in the end. -/
def answeredCall (cmd : Command) (id type : String) (n : ℕ) : Call :=
  let result := resultOf (agentResponse id).toJson
  ⟨"trustroot", cmd, .done (some ⟨id, .str type, some ⟨result, n⟩, false, false⟩) true
    (agentEnv.report (.result result))⟩

theorem session_run : ∃ t, run (SidecarManager.step agentEnv) .init session = some t ∧
    t.received = [("trustroot", "u0"), ("trustroot", "u1"), ("trustroot", "u2")] ∧
    t.calls = [answeredCall (TPMManager.signCommand "h") "u0" "Sign" 0,
      answeredCall (TPMManager.verifyCommand "h" "") "u1" "Verify" 1,
      answeredCall (TPMManager.verifyCommand "h" "v-sig:h") "u2" "Verify" 2] :=
  ⟨_, rfl, rfl, rfl⟩

/-- The agent answers in `session`. -/
theorem answers_session {t : SidecarManager}
    (hrecv : t.received = [("trustroot", "u0"), ("trustroot", "u1"), ("trustroot", "u2")])
    (hcalls : t.calls = [answeredCall (TPMManager.signCommand "h") "u0" "Sign" 0,
      answeredCall (TPMManager.verifyCommand "h" "") "u1" "Verify" 1,
      answeredCall (TPMManager.verifyCommand "h" "v-sig:h") "u2" "Verify" 2]) :
    Answers agentEnv t := by
  intro i n c text id data hc hname hreq htext hdata hid
  rw [hcalls] at hc
  rw [hrecv] at htext
  have hline : data = redacted (redact agentEnv.secrets) (agentResponse id).toJson := by
    rcases n with _ | _ | _ | n <;> cases htext <;> cases hdata <;> cases hid <;> rfl
  have hcall : respond (c.cmd.withId id) "now" = some (agentResponse id) := by
    rcases i with _ | _ | _ | i <;> cases hc <;> cases hreq <;> rfl
  refine ⟨"now", fun response hresp ↦ ?_⟩
  rw [hline, ← Option.some.inj (hcall.symm.trans hresp)]

/-- The text `h` is signed with the empty text. That is not verified, and `v-sig:h` is. -/
theorem signature_lost :
    ∃ t r₀ r₁ r₂ q₀ q₁ q₂, Machine.run (SidecarManager.step agentEnv) .init session = some t ∧
      Answers agentEnv t ∧
      t.calls = [⟨"trustroot", TPMManager.signCommand "h", .done q₀ true r₀⟩,
        ⟨"trustroot", TPMManager.verifyCommand "h" "", .done q₁ true r₁⟩,
        ⟨"trustroot", TPMManager.verifyCommand "h" "v-sig:h", .done q₂ true r₂⟩] ∧
      TPMManager.signResult r₀ = "" ∧ TPMManager.verifyResult r₁ = false ∧
      TPMManager.verifyResult r₂ = true := by
  obtain ⟨t, hrun, hreceived, hcalls⟩ := session_run
  exact ⟨t, _, _, _, _, _, _, hrun, answers_session hreceived hcalls, hcalls, rfl, rfl, rfl⟩

theorem hardware_signature_never_verifies_session :
    ∃ t q r q' r', Machine.run (SidecarManager.step agentEnv) .init session = some t ∧
      t.calls[0]? = some ⟨"trustroot", TPMManager.signCommand "h", .done q true r⟩ ∧
      t.calls[1]? = some ⟨"trustroot", TPMManager.verifyCommand "h" (TPMManager.signResult r),
        .done q' true r'⟩ ∧
      TPMManager.verifyResult r' = false := by
  obtain ⟨t, hrun, hreceived, hcalls⟩ := session_run
  have hsigned : t.calls[0]? = some (answeredCall (TPMManager.signCommand "h") "u0" "Sign" 0) := by
    rw [hcalls]
    rfl
  have hverified : t.calls[1]? =
      some (answeredCall (TPMManager.verifyCommand "h" "") "u1" "Verify" 1) := by
    rw [hcalls]
    rfl
  refine ⟨t, _, _, _, _, hrun, hsigned, hverified, ?_⟩
  exact (hardware_signature_never_verifies hrun (answers_session hreceived hcalls) hsigned rfl rfl
    rfl).1 1 _ _ _ _ hverified rfl rfl rfl

end Trustroot
