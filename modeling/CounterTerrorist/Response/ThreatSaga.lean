import CounterTerrorist.Foundations.Traced
import CounterTerrorist.Network.PrivateIp

/-!
# The saga that responds to a threat

`ThreatResponseSaga.execute` takes the source of a threat and a tier, and calls the firewall, the
mesh, the capture of packets and the forensics. A source is the address of a host or the number of a
process, and both are texts. Four handlers decide by the shape of the text which of the two it is: a
text with a period is an address, and of any other text `parseInt` takes the digits it begins with.

## Outcomes

What the dependencies answer is a parameter (`SagaDependencies`), and `execute` is a `Traced`
program: the calls it makes, in order, and how it ends. A call that nobody waits for, such as
`killProcess` after five seconds, is in the trace too.

## What is proved

An address without a period is not an address to the handlers. `2001:db8::1` is process 2001 to
them: it is quarantined and killed (`address_taken_for_process`). `only_address_actions_iff` says
for which addresses and tiers the saga keeps to actions on addresses.
-/

namespace Response

open Core Network Traced

/-! ### Actions -/

/-- `RemediationAction`. -/
inductive RemediationTier
  | LOG
  | WATCH
  | SHADOW
  | BLOCK
  | ISOLATE
  | LOCKDOWN
deriving DecidableEq, Repr

/-- A call of a dependency that does something. -/
inductive Action
  /-- `firewall.lockdown`. -/
  | lockdown
  /-- `firewall.blockIp`. -/
  | blockIp (ip : Text)
  /-- `firewall.shadowBanIp`. -/
  | shadowBanIp (ip : Text)
  /-- `pcap.startCapture`, with the name of the file and the filter. -/
  | startCapture (device : Text) (seconds : ℕ) (file filter : Text)
  /-- `mesh.broadcastQuarantine`. -/
  | broadcastQuarantine (ip : Text)
  /-- `mesh.isolateNode`. -/
  | isolateNode (node : Text)
  /-- `mesh.broadcastThreatHash`. -/
  | broadcastThreatHash (hash node : Text)
  /-- `firewall.quarantineProcess`. -/
  | quarantineProcess (pid : ℤ)
  /-- `firewall.killProcess`. -/
  | killProcess (pid : ℤ)
  /-- `LSM_SYSCALL_ALLOWLIST`, sent to the sentinel. -/
  | allowSyscalls (pid : ℤ) (allowed : List Text)
  /-- `forensics.calculateProcessHash`. -/
  | calculateProcessHash (pid : ℤ)
  /-- `forensics.captureProcessForensics`. -/
  | captureProcessForensics (pid : ℤ)
deriving DecidableEq, Repr

/-- Block, shadow ban, capture, quarantine broadcast, lockdown. -/
def Action.onAddress : Action → Bool
  | lockdown | blockIp _ | shadowBanIp _ | startCapture .. | broadcastQuarantine _ => true
  | _ => false

/-- What a command answers. -/
structure CommandResult where
  success : Bool
  stderr : String

/-- `Result<void>`. -/
abbrev Result := Except String Unit

/-- What the dependencies answer; an error stands for a call that throws. -/
structure SagaDependencies where
  /-- `audit.logEvent`. -/
  logEvent : Except String Unit
  /-- Everything that is done. -/
  call : Action → Except String CommandResult
  /-- `forensics.calculateProcessHash`. -/
  processHash : ℤ → Except String (Option Text)
  /-- `Deno.hostname`. -/
  hostname : Except String Text
  /-- The mesh has `broadcastQuarantine`. -/
  broadcasts : Bool

section

variable (deps : SagaDependencies)

/-- A call that is waited for. -/
def perform (action : Action) : Traced Action CommandResult := do
  tell action
  lift (deps.call action)

/-- The answer to a command as a result. -/
def CommandResult.toResult (res : CommandResult) : Result :=
  if res.success then .ok () else .error res.stderr

/-! ### The handlers -/

/-- `handleLockdown`. -/
def handleLockdown : Traced Action Result := do
  let res ← perform deps .lockdown
  return res.toResult

/-- `handleIsolation`. -/
def handleIsolation (source : Text) : Traced Action Result :=
  if source.contains '.' then do
    if deps.broadcasts then
      let _ ← perform deps (.broadcastQuarantine source)
    let res ← perform deps (.blockIp source)
    return res.toResult
  else do
    let res ← perform deps (.isolateNode "local".toList)
    return if res.success then .ok () else .error "Mesh isolation failed"

/-- The hash of the binary, for the other nodes. Failures are only logged. -/
def gossipHash (pid : ℤ) : Traced Action Unit :=
  rescue (do
    tell (.calculateProcessHash pid)
    let hash ← lift (deps.processHash pid)
    match hash with
    | some hash =>
      let node ← lift deps.hostname
      let _ ← perform deps (.broadcastThreatHash hash node)
      return ()
    | none => return ()) fun _ ↦ pure ()

/-- `handleBlock`. -/
def handleBlock (source : Text) : Traced Action Result :=
  if source.contains '.' then do
    let res ← perform deps (.blockIp source)
    return res.toResult
  else
    match Text.parseInt source with
    | some pid => do
      let _ ← perform deps (.quarantineProcess pid)
      gossipHash deps pid
      -- after five seconds, and whatever it answers
      tell (.killProcess pid)
      return .ok ()
    | none => return .error ("Invalid source for BLOCK: " ++ String.ofList source)

/-- The calls that a process in shadow mode may still make. -/
def shadowSyscalls : List Text :=
  ["open".toList, "openat".toList, "read".toList, "write".toList, "close".toList]

/-- `handleShadow`. -/
def handleShadow (source : Text) : Traced Action Result :=
  if source.contains '.' then do
    let res ← perform deps (.shadowBanIp source)
    return res.toResult
  else
    match Text.parseInt source with
    | some pid => do
      let res ← perform deps (.allowSyscalls pid shadowSyscalls)
      return res.toResult
    | none => return .error ("Invalid source for SHADOW: " ++ String.ofList source)

/-- `handleWatch`. -/
def handleWatch (source : Text) : Traced Action Result :=
  if source.contains '.' then do
    let _ ← perform deps (.startCapture "any".toList 30
      ("forensics_".toList ++ source ++ ".pcap".toList) ("host ".toList ++ source))
    return .ok ()
  else
    match Text.parseInt source with
    | some pid => do
      -- not waited for
      tell (.captureProcessForensics pid)
      return .ok ()
    | none => return .ok ()

/-! ### `execute` -/

/-- `SagaState`. -/
inductive SagaState
  | PENDING
  | EXECUTING
  | COMPLETED
  | FAILED
  | ROLLED_BACK
deriving DecidableEq, Repr

/-- The `switch` over the tiers. -/
def handle (source : Text) : RemediationTier → Traced Action Result
  | .LOCKDOWN => handleLockdown deps
  | .ISOLATE => handleIsolation deps source
  | .BLOCK => handleBlock deps source
  | .SHADOW => handleShadow deps source
  | .WATCH => handleWatch deps source
  | .LOG => return .ok ()

/-- `execute`, and the state of the saga in the end. -/
def execute (source : Text) (tier : RemediationTier) : Traced Action (SagaState × Result) := do
  lift deps.logEvent
  rescue (do
    let result ← handle deps source tier
    return (if result.isOk then .COMPLETED else .FAILED, result))
    fun message ↦ return (.FAILED, .error message)

end

/-! ### Actions on addresses -/

/-- A program does nothing but actions on addresses. -/
def OnAddresses {α : Type} (p : Traced Action α) : Prop := ∀ a ∈ p.log, a.onAddress = true

section

variable {deps : SagaDependencies} {α : Type} {source : Text}

theorem onAddresses_pure (x : α) : OnAddresses (pure x) := nofun

variable {f : CommandResult → Traced Action α}

theorem onAddresses_perform {a : Action} (ha : a.onAddress = true)
    (hf : ∀ res, OnAddresses (f res)) : OnAddresses (perform deps a >>= f) :=
  forall_log_bind (List.forall_mem_singleton.2 ha) hf

theorem not_onAddresses_perform {a : Action} (ha : a.onAddress = false) :
    ¬OnAddresses (perform deps a >>= f) := by
  intro h
  rw [h a (log_isPrefix_bind.subset List.mem_cons_self)] at ha
  cases ha

/-- Isolation needs a period. -/
theorem onAddresses_isolation_iff :
    OnAddresses (handleIsolation deps source) ↔ source.contains '.' = true := by
  rw [handleIsolation]
  split
  case isTrue hdot =>
    refine iff_of_true ?_ hdot
    have hblock : OnAddresses (do
        let res ← perform deps (.blockIp source)
        return res.toResult) := onAddresses_perform rfl fun _ ↦ onAddresses_pure _
    split
    · exact onAddresses_perform rfl fun _ ↦ hblock
    · exact hblock
  case isFalse hdot => exact iff_of_false (not_onAddresses_perform rfl) hdot

/-- What the three other handlers have in common: an action on the address, or one on the
process. -/
theorem onAddresses_shape_iff {byIp : Traced Action Result} {byPid : ℤ → Traced Action Result}
    {other : Result} (hip : OnAddresses byIp) (hpid : ∀ pid, ¬OnAddresses (byPid pid)) :
    OnAddresses (if source.contains '.' then byIp
      else match Text.parseInt source with
        | some pid => byPid pid
        | none => pure other) ↔
      source.contains '.' = true ∨ Text.parseInt source = none := by
  split
  case isTrue hdot => exact iff_of_true hip (.inl hdot)
  case isFalse hdot =>
    cases Text.parseInt source with
    | some pid => exact iff_of_false (hpid pid) (by simpa using hdot)
    | none => exact iff_of_true (onAddresses_pure _) (.inr rfl)

theorem onAddresses_block_iff : OnAddresses (handleBlock deps source) ↔
    source.contains '.' = true ∨ Text.parseInt source = none :=
  onAddresses_shape_iff (onAddresses_perform rfl fun _ ↦ onAddresses_pure _)
    fun _ ↦ not_onAddresses_perform rfl

theorem onAddresses_shadow_iff : OnAddresses (handleShadow deps source) ↔
    source.contains '.' = true ∨ Text.parseInt source = none :=
  onAddresses_shape_iff (onAddresses_perform rfl fun _ ↦ onAddresses_pure _)
    fun _ ↦ not_onAddresses_perform rfl

theorem onAddresses_watch_iff : OnAddresses (handleWatch deps source) ↔
    source.contains '.' = true ∨ Text.parseInt source = none :=
  onAddresses_shape_iff (onAddresses_perform rfl fun _ ↦ onAddresses_pure _)
    fun pid h ↦ Bool.false_ne_true (h (.captureProcessForensics pid) List.mem_cons_self)

/-- The entry in the audit log comes first, and nothing is done without it. -/
theorem onAddresses_execute_iff {tier : RemediationTier} : OnAddresses (execute deps source tier) ↔
      deps.logEvent.isOk = false ∨ OnAddresses (handle deps source tier) := by
  rw [execute]
  cases deps.logEvent with
  | error message => exact iff_of_true nofun (.inl rfl)
  | ok =>
    rw [lift_ok_bind, OnAddresses, log_rescue_pure]
    cases hres : (handle deps source tier).result with
    | ok result =>
      rw [log_bind_of_ok hres, log_pure, List.append_nil]
      exact (or_iff_right nofun).symm
    | error message =>
      rw [log_bind_of_error hres]
      exact (or_iff_right nofun).symm

/-- **Addresses and processes.** The saga keeps to actions on addresses if and only if nothing is
done at all because the audit log fails, or there is a period in the source, or the tier acts on no
source, or the source is not a number to `parseInt` and is not to be isolated. -/
theorem only_address_actions_iff (deps : SagaDependencies) (source : Text)
    (tier : RemediationTier) :
    (∀ a ∈ (execute deps source tier).log, a.onAddress = true) ↔
      deps.logEvent.isOk = false ∨ source.contains '.' = true ∨ tier = .LOG ∨ tier = .LOCKDOWN ∨
        tier ≠ .ISOLATE ∧ Text.parseInt source = none := by
  refine onAddresses_execute_iff.trans (or_congr_right ?_)
  cases tier with
  | LOG => exact iff_of_true (onAddresses_pure _) (.inr (.inl rfl))
  | LOCKDOWN =>
    exact iff_of_true (onAddresses_perform rfl fun _ ↦ onAddresses_pure _) (.inr (.inr (.inl rfl)))
  | ISOLATE => simpa [handle] using onAddresses_isolation_iff
  | BLOCK => simpa [handle] using onAddresses_block_iff
  | SHADOW => simpa [handle] using onAddresses_shadow_iff
  | WATCH => simpa [handle] using onAddresses_watch_iff

end

/-- Everything that is asked for is done. -/
def compliant : SagaDependencies where
  logEvent := .ok ()
  call _ := .ok ⟨true, ""⟩
  processHash _ := .ok (some "e3b0c442".toList)
  hostname := .ok "node".toList
  broadcasts := true

/-- **An address is taken for a process.** Process 2001 is quarantined and killed because of a host,
and nothing is done about the host. -/
theorem address_taken_for_process :
    isValidIP "2001:db8::1".toList = true ∧
      (execute compliant "2001:db8::1".toList .BLOCK).log =
        [.quarantineProcess 2001, .calculateProcessHash 2001,
          .broadcastThreatHash "e3b0c442".toList "node".toList, .killProcess 2001] ∧
      (execute compliant "2001:db8::1".toList .SHADOW).log = [.allowSyscalls 2001 shadowSyscalls] ∧
      (execute compliant "2001:db8::1".toList .WATCH).log = [.captureProcessForensics 2001] := by
  decide +kernel

end Response
