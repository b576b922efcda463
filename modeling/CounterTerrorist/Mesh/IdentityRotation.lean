import CounterTerrorist.Core.JsText
import CounterTerrorist.Foundations.Throwing

/-!
# The rotation of the identity

`rotateIdentity` of `MeshManager` gives the node a new name, and a client with a new certificate. It
takes the client away, calls `init` for a new one, and puts everything back if something throws.

## Three functions

`init` of the base class calls `onInit` the first time, and does nothing once that has succeeded.
`onInit` chooses the name itself, and a failure to get a certificate or to create the client is
logged and nothing more. All are programs that change the state and may throw (`Throwing`); what the
platform and the services answer is a parameter (`World`).

## What is proved

On a manager that was initialised, `init` does nothing. So a rotation that succeeds leaves the node
without a client (`rotation_loses_client`), and all that is promised holds if and only if it fails
(`rotation_transactional_iff`).
-/

namespace Mesh

open Core Throwing

/-- A certificate with its key, and the node it was issued for. -/
structure NodeCert where
  cert : Text
  key : Text
  subject : Text
deriving DecidableEq, Repr

/-- A client, with what it was created from. -/
structure HttpClient where
  nodeCert : NodeCert
  caCerts : List Text
deriving DecidableEq, Repr

/-- What `MeshManager` knows of the identity of its node. -/
structure NodeIdentity where
  nodeId : Text
  discoveryId : Text
  port : ℕ
  meshSecret : Option Text
  nodeCert : Option NodeCert
  httpClient : Option HttpClient
  /-- `initialized`, of the base class. -/
  initialized : Bool
  /-- There is an event bus. -/
  eventBus : Bool
deriving DecidableEq, Repr

/-- What is answered by the platform, the configuration, the event bus and `MeshAuthService`. -/
structure World where
  /-- `Deno.hostname`. -/
  hostname : Except String Text
  /-- Eight characters of `crypto.randomUUID`. -/
  uuid : Text
  /-- `PORT`. -/
  port : ℕ
  /-- `MESH_SECRET`. -/
  meshSecret : Option Text
  /-- `TPM_RESIDENT_IDENTITY`. -/
  tpmMode : Bool
  computeHash : Text → Except String Text
  /-- The certificate of `generateProxyNodeCert`. -/
  generateProxyNodeCert : Text → Except String Text
  /-- The certificate and the key of `generateNodeCert`. -/
  generateNodeCert : Text → Except String (Text × Text)
  getTrustedCerts : Except String (List Text)
  /-- `Deno.createHttpClient` succeeds. -/
  createHttpClient : HttpClient → Except String Unit
  /-- `eventBus.emit`. -/
  emit : Except String Unit
  /-- `close` of a client. -/
  close : HttpClient → Except String Unit

section

variable (w : World)

/-- The certificate and the client. -/
def establish : Throwing NodeIdentity Unit := do
  let nodeId := (← get).nodeId
  let nodeCert : NodeCert ←
    if w.tpmMode then do
      let cert ← liftExcept (w.generateProxyNodeCert nodeId)
      pure ⟨cert, "HW_PROXY".toList, nodeId⟩
    else do
      let pair ← liftExcept (w.generateNodeCert nodeId)
      pure ⟨pair.1, pair.2, nodeId⟩
  modify fun s ↦ { s with nodeCert := some nodeCert }
  let caCerts ← liftExcept w.getTrustedCerts
  liftExcept (w.createHttpClient ⟨nodeCert, caCerts⟩)
  modify fun s ↦ { s with httpClient := some ⟨nodeCert, caCerts⟩ }

/-- `onInit`. -/
def onInit : Throwing NodeIdentity Unit := do
  let host ← liftExcept w.hostname
  let nodeId := if host = [] then "node-".toList ++ w.uuid else host
  modify fun s ↦ { s with nodeId := nodeId }
  modify fun s ↦ { s with port := w.port, meshSecret := w.meshSecret }
  match w.meshSecret with
  | some (c :: secret) =>
    let discoveryId ← liftExcept (w.computeHash (nodeId ++ ':' :: c :: secret))
    modify fun s ↦ { s with discoveryId := discoveryId }
  | _ => modify fun s ↦ { s with discoveryId := nodeId }
  -- without a client the mesh goes on, with less
  try establish w catch _ => pure ()

/-- `init`. -/
def init : Throwing NodeIdentity Unit := do
  if (← get).initialized then return
  onInit w
  modify fun s ↦ { s with initialized := true }

/-- `UI_BROADCAST`, if there is an event bus. -/
def announce (s : NodeIdentity) : Except String Unit := if s.eventBus then w.emit else .ok ()

/-- The client of the old identity is closed, if there is one. -/
def closeOld : Option HttpClient → Except String Unit
  | some client => w.close client
  | none => .ok ()

/-- The body of `rotateIdentity`. -/
def rotate (oldClient : Option HttpClient) : Throwing NodeIdentity Unit := do
  let host ← liftExcept w.hostname
  modify fun s ↦ { s with nodeId := host ++ '-' :: w.uuid }
  modify fun s ↦ { s with httpClient := none }
  init w
  liftExcept (announce w (← get))
  liftExcept (closeOld w oldClient)

/-- `rotateIdentity`. -/
def rotateIdentity : Throwing NodeIdentity Unit := do
  let old ← get
  try rotate w old.httpClient
  catch e =>
    modify fun s ↦
      { s with nodeId := old.nodeId, httpClient := old.httpClient, nodeCert := old.nodeCert }
    throw e

end

/-! ### What is promised -/

/-- A rotation that succeeds leaves a client that was created from a certificate for the new name,
and one that fails leaves the name, the client and the certificate as they were. -/
structure Transactional (before : NodeIdentity) (after : Except String Unit × NodeIdentity) :
    Prop where
  ok : after.1 = .ok () →
    ∃ client, after.2.httpClient = some client ∧ client.nodeCert.subject = after.2.nodeId
  error : ∀ e, after.1 = .error e → after.2.nodeId = before.nodeId ∧
    after.2.httpClient = before.httpClient ∧ after.2.nodeCert = before.nodeCert

variable {w : World} {s : NodeIdentity}

/-- The rotation throws: there is no name of the host, the event bus rejects the message, or the old
client cannot be closed. -/
def Throws (w : World) (s : NodeIdentity) : Prop :=
  w.hostname.isOk = false ∨ (s.eventBus = true ∧ w.emit.isOk = false) ∨
    ∃ client, s.httpClient = some client ∧ (w.close client).isOk = false

theorem announce_isOk : (announce w s).isOk = false ↔ s.eventBus = true ∧ w.emit.isOk = false := by
  rw [announce]
  cases s.eventBus with
  | true => exact (and_iff_right rfl).symm
  | false => exact iff_of_false nofun nofun

theorem closeOld_isOk {client : Option HttpClient} :
    (closeOld w client).isOk = false ↔ ∃ c, client = some c ∧ (w.close c).isOk = false := by
  cases client with
  | none => exact iff_of_false nofun nofun
  | some c => simp [closeOld]

theorem throws_iff : Throws w s ↔ w.hostname.isOk = false ∨ (announce w s).isOk = false ∨
    (closeOld w s.httpClient).isOk = false := by
  rw [announce_isOk, closeOld_isOk, Throws]

/-- The body, on an initialised manager: `init` does nothing. It changes the name, and takes the
client away. -/
theorem result_rotate (h : s.initialized = true) : (rotate w s.httpClient).result s =
      match w.hostname with
      | .error e => (.error e, s)
      | .ok host => (do announce w s; closeOld w s.httpClient,
          { s with nodeId := host ++ '-' :: w.uuid, httpClient := none }) := by
  cases hhost : w.hostname with
  | error e => simp [rotate, result_bind, hhost]
  | ok host =>
    have hbus (t : NodeIdentity) (ht : t.eventBus = s.eventBus) : announce w t = announce w s := by
      rw [announce, ht, announce]
    simp only [rotate, result_bind, result_liftExcept, hhost,
      result_modify, init, result_get, h, if_true, result_pure, hbus]
    cases announce w s with
    | error e => rfl
    | ok => rfl

/-- A rotation of an initialised manager takes the client away, or it throws and leaves everything
as it was. -/
theorem rotateIdentity_cases (h : s.initialized = true) :
    (¬Throws w s ∧ ∃ t, (rotateIdentity w).result s = (.ok (), t) ∧ t.httpClient = none) ∨
      Throws w s ∧ ∃ e, (rotateIdentity w).result s = (.error e, s) := by
  rw [throws_iff]
  simp only [rotateIdentity, result_bind, result_get, result_tryCatch, result_rotate h]
  cases hhost : w.hostname with
  | error e => exact .inr ⟨.inl rfl, e, rfl⟩
  | ok host =>
    cases hbus : announce w s with
    | error e => exact .inr ⟨.inr (.inl rfl), e, rfl⟩
    | ok =>
      cases hclose : closeOld w s.httpClient with
      | error e => exact .inr ⟨.inr (.inr rfl), e, rfl⟩
      | ok => exact .inl ⟨nofun, _, rfl, rfl⟩

/-- **Rotation of the identity.** On an initialised manager, a rotation keeps its promise if and
only if it throws: because there is no name of the host, because the event bus rejects the message,
or because the old client cannot be closed. -/
theorem rotation_transactional_iff (w : World) {s : NodeIdentity} (h : s.initialized = true) :
    Transactional s ((rotateIdentity w).result s) ↔ Throws w s := by
  obtain ⟨hnot, t, heq, hclient⟩ | ⟨hthrows, e, heq⟩ := rotateIdentity_cases (w := w) h
  · refine iff_of_false (fun htrans ↦ ?_) hnot
    obtain ⟨client, hsome, -⟩ := htrans.ok (heq ▸ rfl)
    rw [heq, hclient] at hsome
    cases hsome
  · refine iff_of_true ⟨fun hok ↦ ?_, fun _ _ ↦ ?_⟩ hthrows
    · rw [heq] at hok
      cases hok
    · rw [heq]
      exact ⟨rfl, rfl, rfl⟩

/-- Everything works. -/
def smooth : World where
  hostname := .ok "sentry".toList
  uuid := "0a1b2c3d".toList
  port := 8000
  meshSecret := none
  tpmMode := false
  computeHash text := .ok text
  generateProxyNodeCert nodeId := .ok nodeId
  generateNodeCert nodeId := .ok (nodeId, "key".toList)
  getTrustedCerts := .ok ["ca".toList]
  createHttpClient _ := .ok ()
  emit := .ok ()
  close _ := .ok ()

/-- A manager that was initialised. -/
def established : NodeIdentity :=
  ((init smooth).result ⟨[], [], 8000, none, none, none, false, true⟩).2

theorem rotation_transactional_iff_noHost :
    established.initialized = true ∧
      Transactional established
        ((rotateIdentity { smooth with hostname := .error "not permitted" }).result established) :=
  ⟨rfl, (rotation_transactional_iff _ rfl).2 (.inl rfl)⟩

/-- **The client is lost.** Everything works, the rotation returns `ok`, and there is no client. The
certificate is that of the old name. -/
theorem rotation_loses_client :
    established.initialized = true ∧ established.httpClient.isSome = true ∧
      ((rotateIdentity smooth).result established).1.isOk = true ∧
      ((rotateIdentity smooth).result established).2.nodeId = "sentry-0a1b2c3d".toList ∧
      ((rotateIdentity smooth).result established).2.httpClient = none ∧
      ((rotateIdentity smooth).result established).2.nodeCert =
        some ⟨"sentry".toList, "key".toList, "sentry".toList⟩ := by
  decide +kernel

end Mesh
