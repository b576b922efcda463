import CounterTerrorist.Network.PrivateIp

/-!
# Webhooks

`NotificationService` sends events to webhooks. The address of a webhook is checked before anything
is sent: its host has to be a public address, or a name with public addresses only, and the request
goes to an address that was checked. So the first request of a notification goes to a public
address, whatever the name servers answer (`resolved_public`).

But `fetch` follows redirects, and nobody checks where they lead. A server at a public address can
send the service anywhere (`redirected_to_metadata`). No request goes to a private address if and
only if no redirect that is followed leads to one (`requests_public_iff`).

Parsing and changing a URL, and what a request goes to, is left to the platform (`Platform`), with
what is needed of it as laws. The platform follows redirects unless it is told not to.
-/

namespace Network

open Core List

/-! ### The platform -/

/-- The host of a URL for an address. -/
def hostLiteral (ip : Text) : Text := if ':' ∈ ip then '\x5b' :: (ip ++ ['\x5d']) else ip

/-- What the platform does with URLs. -/
structure Platform where
  Url : Type
  /-- `new URL`. -/
  parse : Text → Option Url
  protocol : Url → Text
  hostname : Url → Text
  /-- Setting `hostname`. -/
  setHostname : Url → Text → Url
  /-- The address that a request for a URL goes to. -/
  dial : Url → Text
  /-- The texts of addresses. -/
  IsAddress : Text → Prop
  /-- The number of redirects that are followed. -/
  maxRedirects : ℕ
  hostname_lower : ∀ {url u}, parse url = some u → protocol u = "https:".toList →
    toLowerCase (hostname u) = hostname u
  isAddress_hostname : ∀ {url u}, parse url = some u → protocol u = "https:".toList →
    isValidIP (hostname u) = true → IsAddress (hostname u)
  dial_setHostname : ∀ {u ip}, protocol u = "https:".toList → IsAddress ip →
    dial (setHostname u (hostLiteral ip)) = ip

/-- What happens outside while a webhook is called: the answers of the name servers, where the
server redirects to, one address after the other, and how the call fails if it does. -/
structure World (p : Platform) where
  a : Text → List Text
  aaaa : Text → List Text
  redirects : List Text
  failure : Option Text
  isAddress : ∀ hostname, ∀ ip ∈ a hostname ++ aaaa hostname, p.IsAddress ip

/-- The ways to treat a redirect. -/
inductive Redirect
  | follow
  | error
  | manual

/-- The options of `fetch`, as far as they matter here. -/
structure RequestInit where
  redirect : Option Redirect

/-- What a call did: the addresses it sent requests to, and how it failed if it did. -/
structure Call where
  requests : List Text
  error : Option Text

section

variable (p : Platform) (world : World p)

/-- `fetch`. -/
def fetch (url : p.Url) (options : RequestInit) : Call where
  requests := p.dial url ::
    match options.redirect.getD .follow with
    | .follow => world.redirects.take p.maxRedirects
    | .error | .manual => []
  error := world.failure

/-! ### The checks -/

/-- `isValidWebhookUrl`: the reason against a URL, if there is one. -/
def isValidWebhookUrl (url : Text) : Except Text Unit :=
  match p.parse url with
  | none => .error "Invalid URL format".toList
  | some parsed =>
    let hostname := toLowerCase (p.hostname parsed)
    if p.protocol parsed ≠ "https:".toList then
      .error ("Scheme \x27".toList ++ p.protocol parsed ++
        "\x27 is not allowed. Only HTTPS is permitted.".toList)
    else if hostname = "localhost".toList ∨ "127.".toList <+: hostname ∨
        hostname = "0.0.0.0".toList ∨ hostname = "::1".toList ∨ hostname = "[::1]".toList ∨
        hostname = "[::]".toList then
      .error "Loopback and local addresses are not allowed".toList
    else if hostname = "169.254.169.254".toList ∨
        hostname = "metadata.google.internal".toList then
      .error "Cloud metadata endpoints are not allowed".toList
    else if "169.254.".toList <+: hostname then
      .error "Link-local addresses are not allowed".toList
    else if isPrivateIp hostname then
      .error "Unauthorized private or internal IP address".toList
    else .ok ()

/-- `validateWebhookUrlAsync`: the address to send to, or the reason against the URL. A name server
that fails answers nothing. -/
def validateWebhookUrlAsync (url : Text) : Except Text Text :=
  match isValidWebhookUrl p url with
  | .error reason => .error reason
  | .ok () =>
    match p.parse url with
    | none => .error "Invalid URL format".toList
    | some parsed =>
      let hostname := p.hostname parsed
      if isValidIP hostname then .ok hostname
      else
        match world.a hostname ++ world.aaaa hostname with
        | [] => .error "Could not resolve hostname".toList
        | ip :: ips =>
          match (ip :: ips).find? isPrivateIp with
          | some resolvedIp =>
            .error ("Hostname resolves to unauthorized IP: ".toList ++ resolvedIp)
          | none => .ok ip

/-- `safeFetch`. -/
def safeFetch (url resolvedIp : Text) (options : RequestInit) : Call :=
  match p.parse url with
  | none => ⟨[], some "Invalid URL".toList⟩
  | some parsed => fetch p world (p.setHostname parsed (hostLiteral resolvedIp)) options

/-! ### The service -/

/-- `WebhookConfig`, as far as it decides about requests. -/
structure WebhookConfig where
  name : Text
  url : Text
  enabled : Bool

/-- The options of a notification: a method, headers and a body, and nothing about redirects. -/
def notification : RequestInit := ⟨none⟩

/-- The part of `dispatch` and of `notify` that sends an event to a webhook. -/
def send (webhook : WebhookConfig) : Call :=
  match validateWebhookUrlAsync p world webhook.url with
  | .error reason => ⟨[], some reason⟩
  | .ok resolvedIp =>
    if resolvedIp = [] then ⟨[], some "URL validation failed".toList⟩
    else safeFetch p world webhook.url resolvedIp notification

end

/-- What `sendTest` reports about a webhook. -/
structure Report where
  name : Text
  delivered : Bool
  error : Option Text

/-- What `sendTest` does for a webhook: what it reports, and the addresses that it sends requests
to. -/
def testOne (p : Platform) (world : World p) (webhook : WebhookConfig) : Report × List Text :=
  if webhook.enabled then
    let call := send p world webhook
    (⟨webhook.name, call.error.isNone, call.error⟩, call.requests)
  else (⟨webhook.name, false, some "disabled".toList⟩, [])

section

variable (p : Platform) (webhooks : List WebhookConfig)

-- what happens outside during the call of each webhook
variable (worlds : ℕ → World p)

/-- `sendTest`. -/
def sendTest : List Report × List Text :=
  let calls := webhooks.zipIdx.map fun (webhook, i) ↦ testOne p (worlds i) webhook
  (calls.map Prod.fst, calls.flatMap Prod.snd)

/-- The events that are sent. -/
def relevant (type : Text) : Bool :=
  type = "CRITICAL".toList || type = "LEDGER_TAMPER".toList || "DRIFT".toList <+: type

/-- `notify`: the addresses that it sends requests to. -/
def notify (type : Text) : List Text :=
  if !relevant type then []
  else webhooks.zipIdx.flatMap fun (webhook, i) ↦
    if webhook.enabled then (send p (worlds i) webhook).requests else []

end

/-! ### The first request -/

section

variable {p : Platform} {world : World p} {url ip : Text} {webhook : WebhookConfig}

theorem exists_of_isValidWebhookUrl (h : isValidWebhookUrl p url = .ok ()) :
    ∃ parsed, p.parse url = some parsed ∧ p.protocol parsed = "https:".toList ∧
      isPrivateIp (toLowerCase (p.hostname parsed)) = false := by
  rw [isValidWebhookUrl] at h
  split at h
  case h_1 => cases h
  case h_2 parsed hparse =>
    refine ⟨parsed, hparse, ?_⟩
    dsimp only at h
    split at h
    · cases h
    · next hhttps =>
      refine ⟨not_not.1 hhttps, ?_⟩
      split at h
      · cases h
      · split at h
        · cases h
        · split at h
          · cases h
          · split at h
            case isTrue => cases h
            case isFalse hpublic => exact Bool.eq_false_iff.2 hpublic

/-- The address that comes out of the checks is a public one, whatever the name servers answer. -/
theorem resolved_public (h : validateWebhookUrlAsync p world url = .ok ip) :
    isPrivateIp ip = false ∧ p.IsAddress ip := by
  rw [validateWebhookUrlAsync] at h
  split at h
  case h_1 => cases h
  case h_2 hvalid =>
    obtain ⟨parsed, hparse, hhttps, hpublic⟩ := exists_of_isValidWebhookUrl hvalid
    rw [hparse] at h
    dsimp only at h
    split at h
    case isTrue hip =>
      cases h
      exact ⟨p.hostname_lower hparse hhttps ▸ hpublic, p.isAddress_hostname hparse hhttps hip⟩
    case isFalse =>
      split at h
      case h_1 => cases h
      case h_2 first ips hips =>
        split at h
        case h_1 => cases h
        case h_2 hnone =>
          cases h
          refine ⟨?_, world.isAddress _ ip (hips ▸ mem_cons_self)⟩
          exact Bool.eq_false_iff.2 (find?_eq_none.1 hnone ip mem_cons_self)

/-- The webhook passes the checks, so that something is sent to it. -/
def Passes (p : Platform) (world : World p) (webhook : WebhookConfig) : Prop :=
  ∃ ip, validateWebhookUrlAsync p world webhook.url = .ok ip ∧ ip ≠ []

theorem requests_safeFetch (h : validateWebhookUrlAsync p world url = .ok ip) :
    (safeFetch p world url ip notification).requests =
      ip :: world.redirects.take p.maxRedirects := by
  have haddr := (resolved_public h).2
  rw [validateWebhookUrlAsync] at h
  split at h
  case h_1 => cases h
  case h_2 hvalid =>
    obtain ⟨parsed, hparse, hhttps, -⟩ := exists_of_isValidWebhookUrl hvalid
    rw [safeFetch, hparse]
    show p.dial (p.setHostname parsed (hostLiteral ip)) :: _ = _
    rw [p.dial_setHostname hhttps haddr]
    rfl

/-- A call sends a request to a public address and follows the redirects from there. -/
theorem forall_requests_iff :
    (∀ address ∈ (send p world webhook).requests, isPrivateIp address = false) ↔
      (Passes p world webhook →
        ∀ address ∈ world.redirects.take p.maxRedirects, isPrivateIp address = false) := by
  cases h : validateWebhookUrlAsync p world webhook.url with
  | error reason =>
    have hnot : ¬Passes p world webhook := by
      rintro ⟨ip, hok, -⟩
      rw [h] at hok
      cases hok
    simp [send, h, hnot]
  | ok ip =>
    rcases eq_or_ne ip [] with rfl | hne
    · have hnot : ¬Passes p world webhook := by
        rintro ⟨ip, hok, hne⟩
        rw [h] at hok
        cases hok
        exact hne rfl
      simp [send, h, hnot]
    · have hpasses : Passes p world webhook := ⟨ip, h, hne⟩
      simp only [send, h, hne, if_false, requests_safeFetch h, forall_mem_cons,
        (resolved_public h).1, true_and, hpasses, true_imp_iff]

end

/-! ### All requests -/

/-- No redirect that is followed leads to a private address. -/
def RedirectsPublic (p : Platform) (webhooks : List WebhookConfig) (worlds : ℕ → World p) : Prop :=
  ∀ webhook i, (webhook, i) ∈ webhooks.zipIdx → webhook.enabled = true →
    Passes p (worlds i) webhook →
      ∀ address ∈ (worlds i).redirects.take p.maxRedirects, isPrivateIp address = false

section

variable {p : Platform} {webhooks : List WebhookConfig} {worlds : ℕ → World p}

/-- An address that one of the enabled webhooks is called at. -/
def Requested (p : Platform) (webhooks : List WebhookConfig) (worlds : ℕ → World p)
    (address : Text) : Prop :=
  ∃ webhook i, (webhook, i) ∈ webhooks.zipIdx ∧ webhook.enabled = true ∧
    address ∈ (send p (worlds i) webhook).requests

theorem mem_sendTest {address : Text} :
    address ∈ (sendTest p webhooks worlds).2 ↔ Requested p webhooks worlds address := by
  have hone (webhook : WebhookConfig) (i : ℕ) : address ∈ (testOne p (worlds i) webhook).2 ↔
      webhook.enabled = true ∧ address ∈ (send p (worlds i) webhook).requests := by
    rw [testOne]
    cases webhook.enabled with
    | false | true => simp
  simp only [sendTest, flatMap_map, mem_flatMap, Prod.exists, hone, Requested]

theorem mem_notify {type address : Text} : address ∈ notify p webhooks worlds type ↔
      relevant type = true ∧ Requested p webhooks worlds address := by
  rw [notify]
  cases hrelevant : relevant type with
  | false => simp
  | true =>
    simp only [Bool.not_true, Bool.false_eq_true, if_false, mem_flatMap, Prod.exists, true_and]
    refine exists₂_congr fun webhook i ↦ and_congr_right fun _ ↦ ?_
    cases webhook.enabled with
    | false | true => simp

theorem forall_requested_iff :
    (∀ address, Requested p webhooks worlds address → isPrivateIp address = false) ↔
      RedirectsPublic p webhooks worlds := by
  have hswap : (∀ address, Requested p webhooks worlds address → isPrivateIp address = false) ↔
      ∀ webhook i, (webhook, i) ∈ webhooks.zipIdx → webhook.enabled = true →
        ∀ address ∈ (send p (worlds i) webhook).requests, isPrivateIp address = false :=
    ⟨fun h webhook i hmem henabled address haddr ↦
      h address ⟨webhook, i, hmem, henabled, haddr⟩,
      fun h address ⟨webhook, i, hmem, henabled, haddr⟩ ↦
        h webhook i hmem henabled address haddr⟩
  rw [hswap]
  exact forall₄_congr fun webhook i _ _ ↦ forall_requests_iff

end

/-- **Requests.** No request of `sendTest` goes to a private address if and only if no redirect that
is followed does; and the same is true of `notify` if the event is sent at all. -/
theorem requests_public_iff (p : Platform) (webhooks : List WebhookConfig) (worlds : ℕ → World p)
    (type : Text) :
    ((∀ address ∈ (sendTest p webhooks worlds).2, isPrivateIp address = false) ↔
        RedirectsPublic p webhooks worlds) ∧
      ((∀ address ∈ notify p webhooks worlds type, isPrivateIp address = false) ↔
        (relevant type = true → RedirectsPublic p webhooks worlds)) := by
  constructor
  · simp only [mem_sendTest]
    exact forall_requested_iff
  · simp only [mem_notify, and_imp]
    rw [← forall_requested_iff]
    exact ⟨fun h hrelevant address ↦ h address hrelevant, fun h address hrelevant ↦
      h hrelevant address⟩

/-! ### A server that redirects -/

/-- A URL of a simple platform. -/
structure SimpleUrl where
  protocol : Text
  hostname : Text

/-- `https://`, a host that is written in small letters and has no brackets, and the rest. -/
def parseSimple (url : Text) : Option SimpleUrl :=
  let hostname := (url.drop 8).takeWhile (· ≠ '/')
  if "https://".toList <+: url ∧ toLowerCase hostname = hostname ∧
      unbracket hostname = hostname then
    some ⟨"https:".toList, hostname⟩
  else none

theorem lower_of_parseSimple {url : Text} {u : SimpleUrl} (h : parseSimple url = some u) :
    toLowerCase u.hostname = u.hostname ∧ unbracket u.hostname = u.hostname := by
  rw [parseSimple] at h
  split at h
  case isTrue hok =>
    cases h
    exact hok.2
  case isFalse => cases h

theorem unbracket_hostLiteral {ip : Text} (h : unbracket ip = ip) :
    unbracket (hostLiteral ip) = ip := by
  rw [hostLiteral]
  split
  · have hlast : (('\x5b' :: ip) ++ ['\x5d']).getLast? = some '\x5d' := getLast?_concat
    rw [unbracket, if_pos ⟨rfl, hlast⟩, drop_one, tail_cons, dropLast_concat]
  · exact h

/-- A simple platform. -/
def simple : Platform where
  Url := SimpleUrl
  parse := parseSimple
  protocol := SimpleUrl.protocol
  hostname := SimpleUrl.hostname
  setHostname u hostname := { u with hostname := hostname }
  dial u := unbracket u.hostname
  IsAddress ip := unbracket ip = ip
  maxRedirects := 20
  hostname_lower h _ := (lower_of_parseSimple h).1
  isAddress_hostname h _ _ := (lower_of_parseSimple h).2
  dial_setHostname _ h := unbracket_hostLiteral h

/-- A webhook. -/
def chat : WebhookConfig := ⟨"chat".toList, "https://hooks.example/T1".toList, true⟩

/-- A name server that knows a public address, and a server there that redirects. -/
def redirecting (redirects : List Text) : World simple where
  a _ := ["93.184.216.34".toList]
  aaaa _ := []
  redirects := redirects
  failure := none
  isAddress _ ip hip := by
    rw [List.append_nil, List.mem_singleton] at hip
    rw [hip]
    rfl

/-- A redirect to another public address. -/
theorem requests_public_iff_moved :
    relevant "CRITICAL".toList = true ∧
      ∀ address ∈ notify simple [chat] (fun _ ↦ redirecting ["93.184.216.35".toList])
        "CRITICAL".toList, isPrivateIp address = false := by
  refine ⟨by decide, (requests_public_iff simple [chat] _ _).2.2 fun _ ↦ ?_⟩
  intro webhook i _ _ _ address haddress
  obtain rfl := List.mem_singleton.1 (mem_of_mem_take haddress)
  decide +kernel

/-- The server at the public address sends the service on to the metadata of the cloud. -/
theorem redirected_to_metadata :
    notify simple [chat] (fun _ ↦ redirecting ["169.254.169.254".toList]) "CRITICAL".toList =
        ["93.184.216.34".toList, "169.254.169.254".toList] ∧
      (sendTest simple [chat] fun _ ↦ redirecting ["169.254.169.254".toList]).2 =
        ["93.184.216.34".toList, "169.254.169.254".toList] ∧
      isPrivateIp "169.254.169.254".toList = true := by
  decide +kernel

end Network
