import CounterTerrorist.Core.JsText

/-!
# Who is calling

`resolveClientIp` names the client of a request. Rate limits and the blacklist are keyed on the
name, so a client should not be able to choose it. Behind a trusted proxy the name is taken from the
header `X-Forwarded-For`, to which the proxy appends the address it saw. It is taken from the wrong
end: the first element of the header is what the client wrote, if the client wrote anything
(`chosen_identity`).

Two requests of one client through one proxy have the same name if and only if their headers start
with the same element, up to blanks (`same_identity_iff`).
-/

namespace Web

open Core

/-! ### The middleware -/

/-- What the middleware reads of a request. -/
structure Request where
  path : Text
  /-- `remoteAddr.hostname`. -/
  remoteAddr : Option Text
  /-- The header `X-Forwarded-For`. -/
  forwardedFor : Option Text
deriving Repr, DecidableEq

/-- The proxies in the setting `TRUSTED_PROXIES`. -/
def trusted (trustedProxies : Text) : List Text :=
  ((Text.split trustedProxies ',').map Text.trim).filter (· ≠ [])

/-- The first element of the header: `forwardedFor.split(",")[0]?.trim()`. -/
def leftmost (forwardedFor : Text) : Text :=
  Text.trim ((Text.split forwardedFor ',').head?.getD [])

/-- `resolveClientIp`. A text that is missing counts as empty, as it does in the source. -/
def resolveClientIp (c : Request) (trustedProxies : Text) : Text :=
  let directIp := c.remoteAddr.getD []
  let forwardedFor := c.forwardedFor.getD []
  if forwardedFor ≠ [] ∧ directIp ≠ [] ∧ (trusted trustedProxies).contains directIp then
    if leftmost forwardedFor = [] then directIp else leftmost forwardedFor
  else if directIp = [] then "unknown".toList else directIp

/-- What `auth` does with the name of the client. -/
inductive Admission
  /-- `BLACK_LIST_REJECT`. -/
  | rejected
  /-- The request counts for this key in the rate limiter. -/
  | checkLimit (key : Text) (limit windowMs : ℕ)
  /-- The request goes on to authentication. -/
  | next
deriving Repr, DecidableEq

/-- `auth`, as far as it depends on who is calling. -/
def auth (blacklist : Text → Bool) (trustedProxies : Text) (c : Request) : Admission :=
  let ip := resolveClientIp c trustedProxies
  if blacklist ip then .rejected
  else if "/api/".toList <+: c.path then .checkLimit ip 500 60000
  else .next

/-- What comes behind a comma does not matter. -/
theorem leftmost_append (header rest : Text) :
    leftmost (header ++ ',' :: rest) = leftmost header := by
  rw [leftmost, Text.head?_split_append, leftmost]

/-! ### A proxy -/

/-- The text of an address: it has no commas and no blanks. -/
structure Address where
  text : Text
  ne_nil : text ≠ []
  comma : ',' ∉ text
  blank : ∀ c ∈ text, Text.isSpace c = false

theorem leftmost_address (a : Address) : leftmost a.text = a.text := by
  rw [leftmost, Text.split_of_notMem a.comma, List.head?_cons, Option.getD_some,
    Text.trim_of_forall a.blank]

/-- A proxy that appends the address of its peer. -/
structure Proxy where
  address : Address
  /-- What it puts behind the comma. -/
  blanks : Text
  blank : ∀ c ∈ blanks, Text.isSpace c = true

namespace Proxy

variable (p : Proxy) (client : Address)

/-- The header that the proxy sends on. -/
def forward : Option Text → Text
  | none => client.text
  | some header => header ++ ',' :: (p.blanks ++ client.text)

/-- The request that arrives. -/
def request (path : Text) (header : Option Text) : Request where
  path := path
  remoteAddr := some p.address.text
  forwardedFor := some (p.forward client header)

/-- The name that the header of the client starts with. No header stands for the address of the
client, and nothing before the first comma for that of the proxy. -/
def named : Option Text → Text
  | none => client.text
  | some header => if leftmost header = [] then p.address.text else leftmost header

variable {p client}

theorem forward_ne_nil (header : Option Text) : p.forward client header ≠ [] := by
  cases header with
  | none => exact client.ne_nil
  | some header => exact List.append_ne_nil_of_right_ne_nil header (List.cons_ne_nil _ _)

/-- The name of the client is what its header starts with. -/
theorem resolveClientIp_request {trustedProxies : Text}
    (htrusted : p.address.text ∈ trusted trustedProxies) (path : Text) (header : Option Text) :
    resolveClientIp (p.request client path header) trustedProxies = p.named client header := by
  have hincludes := List.contains_iff_mem.2 htrusted
  refine (if_pos ⟨forward_ne_nil header, p.address.ne_nil, hincludes⟩).trans ?_
  cases header with
  | none =>
    show (if leftmost client.text = [] then _ else leftmost client.text) = _
    rw [leftmost_address, if_neg client.ne_nil]
    rfl
  | some header =>
    show (if leftmost (header ++ ',' :: _) = [] then _ else leftmost (header ++ ',' :: _)) = _
    rw [leftmost_append]
    rfl

end Proxy

/-- A decision about every blacklist is a decision about the name. -/
theorem auth_eq_iff (trustedProxies : Text) {c c' : Request} (hpath : c.path = c'.path) :
    (∀ blacklist, auth blacklist trustedProxies c = auth blacklist trustedProxies c') ↔
      resolveClientIp c trustedProxies = resolveClientIp c' trustedProxies := by
  constructor
  · intro hsame
    by_contra hne
    -- a blacklist with one of the two names on it
    have h := hsame fun ip ↦ ip = resolveClientIp c trustedProxies
    rw [auth, auth, if_pos (by simp), if_neg (by simpa using Ne.symm hne)] at h
    split at h
    · cases h
    · cases h
  · intro hsame blacklist
    rw [auth, auth, hsame, hpath]

/-- **Identity.** Through a trusted proxy that appends the address of its peer, two requests of one
client have one name, one rate limit and one decision about every blacklist, if and only if the
headers that the client sent start with the same name. -/
theorem same_identity_iff {p : Proxy} {trustedProxies : Text}
    (htrusted : p.address.text ∈ trusted trustedProxies) (client : Address) (path : Text)
    (header header' : Option Text) :
    (resolveClientIp (p.request client path header) trustedProxies =
        resolveClientIp (p.request client path header') trustedProxies ∧
      ∀ blacklist, auth blacklist trustedProxies (p.request client path header) =
        auth blacklist trustedProxies (p.request client path header')) ↔
      p.named client header = p.named client header' := by
  have hpath : (p.request client path header).path = (p.request client path header').path := rfl
  rw [auth_eq_iff trustedProxies hpath, and_self_iff, Proxy.resolveClientIp_request htrusted,
    Proxy.resolveClientIp_request htrusted]

theorem forall_not_isSpace {text : Text} (h : text.all (!Text.isSpace ·) = true) :
    ∀ c ∈ text, Text.isSpace c = false := by
  simpa using h

/-- A proxy. -/
def gateway : Proxy where
  address := ⟨"10.0.0.1".toList, by decide, by decide, forall_not_isSpace (by decide)⟩
  blanks := [' ']
  blank := List.all_eq_true.1 (by decide)

/-- A client. -/
def visitor : Address :=
  ⟨"203.0.113.9".toList, by decide, by decide, forall_not_isSpace (by decide)⟩

theorem same_identity_iff_otherTail :
    gateway.address.text ∈ trusted "10.0.0.1, 10.0.0.2".toList ∧
      ∀ blacklist, auth blacklist "10.0.0.1, 10.0.0.2".toList
          (gateway.request visitor "/api/metrics".toList (some "198.51.100.7".toList)) =
        auth blacklist "10.0.0.1, 10.0.0.2".toList
          (gateway.request visitor "/api/metrics".toList (some " 198.51.100.7, 1.2.3.4".toList)) :=
  ⟨by decide, ((same_identity_iff (by decide) visitor "/api/metrics".toList
    (some "198.51.100.7".toList) (some " 198.51.100.7, 1.2.3.4".toList)).2 (by decide)).2⟩

/-- One client, two headers, two rate limits, and only one of the two names on the blacklist. -/
theorem chosen_identity :
    let first := gateway.request visitor "/api/metrics".toList (some "198.51.100.7".toList)
    let second := gateway.request visitor "/api/metrics".toList (some "198.51.100.8".toList)
    let blacklist := fun ip ↦ decide (ip = "198.51.100.7".toList)
    gateway.address.text ∈ trusted "10.0.0.1".toList ∧
      resolveClientIp first "10.0.0.1".toList = "198.51.100.7".toList ∧
      resolveClientIp second "10.0.0.1".toList = "198.51.100.8".toList ∧
      auth blacklist "10.0.0.1".toList first = .rejected ∧
      auth blacklist "10.0.0.1".toList second = .checkLimit "198.51.100.8".toList 500 60000 := by
  decide

end Web
