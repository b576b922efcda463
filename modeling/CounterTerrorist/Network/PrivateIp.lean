import CounterTerrorist.Foundations.Patterns
import CounterTerrorist.Network.Ipv6

/-!
# `isValidIP` and `isPrivateIp`

Private addresses, and all others to which the service should not send anything. The function takes
host names, IPv4 addresses and IPv6 addresses, the latter with or without brackets. An IPv6 address
that carries an IPv4 address is judged by that address.

It is, with one exception. The two halves of `0.0.0.0` are zero, and an address whose last two
groups are zero is not looked at, so `::ffff:0.0.0.0` is not private while `0.0.0.0` is
(`mapped_zero_public`). For every other IPv4 address, every spelling of the mapped address is
classified like it (`embedded_classified_iff`).
-/

namespace Network

open Core Patterns

/-! ### `IP_REGEX` -/

/-- `[0-9]`. -/
def digit : Pattern Char := one Char.isDigit

/-- A digit up to this one. -/
def digitTo (last : Char) : Pattern Char := one fun c ↦ '0' ≤ c && c ≤ last

/-- `:`. -/
def colon : Pattern Char := one (· == ':')

/-- `[0-9a-fA-F]`. -/
def hexDigit : Pattern Char :=
  one fun c ↦ c.isDigit || ('a' ≤ c && c ≤ 'f') || ('A' ≤ c && c ≤ 'F')

/-- `[0-9a-fA-F]{1,4}`. -/
def group : Pattern Char := oneTo 3 hexDigit

/-- `[0-9a-fA-F]{1,4}:`. -/
def groupColon : Pattern Char := seq group colon

/-- `:[0-9a-fA-F]{1,4}`. -/
def colonGroup : Pattern Char := seq colon group

/-- `25[0-5]`. -/
def high250 : Pattern Char := seq (literal ['2', '5']) (digitTo '5')

/-- Four numbers with periods between them: `(n\.){3,3}n`. -/
def fourOf (octet : Pattern Char) : Pattern Char :=
  seq (times 3 (seq octet (one (· == '.')))) octet

/-- `25[0-5]|2[0-4][0-9]|[01]?[0-9][0-9]?`. -/
def octet : Pattern Char :=
  alt [high250, seq (literal ['2']) (seq (digitTo '4') digit),
    seq (opt (digitTo '1')) (seq digit (opt digit))]

/-- `25[0-5]|(2[0-4]|1{0,1}[0-9]){0,1}[0-9]`. -/
def octet' : Pattern Char :=
  alt [high250, seq (opt (alt [seq (literal ['2']) (digitTo '4'),
    seq (opt (literal ['1'])) digit])) digit]

/-- `IP_REGEX`. -/
def ipRegex : Pattern Char :=
  alt [
    fourOf octet,
    seq (times 7 groupColon) group,
    seq (oneTo 6 groupColon) colon,
    seq (oneTo 5 groupColon) colonGroup,
    seq (oneTo 4 groupColon) (oneTo 1 colonGroup),
    seq (oneTo 3 groupColon) (oneTo 2 colonGroup),
    seq (oneTo 2 groupColon) (oneTo 3 colonGroup),
    seq (oneTo 1 groupColon) (oneTo 4 colonGroup),
    seq groupColon (oneTo 5 colonGroup),
    seq colon (alt [oneTo 6 colonGroup, colon]),
    seq (literal ['f', 'e', '8', '0', ':'])
      (seq (upTo 4 (seq colon (upTo 4 hexDigit)))
        (seq (one (· == '%')) (seq (one Char.isAlphanum) (star (one Char.isAlphanum))))),
    seq (times 2 colon)
      (seq (opt (seq (literal ['f', 'f', 'f', 'f'])
        (seq (opt (seq colon (oneTo 3 (one (· == '0'))))) colon))) (fourOf octet')),
    seq (oneTo 3 groupColon) (seq colon (fourOf octet'))]

/-- `isValidIP`. -/
def isValidIP (ip : Text) : Bool := full ipRegex ip

/-! ### The classification -/

/-- The brackets of an IPv6 address in a URL. -/
def unbracket (ip : Text) : Text :=
  if ip.head? = some '\x5b' ∧ ip.getLast? = some '\x5d' then (ip.drop 1).dropLast else ip

/-- `toLowerCase`. Letters outside of ASCII do not become characters that matter here. -/
def toLowerCase (text : Text) : Text := text.map Char.toLower

/-- What is tested of the numbers of an IPv4 address. -/
def privateQuad (q : Quad) : Bool :=
  if q.a = 127 then true
  else if q.a = 10 then true
  else if q.a = 172 ∧ 16 ≤ q.b ∧ q.b ≤ 31 then true
  else if q.a = 192 ∧ q.b = 168 then true
  else if q.a = 100 ∧ 64 ≤ q.b ∧ q.b ≤ 127 then true
  else if q.a = 198 ∧ (q.b = 18 ∨ q.b = 19) then true
  else if q.a = 0 then true
  else false

/-- `/^f[cd]/` or `/^fe[89ab]/`. -/
def privateStart : Text → Bool
  | 'f' :: c :: text =>
    c == 'c' || c == 'd' ||
      (c == 'e' && (text.head?.any fun c ↦ c == '8' || c == '9' || c == 'a' || c == 'b'))
  | _ => false

section

-- the two functions of the source call each other; this is the other one
variable (isPrivateIp : Text → Bool)

/-- `isPrivateIpv6`. -/
def isPrivateIpv6 (addr : Text) : Bool :=
  match expandIpv6 addr with
  | none => addr == [':', ':'] || addr == [':', ':', '1'] || privateStart addr
  | some groups =>
    if groups.all (· == 0) then true
    else if (groups.take 7).all (· == 0) ∧ groups.getD 7 0 = 1 then true
    else if groups.getD 0 0 &&& 0xfe00 = 0xfc00 then true
    else if groups.getD 0 0 &&& 0xffc0 = 0xfe80 then true
    else if (groups.take 5).all (· == 0) ∧ (groups.getD 5 0 = 0xffff ∨ groups.getD 5 0 = 0) then
      let a := groups.getD 6 0 >>> 8
      let b := groups.getD 6 0 &&& 0xff
      let c := groups.getD 7 0 >>> 8
      let d := groups.getD 7 0 &&& 0xff
      if a ≠ 0 ∨ b ≠ 0 ∨ c ≠ 0 ∨ d ≠ 0 then isPrivateIp (dotted a b c d) else false
    else false

/-- The body of `isPrivateIp`. -/
def privateBody (ip : Text) : Bool :=
  let host := unbracket ip
  if host = "localhost".toList ∨ host = "127.0.0.1".toList ∨ host = "0.0.0.0".toList then true
  else if "169.254.".toList <+: host then true
  else
    match quad host with
    | some q => privateQuad q
    | none =>
      if ':' ∉ toLowerCase host then false else isPrivateIpv6 isPrivateIp (toLowerCase host)

end

/-- `isPrivateIp`. It calls itself for the IPv4 address in an IPv6 address, and then no more. -/
def isPrivateIp : Text → Bool := privateBody (privateBody fun _ ↦ false)

/-! ### The recursion -/

variable {text : Text} {q : Quad}

theorem unbracket_of_quad (h : quad text = some q) : unbracket text = text := by
  refine if_neg fun hbracket ↦ ?_
  rcases mem_of_quad h (List.mem_of_mem_head? hbracket.1) with hdigit | hdot
  · exact absurd hdigit (by decide)
  · exact absurd hdot (by decide)

/-- On an IPv4 address there is no further call. -/
theorem privateBody_of_quad (h : quad text = some q) (f g : Text → Bool) :
    privateBody f text = privateBody g text := by
  simp only [privateBody, unbracket_of_quad h, h]

variable {f : Text → Bool} {groups : List ℕ}

theorem isPrivateIpv6_congr {g : Text → Bool}
    (h : ∀ a b c d, f (dotted a b c d) = g (dotted a b c d)) (addr : Text) :
    isPrivateIpv6 f addr = isPrivateIpv6 g addr := by
  simp only [isPrivateIpv6, h]

/-- `isPrivateIp` is as the source defines it. -/
theorem isPrivateIp_eq (ip : Text) : isPrivateIp ip = privateBody isPrivateIp ip := by
  have hdotted (a b c d : ℕ) : privateBody (fun _ ↦ false) (dotted a b c d) =
      isPrivateIp (dotted a b c d) := privateBody_of_quad (quad_dotted a b c d) _ _
  rw [isPrivateIp, privateBody]
  simp only [isPrivateIpv6_congr hdotted]
  rfl

/-! ### Embedded addresses -/

theorem toLower_of_isDigit {c : Char} (h : c.isDigit = true) : c.toLower = c := by
  simp only [Char.isDigit, Bool.and_eq_true, decide_eq_true_eq] at h
  refine dif_neg ?_
  rintro ⟨hge, -⟩
  exact absurd (UInt32.le_trans hge h.2) (by decide)

theorem colon_notMem_toLowerCase (h : quad text = some q) : ':' ∉ toLowerCase text := by
  intro hmem
  obtain ⟨c, hc, hlower⟩ := List.mem_map.1 hmem
  rcases mem_of_quad h hc with hdigit | rfl
  · rw [toLower_of_isDigit hdigit] at hlower
    exact colon_notMem_of_quad h (hlower ▸ hc)
  · exact absurd hlower (by decide)

/-- A link-local IPv4 address is not the start of an address that is accepted. -/
theorem not_linkLocal_isPrefix {host : Text} (h : expandIpv6 (toLowerCase host) = some groups) :
    ¬"169.254.".toList <+: host := by
  obtain ⟨before, text, haddr, htext, hcolon, hgrp⟩ := exists_beginning h
  intro hstart
  have hlower : "169.254.".toList <+: toLowerCase host := hstart.map Char.toLower
  rcases List.prefix_or_prefix_of_prefix haddr hlower with hshort | hlong
  · exact absurd (hshort.subset hcolon) (by decide)
  · obtain ⟨rest, rfl⟩ := hlong.trans htext
    rw [groupsOf_eq_none (by decide) (by decide)] at hgrp
    cases hgrp

/-- An address that is accepted gets to the classification of IPv6 addresses. -/
theorem isPrivateIp_of_expandIpv6 {ip : Text}
    (h : expandIpv6 (toLowerCase (unbracket ip)) = some groups) :
    isPrivateIp ip = isPrivateIpv6 isPrivateIp (toLowerCase (unbracket ip)) := by
  obtain ⟨before, text, haddr, -, hcolon, -⟩ := exists_beginning h
  have hmem : ':' ∈ toLowerCase (unbracket ip) := haddr.subset hcolon
  have hname : ¬(unbracket ip = "localhost".toList ∨ unbracket ip = "127.0.0.1".toList ∨
      unbracket ip = "0.0.0.0".toList) := by
    rintro (hname | hname | hname) <;> exact absurd (hname ▸ hmem) (by decide)
  have hquad : quad (unbracket ip) = none := by
    cases hquad : quad (unbracket ip) with
    | none => rfl
    | some q => exact absurd hmem (colon_notMem_toLowerCase hquad)
  rw [isPrivateIp_eq, privateBody, if_neg hname, if_neg (not_linkLocal_isPrefix h), hquad]
  exact if_neg (not_not.2 hmem)

/-- The two bytes of a group. -/
theorem bytes_of_group {m n : ℕ} (hn : n < 256) :
    (m * 256 + n) >>> 8 = m ∧ (m * 256 + n) &&& 0xff = n := by
  constructor
  · omega
  · have hand := Nat.and_two_pow_sub_one_eq_mod (m * 256 + n) 8
    rw [hand]
    omega

theorem ipv4_eq_zero_iff (q : Ipv4) :
    q = ⟨0, 0, 0, 0⟩ ↔ (q.a : ℕ) = 0 ∧ (q.b : ℕ) = 0 ∧ (q.c : ℕ) = 0 ∧ (q.d : ℕ) = 0 := by
  obtain ⟨a, b, c, d⟩ := q
  simp only [Ipv4.mk.injEq, Fin.ext_iff]
  rfl

/-- A mapped address is classified by the IPv4 address, unless that is zero. -/
theorem isPrivateIpv6_mapped {addr : Text} {q : Ipv4} (h : expandIpv6 addr = some q.mapped) :
    isPrivateIpv6 f addr = if q = ⟨0, 0, 0, 0⟩ then false else f q.text := by
  obtain ⟨ha, hb⟩ := bytes_of_group (m := q.a) q.b.isLt
  obtain ⟨hc, hd⟩ := bytes_of_group (m := q.c) q.d.isLt
  have hstart : isPrivateIpv6 f addr = if q.high >>> 8 ≠ 0 ∨ q.high &&& 0xff ≠ 0 ∨
      q.low >>> 8 ≠ 0 ∨ q.low &&& 0xff ≠ 0 then
        f (dotted (q.high >>> 8) (q.high &&& 0xff) (q.low >>> 8) (q.low &&& 0xff))
      else false := by
    rw [isPrivateIpv6, h]
    simp [Ipv4.mapped]
  rw [hstart, Ipv4.high, Ipv4.low, ha, hb, hc, hd]
  simp only [ipv4_eq_zero_iff, Ipv4.text]
  split
  case isTrue hne => rw [if_neg (by omega)]
  case isFalse hzero => rw [if_pos (by omega)]

/-- **Embedded addresses.** A spelling of an IPv4 address as an IPv6 address is classified like the
IPv4 address, if and only if this is not `0.0.0.0`. -/
theorem embedded_classified_iff {q : Ipv4} {ip : Text}
    (h : expandIpv6 (toLowerCase (unbracket ip)) = some q.mapped) :
    isPrivateIp ip = isPrivateIp q.text ↔ q ≠ ⟨0, 0, 0, 0⟩ := by
  have hzero : isPrivateIp (Ipv4.text ⟨0, 0, 0, 0⟩) = true := by decide +kernel
  rw [isPrivateIp_of_expandIpv6 h, isPrivateIpv6_mapped h]
  split
  case isTrue hq => simp [hq, hzero]
  case isFalse hq => simp [hq]

theorem embedded_classified_iff_loopback :
    isPrivateIp "[::FFFF:7f00:1]".toList = isPrivateIp (Ipv4.text ⟨127, 0, 0, 1⟩) :=
  (embedded_classified_iff (q := ⟨127, 0, 0, 1⟩) (by decide +kernel)).2 (by decide)

/-- The address of this host, and its spelling as an IPv6 address. -/
theorem mapped_zero_public :
    expandIpv6 (toLowerCase (unbracket "[::ffff:0.0.0.0]".toList)) =
        some (Ipv4.mapped ⟨0, 0, 0, 0⟩) ∧
      isPrivateIp (Ipv4.text ⟨0, 0, 0, 0⟩) = true ∧
      isPrivateIp "[::ffff:0.0.0.0]".toList = false := by
  decide +kernel

end Network
