import CounterTerrorist.Foundations.BigEndian
import CounterTerrorist.Geoip.Reader

/-!
# Two parsers for IPv6 addresses

The reader of the database and the validator of webhooks each have a parser for IPv6 addresses. The
validator takes digits in lower case only, and it takes a zone and an IPv4 address at the end, which
the reader does not know. On all other texts the two agree (`parsers_agree`), also on those that are
no addresses.
-/

namespace Geoip

open Core List Option Network

/-! ### Groups -/

/-- A group is read in the same way as long as each of its digits is. -/
theorem hextet_eq {h : Text} (hdig : ∀ c ∈ h, hexDigit c = hexValue c) :
    hextet h = if isGroup h then some (parseGroup h) else none := by
  have hall : h.all (hexDigit · |>.isSome) = h.all (hexValue · |>.isSome) := by
    rw [Bool.eq_iff_iff, List.all_eq_true, List.all_eq_true]
    exact forall₂_congr fun c hc ↦ by rw [hdig c hc]
  have hfold : h.foldl (fun n c ↦ 16 * n + (hexDigit c).getD 0) 0 = parseGroup h :=
    foldl_ext _ _ _ fun n c hc ↦ by rw [hdig c hc]
  rw [hextet, hall, hfold, isGroup]
  simp only [Bool.and_eq_true, decide_eq_true_eq, and_assoc]

theorem hexDigit_of_lower {c : Char} (h : c.isUpper = false) : hexDigit c = hexValue c := by
  rw [hexDigit, if_neg]
  rintro ⟨hA, hF⟩
  exact of_decide_eq_false h ⟨hA, UInt32.le_trans hF (by decide)⟩

/-- Both read one part alike. -/
theorem hextets_eq {half : Text} (hlower : ∀ c ∈ half, c.isUpper = false) :
    hextets half = parse half := by
  have hgrp : (Text.split half ':').map hextet = (Text.split half ':').map fun g ↦
        if isGroup g then some (parseGroup g) else none :=
    map_congr_left fun g hg ↦ hextet_eq fun c hc ↦
      hexDigit_of_lower (hlower c ((Text.isInfix_of_mem_split hg).subset hc))
  have hmapM {f : Text → Option ℕ} {parts : List Text} : parts.mapM f = (parts.map f).mapM id := by
    rw [mapM_map]
    rfl
  rw [hextets, parse, hmapM, hgrp, ← hmapM]

/-- Without a period, both parsers split the text and read the groups. -/
theorem parseIpv6_eq {ip : Text} (hdot : '.' ∉ ip) (hlower : ∀ c ∈ ip, c.isUpper = false) :
    parseIpv6 ip = (groupsOf ip).map (·.flatMap groupBytes) := by
  have hpart {part : Text} (hpart : part ∈ splitDouble ip) :
      hextets part = parse part := hextets_eq fun c hc ↦ hlower c <|
    (intercalate_splitDouble ip ▸ Text.isInfix_intercalate hpart).subset hc
  rw [parseIpv6, if_neg (by simpa using hdot), groupsOf]
  rcases hsplit : splitDouble ip with - | ⟨front, - | ⟨back, - | ⟨part, parts⟩⟩⟩
  · rfl
  · dsimp only
    rw [hpart (hsplit ▸ mem_cons_self)]
    rcases parse front with - | groups
    · rfl
    · by_cases h : groups.length = 8 <;> simp [h]
  · dsimp only
    rw [hpart (hsplit ▸ mem_cons_self), hpart (hsplit ▸ mem_cons_of_mem _ mem_cons_self)]
    rcases parse front with - | head
    · rfl
    rcases parse back with - | tail
    · rfl
    by_cases h : 8 < head.length + tail.length
    · simp [h]
    · have hlen : head.length + (8 - head.length - tail.length + tail.length) = 8 := by omega
      simp [h, hlen]
  · rfl

/-! ### The whole text -/

variable {text : Text} {groups : List ℕ}

theorem trailingQuad_eq_none (h : '.' ∉ text) : trailingQuad text = none := by
  induction text with
  | nil => rfl
  | cons c text ih =>
    rw [trailingQuad, quad, Text.split_of_notMem h, ih fun hmem ↦ h (mem_cons_of_mem _ hmem)]
    rfl

theorem expandIpv6_eq {addr : Text} (hdot : '.' ∉ addr) (hzone : '%' ∉ addr) :
    expandIpv6 addr = groupsOf addr := by
  have htake : addr.takeWhile (· ≠ '%') = addr := takeWhile_eq_self_iff.2 fun c hc ↦
    decide_eq_true fun heq ↦ hzone (heq ▸ hc)
  rw [expandIpv6, htake, replaceQuad, trailingQuad_eq_none hdot]
  rfl

theorem groupBytes_eq_bigEndian (g : ℕ) : groupBytes g = BigEndian.bigEndian 2 g := by
  rw [groupBytes, Nat.shiftRight_eq_div_pow, show (0xff : ℕ) = 2 ^ 8 - 1 from rfl,
    Nat.and_two_pow_sub_one_eq_mod]
  congr 2
  exact UInt8.toNat_inj.1 (by simp)

theorem parseGroup_lt {g : Text} (h : isGroup g = true) : parseGroup g < 65536 := by
  have hdigit (c : Char) : (hexValue c).getD 0 < 16 := by
    rw [hexValue]
    split
    · have := UInt32.le_iff_toNat_le.1
        (of_decide_eq_true (Bool.and_eq_true_iff.1 ‹c.isDigit = true›).2)
      show c.val.toNat - 48 < 16
      have : ('9').val.toNat = 57 := rfl
      omega
    · split
      · have := UInt32.le_iff_toNat_le.1 (‹ 'a' ≤ c ∧ c ≤ 'f'›).2
        show c.val.toNat - 87 < 16
        have : ('f').val.toNat = 102 := rfl
        omega
      · decide
  have hfold (text : Text) (v : ℕ) : text.foldl (fun n c ↦ 16 * n + (hexValue c).getD 0) v <
        (v + 1) * 16 ^ text.length := by
    induction text generalizing v with
    | nil => simp
    | cons c text ih =>
      have := hdigit c
      refine (ih _).trans_le ?_
      rw [length_cons, Nat.pow_succ', ← Nat.mul_assoc]
      exact Nat.mul_le_mul_right _ (by dsimp only; omega)
  rw [isGroup, Bool.and_eq_true, Bool.and_eq_true] at h
  have hlen : g.length ≤ 4 := of_decide_eq_true h.1.2
  calc parseGroup g < (0 + 1) * 16 ^ g.length := hfold g 0
    _ ≤ 65536 := by
      rw [Nat.one_mul]
      exact Nat.pow_le_pow_right (by decide) hlen

theorem parse_lt {part : Text} (h : parse part = some groups) : ∀ g ∈ groups, g < 65536 := by
  rw [parse] at h
  split at h
  · cases h
    exact fun _ hg ↦ absurd hg not_mem_nil
  · obtain ⟨hlen, hget⟩ := forall₂_iff_get.1 (forall₂_of_mapM_eq_some h)
    intro g hg
    obtain ⟨⟨i, hi⟩, rfl⟩ := mem_iff_get.1 hg
    obtain ⟨hgroup, hvalue⟩ := ite_none_right_eq_some.1 (hget i (hlen ▸ hi) hi)
    exact some.inj hvalue ▸ parseGroup_lt hgroup

/-- What is accepted has eight groups of two bytes each. -/
theorem groupsOf_spec (h : groupsOf text = some groups) :
    groups.length = 8 ∧ ∀ g ∈ groups, g < 65536 := by
  rw [groupsOf] at h
  split at h
  · obtain ⟨hparse, hlen⟩ := filter_eq_some_iff.1 h
    exact ⟨of_decide_eq_true hlen, parse_lt hparse⟩
  · obtain ⟨head, hhead, h⟩ := bind_eq_some_iff.1 h
    obtain ⟨tail, htail, h⟩ := bind_eq_some_iff.1 h
    obtain ⟨hle, hgrp⟩ := ite_none_left_eq_some.1 h
    obtain rfl := some.inj hgrp
    refine ⟨by simp; omega, ?_⟩
    simp only [forall_mem_append]
    refine ⟨⟨parse_lt hhead, fun g hg ↦ ?_⟩, parse_lt htail⟩
    rw [eq_of_mem_replicate hg]
    decide
  · cases h

/-- **The parsers agree.** On a text with a colon and without periods, a zone or letters in upper
case, the reader returns the bytes of the groups that the validator finds, the higher byte of each
first, and nothing if the validator finds nothing. -/
theorem parsers_agree {ip : Text} (hcolon : ':' ∈ ip) (hdot : '.' ∉ ip) (hzone : '%' ∉ ip)
    (hlower : ∀ c ∈ ip, c.isUpper = false) :
    parseIp ip = (Network.expandIpv6 ip).map (·.flatMap (BigEndian.bigEndian 2)) ∧
      ∀ groups, Network.expandIpv6 ip = some groups →
        groups.length = 8 ∧ ∀ g ∈ groups, g < 65536 := by
  rw [expandIpv6_eq hdot hzone]
  refine ⟨?_, fun groups ↦ groupsOf_spec⟩
  rw [parseIp, if_pos (contains_iff_mem.2 hcolon), parseIpv6_eq hdot hlower,
    funext groupBytes_eq_bigEndian]

theorem parsers_agree_short :
    parseIp "fe80::1".toList =
        (Network.expandIpv6 "fe80::1".toList).map (·.flatMap (BigEndian.bigEndian 2)) ∧
      ∀ groups, Network.expandIpv6 "fe80::1".toList = some groups →
        groups.length = 8 ∧ ∀ g ∈ groups, g < 65536 :=
  parsers_agree (by decide +kernel) (by decide +kernel) (by decide +kernel)
    fun c hc ↦ of_decide_eq_true (List.all_eq_true.1 (by decide +kernel :
      ("fe80::1".toList.all fun c ↦ decide (c.isUpper = false)) = true) c hc)

end Geoip
