import CounterTerrorist.Sentinel.Xdp

/-!
# Redirected frames

A redirection replaces the destination address and port of a frame and patches the checksum of the
IPv4 header and that of TCP, the latter twice. `redirection_keeps_checksums` says that both are
right again, and that nothing else was touched.

The new address and port are read at five places (`Rewritten`), and so are the sums over the header
and over the segment with its pseudo-header. What is left is arithmetic modulo `65535`.
-/

namespace Sentinel

open ByteMemory OnesComplement List Option

variable {frame frame' : Mem}

/-! ### What is checked -/

/-- The bytes of a 16-bit number, in network order. -/
def beBytes (n : ℕ) : List UInt8 := [UInt8.ofNat (n / 256), UInt8.ofNat n]

/-- The length in the IPv4 header. -/
def ipLength (frame : Mem) : ℕ := fromBe (slice frame 16 2)

/-- The checksum of the IPv4 header is right. -/
def IpChecks (frame : Mem) : Prop := Checks (slice frame 14 20)

/-- The checksum of TCP is right: over both addresses, the protocol, the length and the segment. -/
def TcpChecks (frame : Mem) : Prop :=
  Checks (slice frame 26 8 ++ [0, 6] ++ beBytes (ipLength frame - 20) ++
    slice frame 34 (ipLength frame - 20))

/-- A frame of Ethernet, IPv4 with a header of twenty bytes, and TCP. The segment holds its
checksum. -/
structure IsTcp (frame : Mem) : Prop where
  length : 54 ≤ frame.length
  ethProto : ethProto frame = some 0x0800
  header : frame[14]? = some 0x45
  proto : frame[23]? = some 6
  segment : 38 ≤ ipLength frame

/-! ### Words -/

variable {n off : ℕ} {bs : List UInt8} {m : Mem} {redir : RedirectionValue}

theorem sum16_beBytes (h : n < 2 ^ 16) : sum16 (beBytes n) = n := by
  simp only [beBytes, sum16, UInt8.toNat_ofNat']
  omega

theorem fromBe_eq_sum16 (h : bs.length = 2) : fromBe bs = sum16 bs := by
  obtain ⟨a, b, rfl⟩ := length_eq_two.1 h
  simp [fromBe, sum16]

theorem sum16_lt (h : bs.length = 2) : sum16 bs < 2 ^ 16 := by
  obtain ⟨a, b, rfl⟩ := length_eq_two.1 h
  have ha := a.toNat_lt
  have hb := b.toNat_lt
  simp only [sum16]
  omega

theorem slice_add (m : Mem) (off a b : ℕ) :
    slice m off (a + b) = slice m off a ++ slice m (off + a) b := by
  rw [slice, take_add, drop_drop]
  rfl

theorem length_slice (h : off + n ≤ m.length) : (slice m off n).length = n := by
  rw [slice, length_take, length_drop]
  omega

/-- The sum of a range is that of its parts. -/
theorem sum16_slice_add {a : ℕ} (b : ℕ) (h : off + a ≤ m.length) (heven : a % 2 = 0) :
    sum16 (slice m off (a + b)) = sum16 (slice m off a) + sum16 (slice m (off + a) b) := by
  rw [slice_add, sum16_append _ (by rw [length_slice h, heven])]

variable {old new : List UInt8} {csum : ℕ}

/-- A checksum that is patched for a new address. -/
theorem patch_address (hold : old.length = 4) (hnew : new.length = 4) (hcsum : csum < 2 ^ 16) :
    patch csum (addressWords old new) + sum16 new ≡ csum + sum16 old [MOD 65535] := by
  have hsplit {bs : List UInt8} (h : bs.length = 4) :
      sum16 bs = fromBe (bs.take 2) + fromBe (bs.drop 2) := by
    rw [fromBe_eq_sum16 (by simp [h]), fromBe_eq_sum16 (by simp [h]),
      ← sum16_append _ (by simp [h]), take_append_drop]
  have hpatch := patch_modEq (addressWords old new) hcsum (by
    simp only [addressWords, mem_cons, not_mem_nil, or_false, forall_eq_or_imp, forall_eq]
    exact ⟨(fromBe_eq_sum16 (by simp [hold])).trans_lt (sum16_lt (by simp [hold])),
      (fromBe_eq_sum16 (by simp [hold])).trans_lt (sum16_lt (by simp [hold]))⟩)
  simpa [addressWords, hsplit hold, hsplit hnew] using hpatch

/-- A checksum that is patched for a new port. -/
theorem patch_port (hold : old.length = 2) (hnew : new.length = 2) (hcsum : csum < 2 ^ 16) :
    patch csum [(fromBe old, fromBe new)] + sum16 new ≡ csum + sum16 old [MOD 65535] := by
  rw [fromBe_eq_sum16 hold, fromBe_eq_sum16 hnew]
  simpa using patch_modEq [(sum16 old, sum16 new)] hcsum (by simpa using sum16_lt hold)

theorem fromBe_beBytes (h : n < 2 ^ 16) : fromBe (beBytes n) = n :=
  (fromBe_eq_sum16 rfl).trans (sum16_beBytes h)

/-! ### What is written -/

/-- The `n` bytes at an offset were written. -/
structure Wrote (m m' : Mem) (off n : ℕ) (bs : List UInt8) : Prop where
  length : m'.length = m.length
  self : slice m' off n = bs
  other : ∀ i, i < off ∨ off + n ≤ i → m'[i]? = m[i]?

/-- A write changes its range only. -/
theorem wrote_splice (off : ℕ) (hn : bs.length = n) (h : off + n ≤ m.length) :
    Wrote m (splice m off bs) off n bs := by
  subst hn
  refine ⟨length_splice h, slice_eq_of_holdsAt (holdsAt_splice_self h), fun i hi ↦ ?_⟩
  rw [getElem?_splice h, if_neg (by omega)]

theorem wrote_patchAt (off : ℕ) (words : List (ℕ × ℕ)) (h : off + 2 ≤ m.length) :
    Wrote m (patchAt m off words) off 2 (beBytes (patch (fromBe (slice m off 2)) words)) := by
  rw [patchAt, if_pos h]
  exact wrote_splice off rfl h

/-- Other ranges are as before. -/
theorem Wrote.slice {m' : Mem} (h : Wrote m m' off n bs) {off' n' : ℕ}
    (hd : off' + n' ≤ off ∨ off + n ≤ off') :
    slice m' off' n' = slice m off' n' := by
  refine ext_getElem? fun i ↦ ?_
  rw [getElem?_slice, getElem?_slice]
  split
  · exact h.other _ (by omega)
  · rfl

/-- The frame is the same up to the destination and two checksums. -/
structure Rewritten (frame frame' : Mem) (redir : RedirectionValue) (ipCsum tcpCsum : ℕ) :
    Prop where
  length : frame'.length = frame.length
  other : ∀ i, i < 24 ∨ 26 ≤ i → i < 30 ∨ 34 ≤ i → i < 36 ∨ 38 ≤ i → i < 50 ∨ 52 ≤ i →
    frame'[i]? = frame[i]?
  ipCsum : slice frame' 24 2 = beBytes ipCsum
  newIp : slice frame' 30 4 = redir.newIp.take 4
  newPort : slice frame' 36 2 = redir.newPort
  tcpCsum : slice frame' 50 2 = beBytes tcpCsum

/-- There are five writes. The checksum of TCP is patched for the address, and then for the port. -/
theorem rewritten_redirect (redir : RedirectionValue) (hlen : 54 ≤ frame.length) :
    let words := addressWords (slice frame 30 4) (redir.newIp.take 4)
    Rewritten frame (redirect frame 6 redir) redir (patch (fromBe (slice frame 24 2)) words)
      (patch (patch (fromBe (slice frame 50 2)) words)
        [(fromBe (slice frame 36 2), fromBe redir.newPort)]) := by
  intro words
  have hip : (redir.newIp.take 4).length = 4 := by simp [redir.length_newIp]
  have hport := redir.length_newPort
  -- each write is known by its specification only
  have w₁ := wrote_splice 30 hip (by omega : 30 + 4 ≤ frame.length)
  simp only [redirect, if_true, if_pos (by omega : 34 ≤ frame.length)]
  generalize splice frame 30 (redir.newIp.take 4) = m₁ at w₁ ⊢
  have w₂ := wrote_patchAt 24 words (m := m₁) (by rw [w₁.length]; omega)
  generalize patchAt m₁ 24 words = m₂ at w₂ ⊢
  have w₃ := wrote_patchAt 50 words (m := m₂) (by rw [w₂.length, w₁.length]; omega)
  generalize patchAt m₂ 50 words = m₃ at w₃ ⊢
  have hlen₃ : m₃.length = frame.length := by rw [w₃.length, w₂.length, w₁.length]
  have w₄ := wrote_splice 36 hport (by omega : 36 + 2 ≤ m₃.length)
  rw [if_pos (by omega)]
  generalize splice m₃ 36 redir.newPort = m₄ at w₄ ⊢
  have w₅ := wrote_patchAt 50 [(fromBe (slice m₃ 36 2), fromBe redir.newPort)] (m := m₄)
    (by rw [w₄.length]; omega)
  generalize patchAt m₄ 50 _ = m₅ at w₅ ⊢
  rw [w₁.slice (by decide)] at w₂
  rw [w₂.slice (by decide), w₁.slice (by decide)] at w₃
  rw [w₄.slice (by decide), w₃.self, fromBe_beBytes (patch_lt _ _), w₃.slice (by decide),
    w₂.slice (by decide), w₁.slice (by decide)] at w₅
  refine ⟨by rw [w₅.length, w₄.length, hlen₃], fun i h₂ h₁ h₄ h₃ ↦ ?_, ?_, ?_, ?_, w₅.self⟩
  · rw [w₅.other i h₃, w₄.other i h₄, w₃.other i h₃, w₂.other i h₂, w₁.other i h₁]
  · rw [w₅.slice (by decide), w₄.slice (by decide), w₃.slice (by decide), w₂.self]
  · rw [w₅.slice (by decide), w₄.slice (by decide), w₃.slice (by decide), w₂.slice (by decide),
      w₁.self]
  · rw [w₅.slice (by decide), w₄.self]

theorem Rewritten.slice {redir : RedirectionValue} {ipCsum tcpCsum : ℕ}
    (h : Rewritten frame frame' redir ipCsum tcpCsum) (off n : ℕ)
    (hoff : off + n ≤ 24 ∨ 26 ≤ off ∧ off + n ≤ 30 ∨ 34 ≤ off ∧ off + n ≤ 36 ∨
      38 ≤ off ∧ off + n ≤ 50 ∨ 52 ≤ off) :
    slice frame' off n = slice frame off n := by
  refine ext_getElem? fun i ↦ ?_
  rw [getElem?_slice, getElem?_slice]
  split
  · exact h.other _ (by omega) (by omega) (by omega) (by omega)
  · rfl

/-! ### The sums -/

/-- The sum of the header, by its parts. -/
theorem sum16_header (hlen : 54 ≤ frame.length) : sum16 (slice frame 14 20) =
    sum16 (slice frame 14 2) + sum16 (slice frame 16 8) + sum16 (slice frame 24 2) +
      sum16 (slice frame 26 4) + sum16 (slice frame 30 4) := by
  rw [sum16_slice_add (a := 2) 18 (by omega) rfl, sum16_slice_add (a := 8) 10 (by omega) rfl,
    sum16_slice_add (a := 2) 8 (by omega) rfl,
    sum16_slice_add 4 (by omega : 26 + 4 ≤ frame.length) rfl]
  simp only [Nat.add_assoc]

/-- The sum of a segment with its pseudo-header, by its parts. -/
theorem sum16_segment (hlen : 54 ≤ frame.length) (n : ℕ) :
    sum16 (slice frame 26 8 ++ [0, 6] ++ beBytes (18 + n) ++ slice frame 34 (18 + n)) =
      6 + sum16 (beBytes (18 + n)) + sum16 (slice frame 26 4) + sum16 (slice frame 34 2) +
        sum16 (slice frame 38 12) + sum16 (slice frame 52 n) +
        (sum16 (slice frame 30 4) + sum16 (slice frame 36 2) + sum16 (slice frame 50 2)) := by
  have hbe : (beBytes (18 + n)).length = 2 := rfl
  have haddr : (slice frame 26 8).length = 8 := length_slice (by omega)
  rw [sum16_append _ (by simp [hbe, haddr]), sum16_append _ (by simp [haddr]),
    sum16_append _ (by simp [haddr]), sum16_slice_add (a := 4) 4 (by omega) rfl,
    show 18 + n = 2 + (2 + (12 + (2 + n))) by omega,
    sum16_slice_add (a := 2) _ (by omega) rfl, sum16_slice_add (a := 2) _ (by omega) rfl,
    sum16_slice_add (a := 12) _ (by omega) rfl, sum16_slice_add (a := 2) n (by omega) rfl]
  simp only [Nat.reduceAdd, sum16, UInt8.toNat_ofNat]
  omega

section Checks

variable {redir : RedirectionValue} {ipCsum tcpCsum : ℕ} (htcp : IsTcp frame)
  (h : Rewritten frame frame' redir ipCsum tcpCsum)

include htcp h

/-- The checksum of the header stays right. -/
theorem Rewritten.ipChecks (hlt : ipCsum < 2 ^ 16) (hmod : ipCsum + sum16 (redir.newIp.take 4) ≡
      sum16 (ByteMemory.slice frame 24 2) + sum16 (ByteMemory.slice frame 30 4) [MOD 65535])
    (hip : IpChecks frame) : IpChecks frame' := by
  have hpos : 0 < sum16 (ByteMemory.slice frame 14 2) := by
    have hlen := htcp.length
    have hhead : (ByteMemory.slice frame 14 2)[0]? = some 0x45 :=
      (getElem?_slice ..).trans htcp.header
    obtain ⟨a, b, hab⟩ := length_eq_two.1 (length_slice (by omega : 14 + 2 ≤ frame.length))
    rw [hab] at hhead ⊢
    cases hhead
    simp [sum16]
  rw [IpChecks, checks_iff, sum16_header htcp.length, Nat.ModEq] at hip
  rw [IpChecks, checks_iff, sum16_header (htcp.length.trans_eq h.length.symm),
    h.slice 14 2 (by decide), h.slice 16 8 (by decide),
    h.slice 26 4 (by decide), h.ipCsum, h.newIp, sum16_beBytes hlt, Nat.ModEq]
  rw [Nat.ModEq] at hmod
  omega

/-- The checksum of the segment stays right. -/
theorem Rewritten.tcpChecks (hlt : tcpCsum < 2 ^ 16)
    (hmod : tcpCsum + sum16 (redir.newIp.take 4) + sum16 redir.newPort ≡
      sum16 (ByteMemory.slice frame 50 2) + sum16 (ByteMemory.slice frame 30 4) +
        sum16 (ByteMemory.slice frame 36 2) [MOD 65535])
    (hsum : TcpChecks frame) : TcpChecks frame' := by
  have hlen : ipLength frame' = ipLength frame := by
    rw [ipLength, h.slice 16 2 (by decide), ipLength]
  obtain ⟨n, hn⟩ := Nat.exists_eq_add_of_le htcp.segment
  have hrest : ipLength frame - 20 = 18 + n := by omega
  rw [TcpChecks, hrest, checks_iff, sum16_segment htcp.length, Nat.ModEq] at hsum
  rw [TcpChecks, hlen, hrest, checks_iff,
    sum16_segment (htcp.length.trans_eq h.length.symm), h.slice 26 4 (by decide),
    h.slice 34 2 (by decide), h.slice 38 12 (by decide),
    h.slice 52 n (by omega), h.newIp, h.newPort, h.tcpCsum, sum16_beBytes hlt, Nat.ModEq]
  rw [Nat.ModEq] at hmod
  omega

end Checks

/-! ### The filter -/

/-- The frame gets to this entry of the redirections. -/
structure Maps.Redirects (m : Maps) (frame : Mem) (key : SessionKey) (redir : RedirectionValue) :
    Prop where
  hook : m.isHookEnabled 1 = true
  fields : readKey frame = some key
  unlocked : m.firewallConfig 0 ≠ some 1
  unblocked : m.xdpBlockList key.srcIp = none
  fresh : m.activeSessions key.reversed = none
  port : fromBe key.dstPort ≠ 22 ∧ fromBe key.dstPort ≠ 8000 ∧ fromBe key.dstPort ≠ 8001
  closed : m.allowedPorts (fromBe key.dstPort) = none
  entry : m.redirections ⟨key.dstIp, key.dstPort, key.proto⟩ = some redir

theorem xdpIngress_of_redirects {m : Maps} {key : SessionKey} (htcp : IsTcp frame)
    (h : m.Redirects frame key redir) : m.xdpIngress frame = (.pass, redirect frame 6 redir) := by
  have hproto : key.proto = 6 := by
    have hkey := h.fields
    rw [readKey, if_pos htcp.ethProto] at hkey
    obtain ⟨src, -, hkey⟩ := bind_eq_some_iff.1 hkey
    obtain ⟨dst, -, hkey⟩ := bind_eq_some_iff.1 hkey
    obtain ⟨proto, hproto, hkey⟩ := bind_eq_some_iff.1 hkey
    obtain ⟨ports, -, rfl⟩ := map_eq_some_iff.1 hkey
    exact some.inj (hproto.symm.trans htcp.proto)
  have hentry := h.entry
  rw [hproto] at hentry
  rw [xdpIngress_eq h.hook h.fields, Maps.decide, if_neg h.unlocked, h.unblocked, h.fresh, h.closed]
  simp [h.port, Maps.redirected, hproto, hentry, htcp.ethProto]

/-- **A redirected frame is right again.** It goes to the new address and port, both checksums are
right, and nothing else has changed. -/
theorem redirection_keeps_checksums {m : Maps} {key : SessionKey} {redir : RedirectionValue}
    (htcp : IsTcp frame) (hip : IpChecks frame) (hsum : TcpChecks frame)
    (h : m.Redirects frame key redir) :
    ∃ frame' ipCsum tcpCsum, m.xdpIngress frame = (.pass, frame') ∧
      Rewritten frame frame' redir ipCsum tcpCsum ∧ IpChecks frame' ∧ TcpChecks frame' := by
  have hlen := htcp.length
  have hword {off : ℕ} (hoff : off + 2 ≤ 54) :
      fromBe (slice frame off 2) = sum16 (slice frame off 2) ∧
        fromBe (slice frame off 2) < 2 ^ 16 := by
    have hslice : (slice frame off 2).length = 2 := length_slice (by omega)
    exact ⟨fromBe_eq_sum16 hslice, fromBe_eq_sum16 hslice ▸ sum16_lt hslice⟩
  have hold : (slice frame 30 4).length = 4 := length_slice (by omega)
  have hnew : (redir.newIp.take 4).length = 4 := by simp [redir.length_newIp]
  obtain ⟨hIpSum, hIpLt⟩ := hword (by decide : 24 + 2 ≤ 54)
  obtain ⟨hTcpSum, hTcpLt⟩ := hword (by decide : 50 + 2 ≤ 54)
  have hw := rewritten_redirect redir hlen
  refine ⟨_, _, _, xdpIngress_of_redirects htcp h, hw, hw.ipChecks htcp (patch_lt _ _) ?_ hip,
    hw.tcpChecks htcp (patch_lt _ _) ?_ hsum⟩
  · rw [← hIpSum]
    exact patch_address hold hnew hIpLt
  · have haddress := patch_address hold hnew hTcpLt
    have hport := patch_port (length_slice (by omega : 36 + 2 ≤ frame.length)) redir.length_newPort
      (patch_lt (fromBe (slice frame 50 2)) (addressWords (slice frame 30 4) (redir.newIp.take 4)))
    rw [Nat.ModEq] at haddress hport ⊢
    omega

/-- A first segment of TCP, from `10.0.0.9` to port 80 of `10.0.0.1`. -/
def synFrame : Mem := List.replicate 12 0 ++ [8, 0] ++
  [0x45, 0, 0, 40, 0, 0, 0, 0, 64, 6, 102, 199, 10, 0, 0, 9, 10, 0, 0, 1] ++
  [4, 210, 0, 80, 0, 0, 0, 0, 0, 0, 0, 0, 0x50, 2, 0, 0, 150, 183, 0, 0]

/-- Port 8080 of `10.0.0.2`. -/
def decoy : RedirectionValue := ⟨widen [10, 0, 0, 2], [0x1F, 0x90], rfl, rfl⟩

/-- Maps with one rule: everything goes to the decoy. -/
def redirecting : Maps :=
  { blocking 0 with xdpBlockList := fun _ ↦ none, redirections := fun _ ↦ some decoy }

theorem redirection_keeps_checksums_syn :
    ∃ frame' ipCsum tcpCsum, redirecting.xdpIngress synFrame = (.pass, frame') ∧
      Rewritten synFrame frame' decoy ipCsum tcpCsum ∧ IpChecks frame' ∧ TcpChecks frame' := by
  have hkey : readKey synFrame =
      some ⟨widen [10, 0, 0, 9], widen [10, 0, 0, 1], [4, 210], [0, 80], 6, 4⟩ := by
    decide +kernel
  have htcp : IsTcp synFrame := ⟨by decide, by decide +kernel, rfl, rfl, by decide +kernel⟩
  exact redirection_keeps_checksums htcp (checks_iff.2 (by decide +kernel))
    (checks_iff.2 (by decide +kernel))
    ⟨rfl, hkey, by decide, rfl, rfl, by decide +kernel, rfl, rfl⟩

end Sentinel
