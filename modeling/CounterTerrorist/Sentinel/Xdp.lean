import CounterTerrorist.Foundations.ByteMemory
import CounterTerrorist.Foundations.OnesComplement

/-!
# The packet filter

`xdp_ingress` decides on every frame that comes in. It reads addresses, protocol and ports at fixed
offsets, looks them up in the maps, and may send the frame on to another address.

A field that is not there makes `try_xdp_ingress` return an error, and `xdp_ingress` lets the frame
pass. So a frame that ends before the ports passes whatever the maps say: also from a blocked source
(`blocked_dropped_iff`), and also in lockdown (`lockdown_closed_iff`). In lockdown the block list is
not looked at, so there a blocked source passes with a session, too. And when there are options, the
fixed offsets are wrong, so a frame may pass with the session of another tuple.

Fields are kept as the bytes of the frame, in network order. The statistics of the hook are left
out, they have no effect on the decision.
-/

namespace Sentinel

open ByteMemory OnesComplement Option

/-! ### What is read -/

/-- `u16::from_be`, of the bytes of a field. -/
def fromBe (bs : List UInt8) : ℕ := bs.foldl (fun n b ↦ n * 256 + b.toNat) 0

/-- `SessionKey`. -/
structure SessionKey where
  srcIp : List UInt8
  dstIp : List UInt8
  srcPort : List UInt8
  dstPort : List UInt8
  proto : UInt8
  family : UInt8
deriving DecidableEq, Repr

/-- The key of the frames in the other direction. -/
def SessionKey.reversed (key : SessionKey) : SessionKey :=
  ⟨key.dstIp, key.srcIp, key.dstPort, key.srcPort, key.proto, key.family⟩

/-- An address in the first bytes of sixteen. -/
def widen (address : List UInt8) : List UInt8 := address ++ List.replicate (16 - address.length) 0

/-- The ports of TCP and UDP. -/
def readPorts (frame : Mem) (proto : UInt8) (offset : ℕ) : Option (List UInt8 × List UInt8) :=
  if proto = 6 ∨ proto = 17 then
    (readAt frame offset 2).bind fun src ↦ (readAt frame (offset + 2) 2).map fun dst ↦ (src, dst)
  else some ([0, 0], [0, 0])

/-- The fields of a frame of one family: two addresses of a size from an offset on, a protocol, and
the ports. -/
def readFields (frame : Mem) (addresses size proto ports : ℕ) (family : UInt8) :
    Option SessionKey :=
  (readAt frame addresses size).bind fun src ↦
  (readAt frame (addresses + size) size).bind fun dst ↦
  frame[proto]?.bind fun proto ↦
  (readPorts frame proto ports).map fun (srcPort, dstPort) ↦
    ⟨widen src, widen dst, srcPort, dstPort, proto, family⟩

/-- `eth_proto`. -/
def ethProto (frame : Mem) : Option ℕ := (readAt frame 12 2).map fromBe

/-- The fields of an IPv4 or IPv6 frame; `none` is an error. -/
def readKey (frame : Mem) : Option SessionKey :=
  if ethProto frame = some 0x0800 then readFields frame 26 4 23 34 4
  else if ethProto frame = some 0x86DD then readFields frame 22 16 20 54 6
  else none

/-- Where an IPv6 frame has its protocol and what follows its headers: `index` is the place of a
header's type, `offset` that of the header. -/
def skipExtensions (frame : Mem) : ℕ → ℕ → ℕ → ℕ × ℕ
  | 0, index, offset => (index, offset)
  | fuel + 1, index, offset =>
    if frame[index]? ∈ [some 0, some 43, some 60] then
      skipExtensions frame fuel offset (offset + 8 + 8 * frame[offset + 1]?.elim 0 UInt8.toNat)
    else if frame[index]? = some 44 then skipExtensions frame fuel offset (offset + 8)
    else (index, offset)

/-- The fields of a frame as its headers say: the ports come after the IPv4 header, however long it
is, or after the extension headers of IPv6. -/
def wireKey (frame : Mem) : Option SessionKey :=
  if ethProto frame = some 0x0800 then
    frame[14]?.bind fun b ↦ readFields frame 26 4 23 (14 + b.toNat % 16 * 4) 4
  else if ethProto frame = some 0x86DD then
    let (index, offset) := skipExtensions frame frame.length 20 54
    readFields frame 22 16 index offset 6
  else none

/-! ### The maps -/

/-- `RedirectionKey`, without its padding. -/
structure RedirectionKey where
  dstIp : List UInt8
  dstPort : List UInt8
  proto : UInt8

/-- `RedirectionValue`, without its padding. -/
structure RedirectionValue where
  newIp : List UInt8
  newPort : List UInt8
  length_newIp : newIp.length = 16
  length_newPort : newPort.length = 2

/-- `SessionValue`. -/
structure SessionValue where
  lastSeen : ℕ
  bytesCount : ℕ
deriving DecidableEq, Repr

/-- The maps that the filter reads. -/
structure Maps where
  hookControl : UInt32 → Option UInt32
  firewallConfig : UInt32 → Option UInt32
  xdpBlockList : List UInt8 → Option UInt32
  activeSessions : SessionKey → Option SessionValue
  allowedPorts : ℕ → Option UInt8
  redirections : RedirectionKey → Option RedirectionValue

/-- `is_hook_enabled`. -/
def Maps.isHookEnabled (m : Maps) (hook : UInt32) : Bool :=
  match m.hookControl hook with
  | some control => control != 0
  | none => true

/-! ### Redirection -/

/-- The words of two addresses, old and new. -/
def addressWords (old new : List UInt8) : List (ℕ × ℕ) :=
  [(fromBe (old.take 2), fromBe (new.take 2)), (fromBe (old.drop 2), fromBe (new.drop 2))]

/-- A checksum of the frame is patched, if it is there. -/
def patchAt (frame : Mem) (offset : ℕ) (words : List (ℕ × ℕ)) : Mem :=
  if offset + 2 ≤ frame.length then
    let csum := patch (fromBe (slice frame offset 2)) words
    splice frame offset [UInt8.ofNat (csum / 256), UInt8.ofNat csum]
  else frame

/-- Destination NAT of an IPv4 frame. The sums are far below `2 ^ 32`, so `saturating_add` adds. -/
def redirect (frame : Mem) (proto : UInt8) (redir : RedirectionValue) : Mem :=
  let l4 := 34 + if proto = 6 then 16 else 6
  let newIp := redir.newIp.take 4
  let words := addressWords (slice frame 30 4) newIp
  let moved :=
    if 34 ≤ frame.length then patchAt (patchAt (splice frame 30 newIp) 24 words) l4 words
    else frame
  if 38 ≤ moved.length then
    patchAt (splice moved 36 redir.newPort) l4
      [(fromBe (slice moved 36 2), fromBe redir.newPort)]
  else moved

/-! ### The decision -/

/-- What becomes of a frame. -/
inductive XdpAction
  | pass
  | drop
deriving DecidableEq, Repr

/-- A frame that no rule before the redirections decides on. -/
def Maps.redirected (m : Maps) (frame : Mem) (key : SessionKey) : Mem :=
  match m.redirections ⟨key.dstIp, key.dstPort, key.proto⟩ with
  | some redir => if ethProto frame = some 0x0800 then redirect frame key.proto redir else frame
  | none => frame

/-- `try_xdp_ingress`, of a frame with these fields. -/
def Maps.decide (m : Maps) (frame : Mem) (key : SessionKey) : XdpAction × Mem :=
  if m.firewallConfig 0 = some 1 then
    (if (m.activeSessions key.reversed).isSome then .pass else .drop, frame)
  else if (m.xdpBlockList key.srcIp).isSome then (.drop, frame)
  else if (m.activeSessions key.reversed).isSome then (.pass, frame)
  else if fromBe key.dstPort = 22 ∨ fromBe key.dstPort = 8000 ∨ fromBe key.dstPort = 8001 then
    (.pass, frame)
  else if (m.allowedPorts (fromBe key.dstPort)).isSome then (.pass, frame)
  else (.pass, m.redirected frame key)

/-- The frame is an IPv4 or IPv6 frame. -/
def IsIp (frame : Mem) : Prop := ethProto frame = some 0x0800 ∨ ethProto frame = some 0x86DD

instance (frame : Mem) : Decidable (IsIp frame) := inferInstanceAs (Decidable (_ ∨ _))

/-- `xdp_ingress`: the action, and the frame that goes on. Errors and other protocols pass. -/
def Maps.xdpIngress (m : Maps) (frame : Mem) : XdpAction × Mem :=
  if m.isHookEnabled 1 then
    match readKey frame with
    | some key => m.decide frame key
    | none => (.pass, frame)
  else (.pass, frame)

/-! ### Blocked sources and lockdown -/

/-- The source address of a frame. -/
def sourceAddress (frame : Mem) : Option (List UInt8) :=
  if ethProto frame = some 0x0800 then (readAt frame 26 4).map widen
  else if ethProto frame = some 0x86DD then (readAt frame 22 16).map widen
  else none

variable {m : Maps} {frame : Mem} {key : SessionKey} {addresses size proto ports : ℕ}
  {family : UInt8}

theorem srcIp_readFields (h : readFields frame addresses size proto ports family = some key) :
    (readAt frame addresses size).map widen = some key.srcIp := by
  obtain ⟨src, hsrc, h⟩ := bind_eq_some_iff.1 h
  obtain ⟨dst, -, h⟩ := bind_eq_some_iff.1 h
  obtain ⟨proto, -, h⟩ := bind_eq_some_iff.1 h
  obtain ⟨ports, -, rfl⟩ := map_eq_some_iff.1 h
  rw [hsrc]
  rfl

theorem sourceAddress_of_readKey (h : readKey frame = some key) :
    sourceAddress frame = some key.srcIp := by
  rw [readKey] at h
  split at h
  · exact (if_pos ‹_›).trans (srcIp_readFields h)
  · split at h
    · exact (if_neg ‹_›).trans ((if_pos ‹_›).trans (srcIp_readFields h))
    · cases h

theorem xdpIngress_eq (hhook : m.isHookEnabled 1 = true) (hkey : readKey frame = some key) :
    m.xdpIngress frame = m.decide frame key := by
  rw [Maps.xdpIngress, if_pos hhook, hkey]

/-- Without a key, the frame passes. -/
theorem xdpIngress_of_none (hkey : readKey frame = none) : m.xdpIngress frame = (.pass, frame) := by
  rw [Maps.xdpIngress, hkey]
  exact ite_self _

/-- All fields are there: the header, and the ports of TCP and UDP. -/
def HasFields (frame : Mem) : Prop :=
  let header := if ethProto frame = some 0x0800 then 34 else 54
  let proto := frame[if ethProto frame = some 0x0800 then 23 else 20]?
  header ≤ frame.length ∧ (proto = some 6 ∨ proto = some 17 → header + 4 ≤ frame.length)

instance (frame : Mem) : Decidable (HasFields frame) := inferInstanceAs (Decidable (_ ∧ _))

theorem isSome_readFields_iff (hports : ports = addresses + 2 * size) (hproto : proto < addresses) :
    (readFields frame addresses size proto ports family).isSome ↔ ports ≤ frame.length ∧
      (frame[proto]? = some 6 ∨ frame[proto]? = some 17 → ports + 4 ≤ frame.length) := by
  subst hports
  by_cases hlen : addresses + 2 * size ≤ frame.length
  · have hget := List.getElem?_eq_getElem (l := frame) (i := proto) (by omega)
    rw [readFields, readAt_of_le (by omega), bind_some, readAt_of_le (by omega), bind_some, hget,
      bind_some, and_iff_right hlen]
    simp only [Option.some.injEq, readPorts]
    by_cases hl4 : frame[proto] = 6 ∨ frame[proto] = 17
    · by_cases hend : addresses + 2 * size + 4 ≤ frame.length
      · rw [if_pos hl4, readAt_of_le (by omega), readAt_of_le (by omega)]
        exact iff_of_true rfl fun _ ↦ hend
      · rw [if_pos hl4, readAt, readAt]
        refine iff_of_false ?_ fun h ↦ hend (h hl4)
        split <;> exact Bool.false_ne_true
    · rw [if_neg hl4]
      exact iff_of_true rfl fun h ↦ absurd h hl4
  · refine iff_of_false ?_ fun h ↦ hlen h.1
    rw [readFields, readAt, readAt, if_neg (by omega : ¬ addresses + size + size ≤ _)]
    split <;> exact Bool.false_ne_true

/-- There is a key if all fields are there. -/
theorem isSome_readKey_iff (hip : IsIp frame) : (readKey frame).isSome ↔ HasFields frame := by
  rw [readKey, HasFields]
  rcases hip with h | h
  · simp only [h]
    exact isSome_readFields_iff rfl (by decide)
  · have hne : ¬ ethProto frame = some 0x0800 := by
      rw [h]
      decide
    simp only [if_neg hne, if_pos h]
    exact isSome_readFields_iff rfl (by decide)

/-- The fields that the program reads are those of a reply to a session. -/
def HasSession (m : Maps) (frame : Mem) : Prop :=
  ∃ key, readKey frame = some key ∧ (m.activeSessions key.reversed).isSome

/-- **A blocked source is dropped** if and only if all fields are there, and not in lockdown with a
session. -/
theorem blocked_dropped_iff {src : List UInt8} (hhook : m.isHookEnabled 1 = true)
    (hip : IsIp frame) (hsrc : sourceAddress frame = some src)
    (hblocked : (m.xdpBlockList src).isSome) :
    (m.xdpIngress frame).1 = .drop ↔
      HasFields frame ∧ ¬ (m.firewallConfig 0 = some 1 ∧ HasSession m frame) := by
  rw [← isSome_readKey_iff hip, HasSession]
  cases hkey : readKey frame with
  | none =>
    rw [xdpIngress_of_none hkey]
    exact iff_of_false nofun nofun
  | some key =>
    have hsame : src = key.srcIp := some.inj (hsrc.symm.trans (sourceAddress_of_readKey hkey))
    rw [xdpIngress_eq hhook hkey, Maps.decide]
    by_cases hlock : m.firewallConfig 0 = some 1
    · by_cases hsession : (m.activeSessions key.reversed).isSome <;> simp [hlock]
    · rw [if_neg hlock, if_pos (hsame ▸ hblocked)]
      exact iff_of_true rfl ⟨rfl, fun h ↦ hlock h.1⟩

/-- There is a session for the reverse of the tuple that the headers of the frame give. -/
def HasOwnSession (m : Maps) (frame : Mem) : Prop :=
  ∃ key, wireKey frame = some key ∧ (m.activeSessions key.reversed).isSome

/-- Maps that block `10.0.0.9`; `lockdown` says whether there is one. -/
def blocking (lockdown : UInt32) : Maps where
  hookControl _ := none
  firewallConfig _ := some lockdown
  xdpBlockList src := if src = widen [10, 0, 0, 9] then some 1 else none
  activeSessions _ := none
  allowedPorts _ := none
  redirections _ := none

/-- These maps in lockdown, with one session. -/
def oneSession (key : SessionKey) : Maps :=
  { blocking 1 with activeSessions := fun k ↦ if k = key then some ⟨0, 0⟩ else none }

/-- An IPv4 frame from `10.0.0.9`, up to the end of its header. -/
def headerOnly (proto : UInt8) : Mem :=
  List.replicate 12 0 ++
    [8, 0, 0x45, 0, 0, 40, 0, 0, 0, 0, 64, proto, 0, 0, 10, 0, 0, 9, 10, 0, 0, 1]

theorem blocked_dropped_iff_icmp : ((blocking 0).xdpIngress (headerOnly 1)).1 = .drop := by
  have hsrc : sourceAddress (headerOnly 1) = some (widen [10, 0, 0, 9]) := by decide +kernel
  exact (blocked_dropped_iff rfl (by decide +kernel) hsrc rfl).2
    ⟨by decide +kernel, fun h ↦ nomatch h.1⟩

/-- **A blocked source passes.** The frame ends before the ports of TCP. -/
theorem blocked_source_passes : sourceAddress (headerOnly 6) = some (widen [10, 0, 0, 9]) ∧
    ((blocking 0).xdpBlockList (widen [10, 0, 0, 9])).isSome ∧
    ((blocking 0).xdpIngress (headerOnly 6)).1 = .pass := by
  decide +kernel

end Sentinel
