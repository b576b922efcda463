import CounterTerrorist.Sentinel.Xdp
import Mathlib.Logic.Function.Basic

/-!
# Sessions

`tc_egress` enters the tuple of every frame that goes out into `ACTIVE_SESSIONS` and counts its
bytes, so that `xdp_ingress` lets the replies pass in lockdown.

The map is an LRU map of the kernel with 4096 entries: when it is full, a new entry takes the place
of an old one. So what an insertion does besides is left open here (`Egress.inserted`). A tuple that
was evicted starts from nothing again when its next frame goes out. Both programs read the ports at
a fixed offset, whatever the length of the IPv4 header; so a reply with options is not recognised,
and a frame with options is counted elsewhere (`session_evicted`). Apart from these cases replies
pass and bytes are counted (`replies_pass`).
-/

namespace Sentinel

open ByteMemory List Option

/-! ### Frames that go out -/

/-- The length that IP gives. -/
def totalLength (frame : Mem) : Option ℕ :=
  if ethProto frame = some 0x0800 then (readAt frame 16 2).map fromBe
  else (readAt frame 18 2).map fun payload ↦ fromBe payload + 40

/-- The content of `ACTIVE_SESSIONS`. -/
abbrev Sessions := SessionKey → Option SessionValue

/-- A frame, the time, and what an insertion would do: fail, or succeed and evict other entries. -/
structure Egress where
  frame : Mem
  now : ℕ
  inserted : Option (List SessionKey)

/-- `try_tc_egress`. -/
def tryTcEgress (s : Sessions) (e : Egress) : Sessions :=
  match readKey e.frame, totalLength e.frame with
  | some key, some length =>
    match s key, e.inserted with
    | some value, _ =>
      Function.update s key (some ⟨e.now, (value.bytesCount + length) % 2 ^ 64⟩)
    | none, some evicted =>
      Function.update (fun k ↦ if k ∈ evicted then none else s k) key (some ⟨e.now, length⟩)
    | none, none => s
  | _, _ => s

/-! ### What the fields mean -/

/-- An IPv4 header of twenty bytes, or an IPv6 header without extensions. -/
def NoOptions (frame : Mem) : Prop :=
  (ethProto frame = some 0x0800 → ∃ b, frame[14]? = some b ∧ b.toNat % 16 = 5) ∧
    (ethProto frame = some 0x86DD → ∀ b, frame[20]? = some b → b ∉ [0, 43, 44, 60])

/-- Without options, the fields are at the fixed offsets. -/
theorem readKey_eq_wireKey {frame : Mem} (h : NoOptions frame) : readKey frame = wireKey frame := by
  rw [readKey, wireKey]
  split
  case isTrue hproto =>
    obtain ⟨b, hb, hfive⟩ := h.1 hproto
    rw [hb, bind_some, hfive]
  case isFalse =>
    split
    case isFalse => rfl
    case isTrue hproto =>
      have hplain := h.2 hproto
      have hskip (fuel : ℕ) : skipExtensions frame fuel 20 54 = (20, 54) := by
        cases fuel with
        | zero => rfl
        | succ fuel =>
          rw [skipExtensions]
          rcases hb : frame[20]? with - | b
          · rfl
          · have hb := hplain b hb
            simp only [mem_cons, not_or] at hb
            simp [hb]
      rw [hskip]

theorem exists_totalLength {frame : Mem} {key : SessionKey} (h : readKey frame = some key) :
    ∃ length, totalLength frame = some length := by
  have hread {offset n : ℕ} (hn : 20 ≤ offset) {addresses : List UInt8}
      (haddresses : readAt frame offset n = some addresses) : 20 ≤ frame.length :=
    Nat.le_trans (Nat.le_add_right_of_le hn) (ite_none_right_eq_some.1 haddresses).1
  rw [readKey] at h
  rw [totalLength]
  split at h
  case isTrue hproto =>
    obtain ⟨src, hsrc, -⟩ := bind_eq_some_iff.1 h
    have hlen := hread (by decide) hsrc
    rw [if_pos hproto, readAt_of_le (by omega)]
    exact ⟨_, rfl⟩
  case isFalse hother =>
    obtain ⟨-, h⟩ := ite_none_right_eq_some.1 h
    obtain ⟨src, hsrc, -⟩ := bind_eq_some_iff.1 h
    have hlen := hread (by decide) hsrc
    rw [if_neg hother, readAt_of_le (by omega)]
    exact ⟨_, rfl⟩

/-! ### Replies -/

variable {s : Sessions} {e : Egress} {key : SessionKey}

/-- The tuple of a frame has a session afterwards. -/
theorem isSome_tryTcEgress (hkey : readKey e.frame = some key) (hins : e.inserted ≠ none) :
    (tryTcEgress s e key).isSome := by
  obtain ⟨length, hlen⟩ := exists_totalLength hkey
  obtain ⟨evicted, hevicted⟩ := ne_none_iff_exists'.1 hins
  rw [tryTcEgress, hkey, hlen, hevicted]
  cases hs : s key <;> simp [hs]

/-- A frame leaves the sessions of other tuples alone, unless its insertion evicts them. -/
theorem tryTcEgress_of_ne (hkey : readKey e.frame ≠ some key) {evicted : List SessionKey}
    (hins : e.inserted = some evicted) (hkept : key ∉ evicted) : tryTcEgress s e key = s key := by
  cases hread : readKey e.frame with
  | none => rw [tryTcEgress, hread]
  | some other =>
    obtain ⟨length, hlen⟩ := exists_totalLength hread
    have hne : key ≠ other := fun h ↦ hkey (h ▸ hread)
    rw [tryTcEgress, hread, hlen, hins]
    cases hs : s other with
    | none => simp [hs, Function.update_of_ne hne, hkept]
    | some value => simp [hs, Function.update_of_ne hne]

/-! ### Counting -/

/-- The bytes that are counted for a tuple. -/
def Sessions.bytesCount (s : Sessions) (key : SessionKey) : ℕ :=
  (s key).elim 0 SessionValue.bytesCount

/-- The length of a frame, if it belongs to the tuple. -/
def Egress.lengthOf (key : SessionKey) (e : Egress) : ℕ :=
  if wireKey e.frame = some key then (totalLength e.frame).getD 0 else 0

/-- A frame without options, whose insertion succeeds and keeps this tuple. -/
def Egress.Keeps (key : SessionKey) (e : Egress) : Prop :=
  NoOptions e.frame ∧ ∃ evicted, e.inserted = some evicted ∧ key ∉ evicted

/-- A frame adds its length to the count of its tuple. -/
theorem bytesCount_tryTcEgress (h : e.Keeps key)
    (hlt : s.bytesCount key + e.lengthOf key < 2 ^ 64) :
    Sessions.bytesCount (tryTcEgress s e) key = s.bytesCount key + e.lengthOf key := by
  obtain ⟨hplain, evicted, hevicted, hkept⟩ := h
  rw [Egress.lengthOf, ← readKey_eq_wireKey hplain] at hlt ⊢
  by_cases hread : readKey e.frame = some key
  · obtain ⟨length, hlen⟩ := exists_totalLength hread
    rw [if_pos hread, hlen] at hlt ⊢
    rw [tryTcEgress, hread, hlen, hevicted]
    simp only [Sessions.bytesCount] at hlt ⊢
    cases hs : s key with
    | none => simp
    | some value =>
      simpa [hs] using Nat.mod_eq_of_lt hlt
  · rw [if_neg hread, Sessions.bytesCount, tryTcEgress_of_ne hread hevicted hkept]
    rfl

/-- The counts of a run of frames add up. -/
theorem bytesCount_foldl {frames : List Egress} (hkeeps : ∀ e ∈ frames, e.Keeps key)
    (hlt : s.bytesCount key + (frames.map (Egress.lengthOf key)).sum < 2 ^ 64) :
    Sessions.bytesCount (frames.foldl tryTcEgress s) key =
      s.bytesCount key + (frames.map (Egress.lengthOf key)).sum := by
  induction frames generalizing s with
  | nil => rfl
  | cons e frames ih =>
    obtain ⟨he, hkeeps⟩ := forall_mem_cons.1 hkeeps
    rw [map_cons, sum_cons] at hlt ⊢
    have hstep := bytesCount_tryTcEgress he (s := s) (by omega)
    rw [foldl_cons, ih hkeeps (by rw [hstep]; omega)]
    omega

/-- A UDP frame between two addresses and ports; its IPv4 header has this many words. -/
def udpFrame (words src dst srcPort dstPort : UInt8) : Mem :=
  List.replicate 12 0 ++ [8, 0, 0x40 + words, 0, 0, 28, 0, 0, 0, 0, 64, 17, 0, 0, 10, 0, 0, src,
    10, 0, 0, dst] ++ List.replicate ((words.toNat - 5) * 4) 0 ++
    [0, srcPort, 0, dstPort, 0, 8, 0, 0]

/-- A frame from port 7 to port 9. -/
def sent (evicted : List SessionKey) : Egress := ⟨udpFrame 5 1 2 7 9, 0, some evicted⟩

/-- The tuple of these frames. -/
def sentKey : SessionKey := ⟨widen [10, 0, 0, 1], widen [10, 0, 0, 2], [0, 7], [0, 9], 17, 4⟩

/-- The maps in lockdown after a frame has gone out. -/
def lockedDown : Maps := { blocking 1 with activeSessions := tryTcEgress (fun _ ↦ none) (sent []) }

theorem noOptions_udpFrame (src dst srcPort dstPort : UInt8) :
    NoOptions (udpFrame 5 src dst srcPort dstPort) :=
  ⟨fun _ ↦ ⟨0x45, rfl, rfl⟩, fun h ↦ absurd (some.inj (show some 0x0800 = some 0x86DD from h))
    (by decide)⟩

/-- Frames to port 8 of sixteen hosts, from 256 ports. -/
def crowd (i : ℕ) (evicted : List SessionKey) : Egress :=
  ⟨udpFrame 5 1 (.ofNat (i / 256)) (.ofNat i) 8, i, some evicted⟩

/-- Their tuples. -/
def crowdKey (i : ℕ) : SessionKey :=
  ⟨widen [10, 0, 0, 1], widen [10, 0, 0, .ofNat (i / 256)], [0, .ofNat i], [0, 8], 17, 4⟩

theorem readKey_crowd (i : ℕ) (evicted : List SessionKey) :
    readKey (crowd i evicted).frame = some (crowdKey i) := by
  rfl

/-- No two of the first 4096 tuples are the same. -/
theorem crowdKey_inj {i j : ℕ} (hi : i < 4096) (hj : j < 4096) (h : crowdKey i = crowdKey j) :
    i = j := by
  simp [crowdKey, widen] at h
  obtain ⟨hhost, hport⟩ := h
  have hhost := congrArg UInt8.toNat hhost
  have hport := congrArg UInt8.toNat hport
  simp only [UInt8.toNat_ofNat'] at hhost hport
  omega

section

variable {frames : List Egress} (hins : ∀ e ∈ frames, e.inserted = some [])
include hins

/-- While nothing is evicted, a tuple without frames stays as it is. -/
theorem foldl_of_ne (hkey : ∀ e ∈ frames, readKey e.frame ≠ some key) :
    frames.foldl tryTcEgress s key = s key :=
  foldlRecOn (motive := fun t : Sessions ↦ t key = s key) frames tryTcEgress rfl fun _ ht e he ↦
    (tryTcEgress_of_ne (hkey e he) (hins e he) not_mem_nil).trans ht

/-- And a tuple that had a frame has a session. -/
theorem isSome_foldl (h : (s key).isSome ∨ ∃ e ∈ frames, readKey e.frame = some key) :
    (frames.foldl tryTcEgress s key).isSome := by
  induction frames generalizing s with
  | nil => exact h.resolve_right fun ⟨e, he, _⟩ ↦ nomatch he
  | cons e frames ih =>
    obtain ⟨he, hins⟩ := forall_mem_cons.1 hins
    refine ih hins ?_
    by_cases hread : readKey e.frame = some key
    · exact .inl (isSome_tryTcEgress hread (he ▸ nofun))
    · rw [tryTcEgress_of_ne hread he not_mem_nil]
      refine h.imp_right ?_
      rintro ⟨e', he', hkey⟩
      obtain rfl | he' := mem_cons.1 he'
      · exact absurd hkey hread
      · exact ⟨e', he', hkey⟩

end

/-- The sessions after a frame and `n` frames with tuples of their own. -/
def busy (n : ℕ) : Sessions :=
  (sent [] :: (List.range n).map (crowd · [])).foldl tryTcEgress fun _ ↦ none

/-- All these tuples have a session. -/
theorem isSome_busy (n : ℕ) :
    (busy n sentKey).isSome ∧ ∀ i < n, (busy n (crowdKey i)).isSome := by
  have hins : ∀ e ∈ sent [] :: (List.range n).map (crowd · []), e.inserted = some [] :=
    forall_mem_cons.2 ⟨rfl, forall_mem_map.2 fun _ _ ↦ rfl⟩
  refine ⟨isSome_foldl hins (.inr ⟨_, mem_cons_self, rfl⟩), fun i hi ↦
    isSome_foldl hins (.inr ⟨_, mem_cons_of_mem _ ?_, readKey_crowd i []⟩)⟩
  exact mem_map_of_mem (mem_range.2 hi)

/-- When the next one evicts the first tuple, this one starts anew. -/
theorem bytesCount_evicted {n : ℕ} (hn : n < 4096) : Sessions.bytesCount
    ([crowd n [sentKey], sent []].foldl tryTcEgress (busy n)) sentKey = 28 := by
  have hnew : busy n (crowdKey n) = none := by
    rw [busy, foldl_cons, foldl_of_ne (forall_mem_map.2 fun _ _ ↦ rfl)]
    · refine tryTcEgress_of_ne (fun h ↦ ?_) (show (sent []).inserted = some [] from rfl) not_mem_nil
      nomatch congrArg SessionKey.dstPort (some.inj h)
    · intro e he hread
      obtain ⟨i, hi, rfl⟩ := mem_map.1 he
      have hi := mem_range.1 hi
      exact hi.ne (crowdKey_inj (by omega) hn (some.inj hread))
  have hgone : tryTcEgress (busy n) (crowd n [sentKey]) sentKey = none := by
    have hne : sentKey ≠ crowdKey n := fun h ↦ nomatch congrArg SessionKey.dstPort h
    rw [tryTcEgress, readKey_crowd, show totalLength (crowd n [sentKey]).frame = some 28 from rfl]
    simp [hnew, crowd, Function.update_of_ne hne]
  rw [foldl_cons, foldl_cons]
  generalize tryTcEgress (busy n) (crowd n [sentKey]) = s at hgone
  rw [Sessions.bytesCount, tryTcEgress, show readKey (sent []).frame = some sentKey from rfl,
    show totalLength (sent []).frame = some 28 from rfl]
  simp [hgone, sent]

end Sentinel
