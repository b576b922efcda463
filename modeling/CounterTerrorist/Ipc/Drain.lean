import CounterTerrorist.Ipc.Telemetry
import Mathlib.Tactic.IntervalCases

/-!
# Draining the ring

On a `SHMEM_UPDATE` line the orchestrator pulls events until `pullRingEvent` returns `null`. A
record that is not accepted is released, and `null` is returned for it, too. So the loop ends at the
first such record, and what stands behind it stays in the ring: `drained_iff` says that the ring is
empty afterwards if and only if every message but the last one is accepted.
-/

open ByteMemory

namespace Ipc

/-- The loop of `startResponseReader`: the lines that are handled, and the mapping afterwards. -/
def CtsSec.drain (lib : CtsSec) (obfuscationKey agentPublicKey : Option (List UInt8)) :
    ℕ → Mem → Option (List String × Mem)
  | 0, _ => none
  | fuel + 1, m => do
    let r ← lib.pullRingEvent m obfuscationKey agentPublicKey
    match r.event with
    | none => return ([], r.mem)
    | some jsonStr =>
      let (lines, m') ← lib.drain obfuscationKey agentPublicKey fuel r.mem
      return (jsonStr :: lines, m')

/-- The event of a message; `none` if it is discarded. -/
def CtsSec.eventOf (lib : CtsSec) (obfuscationKey agentPublicKey : Option (List UInt8))
    (msg : List UInt8) : Option String :=
  let view := masked obfuscationKey msg
  match agentPublicKey with
  | some key =>
    if key.length = 32 ∧ 64 < msg.length then
      if lib.verifyEd25519 key (view.take 64) (view.drop 64) then
        lib.deserializeMsgpack (view.drop 64)
      else none
    else lib.deserializeMsgpack view
  | none => lib.deserializeMsgpack view

variable (lib : CtsSec) (obfuscationKey agentPublicKey : Option (List UInt8)) {m : Mem}
  {cap head tail : ℕ} {msg : List UInt8} {q : List (List UInt8)}

/-- A pull takes the first message, whatever becomes of it. -/
theorem pullRingEvent_cons (h : Layout m cap head tail (msg :: q))
    (hpub : loadU32 m 8 = UInt32.ofNat cap) :
    ∃ r tail', lib.pullRingEvent m obfuscationKey agentPublicKey = some r ∧
      r.event = lib.eventOf obfuscationKey agentPublicKey msg ∧
      Layout r.mem cap head tail' q ∧ loadU32 r.mem 8 = UInt32.ofNat cap := by
  have hpull := layout_pull h hpub
  obtain ⟨m', tail', hcom, hlay, hpub'⟩ := layout_commit h hpub
  obtain rfl := Option.some.inj (hcom.symm.trans (commit_of_pull hpull).1)
  obtain ⟨-, hlen, -, -⟩ := h.recordLen
  have hview : unmaskedRecord m obfuscationKey (dataOffset + effectiveTail m tail + 4)
      (UInt32.ofNat msg.length) = masked obfuscationKey msg := by
    rw [unmaskedRecord, hlen, slice_eq_of_holdsAt h.front.1.bytes]
  have hlong : UInt32.ofNat msg.length > 64 ↔ 64 < msg.length := by
    rw [gt_iff_lt, UInt32.lt_iff_toNat_lt, hlen]
    rfl
  by_cases hcheck : ∃ key, agentPublicKey = some key ∧ key.length = 32 ∧ 64 < msg.length
  · obtain ⟨key, rfl, hkey, hmsg⟩ := hcheck
    refine ⟨_, tail', pullRingEvent_checked hpull hkey (hlong.2 hmsg), ?_⟩
    simp only [decodedChecked, hview, CtsSec.eventOf, if_pos (And.intro hkey hmsg)]
    by_cases hver : lib.verifyEd25519 key ((masked obfuscationKey msg).take 64)
        ((masked obfuscationKey msg).drop 64)
    · rw [if_pos hver, if_pos hver]
      exact ⟨rfl, hlay, hpub'⟩
    · rw [if_neg hver, if_neg hver]
      exact ⟨rfl, hlay, hpub'⟩
  · refine ⟨_, tail', pullRingEvent_asIs hpull ?_, ?_, hlay, hpub'⟩
    · exact fun key hkey hno ↦ hcheck ⟨key, hkey, hno.1, hlong.1 hno.2⟩
    · rw [decodedAsIs, hview]
      cases agentPublicKey with
      | none => rfl
      | some key => exact (if_neg fun hno ↦ hcheck ⟨key, rfl, hno⟩).symm

/-- **The ring is drained if and only if every message but the last is accepted.** The loop ends in
any case. -/
theorem drained_iff {fuel : ℕ} (h : Layout m cap head tail q)
    (hpub : loadU32 m 8 = UInt32.ofNat cap) (hfuel : q.length < fuel) :
    ∃ lines m', lib.drain obfuscationKey agentPublicKey fuel m = some (lines, m') ∧
      (loadU32 m' 0 = loadU32 m' 4 ↔
        ∀ msg ∈ q.dropLast, (lib.eventOf obfuscationKey agentPublicKey msg).isSome) := by
  have hempty {m : Mem} {tail : ℕ} {q : List (List UInt8)} (h : Layout m cap head tail q) :
      loadU32 m 0 = loadU32 m 4 ↔ q = [] := by
    rw [← h.head_eq_tail_iff, ← h.head_word, ← h.tail_word]
    exact UInt32.toNat_inj.symm
  -- one turn of the loop for each message
  induction q generalizing m tail fuel with
  | nil =>
    obtain ⟨fuel, rfl⟩ := Nat.exists_eq_add_one_of_ne_zero (Nat.ne_zero_of_lt hfuel)
    refine ⟨[], m, ?_, iff_of_true ((hempty h).2 rfl) nofun⟩
    rw [CtsSec.drain, pullRingEvent_null (layout_pull_nil h)]
    rfl
  | cons msg q ih =>
    obtain ⟨fuel, rfl⟩ := Nat.exists_eq_add_one_of_ne_zero (Nat.ne_zero_of_lt hfuel)
    obtain ⟨r, tail', hr, hevent, hlayout, hpub'⟩ :=
      pullRingEvent_cons lib obfuscationKey agentPublicKey h hpub
    rw [CtsSec.drain, hr]
    cases hjson : r.event with
    | none =>
      refine ⟨[], r.mem, by simp [hjson], (hempty hlayout).trans ?_⟩
      cases q with
      | nil => exact iff_of_true rfl nofun
      | cons next q =>
        refine iff_of_false nofun fun hall ↦ ?_
        have hmsg := hall msg (by simp)
        rw [← hevent, hjson] at hmsg
        cases hmsg
    | some jsonStr =>
      obtain ⟨lines, m', hdrain, hiff⟩ := ih hlayout hpub' (by simpa using hfuel)
      refine ⟨jsonStr :: lines, m', by simp [hjson, hdrain], hiff.trans ?_⟩
      cases q with
      | nil => exact iff_of_true nofun nofun
      | cons next q => simp [← hevent, hjson]

/-- Two messages of one byte in a small segment. -/
def twoMessages (a b : UInt8) : Mem :=
  toLeBytes 10 ++ toLeBytes 0 ++ toLeBytes 16 ++ toLeBytes 0 ++ records [[a], [b]] ++
    List.replicate 6 0

theorem layout_twoMessages (a b : UInt8) : Layout (twoMessages a b) 16 10 0 [[a], [b]] := by
  refine ⟨rfl, by decide, by decide, rfl, rfl, by simp, .inl ⟨rfl, by decide, fun i hi ↦ ?_⟩⟩
  have hlt : i < 10 := hi
  interval_cases i <;> rfl

theorem drained_iff_last : ∃ lines m',
    acceptingLib.drain none none 3 (twoMessages 0xc0 0) = some (lines, m') ∧
      loadU32 m' 0 = loadU32 m' 4 := by
  obtain ⟨lines, m', hdrain, hiff⟩ :=
    drained_iff acceptingLib none none (layout_twoMessages 0xc0 0) rfl (by decide : _ < 3)
  exact ⟨lines, m', hdrain, hiff.2 (by decide +kernel)⟩

/-- **A message stays in the ring.** The first one cannot be decoded. -/
theorem message_left_behind : Layout (twoMessages 0 0xc0) 16 10 0 [[0], [0xc0]] ∧
    ∃ m', acceptingLib.drain none none 3 (twoMessages 0 0xc0) = some ([], m') ∧
      loadU32 m' 0 ≠ loadU32 m' 4 := by
  refine ⟨layout_twoMessages _ _, splice (twoMessages 0 0xc0) 4 (toLeBytes 5), ?_, ?_⟩
  · decide +kernel
  · decide +kernel

/-! ### Signal after signal -/

/-- A signal and `n` more, with the lines of all of them. -/
def CtsSec.signals (lib : CtsSec) (obf pub : Option (List UInt8)) (fuel : ℕ) :
    ℕ → Mem → Option (List String × Mem)
  | 0, m => lib.drain obf pub fuel m
  | n + 1, m => do
    let (lines, m) ← lib.drain obf pub fuel m
    let (more, m) ← lib.signals obf pub fuel n m
    return (lines ++ more, m)

/-- The number of messages that are discarded. -/
def CtsSec.discarded (lib : CtsSec) (obf pub : Option (List UInt8)) (q : List (List UInt8)) : ℕ :=
  q.countP fun msg ↦ (lib.eventOf obf pub msg).isNone

variable (obf pub : Option (List UInt8)) {fuel n : ℕ}

/-- One signal empties the ring or gets past a message that is discarded. -/
theorem drain_spec (h : Layout m cap head tail q) (hpub : loadU32 m 8 = UInt32.ofNat cap)
    (hfuel : q.length < fuel) :
    ∃ lines rest m' tail', lib.drain obf pub fuel m = some (lines, m') ∧
      q.filterMap (lib.eventOf obf pub) = lines ++ rest.filterMap (lib.eventOf obf pub) ∧
      (rest = [] ∨ lib.discarded obf pub rest < lib.discarded obf pub q) ∧
      rest.length ≤ q.length ∧ Layout m' cap head tail' rest ∧
      loadU32 m' 8 = UInt32.ofNat cap := by
  induction q generalizing m tail fuel with
  | nil =>
    obtain ⟨fuel, rfl⟩ := Nat.exists_eq_add_one_of_ne_zero (Nat.ne_zero_of_lt hfuel)
    refine ⟨[], [], m, tail, ?_, rfl, .inl rfl, le_rfl, h, hpub⟩
    rw [CtsSec.drain, pullRingEvent_null (layout_pull_nil h)]
    rfl
  | cons msg q ih =>
    obtain ⟨fuel, rfl⟩ := Nat.exists_eq_add_one_of_ne_zero (Nat.ne_zero_of_lt hfuel)
    obtain ⟨r, tail', hr, hevent, hlay, hpub'⟩ := pullRingEvent_cons lib obf pub h hpub
    have hlen : q.length ≤ (msg :: q).length := Nat.le_succ _
    simp only [CtsSec.drain, hr, CtsSec.discarded, List.countP_cons, List.filterMap_cons, ← hevent]
    rcases hjson : r.event with - | jsonStr
    · exact ⟨[], q, r.mem, tail', by simp [hjson], rfl, .inr (by simp), hlen, hlay, hpub'⟩
    · obtain ⟨lines, rest, m', tail'', hdrain, hlines, hless, hle, hrest⟩ :=
        ih hlay hpub' (by simpa using hfuel)
      exact ⟨jsonStr :: lines, rest, m', tail'', by simp [hjson, hdrain], by simp [hlines], hless,
        hle.trans hlen, hrest⟩

/-- **No accepted message is lost.** Once there was a signal more than there are messages that are
discarded, every message that is accepted was handled, once and in order, and the ring is empty. -/
theorem signals_handle_all (h : Layout m cap head tail q) (hpub : loadU32 m 8 = UInt32.ofNat cap)
    (hfuel : q.length < fuel) (hn : lib.discarded obf pub q ≤ n) :
    ∃ m' tail', lib.signals obf pub fuel n m = some (q.filterMap (lib.eventOf obf pub), m') ∧
      Layout m' cap head tail' [] := by
  induction n generalizing m tail q with
  | zero =>
    obtain ⟨lines, rest, m', tail', hdrain, hlines, hless, -, hlay, -⟩ :=
      drain_spec lib obf pub h hpub hfuel
    obtain rfl := hless.resolve_right (by omega)
    exact ⟨m', tail', by simp [CtsSec.signals, hdrain, hlines], hlay⟩
  | succ n ih =>
    obtain ⟨lines, rest, m', tail', hdrain, hlines, hless, hle, hlay, hpub'⟩ :=
      drain_spec lib obf pub h hpub hfuel
    have hrest : lib.discarded obf pub rest ≤ n := by
      rcases hless with rfl | hless
      · exact Nat.zero_le n
      · omega
    obtain ⟨m'', tail'', hmore, hlay'⟩ := ih hlay hpub' (hle.trans_lt hfuel) hrest
    exact ⟨m'', tail'', by simp [CtsSec.signals, hdrain, hmore, hlines], hlay'⟩

theorem signals_handle_last : ∃ m' tail',
    acceptingLib.signals none none 3 1 (twoMessages 0 0xc0) =
        some ([[0], [0xc0]].filterMap (acceptingLib.eventOf none none), m') ∧
      Layout m' 16 10 tail' [] :=
  signals_handle_all acceptingLib none none (layout_twoMessages 0 0xc0) rfl (by decide)
    (by decide +kernel)

end Ipc
