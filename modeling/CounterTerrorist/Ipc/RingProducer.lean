import CounterTerrorist.Ipc.RingLayout

/-!
# The producer keeps the layout

* `push_cases` says everything a returning `push` can do, over naturals: refuse, write in place, or
  wrap.
* The wrap branch is never taken while `head < tail` (`WrapWrite.tail_le`): the free-space test
  already bounds `head + total_len` by `tail`, which stays four bytes below the capacity.
* `layout_push` is what the rest of the development uses: a push that returns `true` appends its
  message, one that returns `false` changes nothing. `push_returns` says that it does return, for
  every message whose length a 32-bit word can describe.
-/

open ByteMemory

namespace Ipc

open List Option IpcRingBuffer

/-! ### Attaching -/

/-- Attaching keeps the layout and publishes the capacity of the mapping. -/
theorem layout_new {m : Mem} {cap head tail : ℕ} {q : List (List UInt8)}
    (h : Layout m cap head tail q) :
    ∃ m', new m = some (⟨UInt32.ofNat cap⟩, m') ∧ Layout m' cap head tail q ∧
      loadU32 m' 8 = UInt32.ofNat cap := by
  have hlen := h.length_ge
  have hcap : m.length - 16 = cap := by
    have := h.length_eq
    simp only [dataOffset] at this
    omega
  refine ⟨splice m 8 (toLeBytes (UInt32.ofNat cap)), ?_, h.splice_capacity _,
    loadU32_splice_self (by omega)⟩
  rw [new, if_neg (by omega), hcap]

/-! ### What a push can do -/

/-- The effect of a push that does not wrap. -/
def inPlace (m : Mem) (head : ℕ) (msg : List UInt8) : Mem :=
  splice (splice m (dataOffset + head) (record msg)) 0
    (toLeBytes (UInt32.ofNat (head + (4 + msg.length))))

/-- The effect of a push that wraps. -/
def wrapAround (m : Mem) (head : ℕ) (msg : List UInt8) : Mem :=
  splice (splice (splice m (dataOffset + head) (toLeBytes skipMarker)) dataOffset (record msg)) 0
    (toLeBytes (UInt32.ofNat (4 + msg.length)))

/-- When and how a push writes in place. -/
structure InPlaceWrite (m m' : Mem) (cap head tail : ℕ) (msg : List UInt8) : Prop where
  fits : head + msg.length + 8 ≤ cap
  free : head < tail → head + msg.length + 4 < tail
  eq : m' = inPlace m head msg

/-- When and how a push wraps. -/
structure WrapWrite (m m' : Mem) (cap head tail : ℕ) (msg : List UInt8) : Prop where
  fits : msg.length + 8 ≤ cap
  tail_le : tail ≤ head
  free : msg.length + 4 < tail
  eq : m' = wrapAround m head msg

/-- The free-space test over naturals, in both positions of the two words. -/
theorem toNat_freeSpace {capacity head tail : UInt32} {cap h t : ℕ} (hc : capacity.toNat = cap)
    (hh : head.toNat = h) (ht : tail.toNat = t) (hhc : h + 4 ≤ cap) (htc : t + 4 ≤ cap) :
    (freeSpace capacity head tail).toNat = if t ≤ h then cap - (h - t) - 1 else t - h - 1 := by
  subst hc hh ht
  simp only [freeSpace]
  by_cases hle : head ≥ tail
  · have hn : tail.toNat ≤ head.toNat := UInt32.le_iff_toNat_le.1 hle
    have hd := toNat_sub_of_ge hn
    rw [if_pos hle, if_pos hn, toNat_sub_of_ge, toNat_sub_of_ge (by omega), hd]
    · rfl
    · rw [toNat_sub_of_ge (by omega)]
      show 1 ≤ _
      omega
  · have hn : head.toNat < tail.toNat := UInt32.lt_iff_toNat_lt.1 (UInt32.not_le.1 hle)
    have hd := toNat_sub_of_ge hn.le
    have hu : (capacity - (tail - head)).toNat = capacity.toNat - (tail.toNat - head.toNat) := by
      rw [toNat_sub_of_ge (by omega), hd]
    rw [if_neg hle, if_neg (by omega), toNat_sub_of_ge, toNat_sub_of_ge (by omega), hu]
    · show capacity.toNat - (capacity.toNat - (tail.toNat - head.toNat)) - 1 = _
      omega
    · rw [toNat_sub_of_ge (by omega)]
      show 1 ≤ _
      omega

variable {off : ℕ} {msgLen totalLen : UInt32}

/-- Laying a record down succeeds exactly when the length word is the length of the message and
the record fits; then it is one write. -/
theorem copyRecord_eq_some_iff {m m' : Mem} {msg : List UInt8} :
    copyRecord m off msgLen msg = some m' ↔
      msgLen.toNat = msg.length ∧ off + (4 + msg.length) ≤ m.length ∧
        m' = splice m off (toLeBytes msgLen ++ msg) := by
  by_cases h4 : off + 4 ≤ m.length
  swap
  · simp [copyRecord, writeAt, h4]
    omega
  have hl : (splice m off (toLeBytes msgLen)).length = m.length := length_splice (by simpa using h4)
  by_cases heq : msgLen.toNat = msg.length
  swap
  · simp [copyRecord, heq]
  by_cases hfit : off + 4 + msg.length ≤ m.length
  swap
  · simp [copyRecord, writeAt, h4, hl, hfit]
    omega
  have hone : splice (splice m off (toLeBytes msgLen)) (off + 4) msg =
      splice m off (toLeBytes msgLen ++ msg) := splice_splice_append (by simpa using hfit)
  simp only [copyRecord, writeAt, readAt, length_toLeBytes, h4, if_true, bind_eq_bind, bind_some,
    hl, heq, hone, Nat.add_assoc] at hfit ⊢
  simp [hfit, eq_comm]

variable {m m' : Mem} {cap head tail : ℕ} {q : List (List UInt8)} {msg : List UInt8} {b : Bool}

theorem Layout.toNat_capacity (h : Layout m cap head tail q) : (UInt32.ofNat cap).toNat = cap :=
  toNat_ofNat_of_lt (Nat.lt_trans h.cap_lt (by decide))

/-- The size test over naturals. -/
theorem Layout.toNat_le_of_not_gt (h : Layout m cap head tail q)
    (hfit : ¬ totalLen > UInt32.ofNat cap - 4) : totalLen.toNat ≤ cap - 4 := by
  have hlo := h.le_cap
  rw [UInt32.not_lt, UInt32.le_iff_toNat_le,
    toNat_sub_of_ge (by rw [h.toNat_capacity]; change 4 ≤ cap; omega), h.toNat_capacity] at hfit
  exact hfit

/-- The end of a record that is not too long, and of the length word behind it. -/
theorem Layout.toNat_end (h : Layout m cap head tail q) (hfit : totalLen.toNat ≤ cap - 4) :
    (loadU32 m 0 + totalLen).toNat = head + totalLen.toNat ∧
      (loadU32 m 0 + totalLen + 4).toNat = head + totalLen.toNat + 4 := by
  have hhw := h.head_word
  have hhead := h.head_le
  have hhi := h.cap_lt
  have hsum : (loadU32 m 0 + totalLen).toNat = head + totalLen.toNat := by
    rw [toNat_add_of_lt (by omega), hhw]
  refine ⟨hsum, ?_⟩
  rw [toNat_add_of_lt (by rw [hsum]; change _ + 4 < _; omega), hsum]
  rfl

/-- The length of a record over naturals. -/
theorem toNat_totalLen {n : ℕ} (hlen : msgLen.toNat = n) (hlt : 4 + n < 2 ^ 32) :
    (4 + msgLen).toNat = 4 + n := by
  rw [toNat_add_of_lt (by rw [hlen]; exact hlt), hlen]
  rfl

/-- Everything a returning push can do. -/
theorem push_cases (h : Layout m cap head tail q)
    (hp : push ⟨UInt32.ofNat cap⟩ m msg = some (b, m')) :
    (b = false ∧ m' = m) ∨ (b = true ∧
        (InPlaceWrite m m' cap head tail msg ∨ WrapWrite m m' cap head tail msg)) := by
  have hcap := h.toNat_capacity
  have hlen := h.length_eq
  have hhi := h.cap_lt
  have hhead := h.head_le
  have htail := h.tail_le
  have hhw := h.head_word
  have htw := h.tail_word
  have hfree := toNat_freeSpace hcap hhw htw hhead htail
  simp only [push] at hp
  generalize hL : UInt32.ofNat msg.length = msgLen at hp
  split at hp
  · cases hp
    exact .inl ⟨rfl, rfl⟩
  rename_i hfit
  obtain ⟨hsum, hend⟩ := h.toNat_end (h.toNat_le_of_not_gt (not_or.1 hfit).2)
  split at hp
  · cases hp
    exact .inl ⟨rfl, rfl⟩
  rename_i hspace
  rw [UInt32.not_lt, UInt32.le_iff_toNat_le, hfree] at hspace
  -- a record that is written fits into the memory, so that its length does not overflow
  have hsmall (hle : msg.length ≤ m.length) : 4 + msg.length < 2 ^ 32 := by
    simp only [dataOffset] at hlen
    omega
  split at hp
  · rename_i hwrap
    rw [gt_iff_lt, UInt32.lt_iff_toNat_lt] at hwrap
    split at hp
    · rename_i htl
      simp only [writeAt, length_toLeBytes, hhw, hlen,
        show dataOffset + head + 4 ≤ dataOffset + cap by omega, if_true, bind_eq_bind,
        bind_some, bind_eq_some_iff, copyRecord_eq_some_iff,
        length_splice (show dataOffset + head + (toLeBytes skipMarker).length ≤ m.length by
          rw [length_toLeBytes]; omega)] at hp
      obtain ⟨m₁, ⟨hmsg, hroom, rfl⟩, hp⟩ := hp
      cases hp
      have ht := toNat_totalLen hmsg (hsmall (by omega))
      rw [gt_iff_lt, UInt32.lt_iff_toNat_lt] at htl
      have htw : 4 + msgLen = UInt32.ofNat (4 + msg.length) := by
        apply UInt32.toNat.inj
        rw [ht, toNat_ofNat_of_lt (by omega)]
      refine .inr ⟨rfl, .inr ⟨by omega, ?_, by omega, ?_⟩⟩
      · -- below the tail the free-space test already keeps the record inside the capacity
        by_contra hlt
        rw [if_neg hlt] at hspace
        omega
      · rw [wrapAround, record, hL, htw]
    · cases hp
      exact .inl ⟨rfl, rfl⟩
  · rename_i hwrap
    rw [UInt32.not_lt, UInt32.le_iff_toNat_le] at hwrap
    simp only [hhw, bind_eq_bind, bind_eq_some_iff, copyRecord_eq_some_iff] at hp
    obtain ⟨m₁, ⟨hmsg, hroom, rfl⟩, hp⟩ := hp
    cases hp
    have ht := toNat_totalLen hmsg (hsmall (by omega))
    have htw : loadU32 m 0 + (4 + msgLen) = UInt32.ofNat (head + (4 + msg.length)) := by
      apply UInt32.toNat.inj
      rw [hsum, ht, toNat_ofNat_of_lt (by omega)]
    refine .inr ⟨rfl, .inl ⟨by omega, fun hlt ↦ ?_, ?_⟩⟩
    · rw [if_neg (by omega)] at hspace
      omega
    · rw [inPlace, record, hL, htw]

/-- A push of a message that a 32-bit length can describe always returns. -/
theorem push_returns (h : Layout m cap head tail q) (hmsg : msg.length + 4 < 2 ^ 32) :
    ∃ b m', push ⟨UInt32.ofNat cap⟩ m msg = some (b, m') := by
  have hcap := h.toNat_capacity
  have hlen := h.length_eq
  have hhead := h.head_le
  have hhw := h.head_word
  have hml : (UInt32.ofNat msg.length).toNat = msg.length := toNat_ofNat_of_lt (by omega)
  have h4 := toNat_totalLen hml (by omega)
  simp only [push]
  split
  · exact ⟨_, _, rfl⟩
  rename_i hfit
  have hfit := h.toNat_le_of_not_gt (not_or.1 hfit).2
  have hend := (h.toNat_end hfit).2
  split
  · exact ⟨_, _, rfl⟩
  split
  · split
    · have hc : copyRecord (splice m (dataOffset + head) (toLeBytes skipMarker)) dataOffset
          (UInt32.ofNat msg.length) msg = some _ :=
        copyRecord_eq_some_iff.2 ⟨hml, by
          rw [length_splice (by rw [length_toLeBytes]; omega)]; omega, rfl⟩
      rw [hhw, writeAt_of_le (by rw [length_toLeBytes]; omega)]
      simp only [bind_eq_bind, bind_some, hc]
      exact ⟨_, _, rfl⟩
    · exact ⟨_, _, rfl⟩
  · rename_i hwrap
    rw [UInt32.not_lt, UInt32.le_iff_toNat_le] at hwrap
    have hc : copyRecord m (dataOffset + head) (UInt32.ofNat msg.length) msg = some _ :=
      copyRecord_eq_some_iff.2 ⟨hml, by omega, rfl⟩
    rw [hhw]
    simp only [hc]
    exact ⟨_, _, rfl⟩

/-! ### Each effect keeps the layout -/

/-- Storing a header word leaves the data section alone. -/
theorem holdsAt_store {bs : List UInt8} (hb : HoldsAt m (dataOffset + off) bs) {pos : ℕ}
    (hpos : pos ≤ 12) (hm : dataOffset ≤ m.length) (w : UInt32) :
    HoldsAt (splice m pos (toLeBytes w)) (dataOffset + off) bs := by
  simp only [dataOffset] at hm hb ⊢
  exact hb.splice (by simp; omega) (by simp; omega)

/-- Two lists of pending messages, the second one longer by `msg`. -/
theorem fits_snoc (hq : ∀ msg ∈ q, msg ≠ [] ∧ msg.length + 8 ≤ cap)
    (hne : msg ≠ []) (hlen : msg.length + 8 ≤ cap) :
    ∀ msg' ∈ q ++ [msg], msg' ≠ [] ∧ msg'.length + 8 ≤ cap := by
  intro msg' hmem
  rcases mem_append.1 hmem with hmem | hmem
  · exact hq msg' hmem
  · obtain rfl := mem_singleton.1 hmem
    exact ⟨hne, hlen⟩

/-- When something is pending and the head is not below the tail, the first length word lies
before the head. -/
theorem Layout.tail_add_le (h : Layout m cap head tail q) (hq : q ≠ []) (hle : tail ≤ head) :
    tail + 4 ≤ head := by
  rcases h.shape with hu | ⟨q₁, q₂, -, hw⟩
  · obtain ⟨msg, q', rfl⟩ := exists_cons_of_ne_nil hq
    have := hu.head_eq
    simp only [records_cons, length_append, length_record] at this
    omega
  · have := hw.head_lt
    omega

/-- Publishing a new head touches no other word. -/
theorem publish_head {next : ℕ} (hlen : m.length = dataOffset + cap) (hnext : next < 2 ^ 32) :
    (splice m 0 (toLeBytes (UInt32.ofNat next))).length = dataOffset + cap ∧
      (loadU32 (splice m 0 (toLeBytes (UInt32.ofNat next))) 0).toNat = next ∧
      ∀ off, 4 ≤ off →
        loadU32 (splice m 0 (toLeBytes (UInt32.ofNat next))) off = loadU32 m off := by
  have hge : 4 ≤ m.length := by
    simp only [hlen, dataOffset]
    omega
  have hb : 0 + (toLeBytes (UInt32.ofNat next)).length ≤ m.length := by
    rw [length_toLeBytes]
    omega
  refine ⟨by rw [length_splice hb, hlen], ?_, fun off hoff ↦ ?_⟩
  · rw [loadU32_splice_self (by omega), toNat_ofNat_of_lt hnext]
  · exact loadU32_splice_of_disjoint hb (.inr (by rw [length_toLeBytes]; omega))

/-- Writing in place appends one record and leaves the first length word alone. -/
theorem InPlaceWrite.layout (hw : InPlaceWrite m m' cap head tail msg)
    (h : Layout m cap head tail q) (hne : msg ≠ []) :
    Layout m' cap (head + (4 + msg.length)) tail (q ++ [msg]) ∧ loadU32 m' 8 = loadU32 m 8 ∧
      (q ≠ [] → loadU32 m' (dataOffset + tail) = loadU32 m (dataOffset + tail)) := by
  obtain ⟨hfits, hfree, rfl⟩ := hw
  have hlen := h.length_eq
  have hcap := h.cap_lt
  have hb : dataOffset + head + (record msg).length ≤ m.length := by
    rw [length_record]; omega
  have hlen₁ : (splice m (dataOffset + head) (record msg)).length = dataOffset + cap := by
    rw [length_splice hb, hlen]
  have hhead : head + (4 + msg.length) < 2 ^ 32 := by omega
  obtain ⟨hlen', hhead', hwords⟩ := publish_head hlen₁ hhead
  have hself : HoldsAt (inPlace m head msg) (dataOffset + head) (record msg) :=
    holdsAt_store (holdsAt_splice_self hb) (by omega) (by omega) _
  have hkeep {off : ℕ} {bs : List UInt8} (hk : HoldsAt m (dataOffset + off) bs)
      (hd : off + bs.length ≤ head ∨ head + (4 + msg.length) ≤ off) :
      HoldsAt (inPlace m head msg) (dataOffset + off) bs :=
    holdsAt_store (hk.splice hb (by rw [length_record]; omega)) (by omega) (by omega) _
  have hword {off : ℕ} (hoff : 4 ≤ off)
      (hd : off + 4 ≤ dataOffset + head ∨ dataOffset + head + (record msg).length ≤ off) :
      loadU32 (inPlace m head msg) off = loadU32 m off :=
    (hwords off hoff).trans (loadU32_splice_of_disjoint hb hd)
  refine ⟨⟨hlen', h.le_cap, hcap, hhead', ?_, fits_snoc h.fits hne (by omega), ?_⟩, ?_, ?_⟩
  · rw [hword (by omega) (by simp only [dataOffset]; omega), h.tail_word]
  · rcases h.shape with hu | ⟨q₁, q₂, rfl, hw⟩
    · have he := hu.head_eq
      refine .inl ⟨?_, by omega, ?_⟩
      · simp only [records_append, records_singleton, length_append, length_record]
        omega
      · rw [records_append, records_singleton, holdsAt_append]
        exact ⟨hkeep hu.data (by omega), by rw [Nat.add_assoc, he]; exact hself⟩
    · have he := hw.head_eq
      have hlt := hw.head_lt
      refine .inr ⟨q₁, q₂ ++ [msg], by simp, by simp, ?_, ?_, hw.skip_le, ?_, ?_⟩
      · simp only [records_append, records_singleton, length_append, length_record]
        omega
      · omega
      · exact hkeep hw.upper (by have := hfree hlt; omega)
      · rw [records_append, records_singleton, holdsAt_append]
        refine ⟨?_, by rw [he]; exact hself⟩
        have hlow : HoldsAt m (dataOffset + 0) (records q₂) := hw.lower
        exact hkeep hlow (by omega)
  · exact hword (by omega) (by simp only [dataOffset]; omega)
  · intro hq
    refine hword (by simp only [dataOffset]; omega) ?_
    rcases Nat.lt_or_ge head tail with hlt | hle
    · rw [length_record]
      omega
    · have := h.tail_add_le hq hle
      omega

/-- Wrapping puts a skip marker at the head and the record at the start of the data section. -/
theorem WrapWrite.layout (hw : WrapWrite m m' cap head tail msg)
    (h : Layout m cap head tail q) (hne : msg ≠ []) :
    Layout m' cap (4 + msg.length) tail (q ++ [msg]) ∧ loadU32 m' 8 = loadU32 m 8 ∧
      (q ≠ [] → loadU32 m' (dataOffset + tail) = loadU32 m (dataOffset + tail)) := by
  obtain ⟨hfits, hle, hfree, rfl⟩ := hw
  have hlen := h.length_eq
  have hcap := h.cap_lt
  have hhead := h.head_le
  have hb : dataOffset + head + (toLeBytes skipMarker).length ≤ m.length := by
    rw [length_toLeBytes]; omega
  have hlen₁ : (splice m (dataOffset + head) (toLeBytes skipMarker)).length =
      dataOffset + cap := by rw [length_splice hb, hlen]
  have hb₁ : dataOffset + (record msg).length ≤
      (splice m (dataOffset + head) (toLeBytes skipMarker)).length := by
    rw [length_record]; omega
  have hlen₂ : (splice (splice m (dataOffset + head) (toLeBytes skipMarker)) dataOffset
      (record msg)).length = dataOffset + cap := by rw [length_splice hb₁, hlen₁]
  have hhead' : 4 + msg.length < 2 ^ 32 := by omega
  obtain ⟨hlen', hhead', hwords⟩ := publish_head hlen₂ hhead'
  have hword {off : ℕ} (hoff : 4 ≤ off)
      (hd₁ : off + 4 ≤ dataOffset ∨ dataOffset + (record msg).length ≤ off)
      (hd : off + 4 ≤ dataOffset + head ∨ dataOffset + head + (toLeBytes skipMarker).length ≤ off) :
      loadU32 (wrapAround m head msg) off = loadU32 m off :=
    (hwords off hoff).trans
      ((loadU32_splice_of_disjoint hb₁ hd₁).trans (loadU32_splice_of_disjoint hb hd))
  -- below the tail the head cannot be, so the pending records stand in one piece
  obtain hu | ⟨q₁, q₂, -, hw⟩ := h.shape
  swap
  · have := hw.head_lt
    omega
  have he := hu.head_eq
  refine ⟨⟨hlen', h.le_cap, hcap, hhead', ?_, fits_snoc h.fits hne hfits,
    .inr ⟨q, [msg], rfl, by simp, ?_, by omega, by omega, ?_, ?_⟩⟩, ?_, ?_⟩
  · rw [hword (by omega) (.inl (by decide)) (.inl (by simp only [dataOffset]; omega)), h.tail_word]
  · simp
  · have hmark : HoldsAt (splice m (dataOffset + head) (toLeBytes skipMarker))
        (dataOffset + tail) (records q ++ toLeBytes skipMarker) := by
      rw [holdsAt_append]
      refine ⟨hu.data.splice hb (by omega), ?_⟩
      rw [Nat.add_assoc, he]
      exact holdsAt_splice_self hb
    exact holdsAt_store (hmark.splice hb₁ (by rw [length_record]; omega)) (by omega) (by omega) _
  · rw [records_singleton]
    have hself : HoldsAt (splice (splice m (dataOffset + head) (toLeBytes skipMarker))
      dataOffset (record msg)) (dataOffset + 0) (record msg) := holdsAt_splice_self hb₁
    exact holdsAt_store hself (by omega) (by omega) _
  · exact hword (by omega) (.inl (by decide)) (.inl (by simp only [dataOffset]; omega))
  · intro hq
    have := h.tail_add_le hq hle
    exact hword (by simp only [dataOffset]; omega) (.inr (by rw [length_record]; omega))
      (.inl (by omega))

/-- A returning push either refuses and changes nothing, or appends the message. In the second case
the tail and the first length word stay as they are. -/
theorem layout_push (h : Layout m cap head tail q) (hne : msg ≠ [])
    (hp : push ⟨UInt32.ofNat cap⟩ m msg = some (b, m')) :
    (b = false ∧ m' = m) ∨
      (b = true ∧ loadU32 m' 8 = loadU32 m 8 ∧ ∃ head', Layout m' cap head' tail (q ++ [msg]) ∧
        (q ≠ [] → loadU32 m' (dataOffset + tail) = loadU32 m (dataOffset + tail))) := by
  obtain hno | ⟨hyes, hi | hw⟩ := push_cases h hp
  · exact .inl hno
  · obtain ⟨hl, hc, hf⟩ := hi.layout h hne
    exact .inr ⟨hyes, hc, _, hl, hf⟩
  · obtain ⟨hl, hc, hf⟩ := hw.layout h hne
    exact .inr ⟨hyes, hc, _, hl, hf⟩

end Ipc
