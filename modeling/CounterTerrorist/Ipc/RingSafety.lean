import CounterTerrorist.Ipc.Ring

/-!
# The consumer against an arbitrary mapping

The mapping can be written by every process that holds it, so nothing in it can be relied on: head,
tail, capacity, lengths and data are whatever the other side put there. The results of this module
assume nothing about the content and nothing about the length.

Both functions start with the same guards. `Readable` is what is known once they have passed, and
the two lemmas `Readable.pull_eq` and `Readable.commit_eq` then say what each function does in terms
of the effective tail and of the length word that stands there. That the two agree is read off from
these. A length word of zero is the one case they treat differently: `shmemRingPull` gives the null
pointer, and `shmemRingCommit` still steps over it at the tail, though not behind a skip marker.
-/

open ByteMemory

namespace Ipc

open Option

variable {m : Mem} {cap : UInt32}

/-- Where the reader finds the first record: at the tail, or at the start of the data section when
the tail stands on a skip marker. -/
def effectiveTail (m : Mem) (tail : ℕ) : ℕ :=
  if loadU32 m (dataOffset + tail) = skipMarker then 0 else tail

/-! ### The common guards -/

/-- A validated capacity is the declared one, and the data section it bounds lies in the mapping. -/
theorem validatedCapacity_eq_some {declared : UInt32}
    (h : validatedCapacity m declared = some cap) :
    cap = declared ∧ dataOffset + cap.toNat ≤ m.length := by
  simp only [validatedCapacity, ite_none_left_eq_some, Option.some.injEq, not_or, UInt32.not_lt,
    UInt32.le_iff_toNat_le] at h
  obtain ⟨hlen, ⟨-, hle⟩, rfl⟩ := h
  refine ⟨rfl, ?_⟩
  have hlt := declared.toNat_lt
  simp only [dataOffset]
  split at hle
  · rename_i husable
    rw [toNat_ofNat_of_lt husable] at hle
    omega
  · omega

/-- The guards have passed: the segment is large enough, its capacity was validated, something is
pending, and the length word at the tail lies in the data section. -/
structure Readable (m : Mem) (cap : UInt32) : Prop where
  length_ge : 32 ≤ m.length
  validated : validatedCapacity m (loadU32 m 8) = some cap
  pending : loadU32 m 0 ≠ loadU32 m 4
  tail_le : (loadU32 m 4).toNat + 4 ≤ cap.toNat

namespace Readable

/-- The length word that the reader ends up with. -/
def recordLen (m : Mem) : UInt32 :=
  loadU32 m (dataOffset + effectiveTail m (loadU32 m 4).toNat)

section

variable (h : Readable m cap)
include h

theorem cap_le : dataOffset + cap.toNat ≤ m.length := (validatedCapacity_eq_some h.validated).2

theorem not_all_gt : ¬(checkedAdd (loadU32 m 4) 4).all (· > cap) = true := by
  rw [checkedAdd_all_gt, not_lt]
  exact h.tail_le

/-- The guards leave both functions at their reads, which are in range. -/
theorem reads : readAt m (dataOffset + (loadU32 m 4).toNat) 4 =
        some (slice m (dataOffset + (loadU32 m 4).toNat) 4) ∧
      readAt m dataOffset 4 = some (slice m dataOffset 4) := by
  have hcap := h.cap_le
  have htail := h.tail_le
  exact ⟨readAt_of_le (by omega), readAt_of_le (by omega)⟩

theorem not_cap_lt : ¬cap < 4 := by
  have htail := h.tail_le
  rw [UInt32.not_lt]
  show 4 ≤ cap.toNat
  omega

end

/-- The last check of `shmemRingPull`, over the naturals. -/
theorem finish_eq {e len : UInt32} (he : e.toNat + 4 ≤ cap.toNat) : shmemRingPull.finish cap e len =
      if len ≠ 0 ∧ e.toNat + 4 + len.toNat ≤ cap.toNat then
        some (some (dataOffset + e.toNat + 4, len))
      else some none := by
  have hcap := cap.toNat_lt
  have hsub : (cap - 4).toNat = cap.toNat - 4 := toNat_sub_of_ge (by
    show 4 ≤ cap.toNat
    omega)
  have hfour : (4 : UInt32).toNat = 4 := rfl
  by_cases hzero : len = 0
  · rw [shmemRingPull.finish, if_pos (.inl hzero), if_neg (by tauto)]
  · by_cases hle : e.toNat + 4 + len.toNat ≤ cap.toNat
    · have hsum : ((checkedAdd e 4).bind (checkedAdd · len)) =
          some (UInt32.ofNat (e.toNat + 4 + len.toNat)) := by
        rw [checkedAdd_bind_of_lt (by omega), hfour]
      rw [shmemRingPull.finish, hsum, if_neg, if_pos ⟨hzero, hle⟩]
      rw [not_or, not_or, all_some, decide_eq_true_eq, UInt32.not_lt, UInt32.not_lt,
        UInt32.le_iff_toNat_le, UInt32.le_iff_toNat_le, toNat_ofNat_of_lt (by omega)]
      exact ⟨hzero, by omega, hle⟩
    · rw [if_neg (by tauto), shmemRingPull.finish, if_pos]
      refine .inr (.inr ?_)
      by_cases hover : e.toNat + 4 + len.toNat < 2 ^ 32
      · rw [checkedAdd_bind_of_lt (by omega), hfour, all_some, decide_eq_true_eq, gt_iff_lt,
          UInt32.lt_iff_toNat_lt, toNat_ofNat_of_lt hover]
        omega
      · rw [checkedAdd_bind_eq_none (by omega)]
        rfl

/-- A length word that is the skip marker is out of bounds. -/
theorem not_fits_skipMarker {e : ℕ} (hw : recordLen m = skipMarker) :
    ¬e + 4 + (recordLen m).toNat ≤ cap.toNat := by
  have hcap := cap.toNat_lt
  have hskip : skipMarker.toNat = 4294967295 := rfl
  rw [hw]
  omega

/-- The record behind a skip marker stands at the start of the data section. -/
theorem record_of_skip (hskip : loadU32 m (dataOffset + (loadU32 m 4).toNat) = skipMarker) :
    effectiveTail m (loadU32 m 4).toNat = 0 ∧ fromLeBytes (slice m dataOffset 4) = recordLen m := by
  have heff : effectiveTail m (loadU32 m 4).toNat = 0 := if_pos hskip
  refine ⟨heff, ?_⟩
  rw [recordLen, heff]
  rfl

/-- Any other record stands at the tail. -/
theorem record_of_not_skip (hskip : ¬loadU32 m (dataOffset + (loadU32 m 4).toNat) = skipMarker) :
    effectiveTail m (loadU32 m 4).toNat = (loadU32 m 4).toNat ∧
      fromLeBytes (slice m (dataOffset + (loadU32 m 4).toNat) 4) = recordLen m := by
  have heff : effectiveTail m (loadU32 m 4).toNat = (loadU32 m 4).toNat := if_neg hskip
  refine ⟨heff, ?_⟩
  rw [recordLen, heff]
  rfl

/-- What `shmemRingPull` gives: the record behind the effective tail, when it is not empty and ends
in the data section. -/
theorem pull_eq (h : Readable m cap) : shmemRingPull m =
      if recordLen m ≠ 0 ∧
          effectiveTail m (loadU32 m 4).toNat + 4 + (recordLen m).toNat ≤ cap.toNat then
        some (some (dataOffset + effectiveTail m (loadU32 m 4).toNat + 4, recordLen m))
      else some none := by
  obtain ⟨hread, hread₀⟩ := h.reads
  have hge := h.length_ge
  have htail := h.tail_le
  simp only [shmemRingPull, h.validated, h.pending, h.not_all_gt, Bool.false_eq_true, if_false,
    hread, hread₀, bind_eq_bind, bind_some]
  rw [if_neg (by omega)]
  by_cases hskip : loadU32 m (dataOffset + (loadU32 m 4).toNat) = skipMarker
  · obtain ⟨heff, hlen⟩ := record_of_skip hskip
    rw [if_pos (show fromLeBytes (slice m (dataOffset + (loadU32 m 4).toNat) 4) = skipMarker
      from hskip), if_neg h.not_cap_lt, hlen, heff]
    by_cases hnull : recordLen m = 0 ∨ recordLen m = skipMarker
    · rw [if_pos hnull, if_neg]
      · rfl
      · rcases hnull with hzero | hmarker
        · tauto
        · exact fun hand ↦ not_fits_skipMarker hmarker hand.2
    · rw [if_neg hnull, finish_eq (e := 0) (by show 0 + 4 ≤ _; omega)]
      rfl
  · obtain ⟨heff, hlen⟩ := record_of_not_skip hskip
    rw [if_neg (show ¬fromLeBytes (slice m (dataOffset + (loadU32 m 4).toNat) 4) = skipMarker
      from hskip), hlen, heff, finish_eq htail]

/-- What `shmemRingCommit` does: it stores the end of the record behind the effective tail, when
that lies in the data section; behind a skip marker the record must not be empty either. -/
theorem commit_eq (h : Readable m cap) : shmemRingCommit m =
      if (loadU32 m (dataOffset + (loadU32 m 4).toNat) = skipMarker → recordLen m ≠ 0) ∧
          effectiveTail m (loadU32 m 4).toNat + 4 + (recordLen m).toNat ≤ cap.toNat then
        some (splice m 4 (toLeBytes (UInt32.ofNat
          (effectiveTail m (loadU32 m 4).toNat + 4 + (recordLen m).toNat))))
      else some m := by
  obtain ⟨hread, hread₀⟩ := h.reads
  have hge := h.length_ge
  have hcap := cap.toNat_lt
  have hfour : (4 : UInt32).toNat = 4 := rfl
  simp only [shmemRingCommit, h.validated, h.pending, h.not_all_gt, Bool.false_eq_true, if_false,
    hread, hread₀, bind_eq_bind, bind_some]
  rw [if_neg (by omega)]
  by_cases hskip : loadU32 m (dataOffset + (loadU32 m 4).toNat) = skipMarker
  · obtain ⟨heff, hlen⟩ := record_of_skip hskip
    rw [if_pos (show fromLeBytes (slice m (dataOffset + (loadU32 m 4).toNat) 4) = skipMarker
      from hskip), if_neg h.not_cap_lt, hlen, heff]
    by_cases hfits : recordLen m ≠ 0 ∧ 0 + 4 + (recordLen m).toNat ≤ cap.toNat
    · have hmarker : recordLen m ≠ skipMarker := fun hw ↦ not_fits_skipMarker hw hfits.2
      have hany : (checkedAdd (recordLen m) 4).any (· ≤ cap) = true :=
        checkedAdd_any_le.2 (by omega)
      rw [if_pos ⟨hfits.1, hmarker, hany⟩, if_pos ⟨fun _ ↦ hfits.1, hfits.2⟩]
      rfl
    · rw [if_neg, if_neg fun hand ↦ hfits ⟨hand.1 hskip, hand.2⟩]
      · rfl
      · rintro ⟨hne, -, hany⟩
        have hle := checkedAdd_any_le.1 hany
        exact hfits ⟨hne, by omega⟩
  · obtain ⟨heff, hlen⟩ := record_of_not_skip hskip
    rw [if_neg (show ¬fromLeBytes (slice m (dataOffset + (loadU32 m 4).toNat) 4) = skipMarker
      from hskip), hlen, heff]
    by_cases hover : (loadU32 m 4).toNat + 4 + (recordLen m).toNat < 2 ^ 32
    · rw [checkedAdd_bind_of_lt (by omega), hfour]
      by_cases hle : (loadU32 m 4).toNat + 4 + (recordLen m).toNat ≤ cap.toNat
      · have hnext : UInt32.ofNat ((loadU32 m 4).toNat + 4 + (recordLen m).toNat) ≤ cap := by
          rwa [UInt32.le_iff_toNat_le, toNat_ofNat_of_lt hover]
        simp only [hnext, if_true]
        rw [if_pos ⟨fun hs ↦ absurd hs hskip, hle⟩]
        rfl
      · have hnext : ¬UInt32.ofNat ((loadU32 m 4).toNat + 4 + (recordLen m).toNat) ≤ cap := by
          rwa [UInt32.le_iff_toNat_le, toNat_ofNat_of_lt hover]
        simp only [hnext, if_false]
        rw [if_neg fun hand ↦ hle hand.2]
        rfl
    · rw [checkedAdd_bind_eq_none (by omega), if_neg fun hand ↦ hover (by omega)]
      rfl

end Readable

/-- Either the guards pass, or both functions leave everything as it is. -/
theorem readable_or_null (m : Mem) : (∃ cap, Readable m cap) ∨
    (shmemRingPull m = some none ∧ shmemRingCommit m = some m) := by
  by_cases hlen : m.length < 32
  · exact .inr ⟨if_pos hlen, if_pos hlen⟩
  · rcases hval : validatedCapacity m (loadU32 m 8) with - | cap
    · refine .inr ⟨?_, ?_⟩
      · simp only [shmemRingPull, hval, if_neg hlen]
      · simp only [shmemRingCommit, hval, if_neg hlen]
    · by_cases hempty : loadU32 m 0 = loadU32 m 4
      · refine .inr ⟨?_, ?_⟩
        · simp only [shmemRingPull, hval, if_neg hlen, if_pos hempty]
        · simp only [shmemRingCommit, hval, if_neg hlen, if_pos hempty]
      · by_cases hout : (checkedAdd (loadU32 m 4) 4).all (· > cap) = true
        · refine .inr ⟨?_, ?_⟩
          · simp only [shmemRingPull, hval, if_neg hlen, if_neg hempty, if_pos hout]
          · simp only [shmemRingCommit, hval, if_neg hlen, if_neg hempty, if_pos hout]
        · rw [checkedAdd_all_gt, not_lt] at hout
          exact .inl ⟨cap, by omega, hval, hempty, hout⟩

/-! ### Memory safety -/

theorem pull_returns (m : Mem) : ∃ pulled, shmemRingPull m = some pulled := by
  rcases readable_or_null m with ⟨cap, h⟩ | ⟨hpull, -⟩
  · rw [h.pull_eq]
    split <;> exact ⟨_, rfl⟩
  · exact ⟨none, hpull⟩

variable {off : ℕ} {len : UInt32}

section

variable (hp : shmemRingPull m = some (some (off, len)))
include hp

/-- A record that was pulled stands behind the effective tail and ends in the data section. -/
theorem pulled_eq :
    ∃ cap, Readable m cap ∧ off = dataOffset + effectiveTail m (loadU32 m 4).toNat + 4 ∧
      len = Readable.recordLen m ∧ len ≠ 0 ∧
      effectiveTail m (loadU32 m 4).toNat + 4 + len.toNat ≤ cap.toNat := by
  rcases readable_or_null m with ⟨cap, h⟩ | ⟨hpull, -⟩
  · rw [h.pull_eq] at hp
    split at hp
    · rename_i hfits
      obtain ⟨rfl, rfl⟩ := Prod.mk.inj (some.inj (some.inj hp))
      exact ⟨cap, h, rfl, rfl, hfits⟩
    · cases hp
  · rw [hpull] at hp
    cases hp

/-- A record that was pulled lies behind the header and inside the mapping. -/
theorem pulled_range : dataOffset + 4 ≤ off ∧ off + len.toNat ≤ m.length := by
  obtain ⟨cap, h, rfl, -, -, hfits⟩ := pulled_eq hp
  have hcap := h.cap_le
  omega

/-- Releasing a record that was pulled stores its end, relative to the data section. -/
theorem commit_of_pull : shmemRingCommit m =
        some (splice m 4 (toLeBytes (UInt32.ofNat (off + len.toNat - dataOffset)))) ∧
      off + len.toNat - dataOffset < 2 ^ 32 := by
  obtain ⟨cap, h, rfl, rfl, hne, hfits⟩ := pulled_eq hp
  have hlt := cap.toNat_lt
  have hend : dataOffset + effectiveTail m (loadU32 m 4).toNat + 4 +
      (Readable.recordLen m).toNat - dataOffset =
        effectiveTail m (loadU32 m 4).toNat + 4 + (Readable.recordLen m).toNat := by
    omega
  rw [hend, h.commit_eq, if_pos ⟨fun _ ↦ hne, hfits⟩]
  exact ⟨rfl, by omega⟩

end

/-- For every content and length of the mapping: neither function aborts; what `shmemRingPull` gives
is the null pointer or a range behind the header and inside the mapping; `shmemRingCommit` leaves
the mapping alone or stores a tail that the validated capacity bounds, and when `shmemRingPull` gave
a range it stores the end of that range, relative to the data section. -/
theorem ring_reader_memory_safe (m : Mem) :
    (∃ pulled, shmemRingPull m = some pulled ∧
      ∀ off len, pulled = some (off, len) → dataOffset + 4 ≤ off ∧ off + len.toNat ≤ m.length) ∧
    (∃ m', shmemRingCommit m = some m' ∧
      (m' = m ∨ ∃ cap tail, validatedCapacity m (loadU32 m 8) = some cap ∧ tail ≤ cap ∧
        m' = splice m 4 (toLeBytes tail) ∧ loadU32 m' 4 = tail)) ∧
    (∀ off len, shmemRingPull m = some (some (off, len)) →
      ∃ m', shmemRingCommit m = some m' ∧ (loadU32 m' 4).toNat = off + len.toNat - 16) := by
  refine ⟨?_, ?_, fun off len hpull ↦ ?_⟩
  · obtain ⟨pulled, hpull⟩ := pull_returns m
    exact ⟨pulled, hpull, fun off len heq ↦ pulled_range (hpull.trans (congrArg some heq))⟩
  · rcases readable_or_null m with ⟨cap, h⟩ | ⟨-, hcommit⟩
    · have hlt := cap.toNat_lt
      have hge := h.length_ge
      rw [h.commit_eq]
      split
      · rename_i hfits
        refine ⟨_, rfl, .inr ⟨cap, _, h.validated, ?_, rfl, loadU32_splice_self (by omega)⟩⟩
        rw [UInt32.le_iff_toNat_le, toNat_ofNat_of_lt (by omega)]
        exact hfits.2
      · exact ⟨m, rfl, .inl rfl⟩
    · exact ⟨m, hcommit, .inl rfl⟩
  · obtain ⟨cap, h, -⟩ := pulled_eq hpull
    have hge := h.length_ge
    obtain ⟨hcommit, hend⟩ := commit_of_pull hpull
    refine ⟨_, hcommit, ?_⟩
    rw [loadU32_splice_self (by omega), toNat_ofNat_of_lt hend]
    rfl

end Ipc
