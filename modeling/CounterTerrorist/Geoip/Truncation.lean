import CounterTerrorist.Geoip.Layout

/-!
# Truncated files

The decoder checks that the first byte of a value is in the file. It does not check the others: a
text that the end of the file cuts off is returned as far as it goes, and bytes of a number, a size
or a pointer that are not there count as zero or make `NaN`. Only floating point numbers are
checked, by the view they are read with.

So a decoder that returns has used bytes inside the file exactly if no value that it came to was cut
off (`used_inside_iff`). Positions that are not numbers are a consequence: they come after a value
whose size is cut off (`ne_nowhere_of_not_cutOff`).
-/

namespace Geoip

open Core ByteMemory List

/-! ### Bytes of a value -/

/-- How many bytes are read after the head. -/
def payloadWidth (type size : Option ℕ) : ℕ :=
  match type with
  | some 14 => 0
  | some 3 => 8
  | some 15 => 4
  | _ => size.getD 0

/-- Where the bytes end that belong to the value itself, without others in it. -/
def Shape.usedEnd : Shape → ℕ
  | .pointer _ next => next
  | .map _ cursor | .array _ cursor => cursor
  | .scalar type size cursor => cursor + payloadWidth type size

/-- The call reads a value whose bytes are all in the file. -/
def Inside (rt : Runtime) (buf : Mem) (base : JsNum) (call : Call) : Prop :=
  ∃ n, call.offset = .index n ∧ n < buf.length ∧ (shapeAt rt buf base n).usedEnd ≤ buf.length

/-- The end of the file cuts off the type, the size or the pointer, or the payload of a value that
is not a container, a truth value or a floating point number. A pointer from a data section that
does not start at a whole byte is as good as cut off. -/
def Shape.CutOff (buf : Mem) : Shape → Prop
  | .pointer target next => buf.length < next ∨ target = .nowhere
  | .map _ cursor | .array _ cursor => buf.length < cursor
  | .scalar type size cursor =>
    buf.length < cursor ∨
      (type ∉ [some 3, some 14, some 15] ∧ buf.length < cursor + size.getD 0)

instance (buf : Mem) (shape : Shape) : Decidable (shape.CutOff buf) := by
  unfold Shape.CutOff
  split <;> infer_instance

/-- No value that the decoder comes to is cut off. -/
def NoneCutOff (rt : Runtime) (buf : Mem) (base : JsNum) (calls : List Call) : Prop :=
  ∀ call ∈ calls, ∀ n, call.offset = .index n → n < buf.length →
    ¬(shapeAt rt buf base n).CutOff buf

section

variable {buf : Mem} {shape : Shape}

theorem usedEnd_le_of_not_cutOff (hcut : ¬shape.CutOff buf) (hfits : shape.fits buf = true) :
    shape.usedEnd ≤ buf.length := by
  cases shape with
  | pointer target next => exact Nat.not_lt.1 fun h ↦ hcut (.inl h)
  | map size cursor | array size cursor => exact Nat.not_lt.1 hcut
  | scalar type size cursor =>
    obtain ⟨hcursor, hpayload⟩ := not_or.1 hcut
    rw [Shape.usedEnd, payloadWidth.eq_def]
    split
    · exact Nat.not_lt.1 hcursor
    · exact of_decide_eq_true hfits
    · exact of_decide_eq_true hfits
    · rename_i h14 h3 h15
      refine Nat.not_lt.1 fun hlt ↦ hpayload ⟨?_, hlt⟩
      simp only [mem_cons, not_mem_nil, or_false, not_or]
      exact ⟨h3, h14, h15⟩

/-- Only a pointer can be called cut off although its bytes are in the file. -/
theorem exists_nowhere_of_cutOff (hend : shape.usedEnd ≤ buf.length) (hcut : shape.CutOff buf) :
    ∃ next, shape = .pointer .nowhere next := by
  cases shape with
  | pointer target next =>
    rcases hcut with hlt | rfl
    · exact absurd hlt (Nat.not_lt.2 hend)
    · exact ⟨next, rfl⟩
  | map size cursor | array size cursor => exact absurd hcut (Nat.not_lt.2 hend)
  | scalar type size cursor =>
    exfalso
    have hcursor : cursor ≤ buf.length := (Nat.le_add_right _ _).trans hend
    rcases hcut with hlt | ⟨htype, hlt⟩
    · exact absurd hlt (Nat.not_lt.2 hcursor)
    · simp only [mem_cons, not_mem_nil, or_false, not_or] at htype
      rw [Shape.usedEnd, payloadWidth.eq_def] at hend
      split at hend
      · exact htype.2.1 rfl
      · exact htype.1 rfl
      · exact htype.2.2 rfl
      · omega

end

/-! ### Positions that are not numbers -/

variable {rt : Runtime} {buf : Mem} {base : JsNum}

variable {cursor n left : ℕ} {offset : Offset}

/-- A size that is no number is cut off. -/
theorem lt_of_readSize_eq_none {ctrl : ℕ} (h : (readSize buf ctrl cursor).1 = none) :
    buf.length < (readSize buf ctrl cursor).2 := by
  rw [readSize] at h ⊢
  split at h
  · rename_i h29
    rw [if_pos h29]
    rw [Option.map_eq_none_iff, byteAt, Option.map_eq_none_iff, List.getElem?_eq_none_iff] at h
    exact Nat.lt_succ_of_le h
  · split at h
    · cases h
    · split at h <;> cases h

theorem cutOff_of_size_eq_none {type : Option ℕ}
    (h : shapeAt rt buf base n = .scalar type none cursor) : buf.length < cursor := by
  rw [shapeAt] at h
  split at h
  · cases h
  · split at h
    · cases h
    · cases h
    · obtain ⟨-, hsize, rfl⟩ := Shape.scalar.inj h
      exact lt_of_readSize_eq_none hsize

variable {next : Offset → Offset}

/-- From place to place, where no step leads nowhere. -/
theorem iterate_ne_nowhere {p : Offset} (hp : p ≠ .nowhere) (m : ℕ)
    (hnext : ∀ q ∈ List.iterate next p m, q ≠ .nowhere → next q ≠ .nowhere) :
    next^[m] p ≠ .nowhere ∧ ∀ q ∈ List.iterate next p m, q ≠ .nowhere := by
  induction m generalizing p with
  | zero => exact ⟨hp, fun q hq ↦ (not_mem_nil hq).elim⟩
  | succ m ih =>
    obtain ⟨hend, hall⟩ := ih (hnext p mem_cons_self hp) fun q hq ↦
      hnext q (mem_cons_of_mem _ hq)
    exact ⟨hend, forall_mem_cons.2 ⟨hp, hall⟩⟩

/-- The places in a value and after it are numbers, if this holds from one to the next. -/
theorem places_ne_nowhere (hcut : ¬(shapeAt rt buf base n).CutOff buf)
    (hnext : ∀ p ∈ (shapeAt rt buf base n).places next, p ≠ .nowhere → next p ≠ .nowhere) :
    (shapeAt rt buf base n).stop next ≠ .nowhere ∧
      ∀ p ∈ (shapeAt rt buf base n).places next, p ≠ .nowhere := by
  cases hshape : shapeAt rt buf base n with
  | pointer target after =>
    rw [hshape] at hcut
    refine ⟨Offset.noConfusion, fun p hp ↦ ?_⟩
    rw [mem_singleton.1 hp]
    exact fun h ↦ hcut (.inr h)
  | map size cursor | array size cursor =>
    rw [hshape] at hnext
    exact iterate_ne_nowhere Offset.noConfusion _ hnext
  | scalar type size cursor =>
    refine ⟨?_, fun p hp ↦ (not_mem_nil hp).elim⟩
    rw [Shape.stop]
    split
    · exact Offset.noConfusion
    · cases size with
      | some size => exact Offset.noConfusion
      | none =>
        rw [hshape] at hcut
        exact absurd (.inl (cutOff_of_size_eq_none hshape)) hcut

/-- **Where nothing is cut off, every position is a number.** -/
theorem ne_nowhere_of_not_cutOff (hoff : offset ≠ .nowhere)
    (h : NoneCutOff rt buf base (reached rt buf base left offset)) :
    skip rt buf base left offset ≠ .nowhere ∧
      ∀ call ∈ reached rt buf base left offset, call.offset ≠ .nowhere := by
  induction left generalizing offset with
  | zero =>
    refine ⟨Offset.noConfusion, fun call hcall ↦ ?_⟩
    rw [mem_singleton.1 hcall]
    exact hoff
  | succ left ih =>
    obtain ⟨n, rfl, hlt, hreach, hskip⟩ | ⟨-, hreach, hskip⟩ :=
      reached_cases rt buf base left offset
    · rw [hreach] at h ⊢
      rw [hskip]
      have hplace {p : Offset} (hp : p ∈ (shapeAt rt buf base n).places (skip rt buf base left)) :
          NoneCutOff rt buf base (reached rt buf base left p) := fun call hcall ↦
        h call (mem_cons_of_mem _ (mem_flatMap.2 ⟨p, hp, hcall⟩))
      obtain ⟨hstop, hplaces⟩ := places_ne_nowhere (h _ mem_cons_self n rfl hlt)
        fun p hp hne ↦ (ih hne (hplace hp)).1
      refine ⟨hstop, forall_mem_cons.2 ⟨hoff, fun call hcall ↦ ?_⟩⟩
      obtain ⟨p, hp, hcall⟩ := mem_flatMap.1 hcall
      exact (ih (hplaces p hp) (hplace hp)).2 call hcall
    · refine ⟨fun hnowhere ↦ hoff (hskip hnowhere), fun call hcall ↦ ?_⟩
      rw [hreach, mem_singleton] at hcall
      rw [hcall]
      exact hoff

/-! ### The result -/

/-- The target of a pointer that is reached is reached. -/
theorem exists_call_of_pointer {next : ℕ} {target : Offset} {call : Call}
    (hcall : call ∈ reached rt buf base left offset) (hdepth : call.depth ≤ maxDecodeDepth)
    (hn : call.offset = .index n) (hlt : n < buf.length)
    (hshape : shapeAt rt buf base n = .pointer target next) :
    ∃ call' ∈ reached rt buf base left offset, call'.offset = target := by
  induction left generalizing offset with
  | zero =>
    rw [mem_singleton.1 hcall] at hdepth
    exact absurd hdepth (Nat.not_succ_le_self _)
  | succ left ih =>
    obtain ⟨m, hm, -, hreach, -⟩ | ⟨hout, hreach, -⟩ := reached_cases rt buf base left offset
    · rw [hreach] at hcall ⊢
      rcases mem_cons.1 hcall with rfl | hcall
      · cases hm.symm.trans hn
        have hhead : ∃ depth, ⟨depth, target⟩ ∈ reached rt buf base left target := by
          cases left with
          | zero => exact ⟨_, mem_singleton_self _⟩
          | succ left => exact ⟨_, mem_cons_self⟩
        obtain ⟨depth, hhead⟩ := hhead
        refine ⟨_, mem_cons_of_mem _ (mem_flatMap.2 ⟨target, ?_, hhead⟩), rfl⟩
        rw [hshape]
        exact mem_singleton_self _
      · obtain ⟨p, hp, hcall⟩ := mem_flatMap.1 hcall
        obtain ⟨call', hcall', htgt⟩ := ih hcall
        exact ⟨call', mem_cons_of_mem _ (mem_flatMap.2 ⟨p, hp, hcall'⟩), htgt⟩
    · rw [hreach, mem_singleton] at hcall
      rw [hcall] at hn
      exact absurd hlt (Nat.not_lt.2 (hout n hn))

/-- **A decoder that returns has used bytes inside the file exactly if no value it came to was cut
off.** The values it comes to are those that pointers and containers lead to, from the given place
on. -/
theorem used_inside_iff (rt : Runtime) (buf : Mem) (base : JsNum) (n : ℕ) {found : Value × Offset}
    (h : (decode rt buf base (maxDecodeDepth + 1) (.index n)).result = .ok found) :
    (∀ call ∈ (decode rt buf base (maxDecodeDepth + 1) (.index n)).log,
        Inside rt buf base call) ↔
      NoneCutOff rt buf base (reached rt buf base (maxDecodeDepth + 1) (.index n)) := by
  obtain ⟨hlog, hgood, -⟩ := (follows_decode (maxDecodeDepth + 1) (.index n)).ok found h
  have hproper call hcall := proper_iff.1 (hgood call hcall)
  rw [hlog]
  constructor
  · intro hinside call hcall m hm hlt hcut
    obtain ⟨m', hm', -, hend⟩ := hinside call hcall
    cases hm.symm.trans hm'
    obtain ⟨next, hshape⟩ := exists_nowhere_of_cutOff hend hcut
    obtain ⟨call', hcall', hnowhere⟩ :=
      exists_call_of_pointer hcall (hproper call hcall).1 hm hlt hshape
    obtain ⟨m', hm', -⟩ := hinside call' hcall'
    cases hnowhere.symm.trans hm'
  · intro hcut call hcall
    have hne := (ne_nowhere_of_not_cutOff Offset.noConfusion hcut).2 call hcall
    obtain ⟨-, hnowhere | ⟨m, hm, hlt, hfits⟩⟩ := hproper call hcall
    · exact absurd hnowhere hne
    · exact ⟨m, hm, hlt, usedEnd_le_of_not_cutOff (hcut call hcall m hm hlt) hfits⟩

theorem used_inside_iff_text :
    NoneCutOff plainRuntime [0x41, 0x61] (.nat 0)
        (reached plainRuntime [0x41, 0x61] (.nat 0) (maxDecodeDepth + 1) (.index 0)) ∧
      ∀ call ∈ (decode plainRuntime [0x41, 0x61] (.nat 0) (maxDecodeDepth + 1) (.index 0)).log,
        Inside plainRuntime [0x41, 0x61] (.nat 0) call := by
  have hone : reached plainRuntime [0x41, 0x61] (.nat 0) (maxDecodeDepth + 1) (.index 0) =
      [⟨0, .index 0⟩] := by decide
  have hcut : NoneCutOff plainRuntime [0x41, 0x61] (.nat 0)
      (reached plainRuntime [0x41, 0x61] (.nat 0) (maxDecodeDepth + 1) (.index 0)) := by
    intro call hcall n hn _
    rw [hone, mem_singleton] at hcall
    rw [hcall] at hn
    cases hn
    decide
  exact ⟨hcut, (used_inside_iff plainRuntime [0x41, 0x61] (.nat 0) 0 rfl).2 hcut⟩

/-- A text of three bytes, of which the file has one. -/
theorem truncated_text_returned :
    (decode plainRuntime [0x43, 0x61] (.nat 0) (maxDecodeDepth + 1) (.index 0)).result =
        .ok (.str ['a'], .index 4) ∧
      ¬∀ call ∈ (decode plainRuntime [0x43, 0x61] (.nat 0) (maxDecodeDepth + 1) (.index 0)).log,
        Inside plainRuntime [0x43, 0x61] (.nat 0) call := by
  refine ⟨rfl, fun h ↦ ?_⟩
  obtain ⟨n, hn, -, hend⟩ := h ⟨0, .index 0⟩ (by decide)
  cases hn
  exact absurd hend (by decide)

end Geoip
