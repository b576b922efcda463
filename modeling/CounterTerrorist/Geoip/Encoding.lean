import CounterTerrorist.Geoip.Format

/-!
# The decoder reads the format

What `Encodes` says of the bytes at a place is what `decode` finds there.

Heads and pointers are read back from their bytes, each by itself. A loop over the entries of a
container goes on where the entry before has ended (`Chain`). The rest is an induction on the number
of levels, which goes down by one for what a pointer leads to and for the entries of a container.
-/

namespace Geoip

open Core ByteMemory BigEndian List Option Traced

variable {rt : Runtime} {buf : Mem}

/-! ### Single bytes -/

variable {off c type size next : ℕ} {bs : List UInt8} {b : UInt8} {base : JsNum}
  {dec : Offset → Traced Call (Value × Offset)} {v : Value}

variable {i n p levels : ℕ}

theorem byteAt_of_holdsAt (h : HoldsAt buf off bs) (hb : bs[i]? = some b) :
    byteAt buf (off + i) = some b.toNat := by
  rw [byteAt, h i (List.getElem?_eq_some_iff.1 hb).1, hb, map_some]

theorem bitsAt_of_holdsAt (h : HoldsAt buf off bs) (hb : bs[i]? = some b) :
    bitsAt buf (off + i) = b.toNat := by
  rw [bitsAt, byteAt_of_holdsAt h hb, getD_some]

theorem bitsAt_head (h : HoldsAt buf off (b :: bs)) :
    bitsAt buf off = b.toNat := bitsAt_of_holdsAt (i := 0) h rfl

theorem lt_length_of_holdsAt (h : HoldsAt buf off bs) (hne : bs ≠ []) : off < buf.length := by
  have h0 := h 0 (length_pos_iff.2 hne)
  rw [getElem?_eq_getElem (length_pos_iff.2 hne)] at h0
  have := (List.getElem?_eq_some_iff.1 h0).1
  omega

theorem byteAt_lt {byte : ℕ} (h : byteAt buf i = some byte) : byte < 256 := by
  obtain ⟨b, -, rfl⟩ := map_eq_some_iff.1 h
  exact b.toNat_lt

theorem bitsAt_lt (i : ℕ) : bitsAt buf i < 256 := by
  rw [bitsAt]
  cases h : byteAt buf i with
  | none => decide
  | some byte => exact byteAt_lt h

/-- Two bytes, joined. -/
theorem join_two_of_holdsAt (h : HoldsAt buf c (bigEndian 2 n)) (hn : n < 2 ^ 16) :
    bitsAt buf c <<< 8 ||| bitsAt buf (c + 1) = n := by
  rw [bigEndian_two] at h
  rw [join_two (bitsAt_lt _), bitsAt_head h, bitsAt_of_holdsAt (i := 1) h rfl, toNat_ofNat,
    toNat_ofNat]
  omega

/-- Three bytes, joined. -/
theorem join_three_of_holdsAt (h : HoldsAt buf c (bigEndian 3 n)) (hn : n < 2 ^ 24) :
    bitsAt buf c <<< 16 ||| bitsAt buf (c + 1) <<< 8 ||| bitsAt buf (c + 2) = n := by
  rw [bigEndian_three] at h
  rw [join_three (bitsAt_lt _) (bitsAt_lt _), bitsAt_head h, bitsAt_of_holdsAt (i := 1) h rfl,
    bitsAt_of_holdsAt (i := 2) h rfl, toNat_ofNat, toNat_ofNat, toNat_ofNat]
  omega

/-- Four bytes, added up. -/
theorem sum_four_of_holdsAt (h : HoldsAt buf c (bigEndian 4 n)) (hn : n < 2 ^ 32) :
    ((byteAt buf c).bind fun first ↦ (byteAt buf (c + 3)).map fun last ↦
      first * 0x1000000 + bitsAt buf (c + 1) <<< 16 + bitsAt buf (c + 2) <<< 8 + last) =
        some n := by
  rw [bigEndian_four] at h
  rw [show byteAt buf c = byteAt buf (c + 0) from rfl, byteAt_of_holdsAt (i := 0) h rfl, bind_some,
    byteAt_of_holdsAt (i := 3) h rfl, map_some, bitsAt_of_holdsAt (i := 1) h rfl,
    bitsAt_of_holdsAt (i := 2) h rfl, toNat_ofNat, toNat_ofNat, toNat_ofNat, toNat_ofNat]
  congr 1
  omega

/-! ### Heads -/

/-- The four forms of a size. -/
theorem sizeField_cases (size : ℕ) : (size < 29 ∧ sizeField size = (size, [])) ∨
    (29 ≤ size ∧ size < 285 ∧ sizeField size = (29, bigEndian 1 (size - 29))) ∨
    (285 ≤ size ∧ size < 65821 ∧ sizeField size = (30, bigEndian 2 (size - 285))) ∨
    (65821 ≤ size ∧ sizeField size = (31, bigEndian 3 (size - 65821))) := by
  rw [sizeField]
  split_ifs with h₁ h₂ h₃
  · exact .inl ⟨h₁, rfl⟩
  · exact .inr (.inl ⟨by omega, h₂, rfl⟩)
  · exact .inr (.inr (.inl ⟨by omega, h₃, rfl⟩))
  · exact .inr (.inr (.inr ⟨by omega, rfl⟩))

theorem sizeField_lt (size : ℕ) : (sizeField size).1 < 32 := by
  obtain ⟨_, hf⟩ | ⟨-, -, hf⟩ | ⟨-, -, hf⟩ | ⟨-, hf⟩ := sizeField_cases size
  all_goals
    rw [hf]
    omega

/-- The control byte and the byte for an extended type are read back. -/
theorem readType_of_holdsAt {field : ℕ} (htype : 1 ≤ type ∧ type < 256) (hfield : field < 32)
    (h : HoldsAt buf off (typeField type field)) :
    readType buf (bitsAt buf off) (off + 1) = (some type, off + (typeField type field).length) ∧
      bitsAt buf off &&& 0x1f = field := by
  rw [show (0x1f : ℕ) = 2 ^ 5 - 1 from rfl, Nat.and_two_pow_sub_one_eq_mod, readType,
    Nat.shiftRight_eq_div_pow]
  rw [typeField] at h ⊢
  split at h
  · rw [bitsAt_head h, toNat_ofNat, if_neg (by omega), if_pos ‹_›]
    refine ⟨?_, by omega⟩
    rw [show (type * 32 + field) % 256 / 2 ^ 5 = type by omega]
    rfl
  · rw [bitsAt_head h, toNat_ofNat, if_pos (by omega), if_neg ‹_›,
      byteAt_of_holdsAt (i := 1) h rfl, toNat_ofNat, map_some]
    refine ⟨?_, by omega⟩
    rw [show 7 + (type - 7) % 256 = type by omega]
    rfl

/-- The size is read back, in each of its four forms. -/
theorem readSize_of_holdsAt {ctrl : ℕ} (hctrl : ctrl &&& 0x1f = (sizeField size).1)
    (hsize : size < sizeLimit) (h : HoldsAt buf c (sizeField size).2) :
    readSize buf ctrl c = (some size, c + (sizeField size).2.length) := by
  rw [sizeLimit] at hsize
  rw [readSize, hctrl]
  obtain ⟨hlt, hf⟩ | ⟨hge, hlt, hf⟩ | ⟨hge, hlt, hf⟩ | ⟨hge, hf⟩ := sizeField_cases size
  · rw [hf, if_neg (by dsimp only; omega), if_neg (by dsimp only; omega),
      if_neg (by dsimp only; omega)]
    rfl
  · rw [hf, bigEndian_one] at h
    rw [hf, if_pos rfl, show byteAt buf c = byteAt buf (c + 0) from rfl,
      byteAt_of_holdsAt (i := 0) h rfl, toNat_ofNat, map_some,
      show 29 + (size - 29) % 256 = size by omega, length_bigEndian]
  · rw [hf] at h
    rw [hf, if_neg (by decide : ¬30 = 29), if_pos rfl, join_two_of_holdsAt h (by omega),
      show 285 + (size - 285) = size by omega, length_bigEndian]
  · rw [hf] at h
    rw [hf, if_neg (by decide : ¬31 = 29), if_neg (by decide : ¬31 = 30), if_pos rfl,
      join_three_of_holdsAt h (by omega), show 65821 + (size - 65821) = size by omega,
      length_bigEndian]

theorem lt_length_of_header (h : HoldsAt buf off (header type size)) : off < buf.length := by
  refine lt_length_of_holdsAt h ?_
  rw [header, typeField]
  split <;> exact cons_ne_nil _ _

/-- **What the decoder does after a head.** -/
theorem decodeAt_of_header (htype : 2 ≤ type ∧ type < 256) (hsize : size < sizeLimit)
    (h : HoldsAt buf off (header type size)) :
    decodeAt rt buf base dec off =
      decodeBody rt buf dec (some type) (some size) (off + (header type size).length) := by
  obtain ⟨htypeField, hsizeField⟩ := holdsAt_append.1 h
  obtain ⟨hread, hctrl⟩ := readType_of_holdsAt ⟨by omega, htype.2⟩ (sizeField_lt size) htypeField
  rw [decodeAt]
  rw [hread, if_neg (by simp; omega), readSize_of_holdsAt hctrl hsize hsizeField, header,
    length_append, Nat.add_assoc]

/-! ### Pointers -/

/-- The bytes of a pointer are read back. -/
theorem readPointer_of_holdsAt {bytes : List UInt8} (hp : PointerTo p bytes)
    (h : HoldsAt buf off bytes) :
    readType buf (bitsAt buf off) (off + 1) = (some 1, off + 1) ∧
      readPointer buf (bitsAt buf off) (off + 1) = (some p, off + bytes.length) := by
  -- What the control byte says, once its bits are written as quotients and remainders.
  have hctrl (form high : ℕ) {ctrl : ℕ} (hform : form < 4) (hhigh : high < 8)
      (hc : bitsAt buf off = ctrl) (heq : ctrl = 32 + form * 8 + high) :
      readType buf (bitsAt buf off) (off + 1) = (some 1, off + 1) ∧
        bitsAt buf off >>> 3 &&& 0x3 = form ∧ bitsAt buf off &&& 0x7 = high := by
    rw [hc, show (0x3 : ℕ) = 2 ^ 2 - 1 from rfl, show (0x7 : ℕ) = 2 ^ 3 - 1 from rfl,
      Nat.and_two_pow_sub_one_eq_mod, Nat.and_two_pow_sub_one_eq_mod, readType,
      Nat.shiftRight_eq_div_pow, if_neg (by omega)]
    refine ⟨?_, by omega, by omega⟩
    rw [show ctrl / 2 ^ 5 = 1 by omega]
  have htail {b : UInt8} {bs : List UInt8} (hb : HoldsAt buf off (b :: bs)) :
      HoldsAt buf (off + 1) bs :=
    (holdsAt_append.1 (show HoldsAt buf off ([b] ++ bs) from hb)).2
  cases hp with
  | one h' =>
    rw [bigEndian_one] at h
    obtain ⟨htype, hform, hhigh⟩ := hctrl 0 (p / 2 ^ 8) (by decide) (by omega)
      ((bitsAt_head h).trans (toNat_ofNat _)) (by omega)
    refine ⟨htype, ?_⟩
    rw [readPointer, hform, hhigh, join_two (bitsAt_lt _), bitsAt_head (htail h), toNat_ofNat,
      show p / 2 ^ 8 * 256 + p % 256 = p by omega]
    rfl
  | two q h' =>
    rw [bigEndian_two] at h
    obtain ⟨htype, hform, hhigh⟩ := hctrl 1 (q / 2 ^ 16) (by decide) (by omega)
      ((bitsAt_head h).trans (toNat_ofNat _)) (by omega)
    refine ⟨htype, ?_⟩
    rw [readPointer, hform, hhigh, join_three (bitsAt_lt _) (bitsAt_lt _), bitsAt_head (htail h),
      bitsAt_of_holdsAt (i := 1) (htail h) rfl, toNat_ofNat, toNat_ofNat]
    rw [show q / 2 ^ 16 * 65536 + q / 256 % 256 * 256 + q % 256 = q by omega]
    rfl
  | three q h' =>
    rw [bigEndian_three] at h
    obtain ⟨htype, hform, hhigh⟩ := hctrl 2 (q / 2 ^ 24) (by decide) (by omega)
      ((bitsAt_head h).trans (toNat_ofNat _)) (by omega)
    refine ⟨htype, ?_⟩
    rw [readPointer, hform, hhigh, join_four (bitsAt_lt _) (bitsAt_lt _) (bitsAt_lt _),
      bitsAt_head (htail h), bitsAt_of_holdsAt (i := 1) (htail h) rfl,
      bitsAt_of_holdsAt (i := 2) (htail h) rfl, toNat_ofNat, toNat_ofNat, toNat_ofNat]
    rw [show q / 2 ^ 24 * 16777216 + q / 65536 % 256 * 65536 + q / 256 % 256 * 256 +
      q % 256 = q by omega]
    rfl
  | four _ low h' hlow =>
    obtain ⟨htype, hform, -⟩ := hctrl 3 low (by decide) hlow
      ((bitsAt_head h).trans (toNat_ofNat _)) (by omega)
    refine ⟨htype, ?_⟩
    rw [readPointer, hform, sum_four_of_holdsAt (htail h) h']
    rfl

theorem ofNum_nat (n : ℕ) : Offset.ofNum buf (.nat n) = .index n := by
  rw [JsNum.nat, Offset.ofNum, if_pos ⟨Nat.cast_nonneg n, Rat.den_natCast n⟩, Rat.num_natCast,
    Int.toNat_natCast]

theorem pointerTarget_nat {base : ℕ} (h : base + p ≤ 2 ^ 53) :
    pointerTarget rt buf (.nat base) (some p) = .index (base + p) := by
  rw [pointerTarget, elim_some, Rounding.add_nat h, ofNum_nat]

/-! ### Scalars -/

/-- Bytes are added up to the number that they are, as long as it is small enough. -/
theorem readUint_of_holdsAt (rt : Runtime) (h : HoldsAt buf c bs) (hlt : ofBytes bs < 2 ^ 53) :
    readUint rt buf c (some bs.length) = .nat (ofBytes bs) := by
  have hsteps (n : ℕ) (hn : n ≤ bs.length) :
      readUint rt buf c (some n) = .nat (ofBytes (bs.take n)) := by
    induction n with
    | zero => rfl
    | succ n ih =>
      have hget : bs[n]? = some bs[n] := getElem?_eq_getElem hn
      have htake : bs.take (n + 1) = bs.take n ++ [bs[n]] := by
        rw [take_add_one, hget]
        rfl
      have hle := (ofBytes_take_le bs (n + 1)).trans_lt hlt
      rw [htake, ofBytes_append_singleton] at hle ⊢
      rw [readUint, getD_some, range_succ, foldl_append]
      rw [readUint, getD_some] at ih
      rw [ih (by omega), foldl_cons, Rounding.mul_nat (by omega), numAt, byteAt_of_holdsAt h hget]
      exact Rounding.add_nat (by omega)
  rw [hsteps bs.length (Nat.le_refl _), take_length]

/-- A value without others in it is decoded. -/
theorem decodeAt_of_encodesScalar (h : EncodesScalar buf v off next) :
    (decodeAt rt buf base dec off).result = .ok (v, .index next) := by
  cases v with
  | str s =>
    obtain ⟨hbom, hsize, hholds, rfl⟩ := h
    obtain ⟨hhead, hbody⟩ := holdsAt_append.1 hholds
    rw [decodeAt_of_header (by decide) hsize hhead]
    show Except.ok (Value.str (rt.utf8 (slice buf _ _)), _) = _
    rw [getD_some, slice_eq_of_holdsAt hbody, rt.utf8_encodeUtf8 s hbom,
      length_append, ← Nat.add_assoc]
    rfl
  | bytes bytes =>
    obtain ⟨hsize, hholds, rfl⟩ := h
    obtain ⟨hhead, hbody⟩ := holdsAt_append.1 hholds
    rw [decodeAt_of_header (by decide) hsize hhead]
    show Except.ok (Value.bytes (slice buf _ _), _) = _
    rw [getD_some, slice_eq_of_holdsAt hbody, length_append, ← Nat.add_assoc]
    rfl
  | num n =>
    obtain ⟨type, width, size, value, htype, hwidth, hvalue, hexact, rfl, hholds, rfl⟩ := h
    obtain ⟨hhead, hbody⟩ := holdsAt_append.1 hholds
    have hread := readUint_of_holdsAt rt hbody (by rwa [ofBytes_bigEndian hvalue])
    rw [length_bigEndian, ofBytes_bigEndian hvalue] at hread
    have hsize : size < sizeLimit := by
      simp only [uintTypes, mem_cons, Prod.mk.injEq, not_mem_nil, or_false] at htype
      rw [sizeLimit]
      omega
    have hbodyEq : decodeBody rt buf dec (some type) (some size) (off + (header type size).length) =
        .lift (.ok (.num (readUint rt buf (off + (header type size).length) (some size)),
          .index (off + (header type size).length + size))) := by
      simp only [uintTypes, mem_cons, not_mem_nil, or_false] at htype
      obtain ⟨rfl, -⟩ | ⟨rfl, -⟩ | ⟨rfl, -⟩ | ⟨rfl, -⟩ := htype <;> rfl
    have hrange : 2 ≤ type ∧ type < 256 := by
      simp only [uintTypes, mem_cons, Prod.mk.injEq, not_mem_nil, or_false] at htype
      omega
    rw [decodeAt_of_header hrange hsize hhead, hbodyEq, hread, result_lift,
      length_append, length_bigEndian, Nat.add_assoc]
  | bool b =>
    obtain ⟨hhead, rfl⟩ := h
    rw [decodeAt_of_header (by decide) (by cases b <;> decide) hhead]
    cases b <;> rfl
  | null | array | map => exact h.elim

/-! ### Containers -/

section

variable {R : Value → ℕ → ℕ → Prop} {dec : Offset → Traced Call (Value × Offset)}

/-- The loop over the items of an array. -/
theorem loop_decodeItem
    (hdec : ∀ {v off next}, R v off next → (dec (.index off)).result = .ok (v, .index next))
    {items : List Value} (h : Chain R items c next) (acc : List Value) :
    (loop (decodeItem dec) items.length (acc, .index c)).result =
      .ok (acc ++ items, .index next) := by
  induction items generalizing c acc with
  | nil =>
    cases h
    rw [append_nil]
    rfl
  | cons v items ih =>
    obtain ⟨mid, hv, hrest⟩ := h
    have hstep : (decodeItem dec (acc, .index c)).result = .ok (acc ++ [v], .index mid) :=
      result_bind_eq_ok.2 ⟨_, hdec hv, rfl⟩
    refine result_bind_eq_ok.2 ⟨_, hstep, ?_⟩
    rw [ih hrest (acc ++ [v]), append_assoc]
    rfl

variable {own : List (Text × Value)}

theorem put_of_notMem {key : Text} {value : Value} (h : key ∉ own.map Prod.fst) :
    Record.put key value own = own ++ [(key, value)] := by
  induction own with
  | nil => rfl
  | cons e own ih =>
    rw [map_cons, mem_cons, not_or] at h
    rw [Record.put, if_neg (Ne.symm h.1), ih h.2]
    rfl

/-- The loop over the entries of a map, where no key comes twice. -/
theorem loop_decodeEntry
    (hdec : ∀ {v off next}, R v off next → (dec (.index off)).result = .ok (v, .index next))
    (h : Chain R (entryValues own) c next) (hproto : Record.protoKey ∉ own.map Prod.fst)
    {acc : List (Text × Value)} (hnodup : ((acc ++ own).map Prod.fst).Nodup) :
    (loop (decodeEntry rt dec) own.length (⟨acc, none⟩, .index c)).result =
      .ok (⟨acc ++ own, none⟩, .index next) := by
  induction own generalizing c acc with
  | nil =>
    cases h
    rw [append_nil]
    rfl
  | cons e own ih =>
    obtain ⟨afterKey, hkey, mid, hvalue, hrest⟩ := h
    rw [map_cons, mem_cons, not_or] at hproto
    have hnew : e.1 ∉ acc.map Prod.fst := by
      rw [map_append] at hnodup
      exact fun hmem ↦ (nodup_append.1 hnodup).2.2 _ hmem _ mem_cons_self rfl
    have hset : Record.set ⟨acc, none⟩ e.1 e.2 = ⟨acc ++ [e], none⟩ := by
      rw [Record.set_of_ne _ (Ne.symm hproto.1), put_of_notMem hnew]
    have hstep : (decodeEntry rt dec (⟨acc, none⟩, .index c)).result =
        .ok (⟨acc ++ [e], none⟩, .index mid) := by
      refine result_bind_eq_ok.2 ⟨_, hdec hkey, ?_⟩
      refine result_bind_eq_ok.2 ⟨_, hdec hvalue, ?_⟩
      refine result_bind_eq_ok.2 ⟨_, rt.string_str e.1, ?_⟩
      rw [← hset]
      rfl
    refine result_bind_eq_ok.2 ⟨_, hstep, ?_⟩
    rw [ih hrest hproto.2 (by rwa [append_assoc]), append_assoc]
    rfl

end

/-! ### All values -/

/-- At a place in the file `decode` goes on with what is there. -/
theorem result_decode_index {left : ℕ} (h : off < buf.length) :
    (decode rt buf base (left + 1) (.index off)).result =
      (decodeAt rt buf base (decode rt buf base left) off).result := by
  rw [decode, tell_bind]
  rw [if_neg (by omega)]

theorem lt_length_of_encodesScalar (h : EncodesScalar buf v off next) : off < buf.length := by
  cases v with
  | str s => exact lt_length_of_header (holdsAt_append.1 h.2.2.1).1
  | bytes bytes => exact lt_length_of_header (holdsAt_append.1 h.2.1).1
  | num n =>
    obtain ⟨_, _, _, _, _, _, _, _, _, hholds, _⟩ := h
    exact lt_length_of_header (holdsAt_append.1 hholds).1
  | bool b => exact lt_length_of_header h.1
  | null | array | map => exact h.elim

theorem lt_length_of_encodes {base : ℕ} (h : Encodes buf base levels v off next) :
    off < buf.length := by
  cases levels with
  | zero => exact h.elim
  | succ levels =>
    rcases h with ⟨p, bytes, hp, hholds, -⟩ | h
    · exact lt_length_of_holdsAt hholds (by cases hp <;> exact cons_ne_nil _ _)
    · cases v with
      | array items => exact lt_length_of_header h.2.1
      | map own proto =>
        cases proto with
        | none => exact lt_length_of_header h.2.2.2.1
        | some proto => exact h.elim
      | _ => exact lt_length_of_encodesScalar h

/-- Whatever bytes encode a value at a place of a file, `decode` returns the value and the place
after them. -/
theorem decode_of_encodes (rt : Runtime) (buf : Uint8Array) {base : ℕ}
    (h : Encodes buf.bytes base levels v off next) :
    (decode rt buf.bytes (.nat base) levels (.index off)).result = .ok (v, .index next) := by
  induction levels generalizing v off next with
  | zero => exact h.elim
  | succ levels ih =>
    have hoff := lt_length_of_encodes h
    rw [result_decode_index hoff]
    rcases h with ⟨p, bytes, hp, hholds, rfl, after, htgt⟩ | h
    · -- A pointer: the levels below decode its target.
      obtain ⟨htype, hpointer⟩ := readPointer_of_holdsAt hp hholds
      have hle : base + p ≤ 2 ^ 53 :=
        (Nat.le_of_lt (lt_length_of_encodes htgt)).trans buf.length_le
      rw [decodeAt]
      dsimp only
      rw [htype, hpointer, pointerTarget_nat hle]
      exact result_bind_eq_ok.2 ⟨_, ih htgt, rfl⟩
    · cases v with
      | array items =>
        obtain ⟨hlen, hholds, hchain⟩ := h
        rw [decodeAt_of_header (by decide) (hlen.trans_lt (by decide)) hholds]
        show (decodeArray _ _ _).result = _
        rw [decodeArray, getD_some, if_neg (by rw [maxContainerEntries]; omega)]
        exact result_bind_eq_ok.2 ⟨_, loop_decodeItem ih hchain [], rfl⟩
      | map own proto =>
        cases proto with
        | none =>
          obtain ⟨hlen, hnodup, hproto, hholds, hchain⟩ := h
          rw [decodeAt_of_header (by decide) (hlen.trans_lt (by decide)) hholds]
          show (decodeMap _ _ _ _).result = _
          rw [decodeMap, getD_some, if_neg (by rw [maxContainerEntries]; omega)]
          exact result_bind_eq_ok.2 ⟨_, loop_decodeEntry ih hchain hproto hnodup, rfl⟩
        | some proto => exact h.elim
      | _ => exact decodeAt_of_encodesScalar h

/-- **The decoder inverts the format.** With 64 levels below the first one, `decode` returns the
value that the bytes at a place encode, and the place after them. -/
theorem decode_encoding (rt : Runtime) (buf : Uint8Array) {base : ℕ} {v : Value} {off next : ℕ}
    (h : Encodes buf.bytes base (maxDecodeDepth + 1) v off next) :
    (decode rt buf.bytes (.nat base) (maxDecodeDepth + 1) (.index off)).result =
      .ok (v, .index next) :=
  decode_of_encodes rt buf h

/-- A map from `a` to an array with `true` and, by a pointer to the key, the text `a`. -/
def pointerRecord : Uint8Array where
  bytes := [0xe1, 0x41, 0x61, 0x02, 0x04, 0x01, 0x07, 0x20, 0x01]
  length_le := by decide

theorem encodes_pointerRecord : Encodes pointerRecord.bytes 0 (maxDecodeDepth + 1)
      (.map [(['a'], .array [.bool true, .str ['a']])] none) 0 9 := by
  have hkey (levels : ℕ) : Encodes pointerRecord.bytes 0 (levels + 1) (.str ['a']) 1 3 :=
    .inr ⟨by decide, by decide, by decide, by decide⟩
  have hpointer (levels : ℕ) : Encodes pointerRecord.bytes 0 (levels + 2) (.str ['a']) 7 9 :=
    .inl ⟨1, _, .one 1 (by decide), by decide, rfl, 3, hkey levels⟩
  have hitem (levels : ℕ) : Encodes pointerRecord.bytes 0 (levels + 1) (.bool true) 5 7 :=
    .inr ⟨by decide, rfl⟩
  exact .inr ⟨by decide, by decide, by decide, by decide, 3, hkey _, 9,
    .inr ⟨by decide, by decide, 7, hitem _, 9, hpointer _, rfl⟩, rfl⟩

theorem decode_encoding_pointer :
    (decode plainRuntime pointerRecord.bytes (.nat 0) (maxDecodeDepth + 1) (.index 0)).result =
      .ok (.map [(['a'], .array [.bool true, .str ['a']])] none, .index 9) :=
  decode_encoding plainRuntime pointerRecord encodes_pointerRecord

end Geoip
