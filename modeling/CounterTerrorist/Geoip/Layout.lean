import CounterTerrorist.Geoip.Decode

/-!
# Where the decoder goes

What stands at a place of the file says where the decoder looks next, and in which order: a pointer
leads to its target, a container to its entries, one after the other (`Shape.places`). So the calls
of `decode` can be written down from the file alone (`reached`), together with the place after a
value (`skip`).

Some calls throw by themselves, and that, too, can be seen from the file (`proper`). A run makes the
calls up to the first of these, and all if there is none (`follows_decode`). The only other thing
that makes it throw is a key of a map that is no text.
-/

namespace Geoip

open Core ByteMemory List Traced

/-! ### What stands at a place -/

/-- What the head of a value says. -/
inductive Shape
  | pointer (target : Offset) (next : ℕ)
  | map (size : Option ℕ) (cursor : ℕ)
  | array (size : Option ℕ) (cursor : ℕ)
  | scalar (type size : Option ℕ) (cursor : ℕ)
deriving Repr, DecidableEq

/-- The head at a place. -/
def shapeAt (rt : Runtime) (buf : Mem) (base : JsNum) (n : ℕ) : Shape :=
  let ctrl := bitsAt buf n
  let type := readType buf ctrl (n + 1)
  if type.1 = some 1 then
    let pointer := readPointer buf ctrl type.2
    .pointer (pointerTarget rt buf base pointer.1) pointer.2
  else
    let size := readSize buf ctrl type.2
    match type.1 with
    | some 7 => .map size.1 size.2
    | some 11 => .array size.1 size.2
    | _ => .scalar type.1 size.1 size.2

namespace Shape

/-- The places where the decoder looks for other values, when `skip` leads from one value to the
next. -/
def places (skip : Offset → Offset) : Shape → List Offset
  | .pointer target _ => [target]
  | .map size cursor => List.iterate skip (.index cursor) (2 * size.getD 0)
  | .array size cursor => List.iterate skip (.index cursor) (size.getD 0)
  | .scalar _ _ _ => []

/-- The place after the value. -/
def stop (skip : Offset → Offset) : Shape → Offset
  | .pointer _ next => .index next
  | .map size cursor => skip^[2 * size.getD 0] (.index cursor)
  | .array size cursor => skip^[size.getD 0] (.index cursor)
  | .scalar type size cursor => if type = some 14 then .index cursor else .after cursor size

/-- What the decoder does. -/
def decode (rt : Runtime) (buf : Mem) (dec : Offset → Traced Call (Value × Offset)) :
    Shape → Traced Call (Value × Offset)
  | .pointer target next => do
    let found ← dec target
    pure (found.1, .index next)
  | .map size cursor => decodeMap rt dec cursor size
  | .array size cursor => decodeArray dec cursor size
  | .scalar type size cursor => .lift (decodeScalar rt buf type size cursor)

end Shape

variable {rt : Runtime} {buf : Mem} {base : JsNum}

/-- The head decides what the decoder does. -/
theorem decodeAt_eq (dec : Offset → Traced Call (Value × Offset)) (n : ℕ) :
    decodeAt rt buf base dec n = (shapeAt rt buf base n).decode rt buf dec := by
  rw [decodeAt, shapeAt]
  split
  · rfl
  · generalize (readType buf (bitsAt buf n) (n + 1)).1 = type
    rcases eq_or_ne type (some 7) with rfl | hmap
    · rfl
    rcases eq_or_ne type (some 11) with rfl | harray
    · rfl
    rw [decodeBody.eq_3 _ _ _ _ _ _ hmap harray]
    split
    · exact absurd rfl hmap
    · exact absurd rfl harray
    · rfl

variable (rt buf base)

/-- The place after a value. -/
def skip : ℕ → Offset → Offset
  | 0, _ => .outside
  | _ + 1, .outside => .outside
  | _ + 1, .nowhere => .nowhere
  | left + 1, .index n =>
    if buf.length ≤ n then .outside else (shapeAt rt buf base n).stop (skip left)

/-- The calls of `decode` from a place on, if none of them throws. -/
def reached : ℕ → Offset → List Call
  | 0, offset => [⟨maxDecodeDepth + 1, offset⟩]
  | left + 1, offset => ⟨maxDecodeDepth - left, offset⟩ ::
    match offset with
    | .index n =>
      if buf.length ≤ n then []
      else ((shapeAt rt buf base n).places (skip rt buf base left)).flatMap (reached left)
    | _ => []

/-- A place is in the file, and its head says what comes next; or it is not, and nothing does. -/
theorem reached_cases (left : ℕ) (offset : Offset) : (∃ n, offset = .index n ∧ n < buf.length ∧
      reached rt buf base (left + 1) offset = ⟨maxDecodeDepth - left, offset⟩ ::
        ((shapeAt rt buf base n).places (skip rt buf base left)).flatMap
          (reached rt buf base left) ∧
      skip rt buf base (left + 1) offset = (shapeAt rt buf base n).stop (skip rt buf base left)) ∨
    ((∀ n, offset = .index n → buf.length ≤ n) ∧
      reached rt buf base (left + 1) offset = [⟨maxDecodeDepth - left, offset⟩] ∧
      (skip rt buf base (left + 1) offset = .nowhere → offset = .nowhere)) := by
  cases offset with
  | outside => exact .inr ⟨fun n h ↦ Offset.noConfusion h, rfl, fun h ↦ Offset.noConfusion h⟩
  | nowhere => exact .inr ⟨fun n h ↦ Offset.noConfusion h, rfl, fun _ ↦ rfl⟩
  | index n =>
    rcases Nat.lt_or_ge n buf.length with hlt | hge
    · refine .inl ⟨n, rfl, hlt, ?_, ?_⟩
      · rw [reached, if_neg (Nat.not_le.2 hlt)]
      · rw [skip, if_neg (Nat.not_le.2 hlt)]
    · refine .inr ⟨fun m h ↦ ?_, ?_, ?_⟩
      · cases h
        exact hge
      · rw [reached, if_pos hge]
      · rw [skip, if_pos hge]
        exact fun h ↦ Offset.noConfusion h

/-- The head does not make the decoder throw: a floating point number is in the file, and a
container is not too large. -/
def Shape.fits : Shape → Bool
  | .scalar (some 3) _ cursor => cursor + 8 ≤ buf.length
  | .scalar (some 15) _ cursor => cursor + 4 ≤ buf.length
  | .map size _ | .array size _ => size.getD 0 ≤ maxContainerEntries
  | _ => true

/-- A call that does not throw by itself. -/
def proper (call : Call) : Bool :=
  call.depth ≤ maxDecodeDepth &&
    match call.offset with
    | .outside => false
    | .nowhere => true
    | .index n => n < buf.length && (shapeAt rt buf base n).fits buf

/-- The error is one of `String`. -/
def FromString (message : String) : Prop := ∃ v, rt.string v = .error message

variable {rt buf base}

theorem proper_iff {call : Call} : proper rt buf base call = true ↔
    call.depth ≤ maxDecodeDepth ∧ (call.offset = .nowhere ∨
      ∃ n, call.offset = .index n ∧ n < buf.length ∧ (shapeAt rt buf base n).fits buf = true) := by
  rw [proper]
  cases call.offset <;> simp

/-! ### Loops -/

/-- Two places for each round. -/
theorem iterate_two {P L : Type} (next : P → P) (plan : P → List L) (n : ℕ) (p : P) :
    (List.iterate (fun p ↦ next (next p)) p n).flatMap (fun p ↦ plan p ++ plan (next p)) =
        (List.iterate next p (2 * n)).flatMap plan ∧
      (fun p ↦ next (next p))^[n] p = next^[2 * n] p := by
  induction n generalizing p with
  | zero => exact ⟨rfl, rfl⟩
  | succ n ih =>
    obtain ⟨hplan, hend⟩ := ih (next (next p))
    refine ⟨?_, hend⟩
    rw [List.iterate, flatMap_cons, hplan, append_assoc]
    rfl

section

variable {dec : Offset → Traced Call (Value × Offset)} {next : Offset → Offset}
  {plan : Offset → List Call} {good : Call → Bool}
  (hdec : ∀ offset,
    (dec offset).Follows good (FromString rt) (plan offset) fun found ↦ found.2 = next offset)
include hdec

theorem follows_decodeItem (s : List Value × Offset) :
    (decodeItem dec s).Follows good (FromString rt) (plan s.2) fun t ↦ t.2 = next s.2 := by
  rw [← append_nil (plan s.2)]
  exact (hdec s.2).bind fun v hv ↦ follows_pure hv

theorem follows_decodeEntry (s : Record × Offset) :
    (decodeEntry rt dec s).Follows good (FromString rt) (plan s.2 ++ plan (next s.2)) fun t ↦
      t.2 = next (next s.2) := by
  refine (hdec s.2).bind fun k hk ↦ ?_
  rw [← hk, ← append_nil (plan k.2)]
  refine (hdec k.2).bind fun v hv ↦ ?_
  have hkey : (lift (rt.string k.1) : Traced Call Text).Follows good (FromString rt) []
      fun _ ↦ True := follows_lift (fun _ _ ↦ trivial) fun _ hm ↦ ⟨k.1, hm⟩
  exact hkey.bind fun key _ ↦ follows_pure hv

omit hdec in
/-- A value without others in it is there, and ends where its head says. -/
theorem decodeScalar_of_fits (rt : Runtime) {type size : Option ℕ} {cursor : ℕ}
    (hfits : (Shape.scalar type size cursor).fits buf = true) :
    ∃ v, decodeScalar rt buf type size cursor =
      .ok (v, if type = some 14 then .index cursor else .after cursor size) := by
  have hfloat {read : List UInt8 → JsNum} {width : ℕ} {after : Offset}
      (h : cursor + width ≤ buf.length) :
      (getFloat read width buf cursor).map (·, after) =
        .ok (.num (read (slice buf cursor width)), after) := by
    rw [getFloat, if_pos h]
    rfl
  unfold decodeScalar
  split
  case h_2 => exact ⟨_, hfloat (of_decide_eq_true hfits)⟩
  case h_10 => exact ⟨_, hfloat (of_decide_eq_true hfits)⟩
  case h_11 => exact ⟨_, by rw [if_neg (by assumption)]⟩
  all_goals exact ⟨_, rfl⟩

/-- **What the decoder does with a head follows the head.** -/
theorem follows_shape {shape : Shape} (hfits : shape.fits buf = true) :
    (shape.decode rt buf dec).Follows good (FromString rt) ((shape.places next).flatMap plan)
      fun found ↦ found.2 = shape.stop next := by
  cases shape with
  | pointer target after =>
    refine (hdec target).bind fun found _ ↦ ?_
    exact follows_pure rfl
  | map size cursor =>
    obtain ⟨hplan, hend⟩ := iterate_two next plan (size.getD 0) (.index cursor)
    rw [Shape.decode, decodeMap, if_neg (Nat.not_lt.2 (of_decide_eq_true hfits)), Shape.places,
      Shape.stop, ← hplan, ← hend, ← append_nil (List.flatMap _ _)]
    exact (follows_loop Prod.snd (follows_decodeEntry hdec) (size.getD 0)
      (Record.empty, Offset.index cursor)).bind fun t ht ↦ follows_pure ht
  | array size cursor =>
    rw [Shape.decode, decodeArray, if_neg (Nat.not_lt.2 (of_decide_eq_true hfits)),
      ← append_nil (List.flatMap _ _)]
    exact (follows_loop Prod.snd (follows_decodeItem hdec) (size.getD 0)
      ([], Offset.index cursor)).bind fun t ht ↦ follows_pure ht
  | scalar type size cursor =>
    obtain ⟨v, hv⟩ := decodeScalar_of_fits rt hfits
    rw [Shape.decode, hv]
    exact follows_pure rfl

omit hdec in
/-- What does not fit makes the decoder throw. -/
theorem decode_of_not_fits (rt : Runtime) (dec : Offset → Traced Call (Value × Offset))
    {shape : Shape} (h : shape.fits buf = false) :
    ∃ message, shape.decode rt buf dec = .throw message := by
  have hget {read : List UInt8 → JsNum} {width cursor : ℕ}
      (h : decide (cursor + width ≤ buf.length) = false) :
      getFloat read width buf cursor = .error "Offset is outside the bounds of the DataView" :=
    if_neg (of_decide_eq_false h)
  unfold Shape.fits at h
  split at h
  · refine ⟨"Offset is outside the bounds of the DataView", ?_⟩
    show lift ((getFloat rt.float64 8 buf _).map _) = _
    rw [hget h]
    rfl
  · refine ⟨"Offset is outside the bounds of the DataView", ?_⟩
    show lift ((getFloat rt.float32 4 buf _).map _) = _
    rw [hget h]
    rfl
  · exact ⟨_, if_pos (Nat.lt_of_not_le (of_decide_eq_false h))⟩
  · exact ⟨_, if_pos (Nat.lt_of_not_le (of_decide_eq_false h))⟩
  · cases h

end

/-- **The decoder makes the calls that the file says**, up to the first one that throws, and ends
after the value. -/
theorem follows_decode (left : ℕ) (offset : Offset) :
    (decode rt buf base left offset).Follows (proper rt buf base) (FromString rt)
      (reached rt buf base left offset) fun found ↦ found.2 = skip rt buf base left offset := by
  induction left generalizing offset with
  | zero => exact follows_of_bad rfl rfl rfl _ _
  | succ left ih =>
    cases offset with
    | outside => exact follows_of_bad (by simp [proper]) rfl rfl _ _
    | nowhere => exact Follows.tell (by simp [proper]) (follows_pure rfl)
    | index n =>
      rw [decode, reached, skip]
      split
      case isTrue hout =>
        exact follows_of_bad (by simp [proper, Nat.not_lt.2 hout]) rfl rfl _ _
      case isFalse hin =>
        rw [decodeAt_eq]
        cases hfits : (shapeAt rt buf base n).fits buf with
        | true =>
          refine Follows.tell ?_ (follows_shape ih hfits)
          simp [proper, Nat.lt_of_not_le hin, hfits]
        | false =>
          obtain ⟨message, hthrow⟩ := decode_of_not_fits rt (decode rt buf base left) hfits
          rw [hthrow]
          exact follows_of_bad (by simp [proper, hfits]) rfl rfl _ _

end Geoip
