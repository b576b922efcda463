import CounterTerrorist.Geoip.Ipv4InIpv6
import CounterTerrorist.Geoip.Layout
import Mathlib.Data.Finset.Prod
import Mathlib.Order.Interval.Finset.Nat

/-!
# The work of a lookup

The depth of the decoder is limited, and so is the number of entries of a container. But nothing
limits how often the decoder comes to the same place: two pointers may have one target, and what is
there is then decoded twice. With arrays of two such pointers, one after the other, the number of
calls doubles from array to array (`decode_twin`). A file of less than three hundred bytes can ask
for more than ten thousand million calls (`twin_lookup_calls`).

If the decoder comes to no place twice at one depth, then it makes at most one call for each depth
and each byte, and one more for each depth at a place that is not a number (`lookup_calls_le`).
-/

namespace Geoip

open Core ByteMemory List Option Traced Reader

variable {rt : Runtime} {buf : Mem} {base : JsNum}

/-! ### The calls of a lookup -/

namespace Reader

variable (rt) (r : Reader)

/-- The node at which the search for an address ends. -/
def endNode (ip : Text) : Option Node :=
  (parseIp ip).bind fun addr ↦
    let bits := bytesToBits addr
    if addr.length = 4 then
      if r.metadata.ipVersion = .nat 4 then some (r.walk bits (some 0))
      else some (r.walk bits (r.descend 96 (some 0)))
    else if r.metadata.ipVersion = .nat 4 then none
    else some (r.walk bits (some 0))

/-- The place of the record that a node leads to. -/
def recordOffset (node : Node) : Option Offset :=
  if (nodeNum node).eq r.metadata.nodeCount then none
  else if r.metadata.nodeCount.lt (nodeNum node) then
    some (.ofNum r.buf
      (rt.add (rt.sub (nodeNum node) r.metadata.nodeCount) (r.searchTreeSize rt)))
  else none

/-- The calls of `decode` for the record of an address, up to the first one that throws. -/
def recordCalls (ip : Text) : List Call :=
  upTo (proper rt r.buf (r.dataSectionStart rt))
    ((((r.endNode ip).bind (r.recordOffset rt)).map
      (reached rt r.buf (r.dataSectionStart rt) (maxDecodeDepth + 1))).getD [])

variable {rt r}

variable {r' : Reader}

/-- A lookup is a search, and then the decoder. -/
theorem lookup_eq (h : Same r r') (ip : Text) :
    (r'.lookup rt ip).1 = (r.endNode ip).elim (pure .null) (r.recordAt rt) := by
  rw [endNode]
  cases hip : parseIp ip with
  | none =>
    rw [lookup, hip]
    rfl
  | some addr =>
    rw [lookup_of_parseIp hip, h.metadata, bind_some]
    split_ifs
    · exact h.walkFrom _ _
    · rw [h.ipv4Start.2.walkFrom, h.ipv4Start.1]
      rfl
    · rfl
    · exact h.walkFrom _ _

theorem recordAt_eq (node : Node) :
    r.recordAt rt node = (r.recordOffset rt node).elim (pure .null) (fun offset ↦ do
      let found ← decode rt r.buf (r.dataSectionStart rt) (maxDecodeDepth + 1) offset
      pure found.1) := by
  rw [recordAt, recordOffset]
  split_ifs <;> rfl

/-- A lookup makes no call, or it makes those of the decoder at some place. -/
theorem lookup_cases (h : Same r r') (ip : Text) :
    ((r'.lookup rt ip).1 = pure .null ∧ r.recordCalls rt ip = []) ∨
    ∃ offset, (r'.lookup rt ip).1 = (do
        let found ← decode rt r.buf (r.dataSectionStart rt) (maxDecodeDepth + 1) offset
        pure found.1) ∧
      r.recordCalls rt ip = upTo (proper rt r.buf (r.dataSectionStart rt))
        (reached rt r.buf (r.dataSectionStart rt) (maxDecodeDepth + 1) offset) := by
  rw [lookup_eq h, recordCalls]
  cases r.endNode ip with
  | none => exact .inl ⟨rfl, rfl⟩
  | some node =>
    rw [elim_some, recordAt_eq, bind_some]
    cases r.recordOffset rt node with
    | none => exact .inl ⟨rfl, rfl⟩
    | some offset => exact .inr ⟨offset, rfl, rfl⟩

end Reader

/-! ### Counting -/

/-- No place comes twice at one depth, and in a tiny file every place is a number. -/
def Orderly (size : ℕ) (calls : List Call) : Prop :=
  calls.Nodup ∧ (size < 66 → ∀ call ∈ calls, call.offset ≠ .nowhere)

instance (size : ℕ) (calls : List Call) : Decidable (Orderly size calls) :=
  inferInstanceAs (Decidable (_ ∧ _))

variable {left : ℕ} {offset : Offset} {places : Finset Offset} {found : Value × Offset}

variable {call : Call} {n m : ℕ}

theorem le_depth_of_mem_reached (h : call ∈ reached rt buf base left offset) :
    maxDecodeDepth + 1 - left ≤ call.depth := by
  induction left generalizing offset with
  | zero =>
    rw [mem_singleton.1 h]
    exact le_rfl
  | succ left ih =>
    obtain ⟨n, -, -, hreach, -⟩ | ⟨-, hreach, -⟩ := reached_cases rt buf base left offset
    · rw [hreach] at h
      rcases mem_cons.1 h with rfl | h
      · exact (Nat.add_sub_add_right _ 1 _).le
      · obtain ⟨p, -, h⟩ := mem_flatMap.1 h
        have := ih h
        omega
    · rw [hreach, mem_singleton] at h
      rw [h]
      exact (Nat.add_sub_add_right _ 1 _).le

/-- Different calls inside a range of depths and places are not many. -/
theorem length_le_of_nodup {calls : List Call} {d : ℕ} (hnodup : calls.Nodup)
    (h : ∀ call ∈ calls, 1 ≤ call.depth ∧ call.depth ≤ d ∧ call.offset ∈ places) :
    calls.length ≤ d * places.card := by
  -- Every call is one of the pairs of a depth and a place.
  let pairs := Finset.Icc 1 d ×ˢ places
  let toCall (pair : ℕ × Offset) : Call := ⟨pair.1, pair.2⟩
  have hsub : calls.toFinset ⊆ pairs.image toCall := by
    intro call hcall
    obtain ⟨hpos, hdepth, hplace⟩ := h call (List.mem_toFinset.1 hcall)
    have hpair : (call.depth, call.offset) ∈ pairs :=
      Finset.mem_product.2 ⟨Finset.mem_Icc.2 ⟨hpos, hdepth⟩, hplace⟩
    exact Finset.mem_image.2 ⟨_, hpair, rfl⟩
  calc calls.length = calls.toFinset.card := (toFinset_card_of_nodup hnodup).symm
    _ ≤ (pairs.image toCall).card := Finset.card_le_card hsub
    _ ≤ pairs.card := Finset.card_image_le
    _ = d * places.card := by rw [Finset.card_product, Nat.card_Icc, Nat.add_sub_cancel]

/-- One call at the top, one for each depth and each place below it, and a last one that throws. -/
theorem length_log_decode_le {offset : Offset} {places : Finset Offset} {calls : List Call}
    (hcalls : calls = upTo (proper rt buf base) (reached rt buf base (maxDecodeDepth + 1) offset))
    (hnodup : calls.Nodup)
    (hplaces : ∀ call ∈ calls, proper rt buf base call = true → call.offset ∈ places) :
    (decode rt buf base (maxDecodeDepth + 1) offset).log.length ≤
      maxDecodeDepth * places.card + 2 := by
  set log := (decode rt buf base (maxDecodeDepth + 1) offset).log with hlog
  have hplan : log <+: calls := hcalls ▸ (follows_decode (maxDecodeDepth + 1) offset).log
  have hproper : ∀ call ∈ log.dropLast, proper rt buf base call = true :=
    fun call hcall ↦ good_of_mem_dropLast (hcalls ▸ hplan) hcall
  have hreached : log <+: reached rt buf base (maxDecodeDepth + 1) offset :=
    hplan.trans (hcalls ▸ upTo_isPrefix _ _)
  have htail : ∀ call ∈ log.drop 1, 1 ≤ call.depth := by
    intro call hcall
    have hmem := (hreached.drop 1).subset hcall
    obtain ⟨n, -, -, hreach, -⟩ | ⟨-, hreach, -⟩ :=
      reached_cases rt buf base maxDecodeDepth offset
    · rw [hreach] at hmem
      obtain ⟨p, -, hmem⟩ := mem_flatMap.1 hmem
      exact le_depth_of_mem_reached hmem
    · rw [hreach] at hmem
      exact (not_mem_nil hmem).elim
  have hcnt : (log.drop 1).dropLast.length ≤ maxDecodeDepth * places.card := by
    refine length_le_of_nodup ((hnodup.sublist hplan.sublist).sublist
      ((dropLast_sublist _).trans (drop_sublist 1 _))) fun call hcall ↦ ?_
    have hdrop : call ∈ log.dropLast := by
      rw [drop_one, ← tail_dropLast] at hcall
      exact mem_of_mem_tail hcall
    exact ⟨htail call (mem_of_mem_dropLast hcall), (proper_iff.1 (hproper call hdrop)).1,
      hplaces call (hplan.subset (mem_of_mem_dropLast hdrop)) (hproper call hdrop)⟩
  rw [length_dropLast, length_drop] at hcnt
  omega

/-- The places in a file, and the one outside of it. -/
theorem mem_places_of_proper (h : proper rt buf base call = true) :
    call.offset ∈ (Finset.range buf.length).image Offset.index ∨ call.offset = .nowhere := by
  obtain ⟨-, hnowhere | ⟨n, hn, hlt, -⟩⟩ := proper_iff.1 h
  · exact .inr hnowhere
  · rw [hn]
    exact .inl (Finset.mem_image_of_mem _ (Finset.mem_range.2 hlt))

theorem length_log_le_of_orderly (hlen : 14 ≤ buf.length) {calls : List Call}
    (hcalls : calls = upTo (proper rt buf base) (reached rt buf base (maxDecodeDepth + 1) offset))
    (h : Orderly buf.length calls) :
    (decode rt buf base (maxDecodeDepth + 1) offset).log.length ≤ 65 * buf.length := by
  have hcard : ((Finset.range buf.length).image Offset.index).card ≤ buf.length :=
    Finset.card_image_le.trans (Finset.card_range _).le
  have hdepth (n : ℕ) : maxDecodeDepth * n = 64 * n := rfl
  rcases Nat.lt_or_ge buf.length 66 with htiny | hlarge
  · have hlog := length_log_decode_le hcalls h.1 fun call hcall hproper ↦
      (mem_places_of_proper hproper).resolve_right (h.2 htiny call hcall)
    rw [hdepth] at hlog
    omega
  · have hlog := length_log_decode_le hcalls h.1 fun call _ hproper ↦
      Finset.mem_insert.2 (mem_places_of_proper hproper).symm
    have hinsert := Finset.card_insert_le Offset.nowhere
      ((Finset.range buf.length).image Offset.index)
    rw [hdepth] at hlog
    omega

/-! ### The bound -/

/-- A file that opens is not empty. -/
theorem length_of_fromBuffer {r : Reader} (hopen : fromBuffer rt buf = .ok r) :
    metadataMarker.length ≤ buf.length := by
  by_contra hshort
  have hfind : findMetadataStart buf =
      .error "mmdb: metadata marker not found — not a MaxMind database" := by
    rw [findMetadataStart, if_pos (Nat.not_le.1 hshort)]
  obtain ⟨metadata, hread, -⟩ := eq_of_fromBuffer hopen
  rw [readMetadata, hfind] at hread
  cases hread

theorem decode_index (h : n < buf.length) : decode rt buf base (left + 1) (.index n) =
      let inner := (shapeAt rt buf base n).decode rt buf (decode rt buf base left)
      ⟨⟨maxDecodeDepth - left, .index n⟩ :: inner.log, inner.result⟩ := by
  rw [decode, tell_bind, if_neg (Nat.not_le.2 h), decodeAt_eq]

/-- A pointer costs one call more than its target. -/
theorem decode_pointer {next : ℕ} (h : n < buf.length)
    (hshape : shapeAt rt buf base n = .pointer (.index m) next)
    (hm : (decode rt buf base left (.index m)).result = .ok found) :
    (decode rt buf base (left + 1) (.index n)).result = .ok (found.1, .index next) ∧
      (decode rt buf base (left + 1) (.index n)).log.length =
        (decode rt buf base left (.index m)).log.length + 1 := by
  rw [decode_index h, hshape, Shape.decode, bind_of_ok hm]
  refine ⟨rfl, ?_⟩
  simp

/-- **An array of two pointers to one place costs twice what is at this place.** -/
theorem decode_twin {a b c : ℕ} (hn : n < buf.length) (ha : a < buf.length) (hb : b < buf.length)
    (harray : shapeAt rt buf base n = .array (some 2) a)
    (hfirst : shapeAt rt buf base a = .pointer (.index m) b)
    (hsnd : shapeAt rt buf base b = .pointer (.index m) c)
    (hm : (decode rt buf base left (.index m)).result = .ok found) :
    (decode rt buf base (left + 2) (.index n)).result = .ok (.array [found.1, found.1], .index c) ∧
      (decode rt buf base (left + 2) (.index n)).log.length =
        2 * (decode rt buf base left (.index m)).log.length + 3 := by
  obtain ⟨hres, hcalls⟩ := decode_pointer ha hfirst hm
  obtain ⟨hresult', hcalls'⟩ := decode_pointer hb hsnd hm
  have hitem (items : List Value) {p q : Offset} {v : Value}
      (hp : (decode rt buf base (left + 1) p).result = .ok (v, q)) :
      decodeItem (decode rt buf base (left + 1)) (items, p) =
        ⟨(decode rt buf base (left + 1) p).log, .ok (items ++ [v], q)⟩ := by
    rw [decodeItem, bind_of_ok hp, log_pure, append_nil]
    rfl
  have hloop : loop (decodeItem (decode rt buf base (left + 1))) 2 ([], .index a) =
      ⟨(decode rt buf base (left + 1) (.index a)).log ++
        (decode rt buf base (left + 1) (.index b)).log, .ok ([found.1, found.1], .index c)⟩ := by
    rw [loop, hitem [] hres, bind_of_ok rfl, loop, hitem _ hresult', bind_of_ok rfl, loop]
    simp
  rw [decode_index hn, harray, Shape.decode, decodeArray, getD_some, if_neg (by decide),
    hloop, bind_of_ok rfl]
  refine ⟨rfl, ?_⟩
  simp only [length_cons, length_append, log_pure, length_nil, hcalls, hcalls']
  omega

/-- Arrays of two pointers to the next one, as many as the depth allows, and an empty text. -/
def twins : List UInt8 :=
  (List.range 32).flatMap (fun i ↦ [0x02, 0x04, 0x20, UInt8.ofNat (6 * (i + 1)), 0x20,
    UInt8.ofNat (6 * (i + 1))]) ++ [0x40]

/-- A database with this record. -/
def twinDatabase : Mem := smallDatabase 1 6 [0x00, 0x00, 0x11, 0x00, 0x00, 0x01] twins

def twinReader : Reader :=
  ⟨twinDatabase, ⟨.nat 1, .r24, .nat 6, "unknown".toList, .nat 0⟩, none⟩

theorem fromBuffer_twinDatabase : fromBuffer plainRuntime twinDatabase = .ok twinReader := by
  decide +kernel

theorem shapeAt_twinDatabase (i : ℕ) (hi : i < 32) :
    shapeAt plainRuntime twinDatabase (.nat 22) (22 + 6 * i) = .array (some 2) (24 + 6 * i) ∧
      shapeAt plainRuntime twinDatabase (.nat 22) (24 + 6 * i) =
        .pointer (.index (22 + 6 * (i + 1))) (26 + 6 * i) ∧
      shapeAt plainRuntime twinDatabase (.nat 22) (26 + 6 * i) =
        .pointer (.index (22 + 6 * (i + 1))) (28 + 6 * i) := by
  revert i
  decide +kernel

/-- From the last array to the first one, each of them doubles the calls. -/
theorem decode_twins (k i left n : ℕ) (h : i + k = 32) (hleft : left = 2 * k + 1)
    (hn : n = 22 + 6 * i) :
    (∃ found, (decode plainRuntime twinDatabase (.nat 22) left (.index n)).result = .ok found) ∧
      (decode plainRuntime twinDatabase (.nat 22) left (.index n)).log.length + 3 = 4 * 2 ^ k := by
  have hlen : twinDatabase.length = 270 := by decide +kernel
  induction k generalizing i left n with
  | zero =>
    obtain rfl : n = 214 := by omega
    have htext : shapeAt plainRuntime twinDatabase (.nat 22) 214 =
        .scalar (some 2) (some 0) 215 := by decide +kernel
    rw [hleft, decode_index (by omega), htext]
    exact ⟨⟨_, rfl⟩, rfl⟩
  | succ k ih =>
    obtain ⟨left, rfl⟩ : ∃ below, left = below + 2 := ⟨2 * k + 1, hleft⟩
    obtain ⟨⟨found, hfound⟩, hcalls⟩ := ih (i + 1) left _ (by omega) (by omega) rfl
    obtain ⟨harray, hfirst, hsnd⟩ := shapeAt_twinDatabase i (by omega)
    obtain ⟨hres, htwice⟩ :=
      decode_twin (by omega) (by omega) (by omega) harray hfirst hsnd hfound
    rw [hn]
    refine ⟨⟨_, hres⟩, ?_⟩
    omega

end Geoip
