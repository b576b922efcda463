import CounterTerrorist.Core.ByteField
import CounterTerrorist.Foundations.SecretSharing
import Mathlib.Data.FinEnum

/-!
# Sharing a secret

`splitSecret` and `reconstructSecret`. Each byte of the secret is shared on its own: it is the
constant term of a polynomial of length `k` over the field of bytes, whose other coefficients are
random, and the share with index `x` holds the values at `x`.

* `reconstruct_split`: `k` shares or more, in any order, give the secret back.
* `shares_hide_secret`: fewer say nothing about it. For any two secrets of one length, `k - 1`
  shares look the same for equally many choices of the coefficients.

Both are facts about polynomials, from the library `SecretSharing`. Here the loops are shown to
calculate what it talks about (`evaluate_spec`, `basisLoop_spec`, `resultLoop_spec`).
-/

namespace Core.Threshold

open SecretSharing List Option

structure SecretShare where
  index : ℕ
  data : List UInt8
deriving Repr, DecidableEq

/-! ### Splitting -/

/-- The array `poly` for one byte of the secret, with the random bytes behind it. An array of length
zero does not take the byte either. -/
def poly (k : ℕ) (byte : UInt8) (random : ℕ → UInt8) : List UInt8 :=
  (List.range k).map fun exp ↦ if exp = 0 then byte else random (exp - 1)

/-- The innermost loop of `splitSecret`, from the last coefficient down. -/
def evaluate (poly : List UInt8) (x : ℕ) : ℕ :=
  poly.foldr (fun coefficient y ↦ multiply y x ^^^ coefficient.toNat) 0

/-- `splitSecret`. The bytes that `getRandomValues` gives for byte `i` of the secret are
`random i`. -/
def splitSecret (secret : List UInt8) (n k : ℕ) (random : ℕ → ℕ → UInt8) : List SecretShare :=
  (List.range n).map fun j ↦
    { index := j + 1
      data := secret.mapIdx fun i byte ↦ .ofNat (evaluate (poly k byte (random i)) (j + 1)) }

/-! ### Reconstructing -/

/-- The loop over `m`, from the given place of the shares on. Its own condition is always true; it
is left at the last share. -/
def basisLoop (index j : ℕ) : ℕ → List SecretShare → ℕ → Except Thrown ℕ
  | _, [], basis => .ok basis
  | m, share :: rest, basis =>
    if j = m then
      if rest = [] then .ok basis else basisLoop index j (m + 1) rest basis
    else do
      let basis := multiply basis (← divide share.index (index ^^^ share.index))
      if rest = [] then .ok basis else basisLoop index j (m + 1) rest basis

/-- The loop over `j`, from the given place of the shares on. -/
def resultLoop (shares : List SecretShare) (i : ℕ) :
    ℕ → List SecretShare → ℕ → Except Thrown ℕ
  | _, [], result => .ok result
  | j, share :: rest, result => do
    let basis ← basisLoop share.index j 0 shares 1
    let byte := (share.data[i]?.map UInt8.toNat).getD 0
    resultLoop shares i (j + 1) rest (result ^^^ multiply byte basis)

/-- `reconstructSecret`. -/
def reconstructSecret (shares : List SecretShare) : Except Thrown (List UInt8) :=
  match shares with
  | [] => .error .typeError
  | first :: _ => (List.range first.data.length).mapM fun i ↦ do
    return UInt8.ofNat (← resultLoop shares i 0 shares 0)

/-! ### The loops in the field -/

/-- A byte as an element of the field. -/
def ofByte (byte : UInt8) : GF256 := ⟨byte.toBitVec⟩

theorem toGF_byte (byte : UInt8) : toGF byte.toNat = ofByte byte :=
  GF256.ext ((BitVec.ofNat_toNat 8 byte.toBitVec).trans (BitVec.setWidth_eq _))

theorem toGF_one : toGF 1 = 1 := rfl

theorem ofByte_ofNat (n : ℕ) : ofByte (.ofNat n) = toGF n := rfl

theorem ofByte_injective : Function.Injective ofByte :=
  fun _ _ h ↦ UInt8.toBitVec_inj.1 (congrArg GF256.bits h)

theorem xor_lt {a b : ℕ} (ha : a < 256) (hb : b < 256) : a ^^^ b < 256 :=
  Nat.xor_lt_two_pow (n := 8) ha hb

variable {x k j : ℕ}

/-- The innermost loop of `splitSecret` evaluates a polynomial. -/
theorem evaluate_spec (coefficients : List UInt8) (hx : x < 256) : evaluate coefficients x < 256 ∧
      toGF (evaluate coefficients x) = horner (coefficients.map ofByte) (toGF x) := by
  induction coefficients with
  | nil => exact ⟨Nat.zero_lt_succ 255, rfl⟩
  | cons c coefficients ih =>
    obtain ⟨hlt, hmul⟩ := multiply_spec ih.1 hx
    refine ⟨xor_lt hlt c.toNat_lt, ?_⟩
    show toGF (multiply (evaluate coefficients x) x ^^^ c.toNat) = _
    rw [toGF_xor, hmul, ih.2, toGF_byte, map_cons, horner_cons]

/-- A polynomial of `poly` has the byte of the secret at zero. -/
theorem horner_poly_zero (hk : 1 ≤ k) (byte : UInt8) (random : ℕ → UInt8) :
    horner ((poly k byte random).map ofByte) 0 = ofByte byte := by
  obtain ⟨k, rfl⟩ := Nat.exists_eq_add_of_le' hk
  rw [poly, range_succ_eq_map, map_cons, map_cons, horner_cons, mul_zero, zero_add, if_pos rfl]

/-- At the last share the loop is left, where it would end anyway. -/
theorem basisLoop_cons (index j m : ℕ) (share : SecretShare) (rest : List SecretShare) (basis : ℕ) :
    basisLoop index j m (share :: rest) basis =
      if j = m then basisLoop index j (m + 1) rest basis
      else divide share.index (index ^^^ share.index) >>= fun quotient ↦
        basisLoop index j (m + 1) rest (multiply basis quotient) := by
  cases rest with
  | nil => rfl
  | cons next rest => rfl

variable {rest : List SecretShare} {indices : Finset ℕ}

/-- **The loop over `m` multiplies the weight up.** Along the rest of the shares from place `m` on,
the one that is left out is the one with the given index. -/
theorem basisLoop_spec (hx : x < 256) {m basis : ℕ} (hrest : ∀ share ∈ rest, share.index < 256)
    (hskip : ∀ p share, rest[p]? = some share → (j = m + p ↔ share.index = x))
    (hbasis : basis < 256) :
    ∃ b < 256, basisLoop x j m rest basis = .ok b ∧
      toGF b = toGF basis * weight (rest.map fun share ↦ toGF share.index) (toGF x) := by
  induction rest generalizing m basis with
  | nil => exact ⟨basis, hbasis, rfl, (mul_one _).symm⟩
  | cons share rest ih =>
    have hshare : share.index < 256 := hrest share mem_cons_self
    have hrest' : ∀ share ∈ rest, share.index < 256 :=
      fun share hmem ↦ hrest share (mem_cons_of_mem _ hmem)
    have hskip' : ∀ p share, rest[p]? = some share → (j = m + 1 + p ↔ share.index = x) := by
      intro p share hp
      rw [Nat.add_assoc, Nat.add_comm 1 p]
      exact hskip (p + 1) share hp
    have hhere : j = m ↔ share.index = x := hskip 0 share rfl
    rw [basisLoop_cons, weight, map_cons]
    split
    case isTrue heq =>
      have hsame : toGF share.index = toGF x := congrArg toGF (hhere.1 heq)
      rw [filter_cons_of_neg (by simpa using hsame)]
      exact ih hrest' hskip' hbasis
    case isFalse hne =>
      have hidx : share.index ≠ x := fun h ↦ hne (hhere.2 h)
      have hgf : toGF share.index ≠ toGF x := fun h ↦ hidx (toGF_injOn hshare hx h)
      have hxor : x ^^^ share.index ≠ 0 := fun h ↦ hidx (xor_eq_zero_iff.1 h).symm
      obtain ⟨quotient, hquotient, hdivide, hgfdiv⟩ := divide_spec hshare (xor_lt hx hshare) hxor
      obtain ⟨hmul, hgfmul⟩ := multiply_spec hbasis hquotient
      obtain ⟨b, hb, hloop, hgfb⟩ := ih hrest' hskip' hmul
      refine ⟨b, hb, by rw [hdivide]; exact hloop, ?_⟩
      rw [hgfb, hgfmul, hgfdiv, toGF_xor, filter_cons_of_pos (by simpa using hgf), map_cons,
        GF256.sub_eq_add, add_comm (toGF share.index), mul_assoc]
      rfl

/-- What the sum counts a share for, at byte `i`. -/
def byteAt (i : ℕ) (share : SecretShare) : ℕ := (share.data[i]?.map UInt8.toNat).getD 0

theorem byteAt_lt (i : ℕ) (share : SecretShare) : byteAt i share < 256 := by
  rw [byteAt]
  cases share.data[i]? with
  | none => exact Nat.zero_lt_succ 255
  | some byte => exact byte.toNat_lt

/-- **The loop over `j` adds the weighted bytes up.** -/
theorem resultLoop_spec {shares : List SecretShare} (i : ℕ)
    (hshares : ∀ share ∈ shares, share.index < 256)
    (hdist : (shares.map SecretShare.index).Nodup) {result : ℕ}
    (hrest : ∀ p share, rest[p]? = some share → shares[j + p]? = some share)
    (hres : result < 256) :
    ∃ r < 256, resultLoop shares i j rest result = .ok r ∧
      toGF r = toGF result + (rest.map fun share ↦ toGF (byteAt i share) *
        weight (shares.map fun share ↦ toGF share.index) (toGF share.index)).sum := by
  induction rest generalizing j result with
  | nil => exact ⟨result, hres, rfl, (add_zero _).symm⟩
  | cons share rest ih =>
    have hhere : shares[j]? = some share := hrest 0 share rfl
    have hidx : share.index < 256 := hshares share (mem_of_getElem? hhere)
    -- places and indices say the same
    have hskip : ∀ p other, shares[p]? = some other → (j = 0 + p ↔ other.index = share.index) := by
      intro p other hp
      rw [Nat.zero_add]
      constructor
      · rintro rfl
        rw [some.inj (hp.symm.trans hhere)]
      · intro heq
        have hplace : j < (shares.map SecretShare.index).length := by
          rw [length_map]
          exact (List.getElem?_eq_some_iff.1 hhere).1
        refine (getElem?_inj hplace hdist).1 ?_
        rw [getElem?_map, getElem?_map, hhere, hp, map_some, map_some, heq]
    obtain ⟨basis, hbasis, hloop, hgf⟩ := basisLoop_spec hidx hshares hskip (by decide : 1 < 256)
    obtain ⟨hmul, hgfmul⟩ := multiply_spec (byteAt_lt i share) hbasis
    have hrest' : ∀ p share, rest[p]? = some share → shares[j + 1 + p]? = some share := by
      intro p share hp
      rw [Nat.add_assoc, Nat.add_comm 1 p]
      exact hrest (p + 1) share hp
    obtain ⟨r, hr, hloop', hgf'⟩ := ih hrest' (xor_lt hres hmul)
    refine ⟨r, hr, ?_, ?_⟩
    · rw [resultLoop, hloop]
      exact hloop'
    · rw [hgf', toGF_xor, hgfmul, hgf, toGF_one, one_mul, map_cons, sum_cons, add_assoc]

/-! ### Recovery -/

section

variable {secret : List UInt8} {n k : ℕ} {random : ℕ → ℕ → UInt8} {share : SecretShare}

section

variable (h : share ∈ splitSecret secret n k random)
include h

theorem index_of_mem : 1 ≤ share.index ∧ share.index ≤ n := by
  obtain ⟨j, hj, rfl⟩ := List.mem_map.1 h
  have hlt := mem_range.1 hj
  exact ⟨Nat.le_add_left 1 j, hlt⟩

theorem data_of_mem : share.data = secret.mapIdx fun i byte ↦
      .ofNat (evaluate (poly k byte (random i)) share.index) := by
  obtain ⟨j, -, rfl⟩ := List.mem_map.1 h
  rfl

theorem length_data : share.data.length = secret.length := by
  rw [data_of_mem h, length_mapIdx]

/-- The byte of a share is a value of the polynomial. -/
theorem toGF_byteAt (hn : n ≤ 255) {i : ℕ} {byte : UInt8} (hi : secret[i]? = some byte) :
    toGF (byteAt i share) = horner ((poly k byte (random i)).map ofByte) (toGF share.index) := by
  have hidx : share.index < 256 := by
    have := (index_of_mem h).2
    omega
  rw [byteAt, data_of_mem h, getElem?_mapIdx, hi, map_some, map_some, getD_some, toGF_byte]
  exact (evaluate_spec _ hidx).2

end

end

theorem mapM_ok {α β : Type} {f : α → Except Thrown β} {g : α → β} {l : List α}
    (h : ∀ a ∈ l, f a = .ok (g a)) : l.mapM f = .ok (l.map g) := by
  induction l with
  | nil => rfl
  | cons a l ih =>
    rw [mapM_cons, h a mem_cons_self, ih fun b hb ↦ h b (mem_cons_of_mem _ hb)]
    rfl

section

variable {secret : List UInt8} {n k : ℕ} {random : ℕ → ℕ → UInt8} {shares : List SecretShare}

/-- The sum of the weighted bytes is the byte of the secret. -/
theorem sum_byteAt_mul_weight (hk : 1 ≤ k) (hn : n ≤ 255)
    (hshares : ∀ share ∈ shares, share ∈ splitSecret secret n k random)
    (hdist : (shares.map SecretShare.index).Nodup) (henough : k ≤ shares.length) {i : ℕ}
    {byte : UInt8} (hi : secret[i]? = some byte) :
    (shares.map fun share ↦ toGF (byteAt i share) *
      weight (shares.map fun share ↦ toGF share.index) (toGF share.index)).sum = ofByte byte := by
  let points := shares.map fun share ↦ toGF share.index
  let coefficients := (poly k byte (random i)).map ofByte
  have hlt : ∀ x ∈ shares.map SecretShare.index, x < 256 := by
    intro x hx
    obtain ⟨share, hmem, rfl⟩ := List.mem_map.1 hx
    have := (index_of_mem (hshares share hmem)).2
    omega
  have hpoints : points.Nodup := by
    have hmap : points = (shares.map SecretShare.index).map toGF := by
      rw [List.map_map]
      rfl
    rw [hmap]
    exact hdist.map_on fun x hx y hy h ↦ toGF_injOn (hlt x hx) (hlt y hy) h
  have hlen : coefficients.length ≤ points.length := by
    simpa [coefficients, points, poly] using henough
  calc (shares.map fun share ↦ toGF (byteAt i share) * weight points (toGF share.index)).sum
      = (shares.map fun share ↦ horner coefficients (toGF share.index) *
          weight points (toGF share.index)).sum := by
        refine congrArg List.sum (map_congr_left fun share hmem ↦ ?_)
        rw [toGF_byteAt (hshares share hmem) hn hi]
    _ = (points.map fun x ↦ horner coefficients x * weight points x).sum := by
        rw [List.map_map]
        rfl
    _ = horner coefficients 0 := sum_eval_mul_weight hpoints hlen
    _ = ofByte byte := horner_poly_zero hk byte (random i)

/-- **Enough shares give the secret back**, whichever they are and in whatever order. -/
theorem reconstruct_split (hk : 1 ≤ k) (hn : n ≤ 255)
    (hshares : ∀ share ∈ shares, share ∈ splitSecret secret n k random)
    (hdistinct : (shares.map SecretShare.index).Nodup) (henough : k ≤ shares.length) :
    reconstructSecret shares = .ok secret := by
  have hindex : ∀ share ∈ shares, share.index < 256 := by
    intro share hmem
    have := (index_of_mem (hshares share hmem)).2
    omega
  obtain ⟨first, rest, rfl⟩ : ∃ first rest, shares = first :: rest :=
    exists_cons_of_ne_nil (ne_nil_of_length_pos (by omega))
  rw [reconstructSecret, length_data (hshares first mem_cons_self),
    mapM_ok (g := fun i ↦ secret.getD i 0)]
  · refine congrArg Except.ok (ext_getElem (by simp) fun i _ hi ↦ ?_)
    simp [hi]
  · intro i hi
    have hlt : i < secret.length := mem_range.1 hi
    have hget : secret[i]? = some secret[i] := getElem?_eq_getElem hlt
    obtain ⟨r, -, hloop, hgf⟩ := resultLoop_spec i hindex hdistinct
      (fun p share hp ↦ by rwa [Nat.zero_add]) (Nat.zero_lt_succ 255)
    have hbyte : UInt8.ofNat r = secret[i] := by
      refine ofByte_injective ?_
      rw [ofByte_ofNat, hgf, sum_byteAt_mul_weight hk hn hshares hdistinct henough hget]
      exact zero_add _
    rw [hloop, getD_eq_getElem?_getD, hget, ← hbyte]
    rfl

/-- Of three shares of two bytes, any two of which are enough, the last one and the first one. -/
theorem reconstruct_split_two :
    reconstructSecret ((splitSecret [83, 202] 3 2 fun _ _ ↦ 7).drop 2 ++
      (splitSecret [83, 202] 3 2 fun _ _ ↦ 7).take 1) = .ok [83, 202] := by
  have hshares : ∀ share ∈ (splitSecret [83, 202] 3 2 fun _ _ ↦ 7).drop 2 ++
      (splitSecret [83, 202] 3 2 fun _ _ ↦ 7).take 1,
      share ∈ splitSecret [83, 202] 3 2 fun _ _ ↦ 7 := by
    intro share hmem
    rcases mem_append.1 hmem with hmem | hmem
    · exact mem_of_mem_drop hmem
    · exact mem_of_mem_take hmem
  exact reconstruct_split (by decide) (by decide) hshares (by decide) (by decide)

end

/-! ### Hiding -/

/-- A choice of all the coefficients that are random: `k - 1` for each byte of the secret. -/
abbrev Coefficients (bytes k : ℕ) := Fin bytes → Fin (k - 1) → UInt8

/-- The coefficients as `getRandomValues` puts them out. -/
def Coefficients.random {bytes k : ℕ} (c : Coefficients bytes k) (i e : ℕ) : UInt8 :=
  if h : i < bytes ∧ e < k - 1 then c ⟨i, h.1⟩ ⟨e, h.2⟩ else 0

/-- The shares with the given indices. -/
def view (indices : Finset ℕ) (shares : List SecretShare) : List SecretShare :=
  shares.filter fun share ↦ share.index ∈ indices

/-- Coefficients that begin with one and that the shares with the given indices do not notice. -/
theorem exists_unnoticed (hk : 1 ≤ k) (hcard : indices.card = k - 1)
    (hidxs : ∀ x ∈ indices, x ≠ 0 ∧ x < 256) :
    ∃ f : ℕ → GF256, f 0 = 1 ∧ ∀ x ∈ indices, horner ((List.range k).map f) (toGF x) = 0 := by
  have hpoints : 0 ∉ indices.image toGF := by
    intro hmem
    obtain ⟨x, hx, hzero⟩ := Finset.mem_image.1 hmem
    exact toGF_ne_zero (hidxs x hx).1 (hidxs x hx).2 hzero
  obtain ⟨f, hf, hvanish⟩ := exists_vanishing (indices.image toGF) hpoints
  have himage : (indices.image toGF).card + 1 = k := by
    rw [Finset.card_image_of_injOn, hcard, Nat.sub_add_cancel hk]
    exact fun x hx y hy h ↦ toGF_injOn (hidxs x hx).2 (hidxs y hy).2 h
  rw [himage] at hvanish
  exact ⟨f, hf, fun x hx ↦ hvanish _ (Finset.mem_image_of_mem toGF hx)⟩

/-- An element of the field as a byte. -/
def toByte (a : GF256) : UInt8 := ⟨a.bits⟩

theorem ofByte_toByte (a : GF256) : ofByte (toByte a) = a := rfl

theorem toByte_ofByte (byte : UInt8) : toByte (ofByte byte) = byte := rfl

section

variable {bytes k : ℕ} (delta : ℕ → GF256) (f : ℕ → GF256)

/-- Add to the coefficients of each byte a multiple of `f`. -/
noncomputable def Coefficients.shift (c : Coefficients bytes k) : Coefficients bytes k :=
  fun i e ↦ toByte (ofByte (c i e) + delta i * f (e + 1))

theorem Coefficients.shift_involutive :
    Function.Involutive fun c : Coefficients bytes k ↦ c.shift delta f := by
  intro c
  funext i e
  show toByte (ofByte (c i e) + delta i * f (e + 1) + delta i * f (e + 1)) = c i e
  rw [add_assoc, GF256.add_self, add_zero, toByte_ofByte]

variable {i : ℕ} {byte byte' : UInt8}

section

variable (c : Coefficients bytes k) (hi : i < bytes) (hdelta : delta i = ofByte byte + ofByte byte')
  (hf : f 0 = 1)
include c hi hdelta hf

/-- A coefficient after a shift that takes one byte of the secret to another. -/
theorem ofByte_shift {e : ℕ} (he : e < k) :
    ofByte (if e = 0 then byte' else (c.shift delta f).random i (e - 1)) =
      ofByte (if e = 0 then byte else c.random i (e - 1)) + delta i * f e := by
  cases e with
  | zero =>
    rw [if_pos rfl, if_pos rfl, hf, mul_one, hdelta, ← add_assoc, GF256.add_self, zero_add]
  | succ e =>
    have hin : i < bytes ∧ e < k - 1 := ⟨hi, by omega⟩
    rw [Nat.add_sub_cancel, Coefficients.random, Coefficients.random, dif_pos hin, dif_pos hin]
    exact ofByte_toByte _

/-- Such a shift leaves the values alone where `f` vanishes. -/
theorem evaluate_shift {x : ℕ} (hx : x < 256)
    (hvanish : horner ((List.range k).map f) (toGF x) = 0) :
    evaluate (poly k byte' ((c.shift delta f).random i)) x =
      evaluate (poly k byte (c.random i)) x := by
  obtain ⟨hlt, hvalue⟩ := evaluate_spec (poly k byte (c.random i)) hx
  obtain ⟨hlt', hvalue'⟩ := evaluate_spec (poly k byte' ((c.shift delta f).random i)) hx
  refine toGF_injOn hlt' hlt ?_
  rw [hvalue', hvalue, poly, poly, List.map_map, List.map_map, horner_map_range, horner_map_range]
  rw [horner_map_range] at hvanish
  calc ∑ e ∈ Finset.range k,
        ofByte (if e = 0 then byte' else (c.shift delta f).random i (e - 1)) * toGF x ^ e
      = ∑ e ∈ Finset.range k, (ofByte (if e = 0 then byte else c.random i (e - 1)) * toGF x ^ e +
          delta i * (f e * toGF x ^ e)) := by
        refine Finset.sum_congr rfl fun e he ↦ ?_
        rw [ofByte_shift delta f c hi hdelta hf (Finset.mem_range.1 he), add_mul, mul_assoc]
    _ = ∑ e ∈ Finset.range k, ofByte (if e = 0 then byte else c.random i (e - 1)) * toGF x ^ e := by
        rw [Finset.sum_add_distrib, ← Finset.mul_sum, hvanish, mul_zero, add_zero]

end

end

theorem view_splitSecret (indices : Finset ℕ) (secret : List UInt8) (n k : ℕ)
    (random : ℕ → ℕ → UInt8) :
    view indices (splitSecret secret n k random) =
      ((List.range n).filter fun j ↦ j + 1 ∈ indices).map fun j ↦
        ⟨j + 1, secret.mapIdx fun i byte ↦
          .ofNat (evaluate (poly k byte (random i)) (j + 1))⟩ := by
  rw [view, splitSecret, List.filter_map]
  rfl

/-- The shares with the given indices, after a shift that takes one secret to another. -/
theorem view_shift {secret secret' : List UInt8} (hlen : secret'.length = secret.length)
    {n : ℕ} (hn : n ≤ 255) {f : ℕ → GF256} (hf : f 0 = 1)
    (hvanish : ∀ x ∈ indices, horner ((List.range k).map f) (toGF x) = 0)
    (c : Coefficients secret.length k) :
    view indices (splitSecret secret' n k
        (c.shift (fun i ↦ ofByte (secret.getD i 0) + ofByte (secret'.getD i 0)) f).random) =
      view indices (splitSecret secret n k c.random) := by
  rw [view_splitSecret, view_splitSecret]
  refine map_congr_left fun j hj ↦ ?_
  obtain ⟨hrange, hmem⟩ := mem_filter.1 hj
  have hx : j + 1 < 256 := by
    have := mem_range.1 hrange
    omega
  have hzero := hvanish (j + 1) (of_decide_eq_true hmem)
  refine congrArg (SecretShare.mk (j + 1)) (ext_getElem (by simpa using hlen) ?_)
  intro i hi' hi
  rw [length_mapIdx] at hi hi'
  rw [getElem_mapIdx, getElem_mapIdx]
  refine congrArg UInt8.ofNat (evaluate_shift _ f c hi ?_ hf hx hzero)
  simp only [getD_eq_getElem?_getD, getElem?_eq_getElem hi, getElem?_eq_getElem hi', getD_some]

/-- **Too few shares say nothing.** For two secrets of one length and any `k - 1` indices, every
outcome of the shares with these indices is produced by equally many choices of the coefficients. -/
theorem shares_hide_secret {secret secret' : List UInt8} (hlength : secret'.length = secret.length)
    {n k : ℕ} (hk : 1 ≤ k) (hn : n ≤ 255) {indices : Finset ℕ}
    (hindices : ∀ x ∈ indices, 1 ≤ x ∧ x ≤ n) (hcard : indices.card = k - 1)
    (outcome : List SecretShare) :
    Fintype.card {c : Coefficients secret.length k //
        view indices (splitSecret secret n k c.random) = outcome} =
      Fintype.card {c : Coefficients secret.length k //
        view indices (splitSecret secret' n k c.random) = outcome} := by
  have hbytes : ∀ x ∈ indices, x ≠ 0 ∧ x < 256 := by
    intro x hx
    have := hindices x hx
    omega
  obtain ⟨f, hf, hvanish⟩ := exists_unnoticed hk hcard hbytes
  let delta (i : ℕ) := ofByte (secret.getD i 0) + ofByte (secret'.getD i 0)
  refine Fintype.card_congr ((Coefficients.shift_involutive delta f).toPerm.subtypeEquiv ?_)
  intro c
  rw [Function.Involutive.coe_toPerm, view_shift hlength hn hf hvanish c]

/-- The second of three shares, two of which are needed, for two secrets of one byte. -/
theorem shares_hide_secret_second :
    Fintype.card {c : Coefficients [(83 : UInt8)].length 2 //
        view {2} (splitSecret [83] 3 2 c.random) = [⟨2, [202]⟩]} =
      Fintype.card {c : Coefficients [(83 : UInt8)].length 2 //
        view {2} (splitSecret [84] 3 2 c.random) = [⟨2, [202]⟩]} := by
  have hlength : [(84 : UInt8)].length = [(83 : UInt8)].length := rfl
  have hindices : ∀ x ∈ ({2} : Finset ℕ), 1 ≤ x ∧ x ≤ 3 := by decide
  exact shares_hide_secret hlength (by decide) (by decide) hindices (by decide) _

end Core.Threshold
