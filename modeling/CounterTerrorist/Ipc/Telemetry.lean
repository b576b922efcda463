import CounterTerrorist.Foundations.Channel
import CounterTerrorist.Ipc.Obfuscation
import CounterTerrorist.Ipc.RingConsumer

/-!
# Telemetry events on the ring

An agent encodes an event, puts an Ed25519 signature in front of it when it has a signing key, XORs
the whole with the shared key and pushes it (`IpcManager.emitEvent`). The orchestrator pulls the
record, XORs a copy, checks the signature when it has a public key and the record is longer than a
signature, and decodes what is left (`CtsSec.pullRingEvent`).

MessagePack and Ed25519 are libraries. The encoder is a parameter of `emitEvent`; the decoder and
the signature check are fields of `CtsSec`. Of signing only the length of a signature is used.

## Main results

* `telemetry_round_trip`: the bytes that reach the decoder are the encoded event.
* `pull_authenticated_iff`: when an event comes back without a signature check. A record that is not
  longer than a signature is decoded as it stands, also when a public key is configured.
-/

open ByteMemory Machine

namespace Ipc

open List Option

/-! ### The agent -/

/-- A signing key, as far as the agents use it. -/
structure SigningKey where
  /-- The bytes of the signature of a message. -/
  sign : List UInt8 → List UInt8
  /-- An Ed25519 signature has 64 bytes. -/
  length_sign : ∀ msg, (sign msg).length = 64

/-- The keys of an agent. -/
structure IpcManager where
  /-- `CTS_MESH_SECRET`, if set. -/
  obfuscationKey : Option (List UInt8)
  /-- `CTS_AGENT_KEY`, if set and well formed. -/
  signingKey : Option SigningKey

namespace IpcManager

variable {E : Type*} (manager : IpcManager)

/-- The bytes of an encoded event with its signature, if there is a key. -/
def signed (buf : List UInt8) : List UInt8 :=
  match manager.signingKey with
  | some key => key.sign buf ++ buf
  | none => buf

/-- What is pushed for an encoded event. -/
def frame (buf : List UInt8) : List UInt8 :=
  agentXor manager.obfuscationKey (manager.signed buf)

/-- `emit_event`, on the mapping of an agent that has one. `none` is an abort. -/
def emitEvent (serialize : E → Option (List UInt8)) (m : Mem) (event : E) : Option (Bool × Mem) :=
  match serialize event with
  | none => some (false, m)
  | some buf =>
    match IpcRingBuffer.new m with
    | none => some (false, m)
    | some (ring, m) => ring.push m (manager.frame buf)

end IpcManager

/-! ### The orchestrator -/

/-- The native library that the bridge has loaded. -/
structure CtsSec where
  /-- The machine it runs on. -/
  target : Target
  /-- `verify_ed25519`, on a public key, a signature and a message. -/
  verifyEd25519 : List UInt8 → List UInt8 → List UInt8 → Bool
  /-- `deserialize_msgpack`: JSON text, or the null pointer. -/
  deserializeMsgpack : List UInt8 → Option String

/-- A call of `verify_ed25519` with its answer. -/
structure SignatureCheck where
  /-- The public key of the agent. -/
  pubkey : List UInt8
  /-- The signature that was checked. -/
  signature : List UInt8
  /-- The message it was checked for. -/
  payload : List UInt8
  /-- The answer. -/
  accepted : Bool
deriving Repr, DecidableEq

/-- What a call of `pullRingEvent` returned and what it did. -/
structure RingEvent where
  /-- The JSON text that is returned; `none` is `null`. -/
  event : Option String
  /-- The signature check, if one was made. -/
  check : Option SignatureCheck
  /-- The bytes that were handed to the decoder. -/
  decoded : Option (List UInt8)
  /-- The mapping afterwards. -/
  mem : Mem
deriving Repr, DecidableEq

namespace CtsSec

variable (lib : CtsSec)

/-- The end of `pullRingEvent`: decode, then release the record whether it could be decoded or
not. -/
def decodeRecord (m : Mem) (check : Option SignatureCheck) (view : List UInt8) :
    Option RingEvent := do
  let event := lib.deserializeMsgpack view
  let m' ← shmemRingCommit m
  return ⟨event, check, some view, m'⟩

/-- `pullRingEvent`. `none` is an abort of the native code or a read outside of the mapping. -/
def pullRingEvent (m : Mem) (obfuscationKey agentPublicKey : Option (List UInt8)) :
    Option RingEvent := do
  match ← shmemRingPull m with
  | none => return ⟨none, none, none, m⟩
  | some (offset, len) =>
    if len = 0 then return ⟨none, none, none, m⟩
    let view ← readAt m offset len.toNat
    let view := bridgeXor lib.target obfuscationKey view
    match agentPublicKey with
    | some key =>
      if key.length = 32 ∧ len > 64 then
        let signature := view.take 64
        let payload := view.drop 64
        if lib.verifyEd25519 key signature payload then
          lib.decodeRecord m (some ⟨key, signature, payload, true⟩) payload
        else
          let m' ← shmemRingCommit m
          return ⟨none, some ⟨key, signature, payload, false⟩, none, m'⟩
      else lib.decodeRecord m none view
    | none => lib.decodeRecord m none view

end CtsSec

/-! ### What a pull does with the next record -/

section Pull

variable {lib : CtsSec} {m : Mem} {obfuscationKey agentPublicKey : Option (List UInt8)}
  {key : List UInt8} {off : ℕ} {len : UInt32}

/-- The next record with the obfuscation taken off. -/
def unmaskedRecord (m : Mem) (obfuscationKey : Option (List UInt8)) (off : ℕ) (len : UInt32) :
    List UInt8 :=
  masked obfuscationKey (slice m off len.toNat)

/-- The mapping after the next record was released. -/
def released (m : Mem) (off : ℕ) (len : UInt32) : Mem :=
  splice m 4 (toLeBytes (UInt32.ofNat (off + len.toNat - dataOffset)))

/-- The record is decoded as it stands. -/
def decodedAsIs (lib : CtsSec) (m : Mem) (obfuscationKey : Option (List UInt8)) (off : ℕ)
    (len : UInt32) : RingEvent :=
  ⟨lib.deserializeMsgpack (unmaskedRecord m obfuscationKey off len), none,
    some (unmaskedRecord m obfuscationKey off len), released m off len⟩

/-- The signature in front of the record is checked, and the rest is decoded if it is good. -/
def decodedChecked (lib : CtsSec) (m : Mem) (obfuscationKey : Option (List UInt8))
    (key : List UInt8) (off : ℕ) (len : UInt32) : RingEvent :=
  let signature := (unmaskedRecord m obfuscationKey off len).take 64
  let payload := (unmaskedRecord m obfuscationKey off len).drop 64
  if lib.verifyEd25519 key signature payload then
    ⟨lib.deserializeMsgpack payload, some ⟨key, signature, payload, true⟩, some payload,
      released m off len⟩
  else ⟨none, some ⟨key, signature, payload, false⟩, none, released m off len⟩

theorem pullRingEvent_null (hp : shmemRingPull m = some none) :
    lib.pullRingEvent m obfuscationKey agentPublicKey = some ⟨none, none, none, m⟩ := by
  rw [CtsSec.pullRingEvent, hp]
  rfl

section

variable (hp : shmemRingPull m = some (some (off, len)))
include hp

theorem decodeRecord_eq (check : Option SignatureCheck) (view : List UInt8) :
    lib.decodeRecord m check view =
      some ⟨lib.deserializeMsgpack view, check, some view, released m off len⟩ := by
  rw [CtsSec.decodeRecord, (commit_of_pull hp).1]
  rfl

/-- With a public key of 32 bytes, a record that is longer than a signature is checked. -/
theorem pullRingEvent_checked (hkey : key.length = 32) (hlen : len > 64) :
    lib.pullRingEvent m obfuscationKey (some key) =
      some (decodedChecked lib m obfuscationKey key off len) := by
  obtain ⟨-, -, -, -, hne, -⟩ := pulled_eq hp
  rw [CtsSec.pullRingEvent, hp]
  simp only [bind_eq_bind, bind_some, if_neg hne, readAt_of_le (pulled_range hp).2,
    bridgeXor_eq, decodeRecord_eq hp, (commit_of_pull hp).1, if_pos (And.intro hkey hlen)]
  rw [decodedChecked, apply_ite some]
  rfl

/-- Every other record is decoded as it stands. -/
theorem pullRingEvent_asIs
    (hno : ∀ key, agentPublicKey = some key → ¬(key.length = 32 ∧ len > 64)) :
    lib.pullRingEvent m obfuscationKey agentPublicKey =
      some (decodedAsIs lib m obfuscationKey off len) := by
  obtain ⟨-, -, -, -, hne, -⟩ := pulled_eq hp
  rw [CtsSec.pullRingEvent, hp]
  simp only [bind_eq_bind, bind_some, if_neg hne, readAt_of_le (pulled_range hp).2,
    bridgeXor_eq, decodeRecord_eq hp]
  rcases agentPublicKey with - | key
  · rfl
  · simp only [if_neg (hno key rfl)]
    rfl

end

end Pull

/-! ### Round trip -/

section RoundTrip

/-- The keys of the two ends belong together: no signing on either side, or the public key of the
agent's signing key. -/
inductive KeysMatch (lib : CtsSec) (manager : IpcManager) (agentPublicKey : Option (List UInt8)) :
    Prop
  /-- Neither side has a key. -/
  | unsigned (hagent : manager.signingKey = none) (hbridge : agentPublicKey = none)
  /-- What the agent signs, the orchestrator accepts. -/
  | signed {signing : SigningKey} {pubkey : List UInt8} (hagent : manager.signingKey = some signing)
    (hbridge : agentPublicKey = some pubkey) (hlength : pubkey.length = 32)
    (haccepts : ∀ msg, lib.verifyEd25519 pubkey (signing.sign msg) msg = true)

variable {lib : CtsSec} {manager : IpcManager} {agentPublicKey : Option (List UInt8)} {m : Mem}
  {off : ℕ} {len : UInt32} {b : List UInt8}

theorem IpcManager.frame_eq (manager : IpcManager) (buf : List UInt8) :
    manager.frame buf = masked manager.obfuscationKey (manager.signed buf) :=
  agentXor_eq _ _

/-- A pull that finds the frame of an event hands the encoded event to the decoder, and releases
the record. -/
theorem pull_frame (hmatch : KeysMatch lib manager agentPublicKey) (hb : b ≠ [])
    (hp : shmemRingPull m = some (some (off, len)))
    (hrec : slice m off len.toNat = manager.frame b) :
    ∃ check, lib.pullRingEvent m manager.obfuscationKey agentPublicKey =
      some ⟨lib.deserializeMsgpack b, check, some b, released m off len⟩ := by
  have hunmasked : unmaskedRecord m manager.obfuscationKey off len = manager.signed b := by
    rw [unmaskedRecord, hrec, manager.frame_eq, masked_masked]
  have hlength : len.toNat = (manager.signed b).length := by
    have hrange := (pulled_range hp).2
    rw [← hunmasked, unmaskedRecord, length_masked, slice, length_take, length_drop]
    omega
  cases hmatch with
  | unsigned hagent hbridge =>
    have hsigned : manager.signed b = b := by rw [IpcManager.signed, hagent]
    refine ⟨none, ?_⟩
    rw [pullRingEvent_asIs hp (by simp [hbridge]), decodedAsIs, hunmasked, hsigned]
  | @signed signing pubkey hagent hbridge hpubkey haccepts =>
    have hsigned : manager.signed b = signing.sign b ++ b := by rw [IpcManager.signed, hagent]
    have hsig := signing.length_sign b
    -- the event is not empty, so the record is longer than a signature
    have hlong : len > 64 := by
      have hpos := length_pos_iff.2 hb
      rw [gt_iff_lt, UInt32.lt_iff_toNat_lt, hlength, hsigned, length_append, hsig]
      show 64 < 64 + b.length
      omega
    refine ⟨some ⟨pubkey, signing.sign b, b, true⟩, ?_⟩
    rw [hbridge, pullRingEvent_checked hp hpubkey hlong, decodedChecked, hunmasked, hsigned,
      ← hsig, take_left, drop_left, if_pos (haccepts b)]

/-- The obfuscation is the rolling XOR on every target. Hence, whatever the shared key, a pull that
finds the bytes pushed for a non-empty encoded event decodes exactly that encoded event, when the
signing keys of the two ends belong together. -/
theorem telemetry_round_trip :
    (∀ (target : Target) (data key : List UInt8) (hkey : key ≠ []) (i : ℕ),
      (fastMorph target data key)[i]? = data[i]?.map fun byte ↦
        byte ^^^ key.get ⟨i % key.length, Nat.mod_lt _ (List.length_pos_iff.2 hkey)⟩) ∧
    (∀ (lib : CtsSec) (manager : IpcManager) (agentPublicKey : Option (List UInt8))
      (b : List UInt8) (m : Mem) (off : ℕ) (len : UInt32),
      KeysMatch lib manager agentPublicKey → b ≠ [] →
      shmemRingPull m = some (some (off, len)) → slice m off len.toNat = manager.frame b →
      ∃ r, lib.pullRingEvent m manager.obfuscationKey agentPublicKey = some r ∧
        r.decoded = some b) := by
  refine ⟨fun target data key hkey i ↦ ?_,
    fun lib manager agentPublicKey b m off len hmatch hb hp hrecord ↦ ?_⟩
  · rw [fastMorph_eq]
    exact RollingKey.getElem?_combine_of_ne_nil hkey data i
  · obtain ⟨check, hpull⟩ := pull_frame hmatch hb hp hrecord
    exact ⟨_, hpull, rfl⟩

/-- An agent with both keys, as an example: its signatures are sixty-four bytes of `7`. -/
def signingAgent : IpcManager :=
  ⟨some [0x5a, 0xa5, 0x11], some ⟨fun _ ↦ List.replicate 64 7, by simp⟩⟩

/-- A library that accepts those signatures and knows the encoding of `null`. -/
def acceptingLib : CtsSec where
  target := .x86 true
  verifyEd25519 _ signature _ := signature = List.replicate 64 7
  deserializeMsgpack view := if view = [0xc0] then some "null" else none

/-- The mapping after that agent emitted `null` into a zeroed segment. -/
def signedMapping : Mem :=
  splice (splice (splice (List.replicate 96 0) 8 (toLeBytes 80)) dataOffset
    (record (signingAgent.frame [0xc0]))) 0 (toLeBytes 69)

theorem signedMapping_pull : signingAgent.emitEvent some (List.replicate 96 0) [0xc0] =
      some (true, signedMapping) ∧
    shmemRingPull signedMapping = some (some (20, 65)) ∧
    slice signedMapping 20 65 = signingAgent.frame [0xc0] := by
  decide +kernel

theorem telemetry_round_trip_signed : ∃ r,
    acceptingLib.pullRingEvent signedMapping signingAgent.obfuscationKey
      (some (List.replicate 32 1)) = some r ∧ r.decoded = some [0xc0] :=
  telemetry_round_trip.2 acceptingLib signingAgent _ [0xc0] signedMapping 20 65
    (.signed rfl rfl (by simp) fun _ ↦ by simp [acceptingLib]) (by simp)
    signedMapping_pull.2.1 signedMapping_pull.2.2

end RoundTrip

/-! ### Authentication -/

section Authentication

/-- A returned event was decoded from bytes whose signature was checked under `key` and accepted. -/
def RingEvent.Authenticated (lib : CtsSec) (key : List UInt8) (r : RingEvent) : Prop :=
  ∀ event, r.event = some event → ∃ signature payload,
    r.decoded = some payload ∧ r.check = some ⟨key, signature, payload, true⟩ ∧
      lib.verifyEd25519 key signature payload = true

variable {lib : CtsSec} {m : Mem} {obfuscationKey : Option (List UInt8)} {key : List UInt8}
  {off : ℕ} {len : UInt32}

theorem authenticated_decodedChecked :
    (decodedChecked lib m obfuscationKey key off len).Authenticated lib key := by
  intro event hevent
  rw [decodedChecked] at hevent ⊢
  split at hevent
  · rename_i hacc
    rw [if_pos hacc]
    exact ⟨_, _, rfl, rfl, hacc⟩
  · cases hevent

theorem authenticated_decodedAsIs_iff :
    (decodedAsIs lib m obfuscationKey off len).Authenticated lib key ↔
      lib.deserializeMsgpack (unmaskedRecord m obfuscationKey off len) = none := by
  rw [eq_none_iff_forall_ne_some]
  constructor
  · intro hauth event hevent
    obtain ⟨signature, payload, -, hcheck, -⟩ := hauth event hevent
    cases hcheck
  · exact fun hnone event hevent ↦ absurd hevent (hnone event)

/-- For every content of the mapping and every public key of 32 bytes, the call returns, and an
event it returns is authenticated exactly when the next record is longer than 64 bytes, or is not
the encoding of anything. -/
theorem pull_authenticated_iff (lib : CtsSec) (m : Mem) (obfuscationKey : Option (List UInt8))
    (key : List UInt8) (hkey : key.length = 32) :
    ∃ r, lib.pullRingEvent m obfuscationKey (some key) = some r ∧
      (r.Authenticated lib key ↔
        ∀ off len, shmemRingPull m = some (some (off, len)) →
          len > 64 ∨
            lib.deserializeMsgpack (masked obfuscationKey (slice m off len.toNat)) = none) := by
  obtain ⟨pulled, hp⟩ := pull_returns m
  rcases pulled with - | ⟨off, len⟩
  · refine ⟨_, pullRingEvent_null hp, iff_of_true (fun event hevent ↦ ?_) fun off len hp' ↦ ?_⟩
    · cases hevent
    · rw [hp] at hp'
      cases hp'
  · have hnext {off' : ℕ} {len' : UInt32} (hp' : shmemRingPull m = some (some (off', len'))) :
        off = off' ∧ len = len' :=
      Prod.mk.inj (some.inj (some.inj (hp.symm.trans hp')))
    by_cases hlong : len > 64
    · refine ⟨_, pullRingEvent_checked hp hkey hlong,
        iff_of_true authenticated_decodedChecked fun off' len' hp' ↦ .inl ?_⟩
      rwa [← (hnext hp').2]
    · refine ⟨_, pullRingEvent_asIs hp fun key' _ hcond ↦ hlong hcond.2, ?_⟩
      rw [authenticated_decodedAsIs_iff]
      constructor
      · intro hnone off' len' hp'
        obtain ⟨rfl, rfl⟩ := hnext hp'
        exact .inr hnone
      · exact fun hall ↦ (hall off len hp).resolve_left hlong

theorem pull_authenticated_iff_signed : ∃ r,
    acceptingLib.pullRingEvent signedMapping signingAgent.obfuscationKey
      (some (List.replicate 32 1)) = some r ∧
        r.Authenticated acceptingLib (List.replicate 32 1) := by
  obtain ⟨r, hr, hiff⟩ := pull_authenticated_iff acceptingLib signedMapping
    signingAgent.obfuscationKey (List.replicate 32 1) (by simp)
  refine ⟨r, hr, hiff.2 fun off len hp ↦ .inl ?_⟩
  obtain ⟨-, rfl⟩ := Prod.mk.inj (some.inj (some.inj (signedMapping_pull.2.1.symm.trans hp)))
  decide

/-- A segment in which somebody placed the one-byte record `0xc0`. -/
def forgedMapping : Mem :=
  toLeBytes 5 ++ toLeBytes 0 ++ toLeBytes 16 ++ toLeBytes 0 ++ record [0xc0] ++ List.replicate 11 0

/-- A library that rejects every signature. -/
def rejectingLib : CtsSec := { acceptingLib with verifyEd25519 := fun _ _ _ ↦ false }

/-- The forged record comes back as an event, though no signature was ever checked and none would
have been accepted. -/
theorem forged_record_accepted : ∃ r,
    rejectingLib.pullRingEvent forgedMapping none (some (List.replicate 32 1)) = some r ∧
      r.event = some "null" ∧ r.check = none ∧
      ¬r.Authenticated rejectingLib (List.replicate 32 1) := by
  have heval : (rejectingLib.pullRingEvent forgedMapping none (some (List.replicate 32 1))).map
      (fun r ↦ (r.event, r.check)) = some (some "null", none) := by decide +kernel
  obtain ⟨r, hr, hend⟩ := map_eq_some_iff.1 heval
  obtain ⟨hevent, hcheck⟩ := Prod.mk.inj hend
  refine ⟨r, hr, hevent, hcheck, fun hauth ↦ ?_⟩
  obtain ⟨signature, payload, -, hsome, -⟩ := hauth _ hevent
  rw [hcheck] at hsome
  cases hsome

end Authentication

end Ipc
