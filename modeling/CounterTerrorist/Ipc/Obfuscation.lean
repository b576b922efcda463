import CounterTerrorist.Foundations.RollingKey

/-!
# Obfuscation of the shared memory

Both directions of the shared-memory IPC are XORed with a shared key. The agents (`cts_ipc`) do it
with a loop over single bytes. The orchestrator calls `fast_morph` (`cts_sec`), which picks a vector
loop when the key is exactly as wide as a vector register, and the same loop over bytes otherwise.

All of them are the rolling key schedule `rollingXor` (`xorBytes_eq`, `fastMorph_eq`). The vector
loops take the key from the start for every chunk, so they only fit a key whose length divides the
width of a chunk; `fastMorph` asks for equality.
-/

open RollingKey

namespace Ipc

/-- Byte `i` is XORed with the key byte `i % key.length`. -/
def rollingXor (key data : List UInt8) : List UInt8 := combine (· ^^^ ·) key data

/-! ### The loops of the source -/

/-- The loop over bytes: `data[i] ^= key[i % key.len()]`. It stands in `emit_event`, in
`poll_command`, in `fast_morph` and, for the remainder, in both vector loops. No caller has an empty
key, for which the source would divide by zero; the model leaves the data alone. -/
def xorBytes (data key : List UInt8) : List UInt8 :=
  inPlace (fun i b ↦ b ^^^ key.getD (i % key.length) 0) data

/-- A loop over `chunks_exact_mut(width)` that XORs each chunk with one register of key bytes,
followed by the loop over the bytes of `into_remainder`. -/
def xorVector (width : ℕ) (data key : List UInt8) : List UInt8 :=
  let keyVec := key.take width
  blockwise width (fun chunk ↦ List.zipWith (· ^^^ ·) chunk keyVec) (fun rem ↦ xorBytes rem key)
    (data.length / width) data

/-- `xor_avx2`: 256-bit registers. -/
def xorAvx2 (data key : List UInt8) : List UInt8 := xorVector 32 data key

/-- `xor_neon`: 128-bit registers. -/
def xorNeon (data key : List UInt8) : List UInt8 := xorVector 16 data key

/-- What the build target and the processor decide about `fast_morph`. -/
inductive Target
  /-- An `x86_64` build, with the answer of `is_x86_feature_detected!("avx2")`. -/
  | x86 (avx2 : Bool)
  /-- An `aarch64` build. -/
  | aarch64
  /-- Any other architecture. -/
  | other
deriving Repr, DecidableEq

/-- `fast_morph` on live buffers. -/
def fastMorph (target : Target) (data key : List UInt8) : List UInt8 :=
  if key.length = 0 then data
  else
    match target with
    | .x86 avx2 => if avx2 ∧ key.length = 32 then xorAvx2 data key else xorBytes data key
    | .aarch64 => if key.length = 16 then xorNeon data key else xorBytes data key
    | .other => xorBytes data key

/-- The step of `emit_event` and `poll_command`: XOR unless there is no key or an empty one. -/
def agentXor (obfuscationKey : Option (List UInt8)) (data : List UInt8) : List UInt8 :=
  match obfuscationKey with
  | some key => if key.isEmpty then data else xorBytes data key
  | none => data

/-- The step of `pullRingEvent` and `writeShmem`: `fastMorph` on a copy, unless there is no key or
an empty one. -/
def bridgeXor (target : Target) (obfuscationKey : Option (List UInt8)) (data : List UInt8) :
    List UInt8 :=
  match obfuscationKey with
  | some key => if key.length > 0 then fastMorph target data key else data
  | none => data

/-! ### All of them are the rolling schedule -/

variable {data key : List UInt8}

@[simp] theorem length_rollingXor : (rollingXor key data).length = data.length :=
  length_combine data

/-- The schedule is its own inverse. -/
theorem rollingXor_rollingXor : rollingXor key (rollingXor key data) = data :=
  combine_combine (fun a b ↦ by rw [UInt8.xor_assoc, UInt8.xor_self, UInt8.xor_zero]) data

/-- The loop over bytes is the schedule. -/
theorem xorBytes_eq (data key : List UInt8) : xorBytes data key = rollingXor key data := by
  rw [xorBytes, inPlace_eq_mapIdx]
  congr 1
  funext i b
  rw [List.getD_eq_getElem?_getD]
  cases key[i % key.length]? with
  | none => exact UInt8.xor_zero
  | some k => rfl

/-- The vector loop, for a key that is one register wide. -/
theorem xorVector_eq {width : ℕ} (hkey : key.length = width) :
    xorVector width data key = rollingXor key data := by
  refine blockwise_eq_combine (hkey ▸ Nat.dvd_refl _) (fun chunk hchunk ↦ ?_)
    (fun rem ↦ xorBytes_eq rem key) (Nat.div_mul_le_self _ _)
  rw [List.take_of_length_le (Nat.le_of_eq hkey), combine_block (hchunk.trans hkey.symm)]

/-- Whatever the target, `fast_morph` computes the rolling schedule. -/
theorem fastMorph_eq (target : Target) (data key : List UInt8) :
    fastMorph target data key = rollingXor key data := by
  by_cases hempty : key.length = 0
  · rw [List.length_eq_zero_iff.1 hempty]
    exact (combine_nil_key data).symm
  · cases target with
    | x86 avx2 =>
      rw [fastMorph, if_neg hempty]
      split
      · rename_i hwide
        exact xorVector_eq hwide.2
      · exact xorBytes_eq data key
    | aarch64 =>
      rw [fastMorph, if_neg hempty]
      split
      · rename_i hwide
        exact xorVector_eq hwide
      · exact xorBytes_eq data key
    | other =>
      rw [fastMorph, if_neg hempty]
      exact xorBytes_eq data key

/-! ### An optional key -/

/-- Bytes as they stand in the shared memory. -/
def masked (key : Option (List UInt8)) (data : List UInt8) : List UInt8 :=
  rollingXor (key.getD []) data

@[simp] theorem length_masked (key : Option (List UInt8)) (data : List UInt8) :
    (masked key data).length = data.length :=
  length_rollingXor

/-- Masking twice gives the data back. -/
@[simp] theorem masked_masked (key : Option (List UInt8)) (data : List UInt8) :
    masked key (masked key data) = data :=
  rollingXor_rollingXor

theorem agentXor_eq (key : Option (List UInt8)) (data : List UInt8) :
    agentXor key data = masked key data := by
  rcases key with - | - | ⟨k, key⟩
  · exact (combine_nil_key data).symm
  · exact (combine_nil_key data).symm
  · exact xorBytes_eq data (k :: key)

theorem bridgeXor_eq (target : Target) (key : Option (List UInt8)) (data : List UInt8) :
    bridgeXor target key data = masked key data := by
  rcases key with - | - | ⟨k, key⟩
  · exact (combine_nil_key data).symm
  · exact (combine_nil_key data).symm
  · exact fastMorph_eq target data (k :: key)

end Ipc
