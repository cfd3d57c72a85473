import ComputePool.Federated.Basic
import ComputePool.Lib.AbiLayout
import ComputePool.Rust.Slice

/-!
# The calldata of an attestation

`encode_submit_strict_bound_calldata` writes the offsets and the padding of three byte
strings by hand.  The bytes are the standard encoding of the seven arguments, so that
standard decoding recovers them.
-/

namespace ComputePool
namespace Worker
namespace Attestation

open RustStd Federated AbiLayout

variable {ε : Type}

def paddedLen (n : Nat) : Nat := (n + 31) / 32 * 32

/-- A `u128` in the low half of a word. -/
def u256Be (v : Nat) : List UInt8 := List.replicate 16 0 ++ toBE 16 v

def functionSelector (H : Hashes) (sig : String) : List UInt8 :=
  (keccak H [utf8 sig]).toBytes.take 4

/-- The sum of `usize` values. -/
def sumUsize (overflowChecks : Bool) (start : Nat) (values : List Nat) : Checked ε Nat :=
  values.foldlM (addUsize overflowChecks) start

/-- The length of a `Vec`, which panics rather than pass `isize::MAX` bytes. -/
def withinCapacity (n : Nat) : Checked ε Unit :=
  if n ≤ isizeMax then .ok () else .error .panic

/-- `len || bytes`, padded to whole words. -/
def paddedBytes (bytes : List UInt8) : List UInt8 :=
  u256Be bytes.length ++ (bytes ++ List.replicate (paddedLen bytes.length - bytes.length) 0)

def submitStrictBoundSig : String :=
  "submitAttestationStrictBound(bytes,bytes,bytes32,bytes,bytes32,bytes32,bytes32)"

def encodeSubmitStrictBoundCalldata (overflowChecks : Bool) (H : Hashes)
    (signedJwtPayload jwtSignature : List UInt8) (kidHash : B32)
    (vmMeasurementClaim : List UInt8) (gpuMeasurement modelHash nrasSignerHash : B32) :
    Checked ε (List UInt8) := do
  let headSize := 32 * 7
  let signedJwtPadded := paddedLen signedJwtPayload.length
  let jwtSigPadded := paddedLen jwtSignature.length
  let vmClaimPadded := paddedLen vmMeasurementClaim.length
  let offsetSignedJwt := headSize
  let offsetJwtSig ← sumUsize overflowChecks offsetSignedJwt [32, signedJwtPadded]
  let offsetVmClaim ← sumUsize overflowChecks offsetJwtSig [32, jwtSigPadded]
  let capacity ← sumUsize overflowChecks 4
    [headSize, 32, signedJwtPadded, 32, jwtSigPadded, 32, vmClaimPadded]
  withinCapacity capacity
  let out := functionSelector H submitStrictBoundSig ++
    (u256Be offsetSignedJwt ++ (u256Be offsetJwtSig ++ (kidHash.toBytes ++
      (u256Be offsetVmClaim ++ (gpuMeasurement.toBytes ++ (modelHash.toBytes ++
        (nrasSignerHash.toBytes ++ (paddedBytes signedJwtPayload ++
          (paddedBytes jwtSignature ++ paddedBytes vmMeasurementClaim)))))))))
  withinCapacity out.length
  .ok out

/-! ## The arguments -/

section Layout

variable (signedJwtPayload jwtSignature : List UInt8) (kidHash : B32)
  (vmMeasurementClaim : List UInt8) (gpuMeasurement modelHash nrasSignerHash : B32)

def arguments : List Component :=
  [.bytes signedJwtPayload, .bytes jwtSignature, .word kidHash.toBytes,
    .bytes vmMeasurementClaim, .word gpuMeasurement.toBytes, .word modelHash.toBytes,
    .word nrasSignerHash.toBytes]

/-- The types of the signature. -/
def argumentKinds : List Kind := [.bytes, .bytes, .word, .bytes, .word, .word, .word]

/-- The length of the calldata. -/
def calldataLength : Nat :=
  4 + 32 * 7 + (32 + paddedLen signedJwtPayload.length) + (32 + paddedLen jwtSignature.length) +
    (32 + paddedLen vmMeasurementClaim.length)

end Layout

/-- From a start to an end stand a byte string's length, the byte string, and zeros up
to a whole word. -/
structure TailIn (data : List UInt8) (start stop : Nat) (bytes : List UInt8) : Prop where
  ordered : start < stop
  inside : stop ≤ data.length
  content : (data.drop start).take (stop - start) =
    toBE 32 bytes.length ++ (bytes ++ List.replicate (Component.padding bytes.length) 0)
  aligned : (stop - start) % 32 = 0

/-! ## Words and tails -/

theorem paddedLen_eq (n : Nat) : paddedLen n = n + Component.padding n := by
  unfold paddedLen Component.padding
  omega

theorem beNat_zeros (n : Nat) : beNat (List.replicate n 0) = 0 := by
  induction n with
  | zero => rfl
  | succ n ih => simp [List.replicate_succ, beNat, ih]

theorem u256Be_length (v : Nat) : (u256Be v).length = 32 := by simp [u256Be]

/-- A `u128` is written as the word of its value. -/
theorem u256Be_eq {v : Nat} (h : v < 2 ^ 64) : u256Be v = toBE 32 v := by
  have hsmall : v < 256 ^ 16 := h.trans (by norm_num)
  have hbig : v < 256 ^ 32 := h.trans (by norm_num)
  apply beNat_injective (by simp [u256Be])
  rw [u256Be, beNat_append, beNat_toBE hsmall, beNat_toBE hbig, beNat_zeros, Nat.zero_mul,
    Nat.zero_add]

theorem paddedBytes_length (b : List UInt8) :
    (paddedBytes b).length = 32 + paddedLen b.length := by
  have hpad := paddedLen_eq b.length
  simp only [paddedBytes, List.length_append, u256Be_length, List.length_replicate]
  omega

theorem paddedBytes_eq {b : List UInt8} (h : b.length < 2 ^ 64) :
    paddedBytes b = (Component.bytes b).tail := by
  rw [paddedBytes, u256Be_eq h, paddedLen_eq, Nat.add_sub_cancel_left]
  rfl

/-! ## Sums -/

/-- A sum that fits does not overflow. -/
theorem sumUsize_ok {overflowChecks : Bool} {start : Nat} {values : List Nat}
    (h : start + values.sum < 2 ^ 64) :
    (sumUsize overflowChecks start values : Checked ε Nat) = .ok (start + values.sum) := by
  induction values generalizing start with
  | nil => rfl
  | cons v rest ih =>
      rw [List.sum_cons] at h
      have hadd : (addUsize overflowChecks start v : Checked ε Nat) = .ok (start + v) := by
        rw [addUsize, if_pos (by omega)]
      have hrest := @ih (start + v) (by omega)
      rw [sumUsize, List.foldlM_cons, bind_of_ok hadd]
      rw [sumUsize] at hrest
      rw [hrest, List.sum_cons, Nat.add_assoc]

/-- A sum panics or gives some value. -/
theorem sumUsize_cases (overflowChecks : Bool) (start : Nat) (values : List Nat) :
    (sumUsize overflowChecks start values : Checked ε Nat) = .error .panic ∨
      ∃ n, (sumUsize overflowChecks start values : Checked ε Nat) = .ok n := by
  induction values generalizing start with
  | nil => exact .inr ⟨start, rfl⟩
  | cons v rest ih =>
      have hadd : (addUsize overflowChecks start v : Checked ε Nat) = .error .panic ∨
          ∃ n, (addUsize overflowChecks start v : Checked ε Nat) = .ok n := by
        unfold addUsize
        split_ifs
        · exact .inr ⟨_, rfl⟩
        · exact .inl rfl
        · exact .inr ⟨_, rfl⟩
      unfold sumUsize
      rw [List.foldlM_cons]
      rcases hadd with hpanic | ⟨n, hn⟩
      · rw [hpanic]
        exact .inl rfl
      · rw [bind_of_ok hn]
        exact ih n

/-! ## The layout -/

section

variable {signedJwtPayload jwtSignature : List UInt8} {kidHash : B32}
  {vmMeasurementClaim : List UInt8} {gpuMeasurement modelHash nrasSignerHash : B32}

theorem functionSelector_length (H : Hashes) (sig : String) :
    (functionSelector H sig).length = 4 := by
  rw [functionSelector, List.length_take, FixedBytes.toBytes_length]
  rfl

theorem arguments_fit :
    ∀ c ∈ arguments signedJwtPayload jwtSignature kidHash vmMeasurementClaim gpuMeasurement
      modelHash nrasSignerHash, c.Fits := by
  simp [arguments, Component.Fits]

theorem tail_length (b : List UInt8) :
    (Component.bytes b).tail.length = 32 + paddedLen b.length := by
  have hpad := paddedLen_eq b.length
  simp only [Component.tail, List.length_append, toBE_length, List.length_replicate]
  omega

theorem encode_arguments_length :
    4 + (AbiLayout.encode (arguments signedJwtPayload jwtSignature kidHash vmMeasurementClaim
      gpuMeasurement modelHash nrasSignerHash)).length =
      calldataLength signedJwtPayload jwtSignature vmMeasurementClaim := by
  rw [encode_length arguments_fit]
  simp only [arguments, tails_cons, List.length_append, tail_length, Component.tail_word,
    tails_nil, List.length_nil, List.length_cons, calldataLength]
  omega

/-- Calldata that a `Vec` can hold is the selector and the standard encoding of the
arguments. -/
theorem encode_of_fits (overflowChecks : Bool) (H : Hashes)
    (h : calldataLength signedJwtPayload jwtSignature vmMeasurementClaim ≤ isizeMax) :
    (encodeSubmitStrictBoundCalldata overflowChecks H signedJwtPayload jwtSignature kidHash
      vmMeasurementClaim gpuMeasurement modelHash nrasSignerHash : Checked ε (List UInt8)) =
      .ok (functionSelector H submitStrictBoundSig ++
        AbiLayout.encode (arguments signedJwtPayload jwtSignature kidHash vmMeasurementClaim
          gpuMeasurement modelHash nrasSignerHash)) := by
  have hlength := @encode_arguments_length signedJwtPayload jwtSignature kidHash
    vmMeasurementClaim gpuMeasurement modelHash nrasSignerHash
  have ha := paddedLen_eq signedJwtPayload.length
  have hb := paddedLen_eq jwtSignature.length
  have hc := paddedLen_eq vmMeasurementClaim.length
  have hmax : isizeMax < 2 ^ 63 := by decide
  unfold calldataLength at h
  have hsum₁ : (sumUsize overflowChecks (32 * 7) [32, paddedLen signedJwtPayload.length] :
      Checked ε Nat) = .ok _ := sumUsize_ok (by simp; omega)
  have hsum₂ : (sumUsize overflowChecks (32 * 7 + [32, paddedLen signedJwtPayload.length].sum)
      [32, paddedLen jwtSignature.length] : Checked ε Nat) = .ok _ :=
    sumUsize_ok (by simp; omega)
  have hsum₃ : (sumUsize overflowChecks 4 [32 * 7, 32, paddedLen signedJwtPayload.length, 32,
      paddedLen jwtSignature.length, 32, paddedLen vmMeasurementClaim.length] :
      Checked ε Nat) = .ok _ := sumUsize_ok (by simp; omega)
  have hcapacity : (withinCapacity (4 + [32 * 7, 32, paddedLen signedJwtPayload.length, 32,
      paddedLen jwtSignature.length, 32, paddedLen vmMeasurementClaim.length].sum) :
      Checked ε Unit) = .ok () := by
    rw [withinCapacity, if_pos (by simp; omega)]
  unfold encodeSubmitStrictBoundCalldata
  dsimp only
  rw [bind_of_ok hsum₁, bind_of_ok hsum₂, bind_of_ok hsum₃, bind_of_ok hcapacity,
    u256Be_eq (by norm_num), u256Be_eq (by simp; omega), u256Be_eq (by simp; omega),
    paddedBytes_eq (by omega), paddedBytes_eq (by omega), paddedBytes_eq (by omega)]
  have hout : functionSelector H submitStrictBoundSig ++
      (toBE 32 (32 * 7) ++ (toBE 32 (32 * 7 + [32, paddedLen signedJwtPayload.length].sum) ++
        (kidHash.toBytes ++ (toBE 32 (32 * 7 + [32, paddedLen signedJwtPayload.length].sum +
          [32, paddedLen jwtSignature.length].sum) ++ (gpuMeasurement.toBytes ++
            (modelHash.toBytes ++ (nrasSignerHash.toBytes ++
              ((Component.bytes signedJwtPayload).tail ++ ((Component.bytes jwtSignature).tail ++
                (Component.bytes vmMeasurementClaim).tail))))))))) =
      functionSelector H submitStrictBoundSig ++
        AbiLayout.encode (arguments signedJwtPayload jwtSignature kidHash vmMeasurementClaim
          gpuMeasurement modelHash nrasSignerHash) := by
    simp [arguments, AbiLayout.encode, heads, Component.head, tail_length]
  have hfits : (withinCapacity (functionSelector H submitStrictBoundSig ++
      AbiLayout.encode (arguments signedJwtPayload jwtSignature kidHash vmMeasurementClaim
        gpuMeasurement modelHash nrasSignerHash)).length : Checked ε Unit) = .ok () := by
    rw [List.length_append, functionSelector_length, hlength, withinCapacity, calldataLength,
      if_pos h]
  rw [hout, bind_of_ok hfits]

/-- A `Vec` cannot hold longer calldata, whatever the offsets came to. -/
theorem encode_of_long (overflowChecks : Bool) (H : Hashes)
    (h : isizeMax < calldataLength signedJwtPayload jwtSignature vmMeasurementClaim) :
    (encodeSubmitStrictBoundCalldata overflowChecks H signedJwtPayload jwtSignature kidHash
      vmMeasurementClaim gpuMeasurement modelHash nrasSignerHash : Checked ε (List UInt8)) =
      .error .panic := by
  unfold encodeSubmitStrictBoundCalldata
  dsimp only
  rcases sumUsize_cases (ε := ε) overflowChecks (32 * 7) [32, paddedLen signedJwtPayload.length]
    with h₁ | ⟨offsetJwtSig, h₁⟩
  · rw [h₁]
    rfl
  rw [bind_of_ok h₁]
  rcases sumUsize_cases (ε := ε) overflowChecks offsetJwtSig [32, paddedLen jwtSignature.length]
    with h₂ | ⟨offsetVmClaim, h₂⟩
  · rw [h₂]
    rfl
  rw [bind_of_ok h₂]
  rcases sumUsize_cases (ε := ε) overflowChecks 4 [32 * 7, 32, paddedLen signedJwtPayload.length,
    32, paddedLen jwtSignature.length, 32, paddedLen vmMeasurementClaim.length]
    with h₃ | ⟨capacity, h₃⟩
  · rw [h₃]
    rfl
  rw [bind_of_ok h₃]
  by_cases hcapacity : capacity ≤ isizeMax
  · have hfits : (withinCapacity capacity : Checked ε Unit) = .ok () := by
      rw [withinCapacity, if_pos hcapacity]
    rw [bind_of_ok hfits, withinCapacity, if_neg]
    · rfl
    · simp only [List.length_append, functionSelector_length, u256Be_length,
        FixedBytes.toBytes_length, paddedBytes_length]
      unfold calldataLength at h
      omega
  · rw [withinCapacity, if_neg hcapacity]
    rfl

/-- The tail of a byte string among the arguments. -/
theorem tailIn_encode {front back : List Component} {b : List UInt8}
    (hfit : ∀ d ∈ front ++ .bytes b :: back, d.Fits) :
    TailIn (AbiLayout.encode (front ++ .bytes b :: back)) (offset front back)
      (offset front back + (32 + paddedLen b.length)) b := by
  have hlen := encode_length_at hfit
  have htake := take_tail hfit
  rw [tail_length] at hlen htake
  constructor
  · omega
  · omega
  · rw [Nat.add_sub_cancel_left, htake]
    rfl
  · rw [Nat.add_sub_cancel_left, paddedLen]
    omega

/-- The offset of an argument is the word in its place. -/
theorem offset_encode {front back : List Component} {b : List UInt8}
    (hfit : ∀ d ∈ front ++ .bytes b :: back, d.Fits)
    (hlen : (AbiLayout.encode (front ++ .bytes b :: back)).length ≤ isizeMax) :
    (AbiLayout.wordAt (AbiLayout.encode (front ++ .bytes b :: back)) (32 * front.length)).map beNat =
      some (offset front back) := by
  have hall := encode_length_at hfit
  have hmax : isizeMax < 256 ^ 32 := by decide
  rw [wordAt_encode hfit, Option.map_some, Component.head, beNat_toBE (by omega)]

end

/-- Standard decoding of the calldata recovers the arguments, and the three offsets are
where the tails are, one behind the other to the end; only arguments of more than
`isize::MAX` bytes have no calldata. -/
theorem calldata_decodes (overflowChecks : Bool) (H : Hashes)
    (signedJwtPayload jwtSignature : List UInt8) (kidHash : B32)
    (vmMeasurementClaim : List UInt8) (gpuMeasurement modelHash nrasSignerHash : B32) :
    if calldataLength signedJwtPayload jwtSignature vmMeasurementClaim ≤ isizeMax then
      ∃ out o₁ o₂ o₃,
        (encodeSubmitStrictBoundCalldata overflowChecks H signedJwtPayload jwtSignature kidHash
          vmMeasurementClaim gpuMeasurement modelHash nrasSignerHash : Checked ε (List UInt8)) =
          .ok (functionSelector H submitStrictBoundSig ++ out) ∧
        decode argumentKinds out = some (arguments signedJwtPayload jwtSignature kidHash
          vmMeasurementClaim gpuMeasurement modelHash nrasSignerHash) ∧
        (AbiLayout.wordAt out 0).map beNat = some o₁ ∧ (AbiLayout.wordAt out 32).map beNat = some o₂ ∧
        (AbiLayout.wordAt out 96).map beNat = some o₃ ∧ 32 * argumentKinds.length ≤ o₁ ∧
        TailIn out o₁ o₂ signedJwtPayload ∧ TailIn out o₂ o₃ jwtSignature ∧
        TailIn out o₃ out.length vmMeasurementClaim
    else
      (encodeSubmitStrictBoundCalldata overflowChecks H signedJwtPayload jwtSignature kidHash
        vmMeasurementClaim gpuMeasurement modelHash nrasSignerHash : Checked ε (List UInt8)) =
        .error .panic := by
  split
  case isFalse hlong => exact encode_of_long overflowChecks H (Nat.lt_of_not_le hlong)
  case isTrue hfits =>
    have hlength := @encode_arguments_length signedJwtPayload jwtSignature kidHash
      vmMeasurementClaim gpuMeasurement modelHash nrasSignerHash
    have hfit := @arguments_fit signedJwtPayload jwtSignature kidHash vmMeasurementClaim
      gpuMeasurement modelHash nrasSignerHash
    have hmax : isizeMax < 256 ^ 32 := by decide
    have hle : (AbiLayout.encode (arguments signedJwtPayload jwtSignature kidHash
        vmMeasurementClaim gpuMeasurement modelHash nrasSignerHash)).length ≤ isizeMax := by
      omega
    have hdecode := decode_encode hfit (by omega)
    -- the byte strings are the first, second and fourth arguments
    have ho₁ := @offset_encode [] [.bytes jwtSignature, .word kidHash.toBytes,
      .bytes vmMeasurementClaim, .word gpuMeasurement.toBytes, .word modelHash.toBytes,
      .word nrasSignerHash.toBytes] signedJwtPayload hfit hle
    have ho₂ := @offset_encode [.bytes signedJwtPayload] [.word kidHash.toBytes,
      .bytes vmMeasurementClaim, .word gpuMeasurement.toBytes, .word modelHash.toBytes,
      .word nrasSignerHash.toBytes] jwtSignature hfit hle
    have ho₃ := @offset_encode [.bytes signedJwtPayload, .bytes jwtSignature,
      .word kidHash.toBytes] [.word gpuMeasurement.toBytes, .word modelHash.toBytes,
      .word nrasSignerHash.toBytes] vmMeasurementClaim hfit hle
    have ht₁ := @tailIn_encode [] [.bytes jwtSignature, .word kidHash.toBytes,
      .bytes vmMeasurementClaim, .word gpuMeasurement.toBytes, .word modelHash.toBytes,
      .word nrasSignerHash.toBytes] signedJwtPayload hfit
    have ht₂ := @tailIn_encode [.bytes signedJwtPayload] [.word kidHash.toBytes,
      .bytes vmMeasurementClaim, .word gpuMeasurement.toBytes, .word modelHash.toBytes,
      .word nrasSignerHash.toBytes] jwtSignature hfit
    have ht₃ := @tailIn_encode [.bytes signedJwtPayload, .bytes jwtSignature,
      .word kidHash.toBytes] [.word gpuMeasurement.toBytes, .word modelHash.toBytes,
      .word nrasSignerHash.toBytes] vmMeasurementClaim hfit
    have hend := @encode_length_at [.bytes signedJwtPayload, .bytes jwtSignature,
      .word kidHash.toBytes] [.word gpuMeasurement.toBytes, .word modelHash.toBytes,
      .word nrasSignerHash.toBytes] (.bytes vmMeasurementClaim) hfit
    simp only [offset, tails_cons, tails_nil, tail_length, Component.tail_word, List.length_append,
      List.length_cons, List.length_nil, Nat.zero_add, Nat.add_zero, Nat.mul_zero,
      Nat.reduceAdd, Nat.reduceMul, ← Nat.add_assoc] at ho₁ ho₂ ho₃ ht₁ ht₂ ht₃ hend
    rw [← hend] at ht₃
    exact ⟨_, _, _, _, encode_of_fits overflowChecks H hfits, hdecode, ho₁, ho₂, ho₃,
      Nat.le_refl _, ht₁, ht₂, ht₃⟩

end Attestation
end Worker
end ComputePool
