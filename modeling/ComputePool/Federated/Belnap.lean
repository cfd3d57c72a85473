import ComputePool.Federated.Basic

/-!
# The `0x0110` Belnap aggregation wire format

Input (big-endian): `dim:u32 ‖ n:u32 ‖ embeddings[n·dim]:i64 ‖
confidences[n·dim]:i64 ‖ weights[n]:i64 ‖ threshold_pos:i64 ‖
threshold_neg:i64`, participant-major.  Output: `aggregated[dim]:i64 ‖
states[dim]:u8` (`fl/belnap.rs`).
-/

namespace ComputePool
namespace Federated

open RustStd

/-- Precompile cap on a chunk's width. -/
def MAX_DIM : Nat := 1024

/-- Precompile cap on the number of participants. -/
def MAX_N : Nat := 1024

/-- One unit on the Q16 grid. -/
def Q16_ONE : Int64 := 65536

/-- `i64::to_be_bytes`. -/
def beI64 (v : Int64) : List UInt8 := toBE 8 v.toUInt64.toNat

/-- `i64::from_be_bytes`. -/
def ofBeI64 (bytes : List UInt8) : Int64 := (UInt64.ofNat (beNat bytes)).toInt64

@[simp] theorem beI64_length (v : Int64) : (beI64 v).length = 8 :=
  toBE_length 8 _

theorem ofBeI64_beI64 (v : Int64) : ofBeI64 (beI64 v) = v := by
  have h : v.toUInt64.toNat < 256 ^ 8 := v.toUInt64.toNat_lt
  rw [ofBeI64, beI64, beNat_toBE h, UInt64.ofNat_toNat]
  exact Int64.toInt64_toUInt64 v

/-- The values of a row, big-endian. -/
def rowBytes (row : List Int64) : List UInt8 := row.flatMap beI64

/-- How each coordinate's confidence is set. -/
inductive ConfidenceRule where
  /-- Confidence 1.0 where the participant moved the coordinate, 0 where its
  delta is exactly zero. -/
  | nonzero
  deriving DecidableEq

def ConfidenceRule.code : ConfidenceRule → UInt8
  | nonzero => 1

def ConfidenceRule.confidence (rule : ConfidenceRule) (value : Int64) : Int64 :=
  match rule with
  | nonzero => if value = 0 then 0 else Q16_ONE

/-- How participants are weighted. -/
inductive WeightRule where
  /-- Every participant weighs `floor(1.0 / n)` on the Q16 grid. -/
  | uniform
  deriving DecidableEq

def WeightRule.code : WeightRule → UInt8
  | uniform => 1

def WeightRule.weights (rule : WeightRule) (n : Nat) : List Int64 :=
  match rule with
  | uniform => List.replicate n (Q16_ONE / Int64.ofNat (max n 1))

inductive BelnapWireError where
  | participants (n : Nat)
  | dim (dim : Nat)
  | ragged (index got dim : Nat)
  | outputLength (got want dim : Nat)
  | state (byte : UInt8)
  deriving DecidableEq

/-- The rules a round fixes for every chunk. -/
structure ChunkRules where
  confidence : ConfidenceRule
  weight : WeightRule
  thresholdPos : Int64
  thresholdNeg : Int64
  deriving DecidableEq

/-- The first row whose length is not `dim`, with its index. -/
def firstRagged (dim : Nat) (rows : List (List Int64)) : Option (Nat × List Int64) :=
  rows.zipIdx.findSome? fun (r, index) => if r.length = dim then none else some (index, r)

/-- Build the precompile input for one chunk. `rows[i]` is participant `i`'s
values for this chunk, participants in the round's canonical order. -/
def chunkInput (rows : List (List Int64)) (rules : ChunkRules) :
    Except BelnapWireError (List UInt8) :=
  let n := rows.length
  if n = 0 ∨ n > MAX_N then
    .error (.participants n)
  else
    let dim := (rows.headD []).length
    if dim = 0 ∨ dim > MAX_DIM then
      .error (.dim dim)
    else
      match firstRagged dim rows with
      | some (index, r) => .error (.ragged index r.length dim)
      | none =>
          .ok (toBE 4 dim ++ toBE 4 n
            ++ rows.flatMap rowBytes
            ++ rows.flatMap (fun r => rowBytes (r.map rules.confidence.confidence))
            ++ rowBytes (rules.weight.weights n)
            ++ beI64 rules.thresholdPos
            ++ beI64 rules.thresholdNeg)

/-- A decoded precompile output. -/
structure ChunkOutput where
  /-- Aggregated values, Q16 raw. -/
  values : List Int64
  /-- Belnap states: 0 Neither, 1 True, 2 False, 3 Both. -/
  states : List UInt8
  deriving DecidableEq

/-- `as_chunks::<8>().0` decoded value by value; a shorter tail is left out. -/
def beI64s : List UInt8 → List Int64
  | b0 :: b1 :: b2 :: b3 :: b4 :: b5 :: b6 :: b7 :: rest =>
      ofBeI64 [b0, b1, b2, b3, b4, b5, b6, b7] :: beI64s rest
  | _ => []

def parseOutput (bytes : List UInt8) (dim : Nat) : Except BelnapWireError ChunkOutput :=
  let want := 9 * dim
  if bytes.length ≠ want ∨ dim = 0 then
    .error (.outputLength bytes.length want dim)
  else
    let values := beI64s (bytes.take (8 * dim))
    let states := bytes.drop (8 * dim)
    match states.find? fun s => s > 3 with
    | some s => .error (.state s)
    | none => .ok { values, states }

/-- Decoding value by value undoes encoding a row. -/
theorem beI64s_rowBytes (row : List Int64) : beI64s (rowBytes row) = row := by
  induction row with
  | nil => rfl
  | cons v rest ih =>
      have hbytes := ofBeI64_beI64 v
      change beI64s (beI64 v ++ rowBytes rest) = v :: rest
      rw [beI64] at hbytes ⊢
      simp only [toBE, List.cons_append, List.nil_append, beI64s, ih]
      exact congrArg (· :: rest) hbytes

theorem rowBytes_length (row : List Int64) : (rowBytes row).length = 8 * row.length := by
  induction row with
  | nil => rfl
  | cons v rest ih =>
      change (beI64 v ++ rowBytes rest).length = _
      rw [List.length_append, beI64_length, ih, List.length_cons]
      omega

/-- Eight bytes are the encoding of the value they decode to. -/
theorem beI64_ofBeI64 {bytes : List UInt8} (h : bytes.length = 8) :
    beI64 (ofBeI64 bytes) = bytes := by
  have hfit : beNat bytes < 2 ^ 64 := by
    have hlt := beNat_lt bytes
    rw [h] at hlt
    exact hlt.trans_le (by decide)
  rw [beI64, ofBeI64, Int64.toUInt64, UInt64.toInt64]
  show toBE 8 (UInt64.ofNat (beNat bytes)).toNat = bytes
  rw [UInt64.toNat_ofNat_of_lt' hfit]
  conv_lhs => rw [← h]
  exact toBE_beNat bytes

/-- Encoding a row undoes decoding it, where no tail is left out. -/
theorem rowBytes_beI64s {n : Nat} {bytes : List UInt8} (h : bytes.length = 8 * n) :
    rowBytes (beI64s bytes) = bytes ∧ (beI64s bytes).length = n := by
  induction n generalizing bytes with
  | zero =>
      rw [List.length_eq_zero_iff.mp h]
      exact ⟨rfl, rfl⟩
  | succ n ih =>
      match bytes, h with
      | b0 :: b1 :: b2 :: b3 :: b4 :: b5 :: b6 :: b7 :: rest, h =>
          have hrest : rest.length = 8 * n := by
            simp only [List.length_cons] at h
            omega
          obtain ⟨hbytes, hlength⟩ := ih hrest
          constructor
          · show beI64 (ofBeI64 [b0, b1, b2, b3, b4, b5, b6, b7]) ++ rowBytes (beI64s rest) = _
            rw [beI64_ofBeI64 rfl, hbytes]
            rfl
          · rw [beI64s, List.length_cons, hlength]

end Federated
end ComputePool
