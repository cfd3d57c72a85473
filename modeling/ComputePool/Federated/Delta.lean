import ComputePool.Federated.Artifact
import ComputePool.Federated.GgufFile

/-!
# Deltas between adapters

The delta is `trained − start`, tensor by tensor in name order, on the Q16 grid;
`merge` puts an aggregated delta back on the start adapter (`fl/delta.rs`).  The
floating-point operations and the Q16 kernel come from outside the repository and
are a parameter.
-/

namespace ComputePool
namespace Federated

open RustStd Gguf

namespace Delta

/-- `b"citrate-fl-manifest/1"`. -/
def MANIFEST_DOMAIN : List UInt8 := ascii "citrate-fl-manifest/1"

/-- `MAX_SCALED_ABS`, the `f32` `2^30`. -/
def MAX_SCALED_ABS : F32 := 0x4e800000

/-- `65536.0f64`. -/
def Q16_UNIT : F64 := 0x40f0000000000000

/-- The operations on `f32` and `f64` that `compute` and `merge` use, and
`Q16::from_f32(x).raw()`. -/
structure FloatOps where
  isFinite : F32 → Bool
  sub : F32 → F32 → F32
  mul : F32 → F32 → F32
  abs : F32 → F32
  gt : F32 → F32 → Bool
  /-- `2.0f32.powi(n)`. -/
  powi2 : UInt8 → F32
  fromF32 : F32 → Int64
  /-- `f64::from`. -/
  widen : F32 → F64
  /-- `x as f64`. -/
  ofInt : Int64 → F64
  add64 : F64 → F64 → F64
  mul64 : F64 → F64 → F64
  div64 : F64 → F64 → F64
  /-- `2.0f64.powi(n)`. -/
  powi264 : UInt8 → F64
  /-- `x as f32`. -/
  narrow : F64 → F32

/-- A tensor in canonical order: its index in the file, its name and its dims. -/
structure Entry where
  index : Nat
  name : String
  dims : List UInt64
  deriving DecidableEq

/-- `x.1.cmp(y.1)` of two names, byte by byte. -/
def nameLe (x y : Entry) : Bool := decide (utf8 x.name ≤ utf8 y.name)

/-- The tensors of an adapter in canonical (name) order. -/
def canonical (a : Adapter) : List Entry :=
  (a.header.tensors.zipIdx.map fun e => (⟨e.2, e.1.name, e.1.dims⟩ : Entry)).mergeSort nameLe

/-- What a manifest hash covers of one tensor. -/
def entryBytes (e : Entry) : List UInt8 :=
  toBE 4 (utf8 e.name).length ++ utf8 e.name ++ toBE 4 e.dims.length ++
    e.dims.flatMap fun d => toBE 8 d.toNat

/-- The bytes a manifest hash is taken over. -/
def manifestBytes (a : Adapter) : List UInt8 :=
  MANIFEST_DOMAIN ++ toBE 4 (canonical a).length ++ (canonical a).flatMap entryBytes

/-- The layout every participant must share. -/
def manifestHash (H : Hashes) (a : Adapter) : B32 := keccak H [manifestBytes a]

/-- Number of values an adapter contributes. -/
def valueCount (a : Adapter) : Nat := (a.values.map List.length).sum

section Arithmetic

variable (ops : FloatOps)

/-- The scaled differences of one tensor, from element `index` on. -/
def tensorDeltas (name : String) (scale : F32) :
    Nat → List (F32 × F32) → Except DeltaError (List Int64)
  | _, [] => .ok []
  | index, (a, b) :: rest =>
      if ¬ ops.isFinite b ∨ ¬ ops.isFinite a then .error (.notFinite name index)
      else
        let scaled := ops.mul (ops.sub b a) scale
        if ¬ ops.isFinite scaled ∨ ops.gt (ops.abs scaled) MAX_SCALED_ABS then
          .error (.outOfRange name index scaled)
        else do
          let others ← tensorDeltas name scale (index + 1) rest
          .ok (ops.fromF32 scaled :: others)

/-- The tensors of both adapters side by side. -/
def computeLoop (start trained : Adapter) (scale : F32) :
    List (Entry × Entry) → Checked DeltaError (List Int64)
  | [] => .ok []
  | (s, t) :: rest =>
      if s.name ≠ t.name ∨ s.dims ≠ t.dims then
        .error (.err (.mismatch (.layout s.name s.dims t.name t.dims)))
      else do
        let sv ← indexAt start.values s.index
        let tv ← indexAt trained.values t.index
        if sv.length ≠ tv.length then .error (.err (.mismatch (.valueCounts s.name)))
        else do
          let head ← checked (tensorDeltas ops s.name scale 0 (sv.zip tv))
          let others ← computeLoop start trained scale rest
          .ok (head ++ others)

/-- `trained − start` on the Q16 grid, canonical order. -/
def compute (start trained : Adapter) (scaleLog2 : UInt8) : Checked DeltaError (List Int64) :=
  let s := canonical start
  let t := canonical trained
  if s.length ≠ t.length then .error (.err (.mismatch (.tensors s.length t.length)))
  else computeLoop ops start trained (ops.powi2 scaleLog2) (s.zip t)

/-- `(f64::from(v) + x as f64 / denom) as f32`. -/
def mergeValue (denom : F64) (v : F32) (x : Int64) : F32 :=
  ops.narrow (ops.add64 (ops.widen v) (ops.div64 (ops.ofInt x) denom))

/-- One tensor, its first value meeting the aggregate's value `k`. -/
def mergeTensor (agg : List Int64) (denom : F64) : Nat → List F32 → Checked DeltaError (List F32)
  | _, [] => .ok []
  | k, v :: rest => do
      let x ← indexAt agg k
      let others ← mergeTensor agg denom (k + 1) rest
      .ok (mergeValue ops denom v x :: others)

/-- The tensors in canonical order, each written back in its place. -/
def mergeLoop (agg : List Int64) (denom : F64) :
    Nat → List Entry → List (List F32) → Checked DeltaError (List (List F32))
  | _, [], merged => .ok merged
  | k, e :: rest, merged => do
      let values ← indexAt merged e.index
      let written ← mergeTensor ops agg denom k values
      mergeLoop agg denom (k + values.length) rest (merged.set e.index written)

/-- The start adapter plus an aggregated delta, back in the start adapter's own
tensor order. -/
def merge (start : Adapter) (agg : List Int64) (scaleLog2 : UInt8) :
    Checked DeltaError (List (List F32)) :=
  if agg.length ≠ valueCount start then
    .error (.err (.mismatch (.aggregate agg.length (valueCount start))))
  else
    mergeLoop ops agg (ops.mul64 Q16_UNIT (ops.powi264 scaleLog2)) 0 (canonical start) start.values

end Arithmetic

/-- The tensors `merged_gguf` writes. -/
def outTensors (start : Adapter) (merged : List (List F32)) : List OutTensor :=
  (start.header.tensors.zip merged).map fun e => ⟨e.1.name, e.1.dims, e.2⟩

/-- Serialize the merged adapter as GGUF, copying the start adapter's metadata. -/
def mergedGguf (overflowChecks : Bool) (start : Adapter) (merged : List (List F32)) :
    Checked DeltaError (List UInt8) :=
  match encodeF32 overflowChecks start.header.kv (outTensors start merged) with
  | .ok out => .ok out
  | .error .panic => .error .panic
  | .error (.err e) => .error (.err (.artifact (.gguf e)))

end Delta
end Federated
end ComputePool
