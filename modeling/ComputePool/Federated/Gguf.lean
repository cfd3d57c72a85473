import ComputePool.Rust.Text
import ComputePool.Rust.Slice
import ComputePool.Lib.Codec

/-!
# GGUF adapters

A reader of GGUF versions 2 and 3 and a writer of version 3 (`fl/gguf.rs`), as
far as LoRA adapters need them.  A file is a header (metadata and a table of
tensors) and a data section; every length the header states is compared with the
bytes that remain before it is used.  Floats are kept as their bits.
-/

namespace ComputePool
namespace Federated

open RustStd Codec

/-- An `f32`, kept as its bits. -/
abbrev F32 := UInt32

/-- An `f64`, kept as its bits. -/
abbrev F64 := UInt64

namespace Gguf

/-- `b"GGUF"`. -/
def MAGIC : List UInt8 := [0x47, 0x47, 0x55, 0x46]

def DEFAULT_ALIGNMENT : Nat := 32

/-- Longest string a header may carry. -/
def MAX_STRING : Nat := 2 ^ 20

/-- Most entries in one metadata array. -/
def MAX_ARRAY : Nat := 2 ^ 24

def MAX_KV : Nat := 2 ^ 16

def MAX_TENSORS : Nat := 2 ^ 20

def MAX_DIMS : Nat := 4

/-- Arrays nest; a depth limit keeps recursion bounded. -/
def MAX_DEPTH : Nat := 4

def GGML_TYPE_F32 : UInt32 := 0

def GGML_TYPE_F16 : UInt32 := 1

def GGML_TYPE_BF16 : UInt32 := 30

/-- What `GgufError::Invalid` reports. -/
inductive Invalid where
  | alignment
  | notLora (path : String)
  | neitherLora (tensor : String)
  | dims (tensor : String) (hold got : Nat)
  deriving DecidableEq

/-- A read inside the bounds of the file does not fail, so there is no `Io`. -/
inductive GgufError where
  | badMagic
  | version (v : UInt32)
  | bounds (what : String)
  | valueType (ty : UInt32)
  | utf8
  | tensorType (name : String) (ty : UInt32)
  | tensorBounds (name : String)
  | misaligned (name : String)
  | duplicate (name : String)
  | invalid (what : Invalid)
  deriving DecidableEq

/-- A metadata value, kept in its declared type so a rewrite is faithful. -/
inductive Value where
  | u8 (v : UInt8)
  | i8 (v : Int8)
  | u16 (v : UInt16)
  | i16 (v : Int16)
  | u32 (v : UInt32)
  | i32 (v : Int32)
  | f32 (v : F32)
  | bool (v : Bool)
  | str (v : String)
  /-- Element type id and the elements. -/
  | array (elem : UInt32) (items : List Value)
  | u64 (v : UInt64)
  | i64 (v : Int64)
  | f64 (v : F64)

def Value.typeId : Value → UInt32
  | u8 _ => 0
  | i8 _ => 1
  | u16 _ => 2
  | i16 _ => 3
  | u32 _ => 4
  | i32 _ => 5
  | f32 _ => 6
  | bool _ => 7
  | str _ => 8
  | array _ _ => 9
  | u64 _ => 10
  | i64 _ => 11
  | f64 _ => 12

def Value.asStr : Value → Option String
  | str s => some s
  | _ => none

structure TensorInfo where
  name : String
  /-- GGML order: the first is the fastest-moving (row length). -/
  dims : List UInt64
  ggmlType : UInt32
  /-- Offset from the start of the data section. -/
  offset : UInt64
  deriving DecidableEq

/-- `u64::checked_mul` over the dimensions. -/
def elementsOf (dims : List UInt64) : Option Nat :=
  dims.foldlM (fun a d => checkedMul a d.toNat) 1

def TensorInfo.elements (t : TensorInfo) : Option Nat := elementsOf t.dims

/-- Bytes per value of a type that can be read. -/
def typeSize (ty : UInt32) : Option Nat :=
  if ty = GGML_TYPE_F32 then some 4
  else if ty = GGML_TYPE_F16 ∨ ty = GGML_TYPE_BF16 then some 2
  else none

def TensorInfo.byteLen (t : TensorInfo) : Option Nat := do
  let per ← typeSize t.ggmlType
  let n ← t.elements
  checkedMul n per

/-- A header. -/
structure Header where
  version : UInt32
  kv : List (String × Value)
  tensors : List TensorInfo
  alignment : Nat
  /-- Absolute file offset of the data section. -/
  dataOffset : Nat
  fileLen : Nat

def lookup (kv : List (String × Value)) (key : String) : Option Value :=
  (kv.find? fun e => e.1 = key).map Prod.snd

def Header.get (g : Header) (key : String) : Option Value := lookup g.kv key

/-- True when the metadata says this is a llama.cpp LoRA adapter. -/
def Header.isLoraAdapter (g : Header) : Bool :=
  (g.get "general.type").bind Value.asStr = some "adapter" ∧
    (g.get "adapter.type").bind Value.asStr = some "lora"

/-! ## Reading -/

/-- The cursor's position is the file's length less what is left. -/
abbrev Cursor := Reader GgufError

def take (n : Nat) (what : String) : Cursor (List UInt8) := fun s =>
  if n > s.length then .error (.bounds what) else .ok (s.take n, s.drop n)

/-- A little-endian number of `n` bytes. -/
def scalar {α : Type} (n : Nat) (of : Nat → α) (what : String) : Cursor α :=
  (fun bytes => of (leNat bytes)) <$> take n what

def u32 (what : String) : Cursor UInt32 := scalar 4 UInt32.ofNat what

def u64 (what : String) : Cursor UInt64 := scalar 8 UInt64.ofNat what

/-- `String::from_utf8(bytes).map_err(|_| GgufError::Utf8)`. -/
def text (bytes : List UInt8) : Cursor String :=
  match fromUtf8 bytes with
  | some s => pure s
  | none => throw .utf8

def string (what : String) : Cursor String := do
  let n ← u64 what
  if n.toNat > MAX_STRING then throw (.bounds what)
  else take n.toNat what >>= text

/-- `left` is how much deeper arrays may nest, `MAX_DEPTH - depth`. -/
def value (left : Nat) (ty : UInt32) : Cursor Value :=
  match ty with
  | 0 => Value.u8 <$> scalar 1 UInt8.ofNat "u8"
  | 1 => Value.i8 <$> scalar 1 (fun n => (UInt8.ofNat n).toInt8) "i8"
  | 2 => Value.u16 <$> scalar 2 UInt16.ofNat "u16"
  | 3 => Value.i16 <$> scalar 2 (fun n => (UInt16.ofNat n).toInt16) "i16"
  | 4 => Value.u32 <$> u32 "u32"
  | 5 => Value.i32 <$> scalar 4 (fun n => (UInt32.ofNat n).toInt32) "i32"
  | 6 => Value.f32 <$> scalar 4 UInt32.ofNat "f32"
  | 7 => Value.bool <$> scalar 1 (fun n => decide (UInt8.ofNat n ≠ 0)) "bool"
  | 8 => Value.str <$> string "string value"
  | 9 =>
      match left with
      | 0 => throw (.bounds "array nesting")
      | left + 1 => do
          let elem ← u32 "array type"
          let n ← u64 "array length"
          let remaining ← get
          -- every element is at least one byte
          if n.toNat > MAX_ARRAY ∨ n.toNat > remaining.length then
            throw (.bounds "array length")
          else do
            let items ← times (value left elem) n.toNat
            pure (Value.array elem items)
  | 10 => Value.u64 <$> u64 "u64"
  | 11 => Value.i64 <$> scalar 8 (fun n => (UInt64.ofNat n).toInt64) "i64"
  | 12 => Value.f64 <$> scalar 8 UInt64.ofNat "f64"
  | other => throw (.valueType other)

/-- One metadata entry. -/
def entry : Cursor (String × Value) := do
  let key ← string "key"
  let ty ← u32 "value type"
  let v ← value MAX_DEPTH ty
  pure (key, v)

/-- One row of the tensor table. -/
def tensorInfo : Cursor TensorInfo := do
  let name ← string "tensor name"
  let nd ← u32 "tensor dims"
  if nd.toNat = 0 ∨ nd.toNat > MAX_DIMS then throw (.bounds "tensor dims")
  else do
    let dims ← times (u64 "tensor dim") nd.toNat
    let ggmlType ← u32 "tensor type"
    let offset ← u64 "tensor offset"
    pure ⟨name, dims, ggmlType, offset⟩

/-- The table, with the names already seen. -/
def tensorTable : Nat → List String → Cursor (List TensorInfo)
  | 0, _ => pure []
  | n + 1, names => do
      let t ← tensorInfo
      if t.name ∈ names then throw (.duplicate t.name)
      else do
        let rest ← tensorTable n (t.name :: names)
        pure (t :: rest)

/-- The alignment of the data section. -/
def alignmentOf (kv : List (String × Value)) : Except GgufError Nat :=
  match lookup kv "general.alignment" with
  | some (.u32 a) =>
      if a > 0 ∧ a.toNat.isPowerOfTwo then .ok a.toNat else .error (.invalid .alignment)
  | some _ => .error (.invalid .alignment)
  | none => .ok DEFAULT_ALIGNMENT

/-- `pos.div_ceil(alignment) * alignment`. -/
def alignUp (pos alignment : Nat) : Nat := (pos + alignment - 1) / alignment * alignment

/-- The version, the metadata and the tensor table. -/
def headerFields : Cursor (UInt32 × List (String × Value) × List TensorInfo) := do
  let magic ← take 4 "magic"
  if magic ≠ MAGIC then throw .badMagic
  else do
    let version ← u32 "version"
    if version ≠ 2 ∧ version ≠ 3 then throw (.version version)
    else do
      let nTensors ← u64 "tensor count"
      let nKv ← u64 "kv count"
      if nTensors.toNat > MAX_TENSORS then throw (.bounds "tensor count")
      else if nKv.toNat > MAX_KV then throw (.bounds "kv count")
      else do
        let kv ← times entry nKv.toNat
        let tensors ← tensorTable nTensors.toNat []
        pure (version, kv, tensors)

/-- Read the header (metadata and tensor table) without reading tensor data. -/
def readHeader (file : List UInt8) : Except GgufError Header := do
  let ((version, kv, tensors), rest) ← headerFields file
  let alignment ← alignmentOf kv
  let dataOffset := alignUp (file.length - rest.length) alignment
  if dataOffset > file.length then .error (.bounds "data section")
  else
    match tensors.find? fun t => t.offset.toNat % alignment ≠ 0 with
    | some t => .error (.misaligned t.name)
    | none =>
        .ok
          { version := version
            kv := kv
            tensors := tensors
            alignment := alignment
            dataOffset := dataOffset
            fileLen := file.length }

/-! ## Tensor data -/

/-- Shift a subnormal mantissa up to its leading bit; it has at most ten bits. -/
def normalise : Nat → Nat → UInt32 → Nat × UInt32
  | 0, e, m => (e, m)
  | fuel + 1, e, m => if m &&& 0x400 = 0 then normalise fuel (e - 1) (m <<< 1) else (e, m)

/-- IEEE half to single, exact.  `e` is kept with the bias of 127 already added. -/
def f16ToF32 (h : UInt16) : F32 :=
  let sign : UInt32 := (h >>> 15).toUInt32 <<< 31
  let exp : UInt32 := ((h >>> 10) &&& 0x1f).toUInt32
  let man : UInt32 := (h &&& 0x3ff).toUInt32
  if exp = 0 then
    if man = 0 then sign
    else
      let (e, m) := normalise 10 (127 - 14) man
      sign ||| (UInt32.ofNat e <<< (23 : UInt32)) ||| ((m &&& 0x3ff) <<< (13 : UInt32))
  else if exp = 0x1f then
    if man = 0 then sign ||| 0x7f800000
    else sign ||| 0x7f800000 ||| (man <<< (13 : UInt32)) ||| 0x00400000
  else sign ||| ((exp + 112) <<< (23 : UInt32)) ||| (man <<< (13 : UInt32))

/-- `as_chunks::<4>().0`, each read as a little-endian number. -/
def words4 : List UInt8 → List UInt32
  | b0 :: b1 :: b2 :: b3 :: rest => UInt32.ofNat (leNat [b0, b1, b2, b3]) :: words4 rest
  | _ => []

/-- `as_chunks::<2>().0`, each read as a little-endian number. -/
def words2 : List UInt8 → List UInt16
  | b0 :: b1 :: rest => UInt16.ofNat (leNat [b0, b1]) :: words2 rest
  | _ => []

/-- The values of a type that can be read. -/
def decodeValues (ty : UInt32) (bytes : List UInt8) : List F32 :=
  if ty = GGML_TYPE_F32 then words4 bytes
  else if ty = GGML_TYPE_F16 then (words2 bytes).map f16ToF32
  else (words2 bytes).map fun w => w.toUInt32 <<< (16 : UInt32)

/-- `u64::checked_add`. -/
def checkedAdd (a b : Nat) : Option Nat := if a + b ≤ 2 ^ 64 - 1 then some (a + b) else none

/-- Read one tensor's values as `f32`. -/
def readTensorF32 (file : List UInt8) (g : Header) (t : TensorInfo) :
    Except GgufError (List F32) := do
  let bytes ← okOr t.byteLen (.tensorType t.name t.ggmlType)
  let start ← okOr (checkedAdd g.dataOffset t.offset.toNat) (.tensorBounds t.name)
  let stop ← okOr (checkedAdd start bytes) (.tensorBounds t.name)
  if stop > g.fileLen then .error (.tensorBounds t.name)
  else .ok (decodeValues t.ggmlType ((file.drop start).take bytes))

end Gguf

/-- A LoRA adapter loaded into memory: the header, and every tensor as `f32` in the
file's tensor order. -/
structure Adapter where
  header : Gguf.Header
  values : List (List F32)

namespace Adapter

open Gguf

/-- `name.ends_with(".lora_a") || name.ends_with(".lora_b")`. -/
def loraName (name : String) : Bool :=
  ".lora_a".toList.isSuffixOf name.toList || ".lora_b".toList.isSuffixOf name.toList

/-- The values of every tensor, in file order. -/
def loadValues (file : List UInt8) (header : Header) :
    List TensorInfo → Except GgufError (List (List F32))
  | [] => .ok []
  | t :: rest =>
      if ¬ loraName t.name then .error (.invalid (.neitherLora t.name))
      else do
        let values ← readTensorF32 file header t
        let others ← loadValues file header rest
        .ok (values :: others)

/-- Load an adapter, refusing anything that is not a LoRA adapter or holds a
tensor this reader cannot represent exactly.  `path` names the file in errors. -/
def load (path : String) (file : List UInt8) : Except GgufError Adapter := do
  let header ← readHeader file
  if ¬ header.isLoraAdapter then .error (.invalid (.notLora path))
  else do
    let values ← loadValues file header header.tensors
    .ok ⟨header, values⟩

end Adapter

namespace Gguf

/-! ## Writing -/

def putStr (s : String) : List UInt8 := toLE 8 (utf8 s).length ++ utf8 s

mutual

def putValue : Value → List UInt8
  | .u8 x => [x]
  | .i8 x => toLE 1 x.toUInt8.toNat
  | .u16 x => toLE 2 x.toNat
  | .i16 x => toLE 2 x.toUInt16.toNat
  | .u32 x => toLE 4 x.toNat
  | .i32 x => toLE 4 x.toUInt32.toNat
  | .f32 x => toLE 4 x.toNat
  | .bool x => [if x then 1 else 0]
  | .str s => putStr s
  | .array elem items => toLE 4 elem.toNat ++ toLE 8 items.length ++ putValues items
  | .u64 x => toLE 8 x.toNat
  | .i64 x => toLE 8 x.toUInt64.toNat
  | .f64 x => toLE 8 x.toNat

/-- `for i in items { put_value(w, i)? }`. -/
def putValues : List Value → List UInt8
  | [] => []
  | v :: rest => putValue v ++ putValues rest

end

/-- One tensor to write: name, GGML dims and `f32` values. -/
structure OutTensor where
  name : String
  dims : List UInt64
  values : List F32
  deriving DecidableEq

def putEntry (e : String × Value) : List UInt8 :=
  putStr e.1 ++ toLE 4 e.2.typeId.toNat ++ putValue e.2

/-- One row of the tensor table. -/
def putTensorInfo (t : TensorInfo) : List UInt8 :=
  putStr t.name ++ toLE 4 t.dims.length ++ t.dims.flatMap (fun d => toLE 8 d.toNat) ++
    toLE 4 t.ggmlType.toNat ++ toLE 8 t.offset.toNat

/-- `u64` multiplication, panicking on overflow or wrapping, as `addUsize`. -/
def mulU64 {ε : Type} (overflowChecks : Bool) (a b : Nat) : Checked ε Nat :=
  if a * b < 2 ^ 64 then .ok (a * b)
  else if overflowChecks then .error .panic else .ok (a * b % 2 ^ 64)

/-- The rows of the table, each tensor after the one before it on the next
aligned offset. -/
def layOut (checks : Bool) (alignment : Nat) :
    Nat → List OutTensor → Checked GgufError (List TensorInfo)
  | _, [] => .ok []
  | offset, t :: rest => do
      let n ← t.dims.foldlM (fun a d => mulU64 checks a d.toNat) 1
      if n ≠ t.values.length then
        .error (.err (.invalid (.dims t.name n t.values.length)))
      else do
        let bytes ← mulU64 checks n 4
        let stop ← addUsize checks offset bytes
        let next ← mulU64 checks ((stop + alignment - 1) / alignment) alignment
        let others ← layOut checks alignment next rest
        .ok (⟨t.name, t.dims, GGML_TYPE_F32, UInt64.ofNat offset⟩ :: others)

/-- `out.resize(len, 0)`. -/
def resize (out : List UInt8) (len : Nat) : List UInt8 :=
  out.take len ++ List.replicate (len - out.length) 0

/-- The data section, each tensor at its own offset. -/
def writeData (checks : Bool) (dataStart : Nat) :
    List UInt8 → List (OutTensor × Nat) → Checked GgufError (List UInt8)
  | out, [] => .ok out
  | out, (t, offset) :: rest => do
      let start ← addUsize checks dataStart offset
      writeData checks dataStart
        (resize out start ++ t.values.flatMap fun v => toLE 4 v.toNat) rest

/-- Serialize a GGUF v3 file with `F32` tensors. `kv` is written verbatim;
alignment follows its `general.alignment` when present. -/
def encodeF32 (checks : Bool) (kv : List (String × Value)) (tensors : List OutTensor) :
    Checked GgufError (List UInt8) := do
  let alignment ← checked (alignmentOf kv)
  let infos ← layOut checks alignment 0 tensors
  let out := MAGIC ++ toLE 4 3 ++ toLE 8 tensors.length ++ toLE 8 kv.length ++
    kv.flatMap putEntry ++ infos.flatMap putTensorInfo
  let dataStart ← mulU64 checks ((out.length + alignment - 1) / alignment) alignment
  writeData checks dataStart (resize out dataStart)
    (tensors.zip (infos.map fun t => t.offset.toNat))

end Gguf
end Federated
end ComputePool
