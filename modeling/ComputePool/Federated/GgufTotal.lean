import ComputePool.Lib.Tracked
import ComputePool.Federated.GgufFile

/-!
# Reading a hostile GGUF file

The reader of `fl/gguf.rs` with everything that could go wrong in it: the cursor's count
of bytes beside the reader it takes them from, 64-bit sums and products, vectors with a
capacity from the file, and a stack of bounded depth for nested arrays.  Reading past the
end of the file, an overflow, a capacity no vector can have and a full stack all panic
here.  None of them happens on any file, and what is read is what the plain reader reads.
-/

namespace ComputePool
namespace Federated
namespace Gguf

open RustStd Codec Tracked

/-- No element of a vector the reader fills is larger, in bytes. -/
def ELEMENT_BYTES : Nat := 64

namespace Raw

/-- `Vec::with_capacity(n)` of elements of `size` bytes. -/
def withCapacity (size n : Nat) : Checked GgufError Unit :=
  if size * n ≤ isizeMax then .ok () else .error .panic

variable (checks : Bool) (len : Nat)

/-- `Cursor::take`; `read_exact` panics past the end of the file. -/
def take (n : Nat) (what : String) : Counted GgufError (List UInt8) := fun c =>
  if n > len - c.pos then .error (.err (.bounds what))
  else do
    withCapacity 1 n
    let buf ← slice c.rest 0 n
    let pos ← addUsize checks c.pos n
    .ok (buf, ⟨c.rest.drop n, pos⟩)

/-- `Cursor::arr::<N>`; `copy_from_slice` panics on another length. -/
def arr (n : Nat) (what : String) : Counted GgufError (List UInt8) := do
  let v ← take checks len n what
  if v.length = n then pure v else throw .panic

def scalar {α : Type} (n : Nat) (of : Nat → α) (what : String) : Counted GgufError α :=
  (fun bytes => of (leNat bytes)) <$> arr checks len n what

def u32 (what : String) : Counted GgufError UInt32 := scalar checks len 4 UInt32.ofNat what

def u64 (what : String) : Counted GgufError UInt64 := scalar checks len 8 UInt64.ofNat what

def text (bytes : List UInt8) : Counted GgufError String :=
  match fromUtf8 bytes with
  | some s => pure s
  | none => throw (.err .utf8)

def string (what : String) : Counted GgufError String := do
  let n ← u64 checks len what
  if n.toNat > MAX_STRING then throw (.err (.bounds what))
  else take checks len n.toNat what >>= text

/-- `Cursor::value`, with room for `frames` nested calls. -/
def value (frames : Nat) (ty : UInt32) (depth : Nat) : Counted GgufError Value :=
  match frames with
  | 0 => throw .panic
  | frames + 1 =>
      match ty with
      | 0 => Value.u8 <$> scalar checks len 1 UInt8.ofNat "u8"
      | 1 => Value.i8 <$> scalar checks len 1 (fun n => (UInt8.ofNat n).toInt8) "i8"
      | 2 => Value.u16 <$> scalar checks len 2 UInt16.ofNat "u16"
      | 3 => Value.i16 <$> scalar checks len 2 (fun n => (UInt16.ofNat n).toInt16) "i16"
      | 4 => Value.u32 <$> u32 checks len "u32"
      | 5 => Value.i32 <$> scalar checks len 4 (fun n => (UInt32.ofNat n).toInt32) "i32"
      | 6 => Value.f32 <$> scalar checks len 4 UInt32.ofNat "f32"
      | 7 => Value.bool <$> scalar checks len 1 (fun n => decide (UInt8.ofNat n ≠ 0)) "bool"
      | 8 => Value.str <$> string checks len "string value"
      | 9 =>
          if depth ≥ MAX_DEPTH then throw (.err (.bounds "array nesting"))
          else do
            let elem ← u32 checks len "array type"
            let n ← u64 checks len "array length"
            let c ← get
            if n.toNat > MAX_ARRAY ∨ n.toNat > len - c.pos then
              throw (.err (.bounds "array length"))
            else do
              withCapacity ELEMENT_BYTES n.toNat
              let items ← times (value frames elem (depth + 1)) n.toNat
              pure (Value.array elem items)
      | 10 => Value.u64 <$> u64 checks len "u64"
      | 11 => Value.i64 <$> scalar checks len 8 (fun n => (UInt64.ofNat n).toInt64) "i64"
      | 12 => Value.f64 <$> scalar checks len 8 UInt64.ofNat "f64"
      | other => throw (.err (.valueType other))

def entry (frames : Nat) : Counted GgufError (String × Value) := do
  let key ← string checks len "key"
  let ty ← u32 checks len "value type"
  let v ← value checks len frames ty 0
  pure (key, v)

def tensorInfo : Counted GgufError TensorInfo := do
  let name ← string checks len "tensor name"
  let nd ← u32 checks len "tensor dims"
  if nd.toNat = 0 ∨ nd.toNat > MAX_DIMS then throw (.err (.bounds "tensor dims"))
  else do
    withCapacity ELEMENT_BYTES nd.toNat
    let dims ← times (u64 checks len "tensor dim") nd.toNat
    let ggmlType ← u32 checks len "tensor type"
    let offset ← u64 checks len "tensor offset"
    pure ⟨name, dims, ggmlType, offset⟩

def tensorTable : Nat → List String → Counted GgufError (List TensorInfo)
  | 0, _ => pure []
  | n + 1, names => do
      let t ← tensorInfo checks len
      if t.name ∈ names then throw (.err (.duplicate t.name))
      else do
        let rest ← tensorTable n (t.name :: names)
        pure (t :: rest)

def headerFields (frames : Nat) :
    Counted GgufError (UInt32 × List (String × Value) × List TensorInfo) := do
  let magic ← arr checks len 4 "magic"
  if magic ≠ MAGIC then throw (.err .badMagic)
  else do
    let version ← u32 checks len "version"
    if version ≠ 2 ∧ version ≠ 3 then throw (.err (.version version))
    else do
      let nTensors ← u64 checks len "tensor count"
      let nKv ← u64 checks len "kv count"
      if nTensors.toNat > MAX_TENSORS then throw (.err (.bounds "tensor count"))
      else if nKv.toNat > MAX_KV then throw (.err (.bounds "kv count"))
      else do
        withCapacity ELEMENT_BYTES nKv.toNat
        let kv ← times (entry checks len frames) nKv.toNat
        withCapacity ELEMENT_BYTES nTensors.toNat
        let tensors ← tensorTable checks len nTensors.toNat []
        pure (version, kv, tensors)

/-- `u64::div_ceil`, which panics on zero. -/
def divCeil (a b : Nat) : Checked GgufError Nat :=
  if b = 0 then .error .panic
  else if a % b > 0 then addUsize checks (a / b) 1 else .ok (a / b)

/-- `t.offset % alignment != 0` for each tensor; the remainder panics on zero. -/
def checkAligned (alignment : Nat) : List TensorInfo → Checked GgufError Unit
  | [] => .ok ()
  | t :: rest =>
      if alignment = 0 then .error .panic
      else if t.offset.toNat % alignment ≠ 0 then .error (.err (.misaligned t.name))
      else checkAligned alignment rest

/-- `read_header`, of a build with or without overflow checks. -/
def readHeader (frames : Nat) (file : List UInt8) : Checked GgufError Header := do
  let ((version, kv, tensors), c) ← headerFields checks file.length frames ⟨file, 0⟩
  let alignment ← checked (alignmentOf kv)
  let blocks ← divCeil checks c.pos alignment
  let dataOffset ← mulU64 checks blocks alignment
  if dataOffset > file.length then .error (.err (.bounds "data section"))
  else do
    checkAligned alignment tensors
    .ok
      { version := version
        kv := kv
        tensors := tensors
        alignment := alignment
        dataOffset := dataOffset
        fileLen := file.length }

/-- `read_tensor_f32`; `read_exact` panics past the end of the file. -/
def readTensorF32 (file : List UInt8) (g : Header) (t : TensorInfo) :
    Checked GgufError (List F32) := do
  let bytes ← checked (okOr t.byteLen (.tensorType t.name t.ggmlType))
  let start ← checked (okOr (checkedAdd g.dataOffset t.offset.toNat) (.tensorBounds t.name))
  let stop ← checked (okOr (checkedAdd start bytes) (.tensorBounds t.name))
  if stop > g.fileLen then .error (.err (.tensorBounds t.name))
  else do
    withCapacity 1 bytes
    let buf ← slice file start (start + bytes)
    .ok (decodeValues t.ggmlType buf)

end Raw

/-! ## The parts of the header -/

variable {checks : Bool} {len : Nat}

theorem withCapacity_of_le {size n : Nat} (h : size * n ≤ isizeMax) :
    Raw.withCapacity size n = .ok () := by
  rw [Raw.withCapacity, if_pos h]

/-- What the cursor has checked against its count is there to be read. -/
theorem take_tracks (hlen : len ≤ isizeMax) (n : Nat) (what : String) :
    Tracks len (Raw.take checks len n what) (take n what) where
  shrinks {rest _ _} _ hok := by
    unfold take at hok
    split at hok
    · cases hok
    · cases hok
      rw [List.length_drop]
      omega
  reads {rest a rest'} hrest hok := by
    have hmax : isizeMax = 2 ^ 63 - 1 := rfl
    unfold take at hok
    split at hok
    · cases hok
    · rename_i hfits
      cases hok
      have hcount : ¬ n > len - (len - rest.length) := by omega
      unfold Raw.take Position.within
      dsimp only
      rw [if_neg hcount, withCapacity_of_le (by omega), slice_of_le (Nat.zero_le n) (by omega),
        addUsize_of_lt (by omega)]
      have hpos : len - rest.length + n = len - (rest.drop n).length := by
        rw [List.length_drop]
        omega
      rw [← hpos]
      rfl
  fails {rest e} hrest herror := by
    unfold take at herror
    split at herror
    · rename_i hfits
      cases herror
      have hcount : n > len - (len - rest.length) := by omega
      unfold Raw.take Position.within
      dsimp only
      rw [if_pos hcount]
    · cases herror

theorem arr_tracks (hlen : len ≤ isizeMax) (n : Nat) (what : String) :
    Tracks len (Raw.arr checks len n what) (take n what) :=
  (take_tracks hlen n what).ensure fun hok => ((take_agrees n what).sound hok).1

theorem scalar_tracks {α : Type} (hlen : len ≤ isizeMax) (n : Nat) (of : Nat → α) (what : String) :
    Tracks len (Raw.scalar checks len n of what) (scalar n of what) :=
  (arr_tracks hlen n what).map _

theorem u32_tracks (hlen : len ≤ isizeMax) (what : String) :
    Tracks len (Raw.u32 checks len what) (u32 what) :=
  scalar_tracks hlen 4 _ what

theorem u64_tracks (hlen : len ≤ isizeMax) (what : String) :
    Tracks len (Raw.u64 checks len what) (u64 what) :=
  scalar_tracks hlen 8 _ what

theorem text_tracks (bytes : List UInt8) : Tracks len (Raw.text bytes) (text bytes) := by
  unfold Raw.text text
  cases fromUtf8 bytes with
  | some s => exact Tracks.pure s
  | none => exact Tracks.throw GgufError.utf8

theorem string_tracks (hlen : len ≤ isizeMax) (what : String) :
    Tracks len (Raw.string checks len what) (string what) := by
  refine (u64_tracks hlen what).bind fun n => Tracks.ite (fun _ => Tracks.throw _) fun _ => ?_
  exact (take_tracks hlen n.toNat what).bind text_tracks

theorem capacity_ok {n : Nat} (h : n ≤ 2 ^ 32) :
    Raw.withCapacity ELEMENT_BYTES n = .ok () := by
  have hmax : isizeMax = 2 ^ 63 - 1 := rfl
  have hsize : ELEMENT_BYTES = 64 := rfl
  apply withCapacity_of_le
  rw [hsize]
  omega

/-- The elements of an array: no more are made room for than the file has bytes. -/
theorem items_tracks {raw : Counted GgufError Value} {p : Cursor Value} (h : Tracks len raw p)
    (elem : UInt32) (n : Nat) :
    Tracks len
      (do
        let c ← get
        if n > MAX_ARRAY ∨ n > len - c.pos then throw (.err (.bounds "array length"))
        else do
          Raw.withCapacity ELEMENT_BYTES n
          let items ← Tracked.times raw n
          pure (Value.array elem items) : Counted GgufError Value)
      (do
        let remaining ← get
        if n > MAX_ARRAY ∨ n > remaining.length then throw (.bounds "array length")
        else do
          let items ← Codec.times p n
          pure (Value.array elem items) : Cursor Value) := by
  apply @Tracks.look GgufError Value len
    (fun pos => if n > MAX_ARRAY ∨ n > len - pos then throw (.err (.bounds "array length"))
      else do
        Raw.withCapacity ELEMENT_BYTES n
        let items ← Tracked.times raw n
        pure (Value.array elem items) : Nat → Counted GgufError Value)
    (fun left => if n > MAX_ARRAY ∨ n > left then throw (.bounds "array length")
      else do
        let items ← Codec.times p n
        pure (Value.array elem items) : Nat → Cursor Value)
  intro left hleft
  rw [Nat.sub_sub_self hleft]
  refine Tracks.ite (fun _ => Tracks.throw _) fun hfits => ?_
  have hcapacity : Raw.withCapacity ELEMENT_BYTES n = .ok () :=
    capacity_ok (by unfold MAX_ARRAY at hfits; omega)
  exact Tracks.after hcapacity ((h.times n).bind fun items => Tracks.pure _)

/-- The nesting limit is reached before the stack is full. -/
theorem value_tracks (hlen : len ≤ isizeMax) (frames depth left : Nat) (ty : UInt32)
    (hdepth : depth + left = MAX_DEPTH) (hframes : left < frames) :
    Tracks len (Raw.value checks len frames ty depth) (value left ty) := by
  induction frames generalizing depth left ty with
  | zero => exact absurd hframes (Nat.not_lt_zero left)
  | succ frames ih =>
      unfold Raw.value
      split
      · unfold value
        exact (scalar_tracks hlen 1 _ _).map _
      · unfold value
        exact (scalar_tracks hlen 1 _ _).map _
      · unfold value
        exact (scalar_tracks hlen 2 _ _).map _
      · unfold value
        exact (scalar_tracks hlen 2 _ _).map _
      · unfold value
        exact (u32_tracks hlen _).map _
      · unfold value
        exact (scalar_tracks hlen 4 _ _).map _
      · unfold value
        exact (scalar_tracks hlen 4 _ _).map _
      · unfold value
        exact (scalar_tracks hlen 1 _ _).map _
      · unfold value
        exact (string_tracks hlen _).map _
      · unfold value
        cases left with
        | zero =>
            have hdeep : depth ≥ MAX_DEPTH := by omega
            rw [if_pos hdeep]
            exact Tracks.throw _
        | succ left =>
            have hshallow : ¬ depth ≥ MAX_DEPTH := by omega
            rw [if_neg hshallow]
            refine (u32_tracks hlen _).bind fun elem => (u64_tracks hlen _).bind fun n => ?_
            exact items_tracks (ih (depth + 1) left elem (by omega) (by omega)) elem n.toNat
      · unfold value
        exact (u64_tracks hlen _).map _
      · unfold value
        exact (scalar_tracks hlen 8 _ _).map _
      · unfold value
        exact (scalar_tracks hlen 8 _ _).map _
      · unfold value
        split <;> first | contradiction | exact Tracks.throw _

theorem entry_tracks (hlen : len ≤ isizeMax) {frames : Nat} (hframes : MAX_DEPTH < frames) :
    Tracks len (Raw.entry checks len frames) entry := by
  refine (string_tracks hlen _).bind fun key => (u32_tracks hlen _).bind fun ty => ?_
  refine (value_tracks hlen frames 0 MAX_DEPTH ty (Nat.zero_add _) hframes).bind fun v => ?_
  exact Tracks.pure _

theorem tensorInfo_tracks (hlen : len ≤ isizeMax) :
    Tracks len (Raw.tensorInfo checks len) tensorInfo := by
  refine (string_tracks hlen _).bind fun name => (u32_tracks hlen _).bind fun nd => ?_
  refine Tracks.ite (fun _ => Tracks.throw _) fun hdims => ?_
  have hcapacity : Raw.withCapacity ELEMENT_BYTES nd.toNat = .ok () :=
    capacity_ok (by unfold MAX_DIMS at hdims; omega)
  refine Tracks.after hcapacity (((u64_tracks hlen _).times nd.toNat).bind fun dims => ?_)
  exact (u32_tracks hlen _).bind fun ty => (u64_tracks hlen _).bind fun offset => Tracks.pure _

theorem tensorTable_tracks (hlen : len ≤ isizeMax) (n : Nat) (names : List String) :
    Tracks len (Raw.tensorTable checks len n names) (tensorTable n names) := by
  induction n generalizing names with
  | zero => exact Tracks.pure []
  | succ n ih =>
      refine (tensorInfo_tracks hlen).bind fun t => Tracks.ite (fun _ => Tracks.throw _) fun _ => ?_
      exact (ih (t.name :: names)).bind fun rest => Tracks.pure _

theorem headerFields_tracks (hlen : len ≤ isizeMax) {frames : Nat} (hframes : MAX_DEPTH < frames) :
    Tracks len (Raw.headerFields checks len frames) headerFields := by
  refine (arr_tracks hlen 4 _).bind fun magic => Tracks.ite (fun _ => Tracks.throw _) fun _ => ?_
  refine (u32_tracks hlen _).bind fun version => Tracks.ite (fun _ => Tracks.throw _) fun _ => ?_
  refine (u64_tracks hlen _).bind fun nTensors => (u64_tracks hlen _).bind fun nKv => ?_
  refine Tracks.ite (fun _ => Tracks.throw _) fun htensors => ?_
  refine Tracks.ite (fun _ => Tracks.throw _) fun hkv => ?_
  have hkvRoom : Raw.withCapacity ELEMENT_BYTES nKv.toNat = .ok () :=
    capacity_ok (by unfold MAX_KV at hkv; omega)
  have htensorRoom : Raw.withCapacity ELEMENT_BYTES nTensors.toNat = .ok () :=
    capacity_ok (by unfold MAX_TENSORS at htensors; omega)
  refine Tracks.after hkvRoom (((entry_tracks hlen hframes).times nKv.toNat).bind fun kv => ?_)
  refine Tracks.after htensorRoom ?_
  exact (tensorTable_tracks hlen nTensors.toNat []).bind fun tensors => Tracks.pure _

/-! ## The data section -/

theorem divCeil_eq {pos alignment : Nat} (hpos : pos < 2 ^ 64 - 1) (halign : 0 < alignment) :
    Raw.divCeil checks pos alignment = .ok ((pos + alignment - 1) / alignment) := by
  have hne : ¬ alignment = 0 := by omega
  have hsplit := Nat.div_add_mod pos alignment
  have hlt := Nat.mod_lt pos halign
  unfold Raw.divCeil
  rw [if_neg hne]
  by_cases hrem : pos % alignment > 0
  · have hquot := Nat.div_le_self pos alignment
    have hsum : pos + alignment - 1 = pos % alignment - 1 + alignment * (pos / alignment + 1) := by
      rw [Nat.mul_add, Nat.mul_one]
      omega
    have hzero : (pos % alignment - 1) / alignment = 0 := Nat.div_eq_of_lt (by omega)
    rw [if_pos hrem, addUsize_of_lt (by omega), hsum, Nat.add_mul_div_left _ _ halign, hzero,
      Nat.zero_add]
  · have hsum : pos + alignment - 1 = alignment - 1 + alignment * (pos / alignment) := by omega
    have hzero : (alignment - 1) / alignment = 0 := Nat.div_eq_of_lt (by omega)
    rw [if_neg hrem, hsum, Nat.add_mul_div_left _ _ halign, hzero, Nat.zero_add]

theorem checkAligned_of_find {alignment : Nat} (halign : 0 < alignment) (ts : List TensorInfo) :
    (∀ t, (ts.find? fun t => t.offset.toNat % alignment ≠ 0) = some t →
        Raw.checkAligned alignment ts = .error (.err (.misaligned t.name))) ∧
      ((ts.find? fun t => t.offset.toNat % alignment ≠ 0) = none →
        Raw.checkAligned alignment ts = .ok ()) := by
  induction ts with
  | nil => exact ⟨nofun, fun _ => rfl⟩
  | cons t rest ih =>
      have hne : ¬ alignment = 0 := by omega
      unfold Raw.checkAligned
      rw [if_neg hne]
      by_cases hbad : t.offset.toNat % alignment ≠ 0
      · have hhead := decide_eq_true hbad
        simp only [if_pos hbad, List.find?_cons, hhead]
        refine ⟨fun t' ht' => ?_, nofun⟩
        cases ht'
        rfl
      · have hhead := decide_eq_false hbad
        simp only [if_neg hbad, List.find?_cons, hhead]
        exact ih

/-- The reader with its counts, on any file and in either build, reads the header that
the plain reader reads. -/
theorem raw_readHeader (checks : Bool) {frames : Nat} (hframes : MAX_DEPTH < frames)
    {file : List UInt8} (hfile : file.length ≤ isizeMax) :
    Raw.readHeader checks frames file = checked (readHeader file) := by
  have hmax : isizeMax = 2 ^ 63 - 1 := rfl
  have hstart : Position.within file.length file = ⟨file, 0⟩ := by
    unfold Position.within
    rw [Nat.sub_self]
  have htracks := @headerFields_tracks checks _ hfile _ hframes
  unfold Raw.readHeader readHeader
  cases hfields : headerFields file with
  | error e =>
      have hraw := htracks.fails le_rfl hfields
      rw [hstart] at hraw
      rw [hraw]
      rfl
  | ok out =>
      have ⟨⟨version, kv, tensors⟩, rest⟩ := out
      have hraw := htracks.reads le_rfl hfields
      have hrest := htracks.shrinks le_rfl hfields
      rw [hstart] at hraw
      rw [bind_of_ok hraw, bind_of_ok rfl]
      dsimp only
      cases halignment : alignmentOf kv with
      | error e => rfl
      | ok alignment =>
          have ⟨hpos, hlt⟩ := alignmentOf_spec halignment
          have hup := alignUp_le (file.length - rest.length) alignment
          unfold alignUp at hup
          change (Raw.divCeil checks (file.length - rest.length) alignment >>= _) = _
          rw [bind_of_ok (divCeil_eq (by omega) hpos), bind_of_ok (mulU64_of_lt (by omega))]
          change (if alignUp (file.length - rest.length) alignment > file.length then _ else _) =
            checked (if alignUp (file.length - rest.length) alignment > file.length then _ else _)
          by_cases hover : alignUp (file.length - rest.length) alignment > file.length
          · rw [if_pos hover, if_pos hover]
            rfl
          · rw [if_neg hover, if_neg hover]
            have ⟨hbad, hgood⟩ := checkAligned_of_find hpos tensors
            cases hfind : tensors.find? fun t => t.offset.toNat % alignment ≠ 0 with
            | some t =>
                rw [hbad t hfind]
                rfl
            | none =>
                rw [bind_of_ok (hgood hfind)]
                rfl

/-! ## The tensors -/

theorem elementsOf_prod {dims : List UInt64} {n : Nat} (h : elementsOf dims = some n) :
    n = (dims.map UInt64.toNat).prod := by
  have hfold : ∀ (dims : List UInt64) (init n : Nat),
      dims.foldlM (fun a d => checkedMul a d.toNat) init = some n →
        n = init * (dims.map UInt64.toNat).prod := by
    intro dims
    induction dims with
    | nil =>
        intro init n h
        cases h
        exact (Nat.mul_one _).symm
    | cons d dims ih =>
        intro init n h
        rw [List.foldlM_cons] at h
        have ⟨product, hproduct, hrest⟩ := Option.bind_eq_some_iff.mp h
        have ⟨hmul, _⟩ := checkedMul_some hproduct
        rw [ih product n hrest, ← hmul, List.map_cons, List.prod_cons, Nat.mul_assoc]
  rw [hfold dims 1 n h, Nat.one_mul]

/-- Reading a tensor stays inside the file of the header. -/
theorem raw_readTensorF32 {file : List UInt8} (hfile : file.length ≤ isizeMax) {g : Header}
    (hlen : g.fileLen = file.length) (t : TensorInfo) :
    Raw.readTensorF32 file g t = checked (readTensorF32 file g t) := by
  unfold Raw.readTensorF32 readTensorF32
  cases t.byteLen with
  | none => rfl
  | some bytes =>
      let outside := GgufError.tensorBounds t.name
      change (checked (okOr (checkedAdd g.dataOffset t.offset.toNat) outside) >>= _) =
        checked (okOr (checkedAdd g.dataOffset t.offset.toNat) outside >>= _)
      cases checkedAdd g.dataOffset t.offset.toNat with
      | none => rfl
      | some start =>
          change (checked (okOr (checkedAdd start bytes) outside) >>= _) =
            checked (okOr (checkedAdd start bytes) outside >>= _)
          cases hstop : checkedAdd start bytes with
          | none => rfl
          | some stop =>
              have ⟨hsum, _⟩ := checkedAdd_some hstop
              change (if stop > g.fileLen then _ else _) = checked (if stop > g.fileLen then _ else _)
              by_cases hover : stop > g.fileLen
              · rw [if_pos hover, if_pos hover]
                rfl
              · have hend : start + bytes ≤ file.length := by omega
                have hroom : 1 * bytes ≤ isizeMax := by omega
                rw [if_neg hover, if_neg hover, withCapacity_of_le hroom, bind_of_ok rfl,
                  slice_of_le (Nat.le_add_right start bytes) hend, Nat.add_sub_cancel_left]
                rfl

/-- Reading a header, and then any tensor it lists, returns on every file a machine can
hold, with the nesting of values bounded by `MAX_DEPTH` and no arithmetic that overflows,
in either build; and a tensor has as many values as its dimensions say. -/
theorem reading_is_total (checks : Bool) {frames : Nat} (hframes : MAX_DEPTH < frames)
    (file : List UInt8) (hfile : file.length ≤ isizeMax) :
    Raw.readHeader checks frames file = checked (readHeader file) ∧
      Returns (Raw.readHeader checks frames file) ∧
      ∀ g, Raw.readHeader checks frames file = .ok g → ∀ t ∈ g.tensors,
        Returns (Raw.readTensorF32 file g t) ∧
        ∀ values, Raw.readTensorF32 file g t = .ok values →
          values.length = (t.dims.map UInt64.toNat).prod := by
  have hheader := raw_readHeader checks hframes hfile
  refine ⟨hheader, hheader ▸ returns_checked _, fun g hg t _ => ?_⟩
  rw [hheader, checked_eq_ok] at hg
  have hlen := (headerOf_readHeader hg).fileLen
  have htensor := raw_readTensorF32 hfile hlen t
  refine ⟨htensor ▸ returns_checked _, fun values hvalues => ?_⟩
  rw [htensor, checked_eq_ok] at hvalues
  exact elementsOf_prod (readTensorF32_shape hlen hvalues)

/-- A file with one tensor of one value. -/
def oneTensor : List UInt8 :=
  resize (MAGIC ++ toLE 4 3 ++ toLE 8 1 ++ toLE 8 0 ++ putTensorInfo ⟨"a", [1], GGML_TYPE_F32, 0⟩) 68

theorem reading_is_total_one :
    (readHeader oneTensor).toOption.map (fun g => g.tensors.map TensorInfo.name) = some ["a"] ∧
      Returns (Raw.readHeader true 5 oneTensor) ∧
      ∀ g, Raw.readHeader true 5 oneTensor = .ok g → ∀ t ∈ g.tensors,
        Returns (Raw.readTensorF32 oneTensor g t) ∧
        ∀ values, Raw.readTensorF32 oneTensor g t = .ok values →
          values.length = (t.dims.map UInt64.toNat).prod :=
  ⟨by decide +kernel, (reading_is_total true (by decide) oneTensor (by decide +kernel)).2⟩

end Gguf
end Federated
end ComputePool
