import ComputePool.Federated.GgufCodec

/-!
# The file `encode_f32` writes

Its header is read back, and every tensor is found again at the offset the table
gives it: offsets grow by at least the bytes written before them, so no tensor
overwrites another.
-/

namespace ComputePool
namespace Federated
namespace Gguf

open RustStd Codec

/-! ## Alignment -/

theorem alignUp_le (pos alignment : Nat) : alignUp pos alignment ≤ pos + alignment - 1 :=
  Nat.div_mul_le_self _ _

theorem le_alignUp (pos : Nat) {alignment : Nat} (h : 0 < alignment) : pos ≤ alignUp pos alignment := by
  have hrem := Nat.mod_lt (pos + alignment - 1) h
  have hsplit := Nat.div_add_mod (pos + alignment - 1) alignment
  rw [Nat.mul_comm] at hsplit
  unfold alignUp
  omega

theorem alignUp_mod (pos alignment : Nat) : alignUp pos alignment % alignment = 0 :=
  Nat.mul_mod_left _ _

theorem alignmentOf_spec {kv : List (String × Value)} {alignment : Nat}
    (h : alignmentOf kv = .ok alignment) : 0 < alignment ∧ alignment < 2 ^ 32 := by
  unfold alignmentOf at h
  split at h
  · rename_i a hfound
    split at h
    · rename_i hpow
      cases h
      exact ⟨hpow.1, a.toNat_lt⟩
    · cases h
  · cases h
  · cases h
    decide

/-! ## Machine arithmetic that does not overflow -/

theorem mulU64_of_lt {ε : Type} {checks : Bool} {a b : Nat} (h : a * b < 2 ^ 64) :
    (mulU64 checks a b : Checked ε Nat) = .ok (a * b) := by
  rw [mulU64, if_pos h]

theorem checkedMul_some {a b n : Nat} (h : checkedMul a b = some n) :
    a * b = n ∧ n < 2 ^ 64 := by
  unfold checkedMul at h
  split at h
  · cases h
    omega
  · cases h

theorem checkedAdd_some {a b n : Nat} (h : checkedAdd a b = some n) :
    a + b = n ∧ n < 2 ^ 64 := by
  unfold checkedAdd at h
  split at h
  · cases h
    omega
  · cases h

/-- Where the checked product of the dimensions exists the plain one does not
overflow, and is the same. -/
theorem product_of_elements {ε : Type} {checks : Bool} {dims : List UInt64} {init n : Nat}
    (h : dims.foldlM (fun a d => checkedMul a d.toNat) init = some n) :
    (dims.foldlM (fun a d => mulU64 checks a d.toNat) init : Checked ε Nat) = .ok n := by
  induction dims generalizing init with
  | nil =>
      cases h
      rfl
  | cons d dims ih =>
      rw [List.foldlM_cons] at h ⊢
      obtain ⟨product, hproduct, hrest⟩ := Option.bind_eq_some_iff.mp h
      obtain ⟨hmul, hlt⟩ := checkedMul_some hproduct
      rw [mulU64_of_lt (by omega), hmul]
      exact ih hrest

/-! ## The table -/

/-- The rows of tensors laid out from `offset` on. -/
def rowsFrom (alignment : Nat) : Nat → List OutTensor → List TensorInfo
  | _, [] => []
  | offset, t :: rest =>
      ⟨t.name, t.dims, GGML_TYPE_F32, UInt64.ofNat offset⟩ ::
        rowsFrom alignment (alignUp (offset + 4 * t.values.length) alignment) rest

/-- A tensor whose dimensions hold its values. -/
def Shaped (t : OutTensor) : Prop := elementsOf t.dims = some t.values.length

/-- The bytes the data section may take: every tensor padded to the alignment. -/
def span (alignment : Nat) (ts : List OutTensor) : Nat :=
  (ts.map fun t => 4 * t.values.length + alignment).sum

theorem layOut_eq {checks : Bool} {alignment : Nat} (offset : Nat) {ts : List OutTensor}
    (hshaped : ∀ t ∈ ts, Shaped t) (hfits : offset + span alignment ts < 2 ^ 64) :
    layOut checks alignment offset ts = .ok (rowsFrom alignment offset ts) := by
  induction ts generalizing offset with
  | nil => rfl
  | cons t rest ih =>
      have hspan : span alignment (t :: rest) =
          4 * t.values.length + alignment + span alignment rest := rfl
      rw [hspan] at hfits
      have hup := alignUp_le (offset + t.values.length * 4) alignment
      have hnext : (offset + t.values.length * 4 + alignment - 1) / alignment * alignment =
          alignUp (offset + 4 * t.values.length) alignment := by
        rw [alignUp, Nat.mul_comm 4]
      have hrest := ih (alignUp (offset + 4 * t.values.length) alignment)
        (fun u hu => hshaped u (List.mem_cons_of_mem _ hu)) (by
          rw [Nat.mul_comm 4]
          omega)
      rw [layOut, product_of_elements (hshaped t List.mem_cons_self)]
      show (if t.values.length ≠ t.values.length then _ else _) = _
      rw [if_neg (not_not_intro rfl), mulU64_of_lt (by omega)]
      show (addUsize checks offset (t.values.length * 4) >>= _) = _
      rw [addUsize_of_lt (by omega)]
      show (mulU64 checks _ alignment >>= _) = _
      rw [mulU64_of_lt (by unfold alignUp at hup; omega), hnext]
      show (layOut checks alignment _ rest >>= _) = _
      rw [hrest]
      rfl

theorem rowsFrom_length (alignment offset : Nat) (ts : List OutTensor) :
    (rowsFrom alignment offset ts).length = ts.length := by
  induction ts generalizing offset with
  | nil => rfl
  | cons t rest ih => rw [rowsFrom, List.length_cons, List.length_cons, ih]

/-- The rows keep names and dimensions in order. -/
theorem rowsFrom_shape (alignment offset : Nat) (ts : List OutTensor) :
    (rowsFrom alignment offset ts).map (fun t => (t.name, t.dims)) =
      ts.map fun t => (t.name, t.dims) := by
  induction ts generalizing offset with
  | nil => rfl
  | cons t rest ih => rw [rowsFrom, List.map_cons, List.map_cons, ih]

theorem rowsFrom_aligned {alignment offset : Nat} {ts : List OutTensor}
    (hoffset : offset % alignment = 0) (hfits : offset + span alignment ts < 2 ^ 64) :
    ∀ t ∈ rowsFrom alignment offset ts, t.offset.toNat % alignment = 0 := by
  induction ts generalizing offset with
  | nil => nofun
  | cons t rest ih =>
      have hspan : span alignment (t :: rest) =
          4 * t.values.length + alignment + span alignment rest := rfl
      rw [hspan] at hfits
      have hup := alignUp_le (offset + 4 * t.values.length) alignment
      intro u hu
      rw [rowsFrom] at hu
      rcases List.mem_cons.mp hu with rfl | hu
      · rwa [UInt64.toNat_ofNat_of_lt' (show offset < 2 ^ 64 by omega)]
      · exact ih (alignUp_mod _ _) (by omega) u hu

/-! ## The data section -/

/-- The bytes of a tensor's values. -/
def dataBytes (values : List F32) : List UInt8 := values.flatMap fun v => toLE 4 v.toNat

theorem dataBytes_length (values : List F32) : (dataBytes values).length = 4 * values.length := by
  induction values with
  | nil => rfl
  | cons v rest ih =>
      show (toLE 4 v.toNat ++ dataBytes rest).length = _
      rw [List.length_append, toLE_length, ih, List.length_cons]
      omega

/-- The bits written are the bits read. -/
theorem words4_dataBytes (values : List F32) : words4 (dataBytes values) = values := by
  induction values with
  | nil => rfl
  | cons v rest ih =>
      have hword : leNat (toLE 4 v.toNat) = v.toNat := leNat_toLE (by simpa using v.toNat_lt)
      have hlength := toLE_length 4 v.toNat
      show words4 (toLE 4 v.toNat ++ dataBytes rest) = v :: rest
      match hbytes : toLE 4 v.toNat, hlength with
      | [b0, b1, b2, b3], _ =>
          rw [hbytes] at hword
          show UInt32.ofNat (leNat [b0, b1, b2, b3]) :: words4 (dataBytes rest) = _
          rw [hword, ih, UInt32.ofNat_toNat]

/-- The values of each row lie in `file` where the row says. -/
def Stored (file : List UInt8) (dataStart : Nat) (rows : List TensorInfo)
    (values : List (List F32)) : Prop :=
  List.Forall₂
    (fun t v => dataStart + t.offset.toNat + 4 * v.length ≤ file.length ∧
      (file.drop (dataStart + t.offset.toNat)).take (4 * v.length) = dataBytes v) rows values

theorem resize_of_le {out : List UInt8} {len : Nat} (h : out.length ≤ len) :
    resize out len = out ++ List.replicate (len - out.length) 0 := by
  rw [resize, List.take_of_length_le h]

theorem resize_length {out : List UInt8} {len : Nat} (h : out.length ≤ len) :
    (resize out len).length = len := by
  rw [resize_of_le h, List.length_append, List.length_replicate]
  omega

/-- Writing the data keeps what is already written and puts every tensor at its
offset. -/
theorem writeData_spec (checks : Bool) {alignment : Nat} (dataStart offset : Nat)
    (out : List UInt8) (ts : List OutTensor) (halign : 0 < alignment)
    (hout : out.length ≤ dataStart + offset)
    (hfits : dataStart + (offset + span alignment ts) < 2 ^ 64) :
    ∃ file, writeData checks dataStart out
        (ts.zip ((rowsFrom alignment offset ts).map fun t => t.offset.toNat)) = .ok file ∧
      out <+: file ∧ file.length ≤ dataStart + (offset + span alignment ts) ∧
      Stored file dataStart (rowsFrom alignment offset ts) (ts.map OutTensor.values) := by
  induction ts generalizing offset out with
  | nil => exact ⟨out, rfl, List.prefix_rfl, hout, List.Forall₂.nil⟩
  | cons t rest ih =>
      have hspan : span alignment (t :: rest) =
          4 * t.values.length + alignment + span alignment rest := rfl
      rw [hspan] at hfits
      have hup := alignUp_le (offset + 4 * t.values.length) alignment
      have hnext := le_alignUp (offset + 4 * t.values.length) halign
      have hword : (UInt64.ofNat offset).toNat = offset :=
        UInt64.toNat_ofNat_of_lt' (show offset < 2 ^ 64 by omega)
      have hpadded := resize_length hout
      obtain ⟨file, hfile, ⟨suffix, hsuffix⟩, hlen, hstored⟩ := ih
        (alignUp (offset + 4 * t.values.length) alignment)
        (resize out (dataStart + offset) ++ dataBytes t.values)
        (by rw [List.length_append, hpadded, dataBytes_length]; omega) (by omega)
      refine ⟨file, ?_, ?_, by omega, ?_⟩
      · rw [rowsFrom, List.map_cons, List.zip_cons_cons, writeData, hword,
          addUsize_of_lt (by omega)]
        exact hfile
      · rw [resize_of_le hout] at hsuffix
        exact ⟨_, by rw [← hsuffix, List.append_assoc, List.append_assoc]⟩
      · rw [rowsFrom, List.map_cons]
        refine List.Forall₂.cons ?_ hstored
        show dataStart + (UInt64.ofNat offset).toNat + _ ≤ _ ∧
          (file.drop (dataStart + (UInt64.ofNat offset).toNat)).take _ = _
        rw [hword, ← hsuffix, ← dataBytes_length]
        constructor
        · rw [List.length_append, List.length_append, hpadded]
          omega
        · rw [List.append_assoc, List.drop_left' hpadded, List.take_left]

/-! ## Loading it back -/

theorem readTensorF32_stored {file : List UInt8} {g : Header} {t : TensorInfo} {values : List F32}
    (hfile : g.fileLen = file.length) (hsize : file.length < 2 ^ 64)
    (hty : t.ggmlType = GGML_TYPE_F32) (hshape : elementsOf t.dims = some values.length)
    (hbound : g.dataOffset + t.offset.toNat + 4 * values.length ≤ file.length)
    (hbytes : (file.drop (g.dataOffset + t.offset.toNat)).take (4 * values.length) =
      dataBytes values) :
    readTensorF32 file g t = .ok values := by
  have hlen : t.byteLen = some (4 * values.length) := by
    rw [TensorInfo.byteLen, hty, TensorInfo.elements, hshape]
    show checkedMul values.length 4 = _
    rw [checkedMul, if_pos (by omega), Nat.mul_comm]
  have hstart : checkedAdd g.dataOffset t.offset.toNat = some (g.dataOffset + t.offset.toNat) := by
    rw [checkedAdd, if_pos (by omega)]
  have hstop : checkedAdd (g.dataOffset + t.offset.toNat) (4 * values.length) =
      some (g.dataOffset + t.offset.toNat + 4 * values.length) := by
    rw [checkedAdd, if_pos (by omega)]
  rw [readTensorF32, hlen, okOr_some]
  show (okOr (checkedAdd g.dataOffset t.offset.toNat) _ >>= _) = _
  rw [hstart, okOr_some]
  show (okOr (checkedAdd _ (4 * values.length)) _ >>= _) = _
  rw [hstop, okOr_some]
  show (if _ > g.fileLen then _ else Except.ok (decodeValues t.ggmlType _)) = _
  rw [hfile, if_neg (not_lt.mpr hbound), hbytes, hty]
  show Except.ok (words4 _) = _
  rw [words4_dataBytes]

theorem loadValues_stored {file : List UInt8} {g : Header} {rows : List TensorInfo}
    {values : List (List F32)} (hfile : g.fileLen = file.length) (hsize : file.length < 2 ^ 64)
    (hstored : Stored file g.dataOffset rows values)
    (hrows : List.Forall₂ (fun t v => t.ggmlType = GGML_TYPE_F32 ∧
      Adapter.loraName t.name = true ∧ elementsOf t.dims = some v.length) rows values) :
    Adapter.loadValues file g rows = .ok values := by
  induction hstored with
  | nil => rfl
  | cons hhead _ ih =>
      obtain ⟨⟨hty, hname, hshape⟩, hrest⟩ := List.forall₂_cons.mp hrows
      rw [Adapter.loadValues, if_neg (not_not_intro hname),
        readTensorF32_stored hfile hsize hty hshape hhead.1 hhead.2]
      show (Adapter.loadValues file g _ >>= _) = _
      rw [ih hrest]
      rfl

/-- A file to write: metadata that makes it an adapter, tensors with the names of
one and dimensions that hold their values, and a table a header can carry. -/
structure Writable (kv : List (String × Value)) (alignment : Nat) (ts : List OutTensor) :
    Prop where
  alignment : alignmentOf kv = .ok alignment
  kv_le : kv.length ≤ MAX_KV
  tensors_le : ts.length ≤ MAX_TENSORS
  entries : ∀ e ∈ kv, GoodEntry e
  names_short : ∀ t ∈ ts, ShortString t.name
  dims_len : ∀ t ∈ ts, 0 < t.dims.length ∧ t.dims.length ≤ MAX_DIMS
  names_nodup : (ts.map OutTensor.name).Nodup
  shaped : ∀ t ∈ ts, Shaped t

theorem mem_rowsFrom {alignment offset : Nat} {ts : List OutTensor} {row : TensorInfo}
    (h : row ∈ rowsFrom alignment offset ts) :
    ∃ t ∈ ts, row.name = t.name ∧ row.dims = t.dims := by
  have hmem := List.mem_map_of_mem (f := fun t : TensorInfo => (t.name, t.dims)) h
  rw [rowsFrom_shape] at hmem
  obtain ⟨t, ht, hsame⟩ := List.mem_map.mp hmem
  exact ⟨t, ht, (Prod.mk.inj hsame).1.symm, (Prod.mk.inj hsame).2.symm⟩

theorem rowsFrom_names (alignment offset : Nat) (ts : List OutTensor) :
    (rowsFrom alignment offset ts).map TensorInfo.name = ts.map OutTensor.name := by
  have hshape := congrArg (List.map Prod.fst) (rowsFrom_shape alignment offset ts)
  rwa [List.map_map, List.map_map] at hshape

theorem goodHeader_rowsFrom {kv : List (String × Value)} {alignment : Nat} {ts : List OutTensor}
    (h : Writable kv alignment ts) : GoodHeader kv (rowsFrom alignment 0 ts) where
  kv_le := h.kv_le
  tensors_le := by
    rw [rowsFrom_length]
    exact h.tensors_le
  entries := h.entries
  table :=
    { length := rfl
      rows := by
        intro row hrow
        obtain ⟨t, ht, hname, hdims⟩ := mem_rowsFrom hrow
        refine ⟨hname ▸ h.names_short t ht, ?_, ?_⟩
        · rw [hdims]
          exact (h.dims_len t ht).1
        · rw [hdims]
          exact (h.dims_len t ht).2
      nodup := by
        rw [rowsFrom_names]
        exact h.names_nodup
      fresh := by simp }

/-- The header `encode_f32` writes. -/
def writtenHeader (kv : List (String × Value)) (alignment : Nat) (ts : List OutTensor) :
    List UInt8 :=
  putHeader 3 kv (rowsFrom alignment 0 ts)

/-- What `encode_f32` writes is a header followed by the data it describes. -/
theorem encodeF32_spec (checks : Bool) {kv : List (String × Value)} {alignment : Nat}
    {ts : List OutTensor} (h : Writable kv alignment ts)
    (hfits : (writtenHeader kv alignment ts).length + alignment + span alignment ts < 2 ^ 64) :
    ∃ file rest, encodeF32 checks kv ts = .ok file ∧
      file = writtenHeader kv alignment ts ++ rest ∧
      alignUp (writtenHeader kv alignment ts).length alignment ≤ file.length ∧
      file.length ≤ (writtenHeader kv alignment ts).length + alignment + span alignment ts ∧
      Stored file (alignUp (writtenHeader kv alignment ts).length alignment)
        (rowsFrom alignment 0 ts) (ts.map OutTensor.values) := by
  obtain ⟨hpos, -⟩ := alignmentOf_spec h.alignment
  have hup := alignUp_le (writtenHeader kv alignment ts).length alignment
  have hle := le_alignUp (writtenHeader kv alignment ts).length hpos
  have hpadded := resize_length hle
  obtain ⟨file, hfile, ⟨suffix, hsuffix⟩, hlen, hstored⟩ := writeData_spec checks
    (alignUp (writtenHeader kv alignment ts).length alignment) 0
    (resize (writtenHeader kv alignment ts)
      (alignUp (writtenHeader kv alignment ts).length alignment)) ts hpos
    (by rw [hpadded]; exact Nat.le_add_right _ _) (by omega)
  have hhead : MAGIC ++ toLE 4 3 ++ toLE 8 ts.length ++ toLE 8 kv.length ++
      kv.flatMap putEntry ++ (rowsFrom alignment 0 ts).flatMap putTensorInfo =
      writtenHeader kv alignment ts := by
    simp only [writtenHeader, putHeader, List.append_assoc, rowsFrom_length]
    rfl
  refine ⟨file, List.replicate (alignUp (writtenHeader kv alignment ts).length alignment -
    (writtenHeader kv alignment ts).length) 0 ++ suffix, ?_, ?_, ?_, by omega, hstored⟩
  · rw [encodeF32, h.alignment]
    show (layOut checks alignment 0 ts >>= _) = _
    rw [layOut_eq 0 h.shaped (by omega)]
    show (mulU64 checks _ alignment >>= _) = _
    rw [hhead, mulU64_of_lt (by unfold alignUp at hup; omega)]
    exact hfile
  · rw [← hsuffix, resize_of_le hle, List.append_assoc]
  · rw [← hsuffix, List.length_append, hpadded]
    exact Nat.le_add_right _ _

/-- The header as it is read back. -/
def headerRead (kv : List (String × Value)) (alignment : Nat) (ts : List OutTensor)
    (fileLen : Nat) : Header where
  version := 3
  kv := kv
  tensors := rowsFrom alignment 0 ts
  alignment := alignment
  dataOffset := alignUp (writtenHeader kv alignment ts).length alignment
  fileLen := fileLen

theorem readHeader_written {kv : List (String × Value)} {alignment : Nat} {ts : List OutTensor}
    (rest : List UInt8) (h : Writable kv alignment ts) (hspan : span alignment ts < 2 ^ 64)
    (hdata : alignUp (writtenHeader kv alignment ts).length alignment ≤
      (writtenHeader kv alignment ts ++ rest).length) :
    readHeader (writtenHeader kv alignment ts ++ rest) =
      .ok (headerRead kv alignment ts (writtenHeader kv alignment ts ++ rest).length) := by
  have hread := headerFields_agrees.complete (a := (3, kv, rowsFrom alignment 0 ts))
    ⟨.inr rfl, goodHeader_rowsFrom h⟩ rest
  have hpos : (writtenHeader kv alignment ts ++ rest).length - rest.length =
      (writtenHeader kv alignment ts).length := by
    rw [List.length_append]
    omega
  have haligned : (rowsFrom alignment 0 ts).find?
      (fun t => t.offset.toNat % alignment ≠ 0) = none := by
    rw [List.find?_eq_none]
    intro t ht
    have hmod := rowsFrom_aligned (Nat.zero_mod _) (by omega) t ht
    simpa using hmod
  rw [readHeader]
  show (headerFields (putHeader 3 kv (rowsFrom alignment 0 ts) ++ rest) >>= _) = _
  rw [hread]
  show (alignmentOf kv >>= _) = _
  rw [h.alignment]
  show (if alignUp (_ - rest.length) alignment > _ then _ else _) = _
  rw [hpos, if_neg (not_lt.mpr hdata), haligned]
  rfl

/-- A header's metadata decides whether it is an adapter. -/
def loraMetadata (kv : List (String × Value)) : Prop :=
  (lookup kv "general.type").bind Value.asStr = some "adapter" ∧
    (lookup kv "adapter.type").bind Value.asStr = some "lora"

theorem isLoraAdapter_iff {g : Header} : g.isLoraAdapter = true ↔ loraMetadata g.kv := by
  unfold Header.isLoraAdapter
  exact decide_eq_true_iff

theorem rowsFrom_loads {alignment offset : Nat} {ts : List OutTensor}
    (hnames : ∀ t ∈ ts, Adapter.loraName t.name = true) (hshaped : ∀ t ∈ ts, Shaped t) :
    List.Forall₂ (fun (t : TensorInfo) (v : List F32) => t.ggmlType = GGML_TYPE_F32 ∧
      Adapter.loraName t.name = true ∧ elementsOf t.dims = some v.length)
      (rowsFrom alignment offset ts) (ts.map OutTensor.values) := by
  induction ts generalizing offset with
  | nil => exact List.Forall₂.nil
  | cons t rest ih =>
      rw [rowsFrom, List.map_cons]
      refine List.Forall₂.cons ⟨rfl, hnames t List.mem_cons_self, hshaped t List.mem_cons_self⟩ ?_
      exact ih (fun u hu => hnames u (List.mem_cons_of_mem _ hu))
        fun u hu => hshaped u (List.mem_cons_of_mem _ hu)

/-- The file `encode_f32` writes for an adapter loads again, as it was written. -/
theorem load_written (checks : Bool) {kv : List (String × Value)} {alignment : Nat}
    {ts : List OutTensor} (path : String) (h : Writable kv alignment ts)
    (hlora : loraMetadata kv) (hnames : ∀ t ∈ ts, Adapter.loraName t.name = true)
    (hfits : (writtenHeader kv alignment ts).length + alignment + span alignment ts < 2 ^ 64) :
    ∃ file b, encodeF32 checks kv ts = .ok file ∧ Adapter.load path file = .ok b ∧
      file.length ≤ (writtenHeader kv alignment ts).length + alignment + span alignment ts ∧
      b.header.kv = kv ∧ b.header.tensors = rowsFrom alignment 0 ts ∧
      b.values = ts.map OutTensor.values := by
  obtain ⟨file, rest, hfile, hsplit, hdata, hsize, hstored⟩ :=
    encodeF32_spec checks h hfits
  subst hsplit
  have hheader := readHeader_written rest h (by omega) hdata
  have hvalues := loadValues_stored
    (g := headerRead kv alignment ts (writtenHeader kv alignment ts ++ rest).length)
    rfl (by omega) hstored (rowsFrom_loads hnames h.shaped)
  have hadapter : (headerRead kv alignment ts
      (writtenHeader kv alignment ts ++ rest).length).isLoraAdapter = true :=
    isLoraAdapter_iff.mpr hlora
  refine ⟨_, ⟨headerRead kv alignment ts (writtenHeader kv alignment ts ++ rest).length,
    ts.map OutTensor.values⟩, hfile, ?_, hsize, rfl, rfl, rfl⟩
  rw [Adapter.load, hheader]
  show (if ¬ _ then _ else _) = _
  rw [if_neg (not_not_intro hadapter)]
  show (Adapter.loadValues _ _ (rowsFrom alignment 0 ts) >>= _) = _
  rw [hvalues]
  rfl

/-! ## What a load has checked -/

theorem words4_length {n : Nat} {bytes : List UInt8} (h : bytes.length = 4 * n) :
    (words4 bytes).length = n := by
  induction n generalizing bytes with
  | zero =>
      rw [List.length_eq_zero_iff.mp h]
      rfl
  | succ n ih =>
      match bytes, h with
      | b0 :: b1 :: b2 :: b3 :: rest, h =>
          have hrest : rest.length = 4 * n := by
            simp only [List.length_cons] at h
            omega
          rw [words4, List.length_cons, ih hrest]

theorem words2_length {n : Nat} {bytes : List UInt8} (h : bytes.length = 2 * n) :
    (words2 bytes).length = n := by
  induction n generalizing bytes with
  | zero =>
      rw [List.length_eq_zero_iff.mp h]
      rfl
  | succ n ih =>
      match bytes, h with
      | b0 :: b1 :: rest, h =>
          have hrest : rest.length = 2 * n := by
            simp only [List.length_cons] at h
            omega
          rw [words2, List.length_cons, ih hrest]

theorem decodeValues_length {ty : UInt32} {per n : Nat} {bytes : List UInt8}
    (hty : typeSize ty = some per) (h : bytes.length = n * per) :
    (decodeValues ty bytes).length = n := by
  unfold typeSize at hty
  unfold decodeValues
  split at hty
  · rename_i hf32
    cases hty
    have hwords := words4_length (show bytes.length = 4 * n by omega)
    rw [if_pos hf32, hwords]
  · rename_i hf32
    split at hty
    · cases hty
      have hwords := words2_length (show bytes.length = 2 * n by omega)
      rw [if_neg hf32]
      split
      · rw [List.length_map, hwords]
      · rw [List.length_map, hwords]
    · cases hty

/-- A tensor that was read holds as many values as its dimensions say. -/
theorem readTensorF32_shape {file : List UInt8} {g : Header} {t : TensorInfo} {values : List F32}
    (hfile : g.fileLen = file.length) (h : readTensorF32 file g t = .ok values) :
    elementsOf t.dims = some values.length := by
  obtain ⟨bytes, hbytes, hrest⟩ := bind_eq_ok.mp h
  obtain ⟨start, hstart, hrest⟩ := bind_eq_ok.mp hrest
  obtain ⟨stop, hstop, hrest⟩ := bind_eq_ok.mp hrest
  obtain ⟨hbound, hlast⟩ := check_eq_ok.mp hrest
  rw [okOr_eq_ok] at hbytes hstart hstop
  obtain ⟨hsum, -⟩ := checkedAdd_some hstop
  obtain ⟨per, hper, hmul⟩ := Option.bind_eq_some_iff.mp hbytes
  obtain ⟨n, hn, hcheck⟩ := Option.bind_eq_some_iff.mp hmul
  obtain ⟨hproduct, -⟩ := checkedMul_some hcheck
  cases hlast
  have hlength : ((file.drop start).take bytes).length = n * per := by
    rw [List.length_take, List.length_drop]
    omega
  rw [decodeValues_length hper hlength]
  exact hn

theorem loadValues_shape {file : List UInt8} {g : Header} {ts : List TensorInfo}
    {values : List (List F32)} (hfile : g.fileLen = file.length)
    (h : Adapter.loadValues file g ts = .ok values) :
    List.Forall₂ (fun t v => Adapter.loraName t.name = true ∧
      elementsOf t.dims = some v.length) ts values := by
  induction ts generalizing values with
  | nil =>
      cases h
      exact List.Forall₂.nil
  | cons t rest ih =>
      rw [Adapter.loadValues, check_eq_ok] at h
      obtain ⟨hname, h⟩ := h
      obtain ⟨v, hv, h⟩ := bind_eq_ok.mp h
      obtain ⟨others, hothers, hlast⟩ := bind_eq_ok.mp h
      cases hlast
      exact List.Forall₂.cons ⟨not_not.mp hname, readTensorF32_shape hfile hv⟩ (ih hothers)

/-- What a header that was read says about the file. -/
structure HeaderOf (file : List UInt8) (g : Header) : Prop where
  good : GoodHeader g.kv g.tensors
  alignment : alignmentOf g.kv = .ok g.alignment
  fileLen : g.fileLen = file.length
  header_le : (putHeader g.version g.kv g.tensors).length ≤ file.length

theorem headerOf_readHeader {file : List UInt8} {g : Header} (h : readHeader file = .ok g) :
    HeaderOf file g := by
  obtain ⟨⟨⟨version, kv, ts⟩, rest⟩, hfields, h⟩ := bind_eq_ok.mp h
  obtain ⟨alignment, halign, h⟩ := bind_eq_ok.mp h
  obtain ⟨-, h⟩ := check_eq_ok.mp h
  obtain ⟨⟨-, hgood⟩, hsize⟩ := headerFields_agrees.sound hfields
  split at h
  · cases h
  · cases h
    exact ⟨hgood, halign, rfl, hsize ▸ Nat.le_add_right _ _⟩

/-- What a loaded adapter is. -/
structure LoadedFrom (file : List UInt8) (a : Adapter) : Prop where
  header : HeaderOf file a.header
  lora : loraMetadata a.header.kv
  tensors : List.Forall₂ (fun (t : TensorInfo) (v : List F32) => Adapter.loraName t.name = true ∧
    elementsOf t.dims = some v.length) a.header.tensors a.values

theorem loadedFrom_load {path : String} {file : List UInt8} {a : Adapter}
    (h : Adapter.load path file = .ok a) : LoadedFrom file a := by
  obtain ⟨header, hheader, h⟩ := bind_eq_ok.mp h
  obtain ⟨hlora, h⟩ := check_eq_ok.mp h
  obtain ⟨values, hvalues, hlast⟩ := bind_eq_ok.mp h
  cases hlast
  have hof := headerOf_readHeader hheader
  exact ⟨hof, isLoraAdapter_iff.mp (not_not.mp hlora), loadValues_shape hof.fileLen hvalues⟩

end Gguf
end Federated
end ComputePool
