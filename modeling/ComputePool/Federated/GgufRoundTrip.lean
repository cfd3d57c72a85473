import ComputePool.Federated.Delta

/-!
# The merged adapter loads again

`merged_gguf` writes the start adapter's metadata and table with new values.  What
`Adapter::load` has checked of the start adapter is what the written file needs
to be loaded in its turn.
-/

namespace ComputePool
namespace Federated
namespace Delta

open RustStd Gguf

variable {file : List UInt8} {a : Adapter} {merged : List (List F32)}

/-- The bytes a row takes depend on its name and dimensions alone. -/
def rowLength (shape : String × List UInt64) : Nat :=
  (utf8 shape.1).length + 8 * shape.2.length + 24

theorem dimsBytes_length (dims : List UInt64) :
    (dims.flatMap fun d => toLE 8 d.toNat).length = 8 * dims.length := by
  induction dims with
  | nil => rfl
  | cons d rest ih =>
      rw [List.flatMap_cons, List.length_append, toLE_length, ih, List.length_cons]
      omega

theorem putTensorInfo_length (t : TensorInfo) :
    (putTensorInfo t).length = rowLength (t.name, t.dims) := by
  simp only [putTensorInfo, putStr, List.length_append, toLE_length, dimsBytes_length, rowLength]
  omega

theorem putTensorInfos_length (ts : List TensorInfo) :
    (ts.flatMap putTensorInfo).length =
      ((ts.map fun t => (t.name, t.dims)).map rowLength).sum := by
  rw [List.length_flatMap, List.map_map]
  exact congrArg List.sum (List.map_congr_left fun t _ => putTensorInfo_length t)

section Written

variable (hlen : merged.length = a.header.tensors.length)

include hlen

theorem outTensors_length : (outTensors a merged).length = a.header.tensors.length := by
  rw [outTensors, List.length_map, List.length_zip, hlen, Nat.min_self]

theorem outTensors_shape :
    (outTensors a merged).map (fun t => (t.name, t.dims)) =
      a.header.tensors.map fun t => (t.name, t.dims) := by
  rw [outTensors, List.map_map]
  show (a.header.tensors.zip merged).map ((fun t : TensorInfo => (t.name, t.dims)) ∘ Prod.fst) = _
  rw [← List.map_map, List.map_fst_zip (by omega)]

theorem outTensors_values : (outTensors a merged).map OutTensor.values = merged := by
  rw [outTensors, List.map_map]
  show (a.header.tensors.zip merged).map Prod.snd = _
  rw [List.map_snd_zip (by omega)]

theorem outTensors_names :
    (outTensors a merged).map OutTensor.name = a.header.tensors.map TensorInfo.name := by
  have hshape := congrArg (List.map Prod.fst) (outTensors_shape hlen)
  rwa [List.map_map, List.map_map] at hshape

end Written

/-- A tensor written is one loaded, with as many values. -/
theorem mem_outTensors (h : LoadedFrom file a) (hshape : merged.map List.length =
    a.values.map List.length) {t : OutTensor} (ht : t ∈ outTensors a merged) :
    ∃ info ∈ a.header.tensors, t.name = info.name ∧ t.dims = info.dims ∧
      Adapter.loraName info.name = true ∧ Shaped t := by
  obtain ⟨e, he, rfl⟩ := List.mem_map.mp ht
  obtain ⟨i, hi, hentry⟩ := List.mem_iff_getElem.mp he
  have hlt : i < a.header.tensors.length ∧ i < merged.length := by
    rw [List.length_zip] at hi
    omega
  have hvalues : i < a.values.length := by
    have := congrArg List.length hshape
    simp only [List.length_map] at this
    omega
  have hsame : (merged.get ⟨i, hlt.2⟩).length = (a.values.get ⟨i, hvalues⟩).length := by
    have hget := congrArg (·[i]?) hshape
    simpa [hlt.2, hvalues] using hget
  have hloaded := (List.forall₂_iff_get.mp h.tensors).2 i hlt.1 hvalues
  rw [List.getElem_zip] at hentry
  subst hentry
  refine ⟨_, List.getElem_mem hlt.1, rfl, rfl, hloaded.1, ?_⟩
  have hdims := hloaded.2
  rw [← hsame] at hdims
  exact hdims

theorem writable_outTensors (h : LoadedFrom file a)
    (hshape : merged.map List.length = a.values.map List.length) :
    Writable a.header.kv a.header.alignment (outTensors a merged) := by
  have hgood := h.header.good
  have hlen : merged.length = a.header.tensors.length := by
    have := congrArg List.length hshape
    simp only [List.length_map] at this
    rw [this, h.tensors.length_eq]
  exact
    { alignment := h.header.alignment
      kv_le := hgood.kv_le
      tensors_le := by
        rw [outTensors_length hlen]
        exact hgood.tensors_le
      entries := hgood.entries
      names_short := by
        intro t ht
        obtain ⟨info, hinfo, hname, -⟩ := mem_outTensors h hshape ht
        rw [hname]
        exact (hgood.table.rows info hinfo).1
      dims_len := by
        intro t ht
        obtain ⟨info, hinfo, -, hdims, -⟩ := mem_outTensors h hshape ht
        rw [hdims]
        exact (hgood.table.rows info hinfo).2
      names_nodup := by
        rw [outTensors_names hlen]
        exact hgood.table.nodup
      shaped := by
        intro t ht
        obtain ⟨info, -, -, -, -, hshaped⟩ := mem_outTensors h hshape ht
        exact hshaped }

/-- The header written is as long as the header read. -/
theorem writtenHeader_length (hlen : merged.length = a.header.tensors.length) (version : UInt32) :
    (writtenHeader a.header.kv a.header.alignment (outTensors a merged)).length =
      (putHeader version a.header.kv a.header.tensors).length := by
  simp only [writtenHeader, putHeader, List.length_append, toLE_length, putTensorInfos_length,
    rowsFrom_shape, outTensors_shape hlen]

theorem span_eq (alignment : Nat) (ts : List OutTensor) :
    span alignment ts =
      4 * ((ts.map OutTensor.values).map List.length).sum + ts.length * alignment := by
  induction ts with
  | nil => simp [span]
  | cons t rest ih =>
      have hcons : span alignment (t :: rest) =
          4 * t.values.length + alignment + span alignment rest := rfl
      simp only [List.map_cons, List.sum_cons, List.length_cons, Nat.succ_mul]
      omega

theorem span_outTensors (hlen : merged.length = a.header.tensors.length) (alignment : Nat) :
    span alignment (outTensors a merged) =
      4 * (merged.map List.length).sum + a.header.tensors.length * alignment := by
  rw [span_eq, outTensors_values hlen, outTensors_length hlen]

/-- For every file `Adapter::load` accepts and every vector of merged values of the
matching shape, `merged_gguf` succeeds, and what it writes is loaded again with the
same metadata, the same tensors in the same order and exactly the bits of the
merged values.  The loaded values are all in memory, and no address space holds
more than `isize::MAX` bytes of them besides the file. -/
theorem mergedGguf_round_trip (checks : Bool) (path path' : String) (file : List UInt8)
    (a : Adapter) (merged : List (List F32)) (hload : Adapter.load path file = .ok a)
    (hmemory : file.length + 4 * valueCount a ≤ isizeMax)
    (hshape : merged.map List.length = a.values.map List.length) :
    ∃ out b, mergedGguf checks a merged = .ok out ∧ Adapter.load path' out = .ok b ∧
      b.header.kv = a.header.kv ∧
      b.header.tensors.map (fun t => (t.name, t.dims)) =
        a.header.tensors.map (fun t => (t.name, t.dims)) ∧
      b.values = merged := by
  have hfrom := loadedFrom_load hload
  have hlen : merged.length = a.header.tensors.length := by
    have := congrArg List.length hshape
    simp only [List.length_map] at this
    rw [this, hfrom.tensors.length_eq]
  have hnames : ∀ t ∈ outTensors a merged, Adapter.loraName t.name = true := by
    intro t ht
    obtain ⟨info, -, hname, -, hlora, -⟩ := mem_outTensors hfrom hshape ht
    rwa [hname]
  have hfits : (writtenHeader a.header.kv a.header.alignment (outTensors a merged)).length +
      a.header.alignment + span a.header.alignment (outTensors a merged) < 2 ^ 64 := by
    have hheader := hfrom.header.header_le
    have hcount : a.header.tensors.length ≤ 2 ^ 20 := hfrom.header.good.tensors_le
    have halign := (alignmentOf_spec hfrom.header.alignment).2
    have hpadding := Nat.mul_le_mul hcount halign.le
    have hmax : isizeMax = 2 ^ 63 - 1 := rfl
    rw [writtenHeader_length hlen a.header.version, span_outTensors hlen, hshape]
    unfold valueCount at hmemory
    omega
  obtain ⟨out, b, hout, hb, -, hkv, htensors, hvalues⟩ := load_written checks
    path' (writable_outTensors hfrom hshape) hfrom.lora hnames hfits
  refine ⟨out, b, ?_, hb, hkv, ?_, ?_⟩
  · rw [mergedGguf, hout]
  · rw [htensors, rowsFrom_shape, outTensors_shape hlen]
  · rw [hvalues, outTensors_values hlen]

/-! ## A run -/

/-- Metadata of a LoRA adapter. -/
def tinyKv : List (String × Value) :=
  [("general.type", .str "adapter"), ("adapter.type", .str "lora")]

theorem tiny_writable {ts : List OutTensor} (hcount : ts.length ≤ MAX_TENSORS)
    (hshort : ∀ t ∈ ts, ShortString t.name)
    (hdims : ∀ t ∈ ts, 0 < t.dims.length ∧ t.dims.length ≤ MAX_DIMS)
    (hnodup : (ts.map OutTensor.name).Nodup) (hshaped : ∀ t ∈ ts, Shaped t) :
    Writable tinyKv DEFAULT_ALIGNMENT ts where
  alignment := rfl
  kv_le := by decide
  tensors_le := hcount
  entries := by
    intro e he
    simp only [tinyKv, List.mem_cons, List.not_mem_nil, or_false] at he
    rcases he with rfl | rfl
    · exact ⟨show _ ≤ MAX_STRING by decide, wellFormed_str.mpr (show _ ≤ MAX_STRING by decide)⟩
    · exact ⟨show _ ≤ MAX_STRING by decide, wellFormed_str.mpr (show _ ≤ MAX_STRING by decide)⟩
  names_short := hshort
  dims_len := hdims
  names_nodup := hnodup
  shaped := hshaped

/-- A small file loads. -/
theorem tiny_loads (path : String) {ts : List OutTensor}
    (h : Writable tinyKv DEFAULT_ALIGNMENT ts) (hnames : ∀ t ∈ ts, Adapter.loraName t.name = true)
    (hsmall : (writtenHeader tinyKv DEFAULT_ALIGNMENT ts).length + DEFAULT_ALIGNMENT +
      2 * span DEFAULT_ALIGNMENT ts ≤ isizeMax) :
    ∃ file a, Adapter.load path file = .ok a ∧ file.length + 4 * valueCount a ≤ isizeMax ∧
      a.header.tensors = rowsFrom DEFAULT_ALIGNMENT 0 ts ∧ a.values = ts.map OutTensor.values := by
  have hmax : isizeMax = 2 ^ 63 - 1 := rfl
  obtain ⟨file, a, -, hload, hsize, -, htensors, hvalues⟩ := load_written true path h ⟨rfl, rfl⟩
    hnames (by omega)
  have hspan := span_eq DEFAULT_ALIGNMENT ts
  have hcount : valueCount a = ((ts.map OutTensor.values).map List.length).sum := by
    rw [valueCount, hvalues]
  exact ⟨file, a, hload, by omega, htensors, hvalues⟩

/-- Two tensors in the order of their names, the first shorter than the alignment. -/
def pairTensors (x y z : F32) : List OutTensor :=
  [⟨"x.lora_a", [1], [x]⟩, ⟨"x.lora_b", [2], [y, z]⟩]

theorem mem_pairTensors {x y z : F32} {t : OutTensor} (h : t ∈ pairTensors x y z) :
    ShortString t.name ∧ (0 < t.dims.length ∧ t.dims.length ≤ MAX_DIMS) ∧ Shaped t ∧
      Adapter.loraName t.name = true := by
  rcases List.mem_pair.mp h with rfl | rfl
  · exact ⟨show (utf8 "x.lora_a").length ≤ MAX_STRING by decide, show 0 < 1 ∧ 1 ≤ MAX_DIMS by decide,
      rfl, show Adapter.loraName "x.lora_a" = true by decide⟩
  · exact ⟨show (utf8 "x.lora_b").length ≤ MAX_STRING by decide, show 0 < 1 ∧ 1 ≤ MAX_DIMS by decide,
      rfl, show Adapter.loraName "x.lora_b" = true by decide⟩

/-- A file may list the two in either order. -/
theorem pair_loads (path : String) {x y z : F32} {ts : List OutTensor}
    (hperm : ts.Perm (pairTensors x y z))
    (hsmall : (writtenHeader tinyKv DEFAULT_ALIGNMENT ts).length = 179) :
    ∃ file a, Adapter.load path file = .ok a ∧ file.length + 4 * valueCount a ≤ isizeMax ∧
      a.header.tensors = rowsFrom DEFAULT_ALIGNMENT 0 ts ∧ a.values = ts.map OutTensor.values := by
  have hmem : ∀ t ∈ ts, t ∈ pairTensors x y z := fun t ht => hperm.mem_iff.mp ht
  have hspan : span DEFAULT_ALIGNMENT ts = span DEFAULT_ALIGNMENT (pairTensors x y z) :=
    (hperm.map _).sum_eq
  have hnodup : (ts.map OutTensor.name).Nodup :=
    (hperm.map _).nodup_iff.mpr (show ["x.lora_a", "x.lora_b"].Nodup by decide)
  refine tiny_loads path (tiny_writable ?_ (fun t ht => (mem_pairTensors (hmem t ht)).1)
    (fun t ht => (mem_pairTensors (hmem t ht)).2.1) hnodup
    fun t ht => (mem_pairTensors (hmem t ht)).2.2.1)
    (fun t ht => (mem_pairTensors (hmem t ht)).2.2.2) ?_
  · rw [hperm.length_eq]
    show 2 ≤ MAX_TENSORS
    decide
  · rw [hsmall, hspan]
    show 179 + DEFAULT_ALIGNMENT + 2 * (4 * 1 + DEFAULT_ALIGNMENT + (4 * 2 + DEFAULT_ALIGNMENT + 0)) ≤
      isizeMax
    decide

/-- Two tensors are loaded, given other values, and loaded again with them. -/
theorem tiny_round_trip :
    ∃ file a out b, Adapter.load "start" file = .ok a ∧
      mergedGguf true a [[0x3f800000], [0x41800000, 0x3f800000]] = .ok out ∧
      Adapter.load "merged" out = .ok b ∧
      b.header.tensors.map (fun t => (t.name, t.dims)) = [("x.lora_a", [1]), ("x.lora_b", [2])] ∧
      b.values = [[0x3f800000], [0x41800000, 0x3f800000]] := by
  obtain ⟨file, a, hload, hmemory, htensors, hvalues⟩ := pair_loads "start"
    (List.Perm.refl (pairTensors 0 0x3f800000 0)) rfl
  obtain ⟨out, b, hout, hb, -, hnames, hmerged⟩ := mergedGguf_round_trip true "start" "merged" file a
    [[0x3f800000], [0x41800000, 0x3f800000]] hload hmemory (by rw [hvalues]; rfl)
  exact ⟨file, a, out, b, hload, hout, hb, by rw [hnames, htensors]; rfl, hmerged⟩

end Delta
end Federated
end ComputePool
