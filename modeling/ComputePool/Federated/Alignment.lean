import ComputePool.Federated.GgufRoundTrip

/-!
# Coordinates line up

A coordinate is a tensor's name and an element's position in it.  Two adapters
with one manifest hash list the same coordinates in canonical order, `compute`
and `merge` go through them in that order, and so a delta is put back where it
was taken from.
-/

namespace ComputePool
namespace Federated
namespace Delta

open RustStd Gguf

/-- A named coordinate of an adapter. -/
abbrev Coordinate := String × Nat

/-- The values of the tensor a name refers to, in a vector of the adapter's shape. -/
def tensorAt (a : Adapter) (values : List (List F32)) (name : String) : Option (List F32) := do
  let i ← a.header.tensors.findIdx? fun t => t.name = name
  values[i]?

/-- The value at a coordinate, in a vector of the adapter's shape. -/
def valueAt (a : Adapter) (values : List (List F32)) (c : Coordinate) : Option F32 := do
  let v ← tensorAt a values c.1
  v[c.2]?

/-- The coordinates of one tensor. -/
def coordinatesOf (e : Entry) : List Coordinate :=
  (List.range ((elementsOf e.dims).getD 0)).map fun i => (e.name, i)

/-- The coordinates of an adapter, in canonical order. -/
def coordinates (a : Adapter) : List Coordinate := (canonical a).flatMap coordinatesOf

/-! ## The canonical order of a loaded adapter -/

/-- A canonical entry, and the values it stands for. -/
structure Placed (a : Adapter) (e : Entry) (v : List F32) : Prop where
  values : a.values[e.index]? = some v
  found : (a.header.tensors.findIdx? fun t => t.name = e.name) = some e.index
  elements : elementsOf e.dims = some v.length

variable {file : List UInt8} {a : Adapter}

/-- The entries before they are sorted. -/
def fileEntries (a : Adapter) : List Entry :=
  a.header.tensors.zipIdx.map fun e => (⟨e.2, e.1.name, e.1.dims⟩ : Entry)

theorem canonical_perm (a : Adapter) : (canonical a).Perm (fileEntries a) :=
  List.mergeSort_perm _ _

theorem mem_fileEntries {e : Entry} :
    e ∈ fileEntries a ↔
      ∃ t, a.header.tensors[e.index]? = some t ∧ t.name = e.name ∧ t.dims = e.dims := by
  constructor
  · intro he
    obtain ⟨⟨t, i⟩, ht, rfl⟩ := List.mem_map.mp he
    exact ⟨t, List.mem_zipIdx_iff_getElem?.mp ht, rfl, rfl⟩
  · rintro ⟨t, ht, hname, hdims⟩
    refine List.mem_map.mpr ⟨(t, e.index), List.mem_zipIdx_iff_getElem?.mpr ht, ?_⟩
    rw [hname, hdims]

theorem fileEntries_index (a : Adapter) :
    (fileEntries a).map Entry.index = List.range a.header.tensors.length := by
  rw [fileEntries, List.map_map]
  show a.header.tensors.zipIdx.map Prod.snd = _
  rw [List.zipIdx_map_snd, List.range_eq_range']

theorem canonical_index_nodup (a : Adapter) : ((canonical a).map Entry.index).Nodup := by
  rw [((canonical_perm a).map Entry.index).nodup_iff, fileEntries_index]
  exact List.nodup_range

/-- Names are not repeated, so a name finds its own index. -/
theorem findIdx_name (h : LoadedFrom file a) {i : Nat} {t : TensorInfo}
    (ht : a.header.tensors[i]? = some t) :
    (a.header.tensors.findIdx? fun u => u.name = t.name) = some i := by
  have hnodup := h.header.good.table.nodup
  obtain ⟨hi, rfl⟩ := List.getElem?_eq_some_iff.mp ht
  rw [List.findIdx?_eq_some_iff_getElem]
  refine ⟨hi, by simp, fun j hj hsame => ?_⟩
  have hjName : j < (a.header.tensors.map TensorInfo.name).length := by
    rw [List.length_map]
    omega
  have hiName : i < (a.header.tensors.map TensorInfo.name).length := by
    rw [List.length_map]
    exact hi
  have hname : (a.header.tensors.map TensorInfo.name).get ⟨j, hjName⟩ =
      (a.header.tensors.map TensorInfo.name).get ⟨i, hiName⟩ := by
    simpa using hsame
  have hindex := Fin.mk.inj (List.nodup_iff_injective_get.mp hnodup hname)
  omega

theorem placed_canonical (h : LoadedFrom file a) {e : Entry} (he : e ∈ canonical a) :
    ∃ v, Placed a e v := by
  obtain ⟨t, ht, hname, hdims⟩ := mem_fileEntries.mp ((canonical_perm a).mem_iff.mp he)
  obtain ⟨hi, hget⟩ := List.getElem?_eq_some_iff.mp ht
  have hvalues : e.index < a.values.length := h.tensors.length_eq ▸ hi
  have hshape := ((List.forall₂_iff_get.mp h.tensors).2 e.index hi hvalues).2
  refine ⟨a.values.get ⟨e.index, hvalues⟩, List.getElem?_eq_getElem hvalues, ?_, ?_⟩
  · rw [← hname]
    exact findIdx_name h ht
  · rw [← hdims, ← hget]
    exact hshape

theorem Placed.tensorAt {e : Entry} {v : List F32} (h : Placed a e v) (values : List (List F32)) :
    tensorAt a values e.name = values[e.index]? := by
  rw [Delta.tensorAt, h.found]
  rfl

theorem Placed.coordinatesOf {e : Entry} {v : List F32} (h : Placed a e v) :
    coordinatesOf e = (List.range v.length).map fun i => (e.name, i) := by
  rw [Delta.coordinatesOf, h.elements]
  rfl

/-! ## The manifest -/

/-- The lengths a manifest writes fit their words. -/
def ShortEntry (e : Entry) : Prop := (utf8 e.name).length < 2 ^ 32 ∧ e.dims.length < 2 ^ 32

theorem dimsBE_append_inj {xs ys : List UInt64} {r r' : List UInt8}
    (hlen : xs.length = ys.length)
    (h : (xs.flatMap fun d => toBE 8 d.toNat) ++ r = (ys.flatMap fun d => toBE 8 d.toNat) ++ r') :
    xs = ys ∧ r = r' := by
  induction xs generalizing ys with
  | nil =>
      have hnil := List.length_eq_zero_iff.mp hlen.symm
      subst hnil
      exact ⟨rfl, h⟩
  | cons x xs ih =>
      cases ys with
      | nil => cases hlen
      | cons y ys =>
          simp only [List.flatMap_cons, List.append_assoc] at h
          obtain ⟨hword, hrest⟩ := List.append_inj h (by simp)
          obtain ⟨hxs, hr⟩ := ih (Nat.succ.inj hlen) hrest
          have hxy := toBE_injective (by simpa using x.toNat_lt) (by simpa using y.toNat_lt) hword
          exact ⟨by rw [UInt64.toNat_inj.mp hxy, hxs], hr⟩

/-- An entry's bytes end where its dimensions do. -/
theorem entryBytes_append_inj {x y : Entry} {r r' : List UInt8} (hx : ShortEntry x)
    (hy : ShortEntry y) (h : entryBytes x ++ r = entryBytes y ++ r') :
    (x.name, x.dims) = (y.name, y.dims) ∧ r = r' := by
  simp only [entryBytes, List.append_assoc] at h
  obtain ⟨hnameLen, h⟩ := List.append_inj h (by simp)
  have hlen := toBE_injective (by simpa using hx.1) (by simpa using hy.1) hnameLen
  obtain ⟨hname, h⟩ := List.append_inj h hlen
  obtain ⟨hdimsLen, h⟩ := List.append_inj h (by simp)
  have hcount := toBE_injective (by simpa using hx.2) (by simpa using hy.2) hdimsLen
  obtain ⟨hdims, hrest⟩ := dimsBE_append_inj hcount h
  exact ⟨by rw [utf8_injective hname, hdims], hrest⟩

/-- The shapes a manifest lists. -/
def shapes (a : Adapter) : List (String × List UInt64) :=
  (canonical a).map fun e => (e.name, e.dims)

theorem entries_of_bytes {xs ys : List Entry} (hx : ∀ e ∈ xs, ShortEntry e)
    (hy : ∀ e ∈ ys, ShortEntry e) (hlen : xs.length = ys.length)
    (h : xs.flatMap entryBytes = ys.flatMap entryBytes) :
    (xs.map fun e => (e.name, e.dims)) = ys.map fun e => (e.name, e.dims) := by
  induction xs generalizing ys with
  | nil =>
      have hnil := List.length_eq_zero_iff.mp hlen.symm
      subst hnil
      rfl
  | cons x xs ih =>
      cases ys with
      | nil => cases hlen
      | cons y ys =>
          rw [List.flatMap_cons, List.flatMap_cons] at h
          obtain ⟨hhead, hrest⟩ := entryBytes_append_inj (hx x List.mem_cons_self)
            (hy y List.mem_cons_self) h
          have htail := ih (fun e he => hx e (List.mem_cons_of_mem _ he))
            (fun e he => hy e (List.mem_cons_of_mem _ he)) (Nat.succ.inj hlen) hrest
          rw [List.map_cons, List.map_cons, hhead, htail]

theorem shortEntry_canonical (h : LoadedFrom file a) : ∀ e ∈ canonical a, ShortEntry e := by
  intro e he
  obtain ⟨t, ht, hname, hdims⟩ := mem_fileEntries.mp ((canonical_perm a).mem_iff.mp he)
  unfold ShortEntry
  have hgood := h.header.good.table.rows t (List.mem_of_getElem? ht)
  rw [← hname, ← hdims]
  exact ⟨hgood.1.trans_lt (by decide), hgood.2.2.trans_lt (by decide)⟩

theorem canonical_length (a : Adapter) : (canonical a).length = a.header.tensors.length := by
  rw [(canonical_perm a).length_eq, fileEntries, List.length_map, List.length_zipIdx]

/-- Two loaded adapters with one manifest have the same shapes in the same
canonical order. -/
theorem shapes_of_manifest {file' : List UInt8} {b : Adapter} (ha : LoadedFrom file a)
    (hb : LoadedFrom file' b) (h : manifestBytes a = manifestBytes b) : shapes a = shapes b := by
  have hcount : ∀ {file : List UInt8} {a : Adapter}, LoadedFrom file a →
      (canonical a).length < 256 ^ 4 := by
    intro file a ha
    rw [canonical_length]
    exact ha.header.good.tensors_le.trans_lt (by decide)
  simp only [manifestBytes, List.append_assoc, List.append_cancel_left_eq] at h
  obtain ⟨hlen, hentries⟩ := List.append_inj h (by simp)
  exact entries_of_bytes (shortEntry_canonical ha) (shortEntry_canonical hb)
    (toBE_injective (hcount ha) (hcount hb) hlen) hentries

theorem coordinates_eq_shapes (a : Adapter) :
    coordinates a = (shapes a).flatMap fun s =>
      (List.range ((elementsOf s.2).getD 0)).map fun i => (s.1, i) := by
  rw [coordinates, shapes, List.flatMap_map]
  rfl

/-! ## Computing a delta -/

/-- An error about a value, not about the adapters' shapes. -/
def AboutValue : DeltaError → Prop
  | .notFinite _ _ => True
  | .outOfRange _ _ _ => True
  | _ => False

variable {ops : FloatOps}

/-- What `compute` writes for a start value and a trained one. -/
def deltaValue (ops : FloatOps) (scale v w : F32) : Int64 :=
  ops.fromF32 (ops.mul (ops.sub w v) scale)

/-- A start value and a trained one of which `compute` makes a delta: both are finite, and
so is their scaled difference, which is in range. -/
structure Deltable (ops : FloatOps) (scale v w : F32) : Prop where
  finite : ops.isFinite w = true ∧ ops.isFinite v = true
  scaled : ops.isFinite (ops.mul (ops.sub w v) scale) = true
  inRange : ops.gt (ops.abs (ops.mul (ops.sub w v) scale)) MAX_SCALED_ABS = false

variable (ops) in
theorem tensorDeltas_cases (name : String) (scale : F32) (index : Nat) (pairs : List (F32 × F32)) :
    (tensorDeltas ops name scale index pairs =
        .ok (pairs.map fun p => deltaValue ops scale p.1 p.2) ∧
      ∀ p ∈ pairs, Deltable ops scale p.1 p.2) ∨
    ∃ e, tensorDeltas ops name scale index pairs = .error e ∧ AboutValue e ∧
      ∃ p ∈ pairs, ¬ Deltable ops scale p.1 p.2 := by
  induction pairs generalizing index with
  | nil => exact .inl ⟨rfl, fun _ hp => absurd hp List.not_mem_nil⟩
  | cons p rest ih =>
      obtain ⟨a, b⟩ := p
      by_cases hfinite : ¬ ops.isFinite b ∨ ¬ ops.isFinite a
      · refine .inr ⟨.notFinite name index, by rw [tensorDeltas, if_pos hfinite], trivial,
          (a, b), List.mem_cons_self, fun h => ?_⟩
        exact hfinite.elim (fun hb => hb h.finite.1) fun ha => ha h.finite.2
      by_cases hrange : ¬ ops.isFinite (ops.mul (ops.sub b a) scale) ∨
          ops.gt (ops.abs (ops.mul (ops.sub b a) scale)) MAX_SCALED_ABS
      · refine .inr ⟨.outOfRange name index (ops.mul (ops.sub b a) scale), ?_, trivial,
          (a, b), List.mem_cons_self, fun h => ?_⟩
        · rw [tensorDeltas, if_neg hfinite, if_pos hrange]
        · exact hrange.elim (fun hs => hs h.scaled) fun hs => absurd hs (by simp [h.inRange])
      rw [tensorDeltas, if_neg hfinite, if_neg hrange]
      rcases ih (index + 1) with ⟨hok, hall⟩ | ⟨e, he, habout, p, hp, hnot⟩
      · rw [hok]
        refine .inl ⟨rfl, List.forall_mem_cons.mpr ⟨⟨?_, ?_, ?_⟩, hall⟩⟩
        · exact not_or.mp hfinite |>.imp not_not.mp not_not.mp
        · exact not_not.mp (not_or.mp hrange).1
        · exact Bool.not_eq_true _ ▸ (not_or.mp hrange).2
      · rw [he]
        exact .inr ⟨e, rfl, habout, p, List.mem_cons_of_mem _ hp, hnot⟩

/-- Two canonical entries for one tensor, with as many values on either side. -/
def Matched (a b : Adapter) (s t : Entry) : Prop :=
  s.name = t.name ∧ s.dims = t.dims ∧
    ∃ sv tv, Placed a s sv ∧ Placed b t tv ∧ sv.length = tv.length

theorem matched_canonical {file' : List UInt8} {b : Adapter} (ha : LoadedFrom file a)
    (hb : LoadedFrom file' b) (h : shapes a = shapes b) :
    List.Forall₂ (Matched a b) (canonical a) (canonical b) := by
  have hlen : (canonical a).length = (canonical b).length := by
    have := congrArg List.length h
    simpa [shapes] using this
  rw [List.forall₂_iff_get]
  refine ⟨hlen, fun i hi hi' => ?_⟩
  obtain ⟨sv, hs⟩ := placed_canonical ha (List.get_mem (canonical a) ⟨i, hi⟩)
  obtain ⟨tv, ht⟩ := placed_canonical hb (List.get_mem (canonical b) ⟨i, hi'⟩)
  have hshape : ((canonical a).get ⟨i, hi⟩).name = ((canonical b).get ⟨i, hi'⟩).name ∧
      ((canonical a).get ⟨i, hi⟩).dims = ((canonical b).get ⟨i, hi'⟩).dims := by
    have hget := congrArg (·[i]?) h
    simpa [shapes, hi, hi'] using hget
  refine ⟨hshape.1, hshape.2, sv, tv, hs, ht, ?_⟩
  have helements := hs.elements
  rw [hshape.2, ht.elements] at helements
  exact (Option.some.inj helements).symm

/-- The delta at a coordinate, in terms of the values both adapters have there. -/
def DeltaAt (ops : FloatOps) (scale : F32) (a b : Adapter) (c : Coordinate) (x : Int64) : Prop :=
  ∃ v w, valueAt a a.values c = some v ∧ valueAt b b.values c = some w ∧
    x = deltaValue ops scale v w

/-- The values both adapters have at a coordinate. -/
def ValuesAt (a b : Adapter) (c : Coordinate) (p : F32 × F32) : Prop :=
  valueAt a a.values c = some p.1 ∧ valueAt b b.values c = some p.2

theorem valuesAt_tensor {b : Adapter} {s t : Entry} {sv tv : List F32}
    (hs : Placed a s sv) (ht : Placed b t tv) (hname : s.name = t.name)
    (hlen : sv.length = tv.length) :
    List.Forall₂ (ValuesAt a b) (coordinatesOf s) (sv.zip tv) := by
  rw [hs.coordinatesOf, List.forall₂_iff_get]
  refine ⟨by simp [hlen], fun i hi hi' => ?_⟩
  have hsv : i < sv.length := by simpa using hi
  have htv : i < tv.length := hlen ▸ hsv
  refine ⟨?_, ?_⟩
  · simp [valueAt, hs.tensorAt, hs.values, hsv]
  · simp [valueAt, hname, ht.tensorAt, ht.values, htv]

theorem deltaAt_of_valuesAt {b : Adapter} {scale : F32} {cs : List Coordinate}
    {pairs : List (F32 × F32)} (h : List.Forall₂ (ValuesAt a b) cs pairs) :
    List.Forall₂ (DeltaAt ops scale a b) cs (pairs.map fun p => deltaValue ops scale p.1 p.2) := by
  rw [List.forall₂_map_right_iff]
  exact h.imp fun _ p hp => ⟨p.1, p.2, hp.1, hp.2, rfl⟩

/-- What `compute` needs of the values at a coordinate. -/
def DeltableAt (ops : FloatOps) (scale : F32) (a b : Adapter) (c : Coordinate) : Prop :=
  ∀ p, ValuesAt a b c p → Deltable ops scale p.1 p.2

/-- Of a tensor's pairs all or not all make a delta, as its coordinates say. -/
theorem deltableAt_iff {b : Adapter} {scale : F32} {cs : List Coordinate}
    {pairs : List (F32 × F32)} (h : List.Forall₂ (ValuesAt a b) cs pairs) :
    (∀ c ∈ cs, DeltableAt ops scale a b c) ↔ ∀ p ∈ pairs, Deltable ops scale p.1 p.2 := by
  induction h with
  | nil => simp
  | @cons c p cs pairs hhead htail ih =>
      rw [List.forall_mem_cons, List.forall_mem_cons, ih]
      refine and_congr_left fun _ => ⟨fun hc => hc p hhead, fun hp p' hp' => ?_⟩
      have hsame : p' = p := Prod.ext (Option.some.inj (hp'.1.symm.trans hhead.1))
        (Option.some.inj (hp'.2.symm.trans hhead.2))
      rwa [hsame]

variable (ops) in
theorem computeLoop_cases {b : Adapter} (scale : F32) {ss ts : List Entry}
    (h : List.Forall₂ (Matched a b) ss ts) :
    (∃ out, computeLoop ops a b scale (ss.zip ts) = .ok out ∧
        List.Forall₂ (DeltaAt ops scale a b) (ss.flatMap coordinatesOf) out ∧
        ∀ c ∈ ss.flatMap coordinatesOf, DeltableAt ops scale a b c) ∨
      ∃ e, computeLoop ops a b scale (ss.zip ts) = .error (.err e) ∧ AboutValue e ∧
        ¬ ∀ c ∈ ss.flatMap coordinatesOf, DeltableAt ops scale a b c := by
  induction h with
  | nil => exact .inl ⟨[], rfl, List.Forall₂.nil, fun _ hc => absurd hc List.not_mem_nil⟩
  | @cons s t ss ts hhead htail ih =>
      obtain ⟨hname, hdims, sv, tv, hs, ht, hlen⟩ := hhead
      have hsame : ¬ (s.name ≠ t.name ∨ s.dims ≠ t.dims) := by simp [hname, hdims]
      have hvalues := valuesAt_tensor hs ht hname hlen
      rw [List.zip_cons_cons, computeLoop, if_neg hsame, indexAt_ok hs.values, indexAt_ok ht.values,
        List.flatMap_cons, List.forall_mem_append, deltableAt_iff hvalues]
      show (∃ out, (if sv.length ≠ tv.length then _ else _) = _ ∧ _) ∨
        ∃ e, (if sv.length ≠ tv.length then _ else _) = _ ∧ _
      rw [if_neg (not_not_intro hlen)]
      rcases tensorDeltas_cases ops s.name scale 0 (sv.zip tv) with
        ⟨hdeltas, hfits⟩ | ⟨e, hdeltas, habout, p, hp, hnot⟩
      · rw [hdeltas]
        rcases ih with ⟨out, hout, hall, hrest⟩ | ⟨e, he, habout, hnot⟩
        · refine .inl ⟨_, by show (computeLoop ops a b scale _ >>= _) = _; rw [hout]; rfl, ?_,
            hfits, hrest⟩
          exact List.rel_append (deltaAt_of_valuesAt hvalues) hall
        · refine .inr ⟨e, ?_, habout, fun hboth => hnot hboth.2⟩
          show (computeLoop ops a b scale _ >>= _) = _
          rw [he]
          rfl
      · rw [hdeltas]
        exact .inr ⟨e, rfl, habout, fun hboth => hnot (hboth.1 p hp)⟩

/-! ## Merging a delta -/

theorem mergeTensor_eq {agg : List Int64} {denom : F64} {k : Nat} {values : List F32}
    (h : k + values.length ≤ agg.length) :
    mergeTensor ops agg denom k values =
      .ok ((values.zip (agg.drop k)).map fun p => mergeValue ops denom p.1 p.2) := by
  induction values generalizing k with
  | nil => rfl
  | cons v rest ih =>
      rw [List.length_cons] at h
      have hk : k < agg.length := by omega
      have hget : agg[k]? = some (agg.get ⟨k, hk⟩) := List.getElem?_eq_getElem hk
      have hdrop : agg.drop k = agg.get ⟨k, hk⟩ :: agg.drop (k + 1) := List.drop_eq_getElem_cons hk
      rw [mergeTensor, indexAt_ok hget]
      show (mergeTensor ops agg denom (k + 1) rest >>= _) = _
      rw [ih (by omega), hdrop]
      rfl

/-- What `merge` writes at a coordinate, given the aggregate's value there. -/
def MergedAt (ops : FloatOps) (denom : F64) (a : Adapter) (merged : List (List F32))
    (c : Coordinate) (x : Int64) : Prop :=
  ∃ v, valueAt a a.values c = some v ∧ valueAt a merged c = some (mergeValue ops denom v x)

theorem mergedAt_tensor {denom : F64} {merged : List (List F32)} {e : Entry} {values : List F32}
    {xs : List Int64} (h : Placed a e values) (hlen : xs.length = values.length)
    (hmerged : merged[e.index]? =
      some ((values.zip xs).map fun p => mergeValue ops denom p.1 p.2)) :
    List.Forall₂ (MergedAt ops denom a merged) (coordinatesOf e) xs := by
  rw [h.coordinatesOf, List.forall₂_iff_get]
  refine ⟨by simp [hlen], fun i hi hi' => ?_⟩
  have hv : i < values.length := by simpa using hi
  refine ⟨values.get ⟨i, hv⟩, ?_, ?_⟩
  · simp [valueAt, h.tensorAt, h.values, hv]
  · simp [valueAt, h.tensorAt, hmerged, hv, hlen]

theorem coordinatesOf_length {e : Entry} {values : List F32} (h : Placed a e values) :
    (coordinatesOf e).length = values.length := by
  rw [h.coordinatesOf, List.length_map, List.length_range]

theorem zip_take_length {α β : Type} (xs : List α) (ys : List β) :
    xs.zip (ys.take xs.length) = xs.zip ys := by
  induction xs generalizing ys with
  | nil => rfl
  | cons x xs ih =>
      cases ys with
      | nil => rfl
      | cons y ys => rw [List.length_cons, List.take_succ_cons, List.zip_cons_cons, ih,
          List.zip_cons_cons]

variable (ops) in
/-- The loop writes every entry's tensor once, and no other. -/
theorem mergeLoop_spec {agg : List Int64} (denom : F64) (k : Nat) {es : List Entry}
    (merged : List (List F32)) (hnodup : (es.map Entry.index).Nodup)
    (hplaced : ∀ e ∈ es, ∃ v, Placed a e v ∧ merged[e.index]? = some v)
    (hfits : k + (es.flatMap coordinatesOf).length ≤ agg.length) :
    ∃ final, mergeLoop ops agg denom k es merged = .ok final ∧ final.length = merged.length ∧
      (∀ j, j ∉ es.map Entry.index → final[j]? = merged[j]?) ∧
      List.Forall₂ (MergedAt ops denom a final) (es.flatMap coordinatesOf)
        ((agg.drop k).take (es.flatMap coordinatesOf).length) := by
  induction es generalizing k merged with
  | nil => exact ⟨merged, rfl, rfl, fun _ _ => rfl, by simp⟩
  | cons e rest ih =>
      rw [List.map_cons, List.nodup_cons] at hnodup
      obtain ⟨v, hv, hget⟩ := hplaced e List.mem_cons_self
      have hlen := coordinatesOf_length hv
      rw [List.flatMap_cons, List.length_append, hlen] at hfits
      obtain ⟨final, hfinal, hflen, hothers, hall⟩ := ih (k + v.length)
        (merged.set e.index
          ((v.zip (agg.drop k)).map fun p => mergeValue ops denom p.1 p.2)) hnodup.2
        (by
          intro e' he'
          obtain ⟨w, hw, hget'⟩ := hplaced e' (List.mem_cons_of_mem _ he')
          refine ⟨w, hw, ?_⟩
          have hne : e.index ≠ e'.index := fun hsame =>
            hnodup.1 (hsame ▸ List.mem_map_of_mem he')
          rwa [List.getElem?_set_ne hne])
        (by omega)
      refine ⟨final, ?_, ?_, ?_, ?_⟩
      · rw [mergeLoop, indexAt_ok hget]
        show (mergeTensor ops agg denom k v >>= _) = _
        rw [mergeTensor_eq (by omega)]
        exact hfinal
      · rw [hflen, List.length_set]
      · intro j hj
        rw [List.map_cons, List.mem_cons, not_or] at hj
        rw [hothers j hj.2, List.getElem?_set_ne (Ne.symm hj.1)]
      · rw [List.flatMap_cons, List.length_append, hlen, List.take_add, List.drop_drop]
        refine List.rel_append ?_ hall
        have hin := (List.getElem?_eq_some_iff.mp hget).1
        refine mergedAt_tensor hv ?_ ?_
        · rw [List.length_take, List.length_drop]
          omega
        · rw [hothers e.index hnodup.1, List.getElem?_set_self hin, zip_take_length]

/-- Every value has a coordinate. -/
theorem valueCount_eq (h : LoadedFrom file a) : valueCount a = (coordinates a).length := by
  have hlens : (fileEntries a).map (fun e => (coordinatesOf e).length) =
      a.values.map List.length := by
    have hlen := h.tensors.length_eq
    refine List.ext_getElem ?_ fun i hi hi' => ?_
    · simp [fileEntries, hlen]
    · have ht : i < a.header.tensors.length := by simpa [fileEntries] using hi
      have hv : i < a.values.length := hlen ▸ ht
      have hshape := ((List.forall₂_iff_get.mp h.tensors).2 i ht hv).2
      simp only [List.get_eq_getElem] at hshape
      simp [fileEntries, coordinatesOf, hshape]
  rw [valueCount, ← hlens, coordinates, List.length_flatMap]
  exact (((canonical_perm a).map _).sum_eq).symm

/-- A coordinate that holds a value is listed. -/
theorem mem_coordinates (h : LoadedFrom file a) {c : Coordinate} {w : F32}
    (hw : valueAt a a.values c = some w) : c ∈ coordinates a := by
  obtain ⟨v, hv, hget⟩ := Option.bind_eq_some_iff.mp hw
  obtain ⟨i, hi, hvalues⟩ := Option.bind_eq_some_iff.mp hv
  obtain ⟨hlt, hname, -⟩ := List.findIdx?_eq_some_iff_getElem.mp hi
  have ht : a.header.tensors[i]? = some (a.header.tensors.get ⟨i, hlt⟩) :=
    List.getElem?_eq_getElem hlt
  have he : (⟨i, c.1, (a.header.tensors.get ⟨i, hlt⟩).dims⟩ : Entry) ∈ canonical a := by
    refine (canonical_perm a).mem_iff.mpr (mem_fileEntries.mpr ⟨_, ht, ?_, rfl⟩)
    simpa using hname
  obtain ⟨v', hplaced⟩ := placed_canonical h he
  have hsame : v' = v := Option.some.inj (hplaced.values.symm.trans hvalues)
  subst hsame
  have hc : c.2 < v'.length := (List.getElem?_eq_some_iff.mp hget).1
  refine List.mem_flatMap.mpr ⟨_, he, ?_⟩
  rw [hplaced.coordinatesOf]
  exact List.mem_map.mpr ⟨c.2, List.mem_range.mpr hc, rfl⟩

variable (ops) in
theorem merge_spec (h : LoadedFrom file a) {agg : List Int64}
    (hlen : agg.length = (coordinates a).length) (scaleLog2 : UInt8) :
    ∃ merged, merge ops a agg scaleLog2 = .ok merged ∧ merged.length = a.values.length ∧
      List.Forall₂ (MergedAt ops (ops.mul64 Q16_UNIT (ops.powi264 scaleLog2)) a merged)
        (coordinates a) agg := by
  obtain ⟨merged, hmerged, hcount, -, hall⟩ := mergeLoop_spec ops
    (ops.mul64 Q16_UNIT (ops.powi264 scaleLog2)) 0 a.values (canonical_index_nodup a)
    (fun e he => by
      obtain ⟨v, hv⟩ := placed_canonical h he
      exact ⟨v, hv, hv.values⟩)
    (by rw [Nat.zero_add, hlen]; exact le_rfl)
  refine ⟨merged, ?_, hcount, ?_⟩
  · rw [merge, if_neg (not_not_intro (hlen.trans (valueCount_eq h).symm))]
    exact hmerged
  · rwa [List.drop_zero, List.take_of_length_le (by rw [hlen]; exact le_rfl)] at hall

/-! ## Exact arithmetic -/

/-- The operations `compute` and `merge` perform on a start value `v` and a trained
value `w` are exact: their difference lies on the scaled Q16 grid, and nothing on
the way back is rounded.  `val32` and `val64` are the numbers that bits denote. -/
structure ExactAt (ops : FloatOps) (val32 : F32 → ℚ) (val64 : F64 → ℚ) (scaleLog2 : UInt8)
    (v w : F32) : Prop where
  sub : val32 (ops.sub w v) = val32 w - val32 v
  scale : val32 (ops.mul (ops.sub w v) (ops.powi2 scaleLog2)) =
    val32 (ops.sub w v) * 2 ^ scaleLog2.toNat
  grid : ((deltaValue ops (ops.powi2 scaleLog2) v w).toInt : ℚ) =
    val32 (ops.mul (ops.sub w v) (ops.powi2 scaleLog2)) * 65536
  quotient : val64 (ops.div64 (ops.ofInt (deltaValue ops (ops.powi2 scaleLog2) v w))
      (ops.mul64 Q16_UNIT (ops.powi264 scaleLog2))) =
    (deltaValue ops (ops.powi2 scaleLog2) v w).toInt / (65536 * 2 ^ scaleLog2.toNat)
  sum : val64 (ops.add64 (ops.widen v)
      (ops.div64 (ops.ofInt (deltaValue ops (ops.powi2 scaleLog2) v w))
        (ops.mul64 Q16_UNIT (ops.powi264 scaleLog2)))) =
    val32 v + val64 (ops.div64 (ops.ofInt (deltaValue ops (ops.powi2 scaleLog2) v w))
      (ops.mul64 Q16_UNIT (ops.powi264 scaleLog2)))
  narrow : val32 (mergeValue ops (ops.mul64 Q16_UNIT (ops.powi264 scaleLog2)) v
      (deltaValue ops (ops.powi2 scaleLog2) v w)) =
    val64 (ops.add64 (ops.widen v)
      (ops.div64 (ops.ofInt (deltaValue ops (ops.powi2 scaleLog2) v w))
        (ops.mul64 Q16_UNIT (ops.powi264 scaleLog2))))

theorem ExactAt.merged {val32 : F32 → ℚ} {val64 : F64 → ℚ} {scaleLog2 : UInt8} {v w : F32}
    (h : ExactAt ops val32 val64 scaleLog2 v w) :
    val32 (mergeValue ops (ops.mul64 Q16_UNIT (ops.powi264 scaleLog2)) v
      (deltaValue ops (ops.powi2 scaleLog2) v w)) = val32 w := by
  rw [h.narrow, h.sum, h.quotient, h.grid, h.scale, h.sub]
  have hpow : (2 : ℚ) ^ scaleLog2.toNat ≠ 0 := by positivity
  field_simp
  ring

/-- For any two adapters that load and have one manifest hash (where the two
manifests do not collide): both list the same coordinates; `compute` never reports
a mismatch, and gives a delta exactly when at every coordinate the values are finite and
their scaled difference is finite and in range; the value it produces at a position and
the one `merge` consumes there belong to the coordinate listed at that position; and in
exact arithmetic merging the computed delta gives the trained adapter's value at every
coordinate. -/
theorem delta_aligned (H : Hashes) (ops : FloatOps) (path path' : String)
    (file file' : List UInt8) (start trained : Adapter) (scaleLog2 : UInt8)
    (hstart : Adapter.load path file = .ok start)
    (htrained : Adapter.load path' file' = .ok trained)
    (hmanifest : manifestHash H start = manifestHash H trained)
    (hfree : H.keccak256 (manifestBytes start) = H.keccak256 (manifestBytes trained) →
      manifestBytes start = manifestBytes trained) :
    coordinates start = coordinates trained ∧
    (∀ what, compute ops start trained scaleLog2 ≠ .error (.err (.mismatch what))) ∧
    compute ops start trained scaleLog2 ≠ .error .panic ∧
    ((∃ out, compute ops start trained scaleLog2 = .ok out) ↔
      ∀ c v w, valueAt start start.values c = some v → valueAt trained trained.values c = some w →
        Deltable ops (ops.powi2 scaleLog2) v w) ∧
    (∀ out, compute ops start trained scaleLog2 = .ok out →
      List.Forall₂ (DeltaAt ops (ops.powi2 scaleLog2) start trained) (coordinates start) out) ∧
    (∀ agg, agg.length = (coordinates start).length →
      ∃ merged, merge ops start agg scaleLog2 = .ok merged ∧
        List.Forall₂ (MergedAt ops (ops.mul64 Q16_UNIT (ops.powi264 scaleLog2)) start merged)
          (coordinates start) agg) ∧
    ∀ (val32 : F32 → ℚ) (val64 : F64 → ℚ),
      (∀ c v w, valueAt start start.values c = some v → valueAt trained trained.values c = some w →
        Deltable ops (ops.powi2 scaleLog2) v w ∧ ExactAt ops val32 val64 scaleLog2 v w) →
      ∃ out merged, compute ops start trained scaleLog2 = .ok out ∧
        merge ops start out scaleLog2 = .ok merged ∧
        ∀ c w, valueAt trained trained.values c = some w →
          ∃ m, valueAt start merged c = some m ∧ val32 m = val32 w := by
  have hs := loadedFrom_load hstart
  have ht := loadedFrom_load htrained
  have hkeccak : H.keccak256 (manifestBytes start) = H.keccak256 (manifestBytes trained) := by
    simpa [manifestHash, keccak] using hmanifest
  have hshapes := shapes_of_manifest hs ht (hfree hkeccak)
  have hcoordinates : coordinates start = coordinates trained := by
    rw [coordinates_eq_shapes, coordinates_eq_shapes, hshapes]
  have hmatched := matched_canonical hs ht hshapes
  have hcompute : compute ops start trained scaleLog2 =
      computeLoop ops start trained (ops.powi2 scaleLog2)
        ((canonical start).zip (canonical trained)) := by
    rw [compute, if_neg (not_not_intro hmatched.length_eq)]
  have hcases := computeLoop_cases ops (ops.powi2 scaleLog2) hmatched
  rw [← hcompute] at hcases
  have hdelta : ∀ out, compute ops start trained scaleLog2 = .ok out →
      List.Forall₂ (DeltaAt ops (ops.powi2 scaleLog2) start trained) (coordinates start) out := by
    intro out hout
    rcases hcases with ⟨out', hout', hall, -⟩ | ⟨e, he, -⟩
    · rw [hout] at hout'
      cases hout'
      exact hall
    · rw [hout] at he
      cases he
  -- a coordinate that both adapters have a value at is one of those in the list
  have hdeltable : (∀ c ∈ coordinates start, DeltableAt ops (ops.powi2 scaleLog2) start trained c) ↔
      ∀ c v w, valueAt start start.values c = some v → valueAt trained trained.values c = some w →
        Deltable ops (ops.powi2 scaleLog2) v w :=
    ⟨fun h c v w hv hw => h c (mem_coordinates hs hv) (v, w) ⟨hv, hw⟩,
      fun h c _ p hp => h c p.1 p.2 hp.1 hp.2⟩
  have hreturns : (∃ out, compute ops start trained scaleLog2 = .ok out) ↔
      ∀ c v w, valueAt start start.values c = some v → valueAt trained trained.values c = some w →
        Deltable ops (ops.powi2 scaleLog2) v w := by
    rw [← hdeltable]
    rcases hcases with ⟨out, hout, -, hall⟩ | ⟨e, he, -, hnot⟩
    · exact ⟨fun _ => hall, fun _ => ⟨out, hout⟩⟩
    · refine ⟨fun ⟨out, hout⟩ => ?_, fun hall => absurd hall hnot⟩
      rw [he] at hout
      cases hout
  refine ⟨hcoordinates, ?_, ?_, hreturns, hdelta, ?_, ?_⟩
  · intro what hwhat
    rcases hcases with ⟨out, hout, -⟩ | ⟨e, he, habout, -⟩
    · rw [hwhat] at hout
      cases hout
    · rw [hwhat] at he
      cases he
      exact habout
  · intro hpanic
    rcases hcases with ⟨out, hout, -⟩ | ⟨e, he, -⟩
    · rw [hpanic] at hout
      cases hout
    · rw [hpanic] at he
      cases he
  · intro agg hagg
    obtain ⟨merged, hmerged, -, hall⟩ := merge_spec ops hs hagg scaleLog2
    exact ⟨merged, hmerged, hall⟩
  · intro val32 val64 hexact
    obtain ⟨out, hout⟩ := hreturns.mpr fun c v w hv hw => (hexact c v w hv hw).1
    have hdeltas := hdelta out hout
    obtain ⟨merged, hmerged, -, hall⟩ :=
      merge_spec ops hs hdeltas.length_eq.symm scaleLog2
    refine ⟨out, merged, hout, hmerged, fun c w hw => ?_⟩
    have hc : c ∈ coordinates start := hcoordinates ▸ mem_coordinates ht hw
    obtain ⟨⟨k, hk⟩, rfl⟩ := List.mem_iff_get.mp hc
    have hkOut : k < out.length := hdeltas.length_eq ▸ hk
    obtain ⟨v, w', hv, hw', hx⟩ := (List.forall₂_iff_get.mp hdeltas).2 k hk hkOut
    obtain ⟨v', hv', hm⟩ := (List.forall₂_iff_get.mp hall).2 k hk hkOut
    rw [hw] at hw'
    rw [hv] at hv'
    cases hw'
    cases hv'
    refine ⟨_, hm, ?_⟩
    rw [hx]
    exact (hexact _ v w hv hw).2.merged

/-! ## A run -/

/-- Operations that are those of `f32` and `f64` on the values 0, 1 and 16. -/
def tinyOps : FloatOps where
  isFinite x := x < 0x7f800000
  sub w v := if v = 0 then w else 0
  mul x y := if x = 0x3f800000 then y else 0
  abs x := x &&& 0x7fffffff
  gt x y := x > y
  powi2 n := UInt32.ofNat ((n.toNat + 127) * 2 ^ 23)
  fromF32 x := if x = 0x41800000 then 16 * 65536 else 0
  widen x := if x = 0x3f800000 then 0x3ff0000000000000 else 0
  ofInt x := if x = 16 * 65536 then 0x4130000000000000 else 0
  add64 x y := if x = 0 then y else x
  mul64 x y := if x = Q16_UNIT ∧ y = 0x4030000000000000 then 0x4130000000000000 else 0
  div64 x y := if x = y then 0x3ff0000000000000 else 0
  powi264 n := UInt64.ofNat ((n.toNat + 1023) * 2 ^ 52)
  narrow x := if x = 0x3ff0000000000000 then 0x3f800000 else 0

/-- The numbers denoted by the bits of 0, 1 and 16. -/
def tinyVal32 (x : F32) : ℚ := if x = 0x3f800000 then 1 else if x = 0x41800000 then 16 else 0

def tinyVal64 (x : F64) : ℚ := if x = 0x3ff0000000000000 then 1 else 0

theorem tinyVal32_zero : tinyVal32 0 = 0 := rfl

theorem tinyVal32_one : tinyVal32 0x3f800000 = 1 := rfl

theorem tinyVal32_sixteen : tinyVal32 0x41800000 = 16 := rfl

theorem tinyVal64_one : tinyVal64 0x3ff0000000000000 = 1 := rfl

theorem tiny_sub : tinyOps.sub 0x3f800000 0 = 0x3f800000 := rfl

theorem tiny_scaled : tinyOps.mul 0x3f800000 (tinyOps.powi2 4) = 0x41800000 := by decide

theorem tiny_delta : deltaValue tinyOps (tinyOps.powi2 4) 0 0x3f800000 = 16 * 65536 := by decide

theorem tiny_quotient :
    tinyOps.div64 (tinyOps.ofInt (16 * 65536)) (tinyOps.mul64 Q16_UNIT (tinyOps.powi264 4)) =
      0x3ff0000000000000 := by
  decide

theorem tiny_delta_int : ((16 * 65536 : Int64).toInt : ℚ) = 16 * 65536 := by
  have hint : (16 * 65536 : Int64).toInt = 16 * 65536 := by decide
  rw [hint]
  norm_num

theorem tiny_exact : ExactAt tinyOps tinyVal32 tinyVal64 4 0 0x3f800000 where
  sub := by rw [tiny_sub, tinyVal32_one, tinyVal32_zero, sub_zero]
  scale := by
    rw [tiny_sub, tiny_scaled, tinyVal32_sixteen, tinyVal32_one, show (4 : UInt8).toNat = 4 from rfl]
    norm_num
  grid := by rw [tiny_sub, tiny_scaled, tiny_delta, tinyVal32_sixteen, tiny_delta_int]
  quotient := by
    rw [tiny_delta, tiny_quotient, tinyVal64_one, tiny_delta_int,
      show (4 : UInt8).toNat = 4 from rfl]
    norm_num
  sum := by
    rw [tiny_delta, tiny_quotient, tinyVal64_one, tinyVal32_zero, zero_add]
    rfl
  narrow := by
    rw [tiny_delta, mergeValue, tiny_quotient]
    rfl

/-- A value that stays as it is. -/
theorem tiny_exact_still : ExactAt tinyOps tinyVal32 tinyVal64 4 0x3f800000 0x3f800000 where
  sub := (sub_self _).symm
  scale := (zero_mul _).symm
  grid := by
    show (((0 : Int64).toInt : ℤ) : ℚ) = 0 * 65536
    rw [show (0 : Int64).toInt = 0 by decide]
    norm_num
  quotient := by
    show (0 : ℚ) = ((0 : Int64).toInt : ℤ) / _
    rw [show (0 : Int64).toInt = 0 by decide, Int.cast_zero, zero_div]
  sum := by
    show (1 : ℚ) = 1 + 0
    rw [add_zero]
  narrow := rfl

theorem pair_canonical {x y z : F32}
    (h : a.header.tensors = rowsFrom DEFAULT_ALIGNMENT 0 (pairTensors x y z)) :
    canonical a = [⟨0, "x.lora_a", [1]⟩, ⟨1, "x.lora_b", [2]⟩] := by
  unfold canonical
  rw [h]
  simp [rowsFrom, pairTensors, List.mergeSort, List.MergeSort.Internal.splitInTwo, List.merge, nameLe]
  decide

theorem reversed_canonical {x y z : F32}
    (h : a.header.tensors = rowsFrom DEFAULT_ALIGNMENT 0 (pairTensors x y z).reverse) :
    canonical a = [⟨1, "x.lora_a", [1]⟩, ⟨0, "x.lora_b", [2]⟩] := by
  unfold canonical
  rw [h]
  simp [rowsFrom, pairTensors, List.mergeSort, List.MergeSort.Internal.splitInTwo, List.merge, nameLe]
  decide

/-- The start adapter has its two tensors in the one order and the trained adapter in the
other.  Of their three values the first and the last go from 0 to 1. -/
theorem reordered_pair_merges :
    ∃ start trained out merged,
      start.header.tensors.map TensorInfo.name = ["x.lora_b", "x.lora_a"] ∧
      trained.header.tensors.map TensorInfo.name = ["x.lora_a", "x.lora_b"] ∧
      start.values = [[0x3f800000, 0], [0]] ∧ trained.values = [[0x3f800000], [0x3f800000, 0x3f800000]] ∧
      compute tinyOps start trained 4 = .ok out ∧ merge tinyOps start out 4 = .ok merged ∧
      ∀ c w, valueAt trained trained.values c = some w →
        ∃ m, valueAt start merged c = some m ∧ tinyVal32 m = tinyVal32 w := by
  obtain ⟨file, start, hstart, -, htensors, hvalues⟩ := pair_loads "start"
    (List.reverse_perm (pairTensors 0 0x3f800000 0)) rfl
  obtain ⟨file', trained, htrained, -, htensors', hvalues'⟩ := pair_loads "trained"
    (List.Perm.refl (pairTensors 0x3f800000 0x3f800000 0x3f800000)) rfl
  have hcanonical := reversed_canonical htensors
  have hbytes : manifestBytes start = manifestBytes trained := by
    rw [manifestBytes, manifestBytes, hcanonical, pair_canonical htensors']
    rfl
  have hcoordinates : coordinates start = [("x.lora_a", 0), ("x.lora_b", 0), ("x.lora_b", 1)] := by
    rw [coordinates, hcanonical]
    rfl
  have hgood : ∀ c v w, valueAt start start.values c = some v →
      valueAt trained trained.values c = some w →
      Deltable tinyOps (tinyOps.powi2 4) v w ∧ ExactAt tinyOps tinyVal32 tinyVal64 4 v w := by
    have hup : Deltable tinyOps (tinyOps.powi2 4) 0 0x3f800000 :=
      ⟨by decide, by decide, by decide⟩
    have hstill : Deltable tinyOps (tinyOps.powi2 4) 0x3f800000 0x3f800000 :=
      ⟨by decide, by decide, by decide⟩
    intro c v w hv hw
    have hc := mem_coordinates (loadedFrom_load hstart) hv
    rw [hcoordinates, List.mem_cons, List.mem_cons, List.mem_singleton] at hc
    rw [valueAt, tensorAt, htensors, hvalues] at hv
    rw [valueAt, tensorAt, htensors', hvalues'] at hw
    rcases hc with rfl | rfl | rfl
    · cases hv
      cases hw
      exact ⟨hup, tiny_exact⟩
    · cases hv
      cases hw
      exact ⟨hstill, tiny_exact_still⟩
    · cases hv
      cases hw
      exact ⟨hup, tiny_exact⟩
  obtain ⟨-, -, -, -, -, -, hexact⟩ := delta_aligned Tree.residueHashes tinyOps "start" "trained"
    file file' start trained 4 hstart htrained (by rw [manifestHash, manifestHash, hbytes])
    fun _ => hbytes
  obtain ⟨out, merged, hout, hmerged, hall⟩ := hexact tinyVal32 tinyVal64 hgood
  exact ⟨start, trained, out, merged, by rw [htensors]; rfl, by rw [htensors']; rfl, hvalues, hvalues',
    hout, hmerged, hall⟩

end Delta
end Federated
end ComputePool
