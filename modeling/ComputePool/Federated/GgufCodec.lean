import ComputePool.Federated.Gguf

/-!
# The GGUF header as a codec

The reader and the writer of each part of the header agree: whatever is read can
be written back in as many bytes, and is then read again as it was.
-/

namespace ComputePool
namespace Federated
namespace Gguf

open RustStd Codec

theorem take_agrees (n : Nat) (what : String) :
    Agrees (take n what) id (fun bytes => bytes.length = n) where
  sound := by
    intro s a s' h
    unfold take at h
    split at h
    · cases h
    · cases h
      simp only [id, List.length_take, List.length_drop]
      omega
  complete := by
    intro a ha rest
    have hfits : ¬ n > (a ++ rest).length := by
      rw [List.length_append]
      omega
    show take n what (a ++ rest) = .ok (a, rest)
    rw [take, if_neg hfits, ← ha, List.take_left, List.drop_left]

/-- A number of `n` bytes, and the value it stands for. -/
theorem scalar_agrees {α : Type} {n : Nat} {of : Nat → α} {what : String} (to_ : α → Nat)
    (hlt : ∀ a, to_ a < 256 ^ n) (hof : ∀ a, of (to_ a) = a) :
    Agrees (scalar n of what) (fun a => toLE n (to_ a)) (fun _ => True) where
  sound := by
    intro s a s' h
    obtain ⟨bytes, hbytes, -⟩ := map_ok.mp h
    obtain ⟨hlength, hsize⟩ := (take_agrees n what).sound hbytes
    refine ⟨trivial, ?_⟩
    rw [toLE_length, ← hlength]
    exact hsize
  complete := by
    intro a _
    have hread := ((take_agrees n what).complete (toLE_length n (to_ a))).map
      fun bytes => of (leNat bytes)
    rwa [leNat_toLE (hlt a), hof] at hread

theorem u32_agrees (what : String) :
    Agrees (u32 what) (fun v => toLE 4 v.toNat) (fun _ => True) :=
  scalar_agrees UInt32.toNat (fun v => v.toNat_lt) fun _ => UInt32.ofNat_toNat

theorem u64_agrees (what : String) :
    Agrees (u64 what) (fun v => toLE 8 v.toNat) (fun _ => True) :=
  scalar_agrees UInt64.toNat (fun v => v.toNat_lt) fun _ => UInt64.ofNat_toNat

/-- A reader that first checks a condition. -/
theorem ite_throw_ok {α : Type} {c : Prop} [Decidable c] {e : GgufError} {p : Cursor α}
    {s s' : List UInt8} {a : α} :
    (if c then throw e else p) s = .ok (a, s') ↔ ¬ c ∧ p s = .ok (a, s') := by
  by_cases hc : c
  · rw [if_pos hc]
    exact ⟨nofun, fun h => absurd hc h.1⟩
  · rw [if_neg hc]
    exact ⟨fun h => ⟨hc, h⟩, fun h => h.2⟩

/-- A reader that always fails agrees on nothing. -/
theorem throw_agrees {α : Type} {e : GgufError} {enc : α → List UInt8} {good : α → Prop}
    (hnone : ∀ a, ¬ good a) : Agrees (throw e : Cursor α) enc good :=
  ⟨nofun, fun h => absurd h (hnone _)⟩

/-- A string no longer than the header may carry. -/
def ShortString (s : String) : Prop := (utf8 s).length ≤ MAX_STRING

theorem text_ok {bytes s s' : List UInt8} {a : String} (h : text bytes s = .ok (a, s')) :
    utf8 a = bytes ∧ s' = s := by
  cases hutf : fromUtf8 bytes with
  | none =>
      rw [text, hutf] at h
      cases h
  | some found =>
      rw [text, hutf] at h
      cases h
      exact ⟨utf8_of_fromUtf8 hutf, rfl⟩

theorem text_utf8 (a : String) : Reads (text (utf8 a)) [] a := by
  rw [text, fromUtf8_utf8]
  exact Reads.pure a

theorem string_agrees (what : String) : Agrees (string what) putStr ShortString where
  sound := by
    intro s a s' h
    obtain ⟨n, t, hn, hrest⟩ := bind_ok.mp h
    obtain ⟨hshort, hrest⟩ := ite_throw_ok.mp hrest
    obtain ⟨bytes, t', hbytes, hlast⟩ := bind_ok.mp hrest
    obtain ⟨-, hsize⟩ := (u64_agrees what).sound hn
    obtain ⟨hlength, hsize'⟩ := (take_agrees _ what).sound hbytes
    have htext := text_ok hlast
    refine ⟨?_, ?_⟩
    · rw [ShortString, htext.1, hlength]
      exact not_lt.mp hshort
    · rw [putStr, htext.1, htext.2, List.length_append, toLE_length]
      rw [toLE_length] at hsize
      rw [id] at hsize'
      omega
  complete := by
    intro a ha
    have hlt : (utf8 a).length < 2 ^ 64 := ha.trans_lt (by decide)
    have hn : (UInt64.ofNat (utf8 a).length).toNat = (utf8 a).length :=
      UInt64.toNat_ofNat_of_lt' hlt
    have hcount : Reads (u64 what) (toLE 8 (utf8 a).length) (UInt64.ofNat (utf8 a).length) := by
      have hread := (u64_agrees what).complete (a := UInt64.ofNat (utf8 a).length) trivial
      rwa [hn] at hread
    refine hcount.bind ?_
    rw [hn, if_neg (not_lt.mpr ha)]
    have hread := ((take_agrees (utf8 a).length what).complete (a := utf8 a) rfl).bind (text_utf8 a)
    rwa [List.append_nil] at hread

/-! ## Values -/

/-- A value that a header can carry under type id `ty`, nesting at most `left`
arrays deep. -/
def WellFormed (left : Nat) (ty : UInt32) (v : Value) : Prop :=
  v.typeId = ty ∧
    match v with
    | .str s => ShortString s
    | .array elem items =>
        items.length ≤ MAX_ARRAY ∧
          match left with
          | 0 => False
          | left + 1 => ∀ i ∈ items, WellFormed left elem i
    | _ => True

theorem WellFormed.typeId {left : Nat} {ty : UInt32} {v : Value} (h : WellFormed left ty v) :
    v.typeId = ty := by
  unfold WellFormed at h
  exact h.1

/-- Neither a string nor an array. -/
def Value.isNumber : Value → Bool
  | .str _ => false
  | .array _ _ => false
  | _ => true

theorem wellFormed_number {left : Nat} {ty : UInt32} {v : Value} (h : v.isNumber = true) :
    WellFormed left ty v ↔ v.typeId = ty := by
  unfold WellFormed
  cases v with
  | str s => cases h
  | array elem items => cases h
  | _ => simp

theorem wellFormed_str {left : Nat} {s : String} :
    WellFormed left 8 (.str s) ↔ ShortString s := by
  unfold WellFormed
  simp [Value.typeId]

theorem wellFormed_array {left : Nat} {elem : UInt32} {items : List Value} :
    WellFormed (left + 1) 9 (.array elem items) ↔
      items.length ≤ MAX_ARRAY ∧ ∀ i ∈ items, WellFormed left elem i := by
  conv_lhs => unfold WellFormed
  simp [Value.typeId]

theorem not_wellFormed_zero_array {ty elem : UInt32} {items : List Value} :
    ¬ WellFormed 0 ty (.array elem items) := by
  unfold WellFormed
  simp

theorem putValues_eq (items : List Value) : putValues items = items.flatMap putValue := by
  induction items with
  | nil => rfl
  | cons v rest ih => rw [putValues, ih, List.flatMap_cons]

/-- Every value takes at least a byte. -/
theorem putValue_length_pos (v : Value) : 0 < (putValue v).length := by
  cases v <;> simp [putValue, putStr]

theorem length_le_putValues (items : List Value) : items.length ≤ (putValues items).length := by
  induction items with
  | nil => exact Nat.zero_le _
  | cons v rest ih =>
      have hpos := putValue_length_pos v
      rw [putValues, List.length_append, List.length_cons]
      omega

/-- A value of a numeric type: its constructor applied to a number. -/
theorem number_agrees {α : Type} {n left : Nat} {ty : UInt32} {of : Nat → α} {what : String}
    (make : α → Value) (to_ : α → Nat) (hlt : ∀ a, to_ a < 256 ^ n) (hof : ∀ a, of (to_ a) = a)
    (hput : ∀ a, putValue (make a) = toLE n (to_ a)) (hnumber : ∀ a, (make a).isNumber = true)
    (hty : ∀ v, v.typeId = ty ↔ ∃ a, make a = v) :
    Agrees (make <$> scalar n of what) putValue (WellFormed left ty) := by
  refine (scalar_agrees to_ hlt hof).map hput (fun a _ => ?_) fun v hv => ?_
  · rw [wellFormed_number (hnumber a)]
    exact (hty _).mpr ⟨a, rfl⟩
  · obtain ⟨a, ha⟩ := (hty v).mp hv.typeId
    exact ⟨a, trivial, ha⟩

/-- A count of a machine word, read back. -/
theorem u64_reads (what : String) {n : Nat} (h : n < 2 ^ 64) :
    Reads (u64 what) (toLE 8 n) (UInt64.ofNat n) := by
  have hread := (u64_agrees what).complete (a := UInt64.ofNat n) trivial
  rwa [UInt64.toNat_ofNat_of_lt' h] at hread

theorem u32_reads (what : String) {n : Nat} (h : n < 2 ^ 32) :
    Reads (u32 what) (toLE 4 n) (UInt32.ofNat n) := by
  have hread := (u32_agrees what).complete (a := UInt32.ofNat n) trivial
  rwa [UInt32.toNat_ofNat_of_lt' h] at hread

/-- The elements of an array, once their number is known. -/
def arrayItems (left : Nat) (elem : UInt32) (n : Nat) : Cursor Value := do
  let remaining ← get
  if n > MAX_ARRAY ∨ n > remaining.length then throw (.bounds "array length")
  else do
    let items ← times (value left elem) n
    pure (Value.array elem items)

theorem arrayItems_ok {left n : Nat} {elem : UInt32} {s s' : List UInt8} {v : Value}
    (h : arrayItems left elem n s = .ok (v, s')) :
    n ≤ MAX_ARRAY ∧ ∃ items, times (value left elem) n s = .ok (items, s') ∧
      v = .array elem items := by
  obtain ⟨remaining, t, hget, hrest⟩ := bind_ok.mp h
  cases hget
  obtain ⟨hfits, hrest⟩ := ite_throw_ok.mp hrest
  obtain ⟨items, t', hitems, hlast⟩ := bind_ok.mp hrest
  cases hlast
  exact ⟨not_lt.mp (not_or.mp hfits).1, items, hitems, rfl⟩

theorem arrayItems_reads {left : Nat} {elem : UInt32} {items : List Value}
    (hcount : items.length ≤ MAX_ARRAY)
    (hitems : ∀ i ∈ items, Reads (value left elem) (putValue i) i) :
    Reads (arrayItems left elem items.length) (putValues items) (.array elem items) := by
  intro rest
  -- every element takes a byte, so the count does not exceed what remains
  have hfits : ¬ (items.length > MAX_ARRAY ∨
      items.length > (putValues items ++ rest).length) := by
    have hlength := length_le_putValues items
    rw [List.length_append]
    omega
  have hread := (Reads.times hitems).map (Value.array elem) rest
  rw [← putValues_eq] at hread
  show (if _ then throw _ else _ : Cursor Value) (putValues items ++ rest) = _
  rw [if_neg hfits]
  exact hread

theorem array_agrees {left : Nat} (ih : ∀ elem, Agrees (value left elem) putValue
    (WellFormed left elem)) :
    Agrees (do
      let elem ← u32 "array type"
      let n ← u64 "array length"
      arrayItems left elem n.toNat) putValue (WellFormed (left + 1) 9) where
  sound := by
    intro s v s' h
    obtain ⟨elem, t, helem, hrest⟩ := bind_ok.mp h
    obtain ⟨n, t', hn, hrest⟩ := bind_ok.mp hrest
    obtain ⟨hcount, items, hitems, rfl⟩ := arrayItems_ok hrest
    obtain ⟨-, hsize⟩ := (u32_agrees _).sound helem
    obtain ⟨-, hsize'⟩ := (u64_agrees _).sound hn
    obtain ⟨⟨hlength, hgood⟩, hsize''⟩ := ((ih elem).times n.toNat).sound hitems
    refine ⟨wellFormed_array.mpr ⟨hlength ▸ hcount, hgood⟩, ?_⟩
    rw [putValue, putValues_eq]
    simp only [List.length_append, toLE_length] at hsize hsize' ⊢
    omega
  complete := by
    intro v hv
    cases v with
    | array elem items =>
        obtain ⟨hcount, hgood⟩ := wellFormed_array.mp hv
        have hlt : items.length < 2 ^ 64 := hcount.trans_lt (by decide)
        have hitems := arrayItems_reads hcount fun i hi => (ih elem).complete (hgood i hi)
        rw [putValue, List.append_assoc]
        refine ((u32_agrees _).complete trivial).bind ((u64_reads _ hlt).bind ?_)
        rwa [UInt64.toNat_ofNat_of_lt' hlt]
    | _ => exact absurd hv.typeId (by simp [Value.typeId])

theorem value_agrees (left : Nat) (ty : UInt32) :
    Agrees (value left ty) putValue (WellFormed left ty) := by
  induction left using Nat.strongRecOn generalizing ty with
  | ind left ih =>
    unfold value
    split
    · refine number_agrees Value.u8 UInt8.toNat (fun v => v.toNat_lt) (fun v => UInt8.ofNat_toNat)
        (fun a => ?_) (fun _ => rfl) (fun v => ?_)
      · simp [putValue, toLE, toBE]
      · cases v <;> simp [Value.typeId]
    · refine number_agrees Value.i8 (fun v => v.toUInt8.toNat) (fun v => v.toUInt8.toNat_lt)
        (fun v => ?_) (fun _ => rfl) (fun _ => rfl) (fun v => ?_)
      · simp
      · cases v <;> simp [Value.typeId]
    · refine number_agrees Value.u16 UInt16.toNat (fun v => v.toNat_lt)
        (fun v => UInt16.ofNat_toNat) (fun _ => rfl) (fun _ => rfl) (fun v => ?_)
      cases v <;> simp [Value.typeId]
    · refine number_agrees Value.i16 (fun v => v.toUInt16.toNat) (fun v => v.toUInt16.toNat_lt)
        (fun v => ?_) (fun _ => rfl) (fun _ => rfl) (fun v => ?_)
      · simp
      · cases v <;> simp [Value.typeId]
    · refine number_agrees Value.u32 UInt32.toNat (fun v => v.toNat_lt)
        (fun v => UInt32.ofNat_toNat) (fun _ => rfl) (fun _ => rfl) (fun v => ?_)
      cases v <;> simp [Value.typeId]
    · refine number_agrees Value.i32 (fun v => v.toUInt32.toNat) (fun v => v.toUInt32.toNat_lt)
        (fun v => ?_) (fun _ => rfl) (fun _ => rfl) (fun v => ?_)
      · simp
      · cases v <;> simp [Value.typeId]
    · refine number_agrees Value.f32 UInt32.toNat (fun v => v.toNat_lt)
        (fun v => UInt32.ofNat_toNat) (fun _ => rfl) (fun _ => rfl) (fun v => ?_)
      cases v <;> simp [Value.typeId]
    · refine number_agrees Value.bool (fun v => if v then 1 else 0)
        (fun v => by cases v <;> simp) (fun v => by cases v <;> simp)
        (fun v => by cases v <;> rfl) (fun _ => rfl) (fun v => ?_)
      cases v <;> simp [Value.typeId]
    · refine (string_agrees _).map (fun s => rfl) (fun s hs => wellFormed_str.mpr hs) fun v hv => ?_
      cases v with
      | str s => exact ⟨s, wellFormed_str.mp hv, rfl⟩
      | _ => exact absurd hv.typeId (by simp [Value.typeId])
    · cases left with
      | zero =>
          refine throw_agrees fun v hv => ?_
          cases v with
          | array elem items => exact not_wellFormed_zero_array hv
          | _ => exact absurd hv.typeId (by simp [Value.typeId])
      | succ left => exact array_agrees fun elem => ih left (Nat.lt_succ_self left) elem
    · refine number_agrees Value.u64 UInt64.toNat (fun v => v.toNat_lt)
        (fun v => UInt64.ofNat_toNat) (fun _ => rfl) (fun _ => rfl) (fun v => ?_)
      cases v <;> simp [Value.typeId]
    · refine number_agrees Value.i64 (fun v => v.toUInt64.toNat) (fun v => v.toUInt64.toNat_lt)
        (fun v => ?_) (fun _ => rfl) (fun _ => rfl) (fun v => ?_)
      · simp
      · cases v <;> simp [Value.typeId]
    · refine number_agrees Value.f64 UInt64.toNat (fun v => v.toNat_lt)
        (fun v => UInt64.ofNat_toNat) (fun _ => rfl) (fun _ => rfl) (fun v => ?_)
      cases v <;> simp [Value.typeId]
    · refine throw_agrees fun v hv => ?_
      have hty := hv.typeId
      cases v <;> simp_all [Value.typeId]

/-! ## The header -/

/-- An entry a header can carry. -/
def GoodEntry (e : String × Value) : Prop :=
  ShortString e.1 ∧ WellFormed MAX_DEPTH e.2.typeId e.2

theorem entry_agrees : Agrees entry putEntry GoodEntry where
  sound := by
    intro s e s' h
    obtain ⟨key, t, hkey, hrest⟩ := bind_ok.mp h
    obtain ⟨ty, t', hty, hrest⟩ := bind_ok.mp hrest
    obtain ⟨v, t'', hv, hlast⟩ := bind_ok.mp hrest
    cases hlast
    obtain ⟨hshort, hsize⟩ := (string_agrees _).sound hkey
    obtain ⟨-, hsize'⟩ := (u32_agrees _).sound hty
    obtain ⟨hwf, hsize''⟩ := (value_agrees _ _).sound hv
    refine ⟨⟨hshort, by rwa [hwf.typeId]⟩, ?_⟩
    simp only [putEntry, List.length_append, toLE_length] at hsize' ⊢
    omega
  complete := by
    rintro ⟨key, v⟩ ⟨hshort, hwf⟩
    have hlast := ((value_agrees _ _).complete hwf).bind
      (q := fun v => pure (key, v)) (Reads.pure (key, v))
    rw [List.append_nil] at hlast
    rw [putEntry, List.append_assoc]
    exact ((string_agrees _).complete hshort).bind (((u32_agrees _).complete trivial).bind hlast)

/-- A row the tensor table can carry. -/
def GoodTensor (t : TensorInfo) : Prop :=
  ShortString t.name ∧ 0 < t.dims.length ∧ t.dims.length ≤ MAX_DIMS

theorem tensorInfo_agrees : Agrees tensorInfo putTensorInfo GoodTensor where
  sound := by
    intro s t s' h
    obtain ⟨name, s1, hname, hrest⟩ := bind_ok.mp h
    obtain ⟨nd, s2, hnd, hrest⟩ := bind_ok.mp hrest
    obtain ⟨hbound, hrest⟩ := ite_throw_ok.mp hrest
    obtain ⟨dims, s3, hdims, hrest⟩ := bind_ok.mp hrest
    obtain ⟨ty, s4, hty, hrest⟩ := bind_ok.mp hrest
    obtain ⟨offset, s5, hoffset, hlast⟩ := bind_ok.mp hrest
    cases hlast
    obtain ⟨hshort, hsize⟩ := (string_agrees _).sound hname
    obtain ⟨-, hsize'⟩ := (u32_agrees _).sound hnd
    obtain ⟨⟨hlength, -⟩, hsize''⟩ := ((u64_agrees _).times _).sound hdims
    obtain ⟨-, hsize3⟩ := (u32_agrees _).sound hty
    obtain ⟨-, hsize4⟩ := (u64_agrees _).sound hoffset
    refine ⟨⟨hshort, ?_, ?_⟩, ?_⟩
    · show 0 < dims.length
      omega
    · show dims.length ≤ MAX_DIMS
      omega
    · simp only [putTensorInfo, List.length_append, toLE_length] at hsize' hsize3 hsize4 ⊢
      omega
  complete := by
    rintro ⟨name, dims, ty, offset⟩ ⟨hshort, hpos, hmax⟩
    have hpos : 0 < dims.length := hpos
    have hmax : dims.length ≤ 4 := hmax
    have hlt : dims.length < 2 ^ 32 := by omega
    have hnd : (UInt32.ofNat dims.length).toNat = dims.length :=
      UInt32.toNat_ofNat_of_lt' hlt
    have hlast := ((u64_agrees "tensor offset").complete (a := offset) trivial).bind
      (q := fun offset => pure (⟨name, dims, ty, offset⟩ : TensorInfo)) (Reads.pure _)
    rw [List.append_nil] at hlast
    have hdims : Reads (times (u64 "tensor dim") dims.length)
        (dims.flatMap fun d => toLE 8 d.toNat) dims :=
      Reads.times fun d _ => (u64_agrees _).complete trivial
    simp only [putTensorInfo, List.append_assoc]
    refine ((string_agrees _).complete hshort).bind ((u32_reads _ hlt).bind ?_)
    rw [hnd, if_neg (by simp only [MAX_DIMS]; omega)]
    exact hdims.bind (((u32_agrees _).complete trivial).bind hlast)

/-- A tensor table without a repeated name, among them none of `names`. -/
structure GoodTable (n : Nat) (names : List String) (ts : List TensorInfo) : Prop where
  length : ts.length = n
  rows : ∀ t ∈ ts, GoodTensor t
  nodup : (ts.map TensorInfo.name).Nodup
  fresh : ∀ t ∈ ts, t.name ∉ names

theorem tensorTable_agrees (n : Nat) (names : List String) :
    Agrees (tensorTable n names) (fun ts => ts.flatMap putTensorInfo) (GoodTable n names) := by
  induction n generalizing names with
  | zero =>
      refine ⟨fun {s ts s'} h => ?_, fun {ts} h => ?_⟩
      · cases h
        exact ⟨⟨rfl, nofun, List.nodup_nil, nofun⟩, Nat.zero_add _⟩
      · have hnil := List.length_eq_zero_iff.mp h.length
        subst hnil
        exact Reads.pure []
  | succ n ih =>
      refine ⟨fun {s ts s'} h => ?_, fun {ts} h => ?_⟩
      · obtain ⟨t, s1, ht, hrest⟩ := bind_ok.mp h
        obtain ⟨hnew, hrest⟩ := ite_throw_ok.mp hrest
        obtain ⟨rest, s2, hothers, hlast⟩ := bind_ok.mp hrest
        cases hlast
        obtain ⟨hgood, hsize⟩ := tensorInfo_agrees.sound ht
        obtain ⟨htable, hsize'⟩ := (ih (t.name :: names)).sound hothers
        refine ⟨⟨?_, ?_, ?_, ?_⟩, ?_⟩
        · rw [List.length_cons, htable.length]
        · intro u hu
          rcases List.mem_cons.mp hu with rfl | hu
          · exact hgood
          · exact htable.rows u hu
        · rw [List.map_cons, List.nodup_cons]
          refine ⟨fun hmem => ?_, htable.nodup⟩
          obtain ⟨u, hu, hname⟩ := List.mem_map.mp hmem
          exact htable.fresh u hu (hname ▸ List.mem_cons_self)
        · intro u hu
          rcases List.mem_cons.mp hu with rfl | hu
          · exact hnew
          · exact fun hmem => htable.fresh u hu (List.mem_cons_of_mem _ hmem)
        · rw [List.flatMap_cons, List.length_append]
          omega
      · cases ts with
        | nil => cases h.length
        | cons t rest =>
            have htable : GoodTable n (t.name :: names) rest :=
              { length := Nat.succ.inj h.length
                rows := fun u hu => h.rows u (List.mem_cons_of_mem _ hu)
                nodup := (List.nodup_cons.mp h.nodup).2
                fresh := by
                  intro u hu hmem
                  rcases List.mem_cons.mp hmem with hsame | hmem
                  · exact (List.nodup_cons.mp h.nodup).1 (hsame ▸ List.mem_map_of_mem hu)
                  · exact h.fresh u (List.mem_cons_of_mem _ hu) hmem }
            have hlast := ((ih (t.name :: names)).complete htable).bind
              (q := fun rest => pure (t :: rest)) (Reads.pure _)
            rw [List.append_nil] at hlast
            rw [List.flatMap_cons]
            refine (tensorInfo_agrees.complete (h.rows t List.mem_cons_self)).bind ?_
            rw [if_neg (h.fresh t List.mem_cons_self)]
            exact hlast

/-- The bytes of a header. -/
def putHeader (version : UInt32) (kv : List (String × Value)) (ts : List TensorInfo) :
    List UInt8 :=
  MAGIC ++ (toLE 4 version.toNat ++ (toLE 8 ts.length ++ (toLE 8 kv.length ++
    (kv.flatMap putEntry ++ ts.flatMap putTensorInfo))))

/-- A header that can be written and read again. -/
structure GoodHeader (kv : List (String × Value)) (ts : List TensorInfo) : Prop where
  kv_le : kv.length ≤ MAX_KV
  tensors_le : ts.length ≤ MAX_TENSORS
  entries : ∀ e ∈ kv, GoodEntry e
  table : GoodTable ts.length [] ts

theorem headerFields_agrees :
    Agrees headerFields (fun g => putHeader g.1 g.2.1 g.2.2)
      (fun g => (g.1 = 2 ∨ g.1 = 3) ∧ GoodHeader g.2.1 g.2.2) where
  sound := by
    intro s g s' h
    obtain ⟨magic, s1, hmagic, hrest⟩ := bind_ok.mp h
    obtain ⟨hsame, hrest⟩ := ite_throw_ok.mp hrest
    obtain ⟨version, s2, hversion, hrest⟩ := bind_ok.mp hrest
    obtain ⟨hknown, hrest⟩ := ite_throw_ok.mp hrest
    obtain ⟨nt, s3, hnt, hrest⟩ := bind_ok.mp hrest
    obtain ⟨nk, s4, hnk, hrest⟩ := bind_ok.mp hrest
    obtain ⟨htensors, hrest⟩ := ite_throw_ok.mp hrest
    obtain ⟨hkv, hrest⟩ := ite_throw_ok.mp hrest
    obtain ⟨kv, s5, hentries, hrest⟩ := bind_ok.mp hrest
    obtain ⟨ts, s6, htable, hlast⟩ := bind_ok.mp hrest
    cases hlast
    obtain ⟨hlength, hsize⟩ := (take_agrees _ _).sound hmagic
    obtain ⟨-, hsize1⟩ := (u32_agrees _).sound hversion
    obtain ⟨-, hsize2⟩ := (u64_agrees _).sound hnt
    obtain ⟨-, hsize3⟩ := (u64_agrees _).sound hnk
    obtain ⟨⟨hcount, hgood⟩, hsize4⟩ := (entry_agrees.times _).sound hentries
    obtain ⟨hrows, hsize5⟩ := (tensorTable_agrees _ _).sound htable
    refine ⟨⟨by tauto, hcount ▸ not_lt.mp hkv, hrows.length ▸ not_lt.mp htensors, hgood, ?_⟩, ?_⟩
    · rw [hrows.length]
      exact hrows
    · simp only [putHeader, List.length_append, toLE_length, id, MAGIC, List.length_cons,
        List.length_nil] at hsize hsize1 hsize2 hsize3 ⊢
      omega
  complete := by
    rintro ⟨version, kv, ts⟩ ⟨hknown, hgood⟩
    have hkv : kv.length ≤ MAX_KV := hgood.kv_le
    have hts : ts.length ≤ MAX_TENSORS := hgood.tensors_le
    have hkvLt : kv.length < 2 ^ 64 := hkv.trans_lt (by decide)
    have htsLt : ts.length < 2 ^ 64 := hts.trans_lt (by decide)
    have hlast := ((tensorTable_agrees ts.length []).complete hgood.table).bind
      (q := fun ts => pure (version, kv, ts)) (Reads.pure _)
    rw [List.append_nil] at hlast
    have hentries := Reads.times (p := entry) fun e he => entry_agrees.complete (hgood.entries e he)
    refine ((take_agrees 4 _).complete (a := MAGIC) rfl).bind ?_
    rw [if_neg (not_not_intro rfl)]
    refine ((u32_agrees _).complete trivial).bind ?_
    rw [if_neg (by tauto)]
    refine (u64_reads _ htsLt).bind ((u64_reads _ hkvLt).bind ?_)
    rw [UInt64.toNat_ofNat_of_lt' htsLt, UInt64.toNat_ofNat_of_lt' hkvLt,
      if_neg (not_lt.mpr hts), if_neg (not_lt.mpr hkv)]
    exact hentries.bind hlast

end Gguf
end Federated
end ComputePool
