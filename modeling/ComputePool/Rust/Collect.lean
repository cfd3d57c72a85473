import ComputePool.Rust.Collections

/-!
# Filling an ordered map

`collect` into a `BTreeMap`, where a later pair replaces an earlier one of the same key,
and `entry(k).or_default().extend(..)`, which appends to what is there.
-/

namespace RustStd

section Collect

variable {κ α : Type*} [LinearOrder κ] {items : List (κ × α)} {m : BTreeMap κ α} {k : κ} {v : α}

local instance compare_transCmp : Std.TransCmp (compare : κ → κ → Ordering) := inferInstance

/-- `items.into_iter().collect::<BTreeMap<_, _>>()` -/
def collectMap (items : List (κ × α)) : BTreeMap κ α :=
  items.foldl (fun m e => m.insert e.1 e.2) ∅

theorem get_foldl_insert (hnodup : (items.map Prod.fst).Nodup) :
    (items.foldl (fun m e => m.insert e.1 e.2) m)[k]? = some v ↔
      (k, v) ∈ items ∨ k ∉ items.map Prod.fst ∧ m[k]? = some v := by
  induction items generalizing m with
  | nil => simp
  | cons e rest ih =>
      obtain ⟨k', v'⟩ := e
      rw [List.map_cons, List.nodup_cons] at hnodup
      rw [List.foldl_cons, ih hnodup.2, get_insert, List.map_cons, List.mem_cons, List.mem_cons]
      by_cases hk : k' = k
      · subst hk
        have hnew : ∀ w, (k', w) ∉ rest := fun w hmem =>
          hnodup.1 (List.mem_map.mpr ⟨(k', w), hmem, rfl⟩)
        simp [hnew, hnodup.1, eq_comm]
      · simp [hk, Ne.symm hk]

/-- Without a key twice, the map holds the pairs. -/
theorem get_collectMap (hnodup : (items.map Prod.fst).Nodup) :
    (collectMap items)[k]? = some v ↔ (k, v) ∈ items := by
  rw [collectMap, get_foldl_insert hnodup]
  simp

theorem has_foldl_insert : (∃ v, (items.foldl (fun m e => m.insert e.1 e.2) m)[k]? = some v) ↔
    k ∈ items.map Prod.fst ∨ ∃ v, m[k]? = some v := by
  induction items generalizing m with
  | nil => simp
  | cons e rest ih =>
      rw [List.foldl_cons, ih, List.map_cons, List.mem_cons]
      simp only [get_insert]
      by_cases hk : e.1 = k
      · simp [hk]
      · simp [hk, Ne.symm hk]

theorem mem_keys_collectMap :
    k ∈ (collectMap items).toList.map Prod.fst ↔ k ∈ items.map Prod.fst := by
  rw [mem_entry_keys, collectMap, has_foldl_insert]
  simp

/-- The map is as large as the list exactly when no key is there twice. -/
theorem size_collectMap : (collectMap items).size = items.length ↔ (items.map Prod.fst).Nodup := by
  have hkeys : ((collectMap items).toList.map Prod.fst).toFinset = (items.map Prod.fst).toFinset := by
    ext k
    rw [List.mem_toFinset, List.mem_toFinset, mem_keys_collectMap]
  have hsize : (collectMap items).size = (items.map Prod.fst).toFinset.card := by
    rw [← hkeys, List.toFinset_card_of_nodup (entries_keys_nodup _), List.length_map,
      Std.ExtTreeMap.length_toList]
  rw [hsize, ← List.length_map Prod.fst]
  exact Multiset.toFinset_card_eq_card_iff_nodup

/-- Without a key twice, the entries are the pairs in another order. -/
theorem collectMap_perm (hnodup : (items.map Prod.fst).Nodup) :
    (collectMap items).toList.Perm items := by
  have hentries := (entries_keys_nodup (collectMap items)).of_map
  refine (List.perm_ext_iff_of_nodup hentries hnodup.of_map).mpr fun e => ?_
  exact mem_entries.trans (get_collectMap hnodup)

theorem contains_collectMap : (collectMap items).contains k = true ↔ k ∈ items.map Prod.fst := by
  rw [Std.ExtTreeMap.contains_iff_mem, mem_iff_get, ← mem_entry_keys, mem_keys_collectMap]

/-- In an ascending list, the first element of a kind is the least. -/
theorem find_ascending {β : Type*} {f : β → κ} {xs : List β} {p : β → Bool} {x : β}
    (hascending : xs.Pairwise fun a b => f a < f b) :
    xs.find? p = some x ↔ x ∈ xs ∧ p x = true ∧ ∀ x' ∈ xs, p x' = true → f x ≤ f x' := by
  induction xs with
  | nil => simp
  | cons first rest ih =>
      have ⟨hfirst, hrest⟩ := List.pairwise_cons.mp hascending
      rw [List.find?_cons]
      cases hp : p first with
      | true =>
          constructor
          · rintro h
            obtain rfl := Option.some.inj h
            refine ⟨List.mem_cons_self, hp, fun x' hx' _ => ?_⟩
            rcases List.mem_cons.mp hx' with rfl | hx'
            · exact le_rfl
            · exact (hfirst x' hx').le
          · rintro ⟨hmem, -, hleast⟩
            rcases List.mem_cons.mp hmem with rfl | hmem
            · rfl
            · exact absurd (hleast first List.mem_cons_self hp) (not_le.mpr (hfirst x hmem))
      | false =>
          simp only [ih hrest, List.mem_cons]
          constructor
          · rintro ⟨hmem, hpx, hleast⟩
            refine ⟨.inr hmem, hpx, ?_⟩
            rintro x' (rfl | hx') hpx'
            · rw [hp] at hpx'
              cases hpx'
            · exact hleast x' hx' hpx'
          · rintro ⟨rfl | hmem, hpx, hleast⟩
            · rw [hp] at hpx
              cases hpx
            · exact ⟨hmem, hpx, fun x' hx' => hleast x' (.inr hx')⟩

/-- Two lists that ascend by a key and have the same elements are one. -/
theorem eq_of_ascending {α : Type*} {f : α → κ} {xs ys : List α}
    (hxs : xs.Pairwise fun a b => f a < f b) (hys : ys.Pairwise fun a b => f a < f b)
    (h : ∀ a, a ∈ xs ↔ a ∈ ys) : xs = ys := by
  have hnodup : ∀ {zs : List α}, zs.Pairwise (fun a b => f a < f b) → zs.Nodup := fun hzs =>
    hzs.imp fun hlt heq => by
      rw [heq] at hlt
      exact lt_irrefl _ hlt
  have hperm := (List.perm_ext_iff_of_nodup (hnodup hxs) (hnodup hys)).mpr h
  exact hperm.eq_of_pairwise (fun a b _ _ hab hba => absurd (hab.trans hba) (lt_irrefl _)) hxs hys

end Collect

section Extend

variable {κ β ε : Type*} [LinearOrder κ] {m : BTreeMap κ (List β)} {k : κ}

attribute [local instance] compare_transCmp

/-- `m.entry(k).or_default().extend(values)` -/
def extendAt (m : BTreeMap κ (List β)) (k : κ) (values : List β) : BTreeMap κ (List β) :=
  m.insert k (m[k]?.getD [] ++ values)

/-- Every element extends the entry of its key. -/
def groupAll (key : ε → κ) (values : ε → List β) (items : List ε) : BTreeMap κ (List β) :=
  items.foldl (fun m e => extendAt m (key e) (values e)) ∅

theorem get_foldl_extend (key : ε → κ) (values : ε → List β) (items : List ε) :
    (items.foldl (fun m e => extendAt m (key e) (values e)) m)[k]? =
      if k ∈ items.map key then
        some (m[k]?.getD [] ++ (items.filter fun e => decide (key e = k)).flatMap values)
      else m[k]? := by
  induction items generalizing m with
  | nil => rfl
  | cons e rest ih =>
      rw [List.foldl_cons, ih, extendAt, get_insert]
      by_cases hk : key e = k
      · subst hk
        by_cases hmem : key e ∈ rest.map key
        · simp [hmem]
        · have hnone : rest.filter (fun e' => decide (key e' = key e)) = [] := by
            rw [List.filter_eq_nil_iff]
            intro e' he' hsame
            exact hmem (List.mem_map.mpr ⟨e', he', of_decide_eq_true hsame⟩)
          simp [hmem, hnone]
      · simp [hk, Ne.symm hk]

/-- The entry of a key has the values of its elements, in their order. -/
theorem get_groupAll (key : ε → κ) (values : ε → List β) (items : List ε) :
    (groupAll key values items)[k]? =
      if k ∈ items.map key then
        some ((items.filter fun e => decide (key e = k)).flatMap values)
      else none := by
  rw [groupAll, get_foldl_extend]
  simp

end Extend

end RustStd
