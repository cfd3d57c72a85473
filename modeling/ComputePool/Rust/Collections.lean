import Mathlib

/-!
# Ordered collections

`BTreeMap` is the extensional tree map of the standard library: two maps with
the same entries are equal, and `toList` lists them in ascending key order,
which is the order the modelled loops visit them in.  The additions here are
the selections and counts which the modelled code makes over such a list.
-/

namespace RustStd

/-- `std::collections::BTreeMap`. -/
abbrev BTreeMap (κ α : Type*) [Ord κ] := Std.ExtTreeMap κ α compare

/-- `std::collections::BTreeSet`. -/
abbrev BTreeSet (α : Type*) [Ord α] := Std.ExtTreeSet α compare

/-- `Iterator::min_by_key`: the first of the least elements. -/
def minByKey {α β : Type*} [LinearOrder β] (key : α → β) (items : List α) : Option α :=
  items.argmin key

/-- `Iterator::max_by`: the last of the greatest elements. -/
def maxBy {α : Type*} (cmp : α → α → Ordering) : List α → Option α
  | [] => none
  | first :: rest =>
      some (rest.foldl (fun best x => if cmp best x = .gt then best else x) first)

theorem minByKey_mem {α β : Type*} [LinearOrder β] {key : α → β} {items : List α}
    {a : α} (h : minByKey key items = some a) : a ∈ items :=
  List.argmin_mem h

/-- A selection loop returns one of the elements it was shown. -/
private theorem foldl_select_mem {α : Type*} (keep : α → α → Bool) (all : List α) :
    ∀ (items : List α) (best : α), best ∈ all → (∀ x ∈ items, x ∈ all) →
      items.foldl (fun best x => if keep best x then best else x) best ∈ all := by
  intro items
  induction items with
  | nil => exact fun best hbest _ => hbest
  | cons x rest ih =>
      intro best hbest hitems
      rw [List.foldl_cons]
      refine ih _ ?_ fun y hy => hitems y (List.mem_cons_of_mem _ hy)
      split
      · exact hbest
      · exact hitems x List.mem_cons_self

theorem maxBy_mem {α : Type*} {cmp : α → α → Ordering} {items : List α} {a : α}
    (h : maxBy cmp items = some a) : a ∈ items := by
  cases items with
  | nil => cases h
  | cons first rest =>
      rw [maxBy, Option.some.injEq] at h
      have hmem := foldl_select_mem (fun best x => decide (cmp best x = .gt))
        (first :: rest) rest first List.mem_cons_self
        fun x hx => List.mem_cons_of_mem _ hx
      simpa [← h] using hmem

theorem maxBy_eq_none {α : Type*} {cmp : α → α → Ordering} {items : List α} :
    maxBy cmp items = none ↔ items = [] := by
  cases items with
  | nil => simp [maxBy]
  | cons first rest => simp [maxBy]

/-- The loop never goes down, so that what it ends with is above all it has seen. -/
theorem maxBy_ge {α : Type*} {cmp : α → α → Ordering} [Std.TransCmp cmp] {items : List α} {a : α}
    (h : maxBy cmp items = some a) : ∀ x ∈ items, (cmp x a).isLE = true := by
  have hloop : ∀ (rest : List α) (best : α),
      let last := rest.foldl (fun best x => if cmp best x = .gt then best else x) best
      (cmp best last).isLE = true ∧ ∀ x ∈ rest, (cmp x last).isLE = true := by
    intro rest
    induction rest with
    | nil =>
        intro best
        refine ⟨?_, fun x hx => absurd hx List.not_mem_nil⟩
        have hself : cmp best best = .eq := Std.ReflCmp.compare_self
        rw [List.foldl_nil, hself]
        rfl
    | cons y rest ih =>
        intro best
        dsimp only
        rw [List.foldl_cons]
        by_cases hkeep : cmp best y = .gt
        · rw [if_pos hkeep]
          have ⟨hbest, hrest⟩ := ih best
          have hy : (cmp y best).isLE = true := by
            rw [Std.OrientedCmp.lt_of_gt hkeep]
            rfl
          refine ⟨hbest, fun x hx => ?_⟩
          rcases List.mem_cons.mp hx with rfl | hx
          · exact Std.TransCmp.isLE_trans hy hbest
          · exact hrest x hx
        · rw [if_neg hkeep]
          have ⟨hbest, hrest⟩ := ih y
          have hy : (cmp best y).isLE = true := by
            rw [Ordering.isLE_iff_ne_gt]
            exact hkeep
          refine ⟨Std.TransCmp.isLE_trans hy hbest, fun x hx => ?_⟩
          rcases List.mem_cons.mp hx with rfl | hx
          · exact hbest
          · exact hrest x hx
  cases items with
  | nil => cases h
  | cons first rest =>
      rw [maxBy, Option.some.injEq] at h
      have ⟨hfirst, hrest⟩ := hloop rest first
      rw [h] at hfirst hrest
      intro x hx
      rcases List.mem_cons.mp hx with rfl | hx
      · exact hfirst
      · exact hrest x hx

section BinarySearch

variable {α : Type*} [LinearOrder α]

/-- The halving loop of `slice::binary_search`: the position it probes last.
`fuel` bounds the number of halvings. -/
def probe (items : List α) (x : α) : (fuel base size : Nat) → Nat
  | 0, base, _ => base
  | fuel + 1, base, size =>
      if size ≤ 1 then base
      else
        let half := size / 2
        let mid := base + half
        match items[mid]? with
        | none => base
        | some y => probe items x fuel (if x < y then base else mid) (size - half)

/-- `slice::binary_search(x).is_ok()`. -/
def binarySearch (items : List α) (x : α) : Bool :=
  items[probe items x items.length 0 items.length]? = some x

/-- On an ascending slice the probed window always holds the sought position. -/
private theorem probe_window {items : List α} (hsorted : items.Pairwise (· < ·))
    {i : Nat} (hi : i < items.length) :
    ∀ fuel base size, size ≤ fuel + 1 → base ≤ i → i < base + size →
      base + size ≤ items.length →
      probe items items[i] fuel base size = i := by
  intro fuel
  induction fuel with
  | zero =>
      intro base size hsize hlo hhi _
      rw [probe]
      omega
  | succ fuel ih =>
      intro base size hsize hlo hhi hlen
      rw [probe]
      split
      · omega
      · have hmid : base + size / 2 < items.length := by omega
        simp only [List.getElem?_eq_getElem hmid]
        split
        · rename_i hlt
          have hne : ¬ base + size / 2 ≤ i := by
            intro hle
            rcases Nat.eq_or_lt_of_le hle with heq | hlt'
            · subst heq
              exact lt_irrefl _ hlt
            · exact absurd (List.pairwise_iff_getElem.mp hsorted _ _ hmid hi hlt')
                (not_lt.mpr hlt.le)
          exact ih base (size - size / 2) (by omega) hlo (by omega) (by omega)
        · rename_i hge
          have hle : base + size / 2 ≤ i := by
            by_contra hlt'
            exact hge (List.pairwise_iff_getElem.mp hsorted _ _ hi hmid (by omega))
          exact ih _ (size - size / 2) (by omega) hle (by omega) (by omega)

/-- Binary search decides membership in a strictly ascending slice. -/
theorem binarySearch_iff_mem {items : List α} (hsorted : items.Pairwise (· < ·))
    {x : α} : binarySearch items x = true ↔ x ∈ items := by
  rw [binarySearch, decide_eq_true_eq]
  constructor
  · exact List.mem_of_getElem?
  · intro hmem
    obtain ⟨i, hi, rfl⟩ := List.mem_iff_getElem.mp hmem
    rw [probe_window hsorted hi _ 0 _ (by omega) (by omega) (by omega) (by omega)]
    exact List.getElem?_eq_getElem hi

end BinarySearch

section FilterMap

variable {α β : Type*} {f g : α → Option β}

/-- A loop that keeps less does not keep more elements. -/
theorem length_filterMap_le_of_le {items : List α}
    (hle : ∀ a ∈ items, ∀ b, f a = some b → g a = some b) :
    (items.filterMap f).length ≤ (items.filterMap g).length := by
  induction items with
  | nil => simp
  | cons a rest ih =>
      have hrest := ih fun x hx => hle x (List.mem_cons_of_mem _ hx)
      cases hf : f a with
      | some b => simpa [hf, hle a List.mem_cons_self b hf] using hrest
      | none => cases hg : g a <;> simp [hf, hg] <;> omega

/-- If one loop keeps no more than another and both keep the same list, they
agree on every element. -/
theorem filterMap_eq_imp_of_le {items : List α}
    (hle : ∀ a ∈ items, ∀ b, f a = some b → g a = some b)
    (heq : items.filterMap f = items.filterMap g) : ∀ a ∈ items, f a = g a := by
  induction items with
  | nil => simp
  | cons a rest ih =>
      have hrest : ∀ x ∈ rest, ∀ b, f x = some b → g x = some b :=
        fun x hx => hle x (List.mem_cons_of_mem _ hx)
      have hhead : f a = g a := by
        cases hf : f a with
        | some b => exact (hle a List.mem_cons_self b hf).symm
        | none =>
            cases hg : g a with
            | none => rfl
            | some b =>
                have hlen := congrArg List.length heq
                have := length_filterMap_le_of_le hrest
                simp [hf, hg] at hlen
                omega
      have htail : rest.filterMap f = rest.filterMap g := by
        rw [List.filterMap_cons, List.filterMap_cons, hhead] at heq
        cases hg : g a with
        | none => simpa [hg] using heq
        | some b => simpa [hg] using heq
      intro x hx
      rcases List.mem_cons.mp hx with rfl | hx
      · exact hhead
      · exact ih hrest htail x hx

end FilterMap

section Maps

variable {κ α : Type*} [LinearOrder κ] {m : BTreeMap κ α} {k a : κ} {v : α}

/-- What a map holds is what its list of entries shows. -/
theorem mem_entries : (k, v) ∈ m.toList ↔ m[k]? = some v :=
  Std.ExtTreeMap.mem_toList_iff_getElem?_eq_some

theorem entries_keys_nodup (m : BTreeMap κ α) : (m.toList.map Prod.fst).Nodup := by
  rw [Std.ExtTreeMap.map_fst_toList_eq_keys]
  refine List.Pairwise.imp ?_ m.distinct_keys
  intro a b h heq
  exact h (by simp [heq])

/-- Entries are visited in ascending order of their keys. -/
theorem entries_ascending (m : BTreeMap κ α) : m.toList.Pairwise fun a b => a.1 < b.1 := by
  refine Std.ExtTreeMap.ordered_keys_toList.imp ?_
  intro a b h
  exact compare_lt_iff_lt.mp h

theorem get_insert : (m.insert k v)[a]? = if k = a then some v else m[a]? := by
  simp [Std.ExtTreeMap.getElem?_insert]

theorem get_erase : (m.erase k)[a]? = if k = a then none else m[a]? := by
  simp [Std.ExtTreeMap.getElem?_erase]

theorem get_modify {f : α → α} :
    (m.modify k f)[a]? = if k = a then m[a]?.map f else m[a]? := by
  rw [Std.ExtTreeMap.getElem?_modify]
  by_cases h : k = a
  · subst h
    simp
  · simp [h]

theorem get_map {β : Type*} {f : κ → α → β} : (m.map f)[a]? = (m[a]?).map (f a) := by
  rw [Std.ExtTreeMap.getElem?_map]

/-- `contains_key`, read off the entry. -/
theorem mem_iff_get : k ∈ m ↔ ∃ v, m[k]? = some v := by
  rw [Std.ExtTreeMap.mem_iff_isSome_getElem?, Option.isSome_iff_exists]

theorem mem_entry_keys : k ∈ m.toList.map Prod.fst ↔ ∃ v, m[k]? = some v := by
  constructor
  · rintro hmem
    obtain ⟨⟨k', v⟩, hentry, rfl⟩ := List.mem_map.mp hmem
    exact ⟨v, mem_entries.mp hentry⟩
  · rintro ⟨v, hget⟩
    exact List.mem_map.mpr ⟨(k, v), mem_entries.mpr hget, rfl⟩

/-- The keys whose entry satisfies `p`. -/
def keysWhere (m : BTreeMap κ α) (p : κ → α → Bool) : Finset κ :=
  ((m.toList.filter fun e => p e.1 e.2).map Prod.fst).toFinset

theorem mem_keysWhere {p : κ → α → Bool} :
    k ∈ keysWhere m p ↔ ∃ v, m[k]? = some v ∧ p k v = true := by
  simp only [keysWhere, List.mem_toFinset, List.mem_map, List.mem_filter]
  constructor
  · rintro ⟨⟨k', v⟩, ⟨hmem, hp⟩, rfl⟩
    exact ⟨v, mem_entries.mp hmem, hp⟩
  · rintro ⟨v, hget, hp⟩
    exact ⟨(k, v), ⟨mem_entries.mpr hget, hp⟩, rfl⟩

/-- `iter().filter(p).count()` counts keys, each once. -/
theorem countP_entries (m : BTreeMap κ α) (p : κ → α → Bool) :
    (m.toList.countP fun e => p e.1 e.2) = (keysWhere m p).card := by
  have hnodup : ((m.toList.filter fun e => p e.1 e.2).map Prod.fst).Nodup :=
    (entries_keys_nodup m).sublist (List.filter_sublist.map _)
  rw [keysWhere, List.toFinset_card_of_nodup hnodup, List.length_map,
    List.countP_eq_length_filter]

end Maps

section Sets

variable {α : Type*} [LinearOrder α] {m : BTreeSet α} {p : α → Bool} {a : α}

theorem mem_set_filter : a ∈ m.filter p ↔ a ∈ m ∧ p a = true := by
  rw [Std.ExtTreeSet.mem_filter]
  constructor
  · rintro ⟨hmem, hp⟩
    rw [Std.ExtTreeSet.get_eq] at hp
    exact ⟨hmem, hp⟩
  · rintro ⟨hmem, hp⟩
    refine ⟨hmem, ?_⟩
    rwa [Std.ExtTreeSet.get_eq]

/-- Elements are visited in ascending order. -/
theorem elements_ascending (m : BTreeSet α) : m.toList.Pairwise fun a b => a < b := by
  refine Std.ExtTreeSet.ordered_toList.imp ?_
  intro a b h
  exact compare_lt_iff_lt.mp h

theorem mem_elements : a ∈ m.toList ↔ a ∈ m := Std.ExtTreeSet.mem_toList

theorem set_nonempty_iff : m.isEmpty = false ↔ ∃ a, a ∈ m := by
  constructor
  · intro h
    by_contra hnone
    have hempty : m = ∅ := Std.ExtTreeSet.ext_mem fun k => by
      constructor
      · exact fun hk => absurd ⟨k, hk⟩ hnone
      · exact fun hk => absurd hk Std.ExtTreeSet.not_mem_empty
    rw [hempty, Std.ExtTreeSet.isEmpty_empty] at h
    cases h
  · rintro ⟨a, ha⟩
    rw [Std.ExtTreeSet.isEmpty_eq_false_iff]
    intro hempty
    rw [hempty] at ha
    exact Std.ExtTreeSet.not_mem_empty ha

end Sets

end RustStd
