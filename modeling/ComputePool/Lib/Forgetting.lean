import Mathlib

/-!
# A memory that forgets

A filter that lets a key pass when it does not remember it, and that is made to forget
some keys now and then.  Every key shown passes at least once; no key passes twice
exactly when none that was forgotten is shown again.
-/

namespace Forgetting

/-- A key is shown, or some keys are forgotten. -/
inductive Op (κ : Type*) where
  | offer (key : κ)
  | forget (keys : Finset κ)

variable {κ : Type*} [DecidableEq κ]

/-- What is remembered after one more operation. -/
def remember (memory : Finset κ) : Op κ → Finset κ
  | .offer key => insert key memory
  | .forget keys => memory \ keys

/-- What is remembered after some operations. -/
def memory (start : Finset κ) (ops : List (Op κ)) : Finset κ := ops.foldl remember start

/-- The keys that pass. -/
def passed : Finset κ → List (Op κ) → List κ
  | _, [] => []
  | start, .offer key :: rest =>
      if key ∈ start then passed start rest else key :: passed (insert key start) rest
  | start, .forget keys :: rest => passed (start \ keys) rest

/-- The keys that are shown. -/
def offered : List (Op κ) → List κ
  | [] => []
  | .offer key :: rest => key :: offered rest
  | .forget _ :: rest => offered rest

/-- No key that is forgotten while it is remembered is shown again. -/
def Settled (start : Finset κ) (ops : List (Op κ)) : Prop :=
  ∀ front keys back, ops = front ++ .forget keys :: back →
    ∀ key ∈ keys, key ∈ memory start front → key ∉ offered back

variable {start : Finset κ} {ops front back : List (Op κ)} {key : κ}

@[simp] theorem memory_cons (op : Op κ) :
    memory start (op :: ops) = memory (remember start op) ops := rfl

theorem passed_append : passed start (front ++ back) =
    passed start front ++ passed (memory start front) back := by
  induction front generalizing start with
  | nil => rfl
  | cons op front ih =>
      cases op with
      | offer key =>
          by_cases hmem : key ∈ start
          · simp [passed, hmem, ih, remember]
          · simp [passed, hmem, ih, remember]
      | forget keys => simp [passed, ih, remember]

theorem offered_of_passed (h : key ∈ passed start ops) : key ∈ offered ops := by
  induction ops generalizing start with
  | nil => exact h
  | cons op ops ih =>
      cases op with
      | forget keys => exact ih h
      | offer first =>
          rw [passed] at h
          split at h
          · exact List.mem_cons_of_mem _ (ih h)
          · rcases List.mem_cons.mp h with rfl | hrest
            · exact List.mem_cons_self
            · exact List.mem_cons_of_mem _ (ih hrest)

/-- Every key that is not remembered from the start passes once it is shown. -/
theorem passed_of_offered (h : key ∈ offered ops) (hnew : key ∉ start) : key ∈ passed start ops := by
  induction ops generalizing start with
  | nil => cases h
  | cons op ops ih =>
      cases op with
      | forget keys => exact ih h fun hin => hnew (Finset.mem_sdiff.mp hin).1
      | offer first =>
          rcases List.mem_cons.mp h with rfl | hrest
          · rw [passed, if_neg hnew]
            exact List.mem_cons_self
          · rw [passed]
            by_cases hsame : key = first
            · subst hsame
              rw [if_neg hnew]
              exact List.mem_cons_self
            · split
              · exact ih hrest hnew
              · apply List.mem_cons_of_mem
                apply ih hrest
                rw [Finset.mem_insert, not_or]
                exact ⟨hsame, hnew⟩

theorem settled_cons_offer : Settled start (.offer key :: ops) ↔ Settled (insert key start) ops := by
  constructor
  · intro h front keys back hops
    exact h (.offer key :: front) keys back (by rw [hops]; rfl)
  · intro h front keys back hops
    cases front with
    | nil => cases hops
    | cons op front =>
        obtain ⟨rfl, hrest⟩ := List.cons.inj hops
        exact h front keys back hrest

theorem settled_cons_forget {keys : Finset κ} : Settled start (.forget keys :: ops) ↔
    (∀ key ∈ keys, key ∈ start → key ∉ offered ops) ∧ Settled (start \ keys) ops := by
  constructor
  · intro h
    refine ⟨h [] keys ops rfl, fun front keys' back hops => ?_⟩
    exact h (.forget keys :: front) keys' back (by rw [hops]; rfl)
  · rintro ⟨hfirst, hrest⟩ front keys' back hops
    cases front with
    | nil =>
        cases hops
        exact hfirst
    | cons op front =>
        obtain ⟨rfl, htail⟩ := List.cons.inj hops
        exact hrest front keys' back htail

/-- Keys that are shown forget nothing. -/
theorem settled_offers (keys : List κ) : Settled start (keys.map .offer ++ ops) ↔
    Settled (memory start (keys.map .offer)) ops := by
  induction keys generalizing start with
  | nil => exact Iff.rfl
  | cons key keys ih =>
      rw [List.map_cons, List.cons_append, settled_cons_offer, ih]
      rfl

omit [DecidableEq κ] in
theorem offered_offers (keys : List κ) (ops : List (Op κ)) :
    offered (keys.map .offer ++ ops) = keys ++ offered ops := by
  induction keys with
  | nil => rfl
  | cons key keys ih => exact congrArg (key :: ·) ih

/-- No key passes twice, or again when it was remembered from the start, exactly when no
key that is forgotten is shown again. -/
theorem passed_nodup_iff_from (start : Finset κ) (ops : List (Op κ)) :
    ((passed start ops).Nodup ∧ ∀ key ∈ start, key ∉ passed start ops) ↔ Settled start ops := by
  induction ops generalizing start with
  | nil => simp [passed, Settled]
  | cons op ops ih =>
      cases op with
      | offer key =>
          rw [settled_cons_offer, ← ih]
          by_cases hmem : key ∈ start
          · rw [passed, if_pos hmem, Finset.insert_eq_of_mem hmem]
          · rw [passed, if_neg hmem, List.nodup_cons]
            constructor
            · rintro ⟨⟨hkey, hnodup⟩, hstart⟩
              refine ⟨hnodup, fun k hk => ?_⟩
              rcases Finset.mem_insert.mp hk with rfl | hk
              · exact hkey
              · exact fun hin => hstart k hk (List.mem_cons_of_mem _ hin)
            · rintro ⟨hnodup, hout⟩
              refine ⟨⟨hout key (Finset.mem_insert_self _ _), hnodup⟩, fun k hk hin => ?_⟩
              rcases List.mem_cons.mp hin with rfl | hin
              · exact hmem hk
              · exact hout k (Finset.mem_insert_of_mem hk) hin
      | forget keys =>
          rw [settled_cons_forget, ← ih, passed]
          constructor
          · rintro ⟨hnodup, hstart⟩
            refine ⟨fun k hk hin hoffered => ?_, hnodup, fun k hk => ?_⟩
            · apply hstart k hin
              exact passed_of_offered hoffered fun h => (Finset.mem_sdiff.mp h).2 hk
            · exact hstart k (Finset.mem_sdiff.mp hk).1
          · rintro ⟨hgone, hnodup, hkept⟩
            refine ⟨hnodup, fun k hk hin => ?_⟩
            by_cases hforgot : k ∈ keys
            · exact hgone k hforgot hk (offered_of_passed hin)
            · exact hkept k (Finset.mem_sdiff.mpr ⟨hk, hforgot⟩) hin

/-- From an empty memory no key passes twice exactly when no key that is forgotten is
offered again. -/
theorem passed_nodup_iff (ops : List (Op κ)) : (passed ∅ ops).Nodup ↔ Settled ∅ ops := by
  rw [← passed_nodup_iff_from]
  simp

end Forgetting
