import Mathlib

/-!
# Results

`Result<T, E>` is `Except E T`.  A function that returns early is read back one
check at a time: each lemma here turns a successful outcome into the fact that
the check passed and the outcome of what follows it.
-/

namespace RustStd

universe u v

variable {ε : Type u} {α β : Type v}

/-- `if c { return Err(e) }`: success means the check did not fire. -/
theorem check_eq_ok {c : Prop} [Decidable c] {e : ε} {next : Except ε α} {a : α} :
    (if c then .error e else next) = .ok a ↔ ¬ c ∧ next = .ok a := by
  by_cases h : c <;> simp [h]

/-- `?`: success means the first part succeeded and the rest did too. -/
theorem bind_eq_ok {first : Except ε α} {next : α → Except ε β} {b : β} :
    (first >>= next) = .ok b ↔ ∃ a, first = .ok a ∧ next a = .ok b := by
  cases first with
  | error e => simp [bind, Except.bind]
  | ok a => simp [bind, Except.bind]

theorem bind_of_ok {first : Except ε α} {next : α → Except ε β} {a : α} (h : first = .ok a) :
    (first >>= next) = next a := by
  rw [h]
  rfl

/-- A loop that collects results: it succeeds when every step does. -/
theorem mapM_ok {f : α → Except ε β} {items : List α} (h : ∀ a ∈ items, ∃ b, f a = .ok b) :
    ∃ out, items.mapM f = .ok out := by
  induction items with
  | nil => exact ⟨[], rfl⟩
  | cons a rest ih =>
      have ⟨b, hb⟩ := h a List.mem_cons_self
      have ⟨out, hout⟩ := ih fun a ha => h a (List.mem_cons_of_mem _ ha)
      refine ⟨b :: out, ?_⟩
      rw [List.mapM_cons, bind_of_ok hb, bind_of_ok hout]
      rfl

/-- What a loop has collected, step by step. -/
theorem mapM_eq_ok {f : α → Except ε β} {items : List α} {out : List β}
    (h : items.mapM f = .ok out) : List.Forall₂ (fun a b => f a = .ok b) items out := by
  induction items generalizing out with
  | nil =>
      cases h
      exact .nil
  | cons a rest ih =>
      rw [List.mapM_cons, bind_eq_ok] at h
      have ⟨b, hb, h⟩ := h
      rw [bind_eq_ok] at h
      have ⟨others, hothers, h⟩ := h
      cases h
      exact .cons hb (ih hothers)

theorem mapM_eq_ok_iff {f : α → Except ε β} {items : List α} {out : List β} :
    items.mapM f = .ok out ↔ List.Forall₂ (fun a b => f a = .ok b) items out := by
  refine ⟨mapM_eq_ok, fun h => ?_⟩
  induction h with
  | nil => rfl
  | cons hb _ ih =>
      rw [List.mapM_cons, bind_of_ok hb, bind_of_ok ih]
      rfl

/-- Every step of a loop that succeeds has succeeded. -/
theorem mapM_ok_of_mem {f : α → Except ε β} {items : List α} {out : List β}
    (h : items.mapM f = .ok out) {a : α} (ha : a ∈ items) : ∃ b, f a = .ok b := by
  induction items generalizing out with
  | nil => cases ha
  | cons first rest ih =>
      rw [List.mapM_cons, bind_eq_ok] at h
      have ⟨b, hb, h⟩ := h
      rw [bind_eq_ok] at h
      have ⟨others, hothers, _⟩ := h
      cases ha with
      | head => exact ⟨b, hb⟩
      | tail _ ha => exact ih hothers ha

/-- `Result::map_err` keeps a success. -/
theorem mapError_eq_ok {δ : Type u} {f : ε → δ} {r : Except ε α} {a : α} :
    r.mapError f = .ok a ↔ r = .ok a := by
  cases r with
  | ok b => simp [Except.mapError]
  | error e => simp [Except.mapError]

/-- A result that is known to be a success is the success it holds. -/
theorem eq_ok_of_isOk {r : Except ε α} (h : r.isOk = true) (d : α) :
    r = .ok (r.toOption.getD d) := by
  cases r with
  | ok a => rfl
  | error e => cases h

/-- `Option::ok_or(e)`. -/
def okOr (o : Option α) (e : ε) : Except ε α :=
  match o with
  | some a => .ok a
  | none => .error e

@[simp] theorem okOr_eq_ok {o : Option α} {e : ε} {a : α} :
    okOr o e = .ok a ↔ o = some a := by
  cases o <;> simp [okOr]

@[simp] theorem okOr_some {e : ε} (a : α) : okOr (some a) e = .ok a := rfl

@[simp] theorem okOr_none {e : ε} : okOr (none : Option α) e = .error e := rfl

/-- How a function that can panic stops early: it panics, or it returns an
error. -/
inductive Stop (ε : Type u) where
  | panic
  | err (e : ε)
  deriving DecidableEq

/-- The outcome of a function that can panic. -/
abbrev Checked (ε : Type u) (α : Type v) := Except (Stop ε) α

/-- `&items[a..b]`, which panics out of range. -/
def slice {α : Type v} (items : List α) (a b : Nat) : Checked ε (List α) :=
  if a ≤ b ∧ b ≤ items.length then .ok ((items.drop a).take (b - a)) else .error .panic

/-- `return Err(e)` of a function that can panic. -/
def checked (r : Except ε α) : Checked ε α :=
  match r with
  | .ok a => .ok a
  | .error e => .error (.err e)

theorem checked_eq_ok {r : Except ε α} {a : α} : checked r = .ok a ↔ r = .ok a := by
  cases r with
  | ok b => simp [checked]
  | error e => simp [checked]

theorem checked_okOr_some {e : ε} (a : α) : checked (okOr (some a) e) = .ok a := rfl

/-- `map_err` of a function that can panic. -/
def mapStop {δ : Type u} (f : ε → δ) (r : Checked ε α) : Checked δ α :=
  match r with
  | .ok a => .ok a
  | .error .panic => .error .panic
  | .error (.err e) => .error (.err (f e))

theorem mapStop_eq_ok {δ : Type u} {f : ε → δ} {r : Checked ε α} {a : α} :
    mapStop f r = .ok a ↔ r = .ok a := by
  rcases r with (_ | e) | b
  · simp [mapStop]
  · simp [mapStop]
  · simp [mapStop]

/-! ## Returning -/

/-- The function returns, with a value or an error: it does not panic. -/
def Returns (r : Checked ε α) : Prop := r ≠ .error .panic

theorem returns_ok (a : α) : Returns (.ok a : Checked ε α) := nofun

theorem returns_error (e : ε) : Returns (.error (.err e) : Checked ε α) := nofun

theorem Returns.bind {first : Checked ε α} {next : α → Checked ε β} (hfirst : Returns first)
    (hnext : ∀ a, first = .ok a → Returns (next a)) : Returns (first >>= next) := by
  cases first with
  | ok a => exact hnext a rfl
  | error stop =>
      intro hpanic
      apply hfirst
      cases hpanic
      rfl

/-- After a part that does not panic, what counts is the rest. -/
theorem returns_bind_iff {first : Checked ε α} {next : α → Checked ε β} (hfirst : Returns first) :
    Returns (first >>= next) ↔ ∀ a, first = .ok a → Returns (next a) := by
  constructor
  · intro h a ha
    rwa [bind_of_ok ha] at h
  · exact hfirst.bind

theorem returns_mapM {f : α → Checked ε β} {items : List α} (h : ∀ a ∈ items, Returns (f a)) :
    Returns (items.mapM f) := by
  induction items with
  | nil => exact returns_ok []
  | cons a rest ih =>
      rw [List.mapM_cons]
      apply Returns.bind (h a List.mem_cons_self)
      intro b _
      apply Returns.bind (ih fun a ha => h a (List.mem_cons_of_mem _ ha))
      intro out _
      exact returns_ok _

/-- A loop returns when each step does that it comes to. -/
theorem returns_mapM_iff {f : α → Checked ε β} {items : List α} :
    Returns (items.mapM f) ↔ ∀ front a back, items = front ++ a :: back →
      (∀ x ∈ front, ∃ b, f x = .ok b) → Returns (f a) := by
  induction items with
  | nil => exact iff_of_true (returns_ok []) fun front a back hsplit => by simp at hsplit
  | cons first rest ih =>
      rw [List.mapM_cons]
      constructor
      · rintro h (_ | ⟨x, front⟩) a back hsplit hfront
        · obtain ⟨rfl, rfl⟩ := List.cons.inj hsplit
          intro hpanic
          rw [hpanic] at h
          exact h rfl
        · obtain ⟨rfl, hrest⟩ := List.cons.inj hsplit
          obtain ⟨b, hb⟩ := hfront first List.mem_cons_self
          rw [bind_of_ok hb] at h
          refine ih.mp (fun hpanic => ?_) front a back hrest fun x hx =>
            hfront x (List.mem_cons_of_mem _ hx)
          rw [hpanic] at h
          exact h rfl
      · intro h
        refine Returns.bind (h [] first rest rfl nofun) fun b hb => ?_
        refine Returns.bind (ih.mpr fun front a back hrest hfront => ?_) fun out _ => returns_ok _
        refine h (first :: front) a back (by rw [hrest, List.cons_append]) fun x hx => ?_
        rcases List.mem_cons.mp hx with rfl | hx
        · exact ⟨b, hb⟩
        · exact hfront x hx

/-- A loop whose steps keep `P` ends in it. -/
theorem foldlM_ok_invariant {f : β → α → Except ε β} (P : List α → β → Prop)
    (hstep : ∀ done b a b', P done b → f b a = .ok b' → P (done ++ [a]) b')
    {items : List α} {b b' : β} (hb : P [] b) (h : items.foldlM f b = .ok b') : P items b' := by
  -- the items are split into those before and those to come
  have hloop : ∀ (todo done : List α) (b : β), P done b → todo.foldlM f b = .ok b' →
      P (done ++ todo) b' := by
    intro todo
    induction todo with
    | nil =>
        intro done b hb h
        cases h
        rwa [List.append_nil]
    | cons a rest ih =>
        intro done b hb h
        rw [List.foldlM_cons] at h
        obtain ⟨next, hnext, h⟩ := bind_eq_ok.mp h
        rw [List.append_cons]
        exact ih (done ++ [a]) next (hstep done b a next hb hnext) h
  exact hloop items [] b hb h

/-- A loop that has no error to return succeeds when its steps return. -/
theorem foldlM_ok {f : β → α → Checked Empty β} (h : ∀ b a, Returns (f b a)) (items : List α)
    (b : β) : ∃ b', items.foldlM f b = .ok b' := by
  induction items generalizing b with
  | nil => exact ⟨b, rfl⟩
  | cons a rest ih =>
      have hreturns := h b a
      rw [List.foldlM_cons]
      rcases hstep : f b a with (_ | e) | next
      · exact absurd hstep hreturns
      · exact e.elim
      · exact ih next

theorem returns_mapStop {δ : Type u} {f : ε → δ} {r : Checked ε α} :
    Returns (mapStop f r) ↔ Returns r := by
  rcases r with (_ | e) | b
  · exact Iff.rfl.trans (iff_of_false (fun h => h rfl) fun h => h rfl)
  · exact iff_of_true (returns_error _) (returns_error _)
  · exact iff_of_true (returns_ok _) (returns_ok _)

theorem returns_ite {c : Prop} [Decidable c] {first second : Checked ε α}
    (hfirst : c → Returns first) (hsecond : ¬ c → Returns second) :
    Returns (if c then first else second) := by
  by_cases hc : c
  · rw [if_pos hc]
    exact hfirst hc
  · rw [if_neg hc]
    exact hsecond hc

theorem returns_checked (r : Except ε α) : Returns (checked r) := by
  cases r with
  | ok a => exact returns_ok a
  | error e => exact returns_error e

theorem returns_slice {items : List α} {i j : Nat} (hij : i ≤ j) (hj : j ≤ items.length) :
    Returns (slice items i j : Checked ε (List α)) := by
  rw [slice, if_pos ⟨hij, hj⟩]
  exact returns_ok _

theorem slice_length {items piece : List α} {i j : Nat}
    (h : (slice items i j : Checked ε (List α)) = .ok piece) : piece.length = j - i := by
  unfold slice at h
  split at h
  · cases h
    rw [List.length_take, List.length_drop]
    omega
  · cases h

end RustStd
