import Mathlib

/-!
# Runs of a deterministic machine

A machine is a total step function on states.  A run is a list of inputs, and
`Along` states a condition on every step of it: on the state the step starts
from and the input it takes.  Environment assumptions (a clock which does not
go back, a fresh identifier) and side conditions of a theorem are both such
conditions.  The invariant rule is stated once, here.
-/

/-- A deterministic machine: what an input does to a state. -/
structure Machine (σ ι : Type*) where
  step : σ → ι → σ

namespace Machine

variable {σ ι : Type*} (M : Machine σ ι)

/-- The state after a list of inputs. -/
def run (s : σ) (inputs : List ι) : σ := inputs.foldl M.step s

/-- Every step of the run satisfies `P` in the state it starts from. -/
def Along (P : σ → ι → Prop) : σ → List ι → Prop
  | _, [] => True
  | s, i :: rest => P s i ∧ Along P (M.step s i) rest

/-- A condition that is decided at each step is decided along a run. -/
instance decidableAlong {P : σ → ι → Prop} [∀ s i, Decidable (P s i)] :
    (s : σ) → (inputs : List ι) → Decidable (M.Along P s inputs)
  | _, [] => .isTrue trivial
  | s, i :: rest =>
      @instDecidableAnd (P s i) (M.Along P (M.step s i) rest) inferInstance
        (decidableAlong (M.step s i) rest)

@[simp] theorem run_nil (s : σ) : M.run s [] = s := rfl

@[simp] theorem run_cons (s : σ) (i : ι) (rest : List ι) :
    M.run s (i :: rest) = M.run (M.step s i) rest := rfl

theorem run_append (s : σ) (front back : List ι) :
    M.run s (front ++ back) = M.run (M.run s front) back :=
  List.foldl_append

theorem run_concat (s : σ) (front : List ι) (i : ι) :
    M.run s (front ++ [i]) = M.step (M.run s front) i := by
  rw [run_append]
  rfl

variable {M} {P Q : σ → ι → Prop} {s : σ}

@[simp] theorem along_nil : M.Along P s [] := trivial

theorem along_cons {i : ι} {rest : List ι} :
    M.Along P s (i :: rest) ↔ P s i ∧ M.Along P (M.step s i) rest :=
  Iff.rfl

theorem along_append {front back : List ι} :
    M.Along P s (front ++ back) ↔
      M.Along P s front ∧ M.Along P (M.run s front) back := by
  induction front generalizing s with
  | nil => simp
  | cons i rest ih => simp [along_cons, ih, and_assoc]

theorem along_concat {front : List ι} {i : ι} :
    M.Along P s (front ++ [i]) ↔ M.Along P s front ∧ P (M.run s front) i := by
  simp [along_append, along_cons]

theorem Along.mono (h : M.Along P s inputs) (hPQ : ∀ s i, P s i → Q s i) :
    M.Along Q s inputs := by
  induction inputs generalizing s with
  | nil => trivial
  | cons i rest ih => exact ⟨hPQ _ _ h.1, ih h.2⟩

theorem Along.and (hP : M.Along P s inputs) (hQ : M.Along Q s inputs) :
    M.Along (fun s i => P s i ∧ Q s i) s inputs := by
  induction inputs generalizing s with
  | nil => trivial
  | cons i rest ih => exact ⟨⟨hP.1, hQ.1⟩, ih hP.2 hQ.2⟩

/-- A condition holds along a run exactly when it holds at each of its steps. -/
theorem along_iff_forall_prefix {inputs : List ι} :
    M.Along P s inputs ↔
      ∀ front i, front ++ [i] <+: inputs → P (M.run s front) i := by
  constructor
  · rintro h front i ⟨back, rfl⟩
    exact (along_concat.mp (along_append.mp h).1).2
  · intro h
    induction inputs using List.reverseRecOn with
    | nil => trivial
    | append_singleton front i ih =>
        refine along_concat.mpr ⟨ih ?_, h front i List.prefix_rfl⟩
        intro front' i' hpre
        exact h front' i' (hpre.trans (List.prefix_append _ _))

theorem Along.of_prefix {front inputs : List ι} (h : M.Along P s inputs)
    (hpre : front <+: inputs) : M.Along P s front := by
  obtain ⟨back, rfl⟩ := hpre
  exact (along_append.mp h).1

/-- The invariant rule: what every step allowed by `P` preserves holds after
every run whose steps are all allowed. -/
theorem run_invariant (Inv : σ → Prop)
    (hstep : ∀ s i, Inv s → P s i → Inv (M.step s i))
    {inputs : List ι} (hinit : Inv s) (hrun : M.Along P s inputs) :
    Inv (M.run s inputs) := by
  induction inputs generalizing s with
  | nil => exact hinit
  | cons i rest ih => exact ih (hstep s i hinit hrun.1) hrun.2

/-- The rule for a machine of which every step is allowed. -/
theorem run_preserves (Inv : σ → Prop) (hstep : ∀ s i, Inv s → Inv (M.step s i))
    (hinit : Inv s) (inputs : List ι) : Inv (M.run s inputs) := by
  induction inputs generalizing s with
  | nil => exact hinit
  | cons i rest ih => exact ih (hstep s i hinit)

end Machine
