import Mathlib.Data.List.DropRight

/-!
# The run of failures at the end of a trace

A counter which goes up with every failing sample and back to zero with every other
one counts the failing samples at the end of the trace.
-/

namespace Streak

variable {K A : Type}

section Counter

variable (bad : A → Bool)

/-- How many samples at the end of the trace are all bad. -/
def streak (trace : List A) : Nat := (trace.rtakeWhile bad).length

@[simp] theorem streak_nil : streak bad [] = 0 := rfl

@[simp] theorem streak_concat (trace : List A) (a : A) :
    streak bad (trace ++ [a]) = if bad a then streak bad trace + 1 else 0 := by
  unfold streak
  rw [List.rtakeWhile_concat]
  split <;> simp

theorem streak_le_length (trace : List A) : streak bad trace ≤ trace.length :=
  (List.rtakeWhile_suffix bad trace).length_le

/-- The counter has reached `k` when the last `k` samples are there and all bad. -/
theorem le_streak_iff {k : Nat} {trace : List A} :
    k ≤ streak bad trace ↔ k ≤ trace.length ∧ ∀ a ∈ trace.rtake k, bad a = true := by
  induction trace using List.reverseRecOn generalizing k with
  | nil => simp
  | append_singleton trace a ih =>
      cases k with
      | zero => simp
      | succ k =>
          rw [streak_concat, List.rtake_concat_succ, List.length_append, List.length_singleton]
          by_cases ha : bad a = true
          · rw [if_pos ha, Nat.succ_le_succ_iff, ih, Nat.succ_le_succ_iff]
            refine and_congr_right fun _ => ?_
            rw [List.forall_mem_append]
            simp [ha]
          · rw [if_neg ha]
            simp [ha]

end Counter

section Keyed

variable [DecidableEq K]

/-- The samples of one key, over the first `n` rounds of samples. -/
def traceOf (samples : Nat → Option (List (K × A))) (key : K) (n : Nat) : List A :=
  (List.range n).filterMap fun round => (samples round).bind (List.lookup key)

theorem traceOf_succ (samples : Nat → Option (List (K × A))) (key : K) (n : Nat) :
    traceOf samples key (n + 1) =
      traceOf samples key n ++ ((samples n).bind (List.lookup key)).toList := by
  unfold traceOf
  rw [List.range_succ, List.filterMap_append]
  rfl

theorem traceOf_length_le (samples : Nat → Option (List (K × A))) (key : K) (n : Nat) :
    (traceOf samples key n).length ≤ n := by
  unfold traceOf
  calc _ ≤ (List.range n).length := List.length_filterMap_le _ _
    _ = n := List.length_range

/-- A key listed once is looked up where it is listed. -/
theorem lookup_of_mem {entries : List (K × A)} (hnodup : (entries.map Prod.fst).Nodup)
    {entry : K × A} (hin : entry ∈ entries) : entries.lookup entry.1 = some entry.2 := by
  induction entries with
  | nil => cases hin
  | cons first rest ih =>
      rw [List.map_cons, List.nodup_cons] at hnodup
      rcases List.mem_cons.mp hin with rfl | hrest
      · rw [List.lookup_cons, beq_self_eq_true]
      · have hne : entry.1 ≠ first.1 := by
          rintro heq
          exact hnodup.1 (heq ▸ List.mem_map_of_mem hrest)
        rw [List.lookup_cons, beq_eq_false_iff_ne.mpr hne]
        exact ih hnodup.2 hrest

end Keyed

end Streak
