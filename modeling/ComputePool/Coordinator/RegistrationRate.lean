import ComputePool.Coordinator.Api
import ComputePool.Lib.TokenBucket
import ComputePool.Lib.Views

/-!
# The rate of new registrations

The bucket behind `POST /register`.  It is refilled by whole periods, measured from
the first request, and the rest of a period is carried over to the next call.  So
what it grants in an interval is bounded by its burst and the length of the interval,
and a caller that asks often loses no time by it.
-/

namespace ComputePool
namespace Coordinator
namespace RegistrationBudget

open RustStd TokenBucket

/-- The seconds that earn one token. -/
def PERIOD : Nat := 3600 / NEW_REGISTRATIONS_PER_HOUR

/-- The bucket over its calls, each at a unix time. -/
def machine : Machine RegistrationBudget UInt64 := ⟨fun b now => (b.tryTake now.toNat).1⟩

/-- The bucket after some calls. -/
def after (calls : List UInt64) : RegistrationBudget := machine.run new calls

/-- The answers of the bucket, each with the time of its call. -/
def answersFrom (b : RegistrationBudget) (calls : List UInt64) : List (UInt64 × Bool) :=
  machine.answers (fun b now => (b.tryTake now.toNat).2) b calls

/-- The grants between `t₁` and `t₂`. -/
def grantsIn (t₁ t₂ : Nat) (answers : List (UInt64 × Bool)) : Nat :=
  answers.countP fun a => a.2 && (decide (t₁ ≤ a.1.toNat) && decide (a.1.toNat ≤ t₂))

/-- What the bucket would hold at `now` if it had no cap. -/
def level (b : RegistrationBudget) (now : Nat) : Nat :=
  b.tokens + (now - b.lastRefill.getD now) / PERIOD

/-- From one call on, as long as the bucket is not held back by its cap, the tokens it
earns account for the time that passes but for less than one period. -/
def LosesNoTime (calls : List UInt64) : Prop :=
  ∀ front first rest, calls = front ++ first :: rest →
    machine.Along (fun b now => b.level now.toNat ≤ NEW_REGISTRATION_BURST)
      (after (front ++ [first])) rest →
    ∃ earned, (after calls).tokens +
        ((answersFrom (after (front ++ [first])) rest).countP fun a => a.2) =
          (after (front ++ [first])).tokens + earned ∧
      ((first :: rest).getLast (List.cons_ne_nil _ _)).toNat - first.toNat <
        earned * PERIOD + PERIOD

/-! ## One call -/

/-- The bucket a call finds, after its refill. -/
def refilled (b : RegistrationBudget) (now : Nat) : RegistrationBudget :=
  let last := b.lastRefill.getD now
  let earned := (now - last) / PERIOD
  if earned > 0 then
    ⟨min (satAdd b.tokens earned) NEW_REGISTRATION_BURST, some (satAdd last (earned * PERIOD))⟩
  else { b with lastRefill := some last }

theorem tryTake_eq (b : RegistrationBudget) (now : Nat) :
    b.tryTake now =
      if (b.refilled now).tokens = 0 then (b.refilled now, false)
      else ({ b.refilled now with tokens := (b.refilled now).tokens - 1 }, true) := rfl

/-- What holds of a bucket last used by `now`. -/
structure Held (b : RegistrationBudget) (now : Nat) : Prop where
  burst : b.tokens ≤ NEW_REGISTRATION_BURST
  past : ∀ last, b.lastRefill = some last → last ≤ now

variable {b : RegistrationBudget} {now now' t₁ t₂ : Nat}

theorem period_pos : 0 < PERIOD := by decide

theorem Held.mono (h : b.Held now) (hle : now ≤ now') : b.Held now' :=
  ⟨h.burst, fun last hlast => (h.past last hlast).trans hle⟩

theorem Held.getD (h : b.Held now) : b.lastRefill.getD now ≤ now := by
  cases hlast : b.lastRefill with
  | none => exact le_rfl
  | some last => exact h.past last hlast

/-- A refill moves the origin on by whole periods, a token for each up to the cap. -/
theorem refilled_eq (h : b.Held now) (hnow : now ≤ u64Max) :
    b.refilled now =
      ⟨min (b.level now) NEW_REGISTRATION_BURST,
        some (b.lastRefill.getD now + (now - b.lastRefill.getD now) / PERIOD * PERIOD)⟩ := by
  have hburst := h.burst
  have hpast := h.getD
  have hearned := Nat.div_mul_le_self (now - b.lastRefill.getD now) PERIOD
  have hsmall : NEW_REGISTRATION_BURST ≤ u64Max := by decide
  unfold refilled level
  dsimp only
  generalize (now - b.lastRefill.getD now) / PERIOD = earned at hearned ⊢
  split
  · have hlast : satAdd (b.lastRefill.getD now) (earned * PERIOD) =
        b.lastRefill.getD now + earned * PERIOD := Nat.min_eq_left (by omega)
    have htokens : min (satAdd b.tokens earned) NEW_REGISTRATION_BURST =
        min (b.tokens + earned) NEW_REGISTRATION_BURST := by
      unfold satAdd
      omega
    rw [hlast, htokens]
  · have hnone : earned = 0 := by omega
    subst hnone
    rw [Nat.add_zero, Nat.zero_mul, Nat.add_zero, Nat.min_eq_left hburst]

/-- After a call the bucket has an origin less than one period back. -/
structure Timed (b : RegistrationBudget) (now last : Nat) : Prop where
  burst : b.tokens ≤ NEW_REGISTRATION_BURST
  origin : b.lastRefill = some last
  past : last ≤ now
  recent : now < last + PERIOD

theorem Timed.held {last : Nat} (h : b.Timed now last) : b.Held now :=
  ⟨h.burst, fun l hl => by
    rw [h.origin] at hl
    cases hl
    exact h.past⟩

theorem refilled_timed (h : b.Held now) (hnow : now ≤ u64Max) :
    (b.refilled now).Timed now
      (b.lastRefill.getD now + (now - b.lastRefill.getD now) / PERIOD * PERIOD) := by
  have hpast := h.getD
  have hsplit := Nat.div_add_mod' (now - b.lastRefill.getD now) PERIOD
  have hrest := Nat.mod_lt (now - b.lastRefill.getD now) period_pos
  rw [refilled_eq h hnow]
  exact ⟨Nat.min_le_right _ _, rfl, by omega, by omega⟩

/-- A call takes one token from the refilled bucket, if it holds one. -/
theorem tryTake_spec (b : RegistrationBudget) (now : Nat) :
    (b.tryTake now).1.lastRefill = (b.refilled now).lastRefill ∧
      (b.tryTake now).1.tokens + (if (b.tryTake now).2 then 1 else 0) =
        (b.refilled now).tokens := by
  rw [tryTake_eq]
  split
  · exact ⟨rfl, by simp⟩
  · refine ⟨rfl, ?_⟩
    show (b.refilled now).tokens - 1 + 1 = _
    omega

theorem tryTake_timed (h : b.Held now) (hnow : now ≤ u64Max) :
    (b.tryTake now).1.Timed now
      (b.lastRefill.getD now + (now - b.lastRefill.getD now) / PERIOD * PERIOD) := by
  have hrefilled := refilled_timed h hnow
  obtain ⟨hlast, htokens⟩ := tryTake_spec b now
  have hburst := hrefilled.burst
  exact ⟨by omega, hlast.trans hrefilled.origin, hrefilled.past, hrefilled.recent⟩

/-! ## Runs of calls -/

theorem le_u64Max (t : UInt64) : t.toNat ≤ u64Max := Nat.le_of_lt_succ t.toNat_lt

theorem grantsIn_cons (call : UInt64) (granted : Bool) (rest : List (UInt64 × Bool)) :
    grantsIn t₁ t₂ ((call, granted) :: rest) ≤
      (if granted then 1 else 0) + grantsIn t₁ t₂ rest := by
  unfold grantsIn
  rw [List.countP_cons]
  cases granted with
  | false => simp
  | true =>
      simp only [Bool.true_and, if_true]
      split <;> omega

theorem grantsIn_cons_early {call : UInt64} (granted : Bool) (rest : List (UInt64 × Bool))
    (h : call.toNat < t₁) : grantsIn t₁ t₂ ((call, granted) :: rest) = grantsIn t₁ t₂ rest := by
  have hnot : ¬ t₁ ≤ call.toNat := by omega
  unfold grantsIn
  rw [List.countP_cons_of_neg]
  simp [hnot]

/-- Calls after the interval grant nothing in it. -/
theorem grantsIn_late {calls : List UInt64} (h : ∀ c ∈ calls, t₂ < c.toNat) :
    grantsIn t₁ t₂ (answersFrom b calls) = 0 := by
  unfold grantsIn
  rw [List.countP_eq_zero]
  intro a ha
  have hin : a.1 ∈ calls := by
    rw [← Machine.answers_inputs machine (fun b now => (b.tryTake now.toNat).2) b calls]
    exact List.mem_map_of_mem ha
  have hlate := h a.1 hin
  have hnot : ¬ a.1.toNat ≤ t₂ := by omega
  simp [hnot]

/-- What a call grants and what is left after it fit in what the bucket could spend. -/
theorem tryTake_budget (b : RegistrationBudget) (now t₂ last : Nat) :
    (if (b.tryTake now).2 then 1 else 0) +
        TokenBucket.budget PERIOD t₂ (b.tryTake now).1.tokens last =
      TokenBucket.budget PERIOD t₂ (b.refilled now).tokens last := by
  obtain ⟨_, htokens⟩ := tryTake_spec b now
  unfold TokenBucket.budget
  omega

/-- From a call on, the bucket grants no more than it can spend. -/
theorem grants_le_budget {calls : List UInt64} (hsorted : calls.Pairwise (· ≤ ·)) :
    ∀ {b : RegistrationBudget} {now last : Nat}, b.Timed now last →
      (∀ c ∈ calls, now ≤ c.toNat) →
      grantsIn t₁ t₂ (answersFrom b calls) ≤ TokenBucket.budget PERIOD t₂ b.tokens last := by
  induction calls with
  | nil => exact fun _ _ => Nat.zero_le _
  | cons call rest ih =>
      intro b now last h hfrom
      have ⟨hnext, hrest⟩ := List.pairwise_cons.mp hsorted
      have hheld := h.held.mono (hfrom call List.mem_cons_self)
      rcases Nat.lt_or_ge t₂ call.toNat with hlate | hin
      · rw [grantsIn_late]
        · exact Nat.zero_le _
        · refine List.forall_mem_cons.mpr ⟨hlate, fun c hc => ?_⟩
          exact hlate.trans_le (hnext c hc)
      · have hlast : b.lastRefill.getD call.toNat = last := by rw [h.origin]; rfl
        have htimed := tryTake_timed hheld (le_u64Max call)
        rw [hlast] at htimed
        have hih := ih hrest htimed fun c hc => hnext c hc
        have hspent := tryTake_budget b call.toNat t₂
          (last + (call.toNat - last) / PERIOD * PERIOD)
        have htokens : (b.refilled call.toNat).tokens ≤
            b.tokens + (call.toNat - last) / PERIOD := by
          rw [refilled_eq hheld (le_u64Max call), level, hlast]
          exact Nat.min_le_left _ _
        have hrefill := TokenBucket.budget_refill
          (h.past.trans (hfrom call List.mem_cons_self)) hin htokens
        have hcons := @grantsIn_cons t₁ t₂ call (b.tryTake call.toNat).2
          (answersFrom (b.tryTake call.toNat).1 rest)
        calc grantsIn t₁ t₂ (answersFrom b (call :: rest))
            ≤ (if (b.tryTake call.toNat).2 then 1 else 0) +
                grantsIn t₁ t₂ (answersFrom (b.tryTake call.toNat).1 rest) := hcons
          _ ≤ TokenBucket.budget PERIOD t₂ b.tokens last := by omega

/-- In an interval the bucket grants no more than it can spend after its first refill
there. -/
theorem grants_window {calls : List UInt64} (hsorted : calls.Pairwise (· ≤ ·)) :
    ∀ {b : RegistrationBudget} {now : Nat}, b.Held now → (∀ c ∈ calls, now ≤ c.toNat) →
      grantsIn t₁ t₂ (answersFrom b calls) = 0 ∨
        ∃ b' first, t₁ ≤ first ∧ first ≤ t₂ ∧ first ≤ u64Max ∧ Held b' first ∧
          grantsIn t₁ t₂ (answersFrom b calls) ≤
            TokenBucket.budget PERIOD t₂ (b'.refilled first).tokens
              (b'.lastRefill.getD first +
                (first - b'.lastRefill.getD first) / PERIOD * PERIOD) := by
  induction calls with
  | nil => exact fun _ _ => .inl rfl
  | cons call rest ih =>
      intro b now h hfrom
      have ⟨hnext, hrest⟩ := List.pairwise_cons.mp hsorted
      have hheld := h.mono (hfrom call List.mem_cons_self)
      have htimed := tryTake_timed hheld (le_u64Max call)
      rcases Nat.lt_or_ge call.toNat t₁ with hearly | hfirst
      · -- the call is before the interval
        have hskip := @grantsIn_cons_early t₁ t₂ call (b.tryTake call.toNat).2
          (answersFrom (b.tryTake call.toNat).1 rest) hearly
        have hih := ih hrest htimed.held fun c hc => hnext c hc
        rw [← hskip] at hih
        exact hih
      rcases Nat.lt_or_ge t₂ call.toNat with hlate | hin
      · refine .inl (grantsIn_late (List.forall_mem_cons.mpr ⟨hlate, fun c hc => ?_⟩))
        exact hlate.trans_le (hnext c hc)
      · refine .inr ⟨b, call.toNat, hfirst, hin, le_u64Max call, hheld, ?_⟩
        have hcons := @grantsIn_cons t₁ t₂ call (b.tryTake call.toNat).2
          (answersFrom (b.tryTake call.toNat).1 rest)
        have hbudget := @grants_le_budget t₁ t₂ _ hrest _ _ _ htimed fun c hc => hnext c hc
        have hspent := tryTake_budget b call.toNat t₂ (b.lastRefill.getD call.toNat +
          (call.toNat - b.lastRefill.getD call.toNat) / PERIOD * PERIOD)
        calc grantsIn t₁ t₂ (answersFrom b (call :: rest))
            ≤ (if (b.tryTake call.toNat).2 then 1 else 0) +
                grantsIn t₁ t₂ (answersFrom (b.tryTake call.toNat).1 rest) := hcons
          _ ≤ _ := by omega

/-- A run of calls earns a token for each period its origin moves on, as long as the cap
does not hold the bucket back. -/
theorem earned_run {rest : List UInt64} : ∀ {b : RegistrationBudget} {call : UInt64} {last : Nat},
    (call :: rest).Pairwise (· ≤ ·) → b.Timed call.toNat last →
    machine.Along (fun b now => b.level now.toNat ≤ NEW_REGISTRATION_BURST) b rest →
    ∃ earned, (machine.run b rest).tokens + ((answersFrom b rest).countP fun a => a.2) =
        b.tokens + earned ∧
      (machine.run b rest).Timed ((call :: rest).getLast (List.cons_ne_nil _ _)).toNat
        (last + earned * PERIOD) := by
  induction rest with
  | nil =>
      intro b call last _ h _
      refine ⟨0, rfl, ?_⟩
      rw [Nat.zero_mul, Nat.add_zero]
      exact h
  | cons next rest ih =>
      intro b call last hsorted h halong
      have ⟨hfrom, hrest⟩ := List.pairwise_cons.mp hsorted
      have hle : call.toNat ≤ next.toNat := hfrom next List.mem_cons_self
      have hheld := h.held.mono hle
      have hlast : b.lastRefill.getD next.toNat = last := by rw [h.origin]; rfl
      have htimed := tryTake_timed hheld (le_u64Max next)
      rw [hlast] at htimed
      obtain ⟨hlevel, halong⟩ := halong
      have hrefilled : (b.refilled next.toNat).tokens =
          b.tokens + (next.toNat - last) / PERIOD := by
        rw [refilled_eq hheld (le_u64Max next)]
        show min (b.level next.toNat) NEW_REGISTRATION_BURST = _
        rw [Nat.min_eq_left hlevel, level, hlast]
      obtain ⟨_, htokens⟩ := tryTake_spec b next.toNat
      obtain ⟨earned, hearned, hend⟩ := ih hrest htimed halong
      refine ⟨(next.toNat - last) / PERIOD + earned, ?_, ?_⟩
      · have hcount : ((answersFrom b (next :: rest)).countP fun a => a.2) =
            ((answersFrom (b.tryTake next.toNat).1 rest).countP fun a => a.2) +
              (if (b.tryTake next.toNat).2 then 1 else 0) := List.countP_cons ..
        rw [hcount, Machine.run_cons]
        show (machine.run (b.tryTake next.toNat).1 rest).tokens + _ = _
        omega
      · rw [Nat.add_mul, ← Nat.add_assoc]
        rw [List.getLast_cons (List.cons_ne_nil _ _)]
        exact hend

/-- After calls in order the bucket is held by the time of any later one. -/
theorem held_after {calls : List UInt64} (hsorted : calls.Pairwise (· ≤ ·))
    (hbefore : ∀ c ∈ calls, c.toNat ≤ now) : (after calls).Held now := by
  induction calls using List.reverseRecOn generalizing now with
  | nil => exact ⟨le_rfl, nofun⟩
  | append_singleton front call ih =>
      obtain ⟨hfront, _, hlast⟩ := List.pairwise_append.mp hsorted
      have hheld := ih hfront fun c hc => hlast c hc call List.mem_cons_self
      have htimed := tryTake_timed hheld (le_u64Max call)
      rw [after, Machine.run_concat]
      exact htimed.held.mono (hbefore call (by simp))

theorem losesNoTime {calls : List UInt64} (hsorted : calls.Pairwise (· ≤ ·)) :
    LosesNoTime calls := by
  rintro front first rest rfl halong
  obtain ⟨hfront, hrest, hcross⟩ := List.pairwise_append.mp hsorted
  have hheld : (after front).Held first.toNat :=
    held_after hfront fun c hc => hcross c hc first List.mem_cons_self
  have htimed := tryTake_timed hheld (le_u64Max first)
  have hfirst : after (front ++ [first]) = ((after front).tryTake first.toNat).1 := by
    rw [after, Machine.run_concat]
    rfl
  have hrun : after (front ++ first :: rest) = machine.run (after (front ++ [first])) rest := by
    have hsplit : front ++ first :: rest = front ++ [first] ++ rest := by simp
    rw [hsplit, after, Machine.run_append]
    rfl
  rw [← hfirst] at htimed
  obtain ⟨earned, hearned, hend⟩ := earned_run hrest htimed halong
  have hpast := htimed.past
  have hrecent := hend.recent
  have hperiod := period_pos
  rw [hrun]
  exact ⟨earned, hearned, by omega⟩

/-- In any interval the bucket grants at most its burst, one for each period and one
more; at one instant at most its burst; and no caller loses a whole period. -/
theorem registration_budget {calls : List UInt64} (hsorted : calls.Pairwise (· ≤ ·)) :
    (∀ t₁ t₂, grantsIn t₁ t₂ (answersFrom new calls) ≤
        NEW_REGISTRATION_BURST + (t₂ - t₁) / PERIOD + 1) ∧
      (∀ t, grantsIn t t (answersFrom new calls) ≤ NEW_REGISTRATION_BURST) ∧
      LosesNoTime calls := by
  have hnew : new.Held 0 := ⟨le_rfl, nofun⟩
  refine ⟨fun t₁ t₂ => ?_, fun t => ?_, losesNoTime hsorted⟩
  · rcases @grants_window t₁ t₂ _ hsorted _ _ hnew fun _ _ => Nat.zero_le _ with
      hzero | ⟨b', first, hfrom, hto, hmax, hheld, hbudget⟩
    · rw [hzero]
      exact Nat.zero_le _
    · have hbound := TokenBucket.budget_refilled_le period_pos hheld.getD hto
        (refilled_timed hheld hmax).burst
      have hlength : (t₂ - first) / PERIOD ≤ (t₂ - t₁) / PERIOD :=
        Nat.div_le_div_right (by omega)
      omega
  · rcases @grants_window t t _ hsorted _ _ hnew fun _ _ => Nat.zero_le _ with
      hzero | ⟨b', first, hfrom, hto, hmax, hheld, hbudget⟩
    · rw [hzero]
      exact Nat.zero_le _
    · have htimed := refilled_timed hheld hmax
      have hrecent := htimed.recent
      have hburst := htimed.burst
      have hperiod := period_pos
      -- what is left of the current period earns nothing at this instant
      have hnone : (t - (b'.lastRefill.getD first +
          (first - b'.lastRefill.getD first) / PERIOD * PERIOD)) / PERIOD = 0 :=
        Nat.div_eq_of_lt (by omega)
      unfold TokenBucket.budget at hbudget
      rw [hnone] at hbudget
      omega

/-- Two calls, an hour and a half apart. -/
theorem registration_budget_two :
    grantsIn 0 5400 (answersFrom new [0, 5400]) ≤ NEW_REGISTRATION_BURST + 5400 / PERIOD + 1 ∧
      LosesNoTime [0, 5400] :=
  have h := registration_budget (show ([0, 5400] : List UInt64).Pairwise (· ≤ ·) by decide)
  ⟨h.1 0 5400, h.2.2⟩

end RegistrationBudget
end Coordinator
end ComputePool
