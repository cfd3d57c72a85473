import ComputePool.Coordinator.AdmissionRate

/-!
# The quota of a key

A record remembers a timestamp for each request its bucket has let through, each at
most the permitted skew ahead of the clock, and forgets those behind the window.  So
what it remembers is covered by the burst and what the bucket has earned in window and
skew together, and that is short of the quota.
-/

namespace ComputePool
namespace Coordinator

open RustStd TokenBucket

/-! ## What a record remembers -/

/-- The remembered timestamps as a finite set. -/
def KeyState.stamps (key : KeyState) : Finset Nat := key.seen.toList.toFinset

theorem mem_stamps {key : KeyState} {ts : Nat} : ts ∈ key.stamps ↔ ts ∈ key.seen := by
  unfold KeyState.stamps
  rw [List.mem_toFinset, mem_elements]

theorem stamps_card (key : KeyState) : key.stamps.card = key.seen.size := by
  have hnodup : key.seen.toList.Nodup := (elements_ascending key.seen).imp fun h => h.ne
  unfold KeyState.stamps
  rw [List.toFinset_card_of_nodup hnodup, Std.ExtTreeSet.length_toList]

theorem refill_seen (key : KeyState) (now : Nat) : (key.refill now).seen = key.seen := by
  unfold KeyState.refill
  dsimp only
  split
  · rfl
  · rfl

theorem refill_stamps (key : KeyState) (now : Nat) : (key.refill now).stamps = key.stamps := by
  unfold KeyState.stamps
  rw [refill_seen]

/-- The bucket covers what it has let through. -/
def Covered (key : KeyState) : Prop :=
  Covers PER_KEY_REFILL_NANOS MAX_FUTURE_SKEW_NANOS PER_KEY_BURST key.stamps key.tokens
    key.lastRefill

/-- What holds of every record by `now`. -/
structure Rationed (key : KeyState) (now : Nat) : Prop where
  bucket : Bucket key now
  covered : Covered key
  below : key.seen.size < PER_KEY_QUOTA

theorem Rationed.mono {key : KeyState} {now now' : Nat} (h : Rationed key now)
    (hle : now ≤ now') : Rationed key now' :=
  ⟨h.bucket.mono hle, h.covered, h.below⟩

/-! ## One call -/

section

variable {record : Option KeyState} {now : Nat}

/-- A record that forgets something is still covered. -/
theorem Rationed.forget {old key : KeyState} (h : Rationed old now)
    (htokens : key.tokens = old.tokens) (hlast : key.lastRefill = old.lastRefill)
    (hseen : ∀ ts, ts ∈ key.seen → ts ∈ old.seen) : Rationed key now := by
  have hsub : key.stamps ⊆ old.stamps := fun ts hts => mem_stamps.mpr (hseen ts (mem_stamps.mp hts))
  have hcard := Finset.card_le_card hsub
  rw [stamps_card, stamps_card] at hcard
  refine ⟨⟨htokens ▸ h.bucket.burst, hlast ▸ h.bucket.past⟩, ?_, hcard.trans_lt h.below⟩
  unfold Covered
  rw [htokens, hlast]
  exact h.covered.subset hsub

theorem Rationed.pruned {old key : KeyState} (h : Rationed old now)
    (hpruned : pruneKey now (some old) = some key) : Rationed key now := by
  have ⟨old', hold, htokens, hlast, _, hmem⟩ := mem_pruneKey hpruned
  cases hold
  exact h.forget htokens hlast fun ts hts => ((hmem ts).mp hts).1

theorem rationed_new (now : Nat) : Rationed ⟨∅, PER_KEY_BURST, now⟩ now where
  bucket := bucket_new now
  covered := by
    have hnone : KeyState.stamps ⟨∅, PER_KEY_BURST, now⟩ = ∅ := rfl
    unfold Covered
    rw [hnone]
    exact covers_new (Nat.le_refl _)
  below := (by decide : 0 < PER_KEY_QUOTA)

/-- The record `admit` starts from is rationed and in the window. -/
theorem opened_rationed (h : ∀ key, record = some key → Rationed key now) :
    Rationed (opened record now) now ∧
      ∀ ts ∈ (opened record now).seen, now - WINDOW_PAST_NANOS ≤ ts := by
  unfold opened
  cases hpruned : pruneKey now record with
  | none =>
      rw [Option.getD_none]
      exact ⟨rationed_new now, fun ts hts => absurd hts Std.ExtTreeSet.not_mem_empty⟩
  | some key =>
      rw [Option.getD_some]
      have ⟨old, hold, _, _, _, hmem⟩ := mem_pruneKey hpruned
      rw [hold] at hpruned
      exact ⟨(h old hold).pruned hpruned, fun ts hts => ((hmem ts).mp hts).2⟩

theorem Covered.refill {key : KeyState} (h : Covered key) (hbucket : Bucket key now)
    (hnow : now ≤ u64Max) : Covered (key.refill now) := by
  have ⟨hrefilled, htokens, hlast⟩ := refill_spec hbucket hnow
  unfold Covered
  rw [refill_stamps, hlast]
  exact Covers.refill refill_pos h htokens hrefilled.burst

/-- A bucket that was just refilled is less than a refill behind. -/
theorem refilled_recently {key : KeyState} (hbucket : Bucket key now) (hnow : now ≤ u64Max) :
    now < (key.refill now).lastRefill + PER_KEY_REFILL_NANOS := by
  have ⟨_, _, hlast⟩ := refill_spec hbucket hnow
  have hsplit := Nat.div_add_mod' (now - key.lastRefill) PER_KEY_REFILL_NANOS
  have hremainder := Nat.mod_lt (now - key.lastRefill) refill_pos
  rw [hlast]
  omega

/-- In the window there is room for far fewer timestamps than the quota. -/
theorem Covered.size_le {key : KeyState} (h : Covered key) (hlast : key.lastRefill ≤ now)
    (hwindow : ∀ ts ∈ key.seen, now - WINDOW_PAST_NANOS ≤ ts) :
    key.seen.size + key.tokens ≤ 86 := by
  have hfrom : ∀ ts ∈ key.stamps, now - WINDOW_PAST_NANOS ≤ ts :=
    fun ts hts => hwindow ts (mem_stamps.mp hts)
  have hcard := h.card_le hfrom
  rw [stamps_card] at hcard
  have hsince : since PER_KEY_REFILL_NANOS MAX_FUTURE_SKEW_NANOS key.lastRefill
      (now - WINDOW_PAST_NANOS) ≤ 76 := by
    have htotal : (WINDOW_PAST_NANOS + MAX_FUTURE_SKEW_NANOS + PER_KEY_REFILL_NANOS) /
        PER_KEY_REFILL_NANOS = 76 := by decide
    rw [← htotal]
    apply Nat.div_le_div_right
    omega
  have hburst : PER_KEY_BURST = 10 := rfl
  omega

/-- A call that is fresh leaves its key rationed, and is not refused for the quota. -/
theorem admitKey_rationed {ts : Nat} (hnow : now ≤ u64Max)
    (hfresh : ts ≤ now + MAX_FUTURE_SKEW_NANOS)
    (h : ∀ key, record = some key → Rationed key now) :
    Rationed (admitKey record ts now).1 now ∧
      ∀ secs, (admitKey record ts now).2 ≠ .error (.overQuota secs) := by
  have ⟨hopened, hwindow⟩ := opened_rationed h
  have hbucket : Bucket ((opened record now).refill now) now := (refill_spec hopened.bucket hnow).1
  have hcovered := hopened.covered.refill hopened.bucket hnow
  have hrecent := refilled_recently hopened.bucket hnow
  rw [← refill_seen _ now] at hwindow
  have hsize := hcovered.size_le hbucket.past hwindow
  have hquota : PER_KEY_QUOTA = 160 := rfl
  have hkept : Rationed ((opened record now).refill now) now := by
    refine ⟨hbucket, hcovered, ?_⟩
    omega
  unfold admitKey
  unfold opened at hopened hwindow hbucket hcovered hrecent hsize hkept
  dsimp only
  generalize (pruneKey now record).getD ⟨∅, PER_KEY_BURST, now⟩ = key at *
  by_cases hreplay : ts ∈ key.seen
  · rw [if_pos hreplay]
    exact ⟨hopened, fun secs => by simp⟩
  · rw [if_neg hreplay]
    by_cases htokens : (key.refill now).tokens = 0
    · rw [if_pos htokens]
      exact ⟨hkept, fun secs => by simp⟩
    · -- what is remembered leaves room for the token that is taken
      rw [if_neg htokens, if_neg (by omega)]
      refine ⟨⟨⟨?_, hbucket.past⟩, ?_, ?_⟩, fun secs => by simp⟩
      · have hburst := hbucket.burst
        dsimp only
        omega
      · have hstamps : KeyState.stamps
            { key.refill now with
              tokens := (key.refill now).tokens - 1
              seen := (key.refill now).seen.insert ts } = insert ts (key.refill now).stamps := by
          ext t
          rw [mem_stamps, Finset.mem_insert, mem_stamps, Std.ExtTreeSet.mem_insert,
            compare_eq_iff_eq, eq_comm]
        unfold Covered
        rw [hstamps]
        exact hcovered.take hfresh hrecent (by dsimp only; omega)
      · have hinsert : ((key.refill now).seen.insert ts).size ≤ (key.refill now).seen.size + 1 :=
          Std.ExtTreeSet.size_insert_le
        dsimp only
        omega

end

/-! ## Every run -/

/-- The admission as `calls` leave it. -/
abbrev Admission.after (calls : List Call) : Admission := admission.run Admission.empty calls

/-- Both views agree, and every record is rationed. -/
structure Admission.Rationing (a : Admission) (now : Nat) : Prop where
  consistent : a.Consistent
  rationed : ∀ (who : H160) key, a.perKey[who]? = some key → Rationed key now

variable {a : Admission}

theorem Admission.Rationing.mono {now now' : Nat} (h : a.Rationing now) (hle : now ≤ now') :
    a.Rationing now' :=
  ⟨h.consistent, fun who key hget => (h.rationed who key hget).mono hle⟩

/-- A fresh call keeps the rationing, and is not refused for the quota. -/
theorem Admission.Rationing.step {call : Call} (h : a.Rationing call.now.toNat)
    (hfresh : fresh call.timestamp.toNat call.now.toNat = true) :
    (admission.step a call).Rationing call.now.toNat ∧
      ∀ secs, answerOf a call ≠ .error (.overQuota secs) := by
  have hskew : call.timestamp.toNat ≤ call.now.toNat + MAX_FUTURE_SKEW_NANOS := by
    unfold fresh at hfresh
    rw [Bool.and_eq_true, decide_eq_true_eq] at hfresh
    exact hfresh.1.trans (satAdd_le_add _ _)
  have ⟨hstep, hanswer⟩ := @step_own _ _ h.consistent call rfl
  have ⟨hown, hquota⟩ := admitKey_rationed (now_le_max call) hskew (h.rationed call.who)
  rw [hanswer]
  refine ⟨⟨h.consistent.admitRequest _ _ _, fun who key hget => ?_⟩, hquota⟩
  by_cases hwho : call.who = who
  · subst hwho
    rw [hstep] at hget
    cases hget
    exact hown
  · -- another key's record is pruned
    have hother : (admission.step a call).perKey[who]? =
        pruneKey call.now.toNat (a.perKey[who]?) :=
      admission_separates.other a call who h.consistent hwho
    rw [hother] at hget
    have ⟨old, hold, _⟩ := mem_pruneKey hget
    rw [hold] at hget
    exact (h.rationed who old hold).pruned hget

/-- Along a run whose clock does not go back and whose calls are fresh. -/
theorem Admission.Rationing.run {calls : List Call} {now : Nat} (h : a.Rationing now)
    (hclock : calls.Pairwise Call.Before) (hlater : ∀ call ∈ calls, now ≤ call.now.toNat)
    (hfresh : ∀ call ∈ calls, fresh call.timestamp.toNat call.now.toNat = true) :
    (∃ now', (admission.run a calls).Rationing now') ∧
      ∀ answer ∈ admission.answers answerOf a calls, ∀ secs,
        answer.2 ≠ .error (.overQuota secs) := by
  induction calls generalizing a now with
  | nil => exact ⟨⟨now, h⟩, fun answer hanswer => absurd hanswer List.not_mem_nil⟩
  | cons call rest ih =>
      rw [List.pairwise_cons] at hclock
      have hnow := h.mono (hlater call List.mem_cons_self)
      have ⟨hstep, hquota⟩ := hnow.step (hfresh call List.mem_cons_self)
      have ⟨hrun, hanswers⟩ := ih hstep hclock.2 hclock.1 fun c hc =>
        hfresh c (List.mem_cons_of_mem _ hc)
      refine ⟨hrun, fun answer hanswer secs => ?_⟩
      rcases List.mem_cons.mp hanswer with rfl | hrest
      · exact hquota secs
      · exact hanswers answer hrest secs

theorem Admission.rationing_empty : Admission.empty.Rationing 0 where
  consistent := Admission.empty_consistent
  rationed who key hget := by simp [Admission.empty] at hget

/-- In every state that fresh calls reach while the clock does not go back, the index
holds just the pairs of a key and a timestamp in its record, no record is empty, and
every record stays below the quota; so no call is refused for it. -/
theorem index_coherent_quota_unreachable (calls : List Call)
    (hclock : calls.Pairwise Call.Before)
    (hfresh : ∀ call ∈ calls, fresh call.timestamp.toNat call.now.toNat = true) :
    (∀ ts who, toLex (ts, who) ∈ (Admission.after calls).index ↔
        ∃ key, (Admission.after calls).perKey[who]? = some key ∧ ts ∈ key.seen) ∧
      (∀ (who : H160) key, (Admission.after calls).perKey[who]? = some key →
        (∃ ts, ts ∈ key.seen) ∧ key.seen.size < PER_KEY_QUOTA) ∧
      ∀ answer ∈ answersOf calls, ∀ secs, answer.2 ≠ .error (.overQuota secs) := by
  have ⟨⟨now, hrun⟩, hanswers⟩ := Admission.rationing_empty.run hclock
    (fun _ _ => Nat.zero_le _) hfresh
  refine ⟨hrun.consistent.indexed, fun who key hget => ?_, hanswers⟩
  exact ⟨hrun.consistent.nonempty who key hget, (hrun.rationed who key hget).below⟩

/-- Two requests, the second dated ahead of the clock. -/
theorem index_coherent_quota_unreachable_two :
    FixedBytes.ofNat 1 ≠ (FixedBytes.zero : H160) ∧ ∀ answer ∈ answersOf [⟨FixedBytes.ofNat 1, 200000000000, 200000000000⟩,
        ⟨FixedBytes.ofNat 1, 230000000000, 201000000000⟩],
      ∀ secs, answer.2 ≠ .error (.overQuota secs) :=
  ⟨by decide, (index_coherent_quota_unreachable _ (by decide) (by decide)).2.2⟩

end Coordinator
end ComputePool
