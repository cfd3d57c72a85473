import ComputePool.Coordinator.AdmissionViews
import ComputePool.Coordinator.Api
import ComputePool.Lib.TokenBucket

/-!
# The rate limit of a key

A key's bucket lives in the record of its used timestamps, and a record goes when
its last timestamp leaves the window.  A key whose bucket is full by then loses
nothing by it, and is held to its burst and one request per refill.  A key which
dates its requests at the past edge of the window gets a new bucket with every
request.
-/

namespace ComputePool
namespace Coordinator

open RustStd

/-- The requests of `k` admitted between `t₁` and `t₂`. -/
def admittedIn (k : H160) (t₁ t₂ : Nat) (answers : List (Call × Except Refused Unit)) : Nat :=
  answers.countP fun a =>
    decide (a.1.who = k) && decide (a.2 = .ok ()) &&
      (decide (t₁ ≤ a.1.now.toNat) && decide (a.1.now.toNat ≤ t₂))

/-- In any interval `k` is held to its burst and one request per refill. -/
def RateBound (k : H160) (calls : List Call) : Prop :=
  ∀ t₁ t₂, admittedIn k t₁ t₂ (answersOf calls) ≤
    PER_KEY_BURST + (t₂ - t₁) / PER_KEY_REFILL_NANOS + 1

/-- Every key whose requests are fresh when they are admitted is held to its rate. -/
def RateLimited : Prop :=
  ∀ k calls, calls.Pairwise Call.Before →
    (∀ call ∈ calls, call.who = k → fresh call.timestamp.toNat call.now.toNat = true) →
      RateBound k calls

/-- If all that is remembered of the caller has left the window, the bucket in its
record is full by now. -/
def FullWhenDropped (a : Admission) (call : Call) : Prop :=
  ∀ key, a.perKey[call.who]? = some key →
    (∀ ts ∈ key.seen, ts < call.now.toNat - WINDOW_PAST_NANOS) →
      PER_KEY_BURST ≤ key.tokens + (call.now.toNat - key.lastRefill) / PER_KEY_REFILL_NANOS

/-! ## The bucket -/

/-- What holds of a bucket that was last used by `now`. -/
structure Bucket (key : KeyState) (now : Nat) : Prop where
  burst : key.tokens ≤ PER_KEY_BURST
  past : key.lastRefill ≤ now

/-- The requests a bucket can still admit up to `t₂`. -/
def budget (t₂ : Nat) (key : KeyState) : Nat :=
  TokenBucket.budget PER_KEY_REFILL_NANOS t₂ key.tokens key.lastRefill

theorem refill_pos : 0 < PER_KEY_REFILL_NANOS := by decide

theorem Bucket.mono {key : KeyState} {now now' : Nat} (h : Bucket key now) (hle : now ≤ now') :
    Bucket key now' :=
  ⟨h.burst, h.past.trans hle⟩

theorem bucket_new (now : Nat) : Bucket ⟨∅, PER_KEY_BURST, now⟩ now :=
  ⟨le_refl _, le_refl _⟩

theorem refill_spec {key : KeyState} {now : Nat} (h : Bucket key now) (hnow : now ≤ u64Max) :
    let earned := (now - key.lastRefill) / PER_KEY_REFILL_NANOS
    Bucket (key.refill now) now ∧ (key.refill now).tokens ≤ key.tokens + earned ∧
      (key.refill now).lastRefill = key.lastRefill + earned * PER_KEY_REFILL_NANOS := by
  have ⟨hburst, hpast⟩ := h
  have hearned := Nat.div_mul_le_self (now - key.lastRefill) PER_KEY_REFILL_NANOS
  unfold KeyState.refill
  dsimp only
  generalize (now - key.lastRefill) / PER_KEY_REFILL_NANOS = earned at hearned ⊢
  split
  · have hmul : satMul earned PER_KEY_REFILL_NANOS = earned * PER_KEY_REFILL_NANOS :=
      Nat.min_eq_left ((hearned.trans (Nat.sub_le _ _)).trans hnow)
    have hadd : satAdd key.lastRefill (satMul earned PER_KEY_REFILL_NANOS) =
        key.lastRefill + earned * PER_KEY_REFILL_NANOS := by
      rw [hmul]
      exact Nat.min_eq_left (by omega)
    refine ⟨⟨?_, ?_⟩, ?_, hadd⟩
    · exact Nat.min_le_right _ _
    · dsimp only
      rw [hadd]
      omega
    · exact (Nat.min_le_left _ _).trans (satAdd_le_add _ _)
  · rename_i hzero
    have hnone : earned = 0 := by omega
    rw [hnone, Nat.zero_mul]
    exact ⟨h, Nat.le_refl _, rfl⟩

/-- Refilling does not enlarge the budget. -/
theorem budget_refill {key : KeyState} {now t₂ : Nat} (h : Bucket key now) (hnow : now ≤ u64Max)
    (hend : now ≤ t₂) : budget t₂ (key.refill now) ≤ budget t₂ key := by
  have ⟨_, htokens, hlast⟩ := refill_spec h hnow
  unfold budget
  rw [hlast]
  exact TokenBucket.budget_refill h.past hend htokens

/-- A bucket refilled at `now` has less than one refill beyond its tokens. -/
theorem budget_refilled_le {key : KeyState} {now t₂ : Nat} (h : Bucket key now)
    (hnow : now ≤ u64Max) (hend : now ≤ t₂) :
    budget t₂ (key.refill now) ≤ PER_KEY_BURST + (t₂ - now) / PER_KEY_REFILL_NANOS + 1 := by
  have ⟨hbucket, _, hlast⟩ := refill_spec h hnow
  unfold budget
  rw [hlast]
  exact TokenBucket.budget_refilled_le refill_pos h.past hend hbucket.burst

/-- The record `admit` starts from. -/
def opened (record : Option KeyState) (now : Nat) : KeyState :=
  (pruneKey now record).getD ⟨∅, PER_KEY_BURST, now⟩

/-- What `admit` does to the bucket: nothing for a replay; otherwise it is refilled,
and a request that is admitted takes a token. -/
theorem admitKey_bucket (record : Option KeyState) (ts now : Nat) :
    let key := opened record now
    (admitKey record ts now).2 = .error .replay ∧ (admitKey record ts now).1 = key ∨
      (admitKey record ts now).2 ≠ .ok () ∧ (admitKey record ts now).1 = key.refill now ∨
      (admitKey record ts now).2 = .ok () ∧
        (admitKey record ts now).1.tokens + 1 = (key.refill now).tokens ∧
        (admitKey record ts now).1.lastRefill = (key.refill now).lastRefill := by
  unfold admitKey opened
  dsimp only
  split
  · exact .inl ⟨rfl, rfl⟩
  · split
    · exact .inr (.inl ⟨by simp, rfl⟩)
    · rename_i htokens
      split
      · exact .inr (.inl ⟨by simp, rfl⟩)
      · refine .inr (.inr ⟨rfl, ?_, rfl⟩)
        dsimp only
        omega

/-- The record that is opened has the caller's bucket, or a new one. -/
theorem opened_cases (record : Option KeyState) (now : Nat) :
    (pruneKey now record = none ∧ opened record now = ⟨∅, PER_KEY_BURST, now⟩) ∨
      ∃ key, record = some key ∧ (opened record now).tokens = key.tokens ∧
        (opened record now).lastRefill = key.lastRefill := by
  cases hpruned : pruneKey now record with
  | none => exact .inl ⟨rfl, by rw [opened, hpruned]; rfl⟩
  | some kept =>
      have ⟨key, hkey, htokens, hlast, _⟩ := mem_pruneKey hpruned
      refine .inr ⟨key, hkey, ?_, ?_⟩
      · rw [opened, hpruned]
        exact htokens
      · rw [opened, hpruned]
        exact hlast

theorem opened_bucket {record : Option KeyState} (now : Nat)
    (h : ∀ key, record = some key → Bucket key now) : Bucket (opened record now) now := by
  rcases opened_cases record now with ⟨_, hnew⟩ | ⟨key, hkey, htokens, hlast⟩
  · rw [hnew]
    exact bucket_new now
  · have hbucket := h key hkey
    exact ⟨htokens ▸ hbucket.burst, hlast ▸ hbucket.past⟩

theorem admitKey_keeps_bucket {record : Option KeyState} {ts now : Nat} (hnow : now ≤ u64Max)
    (h : ∀ key, record = some key → Bucket key now) : Bucket (admitKey record ts now).1 now := by
  have hopened := opened_bucket now h
  have ⟨hrefilled, _⟩ := refill_spec hopened hnow
  rcases admitKey_bucket record ts now with ⟨_, hsame⟩ | ⟨_, hsame⟩ | ⟨_, htokens, hlast⟩
  · rw [hsame]
    exact hopened
  · rw [hsame]
    exact hrefilled
  · have hburst := hrefilled.burst
    exact ⟨by omega, hlast ▸ hrefilled.past⟩

theorem pruneKey_eq_none {key : KeyState} {now : Nat} (h : pruneKey now (some key) = none) :
    ∀ ts ∈ key.seen, ts < now - WINDOW_PAST_NANOS := by
  intro ts hts
  by_contra hnew
  rw [pruneKey, dropWhere_some] at h
  have hkept : ts ∈ key.seen.filter fun t => !decide (t < now - WINDOW_PAST_NANOS) := by
    rw [mem_set_filter]
    exact ⟨hts, by simpa using hnew⟩
  rw [set_nonempty_iff.mpr ⟨ts, hkept⟩] at h
  cases h

/-- A token taken is one request less. -/
theorem budget_taken {key key' : KeyState} (t₂ : Nat) (htokens : key'.tokens + 1 = key.tokens)
    (hlast : key'.lastRefill = key.lastRefill) : budget t₂ key' + 1 = budget t₂ key := by
  unfold budget TokenBucket.budget
  rw [hlast]
  omega

/-- As long as only full buckets are dropped, what is admitted comes out of the
budget. -/
theorem admitKey_budget {key : KeyState} (ts : Nat) {now t₂ : Nat} (h : Bucket key now)
    (hnow : now ≤ u64Max) (hend : now ≤ t₂)
    (hfull : (∀ ts ∈ key.seen, ts < now - WINDOW_PAST_NANOS) →
      PER_KEY_BURST ≤ key.tokens + (now - key.lastRefill) / PER_KEY_REFILL_NANOS) :
    (if (admitKey (some key) ts now).2 = .ok () then 1 else 0) +
      budget t₂ (admitKey (some key) ts now).1 ≤ budget t₂ key := by
  have hopened : budget t₂ (opened (some key) now) ≤ budget t₂ key := by
    rcases opened_cases (some key) now with ⟨hdropped, hnew⟩ | ⟨key', hkey, htokens, hlast⟩
    · -- the burst of the new bucket is what the old one would have earned by now
      have hburst := hfull (pruneKey_eq_none hdropped)
      rw [hnew]
      exact TokenBucket.budget_renew h.past hend hburst
    · cases hkey
      unfold budget
      rw [htokens, hlast]
  have hbucket := opened_bucket now fun k hk => Option.some.inj hk ▸ h
  have hrefilled := budget_refill hbucket hnow hend
  rcases admitKey_bucket (some key) ts now with ⟨hreplay, hsame⟩ | ⟨hno, hsame⟩ | ⟨hok, htokens, hlast⟩
  · rw [hreplay, hsame, if_neg (by simp)]
    omega
  · rw [hsame, if_neg hno]
    omega
  · have htaken := budget_taken t₂ htokens hlast
    rw [if_pos hok]
    omega

/-- The first request that is not a replay finds a bucket with less than one refill
beyond its tokens. -/
theorem admitKey_first {record : Option KeyState} (ts : Nat) {now t₂ : Nat}
    (h : ∀ key, record = some key → Bucket key now) (hnow : now ≤ u64Max) (hend : now ≤ t₂) :
    (admitKey record ts now).2 = .error .replay ∨
      (if (admitKey record ts now).2 = .ok () then 1 else 0) +
        budget t₂ (admitKey record ts now).1 ≤
          PER_KEY_BURST + (t₂ - now) / PER_KEY_REFILL_NANOS + 1 := by
  have hbound := budget_refilled_le (opened_bucket now h) hnow hend
  rcases admitKey_bucket record ts now with ⟨hreplay, _⟩ | ⟨hno, hsame⟩ | ⟨hok, htokens, hlast⟩
  · exact .inl hreplay
  · rw [hsame, if_neg hno]
    omega
  · have htaken := budget_taken t₂ htokens hlast
    rw [if_pos hok]
    omega

/-! ## Runs of one key's requests -/

variable {k : H160} {t₁ t₂ : Nat} {a : Admission} {calls : List Call}

/-- A request adds at most itself to the count, and only if it was admitted in the
interval. -/
theorem admittedIn_cons (k : H160) (t₁ t₂ : Nat) (call : Call) (answer : Except Refused Unit)
    (rest : List (Call × Except Refused Unit)) :
    admittedIn k t₁ t₂ ((call, answer) :: rest) ≤
      (if answer = .ok () then 1 else 0) + admittedIn k t₁ t₂ rest := by
  unfold admittedIn
  rw [List.countP_cons]
  by_cases hok : answer = .ok ()
  · rw [if_pos hok]
    split <;> omega
  · simp [hok]

theorem admittedIn_cons_early {call : Call} (answer : Except Refused Unit)
    (rest : List (Call × Except Refused Unit)) (h : call.now.toNat < t₁) :
    admittedIn k t₁ t₂ ((call, answer) :: rest) = admittedIn k t₁ t₂ rest := by
  unfold admittedIn
  rw [List.countP_cons_of_neg]
  simp only [Bool.and_eq_true, decide_eq_true_eq, not_and, not_le]
  omega

/-- Only the answers of `k` count. -/
theorem admittedIn_filter (answers : List (Call × Except Refused Unit)) :
    admittedIn k t₁ t₂ (answers.filter fun a => a.1.who = k) = admittedIn k t₁ t₂ answers := by
  unfold admittedIn
  rw [List.countP_filter]
  apply List.countP_congr
  intro a _
  simp only [Bool.and_eq_true, decide_eq_true_eq]
  tauto

/-- Nothing is counted once the interval is over. -/
theorem admittedIn_late (h : ∀ call ∈ calls, t₂ < call.now.toNat) :
    admittedIn k t₁ t₂ (admission.answers answerOf a calls) = 0 := by
  unfold admittedIn
  rw [List.countP_eq_zero]
  intro answer hanswer
  have hcall : answer.1 ∈ calls := by
    rw [← Machine.answers_inputs admission answerOf a calls]
    exact List.mem_map_of_mem hanswer
  have hlate := h answer.1 hcall
  simp only [Bool.and_eq_true, decide_eq_true_eq, not_and, not_le]
  omega

theorem late_of_cons {call : Call} {rest : List Call}
    (hclock : (call :: rest).Pairwise Call.Before) (h : t₂ < call.now.toNat) :
    ∀ c ∈ call :: rest, t₂ < c.now.toNat := by
  intro c hc
  rcases List.mem_cons.mp hc with rfl | hrest
  · exact h
  · exact h.trans_le ((List.pairwise_cons.mp hclock).1 c hrest)

/-- What a call of `k` makes of `k`'s record, and what it is answered. -/
theorem step_own (ha : a.Consistent) {call : Call} (hk : call.who = k) :
    (admission.step a call).perKey[k]? =
        some (admitKey (a.perKey[k]?) call.timestamp.toNat call.now.toNat).1 ∧
      answerOf a call = (admitKey (a.perKey[k]?) call.timestamp.toNat call.now.toNat).2 := by
  subst hk
  exact ⟨admission_separates.own a call ha, admission_separates.reply a call ha⟩

theorem now_le_max (call : Call) : call.now.toNat ≤ u64Max := by
  have := call.now.toNat_lt
  rw [u64Max]
  omega

/-- The requests of `k` that come later find the bucket that this one left. -/
theorem bucket_later {record : Option KeyState} {call : Call} {rest : List Call}
    (hclock : (call :: rest).Pairwise Call.Before)
    (hbucket : ∀ key, record = some key → Bucket key call.now.toNat) :
    ∀ c ∈ rest, Bucket (admitKey record call.timestamp.toNat call.now.toNat).1 c.now.toNat :=
  fun c hc => (admitKey_keeps_bucket (now_le_max call) hbucket).mono
    ((List.pairwise_cons.mp hclock).1 c hc)

/-- As long as only full buckets are dropped, a bucket's budget covers all that is
admitted. -/
theorem admitted_le_budget (t₁ t₂ : Nat) {key : KeyState} (ha : a.Consistent) (hget : a.perKey[k]? = some key)
    (hk : ∀ call ∈ calls, call.who = k) (hclock : calls.Pairwise Call.Before)
    (hbucket : ∀ call ∈ calls, Bucket key call.now.toNat)
    (hfull : admission.Along FullWhenDropped a calls) :
    admittedIn k t₁ t₂ (admission.answers answerOf a calls) ≤ budget t₂ key := by
  induction calls generalizing a key with
  | nil => exact Nat.zero_le _
  | cons call rest ih =>
      by_cases hend : call.now.toNat ≤ t₂
      · have hwho := hk call List.mem_cons_self
        have hnow := hbucket call List.mem_cons_self
        have ⟨hstep, hanswer⟩ := step_own ha hwho
        rw [hget] at hstep hanswer
        have hspent := admitKey_budget call.timestamp.toNat hnow (now_le_max call) hend
          (hfull.1 key (by rw [hwho]; exact hget))
        have ha' : (admission.step a call).Consistent := ha.admitRequest _ _ _
        have hrest := ih ha' hstep
          (fun c hc => hk c (List.mem_cons_of_mem _ hc)) (List.pairwise_cons.mp hclock).2
          (bucket_later hclock fun _ hsame => Option.some.inj hsame ▸ hnow) hfull.2
        have hcount := admittedIn_cons k t₁ t₂ call (answerOf a call)
          (admission.answers answerOf (admission.step a call) rest)
        rw [hanswer] at hcount
        rw [Machine.answers, hanswer]
        omega
      · rw [admittedIn_late (late_of_cons hclock (Nat.lt_of_not_le hend))]
        exact Nat.zero_le _

theorem admitted_le_rate (ha : a.Consistent) (hk : ∀ call ∈ calls, call.who = k)
    (hclock : calls.Pairwise Call.Before)
    (hbucket : ∀ key, a.perKey[k]? = some key → ∀ call ∈ calls, Bucket key call.now.toNat)
    (hfull : admission.Along FullWhenDropped a calls) :
    admittedIn k t₁ t₂ (admission.answers answerOf a calls) ≤
      PER_KEY_BURST + (t₂ - t₁) / PER_KEY_REFILL_NANOS + 1 := by
  induction calls generalizing a with
  | nil => exact Nat.zero_le _
  | cons call rest ih =>
      by_cases hend : call.now.toNat ≤ t₂
      · have hwho := hk call List.mem_cons_self
        have hnow : ∀ key, a.perKey[k]? = some key → Bucket key call.now.toNat :=
          fun key hget => hbucket key hget call List.mem_cons_self
        have hk' : ∀ c ∈ rest, c.who = k := fun c hc => hk c (List.mem_cons_of_mem _ hc)
        have hclock' := (List.pairwise_cons.mp hclock).2
        have ⟨hstep, hanswer⟩ := step_own ha hwho
        have hlater := bucket_later hclock hnow
        have ha' : (admission.step a call).Consistent := ha.admitRequest _ _ _
        have hrest := ih ha' hk' hclock'
          (fun key hget => by
            rw [hstep] at hget
            exact Option.some.inj hget ▸ hlater) hfull.2
        have hcount := admittedIn_cons k t₁ t₂ call (answerOf a call)
          (admission.answers answerOf (admission.step a call) rest)
        rw [Machine.answers]
        by_cases hstart : call.now.toNat < t₁
        · rw [admittedIn_cons_early _ _ hstart]
          exact hrest
        · -- the first request in the interval that refills the bucket bounds the rest
          rcases admitKey_first call.timestamp.toNat hnow (now_le_max call) hend
            with hreplay | hspent
          · rw [hanswer, hreplay] at hcount ⊢
            rw [if_neg (by simp)] at hcount
            omega
          · have hlast := admitted_le_budget t₁ t₂ ha' hstep hk' hclock' hlater hfull.2
            have hlength : (t₂ - call.now.toNat) / PER_KEY_REFILL_NANOS ≤
                (t₂ - t₁) / PER_KEY_REFILL_NANOS := Nat.div_le_div_right (by omega)
            rw [hanswer] at hcount ⊢
            exact (hcount.trans (Nat.add_le_add_left hlast _)).trans (hspent.trans (by omega))
      · rw [admittedIn_late (late_of_cons hclock (Nat.lt_of_not_le hend))]
        exact Nat.zero_le _

/-- In every run in which no request of `k` finds that a bucket was dropped before
it was full, `k` is held to its rate. -/
theorem rate_bounded_of_full_drops (k : H160) (calls : List Call)
    (hclock : calls.Pairwise Call.Before)
    (hfull : admission.Along FullWhenDropped Admission.empty
      (calls.filter fun call => call.who = k)) : RateBound k calls := by
  intro t₁ t₂
  have halone : (answersOf calls).filter (fun a => a.1.who = k) =
      answersOf (calls.filter fun call => call.who = k) :=
    admission_separates.answers_eq k Admission.empty_consistent hclock
  rw [← admittedIn_filter, halone]
  apply admitted_le_rate Admission.empty_consistent _ (hclock.sublist List.filter_sublist)
    (fun key hget => by simp [Admission.empty] at hget) hfull
  intro call hcall
  simpa using (List.mem_filter.mp hcall).2

/-! ## Requests at the edge of the window -/

/-- Without a record the whole burst is there. -/
theorem admitKey_of_dropped {record : Option KeyState} {now : Nat} (ts : Nat)
    (h : pruneKey now record = none) :
    admitKey record ts now = (⟨(∅ : BTreeSet Nat).insert ts, PER_KEY_BURST - 1, now⟩, .ok ()) := by
  have hnew : KeyState.refill ⟨∅, PER_KEY_BURST, now⟩ now = ⟨∅, PER_KEY_BURST, now⟩ := by
    simp [KeyState.refill]
  have hburst : ¬ PER_KEY_BURST = 0 := by decide
  have hquota : ¬ (0 : Nat) ≥ PER_KEY_QUOTA := by decide
  simp [admitKey, h, hnew, hburst, hquota]

/-- The fleet's first key: a request a nanosecond, each dated at the past edge. -/
def edgeCall (i : Nat) : Call :=
  ⟨FixedBytes.ofNat 1, UInt64.ofNat i, UInt64.ofNat (WINDOW_PAST_NANOS + i)⟩

theorem edgeCall_times {i : Nat} (h : i < 1000) :
    (edgeCall i).timestamp.toNat = i ∧ (edgeCall i).now.toNat = WINDOW_PAST_NANOS + i := by
  have hwindow : WINDOW_PAST_NANOS < 2 ^ 63 := by decide
  constructor
  · exact Nat.mod_eq_of_lt (by omega)
  · exact Nat.mod_eq_of_lt (by omega)

/-- Each request finds the record of the one before gone. -/
theorem edgeCalls_admitted (n : Nat) :
    ∀ {a : Admission} {i : Nat}, a.Consistent → i + n < 1000 →
      (∀ key, a.perKey[(FixedBytes.ofNat 1 : H160)]? = some key → ∀ ts ∈ key.seen, ts < i) →
      (admission.answers answerOf a ((List.range' i n).map edgeCall)).map Prod.snd =
        List.replicate n (.ok ()) := by
  induction n with
  | zero => exact fun _ _ _ => rfl
  | succ n ih =>
      intro a i ha hsmall hold
      obtain ⟨hts, hnow⟩ := edgeCall_times (show i < 1000 by omega)
      obtain ⟨hstep, hanswer⟩ := step_own ha (show (edgeCall i).who = FixedBytes.ofNat 1 from rfl)
      have hdropped : pruneKey (edgeCall i).now.toNat
          (a.perKey[(FixedBytes.ofNat 1 : H160)]?) = none := by
        cases hget : a.perKey[(FixedBytes.ofNat 1 : H160)]? with
        | none => rfl
        | some key =>
            rw [pruneKey, dropWhere_some, if_pos]
            by_contra hfull
            obtain ⟨ts, hmem⟩ := set_nonempty_iff.mp (Bool.eq_false_iff.mpr hfull)
            obtain ⟨hseen, hnew⟩ := mem_set_filter.mp hmem
            have hlt := hold key hget ts hseen
            rw [hnow] at hnew
            simp only [Bool.not_eq_true', decide_eq_false_iff_not, not_lt] at hnew
            omega
      have hadmitted := admitKey_of_dropped (edgeCall i).timestamp.toNat hdropped
      rw [hadmitted] at hstep hanswer
      have ha' : (admission.step a (edgeCall i)).Consistent := ha.admitRequest _ _ _
      have hrest := ih ha' (show i + 1 + n < 1000 by omega) fun key hget ts hmem => by
        rw [hstep] at hget
        cases hget
        rw [Std.ExtTreeSet.mem_insert, compare_eq_iff_eq, hts] at hmem
        rcases hmem with rfl | hmem
        · omega
        · exact absurd hmem Std.ExtTreeSet.not_mem_empty
      rw [List.range'_succ, List.map_cons, Machine.answers, List.map_cons, hrest, hanswer]
      rfl

/-- Twelve requests within eleven nanoseconds are all admitted. -/
theorem not_rateLimited : ¬ RateLimited := by
  intro h
  have hbound := h (FixedBytes.ofNat 1) ((List.range' 0 12).map edgeCall) (by decide) (by decide)
    WINDOW_PAST_NANOS (WINDOW_PAST_NANOS + 11)
  have hadmitted := edgeCalls_admitted 12 Admission.empty_consistent (show 0 + 12 < 1000 by decide)
    fun key hget => by simp [Admission.empty] at hget
  have hcalls := Machine.answers_inputs admission answerOf Admission.empty
    ((List.range' 0 12).map edgeCall)
  have hall : answersOf ((List.range' 0 12).map edgeCall) =
      ((List.range' 0 12).map edgeCall).zip (List.replicate 12 (.ok ())) :=
    List.zip_of_prod hcalls hadmitted
  rw [hall] at hbound
  revert hbound
  decide

/-- Two requests dated now. -/
theorem rate_bounded_of_full_drops_two :
    RateBound (FixedBytes.ofNat 1)
      [⟨FixedBytes.ofNat 1, 200000000000, 200000000000⟩,
        ⟨FixedBytes.ofNat 1, 201000000000, 201000000000⟩] := by
  apply rate_bounded_of_full_drops _ _ (by decide)
  refine ⟨fun key hget => by simp [Admission.empty] at hget, fun key hget hold => ?_, trivial⟩
  obtain ⟨hstep, _⟩ := step_own Admission.empty_consistent
    (show (⟨FixedBytes.ofNat 1, 200000000000, 200000000000⟩ : Call).who = FixedBytes.ofNat 1 from rfl)
  have hnone : Admission.empty.perKey[(FixedBytes.ofNat 1 : H160)]? = none := by
    simp [Admission.empty]
  rw [hnone, admitKey_of_dropped _ rfl] at hstep
  cases Option.some.inj (hget.symm.trans hstep)
  exact absurd (hold 200000000000 Std.ExtTreeSet.mem_insert_self) (by decide)

end Coordinator
end ComputePool
