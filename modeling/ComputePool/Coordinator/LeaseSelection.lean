import ComputePool.Coordinator.OneSlot

/-!
# What a lease request is answered

The filters of `State::lease` as a specification: which refusals apply and in what
order, which jobs a worker is eligible for, and which of these it is given.  The
request answers by this specification and by nothing else, and touches the job table
only through its sweep and at the job it grants.
-/

namespace ComputePool
namespace Coordinator

open RustStd

namespace State

variable (env : Env) (s : State) (w : H160) (source : String) (now : Nat)

/-! ## The specification -/

/-- The refusals of a registered worker, in order, each with its condition. -/
def refusals : List (Prop × LeaseError) :=
  let own := (s.workers[w]?).elim 0 WorkerRecord.cooldownUntil
  let group := (s.sources[sourceGroup source]?).elim 0 SourceRecord.cooldownUntil
  [(now < own, .coolingDown own),
    (MAX_LEASES_PER_WORKER ≤ s.heldBy w, .atLeaseCap),
    (w ∉ s.policy.trustedH01 ∧ now < group, .coolingDown group),
    (w ∉ s.policy.trustedH01 ∧ s.policy.maxLeasesPerSource ≤ s.heldByGroup (sourceGroup source),
      .atLeaseCap)]

/-- The first refusal that applies. -/
inductive FirstRefusal : List (Prop × LeaseError) → LeaseError → Prop where
  | here {p : Prop} {e : LeaseError} {rest : List (Prop × LeaseError)} (h : p) :
      FirstRefusal ((p, e) :: rest) e
  | later {p : Prop} {e e' : LeaseError} {rest : List (Prop × LeaseError)} (h : ¬ p)
      (hrest : FirstRefusal rest e') : FirstRefusal ((p, e) :: rest) e'

/-- No refusal applies. -/
def NoRefusal (refusals : List (Prop × LeaseError)) : Prop := ∀ r ∈ refusals, ¬ r.1

/-- A vouched worker that was active of late and could take the job. -/
structure Waits (r : JobRecord) (id : H160) (record : WorkerRecord) : Prop where
  registered : s.workers[id]? = some record
  vouched : id ∈ s.policy.trustedH01
  engaged : ∃ t, record.lastEngaged = some t ∧ now - t < VOUCHED_ACTIVE_SECS
  not_failed : id ∉ r.failedBy
  able : r.spec.requires ≤ s.policy.effectiveCapability id record.capability

/-- A lapsed job is held for vouched workers: for a while whoever there is, and above the
probe tier for longer, as long as one of them waits. -/
def Reserved (r : JobRecord) : Prop :=
  r.heldUntil ≠ 0 ∧
    (now < r.heldUntil ∨
      r.spec.requires ≠ .probe ∧
        now < satAdd (r.heldUntil - LAPSE_HOLD_SECS) (reservationCap r.spec.leaseSecs) ∧
        ∃ id record, s.Waits now r id record)

/-- The worker may be given the job. -/
structure Eligible (claimed : Capability) (r : JobRecord) : Prop where
  pending : r.status = .pending
  able : r.spec.requires ≤ s.policy.effectiveCapability w claimed
  /-- A payload that says it is a round and is none goes to nobody. -/
  parsed : loraRoundOf env r.spec ≠ .malformed
  /-- A round goes to the devices of its roster, one job each. -/
  round : ∀ p, loraRoundOf env r.spec = .round p → w ∈ p.config.roster ∧
    ∀ (id : JobId) r', s.jobs[id]? = some r' → r'.status.engaged? = some w →
      ∀ p', loraRoundOf env r'.spec = .round p' → p'.roundId ≠ p.roundId
  not_failed : w ∉ r.failedBy
  group_not_failed : w ∉ s.policy.trustedH01 → sourceGroup source ∉ r.failedBySources
  not_reserved : w ∉ s.policy.trustedH01 → ¬ s.Reserved now r

/-- The job is above every other the worker is eligible for: its tier is higher, or the
same and its id smaller. -/
def Best (claimed : Capability) (id : JobId) (r : JobRecord) : Prop :=
  ∀ (id' : JobId) r', s.jobs[id']? = some r' → s.Eligible env w source now claimed r' →
    r'.spec.requires < r.spec.requires ∨ r'.spec.requires = r.spec.requires ∧ id ≤ id'

end State

/-- What a request for a lease leaves and is answered.  All but the first refusal is
judged in the state after the sweep. -/
inductive LeaseAnswer (env : Env) (s : State) (w : H160) (now : Nat) :
    State × Except LeaseError JobSpec → Prop where
  | unknown (hknown : s.workers[w]? = none) : LeaseAnswer env s w now (s, .error .unknownWorker)
  | refused {record : WorkerRecord} {e : LeaseError} (hknown : s.workers[w]? = some record)
      (hfirst : State.FirstRefusal ((s.beforePick w now).refusals w record.source now) e) :
      LeaseAnswer env s w now (s.beforePick w now, .error e)
  | nothing {record : WorkerRecord} (hknown : s.workers[w]? = some record)
      (hallowed : State.NoRefusal ((s.beforePick w now).refusals w record.source now))
      (hnone : ∀ (id : JobId) r, (s.beforePick w now).jobs[id]? = some r →
        ¬ (s.beforePick w now).Eligible env w record.source now record.capability r) :
      LeaseAnswer env s w now (s.beforePick w now, .error .nothingAvailable)
  | granted {record : WorkerRecord} {id : JobId} {r : JobRecord}
      (hknown : s.workers[w]? = some record)
      (hallowed : State.NoRefusal ((s.beforePick w now).refusals w record.source now))
      (hget : (s.beforePick w now).jobs[id]? = some r)
      (heligible : (s.beforePick w now).Eligible env w record.source now record.capability r)
      (hbest : (s.beforePick w now).Best env w record.source now record.capability id r) :
      LeaseAnswer env s w now
        ({ s.beforePick w now with
            jobs := (s.beforePick w now).jobs.insert id (r.grant w s.policy.leaseWindowSecs now)
            dirty := true },
          .ok r.spec)

namespace State

variable {env : Env} {s : State} {w : H160} {source : String} {now : Nat} {claimed : Capability}

/-! ## The refusals -/

theorem FirstRefusal.unique {refusals : List (Prop × LeaseError)} {e e' : LeaseError}
    (h : FirstRefusal refusals e) (h' : FirstRefusal refusals e') : e = e' := by
  induction h with
  | here hfirst =>
      cases h' with
      | here _ => rfl
      | later hno _ => exact absurd hfirst hno
  | later hno _ ih =>
      cases h' with
      | here hfirst => exact absurd hfirst hno
      | later _ hrest => exact ih hrest

theorem FirstRefusal.not_none {refusals : List (Prop × LeaseError)} {e : LeaseError}
    (h : FirstRefusal refusals e) : ¬ NoRefusal refusals := by
  induction h with
  | here hfirst => exact fun hnone => hnone _ List.mem_cons_self hfirst
  | later _ _ ih => exact fun hnone => ih fun r hr => hnone r (List.mem_cons_of_mem _ hr)

/-- The chain of checks gives the first refusal that applies. -/
theorem leaseRefusal_spec :
    (∀ e, s.leaseRefusal w (sourceGroup source) now = some e →
        FirstRefusal (s.refusals w source now) e) ∧
      (s.leaseRefusal w (sourceGroup source) now = none → NoRefusal (s.refusals w source now)) := by
  have htrust : s.policy.isTrusted w = true ↔ w ∈ s.policy.trustedH01 := decide_eq_true_iff
  unfold leaseRefusal refusals
  dsimp only
  by_cases hown : (s.workers[w]?).elim 0 WorkerRecord.cooldownUntil > now
  · rw [if_pos hown]
    refine ⟨fun e he => ?_, nofun⟩
    cases he
    exact .here hown
  · rw [if_neg hown]
    by_cases hheld : s.heldBy w ≥ MAX_LEASES_PER_WORKER
    · rw [if_pos hheld]
      refine ⟨fun e he => ?_, nofun⟩
      cases he
      exact .later hown (.here hheld)
    · rw [if_neg hheld]
      by_cases htrusted : s.policy.isTrusted w = true
      · rw [if_pos htrusted]
        have hin := htrust.mp htrusted
        refine ⟨nofun, fun _ r hr => ?_⟩
        simp only [List.mem_cons, List.not_mem_nil, or_false] at hr
        rcases hr with rfl | rfl | rfl | rfl
        · exact hown
        · exact hheld
        · exact fun h => h.1 hin
        · exact fun h => h.1 hin
      · rw [if_neg htrusted]
        have hout : w ∉ s.policy.trustedH01 := fun hin => htrusted (htrust.mpr hin)
        by_cases hgroup : (s.sources[sourceGroup source]?).elim 0 SourceRecord.cooldownUntil > now
        · rw [if_pos hgroup]
          refine ⟨fun e he => ?_, nofun⟩
          cases he
          exact .later hown (.later hheld (.here ⟨hout, hgroup⟩))
        · rw [if_neg hgroup]
          by_cases hcap : s.heldByGroup (sourceGroup source) ≥ s.policy.maxLeasesPerSource
          · rw [if_pos hcap]
            refine ⟨fun e he => ?_, nofun⟩
            cases he
            exact .later hown (.later hheld (.later (fun h => hgroup h.2) (.here ⟨hout, hcap⟩)))
          · rw [if_neg hcap]
            refine ⟨nofun, fun _ r hr => ?_⟩
            simp only [List.mem_cons, List.not_mem_nil, or_false] at hr
            rcases hr with rfl | rfl | rfl | rfl
            · exact hown
            · exact hheld
            · exact fun h => hgroup h.2
            · exact fun h => hcap h.2

/-! ## The filters -/

theorem isTrusted_iff {id : H160} : s.policy.isTrusted id = true ↔ id ∈ s.policy.trustedH01 :=
  decide_eq_true_iff

theorem reserved_iff (r : JobRecord) : s.reservedForVouched r now = true ↔ s.Reserved now r := by
  unfold reservedForVouched Reserved
  by_cases hnone : r.heldUntil = 0
  · rw [if_pos hnone]
    exact iff_of_false Bool.false_ne_true fun h => h.1 hnone
  · rw [if_neg hnone]
    by_cases hheld : r.heldUntil > now
    · rw [if_pos hheld]
      exact iff_of_true rfl ⟨hnone, .inl hheld⟩
    · rw [if_neg hheld]
      by_cases hprobe : r.spec.requires = .probe
      · rw [if_pos hprobe]
        refine iff_of_false Bool.false_ne_true fun h => ?_
        rcases h.2 with hlive | hlonger
        · exact hheld hlive
        · exact hlonger.1 hprobe
      · rw [if_neg hprobe]
        by_cases hlate : now ≥ satAdd (r.heldUntil - LAPSE_HOLD_SECS)
            (reservationCap r.spec.leaseSecs)
        · rw [if_pos hlate]
          refine iff_of_false Bool.false_ne_true fun h => ?_
          rcases h.2 with hlive | hlonger
          · exact hheld hlive
          · exact absurd hlate (not_le.mpr hlonger.2.1)
        · rw [if_neg hlate, List.any_eq_true]
          constructor
          · rintro ⟨⟨id, record⟩, hmem, hwaits⟩
            simp only [Bool.and_eq_true, decide_eq_true_eq, Capability.satisfies] at hwaits
            have ⟨⟨⟨htrust, hengaged⟩, hfailed⟩, hable⟩ := hwaits
            refine ⟨hnone, .inr ⟨hprobe, not_le.mp hlate, id, record, ?_⟩⟩
            refine ⟨mem_entries.mp hmem, isTrusted_iff.mp htrust, ?_, hfailed, hable⟩
            cases hlast : record.lastEngaged with
            | none =>
                rw [hlast] at hengaged
                cases hengaged
            | some t =>
                rw [hlast] at hengaged
                exact ⟨t, rfl, of_decide_eq_true hengaged⟩
          · intro h
            rcases h.2 with hlive | ⟨_, _, id, record, hwaits⟩
            · exact absurd hlive hheld
            · have ⟨t, hlast, hrecent⟩ := hwaits.engaged
              refine ⟨(id, record), mem_entries.mpr hwaits.registered, ?_⟩
              simp only [Bool.and_eq_true, decide_eq_true_eq, Capability.satisfies, hlast]
              exact ⟨⟨⟨isTrusted_iff.mpr hwaits.vouched, hrecent⟩, hwaits.not_failed⟩, hwaits.able⟩

theorem mem_myRounds_iff {round : Federated.B32} :
    round ∈ s.myRounds env w ↔ ∃ (id : JobId) (r : JobRecord) (p : Federated.LoraDeltaPayload),
      s.jobs[id]? = some r ∧ r.status.engaged? = some w ∧ loraRoundOf env r.spec = .round p ∧
        p.roundId = round := by
  constructor
  · intro h
    unfold myRounds at h
    have ⟨⟨id, r⟩, hmem, hround⟩ := List.mem_filterMap.mp h
    have ⟨hentry, hheld⟩ := List.mem_filter.mp hmem
    have hengaged : r.status.engaged? = some w := by
      cases hstatus : r.status with
      | leased h x d =>
          rw [hstatus] at hheld
          exact congrArg some (of_decide_eq_true hheld)
      | done h t =>
          rw [hstatus] at hheld
          exact congrArg some (of_decide_eq_true hheld)
      | pending =>
          rw [hstatus] at hheld
          cases hheld
      | quarantined reason =>
          rw [hstatus] at hheld
          cases hheld
    dsimp only at hround
    cases hlora : loraRoundOf env r.spec with
    | notLora =>
        rw [hlora] at hround
        cases hround
    | malformed =>
        rw [hlora] at hround
        cases hround
    | round p =>
        rw [hlora] at hround
        exact ⟨id, r, p, mem_entries.mp hentry, hengaged, hlora, Option.some.inj hround⟩
  · rintro ⟨id, r, p, hget, hheld, hround, rfl⟩
    exact mem_myRounds hget hheld hround

/-- The filters of the code let through the jobs a worker is eligible for. -/
theorem offered_iff (r : JobRecord) :
    s.offered env w (sourceGroup source) (s.policy.effectiveCapability w claimed) now r = true ↔
      s.Eligible env w source now claimed r := by
  have hor : ∀ b : Bool, (s.policy.isTrusted w || b) = true ↔
      (w ∉ s.policy.trustedH01 → b = true) := by
    intro b
    rw [Bool.or_eq_true, isTrusted_iff]
    exact or_iff_not_imp_left
  constructor
  · intro h
    have ⟨hparsed, hround⟩ := offered_round h
    unfold offered at h
    simp only [Bool.and_eq_true, decide_eq_true_eq, hor, Bool.not_eq_true',
      Capability.satisfies] at h
    have ⟨⟨⟨⟨⟨hpending, hable⟩, _⟩, hfailed⟩, hgroup⟩, hreserved⟩ := h
    refine ⟨hpending, hable, hparsed, fun p hp => ?_, hfailed, hgroup, fun hun hres => ?_⟩
    · have ⟨hroster, hnew⟩ := hround p hp
      refine ⟨(loraRoundOf_valid hp).inRoster_iff.mp hroster, ?_⟩
      intro id r' hget hheld p' hp' hsame
      exact hnew (mem_myRounds_iff.mpr ⟨id, r', p', hget, hheld, hp', hsame⟩)
    · rw [← reserved_iff, hreserved hun] at hres
      cases hres
  · intro h
    unfold offered
    simp only [Bool.and_eq_true, decide_eq_true_eq, hor, Bool.not_eq_true', Capability.satisfies]
    refine ⟨⟨⟨⟨⟨h.pending, h.able⟩, ?_⟩, h.not_failed⟩, h.group_not_failed⟩, fun hun => ?_⟩
    · cases hround : loraRoundOf env r.spec with
      | notLora => rfl
      | malformed => exact absurd hround h.parsed
      | round p =>
          have ⟨hroster, hnew⟩ := h.round p hround
          simp only [Bool.and_eq_true, decide_eq_true_eq]
          refine ⟨(loraRoundOf_valid hround).inRoster_iff.mpr hroster, fun hmem => ?_⟩
          have ⟨id, r', p', hget, hheld, hp', hsame⟩ := mem_myRounds_iff.mp hmem
          exact hnew id r' hget hheld p' hp' hsame
    · rw [← Bool.not_eq_true, reserved_iff]
      exact h.not_reserved hun

/-! ## The choice -/

instance : Std.TransCmp assignmentOrder :=
  inferInstanceAs (Std.TransCmp (compareLex (compareOn fun r : JobRecord => r.spec.requires)
    (fun a b => compareOn (fun r : JobRecord => r.spec.id) b a)))

theorem assignmentOrder_isLE {a b : JobRecord} :
    (assignmentOrder a b).isLE = true ↔
      a.spec.requires < b.spec.requires ∨
        a.spec.requires = b.spec.requires ∧ b.spec.id ≤ a.spec.id := by
  unfold assignmentOrder
  rw [Ordering.isLE_then_iff_or, compare_lt_iff_lt, compare_eq_iff_eq,
    Ordering.isLE_iff_ne_gt]
  exact or_congr_right (and_congr_right fun _ => compare_le_iff_le)

/-- The job that is picked is the best of those the worker is eligible for, and none is
picked only if it is eligible for none. -/
theorem pick_cases (env : Env) (w : H160) (source : String) (claimed : Capability) (now : Nat)
    (hkeyed : s.WellKeyed) :
    (s.pick env w (sourceGroup source) claimed now = none ∧
        ∀ (id : JobId) r, s.jobs[id]? = some r → ¬ s.Eligible env w source now claimed r) ∨
      ∃ id r, s.pick env w (sourceGroup source) claimed now = some id ∧
        s.jobs[id]? = some r ∧ s.Eligible env w source now claimed r ∧
        s.Best env w source now claimed id r := by
  have hlisted : ∀ r, r ∈ (s.jobs.toList.map Prod.snd).filter
      (s.offered env w (sourceGroup source) (s.policy.effectiveCapability w claimed) now) ↔
        ∃ id : JobId, s.jobs[id]? = some r ∧ s.Eligible env w source now claimed r := by
    intro r
    rw [List.mem_filter, offered_iff, List.mem_map]
    constructor
    · rintro ⟨⟨⟨id, r'⟩, hmem, rfl⟩, heligible⟩
      exact ⟨id, mem_entries.mp hmem, heligible⟩
    · rintro ⟨id, hget, heligible⟩
      exact ⟨⟨(id, r), mem_entries.mpr hget, rfl⟩, heligible⟩
  unfold pick
  dsimp only
  cases hbest : maxBy assignmentOrder ((s.jobs.toList.map Prod.snd).filter
      (s.offered env w (sourceGroup source) (s.policy.effectiveCapability w claimed) now)) with
  | none =>
      refine .inl ⟨rfl, fun id r hget heligible => ?_⟩
      have hmem := (hlisted r).mpr ⟨id, hget, heligible⟩
      rw [maxBy_eq_none.mp hbest] at hmem
      cases hmem
  | some r =>
      have ⟨id, hget, heligible⟩ := (hlisted r).mp (maxBy_mem hbest)
      have hid := hkeyed id r hget
      refine .inr ⟨id, r, congrArg some hid, hget, heligible, ?_⟩
      intro id' r' hget' heligible'
      have hle := maxBy_ge hbest r' ((hlisted r').mpr ⟨id', hget', heligible'⟩)
      rw [assignmentOrder_isLE, hid, hkeyed id' r' hget'] at hle
      exact hle

/-- A poll changes nothing the sweep looks at. -/
theorem engage_swept (s : State) (w : H160) (now : Nat) (r : JobRecord) :
    (s.engage w now).swept now r = s.swept now r := by
  have hgroup : ∀ h, (s.engage w now).lapsedGroup h = s.lapsedGroup h := by
    intro h
    unfold lapsedGroup engage
    dsimp only
    rw [get_modify]
    by_cases hsame : w = h
    · rw [if_pos hsame]
      cases s.workers[h]? with
      | none => rfl
      | some record => rfl
    · rw [if_neg hsame]
  unfold swept
  cases r.status.lapsedHolder? now with
  | none => rfl
  | some h => exact congrArg (fun g => r.lapse h g now) (hgroup h)

theorem beforePick_job (s : State) (w : H160) (now : Nat) (id : JobId) :
    (s.beforePick w now).jobs[id]? = (s.expireLeases now).1.jobs[id]? := by
  unfold beforePick
  rw [expireLeases_job, expireLeases_job, engage_jobs]
  exact congrArg (fun f => (s.jobs[id]?).map f) (funext (engage_swept s w now))

/-! ## The request -/

/-- The request answers as specified. -/
theorem lease_answers (env : Env) (w : H160) (now : Nat) (hkeyed : s.WellKeyed) :
    LeaseAnswer env s w now (s.lease env w now) := by
  have hpolled : ((s.engage w now).expireLeases now).1 = s.beforePick w now := rfl
  unfold lease
  cases hknown : s.workers[w]? with
  | none => exact .unknown hknown
  | some record =>
      have hkeyed' : (s.beforePick w now).WellKeyed := hkeyed.beforePick w
      have ⟨hrefused, hallowed⟩ :=
        @leaseRefusal_spec (s.beforePick w now) w record.source now
      simp only [hpolled]
      cases hrefusal : (s.beforePick w now).leaseRefusal w (sourceGroup record.source) now with
      | some e => exact .refused hknown (hrefused e hrefusal)
      | none =>
          rcases pick_cases env w record.source record.capability now hkeyed' with
            ⟨hpick, hnone⟩ | ⟨id, r, hpick, hget, heligible, hbest⟩
          · simp only [hpick]
            exact .nothing hknown (hallowed hrefusal) hnone
          · have hgrant := LeaseAnswer.granted hknown (hallowed hrefusal) hget heligible hbest
            rw [← beforePick_policy w now] at hgrant
            simp only [hpick, hget]
            exact hgrant

/-- Two jobs of which each is the best are one. -/
theorem Best.unique {id id' : JobId} {r r' : JobRecord}
    (hget : s.jobs[id]? = some r) (hget' : s.jobs[id']? = some r')
    (heligible : s.Eligible env w source now claimed r)
    (heligible' : s.Eligible env w source now claimed r')
    (h : s.Best env w source now claimed id r) (h' : s.Best env w source now claimed id' r') :
    id = id' := by
  rcases h id' r' hget' heligible' with hlow | ⟨htier, hle⟩
  · rcases h' id r hget heligible with hlow' | ⟨htier', _⟩
    · exact absurd hlow (lt_asymm hlow')
    · exact absurd htier' hlow.ne'
  · rcases h' id r hget heligible with hlow' | ⟨_, hle'⟩
    · exact absurd htier hlow'.ne'
    · exact le_antisymm hle hle'

end State

/-- A request has one answer. -/
theorem LeaseAnswer.unique {env : Env} {s : State} {w : H160} {now : Nat}
    {out out' : State × Except LeaseError JobSpec} (h : LeaseAnswer env s w now out)
    (h' : LeaseAnswer env s w now out') : out = out' := by
  cases h with
  | unknown hknown =>
      cases h' with
      | unknown _ => rfl
      | refused hknown' _ => rw [hknown] at hknown'; cases hknown'
      | nothing hknown' _ _ => rw [hknown] at hknown'; cases hknown'
      | granted hknown' _ _ _ _ => rw [hknown] at hknown'; cases hknown'
  | refused hknown hfirst =>
      cases h' with
      | unknown hknown' => rw [hknown] at hknown'; cases hknown'
      | refused hknown' hfirst' =>
          rw [hknown] at hknown'
          cases hknown'
          rw [hfirst.unique hfirst']
      | nothing hknown' hallowed _ =>
          rw [hknown] at hknown'
          cases hknown'
          exact absurd hallowed hfirst.not_none
      | granted hknown' hallowed _ _ _ =>
          rw [hknown] at hknown'
          cases hknown'
          exact absurd hallowed hfirst.not_none
  | nothing hknown hallowed hnone =>
      cases h' with
      | unknown hknown' => rw [hknown] at hknown'; cases hknown'
      | refused hknown' hfirst =>
          rw [hknown] at hknown'
          cases hknown'
          exact absurd hallowed hfirst.not_none
      | nothing _ _ _ => rfl
      | granted hknown' _ hget heligible _ =>
          rw [hknown] at hknown'
          cases hknown'
          exact absurd heligible (hnone _ _ hget)
  | granted hknown hallowed hget heligible hbest =>
      cases h' with
      | unknown hknown' => rw [hknown] at hknown'; cases hknown'
      | refused hknown' hfirst =>
          rw [hknown] at hknown'
          cases hknown'
          exact absurd hallowed hfirst.not_none
      | nothing hknown' _ hnone =>
          rw [hknown] at hknown'
          cases hknown'
          exact absurd heligible (hnone _ _ hget)
      | granted hknown' _ hget' heligible' hbest' =>
          rw [hknown] at hknown'
          cases hknown'
          have hid := hbest.unique hget hget' heligible heligible' hbest'
          subst hid
          rw [hget] at hget'
          cases hget'
          rfl

/-- A request for a lease answers by the specification and by nothing else, in every
state whose jobs are stored under their own ids.  That is every state a run reaches.  All
jobs but the one it grants are as the sweep alone would leave them. -/
theorem lease_selection (env : Env) :
    (∀ policy events, ((machine env).run (World.init policy) events).state.WellKeyed) ∧
      ∀ (s : State) (w : H160) (now : Nat), s.WellKeyed →
        (∀ out, LeaseAnswer env s w now out ↔ s.lease env w now = out) ∧
        (s.workers[w]? ≠ none → ∀ id : JobId,
          (∀ spec, (s.lease env w now).2 = .ok spec → spec.id ≠ id) →
          (s.lease env w now).1.jobs[id]? = (s.expireLeases now).1.jobs[id]?) := by
  constructor
  · intro policy events
    have hrun : (machine env).Along (fun _ _ => True) (World.init policy) events :=
      Machine.along_iff_forall_prefix.mpr fun _ _ _ => trivial
    exact Machine.run_invariant (fun w : World => w.state.WellKeyed)
      (fun _ _ hinv _ => State.WellKeyed.apply hinv) (init_wellKeyed policy) hrun
  · intro s w now hkeyed
    have hanswer := State.lease_answers env w now hkeyed
    refine ⟨fun out => ⟨fun hout => hanswer.unique hout, fun hout => hout ▸ hanswer⟩, ?_⟩
    intro hregistered id hother
    generalize hlease : s.lease env w now = out at hanswer hother ⊢
    cases hanswer with
    | unknown hknown => exact absurd hknown hregistered
    | refused _ _ => exact s.beforePick_job w now id
    | nothing _ _ _ => exact s.beforePick_job w now id
    | @granted _ granted r _ _ hget _ _ =>
        have hid : r.spec.id = granted := hkeyed.beforePick w granted r hget
        have hne : granted ≠ id := hid ▸ hother r.spec rfl
        change ((s.beforePick w now).jobs.insert granted _)[id]? = _
        rw [get_insert, if_neg hne, s.beforePick_job w now id]

/-- Two jobs that differ in their ids only, and a worker that takes the smaller. -/
def twoOffers : State :=
  ((machine plainEnv).run (World.init Policy.default)
    [⟨.register (probeWorker 1) "a", 10⟩, ⟨.addJob (probeJob "b" 60), 20⟩,
      ⟨.addJob (probeJob "a" 60), 20⟩]).state

theorem lease_selection_two :
    (twoOffers.lease plainEnv (probeWorker 1).id 30).2.toOption.map JobSpec.id = some "a" ∧
      LeaseAnswer plainEnv twoOffers (probeWorker 1).id 30
        (twoOffers.lease plainEnv (probeWorker 1).id 30) := by
  refine ⟨by decide +kernel, ?_⟩
  have ⟨hkeyed, hselect⟩ := lease_selection plainEnv
  exact ((hselect twoOffers (probeWorker 1).id 30 (hkeyed Policy.default _)).1 _).mpr rfl

end Coordinator
end ComputePool
