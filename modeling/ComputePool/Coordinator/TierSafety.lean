import ComputePool.Coordinator.Run

/-!
# Tiers and the operator's policy

What a worker may hold is set by the policy the coordinator is opened with.
Opening revokes every stored lease the policy does not allow; after that no
operation but a lease request gives out a lease, and a lease request gives out
only jobs within what the policy grants the worker for the capability it
claims at that moment.  The tier of a held job is therefore always one the
policy allows its holder, whatever the worker claims later.
-/

namespace ComputePool
namespace Coordinator

open RustStd

namespace Policy

variable {p : Policy} {w : H160}

theorem le_h01 (c : Capability) : c ≤ .h01 := by
  cases c <;> decide

/-- The policy grants no claim more than it grants the highest one. -/
theorem effectiveCapability_le (claimed : Capability) :
    p.effectiveCapability w claimed ≤ p.effectiveCapability w .h01 := by
  unfold effectiveCapability
  split
  · exact le_h01 claimed
  · exact min_le_min_right _ (min_le_min_right _ (le_h01 claimed))

/-- Below the top tier ends what an unvouched worker is granted, whatever the
open tier. -/
theorem effectiveCapability_of_unvouched (h : w ∉ p.trustedH01) (claimed : Capability) :
    p.effectiveCapability w claimed ≤ .federated := by
  rw [effectiveCapability, isTrusted, decide_eq_false h]
  exact min_le_right _ _

theorem tierAllowed_iff {requires : Capability} :
    p.tierAllowed w requires = true ↔ requires ≤ p.effectiveCapability w .h01 :=
  decide_eq_true_iff

theorem not_h01_of_unvouched {requires : Capability} (h : w ∉ p.trustedH01)
    (hallowed : p.tierAllowed w requires = true) : requires ≠ .h01 := by
  rintro rfl
  have hle := (tierAllowed_iff.mp hallowed).trans (effectiveCapability_of_unvouched h .h01)
  exact absurd hle (by decide)

end Policy

namespace State

variable {s s' s'' : State} {now : Nat} {env : Env}

/-- Every job held in `s'` was held in `s` by the same worker, with the
specification it has now. -/
def LeasesFrom (s s' : State) : Prop :=
  ∀ (id : JobId) (r' : JobRecord) (w : H160), s'.jobs[id]? = some r' →
    r'.status.holder? = some w →
      ∃ r, s.jobs[id]? = some r ∧ r.spec = r'.spec ∧ r.status.holder? = some w

namespace LeasesFrom

theorem refl (s : State) : LeasesFrom s s :=
  fun _ r' _ hget hholder => ⟨r', hget, rfl, hholder⟩

theorem trans (h : LeasesFrom s s') (h' : LeasesFrom s' s'') : LeasesFrom s s'' := by
  intro id r'' w hget hholder
  obtain ⟨r', hget', hspec', hholder'⟩ := h' id r'' w hget hholder
  obtain ⟨r, hr, hspec, hheld⟩ := h id r' w hget' hholder'
  exact ⟨r, hr, hspec.trans hspec', hheld⟩

theorem of_jobs_eq (h : s'.jobs = s.jobs) : LeasesFrom s s' := by
  intro id r' w hget hholder
  rw [h] at hget
  exact ⟨r', hget, rfl, hholder⟩

/-- What changes records in place, and names no new holder, gives out no
lease. -/
theorem of_map {f : JobId → JobRecord → JobRecord}
    (hjobs : ∀ id : JobId, s'.jobs[id]? = (s.jobs[id]?).map (f id))
    (hspec : ∀ id r, (f id r).spec = r.spec)
    (hholder : ∀ id r w, (f id r).status.holder? = some w → r.status.holder? = some w) :
    LeasesFrom s s' := by
  intro id r' w hget hheld
  rw [hjobs, Option.map_eq_some_iff] at hget
  obtain ⟨r, hr, rfl⟩ := hget
  exact ⟨r, hr, (hspec id r).symm, hholder id r w hheld⟩

/-- The same for a change of one record. -/
theorem of_modify {job : JobId} {f : JobRecord → JobRecord}
    (hjobs : s'.jobs = s.jobs.modify job f) (hspec : ∀ r, (f r).spec = r.spec)
    (hholder : ∀ r w, s.jobs[job]? = some r → (f r).status.holder? = some w →
      r.status.holder? = some w) : LeasesFrom s s' := by
  intro id r' w hget hheld
  rw [hjobs, get_modify] at hget
  split at hget
  · rename_i hid
    subst hid
    obtain ⟨r, hr, rfl⟩ := Option.map_eq_some_iff.mp hget
    exact ⟨r, hr, (hspec r).symm, hholder r w hr hheld⟩
  · exact ⟨r', hget, rfl, hheld⟩

end LeasesFrom

/-! ## No operation but a grant gives out a lease -/

theorem leasesFrom_revokeLease (job : JobId) : LeasesFrom s (s.revokeLease job) := by
  refine LeasesFrom.of_map
    (f := fun id r => if job = id then { r with status := .pending } else r)
    (fun id => ?_) (fun id r => ?_) fun id r w hheld => ?_
  · rw [revokeLease_job]
    split <;> simp
  · split <;> rfl
  · split at hheld
    · cases hheld
    · exact hheld

theorem leasesFrom_expireLeases : LeasesFrom s (s.expireLeases now).1 := by
  refine LeasesFrom.of_map (fun id => s.expireLeases_job now id) (fun _ r => swept_spec r)
    fun _ r w hheld => ?_
  unfold swept at hheld
  split at hheld
  · cases hheld
  · exact hheld

theorem leasesFrom_beforePick (w : H160) : LeasesFrom s (s.beforePick w now) :=
  leasesFrom_expireLeases (s := s.engage w now)

theorem leasesFrom_revokeOutOfPolicy : LeasesFrom s s.revokeOutOfPolicy.1 := by
  have hfold : ∀ (ids : List JobId) (s : State), LeasesFrom s (ids.foldl revokeLease s) := by
    intro ids
    induction ids with
    | nil => exact LeasesFrom.refl
    | cons id rest ih => exact fun s => (leasesFrom_revokeLease id).trans (ih _)
  exact hfold s.outOfPolicy s

theorem leasesFrom_graceLiveLeases : LeasesFrom s (s.graceLiveLeases now) := by
  refine LeasesFrom.of_map (fun id => graceLiveLeases_job id) (fun _ _ => rfl)
    fun _ r w hheld => ?_
  cases hstatus : r.status with
  | leased holder e d =>
      replace hheld : (r.status.grace s.policy.leaseWindowSecs now).holder? = some w := hheld
      rw [hstatus] at hheld
      obtain hsame | ⟨e', -, -, -, hgrace⟩ := grace_leased now s.policy.leaseWindowSecs holder e d
      · rw [hsame] at hheld
        exact hheld
      · rw [hgrace] at hheld
        exact hheld
  | _ => simp [hstatus, JobStatus.grace, JobStatus.holder?] at hheld

theorem leasesFrom_takeDirty : LeasesFrom s s.takeDirty.1 := by
  unfold takeDirty
  split
  · refine LeasesFrom.of_map (fun id => get_map) (fun id r => ?_) fun id r w hheld => ?_
    · split <;> rfl
    · split at hheld
      · exact hheld
      · exact hheld
  · exact LeasesFrom.refl s

/-- Opening a stored state gives out no lease. -/
theorem leasesFrom_openWith (policy : Policy) : LeasesFrom s (s.openWith policy now) := by
  have hrevoked : LeasesFrom s ({ s with policy := policy } : State).revokeOutOfPolicy.1 :=
    leasesFrom_revokeOutOfPolicy (s := { s with policy := policy })
  exact (hrevoked.trans leasesFrom_graceLiveLeases).trans leasesFrom_takeDirty

theorem leasesFrom_reload : LeasesFrom s s.reload :=
  LeasesFrom.of_map (fun _ => get_map) (fun _ _ => rfl) fun _ _ _ hheld => hheld

theorem leasesFrom_renew (w : H160) (job : JobId) : LeasesFrom s (s.renew w job now).1 := by
  obtain hsame | ⟨r, e, d, hget, hstatus, -, ⟨-, hrevoked⟩ | ⟨dirty, hextended⟩⟩ :=
    renew_cases (s := s) w job now
  · exact hsame.symm ▸ LeasesFrom.refl s
  · exact hrevoked.symm ▸ leasesFrom_revokeLease job
  · rw [hextended]
    refine LeasesFrom.of_modify rfl (fun _ => rfl) fun r' w' hget' hheld => ?_
    obtain rfl : r = r' := Option.some.inj (hget.symm.trans hget')
    rw [hstatus]
    exact hheld

theorem leasesFrom_submit (w : H160) (job : JobId) (result : String) :
    LeasesFrom s (s.submit w job result now).1 := by
  obtain hsame | ⟨r, e, d, -, -, -, ⟨-, hrevoked⟩ | ⟨-, hdone⟩⟩ :=
    submit_cases (s := s) w job result now
  · exact hsame.symm ▸ LeasesFrom.refl s
  · exact hrevoked.symm ▸ leasesFrom_revokeLease job
  · rw [hdone]
    refine LeasesFrom.of_modify rfl (fun _ => rfl) fun r' w' _ hheld => ?_
    cases hheld

theorem leasesFrom_addJob (spec : JobSpec) : LeasesFrom s (s.addJob spec) := by
  intro id r' w hget hheld
  rw [addJob, get_insert] at hget
  split at hget
  · obtain rfl := Option.some.inj hget
    cases hheld
  · exact ⟨r', hget, rfl, hheld⟩

/-! ## What a lease request gives out -/

/-- The job that is picked is one the worker is able to do. -/
theorem pick_tier {w : H160} {group : String} {claimed : Capability} {id : JobId}
    {r : JobRecord} (hkeyed : s.WellKeyed) (h : s.pick env w group claimed now = some id)
    (hget : s.jobs[id]? = some r) :
    r.spec.requires ≤ s.policy.effectiveCapability w claimed := by
  obtain ⟨best, hbest, rfl⟩ := Option.map_eq_some_iff.mp h
  have hmem := maxBy_mem hbest
  simp only [List.mem_filter, List.mem_map, Prod.exists, exists_eq_right] at hmem
  obtain ⟨⟨k, hk⟩, hoffered⟩ := hmem
  have hstored := mem_entries.mp hk
  rw [hkeyed k best hstored, hstored] at hget
  obtain rfl := Option.some.inj hget
  simp only [offered, Bool.and_eq_true] at hoffered
  exact of_decide_eq_true hoffered.1.1.1.1.2

/-- A lease request is refused, and gives out nothing, or it is answered with a
job that `w` holds from then on. -/
theorem lease_answer (env : Env) (w : H160) (now : Nat) (hkeyed : s.WellKeyed) :
    ((∃ e, (s.lease env w now).2 = .error e) ∧ LeasesFrom s (s.lease env w now).1) ∨
      ∃ rec_ id r, s.workers[w]? = some rec_ ∧ (s.beforePick w now).jobs[id]? = some r ∧
        r.spec.id = id ∧ r.spec.requires ≤ s.policy.effectiveCapability w rec_.capability ∧
        (s.lease env w now).2 = .ok r.spec ∧
        (s.lease env w now).1.jobs = (s.beforePick w now).jobs.insert id
          (r.grant w (s.beforePick w now).policy.leaseWindowSecs now) := by
  unfold lease
  cases hknown : s.workers[w]? with
  | none => exact .inl ⟨⟨_, rfl⟩, LeasesFrom.refl s⟩
  | some rec_ =>
      have hpolled := @leasesFrom_beforePick s now w
      have hkeyed' := @WellKeyed.beforePick s now hkeyed w
      have hpolicy := beforePick_policy (s := s) w now
      dsimp only
      split
      · exact .inl ⟨⟨_, rfl⟩, hpolled⟩
      · split
        · exact .inl ⟨⟨_, rfl⟩, hpolled⟩
        · rename_i id hpick
          split
          · exact .inl ⟨⟨_, rfl⟩, hpolled⟩
          · rename_i r hget
            refine .inr ⟨rec_, id, r, rfl, hget, hkeyed' id r hget, ?_, rfl, rfl⟩
            rw [← hpolicy]
            exact pick_tier hkeyed' hpick hget

end State

/-- The operation is a lease request of `w`, answered with a job whose tier does
not exceed the effective capability of `w` at that moment. -/
structure Granted (env : Env) (s : State) (e : Event) (w : H160) (spec : JobSpec) : Prop where
  asked : e.op = .lease w
  answer : (s.lease env w e.now).2 = .ok spec
  tier : ∃ rec_, s.workers[w]? = some rec_ ∧
    spec.requires ≤ s.policy.effectiveCapability w rec_.capability

namespace State

variable {s : State} {env : Env} {e : Event}

/-- A lease that is there after an operation was there before it, or the
operation granted it. -/
theorem apply_leases (hkeyed : s.WellKeyed) {id : JobId} {r' : JobRecord} {w : H160}
    (hget : (s.apply env e).jobs[id]? = some r') (hheld : r'.status.holder? = some w) :
    (∃ r, s.jobs[id]? = some r ∧ r.spec = r'.spec ∧ r.status.holder? = some w) ∨
      Granted env s e w r'.spec := by
  obtain ⟨op, now⟩ := e
  cases op with
  | addJob spec => exact .inl (leasesFrom_addJob spec id r' w hget hheld)
  | register worker source =>
      exact .inl (LeasesFrom.of_jobs_eq register_jobs id r' w hget hheld)
  | lease worker =>
      obtain ⟨-, hfrom⟩ | ⟨rec_, job, r, hknown, hr, hid, htier, hanswer, hjobs⟩ :=
        lease_answer env worker now hkeyed
      · exact .inl (hfrom id r' w hget hheld)
      · replace hget : (s.lease env worker now).1.jobs[id]? = some r' := hget
        rw [hjobs, get_insert] at hget
        split at hget
        · obtain rfl := Option.some.inj hget
          obtain rfl := Option.some.inj hheld
          exact .inr ⟨rfl, hanswer, rec_, hknown, htier⟩
        · exact .inl (leasesFrom_beforePick worker id r' w hget hheld)
  | renew worker job => exact .inl (leasesFrom_renew worker job id r' w hget hheld)
  | submit worker job result =>
      exact .inl (leasesFrom_submit worker job result id r' w hget hheld)
  | expireLeases => exact .inl (leasesFrom_expireLeases id r' w hget hheld)
  | revokeOutOfPolicy => exact .inl (leasesFrom_revokeOutOfPolicy id r' w hget hheld)
  | graceLiveLeases => exact .inl (leasesFrom_graceLiveLeases id r' w hget hheld)
  | restart policy =>
      exact .inl ((leasesFrom_reload.trans (leasesFrom_openWith policy)) id r' w hget hheld)

/-- Every job that is leased has a tier the policy allows its holder. -/
def InPolicy (s : State) : Prop :=
  ∀ (id : JobId) (r : JobRecord) (w : H160), s.jobs[id]? = some r →
    r.status.holder? = some w → s.policy.tierAllowed w r.spec.requires = true

theorem InPolicy.of_leasesFrom {s' : State} (h : s.InPolicy) (hfrom : LeasesFrom s s')
    (hpolicy : s'.policy = s.policy) : s'.InPolicy := by
  intro id r' w hget hheld
  obtain ⟨r, hr, hspec, hholder⟩ := hfrom id r' w hget hheld
  rw [hpolicy, ← hspec]
  exact h id r w hr hholder

/-- Revoking what is out of policy leaves what is in policy. -/
theorem inPolicy_revokeOutOfPolicy : s.revokeOutOfPolicy.1.InPolicy := by
  intro id r' w hget hheld
  have hpolicy : s.revokeOutOfPolicy.1.policy = s.policy :=
    (foldl_revokeLease_frame s.outOfPolicy).2
  replace hget : (s.outOfPolicy.foldl revokeLease s).jobs[id]? = some r' := hget
  rw [foldl_revokeLease_job] at hget
  rw [hpolicy]
  split at hget
  · -- A revoked job is pending, so nobody holds it.
    obtain ⟨r, -, rfl⟩ := Option.map_eq_some_iff.mp hget
    cases hheld
  · rename_i hkept
    by_contra hforbidden
    cases hstatus : r'.status with
    | leased holder e d =>
        rw [hstatus] at hheld
        obtain rfl := Option.some.inj hheld
        exact hkept (mem_outOfPolicy.mpr
          ⟨r', holder, e, d, hget, hstatus, Bool.eq_false_iff.mpr hforbidden⟩)
    | _ =>
        rw [hstatus] at hheld
        cases hheld

/-- Whatever was stored, what is opened is in policy. -/
theorem inPolicy_openWith (stored : State) (policy : Policy) (now : Nat) :
    (stored.openWith policy now).InPolicy := by
  have hrevoked := inPolicy_revokeOutOfPolicy (s := { stored with policy := policy })
  have hgraced := hrevoked.of_leasesFrom (@leasesFrom_graceLiveLeases _ now) rfl
  exact hgraced.of_leasesFrom leasesFrom_takeDirty takeDirty_policy

theorem openWith_policy (stored : State) (policy : Policy) (now : Nat) :
    (stored.openWith policy now).policy = policy := by
  have hrevoke : ({ stored with policy := policy } : State).revokeOutOfPolicy.1.policy = policy :=
    (foldl_revokeLease_frame _).2
  exact takeDirty_policy.trans hrevoke

theorem WellKeyed.openWith {stored : State} (h : stored.WellKeyed) (policy : Policy)
    (now : Nat) : (stored.openWith policy now).WellKeyed := by
  have hopened : ({ stored with policy := policy } : State).WellKeyed := h
  exact (hopened.revokeOutOfPolicy.graceLiveLeases now).takeDirty

/-- An operation under the policy keeps every lease in policy. -/
theorem InPolicy.apply (h : s.InPolicy) (hkeyed : s.WellKeyed)
    (hpolicy : e.op.KeepsPolicy s.policy) : (s.apply env e).InPolicy := by
  intro id r' w hget hheld
  rw [apply_policy rfl hpolicy]
  obtain ⟨r, hr, hspec, hholder⟩ | hgranted := apply_leases hkeyed hget hheld
  · rw [← hspec]
    exact h id r w hr hholder
  · obtain ⟨rec_, -, htier⟩ := hgranted.tier
    exact Policy.tierAllowed_iff.mpr (htier.trans (Policy.effectiveCapability_le _))

end State

/-- The coordinator as it is after `open_with`. -/
def World.opened (stored : State) (policy : Policy) (now : Nat) : World where
  state := stored.openWith policy now
  clock := now
  registeredFrom _ := none

/-- A run under the policy the coordinator was opened with: no step reopens it
under another one. -/
def UnderPolicy (policy : Policy) (_ : World) (e : Event) : Prop := e.op.KeepsPolicy policy

instance {policy : Policy} {world : World} {e : Event} : Decidable (UnderPolicy policy world e) :=
  inferInstanceAs (Decidable (e.op.KeepsPolicy policy))

/-- Whatever the coordinator has saved, in a run under any policies, keeps every
job under its own id: a job is only ever added under it. -/
theorem saved_wellKeyed (env : Env) (policy : Policy) (events : List Event) :
    ((machine env).run (World.init policy) events).state.reload.WellKeyed := by
  have hrun : (machine env).Along (fun _ _ => True) (World.init policy) events :=
    Machine.along_iff_forall_prefix.mpr fun _ _ _ => trivial
  have hkeyed := Machine.run_invariant (fun w : World => w.state.WellKeyed)
    (fun _ _ hinv _ => State.WellKeyed.apply hinv) (init_wellKeyed policy) hrun
  exact hkeyed.of_map (fun _ => get_map) fun _ _ => rfl

/-- What every run after `open_with` keeps. -/
theorem opened_run {env : Env} {stored : State} {policy : Policy} {now : Nat}
    {events : List Event} (hsaved : stored.WellKeyed)
    (hrun : (machine env).Along (UnderPolicy policy) (World.opened stored policy now) events) :
    let world := (machine env).run (World.opened stored policy now) events
    world.state.WellKeyed ∧ world.state.policy = policy ∧ world.state.InPolicy := by
  refine Machine.run_invariant
    (fun w : World => w.state.WellKeyed ∧ w.state.policy = policy ∧ w.state.InPolicy)
    (fun w e hinv hunder => ?_)
    ⟨hsaved.openWith policy now, State.openWith_policy stored policy now,
      State.inPolicy_openWith stored policy now⟩ hrun
  obtain ⟨hkeyed, rfl, hin⟩ := hinv
  exact ⟨hkeyed.apply, State.apply_policy rfl hunder, hin.apply hkeyed hunder⟩

/-- **Tier safety across policy changes.**  Take any stored state whose jobs are
under their own ids, as every state the coordinator saves is, and open it under
any policy.  After every run under that policy: a leased job has a tier the
policy allows its holder; an unvouched worker holds no job of the top tier,
whatever tier is open; and a lease is given out only in answer to its holder's
request, the job's tier being within the holder's effective capability at that
moment. -/
theorem tiers_within_policy (env : Env) (stored : State) (policy : Policy) (now : Nat)
    (events : List Event) (hsaved : stored.WellKeyed)
    (hrun : (machine env).Along (UnderPolicy policy) (World.opened stored policy now) events) :
    let world := (machine env).run (World.opened stored policy now) events
    (∀ (id : JobId) (r : JobRecord) (w : H160) (x d : Nat),
      world.state.jobs[id]? = some r → r.status = .leased w x d →
        policy.tierAllowed w r.spec.requires = true ∧
        (w ∉ policy.trustedH01 → r.spec.requires ≠ .h01)) ∧
    (∀ (w : H160) (at_ : Nat) (spec : JobSpec), (world.state.lease env w at_).2 = .ok spec →
      ∃ rec_ r, world.state.workers[w]? = some rec_ ∧
        spec.requires ≤ policy.effectiveCapability w rec_.capability ∧
        (world.state.lease env w at_).1.jobs[spec.id]? = some r ∧ r.spec = spec ∧
        r.status.holder? = some w) ∧
    (∀ e : Event, e.op.KeepsPolicy policy →
      ∀ (id : JobId) (r' : JobRecord) (w : H160) (x d : Nat),
        ((machine env).step world e).state.jobs[id]? = some r' → r'.status = .leased w x d →
        (∃ r, world.state.jobs[id]? = some r ∧ r.spec = r'.spec ∧ r.status.holder? = some w) ∨
        Granted env world.state e w r'.spec) := by
  intro world
  obtain ⟨hkeyed, hpolicy, hin⟩ := opened_run hsaved hrun
  refine ⟨?_, ?_, ?_⟩
  · intro id r w x d hget hstatus
    have hallowed := hin id r w hget (by rw [hstatus]; rfl)
    rw [hpolicy] at hallowed
    exact ⟨hallowed, fun hunvouched => Policy.not_h01_of_unvouched hunvouched hallowed⟩
  · intro w at_ spec hspec
    obtain ⟨⟨e, hrefused⟩, -⟩ | ⟨rec_, id, r, hknown, -, hid, htier, hanswer, hjobs⟩ :=
      State.lease_answer env w at_ hkeyed
    · rw [hrefused] at hspec
      cases hspec
    · rw [hanswer] at hspec
      obtain rfl := Except.ok.inj hspec
      refine ⟨rec_, r.grant w (world.state.beforePick w at_).policy.leaseWindowSecs at_,
        hknown, hpolicy ▸ htier, ?_, rfl, rfl⟩
      rw [hjobs, get_insert, if_pos hid.symm]
  · intro e _ id r' w x d hget hstatus
    exact State.apply_leases hkeyed hget (by rw [hstatus]; rfl)

/-- A probe job leased out under the default policy. -/
def leasedRun : List Event :=
  [⟨.addJob (probeJob "j" 3600), 5⟩, ⟨.register (probeWorker 1) "s", 5⟩,
    ⟨.lease (probeWorker 1).id, 6⟩]

/-- The policy under which it is reopened: the federated tier is open. -/
def openedPolicy : Policy := { Policy.default with openTier := .federated }

theorem leasedRun_within_policy :
    ∃ r, ((machine plainEnv).run (World.opened
        ((machine plainEnv).run (World.init Policy.default) leasedRun).state.reload
        openedPolicy 10) [⟨.renew (probeWorker 1).id "j", 11⟩]).state.jobs["j"]? = some r ∧
      r.status = .leased (probeWorker 1).id 911 3606 ∧
      openedPolicy.tierAllowed (probeWorker 1).id r.spec.requires = true := by
  have hleased : (((machine plainEnv).run (World.opened
      ((machine plainEnv).run (World.init Policy.default) leasedRun).state.reload
      openedPolicy 10) [⟨.renew (probeWorker 1).id "j", 11⟩]).state.jobs["j"]?).map
        JobRecord.status = some (.leased (probeWorker 1).id 911 3606) := by decide
  obtain ⟨r, hget, hstatus⟩ := Option.map_eq_some_iff.mp hleased
  have hsafe := tiers_within_policy plainEnv _ openedPolicy 10
    [⟨.renew (probeWorker 1).id "j", 11⟩] (saved_wellKeyed plainEnv Policy.default leasedRun)
    (by decide)
  exact ⟨r, hget, hstatus, (hsafe.1 "j" r _ _ _ hget hstatus).1⟩

end Coordinator
end ComputePool
