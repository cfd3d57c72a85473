import ComputePool.Coordinator.LapseCharge

/-!
# The lease cap of a source group

The cap is checked when a lease is granted, against the leases on the books and
the registry of that moment.  A restart may bring a lapsed lease back to life;
if its holder was evicted in between, the lease is live and belongs to nobody
the registry knows.  Runs which evict no holder of a lease that can still be
extended keep the cap, restarts included.
-/

namespace ComputePool
namespace Coordinator

open RustStd LeaseLedger

/-- The live leases held by unvouched workers that registered from one source
group. -/
def World.liveFromGroup (world : World) (now : Nat) (group : String) : Nat :=
  world.state.jobs.toList.countP fun e =>
    match e.2.status.liveHolder? now with
    | some w =>
        decide (w ∉ world.state.policy.trustedH01) &&
          decide ((world.registeredFrom w).map sourceGroup = some group)
    | none => false

/-- The holder of every live lease is registered, and no source group holds
more live leases through unvouched workers than the policy allows. -/
structure CapHolds (world : World) (now : Nat) : Prop where
  registered : ∀ (id : JobId) (r : JobRecord) (w : H160) (x d : Nat),
    world.state.jobs[id]? = some r → r.status = .leased w x d → now < x →
      ∃ record, world.state.workers[w]? = some record
  within : ∀ group,
    world.liveFromGroup now group ≤ world.state.policy.maxLeasesPerSource

/-- The holders of leases that can still be extended past `now`. -/
def State.extendableHolders (s : State) (now : Nat) : List H160 :=
  s.jobs.toList.filterMap fun e =>
    match e.2.status with
    | .leased w x d => if now < hardDeadline x d then some w else none
    | _ => none

/-- The step evicts no worker that holds a lease which can still be extended.
(An evicted worker holds no live lease, so such a lease has lapsed.) -/
def NoExtendableEvicted (world : World) (e : Event) : Prop :=
  match e.op with
  | .register w source =>
      ∀ v ∈ world.state.evictions w source e.now,
        v ∉ world.state.extendableHolders e.now
  | _ => True

instance {world : World} {e : Event} : Decidable (NoExtendableEvicted world e) :=
  match h : e.op with
  | .register w source =>
      decidable_of_iff (∀ v ∈ world.state.evictions w source e.now,
        v ∉ world.state.extendableHolders e.now) (by simp [NoExtendableEvicted, h])
  | .addJob _ | .lease _ | .renew _ _ | .submit _ _ _ | .expireLeases
  | .revokeOutOfPolicy | .graceLiveLeases | .restart _ =>
      .isTrue (by simp [NoExtendableEvicted, h])

theorem mem_extendableHolders {s : State} {now : Nat} {w : H160} :
    w ∈ s.extendableHolders now ↔
      ∃ id lease, s.ledger.Held id lease ∧ now < lease.hard ∧ lease.holder = w := by
  simp only [State.extendableHolders, List.mem_filterMap]
  constructor
  · rintro ⟨⟨id, r⟩, hmem, hholder⟩
    cases hstatus : r.status with
    | leased w' x d =>
        simp only [hstatus] at hholder
        split at hholder
        · rename_i hlt
          obtain rfl := Option.some.inj hholder
          exact ⟨id, _, State.held_of_status (mem_entries.mp hmem) hstatus, hlt, rfl⟩
        · cases hholder
    | _ => simp [hstatus] at hholder
  · rintro ⟨id, lease, hheld, hlt, rfl⟩
    obtain ⟨r, d, hget, hstatus, hhard⟩ := State.held_iff.mp hheld
    rw [hhard] at hlt
    exact ⟨(id, r), mem_entries.mpr hget, by simp [hstatus, hlt]⟩

section Step

variable {env : Env} {policy : Policy} {world : World} {e : Event}

theorem capped_step (env : Env) (h : Accountable policy world) (hadm : AdmissibleUnder policy world e)
    (hevict : NoExtendableEvicted world e)
    (hcap : Capped policy.rules world.clock world.state.ledger) :
    Capped policy.rules e.now (world.state.apply env e).ledger := by
  have hnow := hcap.later hadm.1.1
  have hpath := State.apply_path env h.wellKeyed hadm.1.2
  rw [h.policy_eq] at hpath
  refine hpath.preserves_sparing ((e.now < ·))
    (fun job lease hgrant => acts_grant_not_evict hgrant)
    (fun _ _ _ hinv hspares hfires => hfires.capped hinv hspares) hnow ?_
  rintro action hacts v rfl job lease hheld hlt rfl
  obtain ⟨worker, source, hop, hv⟩ := acts_evict hacts
  unfold NoExtendableEvicted at hevict
  rw [hop] at hevict
  exact hevict _ hv (mem_extendableHolders.mpr ⟨job, lease, hheld, hlt, rfl⟩)

/-- On the ledger the cap speaks of the roster; the world remembers the same
sources. -/
theorem liveFromGroup_le {now : Nat} (h : Accountable policy world)
    (hcap : Capped policy.rules now world.state.ledger) (group : String) :
    world.liveFromGroup now group ≤ policy.maxLeasesPerSource := by
  let counted : JobId → JobRecord → Bool := fun _ r =>
    match r.status.liveHolder? now with
    | some w =>
        decide (w ∉ world.state.policy.trustedH01) &&
          decide ((world.registeredFrom w).map sourceGroup = some group)
    | none => false
  have hsub : (keysWhere world.state.jobs counted : Set JobId) ⊆
      world.state.ledger.groupJobs policy.rules now group := by
    intro id hid
    obtain ⟨r, hget, hcounted⟩ := mem_keysWhere.mp (Finset.mem_coe.mp hid)
    cases hstatus : r.status with
    | leased w x d =>
        simp only [counted, hstatus, JobStatus.liveHolder?] at hcounted
        split at hcounted
        · rename_i hlive
          have hlt : now < x := by
            by_contra hnot
            simp [hnot] at hlive
          simp only [hlt, if_true, Option.some.injEq] at hlive
          subst hlive
          rw [Bool.and_eq_true, decide_eq_true_eq, decide_eq_true_eq] at hcounted
          have hheld := State.held_of_status hget hstatus
          have hhard := lt_of_lt_of_le hlt (hcap.expires_le id _ hheld)
          obtain ⟨source, hsource⟩ := hcap.registered id _ hheld hhard
          refine ⟨_, hheld, hhard, ?_, source, hsource, ?_⟩
          · rw [h.policy_eq] at hcounted
            exact hcounted.1
          · rw [h.sourcesKnown w source hsource] at hcounted
            exact Option.some.inj hcounted.2
        · cases hcounted
    | _ => simp [counted, hstatus, JobStatus.liveHolder?] at hcounted
  have hcard : ((keysWhere world.state.jobs counted).card : ℕ∞) ≤ policy.maxLeasesPerSource := by
    rw [← Set.encard_coe_eq_coe_finsetCard]
    exact (Set.encard_le_encard hsub).trans (hcap.within group)
  calc world.liveFromGroup now group
      = (keysWhere world.state.jobs counted).card := countP_entries world.state.jobs counted
    _ ≤ policy.maxLeasesPerSource := Nat.cast_le.mp hcard

end Step

/-- **Source-group lease cap.**  Under a fixed policy and a clock that does not
go back, in every state of a run, restarts included, in which no registration
evicts the holder of a lease that can still be extended: the holder of every
live lease is registered, and no source group's unvouched workers hold more live
leases than the policy allows. -/
theorem source_cap_holds (env : Env) (policy : Policy) (events : List Event)
    (hrun : (machine env).Along (AdmissibleUnder policy) (World.init policy) events)
    (hevict : (machine env).Along NoExtendableEvicted (World.init policy) events) :
    ∀ front, front <+: events → ∀ now,
      ((machine env).run (World.init policy) front).clock ≤ now →
        CapHolds ((machine env).run (World.init policy) front) now := by
  intro front hpre now hnow
  have hinit : Capped policy.rules (World.init policy).clock (World.init policy).state.ledger := by
    have hnone := init_not_held policy
    refine ⟨fun _ _ hheld => absurd hheld (hnone _ _),
      fun _ _ hheld => absurd hheld (hnone _ _), fun group => ?_⟩
    have hempty : (World.init policy).state.ledger.groupJobs policy.rules
        (World.init policy).clock group = ∅ := by
      refine Set.eq_empty_of_forall_notMem ?_
      rintro id ⟨lease, hheld, -⟩
      exact hnone _ _ hheld
    rw [hempty, Set.encard_empty]
    exact zero_le
  obtain ⟨hacc, hcap⟩ := Machine.run_invariant
    (fun w : World => Accountable policy w ∧ Capped policy.rules w.clock w.state.ledger)
    (fun w e hinv hstep => ⟨hinv.1.step _ hstep.1,
      capped_step env hinv.1 hstep.1 hstep.2 hinv.2⟩)
    ⟨init_accountable policy, hinit⟩
    ((hrun.of_prefix hpre).and (hevict.of_prefix hpre))
  have hlater := hcap.later hnow
  constructor
  · intro id r w x d hget hstatus hlt
    have hheld := State.held_of_status hget hstatus
    obtain ⟨source, hsource⟩ := hlater.registered id _ hheld
      (lt_of_lt_of_le hlt (hlater.expires_le id _ hheld))
    obtain ⟨record, hknown, -⟩ := roster_iff.mp hsource
    exact ⟨record, hknown⟩
  · intro group
    rw [hacc.policy_eq]
    exact liveFromGroup_le hacc hlater group

/-- A lease, a lapse, and a restart in the middle of it. -/
def restartedRun : List Event :=
  [⟨.addJob (probeJob "j" 200000), 1⟩, ⟨.register (probeWorker 1) "s", 1⟩,
    ⟨.lease (probeWorker 1).id, 1⟩, ⟨.restart onePerSource, 1000⟩]

theorem restartedRun_cap_holds :
    CapHolds ((machine plainEnv).run (World.init onePerSource) restartedRun) 1000 :=
  source_cap_holds plainEnv onePerSource restartedRun (by decide) (by decide)
    restartedRun List.prefix_rfl 1000 (by decide)

/-- The holder of a lapsed lease is evicted, and the restart after it revives
the lease. -/
def revivedRun : List Event :=
  [⟨.addJob (probeJob "j" 200000), 1⟩, ⟨.register (probeWorker 1) "s", 1⟩,
    ⟨.lease (probeWorker 1).id, 1⟩, ⟨.register (probeWorker 2) "s", 86401⟩,
    ⟨.restart onePerSource, 86401⟩]

/-- The lease is live again, and its holder is not registered. -/
theorem revivedRun_holder_unregistered :
    (machine plainEnv).Along (AdmissibleUnder onePerSource) (World.init onePerSource)
        revivedRun ∧
      (let world := (machine plainEnv).run (World.init onePerSource) revivedRun
      (world.state.jobs["j"]?).map JobRecord.status =
          some (.leased (probeWorker 1).id 87301 200001) ∧
        world.state.workers[(probeWorker 1).id]? = none ∧
        ¬ CapHolds world 86401) := by
  have hgone : (((machine plainEnv).run (World.init onePerSource)
      revivedRun).state.workers[(probeWorker 1).id]?) = none := by decide
  have hlease : (((machine plainEnv).run (World.init onePerSource)
      revivedRun).state.jobs["j"]?).map JobRecord.status =
        some (.leased (probeWorker 1).id 87301 200001) := by decide
  refine ⟨by decide, hlease, hgone, fun h => ?_⟩
  obtain ⟨r, hget, hstatus⟩ := Option.map_eq_some_iff.mp hlease
  obtain ⟨record, hrecord⟩ := h.registered "j" r _ _ _ hget hstatus (by decide)
  rw [hgone] at hrecord
  cases hrecord

end Coordinator
end ComputePool
