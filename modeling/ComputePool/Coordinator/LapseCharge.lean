import ComputePool.Coordinator.Exclusive

/-!
# Who is charged for a lapsed lease

A sweep charges the holder's registry record and, through it, the source group.
A holder whose record is gone by then is charged nothing.  Eviction protects
only the holders of leases that are live when it happens, so a worker whose
lease has lapsed but has not been swept yet can be evicted; this is the only
way a lapse goes uncharged.
-/

namespace ComputePool
namespace Coordinator

open RustStd LeaseLedger

/-- The recorded no-shows of a source group. -/
def State.groupNoshows (s : State) (group : String) : Nat :=
  (s.sources[group]?).elim 0 SourceRecord.noshows

/-- One more no-show on a saturating counter. -/
def oneMore (n : Nat) : Nat := satAdd32 n 1

/-- The source groups a sweep at `now` owes a charge, in the order of the jobs:
for every lapsed lease of an unvouched holder, the group of the source the
holder registered from. -/
def World.owedCharges (world : World) (now : Nat) : List String :=
  world.state.jobs.toList.filterMap fun e =>
    (e.2.status.lapsedHolder? now).bind fun w =>
      if w ∈ world.state.policy.trustedH01 then none
      else (world.registeredFrom w).map sourceGroup

/-- The holder's no-show history gains one: in its worker record if it is
registered, otherwise in its entry of the penalties table. -/
def HolderCharged (s s' : State) (w : H160) : Prop :=
  match s.workers[w]? with
  | some before => ∃ after, s'.workers[w]? = some after ∧ after.noshows = oneMore before.noshows
  | none => ∃ after, s'.penalties[w]? = some after ∧
      after.noshows = oneMore ((s.penalties[w]?).elim 0 Penalty.noshows)

/-- Every lease that a sweep at `now` takes back is charged. -/
structure LapsesCharged (world : World) (now : Nat) : Prop where
  /-- The holder's history gains one no-show, the job's `failed_by` contains the
  holder and, if the holder is unvouched, `failed_by_sources` contains the group
  it registered from. -/
  charged : ∀ (id : JobId) (r : JobRecord) (w : H160) (x d : Nat),
    id ∈ (world.state.expireLeases now).2 → world.state.jobs[id]? = some r →
    r.status = .leased w x d →
    HolderCharged world.state (world.state.expireLeases now).1 w ∧
      ∃ r', (world.state.expireLeases now).1.jobs[id]? = some r' ∧ r'.status = .pending ∧
        w ∈ r'.failedBy ∧
        (w ∉ world.state.policy.trustedH01 →
          ∃ source, world.registeredFrom w = some source ∧
            sourceGroup source ∈ r'.failedBySources)
  /-- The groups the sweep charges are those owed, each once for each job. -/
  groups : (world.state.sweepJobs now).lapsedGroups = world.owedCharges now
  /-- While the source table has room, each charge is one no-show more. -/
  counted : world.state.sources.size + (world.owedCharges now).length ≤ MAX_SOURCES →
    ∀ group, (world.state.expireLeases now).1.groupNoshows group =
      oneMore^[(world.owedCharges now).count group] (world.state.groupNoshows group)

/-- The step evicts no worker that is the recorded holder of a lease.  (An
evicted worker holds no live lease, so such a lease has lapsed.) -/
def NoHolderEvicted (world : World) (e : Event) : Prop :=
  match e.op with
  | .register w source =>
      ∀ v ∈ world.state.evictions w source e.now, world.state.heldBy v = 0
  | _ => True

instance {world : World} {e : Event} : Decidable (NoHolderEvicted world e) :=
  match h : e.op with
  | .register w source =>
      decidable_of_iff (∀ v ∈ world.state.evictions w source e.now, world.state.heldBy v = 0)
        (by simp [NoHolderEvicted, h])
  | .addJob _ | .lease _ | .renew _ _ | .submit _ _ _ | .expireLeases
  | .revokeOutOfPolicy | .graceLiveLeases | .restart _ =>
      .isTrue (by simp [NoHolderEvicted, h])

namespace State

variable {s : State} {now : Nat}

theorem chargeSource_size (group : String) (now : Nat) :
    (s.chargeSource group now).sources.size ≤ s.sources.size + 1 := by
  have hle : ∀ (m : BTreeMap String SourceRecord) (k : String) (v : SourceRecord),
      (m.insert k v).size ≤ m.size + 1 := fun m k v => Std.ExtTreeMap.size_insert_le
  simp only [chargeSource]
  split
  · split
    · refine (hle _ _ _).trans (Nat.add_le_add_right ?_ 1)
      exact Std.ExtTreeMap.size_erase_le
    · exact hle _ _ _
  · exact hle _ _ _

/-- With room in the table, a charge is one no-show more for its group and
nothing for another. -/
theorem chargeSource_noshows {group : String} (hroom : s.sources.size < MAX_SOURCES)
    (other : String) :
    (s.chargeSource group now).groupNoshows other =
      if group = other then oneMore (s.groupNoshows other) else s.groupNoshows other := by
  have hkeep : ¬ (group ∉ s.sources ∧ s.sources.size ≥ MAX_SOURCES) := by omega
  simp only [chargeSource, if_neg hkeep, groupNoshows, get_insert]
  split
  · rename_i h
    subst h
    cases s.sources[group]? <;> rfl
  · rfl

theorem foldl_chargeSource_noshows (now : Nat) {groups : List String}
    (hroom : s.sources.size + groups.length ≤ MAX_SOURCES) (group : String) :
    (groups.foldl (fun s g => s.chargeSource g now) s).groupNoshows group =
      oneMore^[groups.count group] (s.groupNoshows group) := by
  induction groups generalizing s with
  | nil => rfl
  | cons g rest ih =>
      rw [List.length_cons] at hroom
      have hsize := chargeSource_size (s := s) g now
      rw [List.foldl_cons, ih (by omega), chargeSource_noshows (by omega), List.count_cons]
      by_cases h : g = group
      · simp [h, Function.iterate_succ]
      · simp [h]

/-- A holder of one lapsed lease is charged by the sweep once. -/
theorem lapsesOf_eq_one (hexclusive : Exclusive s.ledger) {id : JobId} {r : JobRecord}
    {w : H160} {x d : Nat} (hget : s.jobs[id]? = some r) (hstatus : r.status = .leased w x d)
    (hle : x ≤ now) : s.lapsesOf now w = 1 := by
  have hkeys : keysWhere s.jobs (fun _ r => decide (r.status.lapsedHolder? now = some w)) =
      {id} := by
    ext id'
    rw [mem_keysWhere, Finset.mem_singleton]
    constructor
    · rintro ⟨r', hget', hlapsed⟩
      obtain ⟨x', d', hstatus', -⟩ :=
        JobStatus.lapsedHolder?_eq_some.mp (of_decide_eq_true hlapsed)
      exact hexclusive id' id _ _ (held_of_status hget' hstatus')
        (held_of_status hget hstatus) rfl
    · rintro rfl
      exact ⟨r, hget, decide_eq_true (JobStatus.lapsedHolder?_eq_some.mpr ⟨x, d, hstatus, hle⟩)⟩
  have hcount := countP_entries s.jobs fun _ r =>
    decide (r.status.lapsedHolder? now = some w)
  rw [hkeys, Finset.card_singleton] at hcount
  exact hcount

/-- What a sweep of exclusive leases does to a registered holder. -/
theorem holderCharged_of_registered (hexclusive : Exclusive s.ledger) {id : JobId}
    {r : JobRecord} {w : H160} {x d : Nat} {before : WorkerRecord}
    (hget : s.jobs[id]? = some r) (hstatus : r.status = .leased w x d) (hle : x ≤ now)
    (hknown : s.workers[w]? = some before) : HolderCharged s (s.expireLeases now).1 w := by
  unfold HolderCharged
  rw [hknown]
  refine ⟨before.noshow now, ?_, rfl⟩
  rw [expireLeases_worker, hknown, lapsesOf_eq_one hexclusive hget hstatus hle]
  rfl

end State

/-! ## The registry and the source a key registered from -/

/-- Every registered worker registered from the source on its record. -/
def World.SourcesKnown (world : World) : Prop :=
  ∀ (w : H160) (source : String), world.state.ledger.roster w = some source →
    world.registeredFrom w = some source

section Step

variable {env : Env} {world : World} {e : Event}

theorem acts_enroll {s : State} {w : H160} {source : String}
    (h : Acts s e (.enroll w source)) :
    ∃ worker, e.op = .register worker source ∧ w = worker.id := by
  obtain ⟨op, now⟩ := e
  cases op with
  | register w' source' =>
      obtain ⟨v, -, hbad⟩ | hadmitted := h
      · cases hbad
      · cases hadmitted
        exact ⟨w', rfl, rfl⟩
  | addJob spec => cases h
  | lease worker => obtain ⟨id, hbad⟩ | ⟨id, lease, hbad, -⟩ := h <;> cases hbad
  | renew worker job' => obtain hbad | ⟨expires, hbad⟩ := h <;> cases hbad
  | submit worker job' result => obtain hbad | ⟨hbad, -⟩ := h <;> cases hbad
  | expireLeases => obtain ⟨id, hbad⟩ := h; cases hbad
  | revokeOutOfPolicy => obtain ⟨id, hbad⟩ := h; cases hbad
  | graceLiveLeases => obtain ⟨id, expires, hbad⟩ := h; cases hbad
  | restart policy => obtain ⟨id, hbad⟩ | ⟨id, expires, hbad⟩ := h <;> cases hbad

theorem acts_evict {s : State} {v : H160} (h : Acts s e (.evict v)) :
    ∃ worker source, e.op = .register worker source ∧ v ∈ s.evictions worker source e.now := by
  obtain ⟨op, now⟩ := e
  cases op with
  | register w' source' =>
      obtain ⟨v', hv', hevict⟩ | hbad := h
      · cases hevict
        exact ⟨w', source', rfl, hv'⟩
      · cases hbad
  | addJob spec => cases h
  | lease worker => obtain ⟨id, hbad⟩ | ⟨id, lease, hbad, -⟩ := h <;> cases hbad
  | renew worker job' => obtain hbad | ⟨expires, hbad⟩ := h <;> cases hbad
  | submit worker job' result => obtain hbad | ⟨hbad, -⟩ := h <;> cases hbad
  | expireLeases => obtain ⟨id, hbad⟩ := h; cases hbad
  | revokeOutOfPolicy => obtain ⟨id, hbad⟩ := h; cases hbad
  | graceLiveLeases => obtain ⟨id, expires, hbad⟩ := h; cases hbad
  | restart policy => obtain ⟨id, hbad⟩ | ⟨id, expires, hbad⟩ := h <;> cases hbad

/-- No operation both grants a lease and evicts a worker. -/
theorem acts_grant_not_evict {s : State} {job : JobId} {lease : Lease H160} {v : H160}
    (hgrant : Acts s e (.grant job lease)) : ¬ Acts s e (.evict v) := by
  intro hevict
  obtain ⟨worker, source, hop, -⟩ := acts_evict hevict
  unfold Acts at hgrant
  rw [hop] at hgrant
  obtain ⟨v', -, hbad⟩ | hbad := hgrant <;> cases hbad

theorem roster_iff {s : State} {w : H160} {source : String} :
    s.ledger.roster w = some source ↔ ∃ r, s.workers[w]? = some r ∧ r.source = source := by
  simp only [State.ledger, Option.map_eq_some_iff]

/-- What a step records of where the keys registered from. -/
theorem step_registeredFrom (env : Env) (world : World) (e : Event) (w : H160) :
    ((machine env).step world e).registeredFrom w = world.registeredFrom w ∨
      ∃ worker source, e.op = .register worker source ∧ w = worker.id ∧
        world.state.workers[w]? = none ∧
        ((machine env).step world e).registeredFrom w = some source := by
  simp only [machine, World.step]
  split
  · rename_i worker source hop
    split
    · rename_i h
      obtain ⟨rfl, hnone, -⟩ := h
      exact .inr ⟨worker, source, hop, rfl, Option.isNone_iff_eq_none.mp hnone, rfl⟩
    · exact .inl rfl
  · exact .inl rfl

theorem SourcesKnown.step (h : world.SourcesKnown) (hkeyed : world.state.WellKeyed)
    (hfresh : e.op.Fresh world.state) : ((machine env).step world e).SourcesKnown := by
  intro w source hroster
  change (world.state.apply env e).ledger.roster w = some source at hroster
  -- A worker that was registered before keeps its source, and the key's origin.
  have hbefore : ∀ source', world.state.ledger.roster w = some source' →
      ((machine env).step world e).registeredFrom w = some source' := by
    intro source' hsource'
    obtain hsame | ⟨worker, _, -, -, hnone, -⟩ :=
      step_registeredFrom env world e w
    · rw [hsame]
      exact h w source' hsource'
    · obtain ⟨r, hget, -⟩ := roster_iff.mp hsource'
      rw [hnone] at hget
      cases hget
  obtain hold | hadmitted :=
    (State.apply_path env hkeyed hfresh).roster_cases hroster
  · exact hbefore source hold
  · obtain ⟨worker, hop, rfl⟩ := acts_enroll hadmitted
    have happly : world.state.apply env e = (world.state.register worker source e.now).1 := by
      rw [State.apply, hop]
    cases hknown : world.state.workers[worker.id]? with
    | some r =>
        rw [happly, State.register_known_ledger hknown] at hroster
        exact hbefore source hroster
    | none =>
        obtain ⟨r, hget, -⟩ := roster_iff.mp hroster
        simp [machine, World.step, hop, hknown, hget]

/-- The invariants of a run that the account of a sweep rests on. -/
structure Accountable (policy : Policy) (world : World) : Prop where
  wellKeyed : world.state.WellKeyed
  exclusive : Exclusive world.state.ledger
  sourcesKnown : world.SourcesKnown
  policy_eq : world.state.policy = policy

theorem Accountable.step (env : Env) {policy : Policy} (h : Accountable policy world)
    (hadm : AdmissibleUnder policy world e) :
    Accountable policy ((machine env).step world e) where
  wellKeyed := h.wellKeyed.apply
  exclusive := (State.apply_path env h.wellKeyed hadm.1.2).preserves _
    (fun _ _ _ hinv _ hfires => hfires.exclusive hinv) h.exclusive
  sourcesKnown := SourcesKnown.step h.sourcesKnown h.wellKeyed hadm.1.2
  policy_eq := State.apply_policy h.policy_eq hadm.2

theorem heldBy_eq_zero_iff {s : State} {w : H160} :
    s.heldBy w = 0 ↔ ∀ job lease, s.ledger.Held job lease → lease.holder ≠ w := by
  constructor
  · exact fun h job lease hheld => State.heldBy_eq_zero h hheld
  · intro h
    refine List.countP_eq_zero.mpr fun e hmem hholder => ?_
    cases hstatus : e.2.status with
    | leased w' x d =>
        simp only [hstatus, JobStatus.holder?, Option.some.injEq, decide_eq_true_eq] at hholder
        exact h e.1 _ (State.held_of_status (mem_entries.mp hmem) hstatus) hholder
    | _ => simp [hstatus, JobStatus.holder?] at hholder

/-- Steps that evict no holder keep every holder registered. -/
theorem holdersRegistered_step (hkeyed : world.state.WellKeyed) (hfresh : e.op.Fresh world.state)
    (hevict : NoHolderEvicted world e) (h : HoldersRegistered world.state.ledger) :
    HoldersRegistered (world.state.apply env e).ledger := by
  refine (State.apply_path env hkeyed hfresh).preserves_sparing
    (fun _ => True) (fun job lease hgrant => acts_grant_not_evict hgrant)
    (fun _ _ _ hinv hspares hfires => hfires.holdersRegistered hinv hspares) h ?_
  rintro action hacts v rfl job lease hheld -
  obtain ⟨worker, source, hop, hv⟩ := acts_evict hacts
  unfold NoHolderEvicted at hevict
  rw [hop] at hevict
  exact heldBy_eq_zero_iff.mp (hevict v hv) job lease hheld

end Step

/-! ## The account of a sweep -/

section Sweep

variable {world : World} {now : Nat} {policy : Policy}

/-- A sweep charges a group only where one is owed. -/
theorem lapsedGroup_le_owed (h : world.SourcesKnown) {w : H160} {group : String}
    (hgroup : world.state.lapsedGroup w = some group) :
    (if w ∈ world.state.policy.trustedH01 then none
      else (world.registeredFrom w).map sourceGroup) = some group := by
  unfold State.lapsedGroup at hgroup
  split at hgroup
  · rename_i r hget
    split at hgroup
    · cases hgroup
    · rename_i hun
      rw [if_neg hun, h w r.source (roster_iff.mpr ⟨r, hget, rfl⟩)]
      exact hgroup
  · cases hgroup

/-- When every holder is registered, every lapse is charged. -/
theorem lapsesCharged_of_registered (h : Accountable policy world)
    (hregistered : HoldersRegistered world.state.ledger) : LapsesCharged world now := by
  have hrecord : ∀ (id : JobId) (r : JobRecord) (w : H160) (x d : Nat),
      world.state.jobs[id]? = some r → r.status = .leased w x d →
        ∃ before, world.state.workers[w]? = some before ∧
          world.registeredFrom w = some before.source := by
    intro id r w x d hget hstatus
    obtain ⟨source, hsource⟩ := hregistered id _ (State.held_of_status hget hstatus)
    obtain ⟨before, hknown, rfl⟩ := roster_iff.mp hsource
    exact ⟨before, hknown, h.sourcesKnown w _ hsource⟩
  have hgroups : (world.state.sweepJobs now).lapsedGroups = world.owedCharges now := by
    rw [State.sweepJobs_groups]
    refine List.filterMap_congr fun e hmem => ?_
    cases hlapsed : e.2.status.lapsedHolder? now with
    | none => rfl
    | some w =>
        obtain ⟨x, d, hstatus, -⟩ := JobStatus.lapsedHolder?_eq_some.mp hlapsed
        obtain ⟨before, hknown, horigin⟩ := hrecord e.1 e.2 w x d (mem_entries.mp hmem) hstatus
        simp [State.lapsedGroup, hknown, horigin]
  constructor
  · intro id r w x d hfreed hget hstatus
    obtain ⟨before, hknown, horigin⟩ := hrecord id r w x d hget hstatus
    obtain ⟨r', w', hget', hlapsed⟩ := (State.mem_expireLeases_freed _ _).mp hfreed
    obtain rfl : r' = r := Option.some.inj (hget'.symm.trans hget)
    obtain ⟨x', d', hstatus', hle⟩ := JobStatus.lapsedHolder?_eq_some.mp hlapsed
    rw [hstatus] at hstatus'
    cases hstatus'
    refine ⟨State.holderCharged_of_registered h.exclusive hget hstatus hle hknown,
      r'.lapse w (world.state.lapsedGroup w) now, ?_, rfl, Finset.mem_insert_self _ _, ?_⟩
    · rw [State.expireLeases_job, hget, Option.map_some, State.swept, hlapsed]
    · intro hun
      refine ⟨before.source, horigin, ?_⟩
      simp [JobRecord.lapse, State.lapsedGroup, hknown, hun]
  · exact hgroups
  · intro hroom group
    rw [← hgroups] at hroom ⊢
    have hsources : (world.state.sweepJobs now).state.sources = world.state.sources :=
      Sweep.foldl_sources
    rw [← hsources] at hroom
    refine (State.foldl_chargeSource_noshows now hroom group).trans ?_
    rw [State.groupNoshows, hsources]
    rfl

/-- A lapse whose holder left the registry is not charged. -/
theorem not_lapsesCharged_of_unregistered (h : Accountable policy world) {id : JobId}
    {r : JobRecord} {w : H160} {x d : Nat} {source : String}
    (hget : world.state.jobs[id]? = some r) (hstatus : r.status = .leased w x d)
    (hle : x ≤ now) (hgone : world.state.workers[w]? = none)
    (hun : w ∉ world.state.policy.trustedH01) (horigin : world.registeredFrom w = some source) :
    ¬ LapsesCharged world now := by
  intro hcharged
  have hgroups := hcharged.groups
  rw [State.sweepJobs_groups, World.owedCharges] at hgroups
  have hagree := filterMap_eq_imp_of_le (fun e _ group hgroup => ?_) hgroups (id, r)
    (mem_entries.mpr hget)
  · have hlapsed : r.status.lapsedHolder? now = some w :=
      JobStatus.lapsedHolder?_eq_some.mpr ⟨x, d, hstatus, hle⟩
    simp [hlapsed, State.lapsedGroup, hgone, hun, horigin] at hagree
  · cases hlapsed : e.2.status.lapsedHolder? now with
    | none => simp [hlapsed] at hgroup
    | some w' =>
        rw [hlapsed, Option.bind_some] at hgroup
        exact lapsedGroup_le_owed h.sourcesKnown hgroup

end Sweep

/-- A registration that evicts the holder of a lease leaves a lapse which the
next sweep does not charge. -/
theorem uncharged_after_eviction {env : Env} {policy : Policy} {world : World} {e : Event}
    (h : Accountable policy world) (hadm : AdmissibleUnder policy world e)
    (hevict : ¬ NoHolderEvicted world e) :
    ¬ LapsesCharged ((machine env).step world e) e.now := by
  unfold NoHolderEvicted at hevict
  split at hevict
  case h_2 => exact absurd trivial hevict
  rename_i worker source hop
  push Not at hevict
  obtain ⟨v, hv, hheld⟩ := hevict
  rw [Ne, heldBy_eq_zero_iff] at hheld
  push Not at hheld
  obtain ⟨id, lease, hlease, rfl⟩ := hheld
  obtain ⟨r, d, hget, hstatus, -⟩ := State.held_iff.mp hlease
  obtain ⟨hnot, huntrusted⟩ := State.evictions_not_holder hv
  have hle : lease.expires ≤ e.now := by
    by_contra hlt
    exact hnot (State.mem_leaseholders.mpr ⟨id, r, _, d, hget, hstatus, not_le.mp hlt⟩)
  obtain ⟨before, hknown⟩ := State.evictions_known hv
  have hnew : world.state.workers[worker.id]? = none := State.evictions_new hv
  have hne : lease.holder ≠ worker.id := by
    intro heq
    rw [heq, hnew] at hknown
    cases hknown
  have happly : ((machine env).step world e).state = (world.state.register worker source e.now).1 := by
    change world.state.apply env e = _
    rw [State.apply, hop]
  have hjobs : ((machine env).step world e).state.jobs[id]? = some r := by
    rw [happly, State.register_jobs]
    exact hget
  have hgone : ((machine env).step world e).state.workers[lease.holder]? = none := by
    rw [happly]
    exact State.register_evicts hv
  have horigin : ((machine env).step world e).registeredFrom lease.holder =
      some before.source := by
    obtain hsame | ⟨worker', _, hop', heq, -, -⟩ :=
      step_registeredFrom env world e lease.holder
    · rw [hsame]
      exact h.sourcesKnown _ _ (roster_iff.mpr ⟨before, hknown, rfl⟩)
    · rw [hop] at hop'
      cases hop'
      exact absurd heq hne
  have hnext := h.step env hadm
  refine not_lapsesCharged_of_unregistered hnext hjobs hstatus hle hgone ?_ horigin
  rw [hnext.policy_eq, ← h.policy_eq]
  simpa [Policy.isTrusted] using huntrusted

theorem init_accountable (policy : Policy) : Accountable policy (World.init policy) where
  wellKeyed := init_wellKeyed policy
  exclusive _ _ _ _ hheld _ _ := absurd hheld (init_not_held policy _ _)
  sourcesKnown w source hroster := by
    simp [World.init, State.empty, State.ledger] at hroster
  policy_eq := rfl

/-- **Which runs charge every lapsed lease.**  Under a fixed policy and a clock
that does not go back, every sweep from every state of a run charges every lapse
it frees if and only if no registration in the run evicts the recorded holder of
a lease. -/
theorem every_lapse_charged_iff (env : Env) (policy : Policy) (events : List Event)
    (hrun : (machine env).Along (AdmissibleUnder policy) (World.init policy) events) :
    (∀ front, front <+: events → ∀ now,
        ((machine env).run (World.init policy) front).clock ≤ now →
          LapsesCharged ((machine env).run (World.init policy) front) now) ↔
      (machine env).Along NoHolderEvicted (World.init policy) events := by
  constructor
  · intro hall
    refine Machine.along_iff_forall_prefix.mpr fun front e hpre => ?_
    by_contra hevict
    have hfront := Machine.along_concat.mp (hrun.of_prefix hpre)
    have hacc := Machine.run_invariant _ (fun _ _ h hadm => Accountable.step _ h hadm)
      (init_accountable policy) hfront.1
    have hcharged := hall _ hpre e.now (by rw [Machine.run_concat]; exact le_rfl)
    rw [Machine.run_concat] at hcharged
    exact uncharged_after_eviction hacc hfront.2 hevict hcharged
  · intro hnone front hpre now _
    have hsteps := (hrun.of_prefix hpre).and (hnone.of_prefix hpre)
    have hinv := Machine.run_invariant
      (fun w : World => Accountable policy w ∧ HoldersRegistered w.state.ledger)
      (fun w e hinv hstep => ⟨hinv.1.step _ hstep.1,
        holdersRegistered_step hinv.1.wellKeyed hstep.1.1.2 hstep.2 hinv.2⟩)
      ⟨init_accountable policy, fun _ _ hheld => absurd hheld (init_not_held policy _ _)⟩
      hsteps
    exact lapsesCharged_of_registered hinv.1 hinv.2

/-- One identity for each source. -/
def onePerSource : Policy := { Policy.default with maxWorkersPerSource := 1 }

/-- A lease that is honoured, and a second machine from the same source refused. -/
def refusedRun : List Event :=
  [⟨.addJob (probeJob "j" 3600), 1⟩, ⟨.register (probeWorker 1) "s", 1⟩,
    ⟨.lease (probeWorker 1).id, 1⟩, ⟨.register (probeWorker 2) "s", 2⟩]

theorem refusedRun_lapse_charged :
    LapsesCharged ((machine plainEnv).run (World.init onePerSource) refusedRun) 1000 :=
  (every_lapse_charged_iff plainEnv onePerSource refusedRun (by decide)).mpr (by decide)
    refusedRun List.prefix_rfl 1000 (by decide)

/-- A worker leases and walks away; a day later, before any sweep, a second key
from its source reclaims its slot. -/
def reclaimedRun : List Event :=
  [⟨.addJob (probeJob "j" 3600), 1⟩, ⟨.register (probeWorker 1) "s", 1⟩,
    ⟨.lease (probeWorker 1).id, 1⟩, ⟨.register (probeWorker 2) "s", 86401⟩]

/-- The sweep that follows frees the job and charges nobody. -/
theorem reclaimedRun_lapse_uncharged :
    (machine plainEnv).Along (AdmissibleUnder onePerSource) (World.init onePerSource)
        reclaimedRun ∧
      (let world := (machine plainEnv).run (World.init onePerSource) reclaimedRun
      (world.state.expireLeases 86401).2 = ["j"] ∧
        (world.state.expireLeases 86401).1.workers[(probeWorker 1).id]? = none ∧
        (world.state.expireLeases 86401).1.penalties[(probeWorker 1).id]? = none ∧
        (world.state.expireLeases 86401).1.sources["s"]? = none ∧
        ¬ LapsesCharged world 86401) := by
  have hgone : (((machine plainEnv).run (World.init onePerSource)
      reclaimedRun).state.workers[(probeWorker 1).id]?) = none := by decide
  have hpenalty : ((((machine plainEnv).run (World.init onePerSource)
      reclaimedRun).state.expireLeases 86401).1.penalties[(probeWorker 1).id]?) = none := by
    decide
  have hlease : (((machine plainEnv).run (World.init onePerSource)
      reclaimedRun).state.jobs["j"]?).map JobRecord.status =
        some (.leased (probeWorker 1).id 901 3601) := by decide
  obtain ⟨r, hget, hstatus⟩ := Option.map_eq_some_iff.mp hlease
  refine ⟨by decide, by decide, by decide, hpenalty, by decide, fun h => ?_⟩
  obtain ⟨hholder, -⟩ := h.charged "j" r _ _ _ (by decide) hget hstatus
  rw [HolderCharged, hgone] at hholder
  obtain ⟨after, hafter, -⟩ := hholder
  rw [hpenalty] at hafter
  cases hafter

end Coordinator
end ComputePool
