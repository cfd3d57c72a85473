import ComputePool.Coordinator.Sweep
import ComputePool.Coordinator.Submit
import ComputePool.Lib.LeaseLedger

/-!
# The coordinator refines the lease ledger

A state is read as a ledger: the phase of each job and the source of each
registered worker.  Every operation of the coordinator is then a path of ledger
transitions; which kinds of transition an operation may take, and on behalf of
whom, is part of each statement.
-/

namespace ComputePool
namespace Coordinator

open RustStd LeaseLedger

/-- What is recorded of an accepted result: who submitted it, when, and the
stored text. -/
abbrev Accepted := H160 × Nat × Option String

/-- The phase of a job on the ledger. -/
def JobRecord.phase (r : JobRecord) : Phase H160 Accepted :=
  match r.status with
  | .pending => .free
  | .leased w e d => .held ⟨w, e, hardDeadline e d⟩
  | .done w at_ => .closed (w, at_, r.result)
  | .quarantined _ => .parked

/-- The ledger of a state. -/
def State.ledger (s : State) : Ledger JobId H160 String Accepted where
  phase id := (s.jobs[id]?).map JobRecord.phase
  roster w := (s.workers[w]?).map WorkerRecord.source

/-- The rules an operator's policy sets. -/
def Policy.rules (p : Policy) : Rules H160 String String where
  vouched w := w ∈ p.trustedH01
  group := sourceGroup
  cap := p.maxLeasesPerSource

/-- Every job is stored under its own id. -/
def State.WellKeyed (s : State) : Prop :=
  ∀ (id : JobId) (r : JobRecord), s.jobs[id]? = some r → r.spec.id = id

theorem JobRecord.phase_eq_held {r : JobRecord} {lease : Lease H160} :
    r.phase = .held lease ↔
      ∃ d, r.status = .leased lease.holder lease.expires d ∧
        lease.hard = hardDeadline lease.expires d := by
  unfold phase
  cases hstatus : r.status with
  | leased w e d =>
      simp only [Phase.held.injEq, JobStatus.leased.injEq]
      constructor
      · rintro rfl
        exact ⟨d, ⟨rfl, rfl, rfl⟩, rfl⟩
      · rintro ⟨d', ⟨rfl, rfl, rfl⟩, hhard⟩
        cases lease
        simp_all
  | _ => simp

theorem JobRecord.phase_eq_closed {r : JobRecord} {record : Accepted} :
    r.phase = .closed record ↔
      r.status = .done record.1 record.2.1 ∧ r.result = record.2.2 := by
  unfold phase
  cases r.status with
  | done w at_ =>
      simp only [Phase.closed.injEq, JobStatus.done.injEq, Prod.ext_iff]
      exact ⟨fun ⟨hw, hat, hres⟩ => ⟨⟨hw, hat⟩, hres⟩, fun ⟨⟨hw, hat⟩, hres⟩ => ⟨hw, hat, hres⟩⟩
  | _ => simp

namespace State

variable {s s' : State} {now : Nat}

theorem held_iff {id : JobId} {lease : Lease H160} :
    s.ledger.Held id lease ↔
      ∃ r d, s.jobs[id]? = some r ∧ r.status = .leased lease.holder lease.expires d ∧
        lease.hard = hardDeadline lease.expires d := by
  simp only [Ledger.Held, ledger, Option.map_eq_some_iff, JobRecord.phase_eq_held]
  constructor
  · rintro ⟨r, hget, d, hstatus, hhard⟩
    exact ⟨r, d, hget, hstatus, hhard⟩
  · rintro ⟨r, d, hget, hstatus, hhard⟩
    exact ⟨r, hget, d, hstatus, hhard⟩

theorem held_of_status {id : JobId} {r : JobRecord} {w : H160} {e d : Nat}
    (hget : s.jobs[id]? = some r) (hstatus : r.status = .leased w e d) :
    s.ledger.Held id ⟨w, e, hardDeadline e d⟩ :=
  held_iff.mpr ⟨r, d, hget, hstatus, rfl⟩

/-- The ledger sees the phase of the jobs and the source of the workers, and
nothing else. -/
theorem ledger_congr
    (hjobs : ∀ id : JobId, (s'.jobs[id]?).map JobRecord.phase = (s.jobs[id]?).map JobRecord.phase)
    (hworkers : ∀ w : H160, (s'.workers[w]?).map WorkerRecord.source =
      (s.workers[w]?).map WorkerRecord.source) : s'.ledger = s.ledger :=
  Ledger.ext (funext hjobs) (funext hworkers)

theorem ledger_modify_workers {w : H160} {f : WorkerRecord → WorkerRecord}
    (hf : ∀ r, (f r).source = r.source) (a : H160) :
    ((s.workers.modify w f)[a]?).map WorkerRecord.source =
      (s.workers[a]?).map WorkerRecord.source := by
  rw [get_modify]
  split
  · rw [Option.map_map]
    exact congrArg (fun g => Option.map g (s.workers[a]?)) (funext hf)
  · rfl

theorem ledger_insert_job {id : JobId} {r : JobRecord} {dirty : Bool} :
    ({ s with jobs := s.jobs.insert id r, dirty := dirty } : State).ledger =
      s.ledger.setPhase id r.phase := by
  refine Ledger.ext (funext fun other => ?_) rfl
  by_cases h : other = id
  · subst h
    simp [ledger]
  · rw [s.ledger.setPhase_phase_of_ne _ h]
    simp [ledger, get_insert, Ne.symm h]

/-- Modifying one job's record is replacing its phase on the ledger. -/
theorem ledger_modify_job {id : JobId} {r : JobRecord} {f : JobRecord → JobRecord}
    {dirty : Bool} (hget : s.jobs[id]? = some r) :
    ({ s with jobs := s.jobs.modify id f, dirty := dirty } : State).ledger =
      s.ledger.setPhase id (f r).phase := by
  refine Ledger.ext (funext fun other => ?_) rfl
  by_cases h : other = id
  · subst h
    simp [ledger, get_modify, hget]
  · rw [s.ledger.setPhase_phase_of_ne _ h]
    simp [ledger, get_modify, Ne.symm h]

@[simp] theorem engage_ledger (w : H160) : (s.engage w now).ledger = s.ledger :=
  ledger_congr (fun _ => rfl) (ledger_modify_workers fun _ => rfl)

@[simp] theorem reload_ledger : s.reload.ledger = s.ledger := by
  refine ledger_congr (fun id => ?_) fun _ => rfl
  simp only [reload, get_map, Option.map_map]
  rfl

theorem takeDirty_ledger : s.takeDirty.1.ledger = s.ledger := by
  unfold takeDirty
  split
  · refine ledger_congr (fun id => ?_) fun _ => rfl
    simp only [get_map, Option.map_map]
    refine congrArg (fun g => Option.map g (s.jobs[id]?)) (funext fun r => ?_)
    simp only [Function.comp_apply]
    split <;> rfl
  · rfl

/-! ## Publishing -/

theorem addJob_path {rules : Rules H160 String String} {spec : JobSpec}
    (hfresh : spec.id ∉ s.jobs) :
    Path rules now (fun a => a = .publish spec.id) s.ledger (s.addJob spec).ledger := by
  refine Path.single rfl ⟨?_, ledger_insert_job⟩
  simpa [ledger] using hfresh

/-! ## The registry -/

theorem mem_leaseholders {w : H160} :
    w ∈ s.leaseholders now ↔
      ∃ (id : JobId) (r : JobRecord) (e d : Nat),
        s.jobs[id]? = some r ∧ r.status = .leased w e d ∧ now < e := by
  simp only [leaseholders, List.mem_toFinset, List.mem_filterMap]
  constructor
  · rintro ⟨⟨id, r⟩, hmem, hlive⟩
    cases hstatus : r.status with
    | leased w' e d =>
        simp only [hstatus, JobStatus.liveHolder?] at hlive
        split at hlive
        · rename_i hgt
          obtain rfl := Option.some.inj hlive
          exact ⟨id, r, e, d, mem_entries.mp hmem, hstatus, hgt⟩
        · cases hlive
    | _ => simp [hstatus, JobStatus.liveHolder?] at hlive
  · rintro ⟨id, r, e, d, hget, hstatus, hlt⟩
    exact ⟨(id, r), mem_entries.mpr hget, by simp [hstatus, JobStatus.liveHolder?, hlt]⟩

/-- Forgetting a worker touches the registry and the penalties only. -/
theorem forgetWorker_spec (id : H160) (now : Nat) :
    ∃ penalties, s.forgetWorker id now =
      { s with workers := s.workers.erase id, penalties := penalties } ∨
        (s.workers[id]? = none ∧ s.forgetWorker id now = s) := by
  unfold forgetWorker
  cases h : s.workers[id]? with
  | none => exact ⟨s.penalties, .inr ⟨rfl, rfl⟩⟩
  | some r =>
      dsimp only
      split
      · exact ⟨s.penalties, .inl rfl⟩
      · exact ⟨_, .inl rfl⟩

theorem forgetWorker_jobs (id : H160) : (s.forgetWorker id now).jobs = s.jobs := by
  obtain ⟨_, h | ⟨-, h⟩⟩ := forgetWorker_spec (s := s) id now <;> rw [h]

theorem forgetWorker_policy (id : H160) : (s.forgetWorker id now).policy = s.policy := by
  obtain ⟨_, h | ⟨-, h⟩⟩ := forgetWorker_spec (s := s) id now <;> rw [h]

theorem forgetWorker_worker (id a : H160) :
    (s.forgetWorker id now).workers[a]? = if id = a then none else s.workers[a]? := by
  obtain ⟨_, h | ⟨hnone, h⟩⟩ := forgetWorker_spec (s := s) id now
  · rw [h]
    exact get_erase
  · rw [h]
    split
    · rename_i heq
      exact heq ▸ hnone
    · rfl

theorem forgetWorker_ledger (id : H160) :
    (s.forgetWorker id now).ledger = s.ledger.setRoster id none := by
  refine Ledger.ext ?_ (funext fun a => ?_)
  · simp [ledger, forgetWorker_jobs]
  · by_cases h : a = id
    · subst h
      simp [ledger, forgetWorker_worker]
    · rw [s.ledger.setRoster_roster_of_ne _ h]
      simp [ledger, forgetWorker_worker, Ne.symm h]

/-- A worker which is not among the live leaseholders may leave the roster. -/
theorem forgetWorker_fires {rules : Rules H160 String String} {id : H160}
    (h : id ∉ s.leaseholders now) :
    Fires rules now s.ledger (.evict id) (s.forgetWorker id now).ledger := by
  refine ⟨?_, forgetWorker_ledger id⟩
  rintro job lease hheld rfl
  obtain ⟨r, d, hget, hstatus, -⟩ := held_iff.mp hheld
  by_contra hlt
  exact h (mem_leaseholders.mpr ⟨job, r, _, d, hget, hstatus, not_le.mp hlt⟩)

theorem admitWorker_fires {rules : Rules H160 String String} {w : RegisteredWorker}
    {source : String} (h : s.workers[w.id]? = none) :
    Fires rules now s.ledger (.enroll w.id source) (s.admitWorker w source now).ledger := by
  refine ⟨by simp [ledger, h], Ledger.ext rfl (funext fun a => ?_)⟩
  by_cases ha : a = w.id
  · subst ha
    simp [ledger, admitWorker]
  · rw [s.ledger.setRoster_roster_of_ne _ ha]
    simp [ledger, admitWorker, get_insert, Ne.symm ha]

/-- The slot a new identity from `source` would reclaim: the stalest one. -/
def slotVictim (s : State) (source : String) (now : Nat) : Option H160 :=
  (minByKey (fun e => e.2.lastSeen)
    (s.staleSlots source (s.leaseholders now) now)).map Prod.fst

/-- The worker a full registry evicts for a new identity: the least recently
seen of those that are neither vouched nor mid-job. -/
def registryVictim (s : State) (now : Nat) : Option H160 :=
  if s.workers.size ≥ MAX_WORKERS then
    (minByKey (fun e => e.2.lastSeen) (s.evictable (s.leaseholders now))).map Prod.fst
  else none

/-- The workers which a new key evicts.  An unvouched key whose source is full
reclaims a slot or is refused; then the registry bound may ask for one more. -/
def newEvictions (s : State) (w : RegisteredWorker) (source : String) (now : Nat) :
    List H160 :=
  if s.policy.isTrusted w.id ∨
      (s.fromSource source).length < s.policy.maxWorkersPerSource then
    (s.registryVictim now).toList
  else
    match s.slotVictim source now with
    | none => []
    | some v => v :: ((s.forgetWorker v now).registryVictim now).toList

/-- The workers which a registration of `w` from `source` evicts: a known key
evicts nobody. -/
def evictions (s : State) (w : RegisteredWorker) (source : String) (now : Nat) :
    List H160 :=
  if (s.workers[w.id]?).isSome then [] else s.newEvictions w source now

theorem forgetWorker_leaseholders (id : H160) :
    (s.forgetWorker id now).leaseholders now = s.leaseholders now := by
  rw [leaseholders, forgetWorker_jobs]
  rfl

@[simp] theorem markDirty_leaseholders :
    s.markDirty.leaseholders now = s.leaseholders now := rfl

@[simp] theorem markDirty_ledger : s.markDirty.ledger = s.ledger := rfl

@[simp] theorem markDirty_policy : s.markDirty.policy = s.policy := rfl

/-- The slot victim holds no live lease. -/
theorem slotVictim_not_holder {source : String} {v : H160}
    (h : s.slotVictim source now = some v) :
    v ∉ s.leaseholders now ∧ s.policy.isTrusted v = false := by
  obtain ⟨e, he, rfl⟩ := Option.map_eq_some_iff.mp h
  have hmem := minByKey_mem he
  simp only [staleSlots, fromSource, List.mem_filter, Bool.and_eq_true, decide_eq_true_eq,
    Bool.not_eq_true'] at hmem
  exact ⟨hmem.2.2, hmem.1.2.2⟩

theorem registryVictim_not_holder {v : H160} (h : s.registryVictim now = some v) :
    v ∉ s.leaseholders now ∧ s.policy.isTrusted v = false := by
  unfold registryVictim at h
  split at h
  · obtain ⟨e, he, rfl⟩ := Option.map_eq_some_iff.mp h
    have hmem := minByKey_mem he
    simp only [evictable, List.mem_filter, Bool.and_eq_true, decide_eq_true_eq,
      Bool.not_eq_true'] at hmem
    exact ⟨hmem.2.2, hmem.2.1⟩
  · cases h

/-- A victim of a registration holds no live lease, and is unvouched. -/
theorem newEvictions_not_holder {w : RegisteredWorker} {source : String} {v : H160}
    (h : v ∈ s.newEvictions w source now) :
    v ∉ s.leaseholders now ∧ s.policy.isTrusted v = false := by
  unfold newEvictions at h
  split at h
  · exact registryVictim_not_holder (by simpa using h)
  · split at h
    · cases h
    · rename_i first hfirst
      rcases List.mem_cons.mp h with rfl | hsecond
      · exact slotVictim_not_holder hfirst
      · have hvictim : (s.forgetWorker first now).registryVictim now = some v := by
          simpa using hsecond
        have hspared := registryVictim_not_holder hvictim
        rwa [forgetWorker_leaseholders, forgetWorker_policy] at hspared

theorem evictions_not_holder {w : RegisteredWorker} {source : String} {v : H160}
    (h : v ∈ s.evictions w source now) :
    v ∉ s.leaseholders now ∧ s.policy.isTrusted v = false := by
  unfold evictions at h
  split at h
  · cases h
  · exact newEvictions_not_holder h

/-- A slot victim is a registered worker. -/
theorem slotVictim_known {source : String} {v : H160}
    (h : s.slotVictim source now = some v) : ∃ r, s.workers[v]? = some r := by
  obtain ⟨e, he, rfl⟩ := Option.map_eq_some_iff.mp h
  have hmem := minByKey_mem he
  simp only [staleSlots, fromSource, List.mem_filter] at hmem
  exact ⟨e.2, mem_entries.mp hmem.1.1⟩

theorem registryVictim_known {v : H160} (h : s.registryVictim now = some v) :
    ∃ r, s.workers[v]? = some r := by
  unfold registryVictim at h
  split at h
  · obtain ⟨e, he, rfl⟩ := Option.map_eq_some_iff.mp h
    have hmem := minByKey_mem he
    simp only [evictable, List.mem_filter] at hmem
    exact ⟨e.2, mem_entries.mp hmem.1⟩
  · cases h

/-- A victim of a registration is a registered worker. -/
theorem evictions_known {w : RegisteredWorker} {source : String} {v : H160}
    (h : v ∈ s.evictions w source now) : ∃ r, s.workers[v]? = some r := by
  unfold evictions newEvictions at h
  split at h
  · cases h
  · split at h
    · exact registryVictim_known (by simpa using h)
    · split at h
      · cases h
      · rename_i first hfirst
        rcases List.mem_cons.mp h with rfl | hsecond
        · exact slotVictim_known hfirst
        · have hvictim : (s.forgetWorker first now).registryVictim now = some v := by
            simpa using hsecond
          obtain ⟨r, hr⟩ := registryVictim_known hvictim
          rw [forgetWorker_worker] at hr
          split at hr
          · cases hr
          · exact ⟨r, hr⟩

/-- Only an unknown key evicts. -/
theorem evictions_new {w : RegisteredWorker} {source : String} {v : H160}
    (h : v ∈ s.evictions w source now) : s.workers[w.id]? = none := by
  unfold evictions at h
  split at h
  · cases h
  · rename_i hnone
    simpa using hnone

theorem forgetWorker_markDirty (id : H160) :
    s.markDirty.forgetWorker id now = (s.forgetWorker id now).markDirty := by
  simp only [forgetWorker, markDirty]
  cases s.workers[id]? with
  | none => rfl
  | some r =>
      dsimp only
      split <;> rfl

theorem newEvictions_markDirty (w : RegisteredWorker) (source : String) :
    s.markDirty.newEvictions w source now = s.newEvictions w source now := by
  have hslot : s.markDirty.slotVictim source now = s.slotVictim source now := rfl
  simp only [newEvictions, hslot, forgetWorker_markDirty]
  rfl

theorem makeRoomForSource_eq (source : String) :
    s.makeRoomForSource source (s.leaseholders now) now =
      if (s.fromSource source).length < s.policy.maxWorkersPerSource then .ok s
      else
        match s.slotVictim source now with
        | none => .error .sourceFull
        | some v => .ok (s.forgetWorker v now) := by
  unfold makeRoomForSource slotVictim
  split
  · rfl
  · split <;> rename_i h <;> simp [h]

/-- Making room in the registry evicts its victim, or fails, or finds room. -/
theorem makeRoomInRegistry_cases (now : Nat) :
    ((∃ e, s.makeRoomInRegistry (s.leaseholders now) now = .error e) ∧
      s.registryVictim now = none) ∨
    s.makeRoomInRegistry (s.leaseholders now) now =
      .ok ((s.registryVictim now).toList.foldl (fun s v => s.forgetWorker v now) s) := by
  unfold makeRoomInRegistry registryVictim
  split
  · split <;> rename_i h <;> simp [h]
  · exact .inr rfl

/-- What a registration of an unknown key leaves: the state after its
evictions, with the new record when it is admitted. -/
theorem registerNew_cases (w : RegisteredWorker) (source : String) (now : Nat) :
    let s' := (s.newEvictions w source now).foldl (fun s v => s.forgetWorker v now) s
    ((s.registerNew w source now).1 = s' ∧ ∃ e, (s.registerNew w source now).2 = .error e) ∨
      s.registerNew w source now = (s'.admitWorker w source now, .ok ()) := by
  -- The end of the registration, in a state whose leaseholders are those of `s`.
  have hbound : ∀ t : State, t.leaseholders now = s.leaseholders now →
      let s' := (t.registryVictim now).toList.foldl (fun s v => s.forgetWorker v now) t
      ((∃ e, t.makeRoomInRegistry (s.leaseholders now) now = .error e) ∧ s' = t) ∨
        t.makeRoomInRegistry (s.leaseholders now) now = .ok s' := by
    intro t ht
    rw [← ht]
    obtain ⟨herr, hnone⟩ | hok := makeRoomInRegistry_cases (s := t) now
    · exact .inl ⟨herr, by rw [hnone]; rfl⟩
    · exact .inr hok
  by_cases hroom : s.policy.isTrusted w.id ∨
      (s.fromSource source).length < s.policy.maxWorkersPerSource
  · have hfirst : (if s.policy.isTrusted w.id then Except.ok s
        else s.makeRoomForSource source (s.leaseholders now) now) = .ok s := by
      rw [makeRoomForSource_eq]
      rcases hroom with h | h <;> simp [h]
    simp only [registerNew, newEvictions, hfirst, if_pos hroom]
    obtain ⟨⟨e, herr⟩, hsame⟩ | hok := hbound s rfl
    · simp [herr, hsame]
    · simp [hok]
  · have hfull := not_or.mp hroom
    simp only [registerNew, newEvictions, if_neg hroom, if_neg hfull.1,
      makeRoomForSource_eq, if_neg hfull.2]
    cases s.slotVictim source now with
    | none => simp
    | some v =>
        simp only [List.foldl_cons]
        obtain ⟨⟨e, herr⟩, hsame⟩ | hok := hbound (s.forgetWorker v now)
          (forgetWorker_leaseholders v)
        · simp [herr, hsame]
        · simp [hok]

/-- The same for `register`, which marks the state dirty first. -/
theorem register_new {w : RegisteredWorker} (source : String) (now : Nat)
    (hnew : s.workers[w.id]? = none) :
    let s' := (s.evictions w source now).foldl (fun s v => s.forgetWorker v now) s.markDirty
    ((s.register w source now).1 = s' ∧ ∃ e, (s.register w source now).2 = .error e) ∨
      ((s.register w source now).1 = s'.admitWorker w source now ∧
        (s.register w source now).2 = .ok (s.policy.effectiveCapability w.id w.capability)) := by
  have hcases := registerNew_cases (s := s.markDirty) w source now
  simp only [newEvictions_markDirty] at hcases
  simp only [register, evictions, hnew, Option.isSome_none, Bool.false_eq_true, if_false]
  obtain ⟨hstate, e, herr⟩ | hok := hcases
  · exact .inl ⟨hstate, e, by rw [herr]; rfl⟩
  · exact .inr ⟨by rw [hok], by rw [hok]; rfl⟩

end State
end Coordinator
end ComputePool
