import ComputePool.Coordinator.Lease

/-!
# What one expiry sweep does

The sweep visits the jobs in key order and touches each at most once, so its
result is known job by job and worker by worker: a lapsed job is returned to
the pool, its holder's record is charged once for each of its lapsed jobs, and
the groups to be charged are listed in the order of the jobs.
-/

namespace ComputePool
namespace Coordinator

open RustStd

/-- The holder of a lease that has lapsed at `now`. -/
def JobStatus.lapsedHolder? (now : Nat) : JobStatus → Option H160
  | .leased w e _ => if e > now then none else some w
  | _ => none

theorem JobStatus.lapsedHolder?_eq_some {now : Nat} {status : JobStatus} {w : H160} :
    status.lapsedHolder? now = some w ↔ ∃ e d, status = .leased w e d ∧ e ≤ now := by
  cases status with
  | leased w' e d =>
      simp only [lapsedHolder?, JobStatus.leased.injEq]
      split
      · simp
        omega
      · simp
        omega
  | _ => simp [lapsedHolder?]

namespace Sweep

variable {now : Nat} {acc : Sweep} {entry : JobId × JobRecord}

theorem visit_of_none (h : entry.2.status.lapsedHolder? now = none) :
    acc.visit now entry = acc := by
  unfold visit
  unfold JobStatus.lapsedHolder? at h
  split <;> simp_all

theorem visit_of_some {worker : H160}
    (h : entry.2.status.lapsedHolder? now = some worker) :
    acc.visit now entry =
      { state :=
          { acc.state with
            jobs := acc.state.jobs.insert entry.1
              (entry.2.lapse worker (acc.state.lapsedGroup worker) now)
            workers := acc.state.workers.modify worker fun w => w.noshow now
            dirty := true }
        freed := acc.freed ++ [entry.1]
        lapsedGroups := acc.lapsedGroups ++ (acc.state.lapsedGroup worker).toList } := by
  obtain ⟨e, d, hstatus, hle⟩ := JobStatus.lapsedHolder?_eq_some.mp h
  unfold visit
  rw [hstatus]
  simp [Nat.not_lt.mpr hle]

/-- A visit changes what the no-show counters say of the workers, and nothing
else about them. -/
theorem visit_worker (w : H160) :
    (acc.visit now entry).state.workers[w]? =
      (acc.state.workers[w]?).map
        (if entry.2.status.lapsedHolder? now = some w then fun r => r.noshow now else id) := by
  cases h : entry.2.status.lapsedHolder? now with
  | none => simp [visit_of_none h]
  | some worker =>
      rw [visit_of_some h]
      simp only [get_modify, Option.some.injEq]
      split <;> simp

theorem visit_policy : (acc.visit now entry).state.policy = acc.state.policy := by
  cases h : entry.2.status.lapsedHolder? now with
  | none => rw [visit_of_none h]
  | some worker => rw [visit_of_some h]

theorem visit_sources : (acc.visit now entry).state.sources = acc.state.sources := by
  cases h : entry.2.status.lapsedHolder? now with
  | none => rw [visit_of_none h]
  | some worker => rw [visit_of_some h]

theorem visit_penalties : (acc.visit now entry).state.penalties = acc.state.penalties := by
  cases h : entry.2.status.lapsedHolder? now with
  | none => rw [visit_of_none h]
  | some worker => rw [visit_of_some h]

theorem visit_recent :
    (acc.visit now entry).state.recentRegistrations = acc.state.recentRegistrations := by
  cases h : entry.2.status.lapsedHolder? now with
  | none => rw [visit_of_none h]
  | some worker => rw [visit_of_some h]

theorem visit_size : (acc.visit now entry).state.workers.size = acc.state.workers.size := by
  cases h : entry.2.status.lapsedHolder? now with
  | none => rw [visit_of_none h]
  | some worker =>
      rw [visit_of_some h]
      exact Std.ExtTreeMap.size_modify

theorem visit_lapsedGroup (w : H160) :
    (acc.visit now entry).state.lapsedGroup w = acc.state.lapsedGroup w := by
  unfold State.lapsedGroup
  rw [visit_worker, visit_policy]
  cases acc.state.workers[w]? with
  | none => rfl
  | some r => by_cases h : entry.2.status.lapsedHolder? now = some w <;> simp [h, WorkerRecord.noshow]

theorem visit_job (id : JobId) :
    (acc.visit now entry).state.jobs[id]? =
      if entry.1 = id then
        match entry.2.status.lapsedHolder? now with
        | some w => some (entry.2.lapse w (acc.state.lapsedGroup w) now)
        | none => acc.state.jobs[id]?
      else acc.state.jobs[id]? := by
  cases h : entry.2.status.lapsedHolder? now with
  | none => simp [visit_of_none h]
  | some worker => simp [visit_of_some h, get_insert]

variable {entries : List (JobId × JobRecord)}

/-- What the loop leaves of a quantity that no visit changes. -/
private theorem foldl_visit_const {β : Type*} (f : Sweep → β)
    (h : ∀ (acc : Sweep) (entry : JobId × JobRecord), f (acc.visit now entry) = f acc) :
    f (entries.foldl (visit now) acc) = f acc := by
  induction entries generalizing acc with
  | nil => rfl
  | cons entry rest ih => rw [List.foldl_cons, ih, h]

theorem foldl_policy : (entries.foldl (visit now) acc).state.policy = acc.state.policy :=
  foldl_visit_const (fun acc => acc.state.policy) fun _ _ => visit_policy

theorem foldl_sources : (entries.foldl (visit now) acc).state.sources = acc.state.sources :=
  foldl_visit_const (fun acc => acc.state.sources) fun _ _ => visit_sources

theorem foldl_penalties :
    (entries.foldl (visit now) acc).state.penalties = acc.state.penalties :=
  foldl_visit_const (fun acc => acc.state.penalties) fun _ _ => visit_penalties

theorem foldl_recent :
    (entries.foldl (visit now) acc).state.recentRegistrations =
      acc.state.recentRegistrations :=
  foldl_visit_const (fun acc => acc.state.recentRegistrations) fun _ _ => visit_recent

theorem foldl_size :
    (entries.foldl (visit now) acc).state.workers.size = acc.state.workers.size :=
  foldl_visit_const (fun acc => acc.state.workers.size) fun _ _ => visit_size

theorem foldl_worker (w : H160) :
    (entries.foldl (visit now) acc).state.workers[w]? =
      (acc.state.workers[w]?).map (fun r : WorkerRecord => r.noshow now)^[entries.countP
        fun e => decide (e.2.status.lapsedHolder? now = some w)] := by
  induction entries generalizing acc with
  | nil => simp
  | cons entry rest ih =>
      rw [List.foldl_cons, ih, visit_worker, List.countP_cons]
      by_cases h : entry.2.status.lapsedHolder? now = some w
      · simp [h, Function.iterate_succ]
      · simp [h]

theorem foldl_freed :
    (entries.foldl (visit now) acc).freed =
      acc.freed ++ (entries.filter fun e =>
        (e.2.status.lapsedHolder? now).isSome).map Prod.fst := by
  induction entries generalizing acc with
  | nil => simp
  | cons entry rest ih =>
      rw [List.foldl_cons, ih]
      cases h : entry.2.status.lapsedHolder? now with
      | none => simp [visit_of_none h, h]
      | some worker => simp [visit_of_some h, h]

theorem foldl_groups :
    (entries.foldl (visit now) acc).lapsedGroups =
      acc.lapsedGroups ++ entries.filterMap fun e =>
        (e.2.status.lapsedHolder? now).bind acc.state.lapsedGroup := by
  induction entries generalizing acc with
  | nil => simp
  | cons entry rest ih =>
      rw [List.foldl_cons, ih]
      simp only [visit_lapsedGroup]
      cases h : entry.2.status.lapsedHolder? now with
      | none => simp [visit_of_none h, h]
      | some worker =>
          rw [visit_of_some h, List.filterMap_cons]
          cases hg : acc.state.lapsedGroup worker <;> simp [h, hg]

/-- The loop leaves a job it does not visit as it was. -/
theorem foldl_job_of_not_mem {id : JobId} (h : id ∉ entries.map Prod.fst) :
    (entries.foldl (visit now) acc).state.jobs[id]? = acc.state.jobs[id]? := by
  induction entries generalizing acc with
  | nil => rfl
  | cons entry rest ih =>
      simp only [List.map_cons, List.mem_cons, not_or] at h
      rw [List.foldl_cons, ih h.2, visit_job, if_neg (Ne.symm h.1)]

/-- The loop returns a lapsed job to the pool and leaves any other as it was. -/
theorem foldl_job {id : JobId} {r : JobRecord}
    (hnodup : (entries.map Prod.fst).Nodup) (hmem : (id, r) ∈ entries)
    (hcurrent : acc.state.jobs[id]? = some r) :
    (entries.foldl (visit now) acc).state.jobs[id]? =
      some (match r.status.lapsedHolder? now with
        | some w => r.lapse w (acc.state.lapsedGroup w) now
        | none => r) := by
  induction entries generalizing acc with
  | nil => cases hmem
  | cons entry rest ih =>
      rw [List.map_cons, List.nodup_cons] at hnodup
      rw [List.foldl_cons]
      rcases List.mem_cons.mp hmem with rfl | hrest
      · rw [foldl_job_of_not_mem hnodup.1, visit_job, if_pos rfl]
        cases h : r.status.lapsedHolder? now with
        | none => simpa [h] using hcurrent
        | some w => rfl
      · have hne : entry.1 ≠ id := by
          rintro rfl
          exact hnodup.1 (List.mem_map.mpr ⟨_, hrest, rfl⟩)
        have hnext : (acc.visit now entry).state.jobs[id]? = some r := by
          rw [visit_job, if_neg hne, hcurrent]
        rw [ih hnodup.2 hrest hnext]
        simp only [visit_lapsedGroup]

end Sweep

/-! ## The sweep of a state -/

namespace State

variable (s : State) (now : Nat)

/-- What the sweep makes of a job record. -/
def swept (r : JobRecord) : JobRecord :=
  match r.status.lapsedHolder? now with
  | some w => r.lapse w (s.lapsedGroup w) now
  | none => r

/-- Charging groups touches the source table only. -/
theorem foldl_chargeSource (groups : List String) :
    ∃ sources, groups.foldl (fun s g => s.chargeSource g now) s = { s with sources := sources } := by
  induction groups generalizing s with
  | nil => exact ⟨s.sources, rfl⟩
  | cons g rest ih =>
      obtain ⟨sources, h⟩ := ih (s.chargeSource g now)
      exact ⟨sources, h⟩

theorem expireLeases_eq : ∃ sources,
    (s.expireLeases now).1 = { (s.sweepJobs now).state with sources := sources } :=
  foldl_chargeSource _ _ _

theorem expireLeases_jobs : (s.expireLeases now).1.jobs = (s.sweepJobs now).state.jobs := by
  obtain ⟨sources, h⟩ := s.expireLeases_eq now
  rw [h]

theorem expireLeases_job (id : JobId) :
    (s.expireLeases now).1.jobs[id]? = (s.jobs[id]?).map (s.swept now) := by
  rw [expireLeases_jobs, sweepJobs]
  cases h : s.jobs[id]? with
  | none =>
      have hnot : id ∉ s.jobs.toList.map Prod.fst := by
        simp only [List.mem_map, not_exists, not_and]
        rintro ⟨k, r⟩ hmem rfl
        rw [mem_entries, h] at hmem
        cases hmem
      rw [Sweep.foldl_job_of_not_mem hnot, Option.map_none]
      exact h
  | some r =>
      rw [Sweep.foldl_job (entries_keys_nodup s.jobs) (mem_entries.mpr h) h, Option.map_some]
      rfl

/-- The lapsed leases that name `w`. -/
def lapsesOf (w : H160) : Nat :=
  s.jobs.toList.countP fun e => decide (e.2.status.lapsedHolder? now = some w)

theorem expireLeases_worker (w : H160) :
    (s.expireLeases now).1.workers[w]? =
      (s.workers[w]?).map (fun r : WorkerRecord => r.noshow now)^[s.lapsesOf now w] := by
  obtain ⟨sources, h⟩ := s.expireLeases_eq now
  rw [h]
  exact Sweep.foldl_worker w

theorem expireLeases_policy : (s.expireLeases now).1.policy = s.policy := by
  obtain ⟨sources, h⟩ := s.expireLeases_eq now
  rw [h]
  exact Sweep.foldl_policy

theorem expireLeases_size : (s.expireLeases now).1.workers.size = s.workers.size := by
  obtain ⟨sources, h⟩ := s.expireLeases_eq now
  rw [h]
  exact Sweep.foldl_size

theorem expireLeases_penalties : (s.expireLeases now).1.penalties = s.penalties := by
  obtain ⟨sources, h⟩ := s.expireLeases_eq now
  rw [h]
  exact Sweep.foldl_penalties

/-- The jobs a sweep frees are those whose lease has lapsed. -/
theorem mem_expireLeases_freed {id : JobId} :
    id ∈ (s.expireLeases now).2 ↔
      ∃ r w, s.jobs[id]? = some r ∧ r.status.lapsedHolder? now = some w := by
  have hfreed : (s.expireLeases now).2 = (s.jobs.toList.filter fun e =>
      (e.2.status.lapsedHolder? now).isSome).map Prod.fst := Sweep.foldl_freed
  simp only [hfreed, List.mem_map, List.mem_filter, Option.isSome_iff_exists]
  constructor
  · rintro ⟨⟨k, r⟩, ⟨hmem, w, hw⟩, rfl⟩
    exact ⟨r, w, mem_entries.mp hmem, hw⟩
  · rintro ⟨r, w, hget, hw⟩
    exact ⟨(id, r), ⟨mem_entries.mpr hget, w, hw⟩, rfl⟩

theorem sweepJobs_groups :
    (s.sweepJobs now).lapsedGroups = s.jobs.toList.filterMap fun e =>
      (e.2.status.lapsedHolder? now).bind s.lapsedGroup :=
  Sweep.foldl_groups

end State
end Coordinator
end ComputePool
