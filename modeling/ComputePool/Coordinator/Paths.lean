import ComputePool.Coordinator.Refine

/-!
# Each operation is a path of ledger transitions

One theorem for each operation of the coordinator: the transitions it takes,
from the state it finds to the state it leaves.
-/

namespace ComputePool
namespace Coordinator

open RustStd LeaseLedger

namespace State

variable {s s' : State} {now : Nat} {rules : Rules H160 String String}

/-! ## Registration -/

/-- The transitions a registration may take: it evicts the workers it must, and
admits the new one. -/
def RegisterActs (s : State) (w : RegisteredWorker) (source : String) (now : Nat)
    (a : Action JobId H160 String Accepted) : Prop :=
  (∃ v ∈ s.evictions w source now, a = .evict v) ∨ a = .enroll w.id source

/-- Evicting workers that hold no live lease is a path. -/
private theorem foldl_forgetWorker_path {victims : List H160}
    {allowed : Action JobId H160 String Accepted → Prop}
    (h : ∀ v ∈ victims, v ∉ s.leaseholders now ∧ allowed (.evict v)) :
    Path rules now allowed s.ledger
      (victims.foldl (fun s v => s.forgetWorker v now) s).ledger := by
  induction victims generalizing s with
  | nil => exact Path.nil
  | cons v rest ih =>
      obtain ⟨hnot, hallowed⟩ := h v List.mem_cons_self
      refine Path.cons hallowed (forgetWorker_fires hnot) (ih fun v' hv' => ?_)
      rw [forgetWorker_leaseholders]
      exact h v' (List.mem_cons_of_mem _ hv')

/-- Evictions remove records and add none. -/
private theorem foldl_forgetWorker_none {victims : List H160} {id : H160}
    (h : s.workers[id]? = none) :
    (victims.foldl (fun s v => s.forgetWorker v now) s).workers[id]? = none := by
  induction victims generalizing s with
  | nil => exact h
  | cons v rest ih =>
      refine ih ?_
      rw [forgetWorker_worker]
      split
      · rfl
      · exact h

/-- A worker forgotten on the way is gone at the end. -/
private theorem foldl_forgetWorker_gone (now : Nat) {victims : List H160} {v : H160} (h : v ∈ victims) :
    (victims.foldl (fun s v => s.forgetWorker v now) s).workers[v]? = none := by
  induction victims generalizing s with
  | nil => cases h
  | cons first rest ih =>
      rcases List.mem_cons.mp h with rfl | hrest
      · refine foldl_forgetWorker_none (s := s.forgetWorker v now) ?_
        rw [forgetWorker_worker, if_pos rfl]
      · exact ih hrest

/-- An evicted worker is not in the registry the registration leaves. -/
theorem register_evicts {w : RegisteredWorker} {source : String} {v : H160}
    (h : v ∈ s.evictions w source now) : (s.register w source now).1.workers[v]? = none := by
  have hnew := evictions_new h
  have hgone := foldl_forgetWorker_gone (s := s.markDirty) now h
  obtain ⟨hrefused, -⟩ | ⟨hadmitted, -⟩ := register_new source now hnew
  · rw [hrefused]
    exact hgone
  · obtain ⟨r, hr⟩ := evictions_known h
    have hne : w.id ≠ v := by
      rintro rfl
      rw [hnew] at hr
      cases hr
    rw [hadmitted, admitWorker, get_insert, if_neg hne]
    exact hgone

/-- A refresh changes nothing the ledger shows. -/
theorem register_known_ledger {w : RegisteredWorker} {source : String} {e : WorkerRecord}
    (hknown : s.workers[w.id]? = some e) :
    (s.register w source now).1.ledger = s.ledger := by
  simp only [register, hknown]
  exact ledger_congr (fun _ => rfl) (ledger_modify_workers fun _ => rfl)

theorem register_path {w : RegisteredWorker} {source : String} :
    Path rules now (RegisterActs s w source now) s.ledger
      (s.register w source now).1.ledger := by
  cases hknown : s.workers[w.id]? with
  | some e =>
      rw [register_known_ledger hknown]
      exact Path.nil
  | none =>
      have hevict : Path rules now (RegisterActs s w source now) s.ledger
          ((s.evictions w source now).foldl (fun s v => s.forgetWorker v now)
            s.markDirty).ledger := by
        rw [← markDirty_ledger]
        exact foldl_forgetWorker_path fun v hv =>
          ⟨(evictions_not_holder hv).1, .inl ⟨v, hv, rfl⟩⟩
      obtain ⟨hrefused, -⟩ | ⟨hadmitted, -⟩ := register_new source now hknown
      · rw [hrefused]
        exact hevict
      · rw [hadmitted]
        exact hevict.trans (Path.single (.inr rfl)
          (admitWorker_fires (foldl_forgetWorker_none hknown)))

/-! ## The sweep and the lease -/

theorem phase_swept (now : Nat) (r : JobRecord) :
    (s.swept now r).phase = r.phase ∨
      ∃ w e d, r.status = .leased w e d ∧ e ≤ now ∧ (s.swept now r).phase = .free := by
  unfold swept
  cases h : r.status.lapsedHolder? now with
  | none => exact .inl rfl
  | some w =>
      obtain ⟨e, d, hstatus, hle⟩ := JobStatus.lapsedHolder?_eq_some.mp h
      exact .inr ⟨w, e, d, hstatus, hle, rfl⟩

theorem iterate_noshow_source (r : WorkerRecord) (n : Nat) :
    ((fun r : WorkerRecord => r.noshow now)^[n] r).source = r.source := by
  induction n generalizing r with
  | zero => rfl
  | succ n ih =>
      rw [Function.iterate_succ_apply, ih]
      rfl

theorem expireLeases_roster (now : Nat) : (s.expireLeases now).1.ledger.roster = s.ledger.roster := by
  funext w
  simp only [ledger, expireLeases_worker, Option.map_map]
  exact congrArg (fun g => Option.map g (s.workers[w]?))
    (funext fun r => iterate_noshow_source r _)

/-- The phase of a job that the map does not hold is absent, whatever is done
to the records of the map. -/
private theorem phase_of_not_mem {id : JobId} (h : id ∉ s.jobs.toList.map Prod.fst) :
    s.jobs[id]? = none := by
  cases hget : s.jobs[id]? with
  | none => rfl
  | some r => exact absurd (mem_entry_keys.mpr ⟨r, hget⟩) h

theorem expireLeases_path (rules : Rules H160 String String) (now : Nat) :
    Path rules now (fun a => ∃ id, a = .lapse id) s.ledger (s.expireLeases now).1.ledger := by
  refine Path.of_jobwise (s.jobs.toList.map Prod.fst) (expireLeases_roster now) ?_ ?_
  · intro id hid
    simp [ledger, expireLeases_job, phase_of_not_mem hid]
  · intro id hid
    obtain ⟨r, hget⟩ := mem_entry_keys.mp hid
    obtain hsame | ⟨w, e, d, hstatus, hle, hfree⟩ := phase_swept (s := s) now r
    · left
      simp [ledger, expireLeases_job, hget, hsame]
    · right
      refine ⟨⟨w, e, hardDeadline e d⟩, held_of_status hget hstatus, .inl ⟨hle, ⟨id, rfl⟩, ?_⟩⟩
      simp [ledger, expireLeases_job, hget, hfree]

theorem heldBy_eq_zero {w : H160} (h : s.heldBy w = 0) {id : JobId} {lease : Lease H160}
    (hheld : s.ledger.Held id lease) : lease.holder ≠ w := by
  rintro rfl
  obtain ⟨r, d, hget, hstatus, -⟩ := held_iff.mp hheld
  have := List.countP_eq_zero.mp h (id, r) (mem_entries.mpr hget)
  simp [hstatus, JobStatus.holder?] at this

theorem unvouchedOf_iff {group : String} {h : H160} :
    s.unvouchedOf group h = true ↔
      h ∉ s.policy.trustedH01 ∧
        ∃ source, s.ledger.roster h = some source ∧ sourceGroup source = group := by
  unfold unvouchedOf Policy.isTrusted
  cases hget : s.workers[h]? with
  | none => simp [ledger, hget]
  | some w => simp [ledger, hget]

/-- The ledger counts no more jobs against a group than the coordinator does. -/
theorem groupJobs_le_heldByGroup (group : String) :
    (s.ledger.groupJobs s.policy.rules now group).encard ≤ s.heldByGroup group := by
  have hcount : s.heldByGroup group =
      (keysWhere s.jobs fun _ r => r.status.holder?.any (s.unvouchedOf group)).card := by
    rw [heldByGroup, ← countP_entries]
    refine List.countP_congr fun e _ => ?_
    cases e.2.status.holder? <;> rfl
  rw [hcount, ← Set.encard_coe_eq_coe_finsetCard]
  refine Set.encard_le_encard ?_
  rintro id ⟨lease, hheld, -, hun, hgroup⟩
  obtain ⟨r, d, hget, hstatus, -⟩ := held_iff.mp hheld
  rw [Finset.mem_coe, mem_keysWhere]
  refine ⟨r, hget, ?_⟩
  simp only [hstatus, JobStatus.holder?]
  exact unvouchedOf_iff.mpr ⟨hun, hgroup⟩

/-- What not being refused a lease says. -/
theorem leaseRefusal_eq_none {w : H160} {group : String}
    (h : s.leaseRefusal w group now = none) :
    s.heldBy w = 0 ∧
      (w ∉ s.policy.trustedH01 → s.heldByGroup group < s.policy.maxLeasesPerSource) := by
  unfold leaseRefusal at h
  dsimp only at h
  split at h
  · cases h
  split at h
  · cases h
  rename_i hheld
  refine ⟨Nat.lt_one_iff.mp (not_le.mp hheld), fun hun => ?_⟩
  split at h
  · rename_i htrusted
    exact absurd (of_decide_eq_true htrusted) hun
  split at h
  · cases h
  split at h
  · cases h
  rename_i hcap
  exact not_le.mp hcap

/-- The job that is picked is pending, and stored under the id it was picked by. -/
theorem pick_spec {env : Env} {w : H160} {group : String} {claimed : Capability}
    {id : JobId} (hkeyed : s.WellKeyed) (h : s.pick env w group claimed now = some id) :
    ∃ r, s.jobs[id]? = some r ∧ r.status = .pending := by
  obtain ⟨r, hbest, rfl⟩ := Option.map_eq_some_iff.mp h
  have hmem := maxBy_mem hbest
  simp only [List.mem_filter, List.mem_map, Prod.exists, exists_eq_right] at hmem
  obtain ⟨⟨k, hk⟩, hoffered⟩ := hmem
  have hget := mem_entries.mp hk
  have hid := hkeyed k r hget
  refine ⟨r, hid ▸ hget, ?_⟩
  simp only [offered, Bool.and_eq_true, decide_eq_true_eq] at hoffered
  exact hoffered.1.1.1.1.1

theorem engage_jobs (w : H160) : (s.engage w now).jobs = s.jobs := rfl

/-- What the state is when a job is chosen: polled and swept. -/
def beforePick (s : State) (w : H160) (now : Nat) : State :=
  ((s.engage w now).expireLeases now).1

theorem beforePick_policy (w : H160) (now : Nat) : (s.beforePick w now).policy = s.policy :=
  expireLeases_policy ..

theorem swept_spec (r : JobRecord) : (s.swept now r).spec = r.spec := by
  unfold swept
  split <;> rfl

theorem WellKeyed.expireLeases (h : s.WellKeyed) : (s.expireLeases now).1.WellKeyed := by
  intro id r' hget
  rw [expireLeases_job, Option.map_eq_some_iff] at hget
  obtain ⟨r, hr, rfl⟩ := hget
  rw [swept_spec]
  exact h id r hr

theorem WellKeyed.beforePick (h : s.WellKeyed) (w : H160) : (s.beforePick w now).WellKeyed :=
  WellKeyed.expireLeases (s := s.engage w now) h

/-- A lease request either leaves the polled and swept state (or, for an
unknown worker, the state it found), or grants one pending job of it. -/
theorem lease_cases (env : Env) (w : H160) (now : Nat) :
    (s.workers[w]? = none ∧ (s.lease env w now).1 = s) ∨
      ∃ rec_, s.workers[w]? = some rec_ ∧
        ((s.lease env w now).1 = s.beforePick w now ∨
          ∃ id r, (s.beforePick w now).leaseRefusal w (sourceGroup rec_.source) now = none ∧
            (s.beforePick w now).pick env w (sourceGroup rec_.source) rec_.capability now =
              some id ∧
            (s.beforePick w now).jobs[id]? = some r ∧
            (s.lease env w now).1 =
              { s.beforePick w now with
                jobs := (s.beforePick w now).jobs.insert id
                  (r.grant w (s.beforePick w now).policy.leaseWindowSecs now)
                dirty := true }) := by
  unfold lease
  cases hknown : s.workers[w]? with
  | none => exact .inl ⟨rfl, rfl⟩
  | some rec_ =>
      refine .inr ⟨rec_, rfl, ?_⟩
      simp only [beforePick]
      split
      · exact .inl rfl
      · rename_i hallowed
        split
        · exact .inl rfl
        · rename_i id hpick
          split
          · exact .inl rfl
          · rename_i r hget
            exact .inr ⟨id, r, hallowed, hpick, hget, rfl⟩

theorem beforePick_source {w : H160} {rec_ : WorkerRecord} (h : s.workers[w]? = some rec_) :
    (s.beforePick w now).ledger.roster w = some rec_.source := by
  have hroster := expireLeases_roster (s := s.engage w now) now
  rw [engage_ledger] at hroster
  rw [beforePick, hroster]
  simp [ledger, h]

theorem beforePick_path (w : H160) :
    Path rules now (fun a => ∃ id, a = .lapse id) s.ledger (s.beforePick w now).ledger := by
  have hpath := expireLeases_path (s := s.engage w now) rules now
  rwa [engage_ledger] at hpath

/-- The transitions a lease request may take. -/
def LeaseActs (w : H160) (a : Action JobId H160 String Accepted) : Prop :=
  (∃ id, a = .lapse id) ∨ ∃ id lease, a = .grant id lease ∧ lease.holder = w

theorem le_hardDeadline {a b : Nat} (h : a ≤ b) : a ≤ hardDeadline a b := by
  unfold hardDeadline
  split <;> omega

/-- The lease that `JobRecord.grant` records. -/
def grantedLease (r : JobRecord) (w : H160) (window now : Nat) : Lease H160 where
  holder := w
  expires := satAdd now (min r.spec.leaseSecs window)
  hard := hardDeadline (satAdd now (min r.spec.leaseSecs window)) (satAdd now r.spec.leaseSecs)

theorem lease_path {env : Env} {w : H160} (hkeyed : s.WellKeyed) :
    Path s.policy.rules now (LeaseActs w) s.ledger (s.lease env w now).1.ledger := by
  obtain ⟨-, hsame⟩ | ⟨rec_, hknown, hpolled | ⟨id, r, hallowed, hpick, hget, hgrant⟩⟩ :=
    lease_cases (s := s) env w now
  · rw [hsame]
    exact Path.nil
  · rw [hpolled]
    exact (beforePick_path w).mono fun _ h => .inl h
  · rw [hgrant, ledger_insert_job]
    obtain ⟨hheld, hcap⟩ := leaseRefusal_eq_none hallowed
    obtain ⟨r', hr', hpending⟩ := pick_spec (hkeyed.beforePick w) hpick
    obtain rfl : r' = r := Option.some.inj (hr'.symm.trans hget)
    let lease := grantedLease r' w (s.beforePick w now).policy.leaseWindowSecs now
    have hallowed : LeaseActs w (.grant id lease) := .inr ⟨id, lease, rfl, rfl⟩
    refine ((beforePick_path w).mono fun _ h => .inl h).trans (Path.single hallowed
      ⟨?_, fun other _ hother => heldBy_eq_zero hheld hother,
        le_hardDeadline (satAdd_mono_right now (Nat.min_le_left _ _)),
        ⟨rec_.source, beforePick_source hknown, fun hun => ?_⟩, rfl⟩)
    · simp [ledger, hr', JobRecord.phase, hpending]
    · rw [← beforePick_policy (s := s) w now] at hun ⊢
      refine lt_of_le_of_lt (groupJobs_le_heldByGroup _) ?_
      exact Nat.cast_lt.mpr (hcap hun)

/-! ## Heartbeats and submissions -/

theorem revokeLease_path {job : JobId} {r : JobRecord} {w : H160} {e d : Nat}
    {allowed : Action JobId H160 String Accepted → Prop}
    (hget : s.jobs[job]? = some r) (hstatus : r.status = .leased w e d)
    (hallowed : allowed (.revoke job)) :
    Path rules now allowed s.ledger (s.revokeLease job).ledger := by
  refine Path.single hallowed ⟨⟨_, held_of_status hget hstatus⟩, ?_⟩
  simp only [revokeLease, hget]
  exact ledger_modify_job hget

/-- What a heartbeat does: nothing, a revocation the policy asks for, or an
extension of the live lease its sender holds. -/
theorem renew_cases (w : H160) (job : JobId) (now : Nat) :
    (s.renew w job now).1 = s ∨
      ∃ r e d, s.jobs[job]? = some r ∧ r.status = .leased w e d ∧ now < e ∧
        ((s.policy.tierAllowed w r.spec.requires = false ∧
            (s.renew w job now).1 = s.revokeLease job) ∨
          ∃ dirty, (s.renew w job now).1 =
            engage { s with
              jobs := s.jobs.modify job fun r =>
                { r with
                  status := .leased w
                    (max (min (satAdd now s.policy.leaseWindowSecs) (hardDeadline e d)) e)
                    (hardDeadline e d) }
              dirty := dirty } w now) := by
  unfold renew
  split
  · exact .inl rfl
  · rename_i r hget
    split
    · rename_i holder e d hstatus
      split
      · exact .inl rfl
      · rename_i hholder
        split
        · exact .inl rfl
        · rename_i hlive
          obtain rfl := not_not.mp hholder
          refine .inr ⟨r, e, d, hget, hstatus, not_le.mp hlive, ?_⟩
          split
          · rename_i htier
            exact .inl ⟨by simpa using htier, rfl⟩
          · exact .inr ⟨_, rfl⟩
    · exact .inl rfl

/-- The transitions a heartbeat may take. -/
def RenewActs (job : JobId) (a : Action JobId H160 String Accepted) : Prop :=
  a = .revoke job ∨ ∃ expires, a = .extend job expires

/-- A lease extended up to its limit keeps the limit. -/
theorem hardDeadline_extend {e d e' : Nat} (h : 0 < hardDeadline e d) :
    hardDeadline e' (hardDeadline e d) = hardDeadline e d := by
  rw [hardDeadline, if_neg (Nat.pos_iff_ne_zero.mp h)]

theorem hardDeadline_pos {e d : Nat} (h : now < e) : 0 < hardDeadline e d := by
  unfold hardDeadline
  split <;> omega

theorem renew_path {w : H160} {job : JobId} :
    Path rules now (RenewActs job) s.ledger (s.renew w job now).1.ledger := by
  obtain hsame | ⟨r, e, d, hget, hstatus, hlive, ⟨-, hrevoked⟩ | ⟨dirty, hextended⟩⟩ :=
    renew_cases (s := s) w job now
  · rw [hsame]
    exact Path.nil
  · rw [hrevoked]
    exact revokeLease_path hget hstatus (.inl rfl)
  · rw [hextended, engage_ledger, ledger_modify_job hget]
    refine Path.single (.inr ⟨max (min (satAdd now s.policy.leaseWindowSecs)
      (hardDeadline e d)) e, rfl⟩) ⟨_, held_of_status hget hstatus, le_max_right _ _, ?_, ?_⟩
    · exact max_le (le_max_of_le_right (min_le_right _ _)) (le_max_left _ _)
    · simp only [JobRecord.phase, hardDeadline_extend (hardDeadline_pos hlive)]

/-- What a submission does: nothing, a revocation the policy asks for, or the
acceptance of the result from the holder of the live lease. -/
theorem submit_cases (w : H160) (job : JobId) (result : String) (now : Nat) :
    (s.submit w job result now).1 = s ∨
      ∃ r e d, s.jobs[job]? = some r ∧ r.status = .leased w e d ∧ now < e ∧
        ((s.policy.tierAllowed w r.spec.requires = false ∧
            (s.submit w job result now).1 = s.revokeLease job) ∨
          (s.policy.tierAllowed w r.spec.requires = true ∧
            (s.submit w job result now).1 =
              credit { s with
                jobs := s.jobs.modify job fun r =>
                  { r with status := .done w now, result := some result }
                dirty := true } w (s.policy.isTrusted w) now)) := by
  unfold submit
  split
  · exact .inl rfl
  · rename_i r hget
    split
    · rename_i holder e d hstatus
      split
      · rename_i hrevoked
        obtain ⟨rfl, hlive, htier⟩ := hrevoked
        exact .inr ⟨r, e, d, hget, hstatus, hlive, .inl ⟨by simpa using htier, rfl⟩⟩
      · rename_i hnot
        split
        · exact .inl rfl
        · rename_i hholder
          split
          · exact .inl rfl
          · rename_i hlive
            obtain rfl := not_not.mp hholder
            refine .inr ⟨r, e, d, hget, hstatus, not_le.mp hlive, .inr ⟨?_, rfl⟩⟩
            by_contra htier
            exact hnot ⟨rfl, not_le.mp hlive, htier⟩
    · exact .inl rfl

/-- The transitions a submission may take: the result is accepted only from a
worker whose tier the policy allows. -/
def SubmitActs (s : State) (w : H160) (job : JobId) (result : String) (now : Nat)
    (a : Action JobId H160 String Accepted) : Prop :=
  a = .revoke job ∨
    (a = .finish job w (w, now, some result) ∧
      ∃ r, s.jobs[job]? = some r ∧ s.policy.tierAllowed w r.spec.requires = true)

theorem credit_ledger {w : H160} {trusted : Bool} :
    (s.credit w trusted now).ledger = s.ledger :=
  ledger_congr (fun _ => rfl) (ledger_modify_workers fun _ => rfl)

theorem submit_path {w : H160} {job : JobId} {result : String} :
    Path rules now (SubmitActs s w job result now) s.ledger
      (s.submit w job result now).1.ledger := by
  obtain hsame | ⟨r, e, d, hget, hstatus, hlive, ⟨-, hrevoked⟩ | ⟨htier, hdone⟩⟩ :=
    submit_cases (s := s) w job result now
  · rw [hsame]
    exact Path.nil
  · rw [hrevoked]
    exact revokeLease_path hget hstatus (.inl rfl)
  · rw [hdone, credit_ledger, ledger_modify_job hget]
    exact Path.single (.inr ⟨rfl, r, hget, htier⟩)
      ⟨_, held_of_status hget hstatus, rfl, hlive, rfl⟩

/-! ## Restarts -/

theorem revokeLease_job (job id : JobId) :
    (s.revokeLease job).jobs[id]? =
      if job = id then (s.jobs[id]?).map fun r => { r with status := .pending }
      else s.jobs[id]? := by
  unfold revokeLease
  split
  · rename_i hnone
    split
    · rename_i h
      subst h
      rw [hnone, Option.map_none]
    · rfl
  · exact get_modify

theorem revokeLease_workers (job : JobId) : (s.revokeLease job).workers = s.workers := by
  unfold revokeLease
  split <;> rfl

theorem revokeLease_policy (job : JobId) : (s.revokeLease job).policy = s.policy := by
  unfold revokeLease
  split <;> rfl

/-- What only touches the jobs leaves the workers and the policy alone. -/
theorem foldl_revokeLease_frame (ids : List JobId) :
    (ids.foldl revokeLease s).workers = s.workers ∧
      (ids.foldl revokeLease s).policy = s.policy := by
  induction ids generalizing s with
  | nil => exact ⟨rfl, rfl⟩
  | cons id rest ih =>
      obtain ⟨hworkers, hpolicy⟩ := ih (s := s.revokeLease id)
      exact ⟨hworkers.trans (revokeLease_workers id), hpolicy.trans (revokeLease_policy id)⟩

theorem foldl_revokeLease_job (ids : List JobId) (id : JobId) :
    (ids.foldl revokeLease s).jobs[id]? =
      if id ∈ ids then (s.jobs[id]?).map fun r => { r with status := .pending }
      else s.jobs[id]? := by
  induction ids generalizing s with
  | nil => rfl
  | cons first rest ih =>
      rw [List.foldl_cons, ih, revokeLease_job]
      by_cases hfirst : first = id
      · subst hfirst
        by_cases hrest : first ∈ rest <;> simp [hrest, Function.comp_def]
      · simp [hfirst, Ne.symm hfirst]

theorem mem_outOfPolicy {id : JobId} :
    id ∈ s.outOfPolicy ↔ ∃ r w e d, s.jobs[id]? = some r ∧ r.status = .leased w e d ∧
      s.policy.tierAllowed w r.spec.requires = false := by
  simp only [outOfPolicy, List.mem_map, List.mem_filter]
  constructor
  · rintro ⟨⟨k, r⟩, ⟨hmem, htier⟩, rfl⟩
    cases hstatus : r.status with
    | leased w e d =>
        simp only [hstatus, Bool.not_eq_true'] at htier
        exact ⟨r, w, e, d, mem_entries.mp hmem, hstatus, htier⟩
    | _ => simp [hstatus] at htier
  · rintro ⟨r, w, e, d, hget, hstatus, htier⟩
    exact ⟨(id, r), ⟨mem_entries.mpr hget, by simp [hstatus, htier]⟩, rfl⟩

theorem revokeOutOfPolicy_path :
    Path rules now (fun a => ∃ id, a = .revoke id) s.ledger s.revokeOutOfPolicy.1.ledger := by
  refine Path.of_jobwise s.outOfPolicy ?_ ?_ ?_
  · funext w
    simp [ledger, revokeOutOfPolicy, (foldl_revokeLease_frame s.outOfPolicy).1]
  · intro id hid
    simp [ledger, revokeOutOfPolicy, foldl_revokeLease_job, hid]
  · intro id hid
    obtain ⟨r, w, e, d, hget, hstatus, -⟩ := mem_outOfPolicy.mp hid
    refine .inr ⟨_, held_of_status hget hstatus, .inr (.inl ⟨⟨id, rfl⟩, ?_⟩)⟩
    simp [ledger, revokeOutOfPolicy, foldl_revokeLease_job, hid, hget, JobRecord.phase]

theorem graceLiveLeases_job (id : JobId) :
    (s.graceLiveLeases now).jobs[id]? = (s.jobs[id]?).map fun r =>
      { r with status := r.status.grace s.policy.leaseWindowSecs now } :=
  get_map

/-- A lease is left alone by the restart or extended, up to its limit. -/
theorem grace_leased (now window : Nat) (w : H160) (e d : Nat) :
    (JobStatus.leased w e d).grace window now = .leased w e d ∨
      ∃ e', e ≤ e' ∧ e' ≤ max e (hardDeadline e d) ∧ 0 < hardDeadline e d ∧
        (JobStatus.leased w e d).grace window now = .leased w e' (hardDeadline e d) := by
  simp only [JobStatus.grace]
  split
  · rename_i hlive
    split
    · exact .inr ⟨_, le_max_right _ _,
        max_le (le_max_of_le_right (min_le_right _ _)) (le_max_left _ _), by omega, rfl⟩
    · exact .inl rfl
  · exact .inl rfl

theorem graceLiveLeases_path :
    Path rules now (fun a => ∃ id expires, a = .extend id expires) s.ledger
      (s.graceLiveLeases now).ledger := by
  refine Path.of_jobwise (s.jobs.toList.map Prod.fst) rfl ?_ ?_
  · intro id hid
    simp [ledger, graceLiveLeases_job, phase_of_not_mem hid]
  · intro id hid
    obtain ⟨r, hget⟩ := mem_entry_keys.mp hid
    cases hstatus : r.status with
    | leased w e d =>
        obtain hsame | ⟨e', hle, hmax, hpos, hgrace⟩ :=
          grace_leased now s.policy.leaseWindowSecs w e d
        · left
          simp [ledger, graceLiveLeases_job, hget, JobRecord.phase, hstatus, hsame]
        · refine .inr ⟨_, held_of_status hget hstatus,
            .inr (.inr ⟨e', ⟨id, e', rfl⟩, hle, hmax, ?_⟩)⟩
          simp [ledger, graceLiveLeases_job, hget, JobRecord.phase, hstatus, hgrace,
            hardDeadline_extend hpos]
    | _ =>
        left
        simp [ledger, graceLiveLeases_job, hget, JobRecord.phase, hstatus, JobStatus.grace]

/-- The transitions a restart may take. -/
def RestartActs (a : Action JobId H160 String Accepted) : Prop :=
  (∃ id, a = .revoke id) ∨ ∃ id expires, a = .extend id expires

theorem restart_path {policy : Policy} :
    Path rules now RestartActs s.ledger (s.restart policy now).ledger := by
  let opened : State := { s.reload with policy := policy }
  have hopened : opened.ledger = s.ledger := reload_ledger
  have hrevoke : Path rules now RestartActs opened.ledger opened.revokeOutOfPolicy.1.ledger :=
    revokeOutOfPolicy_path.mono fun _ h => .inl h
  have hgrace : Path rules now RestartActs opened.revokeOutOfPolicy.1.ledger
      (opened.revokeOutOfPolicy.1.graceLiveLeases now).ledger :=
    graceLiveLeases_path.mono fun _ h => .inr h
  rw [← hopened]
  change Path rules now RestartActs opened.ledger
    (opened.revokeOutOfPolicy.1.graceLiveLeases now).takeDirty.1.ledger
  rw [takeDirty_ledger]
  exact hrevoke.trans hgrace

end State
end Coordinator
end ComputePool
