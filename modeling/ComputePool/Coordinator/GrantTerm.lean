import ComputePool.Coordinator.Durable
import ComputePool.Coordinator.LeaseSelection

/-!
# The term of a grant

A lease may be extended by heartbeats, and a restart gives it a fresh window, but
never past the end of the term it was granted for.  The runs here let the save of a
request fail.  A request never sets the expiry back.  A restart may: it reopens the
file, which trails the memory by the heartbeats that were not saved.
-/

namespace ComputePool
namespace Coordinator

open RustStd LeaseLedger

/-! ## A node whose saves may fail -/

/-- What happens to a node: a request, with whether the store takes its save, or a
restart. -/
inductive StoreEvent where
  | mutate (m : Mutation) (saved : Bool)
  | crash (policy : Policy) (now : Nat)

/-- `Coordinator::mutate`.  A save that fails is left for the next request. -/
def Node.attempt (env : Env) (n : Node) (m : Mutation) (saved : Bool) : Node :=
  let c := (n.service.perform env m).1
  { service := c.persist saved
    disk := if c.state.dirty && saved then c.state.takeDirty.1 else n.disk }

/-- The node as a machine over requests, saved or not, and restarts. -/
def storeMachine (env : Env) : Machine Node StoreEvent where
  step n e :=
    match e with
    | .mutate m saved => n.attempt env m saved
    | .crash policy now => n.crash policy now

/-- The clock reading a request is handled at. -/
def Mutation.clock? : Mutation → Option Nat
  | .request _ now _ => some now
  | .submit _ _ _ now => some now
  | .addJob _ => none

def StoreEvent.clock? : StoreEvent → Option Nat
  | .mutate m _ => m.clock?
  | .crash _ now => some now

/-! ## What a request does to a lease that stays with its holder -/

namespace State

variable {s : State} {env : Env} {now : Nat} {id : JobId} {r r' : JobRecord} {w : H160}
  {x d x' d' : Nat}

/-- The lease is as it was, or it was renewed at `now`. -/
def LeaseKept (s : State) (now : Nat) (r r' : JobRecord) : Prop :=
  r'.status = r.status ∨
    ∃ w x d, r.status = .leased w x d ∧
      r'.status = .leased w (max (min (satAdd now s.policy.leaseWindowSecs) (hardDeadline x d)) x)
        (hardDeadline x d)

theorem kept_of_jobs_eq {s' : State} (hjobs : s'.jobs = s.jobs) (hget : s.jobs[id]? = some r)
    (hget' : s'.jobs[id]? = some r') : s.LeaseKept now r r' := by
  rw [hjobs, hget] at hget'
  cases hget'
  exact .inl rfl

theorem addJob_leased (spec : JobSpec) (hget : s.jobs[id]? = some r)
    (hget' : (s.addJob spec).jobs[id]? = some r') (hstatus' : r'.status = .leased w x' d') :
    r' = r := by
  unfold addJob at hget'
  rw [get_insert] at hget'
  split at hget'
  · cases hget'
    cases hstatus'
  · rw [hget] at hget'
    exact (Option.some.inj hget').symm

theorem kept_revokeLease (job : JobId) (hget : s.jobs[id]? = some r)
    (hget' : (s.revokeLease job).jobs[id]? = some r') (hstatus' : r'.status = .leased w x' d') :
    s.LeaseKept now r r' := by
  rw [revokeLease_job, hget] at hget'
  split at hget'
  · cases hget'
    cases hstatus'
  · cases hget'
    exact .inl rfl

/-- A job that lapses is barred to its holder. -/
theorem kept_beforePick (h : H160) (hget : s.jobs[id]? = some r)
    (hstatus : r.status = .leased w x d) (hget' : (s.beforePick h now).jobs[id]? = some r') :
    r' = r ∨ r'.status = .pending ∧ w ∈ r'.failedBy := by
  rw [beforePick_job, expireLeases_job, hget] at hget'
  cases hget'
  unfold swept
  cases hlapsed : r.status.lapsedHolder? now with
  | none => exact .inl rfl
  | some holder =>
      have ⟨x₀, d₀, hleased, _⟩ := JobStatus.lapsedHolder?_eq_some.mp hlapsed
      rw [hstatus] at hleased
      cases hleased
      exact .inr ⟨rfl, Finset.mem_insert_self _ _⟩

theorem kept_lease (h : H160) (hkeyed : s.WellKeyed) (hget : s.jobs[id]? = some r)
    (hstatus : r.status = .leased w x d) (hget' : (s.lease env h now).1.jobs[id]? = some r')
    (hstatus' : r'.status = .leased w x' d') : s.LeaseKept now r r' := by
  have hswept : (s.beforePick h now).jobs[id]? = some r' → s.LeaseKept now r r' := by
    intro hget'
    rcases kept_beforePick h hget hstatus hget' with rfl | ⟨hpending, _⟩
    · exact .inl rfl
    · rw [hstatus'] at hpending
      cases hpending
  have hanswer := lease_answers env h now hkeyed
  generalize s.lease env h now = out at hanswer hget'
  cases hanswer with
  | unknown _ => exact kept_of_jobs_eq rfl hget hget'
  | refused _ _ => exact hswept hget'
  | nothing _ _ _ => exact hswept hget'
  | @granted _ job r₀ _ _ hget₀ heligible _ =>
      change ((s.beforePick h now).jobs.insert job _)[id]? = some r' at hget'
      rw [get_insert] at hget'
      split at hget'
      · -- The job that is granted was pending, so the old lease had lapsed.
        rename_i hsame
        subst hsame
        cases hget'
        cases hstatus'
        rcases kept_beforePick w hget hstatus hget₀ with rfl | ⟨_, hfailed⟩
        · have hpending := heligible.pending
          rw [hstatus] at hpending
          cases hpending
        · exact absurd hfailed heligible.not_failed
      · exact hswept hget'

theorem kept_renew (h : H160) (job : JobId) (hget : s.jobs[id]? = some r)
    (hget' : (s.renew h job now).1.jobs[id]? = some r') (hstatus' : r'.status = .leased w x' d') :
    s.LeaseKept now r r' := by
  rcases renew_cases (s := s) h job now with hsame | ⟨r₀, e, d, hget₀, hleased, _, hout⟩
  · exact kept_of_jobs_eq (congrArg State.jobs hsame) hget hget'
  · rcases hout with ⟨_, hrevoked⟩ | ⟨dirty, hrenewed⟩
    · rw [hrevoked] at hget'
      exact kept_revokeLease job hget hget' hstatus'
    · rw [hrenewed, engage_jobs] at hget'
      change (s.jobs.modify job _)[id]? = some r' at hget'
      rw [get_modify] at hget'
      split at hget'
      · rename_i hsame
        subst hsame
        rw [hget] at hget' hget₀
        cases hget₀
        cases hget'
        exact .inr ⟨h, e, d, hleased, rfl⟩
      · rw [hget] at hget'
        cases hget'
        exact .inl rfl

theorem kept_submit (h : H160) (job : JobId) (result : String) (hget : s.jobs[id]? = some r)
    (hget' : (s.submit h job result now).1.jobs[id]? = some r')
    (hstatus' : r'.status = .leased w x' d') : s.LeaseKept now r r' := by
  rcases submit_cases (s := s) h job result now with hsame | ⟨r₀, e, d, _, _, _, hout⟩
  · exact kept_of_jobs_eq (congrArg State.jobs hsame) hget hget'
  · rcases hout with ⟨_, hrevoked⟩ | ⟨_, hdone⟩
    · rw [hrevoked] at hget'
      exact kept_revokeLease job hget hget' hstatus'
    · rw [hdone] at hget'
      change (s.jobs.modify job _)[id]? = some r' at hget'
      rw [get_modify] at hget'
      split at hget'
      · rw [hget] at hget'
        cases hget'
        cases hstatus'
      · rw [hget] at hget'
        cases hget'
        exact .inl rfl

/-- Of a lease that is kept the limit stays, and the expiry only moves on, not past the
limit nor past a window from now. -/
theorem LeaseKept.lease (h : s.LeaseKept now r r') (hstatus : r.status = .leased w x d)
    (hstatus' : r'.status = .leased w x' d') (hlimit : x ≤ hardDeadline x d) :
    hardDeadline x' d' = hardDeadline x d ∧ x ≤ x' ∧ x' ≤ hardDeadline x d ∧
      x' ≤ max x (satAdd now s.policy.leaseWindowSecs) := by
  rcases h with hsame | ⟨w₀, x₀, d₀, hleased, hrenewed⟩
  · rw [hstatus, hstatus'] at hsame
    cases hsame
    exact ⟨rfl, le_rfl, hlimit, le_max_left _ _⟩
  · rw [hstatus] at hleased
    cases hleased
    rw [hstatus'] at hrenewed
    cases hrenewed
    have hle : max (min (satAdd now s.policy.leaseWindowSecs) (hardDeadline x d)) x ≤
        hardDeadline x d := max_le (min_le_right _ _) hlimit
    refine ⟨hardDeadline_again hle, le_max_right _ _, hle, ?_⟩
    exact max_le (le_max_of_le_right (min_le_left _ _)) (le_max_left _ _)

end State

namespace Service

variable {env : Env} {c : Service} {id : JobId} {r r' : JobRecord} {w : H160}
  {x d x' d' : Nat}

/-- What a request does to a lease that stays with its holder. -/
theorem kept_perform (m : Mutation) (hkeyed : c.state.WellKeyed)
    (hget : c.state.jobs[id]? = some r) (hstatus : r.status = .leased w x d)
    (hget' : (c.perform env m).1.state.jobs[id]? = some r')
    (hstatus' : r'.status = .leased w x' d') :
    r'.status = r.status ∨ ∃ now, m.clock? = some now ∧ c.state.LeaseKept now r r' := by
  have hsame : (c.perform env m).1.state.jobs = c.state.jobs → r'.status = r.status := by
    intro hjobs
    rw [hjobs, hget] at hget'
    cases hget'
    rfl
  cases m with
  | request request now nowNanos =>
      cases request with
      | lease who ts =>
          rw [perform_lease] at hget' hsame
          rcases signed_state (c := c) who ts nowNanos fun s => (s.lease env who now).1 with h | h
          · exact .inl (hsame (congrArg State.jobs h))
          · rw [h] at hget'
            exact .inr ⟨now, rfl, State.kept_lease who hkeyed hget hstatus hget' hstatus'⟩
      | heartbeat who ts job =>
          rw [perform_heartbeat] at hget' hsame
          rcases signed_state (c := c) who ts nowNanos fun s => (s.renew who job now).1 with h | h
          · exact .inl (hsame (congrArg State.jobs h))
          · rw [h] at hget'
            exact .inr ⟨now, rfl, State.kept_renew who job hget hget' hstatus'⟩
      | register worker source ts =>
          rw [perform_register] at hget' hsame
          rcases registerInner_state (c := c) worker source ts now nowNanos with
            ⟨_, h | ⟨_, h⟩⟩ | ⟨_, _, _, h⟩
          · exact .inl (hsame (congrArg State.jobs h))
          · exact .inl (hsame ((congrArg State.jobs h).trans State.register_jobs))
          · exact .inl (hsame ((congrArg State.jobs h).trans State.register_jobs))
  | submit who job result now =>
      rw [perform_submit] at hget'
      exact .inr ⟨now, rfl, State.kept_submit who job result hget hget' hstatus'⟩
  | addJob spec =>
      exact .inl (congrArg JobRecord.status (State.addJob_leased spec hget hget' hstatus'))

theorem perform_policy (m : Mutation) : (c.perform env m).1.state.policy = c.state.policy := by
  rcases @perform_state env c m with hsame | ⟨e, hkeeps, happly⟩
  · rw [hsame]
  · have happlied : (c.state.apply env e).policy = c.state.policy := State.apply_policy rfl hkeeps
    rcases happly with happly | ⟨id, ts, nowNanos, happly⟩
    · rw [happly, happlied]
    · rw [happly]
      exact happlied

theorem perform_keyed (m : Mutation) (hkeyed : c.state.WellKeyed) :
    (c.perform env m).1.state.WellKeyed := by
  rcases @perform_state env c m with hsame | ⟨e, _, happly⟩
  · rw [hsame]
    exact hkeyed
  · have happlied : (c.state.apply env e).WellKeyed := hkeyed.apply
    rcases happly with happly | ⟨id, ts, nowNanos, happly⟩
    · rw [happly]
      exact happlied
    · rw [happly]
      exact happlied

end Service

namespace State

variable {s : State} {policy : Policy} {now : Nat} {id : JobId} {r : JobRecord} {w : H160}
  {x d : Nat}

/-- What a restart makes of a lease in the file: revoked, or with the same limit and an
expiry no earlier, a fresh window from now if that limit is still ahead. -/
theorem reopened_lease {w' : H160} {x' d' : Nat} (hstatus : r.status = .leased w x d)
    (hlimit : x ≤ hardDeadline x d) (h : reopenedStatus policy now r = .leased w' x' d') :
    hardDeadline x' d' = hardDeadline x d ∧ x ≤ x' ∧ x' ≤ hardDeadline x d ∧
      x' ≤ max x (satAdd now policy.leaseWindowSecs) ∧
      (now < hardDeadline x d →
        min (satAdd now policy.leaseWindowSecs) (hardDeadline x d) ≤ x') := by
  unfold reopenedStatus at h
  split at h
  · cases h
  · have hle : max (min (satAdd now policy.leaseWindowSecs) (hardDeadline x d)) x ≤
        hardDeadline x d := max_le (min_le_right _ _) hlimit
    rw [hstatus, JobStatus.grace] at h
    dsimp only at h
    split at h
    · split at h
      · cases h
        refine ⟨hardDeadline_again hle, le_max_right _ _, hle, ?_, fun _ => le_max_left _ _⟩
        exact max_le (le_max_of_le_right (min_le_left _ _)) (le_max_left _ _)
      · rename_i hsame
        cases h
        exact ⟨rfl, le_rfl, hlimit, le_max_left _ _,
          fun _ => (le_max_left _ _).trans (not_not.mp hsame).le⟩
    · rename_i hlapsed
      cases h
      exact ⟨rfl, le_rfl, hlimit, le_max_left _ _, fun hahead => absurd hahead hlapsed⟩

/-- A job is under one lease. -/
theorem held_unique {lease lease' : Lease H160} (h : s.ledger.Held id lease)
    (h' : s.ledger.Held id lease') : lease' = lease := by
  unfold Ledger.Held at h h'
  rw [h] at h'
  cases h'
  rfl

end State

/-! ## What a step does to a grant that stands -/

/-- The job is leased in memory and in the file, by one worker and up to one limit. -/
structure Node.OnTerm (n : Node) (id : JobId) (w : H160) (limit stored expires : Nat) : Prop where
  file : n.disk.ledger.Held id ⟨w, stored, limit⟩
  memory : n.service.state.ledger.Held id ⟨w, expires, limit⟩
  behind : stored ≤ expires
  within : expires ≤ limit

/-- The state in memory and the one in the file keep every job under its own id. -/
structure Node.Keyed (n : Node) : Prop where
  memory : n.service.state.WellKeyed
  file : n.disk.WellKeyed

/-- The worker has the job's lease. -/
def State.LeasedBy (s : State) (id : JobId) (w : H160) : Prop :=
  ∃ lease, s.ledger.Held id lease ∧ lease.holder = w

namespace Node

variable {n : Node} {env : Env} {id : JobId} {w : H160} {limit stored expires : Nat}

theorem attempt_ledger (m : Mutation) (saved : Bool) :
    (n.attempt env m saved).service.state.ledger = (n.service.perform env m).1.state.ledger := by
  unfold attempt Service.persist
  dsimp only
  split
  · exact State.takeDirty_ledger
  · exact State.takeDirty_ledger

theorem keyed_init (policy : Policy) : (Node.init policy).Keyed :=
  ⟨init_wellKeyed policy, init_wellKeyed Policy.default⟩

theorem Keyed.attempt (h : n.Keyed) (m : Mutation) (saved : Bool) :
    (n.attempt env m saved).Keyed := by
  have hperformed := (@Service.perform_keyed env n.service m h.memory).takeDirty
  constructor
  · unfold Node.attempt Service.persist
    dsimp only
    split
    · exact hperformed
    · exact hperformed
  · unfold Node.attempt
    dsimp only
    split
    · exact hperformed
    · exact h.file

theorem Keyed.crash (h : n.Keyed) (policy : Policy) (now : Nat) : (n.crash policy now).Keyed := by
  have hreload : n.disk.reload.WellKeyed := h.file.of_map (fun _ => get_map) fun _ _ => rfl
  have hopened : ({ n.disk.reload with policy := policy } : State).WellKeyed := hreload
  have hreopened := (hopened.revokeOutOfPolicy.graceLiveLeases now).takeDirty
  refine ⟨hreopened, ?_⟩
  unfold Node.crash
  dsimp only
  split
  · exact hreopened
  · exact h.file

theorem Keyed.run (h : n.Keyed) (events : List StoreEvent) :
    ((storeMachine env).run n events).Keyed := by
  have hrun : (storeMachine env).Along (fun _ _ => True) n events :=
    Machine.along_iff_forall_prefix.mpr fun _ _ _ => trivial
  refine Machine.run_invariant Keyed (fun n e hkeyed _ => ?_) h hrun
  cases e with
  | mutate m saved => exact hkeyed.attempt m saved
  | crash policy now => exact hkeyed.crash policy now

/-- A request that leaves the worker its lease leaves the limit, and sets the expiry on
if anything, not past a window from the request's time. -/
theorem OnTerm.attempt (h : n.OnTerm id w limit stored expires) (hkeyed : n.Keyed) (m : Mutation)
    (saved : Bool) (hstands : (n.attempt env m saved).service.state.LeasedBy id w) :
    ∃ stored' expires', (n.attempt env m saved).OnTerm id w limit stored' expires' ∧
      stored ≤ stored' ∧ expires ≤ expires' ∧
      (expires' = expires ∨ ∃ now, m.clock? = some now ∧
        expires' ≤ max expires (satAdd now n.service.state.policy.leaseWindowSecs)) := by
  have ⟨⟨holder, x', hard⟩, hheld', hholder⟩ := hstands
  cases hholder
  have hperformed := hheld'
  rw [attempt_ledger] at hperformed
  have ⟨r, d, hget, hstatus, hlimit⟩ := State.held_iff.mp h.memory
  have ⟨r', d', hget', hstatus', hlimit'⟩ := State.held_iff.mp hperformed
  dsimp only at hstatus hlimit hstatus' hlimit'
  have hwithin : expires ≤ hardDeadline expires d := hlimit ▸ h.within
  have hmoved : hardDeadline x' d' = hardDeadline expires d ∧ expires ≤ x' ∧
      x' ≤ hardDeadline expires d ∧ (x' = expires ∨ ∃ now, m.clock? = some now ∧
        x' ≤ max expires (satAdd now n.service.state.policy.leaseWindowSecs)) := by
    rcases Service.kept_perform m hkeyed.memory hget hstatus hget' hstatus' with
      hsame | ⟨now, hclock, hkept⟩
    · rw [hstatus, hstatus'] at hsame
      cases hsame
      exact ⟨rfl, le_rfl, hwithin, .inl rfl⟩
    · have ⟨hhard, hle, hle', hnow⟩ := hkept.lease hstatus hstatus' hwithin
      exact ⟨hhard, hle, hle', .inr ⟨now, hclock, hnow⟩⟩
  have ⟨hhard, hle, hle', hnow⟩ := hmoved
  rw [← hlimit] at hhard hle'
  have hlimit'' : hard = limit := hlimit'.trans hhard
  rw [hlimit''] at hheld' hperformed
  by_cases hwritten : ((n.service.perform env m).1.state.dirty && saved) = true
  · refine ⟨x', x', ⟨?_, hheld', le_rfl, hle'⟩, h.behind.trans hle, hle, hnow⟩
    unfold Node.attempt
    dsimp only
    rw [if_pos hwritten, State.takeDirty_ledger]
    exact hperformed
  · refine ⟨stored, x', ⟨?_, hheld', h.behind.trans hle, hle'⟩, le_rfl, hle, hnow⟩
    unfold Node.attempt
    dsimp only
    rw [if_neg hwritten]
    exact h.file

/-- A restart that leaves the worker its lease leaves the limit, and does not set the
expiry back behind the file. -/
theorem OnTerm.crash (h : n.OnTerm id w limit stored expires) (policy : Policy) (now : Nat)
    (hstands : (n.crash policy now).service.state.LeasedBy id w) :
    ∃ stored' expires', (n.crash policy now).OnTerm id w limit stored' expires' ∧
      stored ≤ stored' ∧ expires' ≤ max stored' (satAdd now policy.leaseWindowSecs) ∧
      (now < limit → min (satAdd now policy.leaseWindowSecs) limit ≤ expires') := by
  have ⟨⟨holder, x', hard⟩, hheld', hholder⟩ := hstands
  cases hholder
  have ⟨r, d, hget, hstatus, hlimit⟩ := State.held_iff.mp h.file
  have ⟨r', d', hget', hstatus', hlimit'⟩ := State.held_iff.mp hheld'
  dsimp only at hstatus hlimit hstatus' hlimit'
  have ⟨persisted, hjob⟩ : ∃ persisted, (n.disk.restart policy now).jobs[id]? =
      some { r with status := State.reopenedStatus policy now r, persistedExpiry := persisted } :=
    State.restart_job hget
  have hrestart : (n.crash policy now).service.state = n.disk.restart policy now := rfl
  rw [hrestart, hjob] at hget'
  cases hget'
  have hwithin : stored ≤ hardDeadline stored d := hlimit ▸ h.behind.trans h.within
  have ⟨hhard, hle, hle', hnow, hfresh⟩ := State.reopened_lease hstatus hwithin hstatus'
  rw [← hlimit] at hhard hle' hfresh
  have hlimit'' : hard = limit := hlimit'.trans hhard
  rw [hlimit''] at hheld'
  by_cases hwritten : (n.disk.reload.reopened policy now).dirty = true
  · refine ⟨x', x', ⟨?_, hheld', le_rfl, hle'⟩, hle, le_max_left _ _, hfresh⟩
    unfold Node.crash
    dsimp only
    rw [if_pos hwritten]
    exact hheld'
  · refine ⟨stored, x', ⟨?_, hheld', hle, hle'⟩, le_rfl, hnow, hfresh⟩
    unfold Node.crash
    dsimp only
    rw [if_neg hwritten]
    exact h.file

theorem attempt_policy (m : Mutation) (saved : Bool) :
    (n.attempt env m saved).service.state.policy = n.service.state.policy := by
  have hperformed := @Service.perform_policy env n.service m
  unfold attempt Service.persist
  dsimp only
  split
  · exact State.takeDirty_policy.trans hperformed
  · exact State.takeDirty_policy.trans hperformed

theorem crash_policy (policy : Policy) (now : Nat) :
    (n.crash policy now).service.state.policy = policy := by
  have hrevoked : (State.revokeOutOfPolicy { n.disk.reload with policy := policy }).1.policy =
      policy := (State.foldl_revokeLease_frame _).2
  exact State.takeDirty_policy.trans hrevoked

end Node

/-! ## The term -/

/-- The worker has the job's lease after every part of the run. -/
def Stands (env : Env) (n : Node) (id : JobId) (w : H160) (events : List StoreEvent) : Prop :=
  ∀ front, front <+: events → ((storeMachine env).run n front).service.state.LeasedBy id w

/-- The clock has not gone past `now`. -/
def NotPast (now : Nat) (events : List StoreEvent) : Prop :=
  ∀ e ∈ events, ∀ t, e.clock? = some t → t ≤ now

/-- Nobody can renew the job's lease at `now`, nor submit under it. -/
def State.OutOfTime (s : State) (id : JobId) (now : Nat) : Prop :=
  ∀ worker, (∃ e, s.renew worker id now = (s, .error e)) ∧
    ∀ result, ∃ e, s.submit worker id result now = (s, .error e)

theorem State.outOfTime_of_le {s : State} {id : JobId} {lease : Lease H160} {now : Nat}
    (h : s.ledger.Held id lease) (hle : lease.expires ≤ now) : s.OutOfTime id now := by
  have ⟨r, d, hget, hstatus, _⟩ := State.held_iff.mp h
  intro worker
  constructor
  · unfold renew
    rw [hget]
    dsimp only
    rw [hstatus]
    dsimp only
    by_cases hholder : lease.holder = worker
    · rw [if_neg (not_not.mpr hholder), if_pos hle]
      exact ⟨_, rfl⟩
    · rw [if_pos hholder]
      exact ⟨_, rfl⟩
  · intro result
    have hlive : ¬ (lease.holder = worker ∧ lease.expires > now ∧
        ¬ s.policy.tierAllowed worker r.spec.requires = true) :=
      fun h => absurd h.2.1 (not_lt.mpr hle)
    unfold submit
    rw [hget]
    dsimp only
    rw [hstatus]
    dsimp only
    rw [if_neg hlive]
    by_cases hholder : lease.holder = worker
    · rw [if_neg (not_not.mpr hholder), if_pos hle]
      exact ⟨_, rfl⟩
    · rw [if_pos hholder]
      exact ⟨_, rfl⟩

/-- A grant that stands stays within its limit, and its expiry in memory is ahead of the
file's by no more than a window from the latest clock reading. -/
theorem run_onTerm {env : Env} {n : Node} {id : JobId} {w : H160} {limit expires : Nat}
    (hkeyed : n.Keyed) (h : n.OnTerm id w limit expires expires) {events : List StoreEvent}
    (hstands : Stands env n id w events) :
    ∃ stored' expires', ((storeMachine env).run n events).OnTerm id w limit stored' expires' ∧
      ∀ now, NotPast now events → expires' ≤ max stored' (satAdd now
        ((storeMachine env).run n events).service.state.policy.leaseWindowSecs) := by
  induction events using List.reverseRecOn with
  | nil => exact ⟨expires, expires, h, fun _ _ => le_max_left _ _⟩
  | append_singleton front e ih =>
      have hfront : Stands env n id w front := fun front' hpre =>
        hstands front' (hpre.trans (List.prefix_append _ _))
      have ⟨stored', expires', hterm, hahead⟩ := ih hfront
      have hleased := hstands (front ++ [e]) List.prefix_rfl
      rw [Machine.run_concat] at hleased ⊢
      cases e with
      | mutate m saved =>
          have ⟨stored'', expires'', hterm', hstored, _, hmoved⟩ :=
            hterm.attempt (hkeyed.run front) m saved hleased
          refine ⟨stored'', expires'', hterm', fun now hpast => ?_⟩
          have hbefore := hahead now fun e he => hpast e (List.mem_append_left _ he)
          change _ ≤ max _ (satAdd now
            (Node.attempt env _ m saved).service.state.policy.leaseWindowSecs)
          rw [Node.attempt_policy]
          rcases hmoved with hsame | ⟨t, hclock, hnow⟩
          · rw [hsame]
            exact hbefore.trans (max_le_max_right _ hstored)
          · have ht : t ≤ now :=
              hpast _ (List.mem_append_right _ (List.mem_singleton.mpr rfl)) t hclock
            refine hnow.trans (max_le (hbefore.trans (max_le_max_right _ hstored)) ?_)
            exact le_max_of_le_right (satAdd_mono_left _ ht)
      | crash policy t =>
          have ⟨stored'', expires'', hterm', _, hnow, _⟩ := hterm.crash policy t hleased
          refine ⟨stored'', expires'', hterm', fun now hpast => ?_⟩
          have ht : t ≤ now := hpast _ (List.mem_append_right _ (List.mem_singleton.mpr rfl)) t rfl
          change _ ≤ max _ (satAdd now (Node.crash _ policy t).service.state.policy.leaseWindowSecs)
          rw [Node.crash_policy]
          exact hnow.trans (max_le_max_left _ (satAdd_mono_left _ ht))

/-- What a grant of `id` to `w` keeps to, up to `limit`, for as long as it stands. -/
structure KeepsTerm (env : Env) (n : Node) (id : JobId) (w : H160) (limit : Nat)
    (events : List StoreEvent) : Prop where
  bounded : ∀ front lease, front <+: events →
    ((storeMachine env).run n front).service.state.ledger.Held id lease → lease.expires ≤ limit
  /-- From its expiry on the lease can be neither renewed nor used. -/
  lapsed : ∀ front lease now, front <+: events →
    ((storeMachine env).run n front).service.state.ledger.Held id lease → lease.expires ≤ now →
      ((storeMachine env).run n front).service.state.OutOfTime id now
  ended : ∀ front now, front <+: events → limit ≤ now →
    ((storeMachine env).run n front).service.state.OutOfTime id now
  /-- No request sets the expiry back. -/
  requests : ∀ front m saved lease lease', front ++ [.mutate m saved] <+: events →
    ((storeMachine env).run n front).service.state.ledger.Held id lease →
    ((storeMachine env).run n (front ++ [.mutate m saved])).service.state.ledger.Held id lease' →
      lease.expires ≤ lease'.expires
  /-- A restart does not set it back behind the file. -/
  restarts : ∀ front policy now lease', front ++ [.crash policy now] <+: events →
    ((storeMachine env).run n (front ++ [.crash policy now])).service.state.ledger.Held id lease' →
      ∃ stored, ((storeMachine env).run n front).disk.ledger.Held id stored ∧
        stored.holder = w ∧ stored.expires ≤ lease'.expires
  /-- A restart within the term does not set it back at all, if the clock has not gone
  back and the window is no shorter than it was. -/
  inOrder : ∀ front policy now lease lease', front ++ [.crash policy now] <+: events →
    ((storeMachine env).run n front).service.state.ledger.Held id lease →
    ((storeMachine env).run n (front ++ [.crash policy now])).service.state.ledger.Held id lease' →
    NotPast now front → now < limit →
    ((storeMachine env).run n front).service.state.policy.leaseWindowSecs ≤
        policy.leaseWindowSecs →
      lease.expires ≤ lease'.expires

theorem keepsTerm {env : Env} {n : Node} {id : JobId} {w : H160} {limit expires : Nat}
    (hkeyed : n.Keyed) (h : n.OnTerm id w limit expires expires) {events : List StoreEvent}
    (hstands : Stands env n id w events) : KeepsTerm env n id w limit events := by
  have hreach : ∀ front, front <+: events → ∃ stored' expires',
      ((storeMachine env).run n front).OnTerm id w limit stored' expires' ∧
        ∀ now, NotPast now front → expires' ≤ max stored' (satAdd now
          ((storeMachine env).run n front).service.state.policy.leaseWindowSecs) :=
    fun front hpre => run_onTerm hkeyed h fun front' hpre' =>
      hstands front' (hpre'.trans hpre)
  have hbounded : ∀ front lease, front <+: events →
      ((storeMachine env).run n front).service.state.ledger.Held id lease →
        lease.expires ≤ limit := by
    intro front lease hpre hheld
    have ⟨stored', expires', hterm, _⟩ := hreach front hpre
    rw [State.held_unique hterm.memory hheld]
    exact hterm.within
  constructor
  · exact hbounded
  · intro front lease now _ hheld hle
    exact State.outOfTime_of_le hheld hle
  · intro front now hpre hle
    have ⟨lease, hheld, _⟩ := hstands front hpre
    exact State.outOfTime_of_le hheld ((hbounded front lease hpre hheld).trans hle)
  · intro front m saved lease lease' hpre hheld hheld'
    have ⟨stored', expires', hterm, _⟩ := hreach front ((List.prefix_append _ _).trans hpre)
    have hleased := hstands _ hpre
    rw [Machine.run_concat] at hleased hheld'
    have ⟨stored'', expires'', hterm', _, hle, _⟩ :=
      hterm.attempt (hkeyed.run front) m saved hleased
    rw [State.held_unique hterm.memory hheld, State.held_unique hterm'.memory hheld']
    exact hle
  · intro front policy now lease' hpre hheld'
    have ⟨stored', expires', hterm, _⟩ := hreach front ((List.prefix_append _ _).trans hpre)
    have hleased := hstands _ hpre
    rw [Machine.run_concat] at hleased hheld'
    have ⟨stored'', expires'', hterm', hstored, _, _⟩ := hterm.crash policy now hleased
    refine ⟨_, hterm.file, rfl, ?_⟩
    rw [State.held_unique hterm'.memory hheld']
    exact hstored.trans hterm'.behind
  · intro front policy now lease lease' hpre hheld hheld' hpast hahead hwindow
    have ⟨stored', expires', hterm, htrail⟩ := hreach front ((List.prefix_append _ _).trans hpre)
    have hleased := hstands _ hpre
    rw [Machine.run_concat] at hleased hheld'
    have ⟨stored'', expires'', hterm', hstored, _, hfresh⟩ := hterm.crash policy now hleased
    rw [State.held_unique hterm.memory hheld, State.held_unique hterm'.memory hheld']
    -- Either the file has the expiry, or it is at most a window past the clock.
    rcases le_max_iff.mp (htrail now hpast) with hsaved | hwithin
    · exact hsaved.trans (hstored.trans hterm'.behind)
    · refine le_trans (le_min ?_ hterm.within) (hfresh hahead)
      exact hwithin.trans (satAdd_mono_right _ hwindow)

/-! ## The grant -/

/-- A request that is answered with a lease was admitted, and `lease` gave it. -/
theorem Service.perform_granted {env : Env} {c : Service} {w : H160} {ts g nanos : Nat}
    {spec : JobSpec}
    (h : (c.perform env (.request (.lease w ts) g nanos)).2 = some (.granted w spec)) :
    (c.perform env (.request (.lease w ts) g nanos)).1.state = (c.state.lease env w g).1 ∧
      (c.state.lease env w g).2 = .ok spec := by
  rw [perform_lease]
  unfold perform at h
  simp only [Service.signed] at h ⊢
  split
  · rename_i hunknown
    simp [hunknown] at h
  · rename_i hknown
    simp only [if_neg hknown] at h
    split
    · rename_i hadmitted
      simp only [hadmitted] at h
      split at h
      · rename_i spec' hanswer
        cases h
        exact ⟨rfl, hanswer⟩
      · cases h
    · rename_i hrefused
      simp [hrefused] at h

/-- What a job is given with its lease. -/
theorem State.lease_given {env : Env} {s : State} {w : H160} {g : Nat} {spec : JobSpec}
    (hkeyed : s.WellKeyed) (h : (s.lease env w g).2 = .ok spec) :
    (s.lease env w g).1.dirty = true ∧ (s.lease env w g).1.ledger.Held spec.id
      ⟨w, satAdd g (min spec.leaseSecs s.policy.leaseWindowSecs), satAdd g spec.leaseSecs⟩ := by
  have hanswer := lease_answers env w g hkeyed
  generalize s.lease env w g = out at h hanswer ⊢
  cases hanswer with
  | unknown _ => cases h
  | refused _ _ => cases h
  | nothing _ _ _ => cases h
  | @granted _ job r _ _ hget _ _ =>
      cases h
      refine ⟨rfl, State.held_iff.mpr ⟨r.grant w s.policy.leaseWindowSecs g, _, ?_, rfl, ?_⟩⟩
      · have hid := hkeyed.beforePick w job r hget
        change ((s.beforePick w g).jobs.insert job _)[r.spec.id]? = _
        rw [get_insert, if_pos hid.symm]
      · have hle : satAdd g (min r.spec.leaseSecs s.policy.leaseWindowSecs) ≤
            satAdd g r.spec.leaseSecs := satAdd_mono_right g (min_le_left _ _)
        unfold hardDeadline
        dsimp only
        split
        · omega
        · rfl

theorem Node.grant_onTerm {env : Env} {n : Node} {w : H160} {ts g nanos : Nat} {spec : JobSpec}
    (hkeyed : n.Keyed)
    (h : n.ack? env (.request (.lease w ts) g nanos) = some (.granted w spec)) :
    ∃ expires, (n.attempt env (.request (.lease w ts) g nanos) true).OnTerm spec.id w
      (satAdd g spec.leaseSecs) expires expires := by
  have ⟨hstate, hanswer⟩ := Service.perform_granted h
  have ⟨hdirty, hheld⟩ := State.lease_given hkeyed.memory hanswer
  rw [← hstate] at hdirty hheld
  have hmemory := hheld
  rw [← attempt_ledger _ true] at hmemory
  have hfile : (n.attempt env (.request (.lease w ts) g nanos) true).disk.ledger =
      (n.service.perform env (.request (.lease w ts) g nanos)).1.state.ledger := by
    unfold Node.attempt
    dsimp only
    rw [hdirty, Bool.and_true, if_pos rfl, State.takeDirty_ledger]
  rw [← hfile] at hheld
  exact ⟨_, hheld, hmemory, le_rfl, satAdd_mono_right g (min_le_left _ _)⟩

/-- A lease that is granted at `g` keeps to its term for as long as it stands, whatever
requests and restarts come before and after, under whatever lease windows. -/
theorem grant_keeps_term (env : Env) (policy : Policy) (before events : List StoreEvent)
    (w : H160) (ts g nanos : Nat) (spec : JobSpec)
    (hgrant : ((storeMachine env).run (Node.init policy) before).ack? env
      (.request (.lease w ts) g nanos) = some (.granted w spec))
    (hstands : Stands env (((storeMachine env).run (Node.init policy) before).attempt env
      (.request (.lease w ts) g nanos) true) spec.id w events) :
    KeepsTerm env (((storeMachine env).run (Node.init policy) before).attempt env
      (.request (.lease w ts) g nanos) true) spec.id w (satAdd g spec.leaseSecs) events := by
  have hkeyed : ((storeMachine env).run (Node.init policy) before).Keyed :=
    (Node.keyed_init policy).run before
  have ⟨expires, hterm⟩ := Node.grant_onTerm hkeyed hgrant
  exact keepsTerm (hkeyed.attempt _ true) hterm hstands

/-! A job of 10000 seconds and a worker that is given it at 1000, until 1900. -/

def termFleet : List StoreEvent :=
  [.mutate (.addJob (probeJob "j" 10000)) true,
    .mutate (.request (.register (probeWorker 1) "s" (900 * second)) 900 (900 * second)) true]

def termGrant : Mutation :=
  .request (.lease (probeWorker 1).id (1000 * second)) 1000 (1000 * second)

/-- A heartbeat at 1100 sets the expiry to 2000 and is not saved; the restart gives a
window of a minute. -/
def shortenedRun : List StoreEvent :=
  [.mutate (.request (.heartbeat (probeWorker 1).id (1100 * second) "j") 1100 (1100 * second))
      true,
    .crash { Policy.default with leaseWindowSecs := 60 } 1150]

def termNode : Node :=
  ((storeMachine plainEnv).run (Node.init Policy.default) termFleet).attempt plainEnv termGrant true

theorem termNode_granted :
    ((storeMachine plainEnv).run (Node.init Policy.default) termFleet).ack? plainEnv termGrant =
      some (.granted (probeWorker 1).id (probeJob "j" 10000)) := rfl

theorem State.held_of_shown {s : State} {id : JobId} {w : H160} {x d : Nat}
    (h : (s.jobs[id]?).map JobRecord.status = some (.leased w x d)) :
    s.ledger.Held id ⟨w, x, hardDeadline x d⟩ := by
  have ⟨r, hget, hstatus⟩ := Option.map_eq_some_iff.mp h
  exact State.held_of_status hget hstatus

theorem shortenedRun_leases :
    (termNode.service.state.jobs["j"]?).map JobRecord.status =
        some (.leased (probeWorker 1).id 1900 11000) ∧
      (((storeMachine plainEnv).run termNode (shortenedRun.take 1)).service.state.jobs["j"]?).map
        JobRecord.status = some (.leased (probeWorker 1).id 2000 11000) ∧
      (((storeMachine plainEnv).run termNode shortenedRun).service.state.jobs["j"]?).map
        JobRecord.status = some (.leased (probeWorker 1).id 1900 11000) := by
  decide +kernel

theorem shortenedRun_stands : Stands plainEnv termNode "j" (probeWorker 1).id shortenedRun := by
  have ⟨hfirst, hsecond, hthird⟩ := shortenedRun_leases
  intro front hpre
  have hfront : front = shortenedRun.take front.length := (List.prefix_iff_eq_take.mp hpre)
  have hlength : front.length ≤ 2 := hpre.length_le
  rw [hfront]
  interval_cases front.length
  · exact ⟨_, State.held_of_shown hfirst, rfl⟩
  · exact ⟨_, State.held_of_shown hsecond, rfl⟩
  · exact ⟨_, State.held_of_shown hthird, rfl⟩

/-- The expiry of a lease that stands is not monotone: the heartbeat was not saved. -/
theorem restart_sets_expiry_back :
    ¬ ∀ (env : Env) (policy : Policy) (before events : List StoreEvent) (w : H160)
      (ts g nanos : Nat) (spec : JobSpec),
      ((storeMachine env).run (Node.init policy) before).ack? env
        (.request (.lease w ts) g nanos) = some (.granted w spec) →
      Stands env (((storeMachine env).run (Node.init policy) before).attempt env
        (.request (.lease w ts) g nanos) true) spec.id w events →
      ∀ front e lease lease', front ++ [e] <+: events →
        ((storeMachine env).run (((storeMachine env).run (Node.init policy) before).attempt env
          (.request (.lease w ts) g nanos) true) front).service.state.ledger.Held spec.id lease →
        ((storeMachine env).run (((storeMachine env).run (Node.init policy) before).attempt env
          (.request (.lease w ts) g nanos) true)
            (front ++ [e])).service.state.ledger.Held spec.id lease' →
          lease.expires ≤ lease'.expires := by
  intro hclaim
  have ⟨_, hsecond, hthird⟩ := shortenedRun_leases
  have hle := hclaim plainEnv Policy.default termFleet shortenedRun (probeWorker 1).id
    (1000 * second) 1000 (1000 * second) (probeJob "j" 10000) termNode_granted
    shortenedRun_stands (shortenedRun.take 1) _ _ _ List.prefix_rfl
    (State.held_of_shown hsecond) (State.held_of_shown hthird)
  exact absurd hle (by decide)

/-- The same grant keeps to its term. -/
theorem grant_keeps_term_shortened :
    KeepsTerm plainEnv termNode "j" (probeWorker 1).id 11000 shortenedRun :=
  grant_keeps_term plainEnv Policy.default termFleet shortenedRun (probeWorker 1).id
    (1000 * second) 1000 (1000 * second) (probeJob "j" 10000) termNode_granted shortenedRun_stands

end Coordinator
end ComputePool
