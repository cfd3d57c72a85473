import ComputePool.Coordinator.Paths
import ComputePool.Lib.Machine

/-!
# Runs of the coordinator

The operations that change the coordinator's state, each at the clock reading
it is called with.  A world remembers the state, the last clock reading, and,
beside what the code keeps, the source each key last registered from: an
evicted record loses it, and the properties of a run speak of it.
-/

namespace ComputePool
namespace Coordinator

open RustStd LeaseLedger

inductive Op where
  | addJob (spec : JobSpec)
  | register (w : RegisteredWorker) (source : String)
  | lease (worker : H160)
  | renew (worker : H160) (job : JobId)
  | submit (worker : H160) (job : JobId) (result : String)
  | expireLeases
  | revokeOutOfPolicy
  | graceLiveLeases
  /-- Save the state and reopen it under a policy. -/
  | restart (policy : Policy)

/-- An operation and the clock reading it is called with. -/
structure Event where
  op : Op
  now : Nat

/-- What an operation does to the state. -/
def State.apply (env : Env) (s : State) (e : Event) : State :=
  match e.op with
  | .addJob spec => s.addJob spec
  | .register w source => (s.register w source e.now).1
  | .lease worker => (s.lease env worker e.now).1
  | .renew worker job => (s.renew worker job e.now).1
  | .submit worker job result => (s.submit worker job result e.now).1
  | .expireLeases => (s.expireLeases e.now).1
  | .revokeOutOfPolicy => s.revokeOutOfPolicy.1
  | .graceLiveLeases => s.graceLiveLeases e.now
  | .restart policy => s.restart policy e.now

structure World where
  state : State
  clock : Nat
  /-- The source each key registered from, when it last entered the registry. -/
  registeredFrom : H160 → Option String

namespace World

/-- An empty store, before the first clock reading. -/
def init (policy : Policy) : World where
  state := State.empty policy
  clock := 0
  registeredFrom _ := none

def step (env : Env) (world : World) (e : Event) : World where
  state := world.state.apply env e
  clock := e.now
  registeredFrom := fun id =>
    match e.op with
    | .register w source =>
        if id = w.id ∧ (world.state.workers[w.id]?).isNone ∧
            ((world.state.apply env e).workers[w.id]?).isSome then some source
        else world.registeredFrom id
    | _ => world.registeredFrom id

end World

/-- The coordinator as a machine over its operations. -/
def machine (env : Env) : Machine World Event where
  step := World.step env

/-- A published job has an id never used before. -/
def Op.Fresh (s : State) : Op → Prop
  | .addJob spec => spec.id ∉ s.jobs
  | _ => True

/-- The operation does not change the policy. -/
def Op.KeepsPolicy (policy : Policy) : Op → Prop
  | .restart p => p = policy
  | _ => True

instance {s : State} : (op : Op) → Decidable (op.Fresh s)
  | .addJob spec => inferInstanceAs (Decidable (spec.id ∉ s.jobs))
  | .register _ _ | .lease _ | .renew _ _ | .submit _ _ _ | .expireLeases
  | .revokeOutOfPolicy | .graceLiveLeases | .restart _ => .isTrue trivial

instance {policy : Policy} : (op : Op) → Decidable (op.KeepsPolicy policy)
  | .restart p => inferInstanceAs (Decidable (p = policy))
  | .addJob _ | .register _ _ | .lease _ | .renew _ _ | .submit _ _ _ | .expireLeases
  | .revokeOutOfPolicy | .graceLiveLeases => .isTrue trivial

/-- What the environment guarantees of a step: the clock does not go back, and
a published job is new. -/
def Admissible (world : World) (e : Event) : Prop :=
  world.clock ≤ e.now ∧ e.op.Fresh world.state

instance {world : World} {e : Event} : Decidable (Admissible world e) :=
  inferInstanceAs (Decidable (_ ∧ _))

/-- An admissible step under one fixed policy. -/
def AdmissibleUnder (policy : Policy) (world : World) (e : Event) : Prop :=
  Admissible world e ∧ e.op.KeepsPolicy policy

instance {policy : Policy} {world : World} {e : Event} :
    Decidable (AdmissibleUnder policy world e) :=
  inferInstanceAs (Decidable (_ ∧ _))

/-! A small fleet, on which the results about runs are evaluated. -/

/-- An environment in which no payload parses as a round. -/
def plainEnv : Env where
  hashes := ⟨fun _ => FixedBytes.zero, fun _ => FixedBytes.zero⟩
  payloadOfJson _ := none

/-- The `n`th key, claiming the probe tier. -/
def probeWorker (n : Nat) : RegisteredWorker where
  id := FixedBytes.ofNat n
  capability := .probe
  backend := "candle-cpu"
  dtype := "f32"
  tokensPerSecond := 0

/-- A job which any machine may run. -/
def probeJob (id : JobId) (leaseSecs : Nat) : JobSpec where
  id := id
  requires := .probe
  payload := .null
  leaseSecs := leaseSecs
  maxAttempts := 3

/-- The ledger transitions each operation may take. -/
def Acts (s : State) (e : Event) (a : Action JobId H160 String Accepted) : Prop :=
  match e.op with
  | .addJob spec => a = .publish spec.id
  | .register w source => s.RegisterActs w source e.now a
  | .lease worker => State.LeaseActs worker a
  | .renew _ job => State.RenewActs job a
  | .submit worker job result => s.SubmitActs worker job result e.now a
  | .expireLeases => ∃ id, a = .lapse id
  | .revokeOutOfPolicy => ∃ id, a = .revoke id
  | .graceLiveLeases => ∃ id expires, a = .extend id expires
  | .restart _ => State.RestartActs a

namespace State

variable {s : State} {env : Env} {e : Event}

/-- Every operation is a path of ledger transitions of its own kinds. -/
theorem apply_path (env : Env) (hkeyed : s.WellKeyed) (hfresh : e.op.Fresh s) :
    Path s.policy.rules e.now (Acts s e) s.ledger (s.apply env e).ledger := by
  obtain ⟨op, now⟩ := e
  cases op with
  | addJob spec => exact addJob_path hfresh
  | register w source => exact register_path
  | lease worker => exact lease_path hkeyed
  | renew worker job => exact renew_path
  | submit worker job result => exact submit_path
  | expireLeases => exact expireLeases_path _ now
  | revokeOutOfPolicy => exact revokeOutOfPolicy_path
  | graceLiveLeases => exact graceLiveLeases_path
  | restart policy => exact restart_path

/-! ## What is kept of a job besides its phase -/

/-- Records under the ids of before keep their specification. -/
theorem WellKeyed.of_map {s' : State} (h : s.WellKeyed) {f : JobId → JobRecord → JobRecord}
    (hjobs : ∀ id : JobId, s'.jobs[id]? = (s.jobs[id]?).map (f id))
    (hspec : ∀ id r, (f id r).spec = r.spec) : s'.WellKeyed := by
  intro id r' hget
  rw [hjobs, Option.map_eq_some_iff] at hget
  obtain ⟨r, hr, rfl⟩ := hget
  rw [hspec]
  exact h id r hr

theorem WellKeyed.of_modify {s' : State} (h : s.WellKeyed) {job : JobId}
    {f : JobRecord → JobRecord} (hjobs : s'.jobs = s.jobs.modify job f)
    (hspec : ∀ r, (f r).spec = r.spec) : s'.WellKeyed := by
  refine h.of_map (f := fun id => if job = id then f else fun r => r) (fun id => ?_)
    fun id r => ?_
  · rw [hjobs, get_modify]
    split <;> simp
  · split
    · exact hspec r
    · rfl

theorem WellKeyed.of_jobs_eq {s' : State} (h : s.WellKeyed) (hjobs : s'.jobs = s.jobs) :
    s'.WellKeyed := fun id r hget => h id r (hjobs ▸ hget)

theorem WellKeyed.addJob (h : s.WellKeyed) (spec : JobSpec) : (s.addJob spec).WellKeyed := by
  intro id r hget
  rw [State.addJob, get_insert] at hget
  split at hget
  · rename_i hid
    obtain rfl := Option.some.inj hget
    exact hid
  · exact h id r hget

theorem WellKeyed.revokeLease (h : s.WellKeyed) (job : JobId) :
    (s.revokeLease job).WellKeyed := by
  refine h.of_map (f := fun id r => if job = id then { r with status := .pending } else r)
    (fun id => ?_) fun id r => ?_
  · rw [revokeLease_job]
    split <;> simp
  · split <;> rfl

theorem foldl_forgetWorker_jobs (victims : List H160) (now : Nat) :
    (victims.foldl (fun s v => s.forgetWorker v now) s).jobs = s.jobs := by
  induction victims generalizing s with
  | nil => rfl
  | cons v rest ih => rw [List.foldl_cons, ih, forgetWorker_jobs]

theorem register_jobs {w : RegisteredWorker} {source : String} {now : Nat} :
    (s.register w source now).1.jobs = s.jobs := by
  cases hknown : s.workers[w.id]? with
  | some r => simp only [register, hknown]
  | none =>
      obtain ⟨h, -⟩ | ⟨h, -⟩ := register_new source now hknown
      · rw [h, foldl_forgetWorker_jobs]
        rfl
      · rw [h, admitWorker, foldl_forgetWorker_jobs]
        rfl

theorem WellKeyed.revokeOutOfPolicy (h : s.WellKeyed) : s.revokeOutOfPolicy.1.WellKeyed := by
  refine h.of_map (f := fun id r =>
    if id ∈ s.outOfPolicy then { r with status := .pending } else r) (fun id => ?_) fun id r => ?_
  · change (s.outOfPolicy.foldl State.revokeLease s).jobs[id]? = _
    rw [foldl_revokeLease_job]
    split <;> simp
  · split <;> rfl

theorem WellKeyed.graceLiveLeases (h : s.WellKeyed) (now : Nat) :
    (s.graceLiveLeases now).WellKeyed :=
  h.of_map (fun id => graceLiveLeases_job id) fun _ _ => rfl

theorem WellKeyed.takeDirty (h : s.WellKeyed) : s.takeDirty.1.WellKeyed := by
  unfold State.takeDirty
  split
  · refine h.of_map (fun id => get_map) fun id r => ?_
    split <;> rfl
  · exact h

theorem WellKeyed.restart (h : s.WellKeyed) (policy : Policy) (now : Nat) :
    (s.restart policy now).WellKeyed := by
  have hopened : ({ s.reload with policy := policy } : State).WellKeyed :=
    h.of_map (fun id => get_map) fun _ _ => rfl
  exact (hopened.revokeOutOfPolicy.graceLiveLeases now).takeDirty

theorem WellKeyed.apply (h : s.WellKeyed) : (s.apply env e).WellKeyed := by
  obtain ⟨op, now⟩ := e
  cases op with
  | addJob spec => exact h.addJob spec
  | register w source => exact h.of_jobs_eq register_jobs
  | lease worker =>
      change (s.lease env worker now).1.WellKeyed
      obtain ⟨-, hsame⟩ | ⟨rec_, -, hpolled | ⟨id, r, -, -, hget, hgrant⟩⟩ :=
        lease_cases (s := s) env worker now
      · exact hsame.symm ▸ h
      · exact hpolled.symm ▸ h.beforePick worker
      · rw [hgrant]
        intro id' r' hget'
        rw [get_insert] at hget'
        split at hget'
        · rename_i hid
          subst hid
          obtain rfl := Option.some.inj hget'
          exact h.beforePick worker id r hget
        · exact h.beforePick worker id' r' hget'
  | renew worker job =>
      change (s.renew worker job now).1.WellKeyed
      obtain hsame | ⟨r, e, d, -, -, -, ⟨-, hrevoked⟩ | ⟨dirty, hextended⟩⟩ :=
        renew_cases (s := s) worker job now
      · exact hsame.symm ▸ h
      · exact hrevoked.symm ▸ h.revokeLease job
      · rw [hextended]
        exact h.of_modify rfl fun _ => rfl
  | submit worker job result =>
      change (s.submit worker job result now).1.WellKeyed
      obtain hsame | ⟨r, e, d, -, -, -, ⟨-, hrevoked⟩ | ⟨-, hdone⟩⟩ :=
        submit_cases (s := s) worker job result now
      · exact hsame.symm ▸ h
      · exact hrevoked.symm ▸ h.revokeLease job
      · rw [hdone]
        exact h.of_modify rfl fun _ => rfl
  | expireLeases => exact h.expireLeases
  | revokeOutOfPolicy => exact h.revokeOutOfPolicy
  | graceLiveLeases => exact h.graceLiveLeases now
  | restart policy => exact h.restart policy now

/-! ## The policy -/

theorem foldl_forgetWorker_policy (victims : List H160) (now : Nat) :
    (victims.foldl (fun s v => s.forgetWorker v now) s).policy = s.policy := by
  induction victims generalizing s with
  | nil => rfl
  | cons v rest ih => rw [List.foldl_cons, ih, forgetWorker_policy]

theorem register_policy {w : RegisteredWorker} {source : String} {now : Nat} :
    (s.register w source now).1.policy = s.policy := by
  cases hknown : s.workers[w.id]? with
  | some r => simp only [register, hknown]
  | none =>
      obtain ⟨h, -⟩ | ⟨h, -⟩ := register_new source now hknown
      · rw [h, foldl_forgetWorker_policy]
        rfl
      · rw [h, admitWorker, foldl_forgetWorker_policy]
        rfl

theorem takeDirty_policy : s.takeDirty.1.policy = s.policy := by
  unfold takeDirty
  split <;> rfl

/-- Only a restart changes the policy. -/
theorem apply_policy {policy : Policy} (hpolicy : s.policy = policy)
    (hfixed : e.op.KeepsPolicy policy) : (s.apply env e).policy = policy := by
  subst hpolicy
  obtain ⟨op, now⟩ := e
  cases op with
  | addJob spec => rfl
  | register w source => exact register_policy
  | lease worker =>
      change (s.lease env worker now).1.policy = s.policy
      obtain ⟨-, hsame⟩ | ⟨rec_, -, hpolled | ⟨id, r, -, -, -, hgrant⟩⟩ :=
        lease_cases (s := s) env worker now
      · rw [hsame]
      · rw [hpolled, beforePick_policy]
      · rw [hgrant]
        exact beforePick_policy worker now
  | renew worker job =>
      change (s.renew worker job now).1.policy = s.policy
      obtain hsame | ⟨r, e, d, -, -, -, ⟨-, hrevoked⟩ | ⟨dirty, hextended⟩⟩ :=
        renew_cases (s := s) worker job now
      · rw [hsame]
      · rw [hrevoked, revokeLease_policy]
      · rw [hextended]
        rfl
  | submit worker job result =>
      change (s.submit worker job result now).1.policy = s.policy
      obtain hsame | ⟨r, e, d, -, -, -, ⟨-, hrevoked⟩ | ⟨-, hdone⟩⟩ :=
        submit_cases (s := s) worker job result now
      · rw [hsame]
      · rw [hrevoked, revokeLease_policy]
      · rw [hdone]
        rfl
  | expireLeases => exact expireLeases_policy ..
  | revokeOutOfPolicy => exact (foldl_revokeLease_frame s.outOfPolicy).2
  | graceLiveLeases => rfl
  | restart policy =>
      obtain rfl : policy = s.policy := hfixed
      let opened : State := { s.reload with policy := s.policy }
      have hrevoke : opened.revokeOutOfPolicy.1.policy = s.policy :=
        (foldl_revokeLease_frame opened.outOfPolicy).2
      exact takeDirty_policy.trans hrevoke

end State

/-- A ledger property which every transition preserves holds after every run,
of the state of the world. -/
theorem machine_run_ledger {env : Env} {world : World} {events : List Event}
    (Inv : Ledger JobId H160 String Accepted → Prop)
    (hstep : ∀ (rules : Rules H160 String String) now l action l',
      Inv l → Fires rules now l action l' → Inv l')
    (hkeyed : world.state.WellKeyed) (hinit : Inv world.state.ledger)
    (hrun : (machine env).Along Admissible world events) :
    ((machine env).run world events).state.WellKeyed ∧
      Inv ((machine env).run world events).state.ledger := by
  refine Machine.run_invariant (fun w : World => w.state.WellKeyed ∧ Inv w.state.ledger)
    (fun w e hinv hadm => ?_) ⟨hkeyed, hinit⟩ hrun
  refine ⟨hinv.1.apply, ?_⟩
  exact (State.apply_path env hinv.1 hadm.2).preserves _
    (fun l action l' hl _ hfires => hstep _ _ _ _ _ hl hfires) hinv.2

theorem init_wellKeyed (policy : Policy) : (World.init policy).state.WellKeyed := by
  intro id r hget
  simp [World.init, State.empty] at hget

theorem init_not_held (policy : Policy) (id : JobId) (lease : Lease H160) :
    ¬ (World.init policy).state.ledger.Held id lease := by
  simp [World.init, State.empty, State.ledger, Ledger.Held]

end Coordinator
end ComputePool
