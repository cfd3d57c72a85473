import ComputePool.Coordinator.Replay
import ComputePool.Coordinator.TierSafety

/-!
# What a restart brings back

`Coordinator::mutate` saves the state after a request only when something that
must survive a restart has changed.  Between two saves the file trails the
memory: heartbeats move the expiry of a lease, and the times a worker was last
seen, without a save.  `Behind` says how far the file may trail, every request
and every restart keeps it, and `open_with` makes up for the difference by
giving each lease inside its deadline a fresh window.
-/

namespace ComputePool
namespace Coordinator

open RustStd LeaseLedger

/-- What a handler runs under the state lock. -/
inductive Mutation where
  | request (r : Request) (now nowNanos : Nat)
  | submit (who : H160) (job : JobId) (result : String) (now : Nat)
  | addJob (spec : JobSpec)

/-- What the answer to a request acknowledges. -/
inductive Ack where
  | registered (w : RegisteredWorker)
  | granted (who : H160) (spec : JobSpec)
  | accepted (who : H160) (job : JobId) (result : String)

namespace Service

/-- The closure a handler passes to `mutate`, and what its answer acknowledges
once the state is saved. -/
def perform (env : Env) (c : Service) : Mutation → Service × Option Ack
  | .request (.lease who ts) now nowNanos =>
      let (c', outcome) := c.signed who ts nowNanos fun s => (s.lease env who now).1
      (c',
        match outcome, (c.state.lease env who now).2 with
        | .admitted, .ok spec => some (.granted who spec)
        | _, _ => none)
  | .request (.heartbeat who ts job) now nowNanos =>
      ((c.signed who ts nowNanos fun s => (s.renew who job now).1).1, none)
  | .request (.register w source ts) now nowNanos =>
      match c.registerInner w source ts now nowNanos with
      | (c, .ok _) => (c, some (.registered w))
      | (c, .error _) => (c, none)
  | .submit who job result now =>
      match c.state.submit who job result now with
      | (s, .ok ()) => ({ c with state := s }, some (.accepted who job result))
      | (s, .error _) => ({ c with state := s }, none)
  | .addJob spec => ({ c with state := c.state.addJob spec }, none)

end Service

/-- The coordinator process and its state file. -/
structure Node where
  service : Service
  /-- The state in the file. -/
  disk : State

namespace State

/-- `open_with` up to its save: the policy, the revocations, the grace. -/
def reopened (stored : State) (policy : Policy) (now : Nat) : State :=
  ({ stored with policy := policy } : State).revokeOutOfPolicy.1.graceLiveLeases now

theorem openWith_eq_reopened (stored : State) (policy : Policy) (now : Nat) :
    stored.openWith policy now = (stored.reopened policy now).takeDirty.1 := rfl

end State

namespace Node

/-- A process opened on an empty store. -/
def init (policy : Policy) : Node where
  service := ⟨State.empty policy, Admission.empty, RegistrationBudget.new⟩
  disk := State.empty Policy.default

/-- `Coordinator::mutate` where the save succeeds. -/
def mutate (env : Env) (n : Node) (m : Mutation) : Node :=
  let c := (n.service.perform env m).1
  { service := c.persist true
    disk := if c.state.dirty then c.state.takeDirty.1 else n.disk }

/-- What the request was answered with, once the save has succeeded. -/
def ack? (env : Env) (n : Node) (m : Mutation) : Option Ack := (n.service.perform env m).2

/-- The process stops and is opened again on its file; what was only in memory
is gone. -/
def crash (n : Node) (policy : Policy) (now : Nat) : Node :=
  let opened := n.disk.reload.reopened policy now
  { service := ⟨opened.takeDirty.1, Admission.empty, RegistrationBudget.new⟩
    disk := if opened.dirty then opened.takeDirty.1 else n.disk }

end Node

inductive NodeEvent where
  | mutate (m : Mutation)
  | crash (policy : Policy) (now : Nat)

/-- The node as a machine over its requests and restarts. -/
def nodeMachine (env : Env) : Machine Node NodeEvent where
  step n e :=
    match e with
    | .mutate m => n.mutate env m
    | .crash policy now => n.crash policy now

/-- What the answers of a run acknowledge. -/
def acknowledged (env : Env) : Node → List NodeEvent → List Ack
  | _, [] => []
  | n, .mutate m :: rest => (n.ack? env m).toList ++ acknowledged env (n.mutate env m) rest
  | n, .crash policy now :: rest => acknowledged env (n.crash policy now) rest

/-- The state shows what was acknowledged. -/
def Ack.Present (s : State) : Ack → Prop
  | registered w => ∃ r, s.workers[w.id]? = some r ∧ r.capability = w.capability ∧
      r.backend = w.backend ∧ r.dtype = w.dtype ∧ r.tokensPerSecond = w.tokensPerSecond
  | granted who spec => ∃ r, s.jobs[spec.id]? = some r ∧ r.spec = spec ∧
      r.status.holder? = some who
  | accepted who job result => ∃ r at_, s.jobs[job]? = some r ∧ r.status = .done who at_ ∧
      r.result = some result

/-- The in-lock step of a request is its closure and the save. -/
theorem inLock_eq_perform (env : Env) (c : Service) (r : Request) (now nowNanos : Nat) :
    (c.inLock env r now nowNanos true).1 =
      (c.perform env (.request r now nowNanos)).1.persist true := by
  cases r with
  | lease who ts => rfl
  | heartbeat who ts job => rfl
  | register w source ts =>
      simp only [Service.inLock, Service.perform]
      rcases c.registerInner w source ts now nowNanos with ⟨c', refused | granted⟩ <;> rfl

/-! ## How far the file may trail the memory -/

/-- The status in the file and the status in memory: heartbeats that were not
saved have moved the expiry on, up to the limit of the lease. -/
inductive JobStatus.Behind : JobStatus → JobStatus → Prop where
  | same (status : JobStatus) : Behind status status
  | renewed (w : H160) {e d e' : Nat} (hle : e ≤ e') (hlimit : e' ≤ hardDeadline e d) :
      Behind (.leased w e d) (.leased w e' (hardDeadline e d))

def JobRecord.Behind (d m : JobRecord) : Prop :=
  m = { d with status := m.status, persistedExpiry := m.persistedExpiry } ∧
    d.status.Behind m.status

def WorkerRecord.Behind (d m : WorkerRecord) : Prop :=
  m = { d with lastSeen := m.lastSeen, lastEngaged := m.lastEngaged }

/-- The file trails the memory by heartbeats and polls only. -/
structure State.Behind (disk memory : State) : Prop where
  jobs : ∀ id : JobId, Option.Rel JobRecord.Behind disk.jobs[id]? memory.jobs[id]?
  workers : ∀ w : H160, Option.Rel WorkerRecord.Behind disk.workers[w]? memory.workers[w]?
  sources : memory.sources = disk.sources
  penalties : memory.penalties = disk.penalties
  recent : memory.recentRegistrations = disk.recentRegistrations

theorem hardDeadline_again {e d e' : Nat} (h : e' ≤ hardDeadline e d) :
    hardDeadline e' (hardDeadline e d) = hardDeadline e d := by
  generalize hardDeadline e d = hard at h ⊢
  unfold hardDeadline
  split <;> omega

theorem JobStatus.Behind.trans {a b c : JobStatus} (h : a.Behind b) (h' : b.Behind c) :
    a.Behind c := by
  cases h with
  | same => exact h'
  | renewed w hle hlimit =>
      cases h' with
      | same => exact .renewed w hle hlimit
      | renewed _ hle' hlimit' =>
          rw [hardDeadline_again hlimit] at hlimit' ⊢
          exact .renewed w (hle.trans hle') hlimit'

theorem JobRecord.Behind.refl (r : JobRecord) : r.Behind r := ⟨rfl, .same _⟩

theorem JobRecord.Behind.trans {a b c : JobRecord} (h : a.Behind b) (h' : b.Behind c) :
    a.Behind c := by
  obtain ⟨hb, hstatus⟩ := h
  obtain ⟨hc, hstatus'⟩ := h'
  refine ⟨?_, hstatus.trans hstatus'⟩
  rw [hb] at hc
  exact hc

theorem WorkerRecord.Behind.refl (r : WorkerRecord) : r.Behind r := rfl

theorem WorkerRecord.Behind.trans {a b c : WorkerRecord} (h : a.Behind b) (h' : b.Behind c) :
    a.Behind c := by
  unfold WorkerRecord.Behind at h h' ⊢
  rw [h] at h'
  exact h'

private theorem rel_trans {α : Type*} {R : α → α → Prop}
    (hR : ∀ {a b c}, R a b → R b c → R a c) {x y z : Option α} (h : Option.Rel R x y)
    (h' : Option.Rel R y z) : Option.Rel R x z := by
  cases h with
  | none => exact h'
  | some hab =>
      cases h' with
      | some hbc => exact .some (hR hab hbc)

private theorem rel_refl {α : Type*} {R : α → α → Prop} (hR : ∀ a, R a a) (x : Option α) :
    Option.Rel R x x := by
  cases x with
  | none => exact .none
  | some a => exact .some (hR a)

namespace State

variable {s s' s'' : State} {now : Nat} {env : Env}

theorem Behind.refl (s : State) : s.Behind s where
  jobs _ := rel_refl JobRecord.Behind.refl _
  workers _ := rel_refl WorkerRecord.Behind.refl _
  sources := rfl
  penalties := rfl
  recent := rfl

theorem Behind.trans (h : s.Behind s') (h' : s'.Behind s'') : s.Behind s'' where
  jobs id := rel_trans (R := JobRecord.Behind) JobRecord.Behind.trans (h.jobs id) (h'.jobs id)
  workers w := rel_trans (R := WorkerRecord.Behind) WorkerRecord.Behind.trans (h.workers w) (h'.workers w)
  sources := h'.sources.trans h.sources
  penalties := h'.penalties.trans h.penalties
  recent := h'.recent.trans h.recent

/-- A poll moves only the times its sender was last seen. -/
theorem behind_engage (s : State) (w : H160) (now : Nat) : s.Behind (s.engage w now) where
  jobs := (Behind.refl s).jobs
  workers a := by
    show Option.Rel _ _ (s.workers.modify w _)[a]?
    rw [get_modify]
    split
    · cases s.workers[a]? with
      | none => exact .none
      | some r => exact .some rfl
    · exact rel_refl WorkerRecord.Behind.refl _
  sources := rfl
  penalties := rfl
  recent := rfl

/-- A heartbeat moves the expiry of one lease, within its limit. -/
theorem behind_extend {job : JobId} {r : JobRecord} {w : H160} {e d e' : Nat} {dirty : Bool}
    (hget : s.jobs[job]? = some r) (hstatus : r.status = .leased w e d) (hle : e ≤ e')
    (hlimit : e' ≤ hardDeadline e d) :
    s.Behind
      { s with
        jobs := s.jobs.modify job fun r =>
          { r with status := .leased w e' (hardDeadline e d) }
        dirty := dirty } where
  jobs id := by
    show Option.Rel _ _ (s.jobs.modify job _)[id]?
    rw [get_modify]
    split
    · rename_i hid
      subst hid
      rw [hget]
      exact .some ⟨rfl, hstatus ▸ .renewed w hle hlimit⟩
    · exact rel_refl JobRecord.Behind.refl _
  workers := (Behind.refl s).workers
  sources := rfl
  penalties := rfl
  recent := rfl

/-! ## A change that is not saved is a heartbeat or a poll -/

/-- A sweep that returns no lease changes nothing. -/
theorem foldl_visit_quiet (entries : List (JobId × JobRecord)) (acc : Sweep) :
    (entries.foldl (Sweep.visit now) acc).state.dirty = true ∨
      entries.foldl (Sweep.visit now) acc = acc := by
  have hdirty : ∀ (entries : List (JobId × JobRecord)) (acc : Sweep), acc.state.dirty = true →
      (entries.foldl (Sweep.visit now) acc).state.dirty = true := by
    intro entries
    induction entries with
    | nil => exact fun _ h => h
    | cons entry rest ih =>
        intro acc h
        refine ih _ ?_
        cases hlapsed : entry.2.status.lapsedHolder? now with
        | none => rw [Sweep.visit_of_none hlapsed, h]
        | some worker => rw [Sweep.visit_of_some hlapsed]
  induction entries with
  | nil => exact .inr rfl
  | cons entry rest ih =>
      rw [List.foldl_cons]
      cases hlapsed : entry.2.status.lapsedHolder? now with
      | none =>
          rw [Sweep.visit_of_none hlapsed]
          exact ih
      | some worker =>
          refine .inl (hdirty rest _ ?_)
          rw [Sweep.visit_of_some hlapsed]

theorem foldl_chargeSource_dirty (groups : List String) (s : State) :
    (groups.foldl (fun s g => s.chargeSource g now) s).dirty = s.dirty := by
  obtain ⟨sources, h⟩ := s.foldl_chargeSource now groups
  rw [h]

theorem expireLeases_quiet (s : State) (now : Nat) :
    (s.expireLeases now).1.dirty = true ∨ (s.expireLeases now).1 = s := by
  obtain hdirty | hsame := @foldl_visit_quiet now s.jobs.toList ⟨s, [], []⟩
  · left
    exact (foldl_chargeSource_dirty _ _).trans hdirty
  · right
    show (s.sweepJobs now).lapsedGroups.foldl _ (s.sweepJobs now).state = s
    rw [sweepJobs, hsame]
    rfl

theorem revokeLease_dirty {job : JobId} {r : JobRecord} (hget : s.jobs[job]? = some r) :
    (s.revokeLease job).dirty = true := by
  rw [revokeLease, hget]

theorem forgetWorker_dirty (id : H160) : (s.forgetWorker id now).dirty = s.dirty := by
  obtain ⟨_, h | ⟨-, h⟩⟩ := forgetWorker_spec (s := s) id now <;> rw [h]

/-- A registration of a new key must be saved, admitted or not. -/
theorem register_new_dirty {w : RegisteredWorker} (source : String)
    (hnew : s.workers[w.id]? = none) : (s.register w source now).1.dirty = true := by
  have hfold : ∀ (victims : List H160) (s : State), s.dirty = true →
      (victims.foldl (fun s v => s.forgetWorker v now) s).dirty = true := by
    intro victims
    induction victims with
    | nil => exact fun _ h => h
    | cons v rest ih => exact fun s h => ih _ ((forgetWorker_dirty v).trans h)
  obtain ⟨h, -⟩ | ⟨h, -⟩ := register_new source now hnew
  · rw [h]
    exact hfold _ _ rfl
  · rw [h]
    exact hfold _ _ rfl

theorem lease_quiet (env : Env) (s : State) (w : H160) (now : Nat) :
    (s.lease env w now).1.dirty = true ∨ s.Behind (s.lease env w now).1 := by
  have hpolled : (s.beforePick w now).dirty = true ∨ s.Behind (s.beforePick w now) := by
    obtain hdirty | hsame := expireLeases_quiet (s.engage w now) now
    · exact .inl hdirty
    · rw [beforePick, hsame]
      exact .inr (behind_engage s w now)
  obtain ⟨-, h⟩ | ⟨rec_, -, h | ⟨id, r, -, -, -, h⟩⟩ := lease_cases (s := s) env w now
  · rw [h]
    exact .inr (Behind.refl s)
  · rw [h]
    exact hpolled
  · rw [h]
    exact .inl rfl

theorem renew_quiet (hwithin : LeaseLedger.Within s.ledger) (w : H160) (job : JobId) (now : Nat) :
    (s.renew w job now).1.dirty = true ∨ s.Behind (s.renew w job now).1 := by
  obtain h | ⟨r, e, d, hget, hstatus, -, ⟨-, h⟩ | ⟨dirty, h⟩⟩ := renew_cases (s := s) w job now
  · rw [h]
    exact .inr (Behind.refl s)
  · rw [h]
    exact .inl (revokeLease_dirty hget)
  · have hlimit : e ≤ hardDeadline e d := hwithin job _ (held_of_status hget hstatus)
    rw [h]
    exact .inr ((behind_extend hget hstatus (le_max_right _ _)
      (max_le (min_le_right _ _) hlimit)).trans (behind_engage _ w now))

theorem submit_quiet (w : H160) (job : JobId) (result : String) (now : Nat) :
    (s.submit w job result now).1.dirty = true ∨ (s.submit w job result now).1 = s := by
  obtain h | ⟨r, e, d, hget, -, -, ⟨-, h⟩ | ⟨-, h⟩⟩ :=
    submit_cases (s := s) w job result now
  · exact .inr h
  · rw [h]
    exact .inl (revokeLease_dirty hget)
  · rw [h]
    exact .inl rfl

end State

namespace Service

variable {env : Env} {c : Service}

theorem perform_lease (who : H160) (ts now nowNanos : Nat) :
    (c.perform env (.request (.lease who ts) now nowNanos)).1 =
      (c.signed who ts nowNanos fun s => (s.lease env who now).1).1 := rfl

theorem perform_heartbeat (who : H160) (ts : Nat) (job : JobId) (now nowNanos : Nat) :
    (c.perform env (.request (.heartbeat who ts job) now nowNanos)).1 =
      (c.signed who ts nowNanos fun s => (s.renew who job now).1).1 := rfl

theorem perform_register (w : RegisteredWorker) (source : String) (ts now nowNanos : Nat) :
    (c.perform env (.request (.register w source ts) now nowNanos)).1 =
      (c.registerInner w source ts now nowNanos).1 := by
  rw [perform]
  split <;> rename_i hinner <;> rw [hinner]

theorem perform_submit (who : H160) (job : JobId) (result : String) (now : Nat) :
    (c.perform env (.submit who job result now)).1.state =
      (c.state.submit who job result now).1 := by
  rw [perform]
  split <;> rename_i hsubmit <;> rw [hsubmit]

/-- Of a signed request only the action can change the state. -/
theorem signed_state (who : H160) (ts nowNanos : Nat) (act : State → State) :
    (c.signed who ts nowNanos act).1.state = c.state ∨
      (c.signed who ts nowNanos act).1.state = act c.state := by
  unfold signed
  split
  · exact .inr rfl
  · split
    · exact .inr rfl
    · exact .inl rfl

/-- A registration under the lock changes nothing, or registers in vain, or
registers and notes the stamp, which it has not seen before. -/
theorem registerInner_state (w : RegisteredWorker) (source : String) (ts now nowNanos : Nat) :
    let out := c.registerInner w source ts now nowNanos
    ((∃ e, out.2 = .error e) ∧ (out.1.state = c.state ∨
      (c.state.workers[w.id]? = none ∧ out.1.state = (c.state.register w source now).1))) ∨
    ((∃ granted, out.2 = .ok granted) ∧ (w.id, ts) ∉ c.state.recentRegistrations ∧
      (∃ granted, (c.state.register w source now).2 = .ok granted) ∧
      out.1.state = ((c.state.register w source now).1.noteRegistration w.id ts nowNanos).1) := by
  unfold registerInner
  split
  · exact .inl ⟨⟨_, rfl⟩, .inl rfl⟩
  · rename_i hseen
    split
    · exact .inl ⟨⟨_, rfl⟩, .inl rfl⟩
    · split
      · exact .inl ⟨⟨_, rfl⟩, .inl rfl⟩
      · split
        · rename_i s e hregister
          refine .inl ⟨⟨_, rfl⟩, .inr ⟨?_, by rw [hregister]⟩⟩
          -- A refresh is never refused.
          cases hknown : c.state.workers[w.id]? with
          | none => rfl
          | some known =>
              simp only [State.register, hknown, Prod.mk.injEq] at hregister
              cases hregister.2
        · rename_i s granted hregister
          exact .inr ⟨⟨_, rfl⟩, by simpa [State.registrationSeen] using hseen,
            ⟨granted, by rw [hregister]⟩, by rw [hregister]⟩

/-- A registration that notes a new stamp must be saved. -/
theorem noteRegistration_dirty {s : State} {id : H160} {ts : Nat}
    (h : (id, ts) ∉ s.recentRegistrations) (nowNanos : Nat) :
    (s.noteRegistration id ts nowNanos).1.dirty = true := by
  have hnot : (id, ts) ∉ s.recentRegistrations.filter fun e =>
      absDiff e.2 nowNanos ≤ LEASE_FRESHNESS_NANOS :=
    fun hmem => h (Finset.mem_filter.mp hmem).1
  show (s.dirty || decide _) = true
  rw [decide_eq_true hnot, Bool.or_true]

/-- A request either asks for a save, or leaves the state as it was but for a
heartbeat or a poll. -/
theorem perform_quiet (hwithin : LeaseLedger.Within c.state.ledger) (m : Mutation) :
    (c.perform env m).1.state.dirty = true ∨ c.state.Behind (c.perform env m).1.state := by
  cases m with
  | request r now nowNanos =>
      cases r with
      | lease who ts =>
          rw [perform_lease]
          obtain h | h := signed_state (c := c) who ts nowNanos fun s => (s.lease env who now).1
          · exact .inr (h ▸ State.Behind.refl _)
          · have hquiet := State.lease_quiet env c.state who now
            rwa [← h] at hquiet
      | heartbeat who ts job =>
          rw [perform_heartbeat]
          obtain h | h := signed_state (c := c) who ts nowNanos fun s => (s.renew who job now).1
          · exact .inr (h ▸ State.Behind.refl _)
          · have hquiet := State.renew_quiet hwithin who job now
            rwa [← h] at hquiet
      | register w source ts =>
          rw [perform_register]
          obtain ⟨-, h | ⟨hnew, h⟩⟩ | ⟨-, hseen, -, h⟩ :=
            registerInner_state (c := c) w source ts now nowNanos
          · exact .inr (h ▸ State.Behind.refl _)
          · rw [h]
            exact .inl (State.register_new_dirty source hnew)
          · rw [h]
            refine .inl (noteRegistration_dirty ?_ nowNanos)
            rwa [State.register_recent]
  | submit who job result now =>
      rw [perform_submit]
      obtain h | h := State.submit_quiet (s := c.state) who job result now
      · exact .inl h
      · exact .inr (h.symm ▸ State.Behind.refl _)
  | addJob spec => exact .inl rfl

/-- What a request does to the state is one operation of the coordinator under
its policy, a registration's stamp noted besides, or nothing. -/
theorem perform_state (m : Mutation) :
    (c.perform env m).1.state = c.state ∨
      ∃ e : Event, e.op.KeepsPolicy c.state.policy ∧
        ((c.perform env m).1.state = c.state.apply env e ∨
          ∃ id ts nowNanos, (c.perform env m).1.state =
            ((c.state.apply env e).noteRegistration id ts nowNanos).1) := by
  cases m with
  | request r now nowNanos =>
      cases r with
      | lease who ts =>
          rw [perform_lease]
          exact (signed_state who ts nowNanos _).imp_right fun h =>
            ⟨⟨.lease who, now⟩, trivial, .inl h⟩
      | heartbeat who ts job =>
          rw [perform_heartbeat]
          exact (signed_state who ts nowNanos _).imp_right fun h =>
            ⟨⟨.renew who job, now⟩, trivial, .inl h⟩
      | register w source ts =>
          rw [perform_register]
          obtain ⟨-, h | ⟨-, h⟩⟩ | ⟨-, -, -, h⟩ :=
            registerInner_state (c := c) w source ts now nowNanos
          · exact .inl h
          · exact .inr ⟨⟨.register w source, now⟩, trivial, .inl h⟩
          · exact .inr ⟨⟨.register w source, now⟩, trivial, .inr ⟨_, _, _, h⟩⟩
  | submit who job result now =>
      rw [perform_submit]
      exact .inr ⟨⟨.submit who job result, now⟩, trivial, .inl rfl⟩
  | addJob spec => exact .inr ⟨⟨.addJob spec, 0⟩, trivial, .inl rfl⟩

end Service

namespace State

variable {s : State} {now : Nat} {env : Env} {policy : Policy}

theorem takeDirty_clean : s.takeDirty.1.dirty = false := by
  unfold takeDirty
  split
  · rfl
  · rename_i hclean
    exact Bool.eq_false_iff.mpr hclean

theorem takeDirty_of_clean (h : s.dirty = false) : s.takeDirty.1 = s := by
  rw [takeDirty, h]
  rfl

theorem apply_within {e : Event} (hkeyed : s.WellKeyed) (h : LeaseLedger.Within s.ledger) :
    LeaseLedger.Within (s.apply env e).ledger := by
  have hpath : e.op.Fresh s → LeaseLedger.Within (s.apply env e).ledger :=
    fun hfresh => (apply_path env hkeyed hfresh).within h
  obtain ⟨op, now⟩ := e
  cases op with
  | addJob spec =>
      -- A job published again is free again, whoever held it.
      show LeaseLedger.Within (s.addJob spec).ledger
      rw [addJob, ledger_insert_job]
      exact within_setPhase h fun lease hlease => by cases hlease
  | register w source => exact hpath trivial
  | lease worker => exact hpath trivial
  | renew worker job => exact hpath trivial
  | submit worker job result => exact hpath trivial
  | expireLeases => exact hpath trivial
  | revokeOutOfPolicy => exact hpath trivial
  | graceLiveLeases => exact hpath trivial
  | restart policy => exact hpath trivial

/-! ## Reopening -/

theorem foldl_revokeLease_dirty (ids : List JobId) (h : s.dirty = true) :
    (ids.foldl revokeLease s).dirty = true := by
  induction ids generalizing s with
  | nil => exact h
  | cons id rest ih =>
      refine ih ?_
      unfold revokeLease
      split
      · exact h
      · rfl

theorem outOfPolicy_of_clean (h : s.revokeOutOfPolicy.1.dirty = false) : s.outOfPolicy = [] := by
  cases hout : s.outOfPolicy with
  | nil => rfl
  | cons id rest =>
      obtain ⟨r, -, -, -, hget, -, -⟩ := mem_outOfPolicy.mp (hout ▸ List.mem_cons_self)
      have hdirty : s.revokeOutOfPolicy.1.dirty = true := by
        show (s.outOfPolicy.foldl revokeLease s).dirty = true
        rw [hout]
        exact foldl_revokeLease_dirty rest (revokeLease_dirty hget)
      rw [h] at hdirty
      cases hdirty

/-- Opening a file without saving it changes nothing the file holds. -/
theorem reopened_of_clean (h : (s.reload.reopened policy now).dirty = false) :
    s.Behind (s.reload.reopened policy now) := by
  have hgrace : (_ || _) = false := h
  rw [Bool.or_eq_false_iff] at hgrace
  obtain ⟨hrevoked, hkept⟩ := hgrace
  have hnone := outOfPolicy_of_clean hrevoked
  have hsame : ({ s.reload with policy := policy } : State).revokeOutOfPolicy.1 =
      { s.reload with policy := policy } := by
    show (State.outOfPolicy _).foldl revokeLease _ = _
    rw [hnone]
    rfl
  rw [hsame] at hkept
  rw [reopened, hsame]
  refine ⟨fun id => ?_, fun w => rel_refl WorkerRecord.Behind.refl _, rfl, rfl, rfl⟩
  rw [graceLiveLeases_job]
  show Option.Rel _ _ (Option.map _ ((s.jobs.map _)[id]?))
  rw [get_map]
  cases hget : s.jobs[id]? with
  | none => exact .none
  | some r =>
      have hentry : (id, { r with persistedExpiry := 0 }) ∈
          ({ s.reload with policy := policy } : State).jobs.toList := by
        rw [mem_entries]
        show (s.jobs.map _)[id]? = _
        rw [get_map, hget]
        rfl
      have hstatus := List.any_eq_false.mp hkept _ hentry
      rw [decide_eq_true_eq, not_not] at hstatus
      exact .some ⟨rfl, hstatus.symm ▸ JobStatus.Behind.same _⟩

/-- What reopening under a policy makes of the status of a job. -/
def reopenedStatus (policy : Policy) (now : Nat) (r : JobRecord) : JobStatus :=
  if r.status.holder?.any fun w => !policy.tierAllowed w r.spec.requires then .pending
  else r.status.grace policy.leaseWindowSecs now

/-- A reopened job has the record of the file, but for its status. -/
theorem restart_job {id : JobId} {r : JobRecord} (hget : s.jobs[id]? = some r) :
    ∃ persisted, (s.restart policy now).jobs[id]? =
      some { r with status := reopenedStatus policy now r, persistedExpiry := persisted } := by
  let opened : State := { s.reload with policy := policy }
  have hopened : opened.jobs[id]? = some { r with persistedExpiry := 0 } := by
    show (s.jobs.map _)[id]? = _
    rw [get_map, hget]
    rfl
  have hpolicy : opened.revokeOutOfPolicy.1.policy = policy :=
    (foldl_revokeLease_frame opened.outOfPolicy).2
  have hgraced : (opened.revokeOutOfPolicy.1.graceLiveLeases now).jobs[id]? =
      some { r with status := reopenedStatus policy now r, persistedExpiry := 0 } := by
    rw [graceLiveLeases_job, hpolicy]
    show Option.map _ (opened.outOfPolicy.foldl revokeLease opened).jobs[id]? = _
    rw [foldl_revokeLease_job, hopened]
    by_cases hout : id ∈ opened.outOfPolicy
    · obtain ⟨r', w, e, d, hr', hstatus, htier⟩ := mem_outOfPolicy.mp hout
      obtain rfl := Option.some.inj (hopened.symm.trans hr')
      have hlease : r.status = .leased w e d := hstatus
      have hforbidden : policy.tierAllowed w r.spec.requires = false := htier
      simp [hout, reopenedStatus, hlease, JobStatus.holder?, hforbidden, JobStatus.grace]
    · have hkept : (r.status.holder?.any fun w => !policy.tierAllowed w r.spec.requires) =
          false := by
        cases hstatus : r.status with
        | leased w e d =>
            refine Bool.eq_false_iff.mpr fun hforbidden => hout (mem_outOfPolicy.mpr
              ⟨_, w, e, d, hopened, hstatus, ?_⟩)
            simpa [JobStatus.holder?] using hforbidden
        | _ => rfl
      simp [hout, reopenedStatus, hkept]
  show ∃ persisted, (opened.revokeOutOfPolicy.1.graceLiveLeases now).takeDirty.1.jobs[id]? = _
  unfold takeDirty
  split
  · rw [get_map, hgraced]
    dsimp only [Option.map_some]
    split
    · exact ⟨_, rfl⟩
    · exact ⟨0, rfl⟩
  · exact ⟨0, hgraced⟩

theorem restart_workers : (s.restart policy now).workers = s.workers := by
  have htake : ∀ t : State, t.takeDirty.1.workers = t.workers := by
    intro t
    unfold takeDirty
    split <;> rfl
  exact (htake _).trans (foldl_revokeLease_frame _).1

/-- A lease the policy allows is kept by its holder, to be extended as far as
before; inside its limit it has a fresh window. -/
theorem reopenedStatus_leased {r : JobRecord} {w : H160} {e d : Nat}
    (hstatus : r.status = .leased w e d) (hallowed : policy.tierAllowed w r.spec.requires = true)
    (hwithin : e ≤ hardDeadline e d) :
    ∃ e' d', reopenedStatus policy now r = .leased w e' d' ∧
      hardDeadline e' d' = hardDeadline e d ∧ e' ≤ hardDeadline e d ∧
      (now < hardDeadline e d →
        min (satAdd now policy.leaseWindowSecs) (hardDeadline e d) ≤ e') := by
  have hkept : reopenedStatus policy now r =
      (JobStatus.leased w e d).grace policy.leaseWindowSecs now := by
    simp [reopenedStatus, hstatus, JobStatus.holder?, hallowed]
  rw [hkept, JobStatus.grace]
  dsimp only
  split
  · rename_i hlive
    have hle : max (min (satAdd now policy.leaseWindowSecs) (hardDeadline e d)) e ≤
        hardDeadline e d := max_le (min_le_right _ _) hwithin
    split
    · exact ⟨_, _, rfl, hardDeadline_again hle, hle, fun _ => le_max_left _ _⟩
    · rename_i hsame
      rw [not_not] at hsame
      exact ⟨e, d, rfl, rfl, hwithin, fun _ => (le_max_left _ _).trans hsame.le⟩
  · rename_i hlapsed
    exact ⟨e, d, rfl, rfl, hwithin, fun hlive => absurd hlive hlapsed⟩

end State

/-! ## Runs of a node -/

/-- A lease in the file is within its limit too. -/
theorem JobStatus.Behind.within {w : H160} {e d : Nat} {m : JobStatus}
    (h : (JobStatus.leased w e d).Behind m)
    (hm : ∀ e' d', m = .leased w e' d' → e' ≤ hardDeadline e' d') : e ≤ hardDeadline e d := by
  cases h with
  | same => exact hm e d rfl
  | renewed _ hle hlimit => exact hle.trans hlimit

/-- What holds of a node between two requests. -/
structure Node.Sound (n : Node) : Prop where
  keyed : n.service.state.WellKeyed
  /-- Nothing waits to be saved. -/
  clean : n.service.state.dirty = false
  inPolicy : n.service.state.InPolicy
  within : LeaseLedger.Within n.service.state.ledger
  behind : n.disk.Behind n.service.state

namespace Node

variable {n : Node} {env : Env}

theorem sound_init (policy : Policy) : (Node.init policy).Sound where
  keyed := init_wellKeyed policy
  clean := rfl
  inPolicy id r w hget := by
    simp [Node.init, State.empty] at hget
  within id lease hheld := absurd hheld (init_not_held policy id lease)
  behind :=
    { jobs := fun _ => rel_refl JobRecord.Behind.refl _
      workers := fun _ => rel_refl WorkerRecord.Behind.refl _
      sources := rfl
      penalties := rfl
      recent := rfl }

/-- A request keeps the jobs under their ids, the leases in policy and within
their limits. -/
theorem Sound.perform (h : n.Sound) (m : Mutation) :
    (n.service.perform env m).1.state.WellKeyed ∧ (n.service.perform env m).1.state.InPolicy ∧
      LeaseLedger.Within (n.service.perform env m).1.state.ledger := by
  obtain hsame | ⟨e, hpolicy, happly⟩ := @Service.perform_state env n.service m
  · rw [hsame]
    exact ⟨h.keyed, h.inPolicy, h.within⟩
  · have hkeyed : (n.service.state.apply env e).WellKeyed := h.keyed.apply
    have hin := @State.InPolicy.apply _ env _ h.inPolicy h.keyed hpolicy
    have hwithin : LeaseLedger.Within (n.service.state.apply env e).ledger :=
      State.apply_within h.keyed h.within
    obtain happly | ⟨id, ts, nowNanos, happly⟩ := happly
    · rw [happly]
      exact ⟨hkeyed, hin, hwithin⟩
    · rw [happly]
      exact ⟨hkeyed, hin, hwithin⟩

/-- Saving, or finding nothing to save, keeps what a request keeps. -/
theorem sound_takeDirty {s : State} (hkeyed : s.WellKeyed) (hin : s.InPolicy)
    (hwithin : LeaseLedger.Within s.ledger) {disk : State} (hquiet : s.dirty = false → disk.Behind s)
    (admission : Admission) (budget : RegistrationBudget) :
    Sound ⟨⟨s.takeDirty.1, admission, budget⟩, if s.dirty then s.takeDirty.1 else disk⟩ where
  keyed := hkeyed.takeDirty
  clean := State.takeDirty_clean
  inPolicy := hin.of_leasesFrom State.leasesFrom_takeDirty State.takeDirty_policy
  within := by
    show LeaseLedger.Within s.takeDirty.1.ledger
    rw [State.takeDirty_ledger]
    exact hwithin
  behind := by
    show State.Behind (if s.dirty then s.takeDirty.1 else disk) s.takeDirty.1
    cases hdirty : s.dirty with
    | true => exact State.Behind.refl _
    | false =>
        rw [State.takeDirty_of_clean hdirty]
        exact hquiet hdirty

theorem Sound.mutate (h : n.Sound) (m : Mutation) : (n.mutate env m).Sound := by
  obtain ⟨hkeyed, hin, hwithin⟩ := @Sound.perform n env h m
  have hquiet : (n.service.perform env m).1.state.dirty = false →
      n.disk.Behind (n.service.perform env m).1.state := by
    intro hclean
    obtain hdirty | hbehind := @Service.perform_quiet env _ h.within m
    · rw [hclean] at hdirty
      cases hdirty
    · exact h.behind.trans hbehind
  have hsaved := sound_takeDirty hkeyed hin hwithin hquiet
    (n.service.perform env m).1.admission (n.service.perform env m).1.newRegistrations
  have hpersist : (n.service.perform env m).1.persist true =
      ⟨(n.service.perform env m).1.state.takeDirty.1, (n.service.perform env m).1.admission,
        (n.service.perform env m).1.newRegistrations⟩ := by
    simp [Service.persist]
  rw [Node.mutate, hpersist]
  exact hsaved

/-- A job in memory is in the file, but for its heartbeats; and the other way. -/
theorem Sound.job (h : n.Sound) {id : JobId} {m : JobRecord}
    (hget : n.service.state.jobs[id]? = some m) :
    ∃ d, n.disk.jobs[id]? = some d ∧ d.Behind m := by
  have hrel := h.behind.jobs id
  rw [hget] at hrel
  cases hd : n.disk.jobs[id]? with
  | none =>
      rw [hd] at hrel
      cases hrel
  | some d =>
      rw [hd] at hrel
      cases hrel with
      | some hbehind => exact ⟨d, rfl, hbehind⟩

theorem Sound.job_of_disk (h : n.Sound) {id : JobId} {d : JobRecord}
    (hget : n.disk.jobs[id]? = some d) :
    ∃ m, n.service.state.jobs[id]? = some m ∧ d.Behind m := by
  have hrel := h.behind.jobs id
  rw [hget] at hrel
  cases hm : n.service.state.jobs[id]? with
  | none =>
      rw [hm] at hrel
      cases hrel
  | some m =>
      rw [hm] at hrel
      cases hrel with
      | some hbehind => exact ⟨m, rfl, hbehind⟩

theorem Sound.disk_within (h : n.Sound) : LeaseLedger.Within n.disk.ledger := by
  intro id lease hheld
  obtain ⟨r, d, hget, hstatus, hhard⟩ := State.held_iff.mp hheld
  obtain ⟨m, hm, -, hbehind⟩ := h.job_of_disk hget
  rw [hstatus] at hbehind
  rw [hhard]
  exact hbehind.within fun e' d' hleased => h.within id _ (State.held_of_status hm hleased)

theorem Sound.disk_keyed (h : n.Sound) : n.disk.WellKeyed := by
  intro id d hget
  obtain ⟨m, hm, hsame, -⟩ := h.job_of_disk hget
  have hid := h.keyed id m hm
  rw [hsame] at hid
  exact hid

theorem Sound.crash (h : n.Sound) (policy : Policy) (now : Nat) : (n.crash policy now).Sound := by
  have hreload : n.disk.reload.WellKeyed := h.disk_keyed.of_map (fun _ => get_map) fun _ _ => rfl
  have hopened : ({ n.disk.reload with policy := policy } : State).WellKeyed := hreload
  have hgraced := State.inPolicy_revokeOutOfPolicy (s := { n.disk.reload with policy := policy })
  have hrestart : LeaseLedger.Within (n.disk.restart policy now).ledger :=
    (@State.restart_path _ _ policy.rules _).within h.disk_within
  have hwithin : LeaseLedger.Within (n.disk.reload.reopened policy now).ledger := by
    rw [← State.takeDirty_ledger]
    exact hrestart
  exact sound_takeDirty (hopened.revokeOutOfPolicy.graceLiveLeases now)
    (hgraced.of_leasesFrom State.leasesFrom_graceLiveLeases rfl) hwithin
    State.reopened_of_clean _ _

theorem run_sound (env : Env) (policy : Policy) (events : List NodeEvent) :
    ((nodeMachine env).run (Node.init policy) events).Sound := by
  have hrun : (nodeMachine env).Along (fun _ _ => True) (Node.init policy) events :=
    Machine.along_iff_forall_prefix.mpr fun _ _ _ => trivial
  refine Machine.run_invariant Sound (fun n e hsound _ => ?_) (sound_init policy) hrun
  cases e with
  | mutate m => exact hsound.mutate m
  | crash policy now => exact hsound.crash policy now

end Node

/-! ## What was acknowledged -/

namespace State

variable {s : State} {now : Nat} {env : Env}

/-- An admitted registration is in the registry with what it claims. -/
theorem register_present {w : RegisteredWorker} {source : String} {granted : Capability}
    (h : (s.register w source now).2 = .ok granted) :
    (Ack.registered w).Present (s.register w source now).1 := by
  cases hknown : s.workers[w.id]? with
  | some known =>
      refine ⟨known.refresh w now, ?_, rfl, rfl, rfl, rfl⟩
      simp only [register, hknown]
      rw [get_modify, if_pos rfl, hknown]
      rfl
  | none =>
      obtain ⟨-, e, herror⟩ | ⟨hstate, -⟩ := register_new source now hknown
      · rw [herror] at h
        cases h
      · rw [hstate, admitWorker]
        exact ⟨_, by rw [get_insert, if_pos rfl], rfl, rfl, rfl, rfl⟩

theorem lease_present {w : H160} {spec : JobSpec} (hkeyed : s.WellKeyed)
    (h : (s.lease env w now).2 = .ok spec) :
    (Ack.granted w spec).Present (s.lease env w now).1 := by
  obtain ⟨⟨e, herror⟩, -⟩ | ⟨rec_, id, r, -, -, hid, -, hanswer, hjobs⟩ :=
    lease_answer env w now hkeyed
  · rw [herror] at h
    cases h
  · rw [hanswer] at h
    obtain rfl := Except.ok.inj h
    refine ⟨r.grant w (s.beforePick w now).policy.leaseWindowSecs now, ?_, rfl, rfl⟩
    rw [hjobs, get_insert, if_pos hid.symm]

theorem submit_present {w : H160} {job : JobId} {result : String}
    (h : (s.submit w job result now).2 = .ok ()) :
    (Ack.accepted w job result).Present (s.submit w job result now).1 := by
  unfold submit at h ⊢
  split at h
  · cases h
  · rename_i r hget
    split at h
    · rename_i holder e d hstatus
      split at h
      · cases h
      · rename_i hallowed
        split at h
        · cases h
        · rename_i hholder
          split at h
          · cases h
          · rename_i hlive
            simp only [if_neg hallowed, if_neg hholder, if_neg hlive]
            refine ⟨{ r with status := .done w now, result := some result }, now, ?_, rfl, rfl⟩
            show (s.jobs.modify job _)[job]? = _
            rw [get_modify, if_pos rfl, hget]
            rfl
    · cases h

theorem present_takeDirty {ack : Ack} (h : ack.Present s) : ack.Present s.takeDirty.1 := by
  unfold takeDirty
  split
  · cases ack with
    | registered w => exact h
    | granted who spec =>
        obtain ⟨r, hget, hspec, hholder⟩ := h
        show ∃ r, (s.jobs.map _)[spec.id]? = some r ∧ _
        rw [get_map, hget]
        refine ⟨_, rfl, ?_, ?_⟩
        · dsimp only
          split <;> exact hspec
        · dsimp only
          split <;> exact hholder
    | accepted who job result =>
        obtain ⟨r, at_, hget, hdone, hresult⟩ := h
        refine ⟨r, at_, ?_, hdone, hresult⟩
        show (s.jobs.map _)[job]? = _
        rw [get_map, hget]
        simp [hdone]
  · exact h

end State

/-- What a request acknowledges is in memory when it does. -/
theorem Service.perform_present {env : Env} {c : Service} {m : Mutation} {ack : Ack}
    (hkeyed : c.state.WellKeyed) (h : (c.perform env m).2 = some ack) :
    ack.Present (c.perform env m).1.state := by
  cases m with
  | request r now nowNanos =>
      cases r with
      | lease who ts =>
          rw [perform_lease]
          unfold perform at h
          simp only [Service.signed] at h ⊢
          split
          · rename_i hunknown
            simp [hunknown] at h
          · rename_i hknown
            simp only [if_neg hknown] at h
            split
            · rename_i hadmitted
              simp only [hadmitted] at h
              split at h
              · rename_i spec hanswer
                obtain rfl := Option.some.inj h
                exact State.lease_present hkeyed hanswer
              · cases h
            · rename_i hrefused
              simp [hrefused] at h
      | heartbeat who ts job => cases h
      | register w source ts =>
          rw [perform_register]
          rw [perform] at h
          split at h
          · rename_i c' granted hinner
            obtain rfl := Option.some.inj h
            obtain ⟨⟨e, herror⟩, -⟩ | ⟨-, -, ⟨granted', hok⟩, hstate⟩ :=
              registerInner_state (c := c) w source ts now nowNanos
            · rw [hinner] at herror
              cases herror
            · rw [hstate]
              exact State.register_present hok
          · cases h
  | submit who job result now =>
      rw [perform_submit]
      rw [perform] at h
      split at h
      · rename_i s hsubmit
        obtain rfl := Option.some.inj h
        exact State.submit_present (by rw [hsubmit])
      · cases h
  | addJob spec => cases h

theorem JobStatus.Behind.leased {status : JobStatus} {w : H160} {e d : Nat}
    (h : status.Behind (.leased w e d)) :
    ∃ e₀ d₀, status = .leased w e₀ d₀ ∧ hardDeadline e₀ d₀ = hardDeadline e d := by
  cases h with
  | same => exact ⟨e, d, rfl, rfl⟩
  | renewed _ hle hlimit => exact ⟨_, _, rfl, (hardDeadline_again hlimit).symm⟩

/-- A lease in memory is in the reopened file, held by the same worker and with
the same limit; inside that limit it has a fresh window. -/
theorem Node.Sound.lease_kept {n : Node} (h : n.Sound) {id : JobId} {m : JobRecord} {w : H160}
    {x d : Nat} (hget : n.service.state.jobs[id]? = some m) (hstatus : m.status = .leased w x d)
    (t : Nat) :
    ∃ r' x' d', (n.disk.restart n.service.state.policy t).jobs[id]? = some r' ∧
      r'.spec = m.spec ∧ r'.status = .leased w x' d' ∧
      hardDeadline x' d' = hardDeadline x d ∧ x' ≤ hardDeadline x d ∧
      (t < hardDeadline x d →
        min (satAdd t n.service.state.policy.leaseWindowSecs) (hardDeadline x d) ≤ x') := by
  obtain ⟨r, hr, hsame, hbehind⟩ := h.job hget
  have hspec : m.spec = r.spec := by rw [hsame]
  rw [hstatus] at hbehind
  obtain ⟨e₀, d₀, hleased, hlimit⟩ := hbehind.leased
  have hallowed : n.service.state.policy.tierAllowed w r.spec.requires = true :=
    hspec ▸ h.inPolicy id m w hget (by rw [hstatus]; rfl)
  have hwithin := h.disk_within id _ (State.held_of_status hr hleased)
  obtain ⟨persisted, hjob⟩ := @State.restart_job _ t n.service.state.policy _ _ hr
  obtain ⟨x', d', hstatus', hlimit', hle, hfresh⟩ :=
    @State.reopenedStatus_leased t _ _ _ _ _ hleased hallowed hwithin
  rw [hlimit] at hlimit' hle hfresh
  exact ⟨_, x', d', hjob, hspec.symm, hstatus', hlimit', hle, hfresh⟩

/-- What memory shows, the file reopened under the same policy shows. -/
theorem Node.Sound.present {n : Node} (h : n.Sound) {ack : Ack}
    (hpresent : ack.Present n.service.state) (t : Nat) :
    ack.Present (n.disk.restart n.service.state.policy t) := by
  cases ack with
  | registered w =>
      obtain ⟨m, hget, hclaims⟩ := hpresent
      have hrel := h.behind.workers w.id
      rw [hget] at hrel
      show ∃ r, (n.disk.restart n.service.state.policy t).workers[w.id]? = some r ∧ _
      rw [State.restart_workers]
      cases hd : n.disk.workers[w.id]? with
      | none =>
          rw [hd] at hrel
          cases hrel
      | some d =>
          rw [hd] at hrel
          cases hrel with
          | some hbehind =>
              rw [hbehind] at hclaims
              exact ⟨d, rfl, hclaims⟩
  | granted who spec =>
      obtain ⟨m, hget, hspec, hholder⟩ := hpresent
      cases hstatus : m.status with
      | leased w x d =>
          rw [hstatus] at hholder
          obtain rfl := Option.some.inj hholder
          obtain ⟨r', x', d', hjob, hspec', hstatus', -⟩ := h.lease_kept hget hstatus t
          exact ⟨r', hjob, hspec'.trans hspec, by rw [hstatus']; rfl⟩
      | _ =>
          rw [hstatus] at hholder
          cases hholder
  | accepted who job result =>
      obtain ⟨m, at_, hget, hdone, hresult⟩ := hpresent
      obtain ⟨d, hd, hsame, hbehind⟩ := h.job hget
      have hstatus : d.status = .done who at_ := by
        rw [hdone] at hbehind
        generalize d.status = status at hbehind
        cases hbehind
        rfl
      obtain ⟨persisted, hjob⟩ :=
        @State.restart_job _ t n.service.state.policy _ _ hd
      refine ⟨_, at_, hjob, ?_, ?_⟩
      · simp [State.reopenedStatus, hstatus, JobStatus.holder?, JobStatus.grace]
      · rw [hsame] at hresult
        exact hresult

/-- What is acknowledged need not be there at a restart much later: a slot of
the source is reclaimed from a worker not seen for a day. -/
def oneSlot : Policy := { Policy.default with maxWorkersPerSource := 1 }

def reclaimingRun : List NodeEvent :=
  [.mutate (.request (.register (probeWorker 1) "s" 10000000000) 10 10000000000),
    .mutate (.request (.register (probeWorker 2) "s" 90000000000000) 90000 90000000000000)]

theorem reclaimed_registration_not_reopened :
    Ack.registered (probeWorker 1) ∈ acknowledged plainEnv (Node.init oneSlot) reclaimingRun ∧
      ¬ (Ack.registered (probeWorker 1)).Present
        (((nodeMachine plainEnv).run (Node.init oneSlot) reclaimingRun).disk.restart
          oneSlot 90001) := by
  have hacks : acknowledged plainEnv (Node.init oneSlot) reclaimingRun =
      [.registered (probeWorker 1), .registered (probeWorker 2)] := rfl
  have hgone : (((nodeMachine plainEnv).run (Node.init oneSlot) reclaimingRun).disk.restart
      oneSlot 90001).workers[(probeWorker 1).id]? = none := by decide
  refine ⟨hacks ▸ List.mem_cons_self, ?_⟩
  rintro ⟨r, hget, -⟩
  rw [hgone] at hget
  cases hget

/-- **A restart does not lose or steal acknowledged work.**  After any run of
requests and restarts in which every save succeeds, whatever the policies it was
reopened under: what the next request acknowledges is in memory the moment it
does; and if the process stops now and is opened again at `t` under the policy
it ran under, every registration, lease and accepted result that memory shows
is there again, every lease of memory whose limit is after `t` is held by the
same worker until at least the end of a fresh window or its limit, and at most
that limit, and no worker holds a lease it did not hold in memory. -/
theorem restart_keeps_acknowledged (env : Env) (policy : Policy) (events : List NodeEvent) :
    let node := (nodeMachine env).run (Node.init policy) events
    (∀ (m : Mutation) (ack : Ack), node.ack? env m = some ack →
      ack.Present (node.mutate env m).service.state) ∧
    ∀ t : Nat,
      let reopened := node.disk.restart node.service.state.policy t
      (∀ ack : Ack, ack.Present node.service.state → ack.Present reopened) ∧
      (∀ (id : JobId) (r : JobRecord) (w : H160) (x d : Nat),
        node.service.state.jobs[id]? = some r → r.status = .leased w x d →
        t < hardDeadline x d →
        ∃ r' x' d', reopened.jobs[id]? = some r' ∧ r'.spec = r.spec ∧
          r'.status = .leased w x' d' ∧ hardDeadline x' d' = hardDeadline x d ∧
          min (satAdd t node.service.state.policy.leaseWindowSecs) (hardDeadline x d) ≤ x' ∧
          x' ≤ hardDeadline x d) ∧
      (∀ (id : JobId) (r' : JobRecord) (w : H160), reopened.jobs[id]? = some r' →
        r'.status.holder? = some w →
        ∃ r, node.service.state.jobs[id]? = some r ∧ r.spec = r'.spec ∧
          r.status.holder? = some w) := by
  intro node
  have hsound : node.Sound := Node.run_sound env policy events
  refine ⟨?_, fun t => ⟨?_, ?_, ?_⟩⟩
  · intro m ack hack
    have hpresent := Service.perform_present hsound.keyed hack
    show ack.Present ((node.service.perform env m).1.persist true).state
    simp only [Service.persist, Bool.not_true, Bool.and_false]
    exact State.present_takeDirty hpresent
  · intro ack hpresent
    exact hsound.present hpresent t
  · intro id r w x d hget hstatus hlive
    obtain ⟨r', x', d', hjob, hspec, hstatus', hlimit, hle, hfresh⟩ :=
      hsound.lease_kept hget hstatus t
    exact ⟨r', x', d', hjob, hspec, hstatus', hlimit, hfresh hlive, hle⟩
  · intro id r' w hjob hheld
    obtain ⟨d, hd, hspec, hholder⟩ := (State.leasesFrom_reload.trans
      (State.leasesFrom_openWith node.service.state.policy)) id r' w hjob hheld
    obtain ⟨m, hm, hsame, hbehind⟩ := hsound.job_of_disk hd
    have hspec' : m.spec = d.spec := by rw [hsame]
    refine ⟨m, hm, hspec'.trans hspec, ?_⟩
    generalize d.status = stored at hbehind hholder
    generalize m.status = live at hbehind ⊢
    cases hbehind with
    | same => exact hholder
    | renewed => exact hholder

end Coordinator
end ComputePool
