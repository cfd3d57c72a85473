import ComputePool.Coordinator.Run

/-!
# Exclusive leases and final results

What holds of every run of the coordinator, restarts under any policy included:
a worker never holds two leases, a job becomes done only in a submission by the
holder of its live lease, and a done job stays as it is.
-/

namespace ComputePool
namespace Coordinator

open RustStd LeaseLedger

section Step

variable {env : Env} {s : State} {e : Event}

theorem done_iff {id : JobId} {w : H160} {at_ : Nat} {result : Option String} :
    s.ledger.phase id = some (.closed (w, at_, result)) ↔
      ∃ r, s.jobs[id]? = some r ∧ r.status = .done w at_ ∧ r.result = result := by
  simp only [State.ledger, Option.map_eq_some_iff, JobRecord.phase_eq_closed]

/-- Only a submission has a finishing transition. -/
theorem acts_finish {job : JobId} {w : H160} {record : Accepted}
    (h : Acts s e (.finish job w record)) :
    ∃ result, e.op = .submit w job result ∧ record = (w, e.now, some result) ∧
      ∃ r, s.jobs[job]? = some r ∧ s.policy.tierAllowed w r.spec.requires = true := by
  obtain ⟨op, now⟩ := e
  cases op with
  | submit worker job' result =>
      obtain hbad | ⟨hfinish, r, hget, htier⟩ := h
      · cases hbad
      · cases hfinish
        exact ⟨result, rfl, rfl, r, hget, htier⟩
  | addJob spec => cases h
  | register w' source => obtain ⟨v, -, hbad⟩ | hbad := h <;> cases hbad
  | lease worker => obtain ⟨id, hbad⟩ | ⟨id, lease, hbad, -⟩ := h <;> cases hbad
  | renew worker job' => obtain hbad | ⟨expires, hbad⟩ := h <;> cases hbad
  | expireLeases => obtain ⟨id, hbad⟩ := h; cases hbad
  | revokeOutOfPolicy => obtain ⟨id, hbad⟩ := h; cases hbad
  | graceLiveLeases => obtain ⟨id, expires, hbad⟩ := h; cases hbad
  | restart policy => obtain ⟨id, hbad⟩ | ⟨id, expires, hbad⟩ := h <;> cases hbad

/-- A step that makes a job done is a submission by the holder of the job's live
lease, at a tier the policy allows it. -/
theorem done_step {id : JobId} {w : H160} {at_ : Nat} {result : Option String}
    (hkeyed : s.WellKeyed) (hfresh : e.op.Fresh s)
    (hdone : (s.apply env e).ledger.phase id = some (.closed (w, at_, result))) :
    s.ledger.phase id = some (.closed (w, at_, result)) ∨
      ∃ text r expires deadline, e.op = .submit w id text ∧ s.jobs[id]? = some r ∧
        r.status = .leased w expires deadline ∧ e.now < expires ∧
        s.policy.tierAllowed w r.spec.requires = true ∧ at_ = e.now ∧ result = some text := by
  obtain hbefore | ⟨worker, hacts⟩ :=
    (State.apply_path env hkeyed hfresh).closed_by_finish hdone
  · exact .inl hbefore
  obtain ⟨text, hop, hrecord, -⟩ := acts_finish hacts
  simp only [Prod.mk.injEq] at hrecord
  obtain ⟨rfl, rfl, rfl⟩ := hrecord
  have happly : s.apply env e = (s.submit w id text e.now).1 := by
    rw [State.apply, hop]
  rw [happly] at hdone
  obtain hsame | ⟨r, expires, d, hget, hstatus, hlive, ⟨-, hrevoked⟩ | ⟨htier, -⟩⟩ :=
    State.submit_cases (s := s) w id text e.now
  · exact .inl (hsame ▸ hdone)
  · -- A revoked job is back in the pool, so it is not done.
    rw [hrevoked] at hdone
    simp [State.ledger, State.revokeLease_job, hget, JobRecord.phase] at hdone
  · exact .inr ⟨text, r, expires, d, hop, hget, hstatus, hlive, htier, rfl, rfl⟩

end Step

/-- A run that starts from the empty store keeps every job under its own id and
every lease exclusive. -/
theorem run_exclusive {env : Env} {policy : Policy} {events : List Event}
    (hrun : (machine env).Along Admissible (World.init policy) events) :
    ((machine env).run (World.init policy) events).state.WellKeyed ∧
      Exclusive ((machine env).run (World.init policy) events).state.ledger :=
  machine_run_ledger _ (fun _ _ _ _ _ hinv hfires => hfires.exclusive hinv)
    (init_wellKeyed policy)
    (fun _ _ _ _ hheld _ _ => absurd hheld (init_not_held policy _ _)) hrun

/-- A done job stays as it is through any continuation of a run. -/
theorem run_done_stable {env : Env} {world : World} {more : List Event} {id : JobId}
    {record : Accepted} (hkeyed : world.state.WellKeyed)
    (hmore : (machine env).Along Admissible world more)
    (hdone : world.state.ledger.phase id = some (.closed record)) :
    ((machine env).run world more).state.ledger.phase id = some (.closed record) :=
  (machine_run_ledger (fun l => l.phase id = some (.closed record))
    (fun _ _ _ _ _ hinv hfires => hfires.closed_stable hinv) hkeyed hdone hmore).2

/-- **Exclusive lease and final result.**  After every admissible run from the
empty store: no worker holds two leases; whatever comes next, a job that
becomes done does so in a submission by the holder of its live lease, at a tier
the policy allows that caller at that moment; and a done job keeps its status
and its result through every continuation. -/
theorem leases_exclusive_and_results_final (env : Env) (policy : Policy)
    (events : List Event)
    (hrun : (machine env).Along Admissible (World.init policy) events) :
    let world := (machine env).run (World.init policy) events
    (∀ (id id' : JobId) (r r' : JobRecord) (w : H160) (x d x' d' : Nat),
      world.state.jobs[id]? = some r → r.status = .leased w x d →
      world.state.jobs[id']? = some r' → r'.status = .leased w x' d' → id = id') ∧
    (∀ e : Event, Admissible world e →
      ∀ (id : JobId) (r' : JobRecord) (w : H160) (at_ : Nat),
        ((machine env).step world e).state.jobs[id]? = some r' → r'.status = .done w at_ →
        (∃ r, world.state.jobs[id]? = some r ∧ r.status = .done w at_ ∧
          r.result = r'.result) ∨
        ∃ text r expires deadline, e.op = .submit w id text ∧
          world.state.jobs[id]? = some r ∧ r.status = .leased w expires deadline ∧
          e.now < expires ∧ world.state.policy.tierAllowed w r.spec.requires = true ∧
          r'.result = some text) ∧
    (∀ more : List Event, (machine env).Along Admissible world more →
      ∀ (id : JobId) (r : JobRecord) (w : H160) (at_ : Nat),
        world.state.jobs[id]? = some r → r.status = .done w at_ →
        ∃ r', ((machine env).run world more).state.jobs[id]? = some r' ∧
          r'.status = .done w at_ ∧ r'.result = r.result) := by
  intro world
  obtain ⟨hkeyed, hexclusive⟩ := run_exclusive hrun
  refine ⟨?_, ?_, ?_⟩
  · intro id id' r r' w x d x' d' hget hstatus hget' hstatus'
    exact hexclusive id id' _ _ (State.held_of_status hget hstatus)
      (State.held_of_status hget' hstatus') rfl
  · intro e hadm id r' w at_ hget hstatus
    have hdone : (world.state.apply env e).ledger.phase id =
        some (.closed (w, at_, r'.result)) := done_iff.mpr ⟨r', hget, hstatus, rfl⟩
    obtain hbefore | ⟨text, r, expires, d, hop, hr, hlease, hlive, htier, -, hresult⟩ :=
      done_step hkeyed hadm.2 hdone
    · exact .inl (done_iff.mp hbefore)
    · exact .inr ⟨text, r, expires, d, hop, hr, hlease, hlive, htier, hresult⟩
  · intro more hmore id r w at_ hget hstatus
    exact done_iff.mp (run_done_stable hkeyed hmore (done_iff.mpr ⟨r, hget, hstatus, rfl⟩))

/-- A job leased and submitted, and a restart after it. -/
def submittedRun : List Event :=
  [⟨.addJob (probeJob "j" 3600), 5⟩, ⟨.register (probeWorker 1) "s", 5⟩,
    ⟨.lease (probeWorker 1).id, 6⟩, ⟨.submit (probeWorker 1).id "j" "ok", 7⟩]

theorem submittedRun_result_final :
    ∃ r', ((machine plainEnv).run
        ((machine plainEnv).run (World.init Policy.default) submittedRun)
        [⟨.restart Policy.default, 8⟩]).state.jobs["j"]? = some r' ∧
      r'.status = .done (probeWorker 1).id 7 ∧ r'.result = some "ok" := by
  have hdone : (((machine plainEnv).run (World.init Policy.default) submittedRun).state.jobs[
      "j"]?).map (fun r => (r.status, r.result)) =
        some (.done (probeWorker 1).id 7, some "ok") := by decide
  obtain ⟨r, hget, hr⟩ := Option.map_eq_some_iff.mp hdone
  obtain ⟨hstatus, hresult⟩ := Prod.ext_iff.mp hr
  rw [← show r.result = some "ok" from hresult]
  exact (leases_exclusive_and_results_final plainEnv Policy.default submittedRun
    (by decide)).2.2 [⟨.restart Policy.default, 8⟩] (by decide) "j" r _ _ hget hstatus

end Coordinator
end ComputePool
