import ComputePool.Coordinator.Run

/-!
# The tables that outlive a lease

The registry, the penalties and the source records carry the no-show histories.
Only four things happen to them: a registration evicts and admits workers, a sweep
charges lapses, an accepted submission may clear counters, and everything else
leaves them as they are.  The bound on the registry follows, and so does that
every kept penalty is one.
-/

namespace ComputePool
namespace Coordinator

open RustStd LeaseLedger

/-- The no-show history on a worker's record. -/
def WorkerRecord.history (r : WorkerRecord) : Penalty := ⟨r.noshows, r.cooldownUntil⟩

/-- The second state has the workers of the first with the same histories, and
the same penalties and source records. -/
structure SameHistories (s s' : State) : Prop where
  size : s'.workers.size = s.workers.size
  worker : ∀ w : H160, (s'.workers[w]?).map WorkerRecord.history =
    (s.workers[w]?).map WorkerRecord.history
  penalties : s'.penalties = s.penalties
  sources : s'.sources = s.sources

namespace SameHistories

variable {s s' : State}

theorem of_eq (hworkers : s'.workers = s.workers) (hpenalties : s'.penalties = s.penalties)
    (hsources : s'.sources = s.sources) : SameHistories s s' :=
  ⟨by rw [hworkers], fun w => by rw [hworkers], hpenalties, hsources⟩

theorem refl (s : State) : SameHistories s s := of_eq rfl rfl rfl

/-- A change to one record which keeps its history. -/
theorem of_modify {w : H160} {f : WorkerRecord → WorkerRecord}
    (hworkers : s'.workers = s.workers.modify w f) (hf : ∀ r, (f r).history = r.history)
    (hpenalties : s'.penalties = s.penalties) (hsources : s'.sources = s.sources) :
    SameHistories s s' where
  size := by
    rw [hworkers]
    exact Std.ExtTreeMap.size_modify
  worker a := by
    rw [hworkers, get_modify]
    split
    · rw [Option.map_map]
      exact congrArg (fun g => Option.map g (s.workers[a]?)) (funext hf)
    · rfl
  penalties := hpenalties
  sources := hsources

/-- The history of a record that is there after was on a record before. -/
theorem worker_of (h : SameHistories s s') {w : H160} {r' : WorkerRecord}
    (hget : s'.workers[w]? = some r') :
    ∃ r, s.workers[w]? = some r ∧ r.history = r'.history := by
  have hworker := h.worker w
  rw [hget, Option.map_some] at hworker
  exact Option.map_eq_some_iff.mp hworker.symm

end SameHistories

namespace State

variable {s : State} {env : Env} {now : Nat}

theorem engage_histories (w : H160) (now : Nat) : SameHistories s (s.engage w now) :=
  SameHistories.of_modify rfl (fun _ => rfl) rfl rfl

theorem revokeLease_histories (job : JobId) : SameHistories s (s.revokeLease job) := by
  unfold revokeLease
  split
  · exact SameHistories.refl s
  · exact SameHistories.of_eq rfl rfl rfl

theorem foldl_revokeLease_histories (ids : List JobId) :
    SameHistories s (ids.foldl revokeLease s) := by
  induction ids generalizing s with
  | nil => exact SameHistories.refl s
  | cons id rest ih =>
      have hfirst := revokeLease_histories (s := s) id
      have hrest := ih (s := s.revokeLease id)
      exact
        { size := hrest.size.trans hfirst.size
          worker := fun w => (hrest.worker w).trans (hfirst.worker w)
          penalties := hrest.penalties.trans hfirst.penalties
          sources := hrest.sources.trans hfirst.sources }

theorem takeDirty_histories : SameHistories s s.takeDirty.1 := by
  unfold takeDirty
  split
  · exact SameHistories.of_eq rfl rfl rfl
  · exact SameHistories.refl s

theorem restart_histories (policy : Policy) (now : Nat) :
    SameHistories s (s.restart policy now) := by
  let opened : State := { s.reload with policy := policy }
  have hrevoked := foldl_revokeLease_histories (s := opened) opened.outOfPolicy
  have hsaved := takeDirty_histories (s := opened.revokeOutOfPolicy.1.graceLiveLeases now)
  exact
    { size := hsaved.size.trans hrevoked.size
      worker := fun w => (hsaved.worker w).trans (hrevoked.worker w)
      penalties := hsaved.penalties.trans hrevoked.penalties
      sources := hsaved.sources.trans hrevoked.sources }

/-- What an operation does to the histories: a registration is one thing; a
sweep, or the sweep before a lease, another; then the credit for a result; the
rest leaves them alone. -/
theorem apply_histories (env : Env) (s : State) (e : Event) :
    (∃ w source, e.op = .register w source) ∨ SameHistories s (s.apply env e) ∨
      (∃ s₀, SameHistories s s₀ ∧ s₀.jobs = s.jobs ∧ s₀.policy = s.policy ∧
        SameHistories (s₀.expireLeases e.now).1 (s.apply env e)) ∨
      ∃ w job result, ∃ s₀ : State, e.op = .submit w job result ∧
        (∃ r x d, s.jobs[job]? = some r ∧ r.status = .leased w x d ∧ e.now < x) ∧
        s₀.workers = s.workers ∧ s₀.penalties = s.penalties ∧ s₀.sources = s.sources ∧
        s.apply env e = s₀.credit w (s.policy.isTrusted w) e.now := by
  obtain ⟨op, now⟩ := e
  cases op with
  | addJob spec => exact .inr (.inl (SameHistories.of_eq rfl rfl rfl))
  | register w source => exact .inl ⟨w, source, rfl⟩
  | lease worker =>
      have hengaged := engage_histories (s := s) worker now
      rcases lease_cases (s := s) env worker now with
        ⟨-, hsame⟩ | ⟨r, -, hpolled | ⟨id, j, -, -, -, hgrant⟩⟩
      · refine .inr (.inl ?_)
        change SameHistories s (s.lease env worker now).1
        rw [hsame]
        exact SameHistories.refl s
      · refine .inr (.inr (.inl ⟨s.engage worker now, hengaged, rfl, rfl, ?_⟩))
        change SameHistories _ (s.lease env worker now).1
        rw [hpolled]
        exact SameHistories.refl _
      · refine .inr (.inr (.inl ⟨s.engage worker now, hengaged, rfl, rfl, ?_⟩))
        change SameHistories _ (s.lease env worker now).1
        rw [hgrant]
        exact SameHistories.of_eq rfl rfl rfl
  | renew worker job =>
      refine .inr (.inl ?_)
      change SameHistories s (s.renew worker job now).1
      rcases renew_cases (s := s) worker job now with
        hsame | ⟨r, x, d, -, -, -, ⟨-, hrevoked⟩ | ⟨dirty, hextended⟩⟩
      · rw [hsame]
        exact SameHistories.refl s
      · rw [hrevoked]
        exact revokeLease_histories job
      · rw [hextended]
        exact SameHistories.of_modify rfl (fun _ => rfl) rfl rfl
  | submit worker job result =>
      rcases submit_cases (s := s) worker job result now with
        hsame | ⟨r, x, d, hget, hstatus, hlive, ⟨-, hrevoked⟩ | ⟨-, hdone⟩⟩
      · refine .inr (.inl ?_)
        change SameHistories s (s.submit worker job result now).1
        rw [hsame]
        exact SameHistories.refl s
      · refine .inr (.inl ?_)
        change SameHistories s (s.submit worker job result now).1
        rw [hrevoked]
        exact revokeLease_histories job
      · let done : State := { s with
          jobs := s.jobs.modify job fun r =>
            { r with status := .done worker now, result := some result }
          dirty := true }
        exact .inr (.inr (.inr ⟨worker, job, result, done, rfl,
          ⟨r, x, d, hget, hstatus, hlive⟩, rfl, rfl, rfl, hdone⟩))
  | expireLeases =>
      exact .inr (.inr (.inl ⟨s, SameHistories.refl s, rfl, rfl, SameHistories.refl _⟩))
  | revokeOutOfPolicy => exact .inr (.inl (foldl_revokeLease_histories _))
  | graceLiveLeases => exact .inr (.inl (SameHistories.of_eq rfl rfl rfl))
  | restart policy => exact .inr (.inl (restart_histories policy now))

/-! ## Registration under the bound -/

/-- The source has room for a new key, or the key needs none. -/
def SourceRoom (s : State) (id : H160) (source : String) : Prop :=
  s.policy.isTrusted id = true ∨ (s.fromSource source).length < s.policy.maxWorkersPerSource

instance {s : State} {id : H160} {source : String} : Decidable (s.SourceRoom id source) :=
  inferInstanceAs (Decidable (_ ∨ _))

/-- What a registry within its bound asks for before it admits a new key: the
reason it refuses, or the worker it forgets, if any. -/
def newVictim (s : State) (id : H160) (source : String) (now : Nat) :
    Except RegisterError (Option H160) :=
  if s.SourceRoom id source then
    if s.workers.size < MAX_WORKERS then .ok none
    else
      match s.registryVictim now with
      | none => .error .registryFull
      | some v => .ok (some v)
  else
    match s.slotVictim source now with
    | none => .error .sourceFull
    | some v => .ok (some v)

/-- The state after the victim, if any, is forgotten. -/
def forget? (s : State) (victim : Option H160) (now : Nat) : State :=
  victim.elim s fun v => s.forgetWorker v now

theorem forgetWorker_size {id : H160} (h : ∃ r, s.workers[id]? = some r) (now : Nat) :
    (s.forgetWorker id now).workers.size = s.workers.size - 1 := by
  have hmem : id ∈ s.workers := mem_iff_get.mpr h
  rcases forgetWorker_spec (s := s) id now with ⟨penalties, hforget | ⟨hnone, -⟩⟩
  · rw [hforget]
    change (s.workers.erase id).size = _
    rw [Std.ExtTreeMap.size_erase, if_pos (Std.ExtTreeMap.mem_iff_contains.mp hmem)]
  · have ⟨r, hr⟩ := h
    rw [hnone] at hr
    cases hr

theorem size_pos_of_get {id : H160} {r : WorkerRecord} (h : s.workers[id]? = some r) :
    0 < s.workers.size := by
  have hmem : (id, r) ∈ s.workers.toList := mem_entries.mpr h
  have hlength : s.workers.toList.length = s.workers.size := Std.ExtTreeMap.length_toList
  have hpos := List.length_pos_of_mem hmem
  omega

/-- Within the bound, a registry with room admits without evicting. -/
theorem makeRoomInRegistry_of_lt (h : s.workers.size < MAX_WORKERS) (holders : Finset H160)
    (now : Nat) : s.makeRoomInRegistry holders now = .ok s := by
  rw [makeRoomInRegistry, if_neg (not_le.mpr h)]

/-- **A registration within the bound evicts at most one worker.**  A slot that is
reclaimed leaves room in the registry, so the registry bound never asks for a
second victim, and a refusal comes before anything is forgotten. -/
theorem registerNew_eq (hbound : s.workers.size ≤ MAX_WORKERS) (w : RegisteredWorker)
    (source : String) (now : Nat) :
    s.registerNew w source now =
      match s.newVictim w.id source now with
      | .error e => (s, .error e)
      | .ok victim => ((s.forget? victim now).admitWorker w source now, .ok ()) := by
  by_cases hroom : s.SourceRoom w.id source
  · have hfirst : (if s.policy.isTrusted w.id then Except.ok s
        else s.makeRoomForSource source (s.leaseholders now) now) = .ok s := by
      rw [makeRoomForSource_eq]
      rcases hroom with h | h <;> simp [h]
    rw [registerNew, newVictim, hfirst, if_pos hroom]
    by_cases hfull : s.workers.size < MAX_WORKERS
    · rw [if_pos hfull]
      dsimp only
      rw [makeRoomInRegistry_of_lt hfull]
      rfl
    · rw [if_neg hfull, registryVictim, if_pos (not_lt.mp hfull)]
      simp only [makeRoomInRegistry, if_pos (not_lt.mp hfull)]
      cases minByKey (fun e : H160 × WorkerRecord => e.2.lastSeen)
          (s.evictable (s.leaseholders now)) with
      | none => rfl
      | some entry => rfl
  · have hfull := not_or.mp hroom
    rw [registerNew, newVictim, if_neg hroom, if_neg hfull.1, makeRoomForSource_eq,
      if_neg hfull.2]
    cases hslot : s.slotVictim source now with
    | none => rfl
    | some v =>
        have hknown := slotVictim_known hslot
        have hpos := size_pos_of_get hknown.choose_spec
        have hlt : (s.forgetWorker v now).workers.size < MAX_WORKERS := by
          rw [forgetWorker_size hknown]
          omega
        dsimp only
        rw [makeRoomInRegistry_of_lt hlt]
        rfl

/-- The victim of a registration is registered. -/
theorem newVictim_known {id v : H160} {source : String}
    (h : s.newVictim id source now = .ok (some v)) : ∃ r, s.workers[v]? = some r := by
  unfold newVictim at h
  split at h
  · split at h
    · cases h
    · cases hvictim : s.registryVictim now with
      | none =>
          rw [hvictim] at h
          cases h
      | some v' =>
          rw [hvictim] at h
          cases h
          exact registryVictim_known hvictim
  · cases hvictim : s.slotVictim source now with
    | none =>
        rw [hvictim] at h
        cases h
    | some v' =>
        rw [hvictim] at h
        cases h
        exact slotVictim_known hvictim

/-- `register` for a key the registry does not know. -/
theorem register_unknown (hbound : s.workers.size ≤ MAX_WORKERS) {w : RegisteredWorker}
    (hnew : s.workers[w.id]? = none) (source : String) (now : Nat) :
    s.register w source now =
      match s.newVictim w.id source now with
      | .error e => (s.markDirty, .error e)
      | .ok victim => ((s.markDirty.forget? victim now).admitWorker w source now,
          .ok (s.policy.effectiveCapability w.id w.capability)) := by
  have hvictim : s.markDirty.newVictim w.id source now = s.newVictim w.id source now := rfl
  have hbound' : s.markDirty.workers.size ≤ MAX_WORKERS := hbound
  simp only [register, hnew]
  rw [registerNew_eq hbound', hvictim]
  cases s.newVictim w.id source now with
  | error e => rfl
  | ok victim => rfl

/-- Forgetting the victim leaves room for the new key. -/
theorem forget?_size_lt (hbound : s.workers.size ≤ MAX_WORKERS) {id : H160} {source : String}
    {victim : Option H160} (h : s.newVictim id source now = .ok victim) :
    (s.forget? victim now).workers.size < MAX_WORKERS := by
  cases victim with
  | none =>
      unfold newVictim at h
      split at h
      · split at h
        · assumption
        · cases hvictim : s.registryVictim now with
          | none =>
              rw [hvictim] at h
              cases h
          | some v =>
              rw [hvictim] at h
              cases h
      · cases hvictim : s.slotVictim source now with
        | none =>
            rw [hvictim] at h
            cases h
        | some v =>
            rw [hvictim] at h
            cases h
  | some v =>
      have hknown := newVictim_known h
      have ⟨r, hr⟩ := hknown
      have hpos := size_pos_of_get hr
      change (s.forgetWorker v now).workers.size < MAX_WORKERS
      rw [forgetWorker_size hknown]
      omega

theorem register_size (hbound : s.workers.size ≤ MAX_WORKERS) (w : RegisteredWorker)
    (source : String) (now : Nat) : (s.register w source now).1.workers.size ≤ MAX_WORKERS := by
  cases hknown : s.workers[w.id]? with
  | some r =>
      simp only [register, hknown]
      rw [Std.ExtTreeMap.size_modify]
      exact hbound
  | none =>
      rw [register_unknown hbound hknown]
      cases hvictim : s.newVictim w.id source now with
      | error e => exact hbound
      | ok victim =>
          have hlt := forget?_size_lt (s := s.markDirty) hbound hvictim
          have hle : ∀ (m : BTreeMap H160 WorkerRecord) (k : H160) (v : WorkerRecord),
              (m.insert k v).size ≤ m.size + 1 := fun m k v => Std.ExtTreeMap.size_insert_le
          exact (hle _ _ _).trans hlt

theorem apply_size (env : Env) (hbound : s.workers.size ≤ MAX_WORKERS) (e : Event) :
    (s.apply env e).workers.size ≤ MAX_WORKERS := by
  rcases apply_histories env s e with
    ⟨w, source, hop⟩ | hsame | ⟨s₀, hbefore, -, -, hafter⟩ | ⟨w, job, result, s₀, -, -, hw, -, -, hcredit⟩
  · rw [apply, hop]
    exact register_size hbound w source e.now
  · rw [hsame.size]
    exact hbound
  · rw [hafter.size, expireLeases_size, hbefore.size]
    exact hbound
  · rw [hcredit, credit]
    dsimp only
    rw [Std.ExtTreeMap.size_modify, hw]
    exact hbound

end State

/-- No run takes the registry past its bound. -/
theorem run_size (env : Env) (policy : Policy) (events : List Event) :
    ((machine env).run (World.init policy) events).state.workers.size ≤ MAX_WORKERS := by
  refine Machine.run_invariant (P := fun _ _ => True)
    (fun world : World => world.state.workers.size ≤ MAX_WORKERS)
    (fun world e hinv _ => State.apply_size env hinv e) (Nat.zero_le _) ?_
  exact Machine.along_iff_forall_prefix.mpr fun _ _ _ => trivial

end Coordinator
end ComputePool
