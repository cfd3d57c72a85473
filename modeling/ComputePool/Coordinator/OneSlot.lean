import ComputePool.Coordinator.Exclusive

/-!
# One slot for each worker and round

A worker may have one job of a federated round, leased or done.  Only `lease` looks
after that, when it offers a job; everything else that happens to the job table
returns jobs to the pool, moves an expiry, or turns a lease into a result of the
same worker.
-/

namespace ComputePool
namespace Coordinator

open RustStd LeaseLedger

/-- The worker that holds the job's lease or has delivered its result. -/
def JobStatus.engaged? : JobStatus → Option H160
  | .leased w _ _ => some w
  | .done w _ => some w
  | _ => none

/-- What the table must show of the rounds. -/
structure OneSlot (env : Env) (s : State) : Prop where
  /-- A worker has one job of a round at most. -/
  single : ∀ (id id' : JobId) (r r' : JobRecord) (w : H160) (p p' : Federated.LoraDeltaPayload),
    s.jobs[id]? = some r → s.jobs[id']? = some r' →
    r.status.engaged? = some w → r'.status.engaged? = some w →
    loraRoundOf env r.spec = .round p → loraRoundOf env r'.spec = .round p' →
    p.roundId = p'.roundId → id = id'
  /-- The job is one whose roster names the worker. -/
  onRoster : ∀ (id : JobId) (r : JobRecord) (w : H160) (p : Federated.LoraDeltaPayload),
    s.jobs[id]? = some r → r.status.engaged? = some w → loraRoundOf env r.spec = .round p →
    w ∈ p.config.roster
  /-- Nobody has a job whose payload does not parse or validate. -/
  parsed : ∀ (id : JobId) (r : JobRecord) (w : H160),
    s.jobs[id]? = some r → r.status.engaged? = some w → loraRoundOf env r.spec ≠ .malformed

/-- Whoever has a job in the second state had it in the first. -/
def NoNewHolder (s s' : State) : Prop :=
  ∀ (id : JobId) (r' : JobRecord) (w : H160), s'.jobs[id]? = some r' →
    r'.status.engaged? = some w →
      ∃ r, s.jobs[id]? = some r ∧ r.spec = r'.spec ∧ r.status.engaged? = some w

namespace NoNewHolder

variable {s s' s'' : State}

theorem of_jobs_eq (h : s'.jobs = s.jobs) : NoNewHolder s s' :=
  fun _ r' _ hget hheld => ⟨r', h ▸ hget, rfl, hheld⟩

theorem refl (s : State) : NoNewHolder s s := of_jobs_eq rfl

theorem trans (h : NoNewHolder s s') (h' : NoNewHolder s' s'') : NoNewHolder s s'' := by
  intro id r'' w hget hheld
  have ⟨r', hget', hspec', hheld'⟩ := h' id r'' w hget hheld
  have ⟨r, hr, hspec, hheld⟩ := h id r' w hget' hheld'
  exact ⟨r, hr, hspec.trans hspec', hheld⟩

/-- A change to the records which gives nobody a job. -/
theorem of_map {f : JobId → JobRecord → JobRecord}
    (hjobs : ∀ id : JobId, s'.jobs[id]? = (s.jobs[id]?).map (f id))
    (hf : ∀ id r, s.jobs[id]? = some r → (f id r).spec = r.spec ∧
      ∀ w, (f id r).status.engaged? = some w → r.status.engaged? = some w) :
    NoNewHolder s s' := by
  intro id r' w hget hheld
  rw [hjobs] at hget
  have ⟨r, hr, hr'⟩ := Option.map_eq_some_iff.mp hget
  subst hr'
  have ⟨hspec, hholder⟩ := hf id r hr
  exact ⟨r, hr, hspec.symm, hholder w hheld⟩

theorem oneSlot {env : Env} (h : NoNewHolder s s') (hinv : OneSlot env s) :
    OneSlot env s' := by
  constructor
  · intro id id' r r' w p p' hget hget' hheld hheld' hround hround' hsame
    have ⟨r₀, hr₀, hspec, hheld₀⟩ := h id r w hget hheld
    have ⟨r₁, hr₁, hspec', hheld₁⟩ := h id' r' w hget' hheld'
    rw [← hspec] at hround
    rw [← hspec'] at hround'
    exact hinv.single id id' r₀ r₁ w p p' hr₀ hr₁ hheld₀ hheld₁ hround hround' hsame
  · intro id r w p hget hheld hround
    have ⟨r₀, hr₀, hspec, hheld₀⟩ := h id r w hget hheld
    rw [← hspec] at hround
    exact hinv.onRoster id r₀ w p hr₀ hheld₀ hround
  · intro id r w hget hheld
    have ⟨r₀, hr₀, hspec, hheld₀⟩ := h id r w hget hheld
    rw [← hspec]
    exact hinv.parsed id r₀ w hr₀ hheld₀

end NoNewHolder

namespace State

variable {s : State} {env : Env} {now : Nat}

/-! ## What gives nobody a job -/

theorem addJob_noNewHolder (spec : JobSpec) : NoNewHolder s (s.addJob spec) := by
  intro id r' w hget hheld
  unfold addJob at hget
  dsimp only at hget
  rw [get_insert] at hget
  split at hget
  · cases hget
    cases hheld
  · exact ⟨r', hget, rfl, hheld⟩

theorem expireLeases_noNewHolder (now : Nat) : NoNewHolder s (s.expireLeases now).1 := by
  refine NoNewHolder.of_map (expireLeases_job s now) fun id r _ => ⟨swept_spec r, fun w hheld => ?_⟩
  unfold swept at hheld
  split at hheld
  · cases hheld
  · exact hheld

theorem revokeLease_noNewHolder (job : JobId) : NoNewHolder s (s.revokeLease job) := by
  intro id r' w hget hheld
  rw [revokeLease_job] at hget
  split at hget
  · have ⟨r, _, hr'⟩ := Option.map_eq_some_iff.mp hget
    subst hr'
    cases hheld
  · exact ⟨r', hget, rfl, hheld⟩

theorem foldl_revokeLease_noNewHolder (ids : List JobId) :
    NoNewHolder s (ids.foldl revokeLease s) := by
  induction ids generalizing s with
  | nil => exact NoNewHolder.refl s
  | cons id rest ih => exact (revokeLease_noNewHolder id).trans ih

/-- A job handed on to the same worker: a heartbeat, or a result. -/
theorem modify_noNewHolder {s' : State} {job : JobId} {r : JobRecord} {w : H160}
    {f : JobRecord → JobRecord} (hjobs : s'.jobs = s.jobs.modify job f)
    (hget : s.jobs[job]? = some r) (hheld : r.status.engaged? = some w)
    (hspec : (f r).spec = r.spec) (hf : (f r).status.engaged? = some w) :
    NoNewHolder s s' := by
  intro id r' w' hget' hheld'
  rw [hjobs, get_modify] at hget'
  split at hget'
  · rename_i hid
    subst hid
    rw [hget, Option.map_some] at hget'
    cases hget'
    rw [hf] at hheld'
    exact ⟨r, hget, hspec.symm, hheld.trans hheld'⟩
  · exact ⟨r', hget', rfl, hheld'⟩

theorem grace_engaged (window now : Nat) (status : JobStatus) :
    (status.grace window now).engaged? = status.engaged? := by
  cases status with
  | leased w x d =>
      rcases grace_leased now window w x d with hsame | ⟨x', -, -, -, hgrace⟩
      · rw [hsame]
      · rw [hgrace]
        rfl
  | _ => rfl

theorem graceLiveLeases_noNewHolder (now : Nat) : NoNewHolder s (s.graceLiveLeases now) :=
  NoNewHolder.of_map (@graceLiveLeases_job s now) fun id r _ =>
    ⟨rfl, fun w hheld => by rwa [grace_engaged] at hheld⟩

theorem takeDirty_noNewHolder : NoNewHolder s s.takeDirty.1 := by
  unfold takeDirty
  split
  · refine NoNewHolder.of_map (fun id => get_map) fun id r _ => ?_
    split
    · exact ⟨rfl, fun w hheld => hheld⟩
    · exact ⟨rfl, fun w hheld => hheld⟩
  · exact NoNewHolder.refl s

theorem restart_noNewHolder (policy : Policy) (now : Nat) :
    NoNewHolder s (s.restart policy now) := by
  let opened : State := { s.reload with policy := policy }
  have hloaded : NoNewHolder s opened :=
    NoNewHolder.of_map (fun id => get_map) fun id r _ => ⟨rfl, fun w hheld => hheld⟩
  have hrevoked := foldl_revokeLease_noNewHolder (s := opened) opened.outOfPolicy
  have hgraced := graceLiveLeases_noNewHolder (s := opened.revokeOutOfPolicy.1) now
  exact ((hloaded.trans hrevoked).trans hgraced).trans takeDirty_noNewHolder

/-! ## What the lease offers -/

/-- The job that is picked is offered, and stored under the id it was picked by. -/
theorem pick_offered {w : H160} {group : String} {claimed : Capability} {id : JobId}
    (hkeyed : s.WellKeyed) (h : s.pick env w group claimed now = some id) :
    ∃ r cap, s.jobs[id]? = some r ∧ s.offered env w group cap now r = true := by
  have ⟨r, hbest, hid⟩ := Option.map_eq_some_iff.mp h
  have ⟨hmem, hoffered⟩ := List.mem_filter.mp (maxBy_mem hbest)
  have ⟨⟨k, r'⟩, hentry, hr'⟩ := List.mem_map.mp hmem
  subst hr'
  have hget := mem_entries.mp hentry
  have hkey := hkeyed k r' hget
  refine ⟨r', _, ?_, hoffered⟩
  rw [← hid, hkey]
  exact hget

/-- What an offer says of the round. -/
theorem offered_round {w : H160} {group : String} {cap : Capability} {r : JobRecord}
    (h : s.offered env w group cap now r = true) :
    loraRoundOf env r.spec ≠ .malformed ∧
      ∀ p, loraRoundOf env r.spec = .round p →
        p.config.inRoster w = true ∧ p.roundId ∉ s.myRounds env w := by
  unfold offered at h
  simp only [Bool.and_eq_true] at h
  have hround := h.1.1.1.2
  cases hlora : loraRoundOf env r.spec with
  | notLora => exact ⟨LoraRound.noConfusion, fun p hp => by cases hp⟩
  | malformed =>
      rw [hlora] at hround
      cases hround
  | round p =>
      rw [hlora] at hround
      simp only [Bool.and_eq_true, decide_eq_true_eq] at hround
      refine ⟨LoraRound.noConfusion, fun p' hp' => ?_⟩
      cases hp'
      exact hround

/-- The rounds a worker has a job of are those the lease looks at. -/
theorem mem_myRounds {w : H160} {id : JobId} {r : JobRecord} {p : Federated.LoraDeltaPayload}
    (hget : s.jobs[id]? = some r) (hheld : r.status.engaged? = some w)
    (hround : loraRoundOf env r.spec = .round p) : p.roundId ∈ s.myRounds env w := by
  unfold myRounds
  refine List.mem_filterMap.mpr ⟨(id, r), List.mem_filter.mpr ⟨mem_entries.mpr hget, ?_⟩, ?_⟩
  · cases hstatus : r.status with
    | leased h x d =>
        rw [hstatus] at hheld
        exact decide_eq_true (Option.some.inj hheld)
    | done h t =>
        rw [hstatus] at hheld
        exact decide_eq_true (Option.some.inj hheld)
    | pending =>
        rw [hstatus] at hheld
        cases hheld
    | quarantined reason =>
        rw [hstatus] at hheld
        cases hheld
  · rw [hround]
    rfl

/-- A payload that is a round has been validated, so its roster search is exact. -/
theorem loraRoundOf_valid {spec : JobSpec} {p : Federated.LoraDeltaPayload}
    (h : loraRoundOf env spec = .round p) : p.config.Valid := by
  unfold loraRoundOf at h
  split at h
  · cases h
  · split at h
    · cases h
    · split at h
      · rename_i hvalid
        cases h
        exact (Federated.LoraDeltaPayload.validate_ok hvalid).2.1
      · cases h

/-- Granting an offered job keeps the rounds apart. -/
theorem grant_oneSlot {s' : State} {w : H160} {group : String} {cap : Capability} {id : JobId}
    {r r' : JobRecord} (hinv : OneSlot env s)
    (hoffered : s.offered env w group cap now r = true)
    (hjobs : s'.jobs = s.jobs.insert id r') (hspec : r'.spec = r.spec)
    (hheld : r'.status.engaged? = some w) : OneSlot env s' := by
  have ⟨hparsed, hround⟩ := offered_round hoffered
  -- another job of the round that `w` has would have kept the offer back
  have hother : ∀ (id' : JobId) (r'' : JobRecord) (p p'' : Federated.LoraDeltaPayload),
      s.jobs[id']? = some r'' → r''.status.engaged? = some w →
      loraRoundOf env r.spec = .round p → loraRoundOf env r''.spec = .round p'' →
        p.roundId ≠ p''.roundId := by
    intro id' r'' p p'' hget'' hheld'' hp hp'' hsame
    apply (hround p hp).2
    rw [hsame]
    exact mem_myRounds hget'' hheld'' hp''
  constructor
  · intro id₁ id₂ r₁ r₂ w' p₁ p₂ hget₁ hget₂ hheld₁ hheld₂ hround₁ hround₂ hsame
    rw [hjobs, get_insert] at hget₁ hget₂
    split at hget₁
    · rename_i hid₁
      cases hget₁
      rw [hheld] at hheld₁
      cases hheld₁
      rw [hspec] at hround₁
      split at hget₂
      · rename_i hid₂
        exact hid₁.symm.trans hid₂
      · exact absurd hsame (hother id₂ r₂ p₁ p₂ hget₂ hheld₂ hround₁ hround₂)
    · split at hget₂
      · cases hget₂
        rw [hheld] at hheld₂
        cases hheld₂
        rw [hspec] at hround₂
        exact absurd hsame.symm (hother id₁ r₁ p₂ p₁ hget₁ hheld₁ hround₂ hround₁)
      · exact hinv.single id₁ id₂ r₁ r₂ w' p₁ p₂ hget₁ hget₂ hheld₁ hheld₂ hround₁ hround₂
          hsame
  · intro id' r₁ w' p hget₁ hheld₁ hround₁
    rw [hjobs, get_insert] at hget₁
    split at hget₁
    · cases hget₁
      rw [hheld] at hheld₁
      cases hheld₁
      rw [hspec] at hround₁
      exact (loraRoundOf_valid hround₁).inRoster_iff.mp (hround p hround₁).1
    · exact hinv.onRoster id' r₁ w' p hget₁ hheld₁ hround₁
  · intro id' r₁ w' hget₁ hheld₁
    rw [hjobs, get_insert] at hget₁
    split at hget₁
    · cases hget₁
      rw [hspec]
      exact hparsed
    · exact hinv.parsed id' r₁ w' hget₁ hheld₁

theorem lease_oneSlot (hkeyed : s.WellKeyed) (hinv : OneSlot env s) (w : H160) :
    OneSlot env (s.lease env w now).1 := by
  have hpolled : OneSlot env (s.beforePick w now) := by
    refine NoNewHolder.oneSlot (NoNewHolder.trans ?_ (expireLeases_noNewHolder now)) hinv
    exact NoNewHolder.of_jobs_eq rfl
  rcases lease_cases (s := s) env w now with
    ⟨-, hsame⟩ | ⟨rec_, -, hsame | ⟨id, r, -, hpick, hget, hgrant⟩⟩
  · rw [hsame]
    exact hinv
  · rw [hsame]
    exact hpolled
  · rw [hgrant]
    have ⟨r', cap, hget', hoffered⟩ := pick_offered (hkeyed.beforePick w) hpick
    rw [hget] at hget'
    cases hget'
    exact grant_oneSlot hpolled hoffered rfl rfl rfl

theorem apply_oneSlot (hkeyed : s.WellKeyed) (hinv : OneSlot env s) (e : Event) :
    OneSlot env (s.apply env e) := by
  obtain ⟨op, now⟩ := e
  cases op with
  | addJob spec => exact (addJob_noNewHolder spec).oneSlot hinv
  | register w source => exact (NoNewHolder.of_jobs_eq register_jobs).oneSlot hinv
  | lease w => exact lease_oneSlot hkeyed hinv w
  | renew w job =>
      change OneSlot env (s.renew w job now).1
      rcases renew_cases (s := s) w job now with
        hsame | ⟨r, x, d, hget, hstatus, -, ⟨-, hrevoked⟩ | ⟨dirty, hextended⟩⟩
      · rw [hsame]
        exact hinv
      · rw [hrevoked]
        exact (revokeLease_noNewHolder job).oneSlot hinv
      · rw [hextended]
        have hheld : r.status.engaged? = some w := by rw [hstatus]; rfl
        exact (modify_noNewHolder rfl hget hheld rfl rfl).oneSlot hinv
  | submit w job result =>
      change OneSlot env (s.submit w job result now).1
      rcases submit_cases (s := s) w job result now with
        hsame | ⟨r, x, d, hget, hstatus, -, ⟨-, hrevoked⟩ | ⟨-, hdone⟩⟩
      · rw [hsame]
        exact hinv
      · rw [hrevoked]
        exact (revokeLease_noNewHolder job).oneSlot hinv
      · rw [hdone]
        have hheld : r.status.engaged? = some w := by rw [hstatus]; rfl
        exact (modify_noNewHolder rfl hget hheld rfl rfl).oneSlot hinv
  | expireLeases => exact (expireLeases_noNewHolder now).oneSlot hinv
  | revokeOutOfPolicy => exact (foldl_revokeLease_noNewHolder _).oneSlot hinv
  | graceLiveLeases => exact (graceLiveLeases_noNewHolder now).oneSlot hinv
  | restart policy => exact (restart_noNewHolder policy now).oneSlot hinv

end State

/-- **One slot for each worker and round.**  In every state that operations and
restarts reach from an empty store: a worker has at most one job of a round, leased
or done; it is on that job's roster; and nobody has a job whose payload says it is a
round and does not parse or validate. -/
theorem one_slot_per_round (env : Env) (policy : Policy) (events : List Event) :
    OneSlot env ((machine env).run (World.init policy) events).state := by
  refine (Machine.run_invariant (P := fun _ _ => True)
    (fun world : World => world.state.WellKeyed ∧ OneSlot env world.state)
    (fun world e hinv _ => ⟨hinv.1.apply, State.apply_oneSlot hinv.1 hinv.2 e⟩)
    ⟨init_wellKeyed policy, ?_⟩ (Machine.along_iff_forall_prefix.mpr fun _ _ _ => trivial)).2
  constructor
  · intro id id' r r' w p p' hget
    simp [World.init, State.empty] at hget
  · intro id r w p hget
    simp [World.init, State.empty] at hget
  · intro id r w hget
    simp [World.init, State.empty] at hget

end Coordinator
end ComputePool
