import ComputePool.Worker.MockChain

/-!
# Slashing and stake

What a worker of the training pool's chain model loses: upheld challenges take a
tenth of its stake each, bounded by what is held, and a liveness slash takes a
thousandth, which is not bounded.  A challenge slash that comes after the
liveness slash leaves room for it; the liveness slash of a coordinator that
challenges have already emptied takes more than the stake.
-/

namespace ComputePool
namespace Worker
namespace MockChain

open RustStd Federated

variable {H : Hashes} {s s' : State} {op : Op} {job job' : Job} {id : Nat}

/-- Nobody lost more than the stake. -/
def State.WithinStake (s : State) : Prop :=
  ∀ id job, s.jobs id = some job → ∀ worker,
    s.workerTotalSlashed id worker ≤ job.spec.perWorkerStake

/-- When governance replaces a coordinator that was not slashed for liveness
before, the challenges upheld against it have left the liveness slash in its
stake. -/
def LeavesLivenessSlash (s : State) (op : Op) : Prop :=
  ∀ id newCoordinator, op = .reassignCoordinator id MOCK_GOVERNANCE newCoordinator →
    ∀ job, s.jobs id = some job →
      (∃ job', job.reassignCoordinator s.blockNumber MOCK_GOVERNANCE newCoordinator = .ok job') →
        ∀ old, job.coordinator = some old → old ∉ job.livenessSlashed →
          job.challengePortion old + job.livenessAmount ≤ job.spec.perWorkerStake

namespace Job

/-- No worker of the job lost more than the stake. -/
def WithinStake (job : Job) : Prop :=
  ∀ worker, job.totalSlashed worker ≤ job.spec.perWorkerStake

theorem new_withinStake (spec : TrainingJobSpec) : (Job.new spec).WithinStake := by
  intro worker
  simp [totalSlashed, challengePortion, livenessPortion, Job.new, BitVec.le_def]

/-- What a worker lost depends on the slashes and the stake only. -/
theorem totalSlashed_congr (hspec : job'.spec = job.spec)
    (hlive : job'.livenessSlashed = job.livenessSlashed)
    (hchallenge : job'.challengeSlashed = job.challengeSlashed) (worker : H160) :
    job'.totalSlashed worker = job.totalSlashed worker := by
  simp only [totalSlashed, challengePortion, livenessPortion, livenessAmount, hspec, hlive,
    hchallenge]

theorem WithinStake.congr (h : job.WithinStake) (hspec : job'.spec = job.spec)
    (hlive : job'.livenessSlashed = job.livenessSlashed)
    (hchallenge : job'.challengeSlashed = job.challengeSlashed) : job'.WithinStake := by
  intro worker
  rw [totalSlashed_congr hspec hlive hchallenge, hspec]
  exact h worker

/-- A challenge slash takes no more than what is held. -/
theorem upholdSlash_le (job : Job) (target : H160) :
    (job.upholdSlash target).toNat ≤ job.spec.perWorkerStake.toNat -
      (job.challengePortion target).toNat - (job.livenessPortion target).toNat := by
  have hheld : (satSub128 (satSub128 job.spec.perWorkerStake (job.challengePortion target))
      (job.livenessPortion target)).toNat = job.spec.perWorkerStake.toNat -
        (job.challengePortion target).toNat - (job.livenessPortion target).toNat := by
    rw [satSub128_toNat, satSub128_toNat]
  rw [← hheld]
  simp only [upholdSlash]
  split
  · rename_i hnominal
    exact hnominal
  · exact le_refl _

/-- A challenge slash keeps a worker within the stake. -/
theorem WithinStake.slash (h : job.WithinStake) (target : H160)
    (challenges : ChallengeKey → Option Challenge) :
    ({ job with
      challenges := challenges
      challengeSlashed := Function.update job.challengeSlashed target
        (some (job.challengePortion target + job.upholdSlash target)) } : Job).WithinStake := by
  intro worker
  by_cases hworker : worker = target
  · subst hworker
    have hbefore : job.challengePortion worker + job.livenessPortion worker ≤
        job.spec.perWorkerStake := h worker
    have hle := job.upholdSlash_le worker
    have htotal : ({ job with
        challenges := challenges
        challengeSlashed := Function.update job.challengeSlashed worker
          (some (job.challengePortion worker + job.upholdSlash worker)) } : Job).totalSlashed worker =
        job.challengePortion worker + job.upholdSlash worker + job.livenessPortion worker := by
      simp [totalSlashed, challengePortion, livenessPortion, livenessAmount]
    show _ ≤ job.spec.perWorkerStake
    rw [htotal]
    rw [BitVec.le_def] at hbefore ⊢
    rw [BitVec.toNat_add] at hbefore
    rw [BitVec.toNat_add, BitVec.toNat_add]
    omega
  · have hother : ({ job with
        challenges := challenges
        challengeSlashed := Function.update job.challengeSlashed target
          (some (job.challengePortion target + job.upholdSlash target)) } : Job).totalSlashed worker =
        job.totalSlashed worker := by
      simp [totalSlashed, challengePortion, livenessPortion, livenessAmount,
        Function.update_of_ne hworker]
    rw [hother]
    exact h worker

end Job

/-! ## Steps -/

/-- A step on a job keeps its workers within the stake, when a liveness slash
finds room in it. -/
theorem JobStep.withinStake (hstep : JobStep H s id job job' op) (hjob : s.jobs id = some job)
    (hroom : LeavesLivenessSlash s op) (h : job.WithinStake) : job'.WithinStake := by
  cases hstep with
  | joinTrainingJob hok =>
      obtain ⟨-, -, rfl⟩ := Job.joinTrainingJob_ok hok
      exact h.congr rfl rfl rfl
  | closeRecruitment hok =>
      obtain ⟨-, -, rfl⟩ := Job.closeRecruitment_ok hok
      exact h.congr rfl rfl rfl
  | commitEpoch hroot hok =>
      obtain ⟨-, -, -, -, -, hspec, -, -, -, hlive, hchallenge⟩ := Job.commitEpoch_ok hok
      exact h.congr hspec hlive hchallenge
  | finalize hok =>
      obtain ⟨-, rfl⟩ := Job.finalize_ok hok
      exact h.congr rfl rfl rfl
  | expireStalledTraining hok =>
      obtain ⟨-, rfl⟩ := Job.expireStalledTraining_ok hok
      exact h.congr rfl rfl rfl
  | @reassignCoordinator caller newCoordinator hok =>
      have haccepted := hok
      obtain ⟨-, -, rfl⟩ := Job.reassignCoordinator_ok hok
      by_cases hgov : caller = MOCK_GOVERNANCE
      · subst hgov
        intro worker
        by_cases hold : job.coordinator = some worker ∧ worker ∉ job.livenessSlashed
        · -- The coordinator that governance slashes now.
          have hfits := hroom id newCoordinator rfl job hjob ⟨_, haccepted⟩ worker hold.1 hold.2
          simpa [Job.totalSlashed, Job.challengePortion, Job.livenessPortion, Job.livenessAmount,
            hold.1] using hfits
        · have hsame : (worker ∈ job.coordinator.toFinset ∪ job.livenessSlashed) ↔
              worker ∈ job.livenessSlashed := by
            rw [Finset.mem_union, Option.mem_toFinset, Option.mem_def]
            tauto
          have hbefore := h worker
          simpa only [Job.totalSlashed, Job.challengePortion, Job.livenessPortion,
            Job.livenessAmount, if_true, hsame] using hbefore
      · refine h.congr rfl ?_ rfl
        exact if_neg hgov
  | challengeStep hok =>
      obtain ⟨challenges, rfl⟩ := Job.challengeStep_ok hok
      exact h.congr rfl rfl rfl
  | voteChallenge hvoter hok =>
      obtain ⟨challenges, ⟨-, rfl⟩ | ⟨-, rfl⟩⟩ := Job.voteChallenge_ok hok
      · exact h.slash _ challenges
      · exact h.congr rfl rfl rfl

theorem withinStake_iff : s.WithinStake ↔ ∀ id job, s.jobs id = some job → job.WithinStake := by
  constructor
  · intro h id job hjob worker
    have hworker := h id job hjob worker
    rwa [State.workerTotalSlashed, hjob] at hworker
  · intro h id job hjob worker
    rw [State.workerTotalSlashed, hjob]
    exact h id job hjob worker

theorem withinStake_step (hroom : LeavesLivenessSlash s op) (h : s.WithinStake) :
    ((chain H).step s op).WithinStake := by
  rw [withinStake_iff] at h ⊢
  intro id job hjob
  rcases job_of_step hjob with hsame | ⟨spec, -, -, rfl⟩ | ⟨before, hbefore, hstep⟩
  · exact h id job hsame
  · exact Job.new_withinStake spec
  · exact hstep.withinStake hbefore hroom (h id before hbefore)

/-- A liveness slash that does not find room takes more than the stake. -/
theorem not_withinStake_of_overdraw (h : ¬ LeavesLivenessSlash s op) :
    ¬ ((chain H).step s op).WithinStake := by
  simp only [LeavesLivenessSlash, not_forall] at h
  obtain ⟨id, newCoordinator, rfl, job, hjob, ⟨job', hok⟩, old, hold, hnot, hover⟩ := h
  intro hwithin
  have hstep : (chain H).step s (.reassignCoordinator id MOCK_GOVERNANCE newCoordinator) =
      { s with jobs := Function.update s.jobs id (some job') } := by
    simp [chain, State.perform, State.onJob, hjob, hok, Except.map]
  obtain ⟨-, -, rfl⟩ := Job.reassignCoordinator_ok hok
  rw [hstep, withinStake_iff] at hwithin
  have hold' := hwithin id _ (Function.update_self _ _ _) old
  apply hover
  simpa [Job.totalSlashed, Job.challengePortion, Job.livenessPortion, Job.livenessAmount, hold]
    using hold'

/-- **Nobody loses more than the stake** in a run exactly when every liveness
slash of the run finds room in the stake that challenges have left. -/
theorem within_stake_iff (H : Hashes) (ops : List Op) :
    (∀ front, front <+: ops → ((chain H).run State.new front).WithinStake) ↔
      (chain H).Along LeavesLivenessSlash State.new ops := by
  constructor
  · intro hwithin
    rw [Machine.along_iff_forall_prefix]
    intro front op hfront
    by_contra hover
    have hafter := hwithin (front ++ [op]) hfront
    rw [Machine.run_concat] at hafter
    exact not_withinStake_of_overdraw hover hafter
  · intro hroom front hfront
    refine Machine.run_invariant State.WithinStake (fun _ _ h hin => withinStake_step hin h) ?_
      (hroom.of_prefix hfront)
    intro id job hjob
    cases hjob

/-- Ten upheld challenges take the stake of 10000, and then governance replaces
the coordinator. -/
def overdrawingRun : List Op :=
  committedRun 2 ++ (List.replicate 10 upheldChallenge).flatten ++
    [.advanceBlocks 101, .reassignCoordinator 0 MOCK_GOVERNANCE (FixedBytes.ofNat 1)]

/-- The coordinator has lost 10010 of 10000. -/
theorem stake_overdrawn :
    ¬ ∀ ops : List Op, ((chain zeroLeafHashes).run State.new ops).WithinStake := by
  intro hwithin
  have hlost : ((chain zeroLeafHashes).run State.new overdrawingRun).workerTotalSlashed 0
      (FixedBytes.ofNat 1) = 10010#128 := by
    decide +kernel
  have hstake : (((chain zeroLeafHashes).run State.new overdrawingRun).jobs 0).map
      (·.spec.perWorkerStake) = some 10000#128 := by
    decide +kernel
  obtain ⟨job, hjob, hjobStake⟩ := Option.map_eq_some_iff.mp hstake
  have hle := hwithin overdrawingRun 0 job hjob (FixedBytes.ofNat 1)
  rw [hlost, hjobStake] at hle
  exact absurd hle (by decide)

end MockChain
end Worker
end ComputePool
