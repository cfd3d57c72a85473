import ComputePool.Worker.MockChain

/-!
# The life of a training job

What holds of a job of the chain model in every state, and what no operation
changes once the job is finalized.  Two operations do not look at the state of
the job: a challenge may be opened and voted on at any time, so that a worker of a
finalized job can still be slashed.  And the epoch counter of a job of no epochs
does not stop at the job's end; it wraps after the last `u32`.
-/

namespace ComputePool
namespace Worker
namespace MockChain

open RustStd Federated

variable {H : Hashes} {s s' : State} {op : Op} {job job' : Job} {id : Nat}

namespace Job

/-- The recorded roots are those of the epochs before the current one, and a job
that has left recruiting is coordinated by a worker. -/
structure InOrder (job : Job) : Prop where
  roots : ∀ epoch, (job.epochRoots epoch).isSome ↔ epoch.toNat < job.currentEpoch.toNat
  nonzero : ∀ epoch root, job.epochRoots epoch = some root → root ≠ FixedBytes.zero
  coordinator : job.state ≠ .recruiting →
    ∃ worker, job.coordinator = some worker ∧ worker ∈ job.workers

/-- The set of the joined and the list of the workers agree. -/
def Members (job : Job) : Prop := ∀ worker, worker ∈ job.joined ↔ worker ∈ job.workers

theorem new_inOrder (spec : TrainingJobSpec) : (Job.new spec).InOrder where
  roots := by simp [Job.new]
  nonzero := by simp [Job.new]
  coordinator := fun h => absurd rfl h

theorem new_members (spec : TrainingJobSpec) : (Job.new spec).Members := by
  simp [Members, Job.new]

/-- What is settled when a job is finalized. -/
structure SameRecord (job job' : Job) : Prop where
  state : job'.state = .finalized
  epochRoots : job'.epochRoots = job.epochRoots
  workers : job'.workers = job.workers
  coordinator : job'.coordinator = job.coordinator
  slashed : ∀ worker, job'.totalSlashed worker = job.totalSlashed worker

end Job

/-- Every job is in order. -/
def State.InOrder (s : State) : Prop := ∀ id job, s.jobs id = some job → job.InOrder

/-- What is settled of the finalized jobs of one state is the same in another. -/
def State.Frozen (s s' : State) : Prop :=
  ∀ id job, s.jobs id = some job → job.state = .finalized →
    ∃ job', s'.jobs id = some job' ∧ job.SameRecord job'

/-- No epoch is committed at the end of the counter, and no vote on a finalized
job upholds a challenge against a worker who has stake left to slash. -/
structure Timely (s : State) (op : Op) : Prop where
  epochs : ∀ id sender epoch root, op = .commitEpoch id sender epoch root →
    ∀ job, s.jobs id = some job → root ≠ FixedBytes.zero →
      (∃ job', job.commitEpoch s.blockNumber sender epoch root = .ok job') →
        epoch.toNat ≠ u32Max
  window : ∀ id voter epoch step target uphold,
    op = .voteChallenge id voter epoch step target uphold → voter ∈ s.committee →
      ∀ job, s.jobs id = some job → job.state = .finalized →
        job.Upholds voter epoch step target uphold → job.upholdSlash target = 0

/-! ## Steps -/

theorem JobStep.members (hstep : JobStep H s id job job' op) (h : job.Members) : job'.Members := by
  cases hstep with
  | joinTrainingJob hok =>
      obtain ⟨-, -, rfl⟩ := Job.joinTrainingJob_ok hok
      intro worker
      simp only [Finset.mem_insert, List.mem_append, List.mem_singleton, h worker]
      exact or_comm
  | closeRecruitment hok =>
      obtain ⟨-, -, rfl⟩ := Job.closeRecruitment_ok hok
      exact h
  | commitEpoch hroot hok =>
      obtain ⟨-, -, -, -, -, -, -, hworkers, hjoined, -, -⟩ := Job.commitEpoch_ok hok
      intro worker
      rw [hworkers, hjoined]
      exact h worker
  | finalize hok =>
      obtain ⟨-, rfl⟩ := Job.finalize_ok hok
      exact h
  | expireStalledTraining hok =>
      obtain ⟨-, rfl⟩ := Job.expireStalledTraining_ok hok
      exact h
  | reassignCoordinator hok =>
      obtain ⟨-, -, rfl⟩ := Job.reassignCoordinator_ok hok
      exact h
  | challengeStep hok =>
      obtain ⟨challenges, rfl⟩ := Job.challengeStep_ok hok
      exact h
  | voteChallenge hvoter hok =>
      obtain ⟨challenges, ⟨-, rfl⟩ | ⟨-, rfl⟩⟩ := Job.voteChallenge_ok hok
      · exact h
      · exact h

/-- The epoch after one that is not the last of the counter. -/
theorem toNat_succ {epoch : EpochIndex} (h : epoch.toNat ≠ u32Max) :
    (epoch + 1).toNat = epoch.toNat + 1 := by
  have hlt := epoch.toNat_lt
  simp only [u32Max] at h
  rw [UInt32.toNat_add, UInt32.toNat_one]
  omega

theorem JobStep.inOrder (hstep : JobStep H s id job job' op) (hjob : s.jobs id = some job)
    (htimely : Timely s op) (hmembers : job.Members) (h : job.InOrder) : job'.InOrder := by
  cases hstep with
  | joinTrainingJob hok =>
      obtain ⟨hstate, -, rfl⟩ := Job.joinTrainingJob_ok hok
      exact ⟨h.roots, h.nonzero, fun hleft => absurd hstate hleft⟩
  | closeRecruitment hok =>
      obtain ⟨-, hjoined, rfl⟩ := Job.closeRecruitment_ok hok
      exact ⟨h.roots, h.nonzero, fun _ => ⟨_, rfl, (hmembers _).mp hjoined⟩⟩
  | @commitEpoch sender epoch root hroot hok =>
      have hlast := htimely.epochs id sender epoch root rfl job hjob hroot ⟨job', hok⟩
      obtain ⟨hstate, rfl, hroots, hcurrent, -, -, hcoordinator, hworkers, -, -, -⟩ :=
        Job.commitEpoch_ok hok
      have hnext : job'.currentEpoch.toNat = job.currentEpoch.toNat + 1 := by
        rw [hcurrent, toNat_succ hlast]
      refine ⟨fun epoch => ?_, fun epoch root' hrecorded => ?_, fun _ => ?_⟩
      · rw [hroots, hnext]
        by_cases hepoch : epoch = job.currentEpoch
        · subst hepoch
          simp
        · have hne : epoch.toNat ≠ job.currentEpoch.toNat :=
            fun heq => hepoch (UInt32.toNat_inj.mp heq)
          rw [Function.update_of_ne hepoch, h.roots epoch]
          omega
      · rw [hroots] at hrecorded
        by_cases hepoch : epoch = job.currentEpoch
        · subst hepoch
          rw [Function.update_self] at hrecorded
          exact Option.some.inj hrecorded ▸ hroot
        · rw [Function.update_of_ne hepoch] at hrecorded
          exact h.nonzero epoch root' hrecorded
      · rw [hcoordinator, hworkers]
        exact h.coordinator (by simp [hstate])
  | finalize hok =>
      obtain ⟨hstate, rfl⟩ := Job.finalize_ok hok
      exact ⟨h.roots, h.nonzero, fun _ => h.coordinator (by simp [hstate])⟩
  | expireStalledTraining hok =>
      obtain ⟨hstate, rfl⟩ := Job.expireStalledTraining_ok hok
      exact ⟨h.roots, h.nonzero, fun _ => h.coordinator (by simp [hstate])⟩
  | reassignCoordinator hok =>
      obtain ⟨-, hjoined, rfl⟩ := Job.reassignCoordinator_ok hok
      exact ⟨h.roots, h.nonzero, fun _ => ⟨_, rfl, (hmembers _).mp hjoined⟩⟩
  | challengeStep hok =>
      obtain ⟨challenges, rfl⟩ := Job.challengeStep_ok hok
      exact ⟨h.roots, h.nonzero, h.coordinator⟩
  | voteChallenge hvoter hok =>
      obtain ⟨challenges, ⟨-, rfl⟩ | ⟨-, rfl⟩⟩ := Job.voteChallenge_ok hok
      · exact ⟨h.roots, h.nonzero, h.coordinator⟩
      · exact ⟨h.roots, h.nonzero, h.coordinator⟩

/-- An upheld challenge that takes nothing. -/
theorem Job.totalSlashed_of_upholdSlash_zero {target : H160} (h : job.upholdSlash target = 0)
    (challenges : ChallengeKey → Option Challenge) (worker : H160) :
    ({ job with
      challenges := challenges
      challengeSlashed := Function.update job.challengeSlashed target
        (some (job.challengePortion target + job.upholdSlash target)) } : Job).totalSlashed worker =
      job.totalSlashed worker := by
  by_cases hworker : worker = target
  · subst hworker
    simp [totalSlashed, challengePortion, livenessPortion, livenessAmount, h]
  · simp [totalSlashed, challengePortion, livenessPortion, livenessAmount,
      Function.update_of_ne hworker]

/-- A step on a finalized job leaves its record as it is. -/
theorem JobStep.sameRecord (hstep : JobStep H s id job job' op) (hjob : s.jobs id = some job)
    (htimely : Timely s op) (hfinal : job.state = .finalized) : job.SameRecord job' := by
  cases hstep with
  | joinTrainingJob hok =>
      rw [(Job.joinTrainingJob_ok hok).1] at hfinal
      cases hfinal
  | closeRecruitment hok =>
      rw [(Job.closeRecruitment_ok hok).1] at hfinal
      cases hfinal
  | commitEpoch hroot hok =>
      rw [(Job.commitEpoch_ok hok).1] at hfinal
      cases hfinal
  | finalize hok =>
      rw [(Job.finalize_ok hok).1] at hfinal
      cases hfinal
  | expireStalledTraining hok =>
      rw [(Job.expireStalledTraining_ok hok).1] at hfinal
      cases hfinal
  | reassignCoordinator hok =>
      rw [(Job.reassignCoordinator_ok hok).1] at hfinal
      cases hfinal
  | challengeStep hok =>
      obtain ⟨challenges, rfl⟩ := Job.challengeStep_ok hok
      exact ⟨hfinal, rfl, rfl, rfl, fun _ => rfl⟩
  | voteChallenge hvoter hok =>
      obtain ⟨challenges, ⟨hupholds, rfl⟩ | ⟨-, rfl⟩⟩ := Job.voteChallenge_ok hok
      · have hzero := htimely.window _ _ _ _ _ _ rfl hvoter job hjob hfinal hupholds
        exact ⟨hfinal, rfl, rfl, rfl, Job.totalSlashed_of_upholdSlash_zero hzero challenges⟩
      · exact ⟨hfinal, rfl, rfl, rfl, fun _ => rfl⟩

/-! ## Runs -/

/-- What carries the induction: ids ahead of the counter are free. -/
structure State.Sound (s : State) : Prop where
  inOrder : s.InOrder
  members : ∀ id job, s.jobs id = some job → job.Members
  fresh : ∀ id, s.nextJobId ≤ id → s.jobs id = none

theorem sound_new : State.new.Sound where
  inOrder := by
    intro id job hjob
    cases hjob
  members := by
    intro id job hjob
    cases hjob
  fresh := fun _ _ => rfl

theorem sound_step (htimely : Timely s op) (h : s.Sound) : ((chain H).step s op).Sound where
  inOrder := by
    intro id job hjob
    rcases job_of_step hjob with hsame | ⟨spec, -, -, rfl⟩ | ⟨before, hbefore, hstep⟩
    · exact h.inOrder id job hsame
    · exact Job.new_inOrder spec
    · exact hstep.inOrder hbefore htimely (h.members id before hbefore)
        (h.inOrder id before hbefore)
  members := by
    intro id job hjob
    rcases job_of_step hjob with hsame | ⟨spec, -, -, rfl⟩ | ⟨before, hbefore, hstep⟩
    · exact h.members id job hsame
    · exact Job.new_members spec
    · exact hstep.members (h.members id before hbefore)
  fresh := by
    simp only [chain]
    split
    · rename_i s' hok
      rcases perform_cases hok with ⟨spec, -, rfl⟩ | ⟨id, job, job', hjob, -, hjobs, hnext⟩ |
        ⟨hjobs, hnext⟩
      · intro other hother
        have hle : s.nextJobId + 1 ≤ other := hother
        exact (Function.update_of_ne (by omega) _ _).trans (h.fresh other (by omega))
      · intro other hother
        rw [hnext] at hother
        have hnone := h.fresh other hother
        have hne : other ≠ id := by
          rintro rfl
          rw [hjob] at hnone
          cases hnone
        rw [hjobs, Function.update_of_ne hne]
        exact hnone
      · rw [hjobs, hnext]
        exact h.fresh
    · exact h.fresh

theorem frozen_step (htimely : Timely s op) (h : s.Sound) : s.Frozen ((chain H).step s op) := by
  intro id job hjob hfinal
  have hsame : job.SameRecord job := ⟨hfinal, rfl, rfl, rfl, fun _ => rfl⟩
  simp only [chain]
  split
  · rename_i s' hok
    rcases perform_cases hok with ⟨spec, -, rfl⟩ | ⟨id', before, after, hbefore, hstep, hjobs, -⟩ |
      ⟨hjobs, -⟩
    · -- A job is created under an id that is free.
      have hne : id ≠ s.nextJobId := by
        rintro rfl
        rw [h.fresh _ le_rfl] at hjob
        cases hjob
      exact ⟨job, (Function.update_of_ne hne _ _).trans hjob, hsame⟩
    · rw [hjobs]
      by_cases hid : id = id'
      · subst hid
        obtain rfl := Option.some.inj (hbefore.symm.trans hjob)
        exact ⟨after, Function.update_self _ _ _, hstep.sameRecord hjob htimely hfinal⟩
      · exact ⟨job, (Function.update_of_ne hid _ _).trans hjob, hsame⟩
    · rw [hjobs]
      exact ⟨job, hjob, hsame⟩
  · exact ⟨job, hjob, hsame⟩

/-- An epoch committed at the end of the counter leaves a root at no epoch before
the current one. -/
theorem not_inOrder_of_last {sender : H160} {epoch : EpochIndex} {root : B32}
    (hjob : s.jobs id = some job) (hroot : root ≠ FixedBytes.zero)
    (hok : job.commitEpoch s.blockNumber sender epoch root = .ok job')
    (hlast : epoch.toNat = u32Max) :
    ¬ ((chain H).step s (.commitEpoch id sender epoch root)).InOrder := by
  intro horder
  have hstep : (chain H).step s (.commitEpoch id sender epoch root) =
      { s with jobs := Function.update s.jobs id (some job') } := by
    simp [chain, State.perform, State.commitEpoch, State.onJob, hjob, hok, hroot, Except.map]
  rw [hstep] at horder
  have hjob' := horder id job' (Function.update_self _ _ _)
  obtain ⟨-, rfl, hroots, hcurrent, -⟩ := Job.commitEpoch_ok hok
  have hsome := (hjob'.roots job.currentEpoch).mp (by rw [hroots, Function.update_self]; rfl)
  rw [hcurrent, UInt32.toNat_add, UInt32.toNat_one, hlast] at hsome
  simp [u32Max] at hsome

/-- A vote that slashes a worker of a finalized job changes what it has lost. -/
theorem not_frozen_of_slash {voter : H160} {epoch : EpochIndex} {step : UInt32} {target : H160}
    {uphold : Bool} (hvoter : voter ∈ s.committee) (hjob : s.jobs id = some job)
    (hfinal : job.state = .finalized) (hupholds : job.Upholds voter epoch step target uphold)
    (hslash : job.upholdSlash target ≠ 0) :
    ¬ s.Frozen ((chain H).step s (.voteChallenge id voter epoch step target uphold)) := by
  intro hfrozen
  obtain ⟨job', reward, hok⟩ := hupholds.accepted
  obtain ⟨after, hafter, hrecord⟩ := hfrozen id job hjob hfinal
  have hstep : ((chain H).step s (.voteChallenge id voter epoch step target uphold)).jobs id =
      some job' := by
    simp [chain, State.perform, State.voteChallenge, hvoter, hjob, hok, Except.map]
  obtain rfl := Option.some.inj (hstep.symm.trans hafter)
  have hsame := hrecord.slashed target
  obtain ⟨challenges, ⟨-, rfl⟩ | ⟨hnot, -⟩⟩ := Job.voteChallenge_ok hok
  · apply hslash
    simpa [Job.totalSlashed, Job.challengePortion, Job.livenessPortion, Job.livenessAmount]
      using hsame
  · exact hnot hupholds

/-- **The life cycle** holds along a run, in every state and at every step, exactly
when the run is timely: no epoch is committed at the end of the counter, and no
vote slashes a worker of a finalized job. -/
theorem life_cycle_iff (H : Hashes) (ops : List Op) :
    ((∀ front, front <+: ops → ((chain H).run State.new front).InOrder) ∧
      ∀ front op, front ++ [op] <+: ops →
        ((chain H).run State.new front).Frozen ((chain H).run State.new (front ++ [op]))) ↔
      (chain H).Along Timely State.new ops := by
  constructor
  · rintro ⟨horder, hfrozen⟩
    rw [Machine.along_iff_forall_prefix]
    intro front op hfront
    have hafter := horder (front ++ [op]) hfront
    have hkept := hfrozen front op hfront
    rw [Machine.run_concat] at hafter hkept
    constructor
    · rintro id sender epoch root rfl job hjob hroot ⟨job', hok⟩ hlast
      exact not_inOrder_of_last hjob hroot hok hlast hafter
    · rintro id voter epoch step target uphold rfl hvoter job hjob hfinal hupholds
      by_contra hslash
      exact not_frozen_of_slash hvoter hjob hfinal hupholds hslash hkept
  · intro htimely
    have hsound : ∀ front, front <+: ops → ((chain H).run State.new front).Sound :=
      fun front hfront => Machine.run_invariant State.Sound
        (fun _ _ h hin => sound_step hin h) sound_new (htimely.of_prefix hfront)
    refine ⟨fun front hfront => (hsound front hfront).inOrder, fun front op hfront => ?_⟩
    rw [Machine.run_concat]
    have hstep := Machine.along_iff_forall_prefix.mp htimely front op hfront
    exact frozen_step hstep (hsound front ((List.prefix_append _ _).trans hfront))

/-- One epoch is committed, the challenge window passes, the job is finalized, and
then a challenge is upheld. -/
def lateSlashRun : List Op :=
  committedRun 1 ++ [.advanceBlocks 10, .finalize 0] ++ upheldChallenge

/-- The worker of the finalized job loses a tenth of its stake. -/
theorem finalized_job_slashed :
    ¬ ∀ (front : List Op) (op : Op), ((chain zeroLeafHashes).run State.new front).Frozen
      ((chain zeroLeafHashes).run State.new (front ++ [op])) := by
  intro hfrozen
  have hkept := hfrozen lateSlashRun.dropLast
    (.voteChallenge 0 (FixedBytes.ofNat 3) 0 0 (FixedBytes.ofNat 1) true)
  have hbefore : (((chain zeroLeafHashes).run State.new lateSlashRun.dropLast).jobs 0).map
      (fun job => (job.state, job.totalSlashed (FixedBytes.ofNat 1))) =
        some (.finalized, 0#128) := by
    decide +kernel
  have hafter : (((chain zeroLeafHashes).run State.new (lateSlashRun.dropLast ++
      [.voteChallenge 0 (FixedBytes.ofNat 3) 0 0 (FixedBytes.ofNat 1) true])).jobs 0).map
        (fun job => job.totalSlashed (FixedBytes.ofNat 1)) = some 1000#128 := by
    decide +kernel
  obtain ⟨job, hjob, hpair⟩ := Option.map_eq_some_iff.mp hbefore
  obtain ⟨hfinal, hzero⟩ := Prod.mk.inj hpair
  obtain ⟨job', hjob', hrecord⟩ := hkept 0 job hjob hfinal
  rw [hjob', Option.map_some, hrecord.slashed, hzero] at hafter
  exact absurd (Option.some.inj hafter) (by decide)

end MockChain
end Worker
end ComputePool
