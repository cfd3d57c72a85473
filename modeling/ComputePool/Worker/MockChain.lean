import ComputePool.Lib.Machine
import ComputePool.Rust.Integer
import ComputePool.Worker.Merkle

/-!
# The training pool's chain model

The in-memory state machine of `chain.rs`: a job recruits workers, its
coordinator commits epoch roots, and after a challenge window it is finalized.
Committee votes slash challenged workers; governance slashes a coordinator it
replaces.

A request that is refused leaves the state as it was: every check of an
operation comes before its first assignment.  Sums and products wrap, as in a
release build.
-/

namespace ComputePool
namespace Worker

open RustStd Federated

abbrev EpochIndex := UInt32
abbrev U128 := BitVec 128

namespace MockChain

/-- `ChainError`, without the texts it is shown with. -/
inductive ChainError where
  | unknownJob (job : Nat)
  | wrongState (text : String)
  | alreadyJoined
  | poolFull
  | stakeMismatch
  | belowMin
  | coordinatorNotJoined
  | wrongEpoch (expected got : EpochIndex)
  | epochAlreadyCommitted
  | challengeWindowOpen
  | notCoordinator
  | notReadyToFinalize
  | replacementNotJoined
  | coordinatorStillActive
  | notRequesterOrGovernance
  | notStalled
  | selfChallenge
  | targetNotJoined
  | epochNotCommitted
  | badMerkleProof
  | challengeAlreadyActive
  | challengeNotVoting
  | voterNotOnCommittee
  | alreadyVoted
  | zeroEpochRoot
  | stepOutOfRange
  | challengeEpochOutOfRange
  | wrongChallengeBond
  deriving DecidableEq

def CHALLENGE_BOND : U128 := 1000000000000000000#128
def STALL_EXPIRY_BLOCKS : UInt64 := 50400
def COORDINATION_TIMEOUT : UInt64 := 100
/-- `WorkerAddress::repeat_byte(0xA0)`. -/
def MOCK_REQUESTER : H160 := ⟨List.replicate 20 0xA0, List.length_replicate⟩
/-- `WorkerAddress::repeat_byte(0x60)`. -/
def MOCK_GOVERNANCE : H160 := ⟨List.replicate 20 0x60, List.length_replicate⟩
def COMMITTEE_QUORUM : UInt32 := 2
/-- Slash basis points, 10%. -/
def SLASH_BPS : U128 := 1000#128
/-- Basis points denominator. -/
def BPS : U128 := 10000#128

structure TrainingJobSpec where
  modelStartHash : B32
  datasetHash : B32
  epochCount : UInt32
  stepsPerEpoch : UInt32
  minWorkers : UInt32
  maxWorkers : UInt32
  challengeWindowBlocks : UInt32
  perEpochBudget : U128
  perWorkerStake : U128

inductive JobChainState where
  | recruiting | training | awaiting | finalized | aborted
  deriving DecidableEq

inductive ChallengeState where
  | voting | resolvedUphold | resolvedReject
  deriving DecidableEq

structure Challenge where
  challenger : H160
  bond : U128
  state : ChallengeState
  upholdVotes : UInt32
  rejectVotes : UInt32
  voted : Finset H160

/-- The challenge with a vote counted. -/
def Challenge.counted (ch : Challenge) (voter : H160) (uphold : Bool) : Challenge :=
  { ch with
    voted := insert voter ch.voted
    upholdVotes := if uphold then ch.upholdVotes + 1 else ch.upholdVotes
    rejectVotes := if uphold then ch.rejectVotes else ch.rejectVotes + 1 }

/-- A challenged epoch, step and worker. -/
abbrev ChallengeKey := EpochIndex × UInt32 × H160

structure Job where
  spec : TrainingJobSpec
  state : JobChainState
  currentEpoch : EpochIndex
  coordinator : Option H160
  workers : List H160
  joined : Finset H160
  epochRoots : EpochIndex → Option B32
  allEpochsCommittedBlock : UInt64
  lastActivityBlock : UInt64
  livenessSlashed : Finset H160
  challenges : ChallengeKey → Option Challenge
  /-- Per-worker challenge-slash total. -/
  challengeSlashed : H160 → Option U128

structure State where
  jobs : Nat → Option Job
  /-- The table keeps every job, so that ids do not reach the end of `u64`. -/
  nextJobId : Nat
  blockNumber : UInt64
  committee : Finset H160
  challengerRewards : H160 → Option U128

def State.new : State where
  jobs := fun _ => none
  nextJobId := 0
  blockNumber := 0
  committee := ∅
  challengerRewards := fun _ => none

/-- A job as `create_job` makes it. -/
def Job.new (spec : TrainingJobSpec) : Job where
  spec := spec
  state := .recruiting
  currentEpoch := 0
  coordinator := none
  workers := []
  joined := ∅
  epochRoots := fun _ => none
  allEpochsCommittedBlock := 0
  lastActivityBlock := 0
  livenessSlashed := ∅
  challenges := fun _ => none
  challengeSlashed := fun _ => none

namespace Job

variable (H : Hashes) (job : Job) (block : UInt64)

def joinTrainingJob (sender : H160) (stake : U128) : Except ChainError Job :=
  if job.state ≠ .recruiting then .error (.wrongState "not recruiting")
  else if sender ∈ job.joined then .error .alreadyJoined
  else if UInt32.ofNat job.workers.length ≥ job.spec.maxWorkers then .error .poolFull
  else if stake ≠ job.spec.perWorkerStake then .error .stakeMismatch
  else .ok { job with workers := job.workers ++ [sender], joined := insert sender job.joined }

def closeRecruitment (coordinator : H160) : Except ChainError Job :=
  if job.state ≠ .recruiting then .error (.wrongState "not recruiting")
  else if UInt32.ofNat job.workers.length < job.spec.minWorkers then .error .belowMin
  else if coordinator ∉ job.joined then .error .coordinatorNotJoined
  else .ok
    { job with state := .training, coordinator := some coordinator, lastActivityBlock := block }

def commitEpoch (sender : H160) (epoch : EpochIndex) (root : B32) : Except ChainError Job :=
  if job.state ≠ .training then .error (.wrongState "not training")
  else if job.coordinator ≠ some sender then .error .notCoordinator
  else if epoch ≠ job.currentEpoch then .error (.wrongEpoch job.currentEpoch epoch)
  else if (job.epochRoots epoch).isSome then .error .epochAlreadyCommitted
  else
    let committed : Job :=
      { job with
        epochRoots := Function.update job.epochRoots epoch (some root)
        currentEpoch := job.currentEpoch + 1
        lastActivityBlock := block }
    if committed.currentEpoch = job.spec.epochCount then
      .ok { committed with state := .awaiting, allEpochsCommittedBlock := block }
    else .ok committed

def finalize : Except ChainError Job :=
  if job.state ≠ .awaiting then .error .notReadyToFinalize
  else if block < job.allEpochsCommittedBlock +
      UInt64.ofNat job.spec.challengeWindowBlocks.toNat then .error .challengeWindowOpen
  else .ok { job with state := .finalized }

def expireStalledTraining (caller : H160) : Except ChainError Job :=
  if job.state ≠ .training then .error (.wrongState "not training")
  else if caller ≠ MOCK_REQUESTER ∧ caller ∉ job.joined then .error .notRequesterOrGovernance
  else if block ≤ job.lastActivityBlock + STALL_EXPIRY_BLOCKS then .error .notStalled
  else .ok { job with state := .awaiting, allEpochsCommittedBlock := block }

def reassignCoordinator (caller newCoordinator : H160) : Except ChainError Job :=
  if job.state ≠ .training then .error (.wrongState "not training")
  else if caller ≠ MOCK_REQUESTER ∧ caller ≠ MOCK_GOVERNANCE then
    .error .notRequesterOrGovernance
  else if newCoordinator ∉ job.joined then .error .replacementNotJoined
  else if block ≤ job.lastActivityBlock + COORDINATION_TIMEOUT then
    .error .coordinatorStillActive
  else .ok
    { job with
      -- The liveness slash applies only when governance adjudicates.
      livenessSlashed :=
        if caller = MOCK_GOVERNANCE then job.coordinator.toFinset ∪ job.livenessSlashed
        else job.livenessSlashed
      coordinator := some newCoordinator
      lastActivityBlock := block }

def challengeStep (caller : H160) (epoch : EpochIndex) (step : UInt32) (target : H160)
    (leaf : B32) (merkleProof : List B32) (bond : U128) : Except ChainError Job :=
  if caller = target then .error .selfChallenge
  else if target ∉ job.joined then .error .targetNotJoined
  else if bond ≠ CHALLENGE_BOND then .error .wrongChallengeBond
  else if step ≥ job.spec.stepsPerEpoch then .error .stepOutOfRange
  else if epoch ≥ job.spec.epochCount then .error .challengeEpochOutOfRange
  else
    match job.epochRoots epoch with
    | none => .error .epochNotCommitted
    | some root =>
        if ¬ Merkle.verifyMerkleProof H merkleProof root leaf then .error .badMerkleProof
        -- A new challenge needs an empty slot or one that is resolved.
        else if (job.challenges (epoch, step, target)).any (·.state = .voting) then
          .error .challengeAlreadyActive
        else .ok
          { job with
            challenges := Function.update job.challenges (epoch, step, target)
              (some ⟨caller, bond, .voting, 0, 0, ∅⟩) }

/-- What a liveness slash takes: `LIVENESS_SLASH_BPS` is 10. -/
def livenessAmount : U128 := job.spec.perWorkerStake * 10#128 / BPS

/-- What challenges took from a worker. -/
def challengePortion (worker : H160) : U128 := (job.challengeSlashed worker).getD 0

/-- What a liveness slash took from a worker. -/
def livenessPortion (worker : H160) : U128 :=
  if worker ∈ job.livenessSlashed then job.livenessAmount else 0

/-- `worker_total_slashed` of a job that exists. -/
def totalSlashed (worker : H160) : U128 := job.challengePortion worker + job.livenessPortion worker

/-- What an upheld challenge takes of the target's stake, bounded by what is held. -/
def upholdSlash (target : H160) : U128 :=
  let nominal := job.spec.perWorkerStake * SLASH_BPS / BPS
  let held := satSub128 (satSub128 job.spec.perWorkerStake (job.challengePortion target))
    (job.livenessPortion target)
  if nominal ≤ held then nominal else held

/-- A vote; with the job after it, who is rewarded for an upheld challenge, and
with how much. -/
def voteChallenge (voter : H160) (epoch : EpochIndex) (step : UInt32) (target : H160)
    (uphold : Bool) : Except ChainError (Job × Option (H160 × U128)) :=
  match job.challenges (epoch, step, target) with
  | none => .error .challengeNotVoting
  | some ch =>
      if ch.state ≠ .voting then .error .challengeNotVoting
      else if voter ∈ ch.voted then .error .alreadyVoted
      else
        let ch := ch.counted voter uphold
        let put (ch : Challenge) : Job :=
          { job with challenges := Function.update job.challenges (epoch, step, target) (some ch) }
        if ch.upholdVotes ≥ COMMITTEE_QUORUM then
          let slash := job.upholdSlash target
          .ok
            ({ put { ch with state := .resolvedUphold, bond := 0 } with
                challengeSlashed := Function.update job.challengeSlashed target
                  (some (job.challengePortion target + slash)) },
              some (ch.challenger, ch.bond + slash / 2))
        else if ch.rejectVotes ≥ COMMITTEE_QUORUM then
          .ok (put { ch with state := .resolvedReject, bond := 0 }, none)
        else .ok (put ch, none)

end Job

/-- The operations of the chain model. -/
inductive Op where
  | createJob (spec : TrainingJobSpec)
  | joinTrainingJob (job : Nat) (sender : H160) (stake : U128)
  | closeRecruitment (job : Nat) (coordinator : H160)
  | commitEpoch (job : Nat) (sender : H160) (epoch : EpochIndex) (root : B32)
  | advanceBlocks (n : UInt64)
  | finalize (job : Nat)
  | expireStalledTraining (job : Nat) (caller : H160)
  | reassignCoordinator (job : Nat) (caller newCoordinator : H160)
  | challengeStep (job : Nat) (caller : H160) (epoch : EpochIndex) (step : UInt32)
      (target : H160) (leaf : B32) (merkleProof : List B32) (bond : U128)
  | voteChallenge (job : Nat) (voter : H160) (epoch : EpochIndex) (step : UInt32)
      (target : H160) (uphold : Bool)
  | setCommitteeMember (member : H160) (active : Bool)

namespace State

variable (H : Hashes) (s : State)

/-- `state.jobs.get_mut(&job_id)`, with what is done to the job. -/
def onJob (id : Nat) (act : Job → Except ChainError Job) : Except ChainError State :=
  match s.jobs id with
  | none => .error (.unknownJob id)
  | some job => (act job).map fun job => { s with jobs := Function.update s.jobs id (some job) }

def createJob (spec : TrainingJobSpec) : State :=
  { s with
    nextJobId := s.nextJobId + 1
    jobs := Function.update s.jobs s.nextJobId (some (Job.new spec)) }

def commitEpoch (id : Nat) (sender : H160) (epoch : EpochIndex) (root : B32) :
    Except ChainError State :=
  if root = FixedBytes.zero then .error .zeroEpochRoot
  else s.onJob id fun job => job.commitEpoch s.blockNumber sender epoch root

def voteChallenge (id : Nat) (voter : H160) (epoch : EpochIndex) (step : UInt32)
    (target : H160) (uphold : Bool) : Except ChainError State :=
  if voter ∉ s.committee then .error .voterNotOnCommittee
  else
    match s.jobs id with
    | none => .error (.unknownJob id)
    | some job =>
        (job.voteChallenge voter epoch step target uphold).map fun (job, reward) =>
          { s with
            jobs := Function.update s.jobs id (some job)
            challengerRewards :=
              match reward with
              | none => s.challengerRewards
              | some (challenger, amount) =>
                  Function.update s.challengerRewards challenger
                    (some ((s.challengerRewards challenger).getD 0 + amount)) }

/-- What an operation returns, and the state it leaves. -/
def perform : Op → Except ChainError State
  | .createJob spec => .ok (s.createJob spec)
  | .joinTrainingJob id sender stake => s.onJob id fun job => job.joinTrainingJob sender stake
  | .closeRecruitment id coordinator =>
      s.onJob id fun job => job.closeRecruitment s.blockNumber coordinator
  | .commitEpoch id sender epoch root => s.commitEpoch id sender epoch root
  | .advanceBlocks n => .ok { s with blockNumber := s.blockNumber + n }
  | .finalize id => s.onJob id fun job => job.finalize s.blockNumber
  | .expireStalledTraining id caller =>
      s.onJob id fun job => job.expireStalledTraining s.blockNumber caller
  | .reassignCoordinator id caller newCoordinator =>
      s.onJob id fun job => job.reassignCoordinator s.blockNumber caller newCoordinator
  | .challengeStep id caller epoch step target leaf merkleProof bond =>
      s.onJob id fun job => job.challengeStep H caller epoch step target leaf merkleProof bond
  | .voteChallenge id voter epoch step target uphold =>
      s.voteChallenge id voter epoch step target uphold
  | .setCommitteeMember member active =>
      .ok
        { s with
          committee := if active then insert member s.committee else s.committee.erase member }

/-- `worker_total_slashed`. -/
def workerTotalSlashed (id : Nat) (worker : H160) : U128 :=
  match s.jobs id with
  | none => 0
  | some job => job.totalSlashed worker

end State

/-- An operation that is refused changes nothing. -/
def chain (H : Hashes) : Machine State Op where
  step s op :=
    match s.perform H op with
    | .ok s' => s'
    | .error _ => s

/-! ## What an operation does to one job -/

section Ok

variable {H : Hashes} {job job' : Job} {block : UInt64}

namespace Job

theorem joinTrainingJob_ok {sender : H160} {stake : U128}
    (h : job.joinTrainingJob sender stake = .ok job') :
    job.state = .recruiting ∧ sender ∉ job.joined ∧
      job' = { job with
        workers := job.workers ++ [sender], joined := insert sender job.joined } := by
  simp only [joinTrainingJob, check_eq_ok, not_not, Except.ok.injEq] at h
  obtain ⟨hstate, hnew, -, -, rfl⟩ := h
  exact ⟨hstate, hnew, rfl⟩

theorem closeRecruitment_ok {coordinator : H160}
    (h : job.closeRecruitment block coordinator = .ok job') :
    job.state = .recruiting ∧ coordinator ∈ job.joined ∧
      job' = { job with
        state := .training, coordinator := some coordinator, lastActivityBlock := block } := by
  simp only [closeRecruitment, check_eq_ok, not_not, Except.ok.injEq] at h
  obtain ⟨hstate, -, hjoined, rfl⟩ := h
  exact ⟨hstate, hjoined, rfl⟩

theorem commitEpoch_ok {sender : H160} {epoch : EpochIndex} {root : B32}
    (h : job.commitEpoch block sender epoch root = .ok job') :
    job.state = .training ∧ epoch = job.currentEpoch ∧
      job'.epochRoots = Function.update job.epochRoots epoch (some root) ∧
      job'.currentEpoch = job.currentEpoch + 1 ∧ job'.state ≠ .recruiting ∧
      job'.spec = job.spec ∧ job'.coordinator = job.coordinator ∧
      job'.workers = job.workers ∧ job'.joined = job.joined ∧
      job'.livenessSlashed = job.livenessSlashed ∧
      job'.challengeSlashed = job.challengeSlashed := by
  simp only [commitEpoch, check_eq_ok, not_not] at h
  obtain ⟨hstate, -, hepoch, -, h⟩ := h
  split at h
  · obtain rfl := Except.ok.inj h
    exact ⟨hstate, hepoch, rfl, rfl, by simp, rfl, rfl, rfl, rfl, rfl, rfl⟩
  · obtain rfl := Except.ok.inj h
    exact ⟨hstate, hepoch, rfl, rfl, by simp [hstate], rfl, rfl, rfl, rfl, rfl, rfl⟩

theorem finalize_ok (h : job.finalize block = .ok job') :
    job.state = .awaiting ∧ job' = { job with state := .finalized } := by
  simp only [finalize, check_eq_ok, not_not, Except.ok.injEq] at h
  obtain ⟨hstate, -, rfl⟩ := h
  exact ⟨hstate, rfl⟩

theorem expireStalledTraining_ok {caller : H160}
    (h : job.expireStalledTraining block caller = .ok job') :
    job.state = .training ∧
      job' = { job with state := .awaiting, allEpochsCommittedBlock := block } := by
  simp only [expireStalledTraining, check_eq_ok, not_not, Except.ok.injEq] at h
  obtain ⟨hstate, -, -, rfl⟩ := h
  exact ⟨hstate, rfl⟩

theorem reassignCoordinator_ok {caller newCoordinator : H160}
    (h : job.reassignCoordinator block caller newCoordinator = .ok job') :
    job.state = .training ∧ newCoordinator ∈ job.joined ∧
      job' = { job with
        livenessSlashed :=
          if caller = MOCK_GOVERNANCE then job.coordinator.toFinset ∪ job.livenessSlashed
          else job.livenessSlashed
        coordinator := some newCoordinator
        lastActivityBlock := block } := by
  simp only [reassignCoordinator, check_eq_ok, not_not, Except.ok.injEq] at h
  obtain ⟨hstate, -, hjoined, -, rfl⟩ := h
  exact ⟨hstate, hjoined, rfl⟩

/-- A challenge changes nothing but the table of challenges. -/
theorem challengeStep_ok {caller : H160} {epoch : EpochIndex} {step : UInt32} {target : H160}
    {leaf : B32} {merkleProof : List B32} {bond : U128}
    (h : job.challengeStep H caller epoch step target leaf merkleProof bond = .ok job') :
    ∃ challenges, job' = { job with challenges := challenges } := by
  simp only [challengeStep, check_eq_ok] at h
  obtain ⟨-, -, -, -, -, h⟩ := h
  split at h
  · cases h
  · simp only [check_eq_ok, Except.ok.injEq] at h
    obtain ⟨-, -, rfl⟩ := h
    exact ⟨_, rfl⟩

/-- The vote that a voter casts is counted, and completes the quorum that upholds
the challenge. -/
def Upholds (job : Job) (voter : H160) (epoch : EpochIndex) (step : UInt32) (target : H160)
    (uphold : Bool) : Prop :=
  ∃ ch, job.challenges (epoch, step, target) = some ch ∧ ch.state = .voting ∧
    voter ∉ ch.voted ∧ (ch.counted voter uphold).upholdVotes ≥ COMMITTEE_QUORUM

/-- A vote changes the table of challenges, and slashes the target when it upholds
the challenge. -/
theorem voteChallenge_ok {voter : H160} {epoch : EpochIndex} {step : UInt32} {target : H160}
    {uphold : Bool} {reward : Option (H160 × U128)}
    (h : job.voteChallenge voter epoch step target uphold = .ok (job', reward)) :
    ∃ challenges,
      (job.Upholds voter epoch step target uphold ∧
        job' = { job with
          challenges := challenges
          challengeSlashed := Function.update job.challengeSlashed target
            (some (job.challengePortion target + job.upholdSlash target)) }) ∨
      ¬ job.Upholds voter epoch step target uphold ∧
        job' = { job with challenges := challenges } := by
  simp only [voteChallenge] at h
  split at h
  · cases h
  · rename_i ch hch
    simp only [check_eq_ok, not_not] at h
    obtain ⟨hvoting, hnew, h⟩ := h
    split at h
    · rename_i hquorum
      obtain ⟨rfl, -⟩ := Prod.mk.inj (Except.ok.inj h)
      exact ⟨_, .inl ⟨⟨ch, hch, hvoting, hnew, hquorum⟩, rfl⟩⟩
    · rename_i hquorum
      have hnot : ¬ job.Upholds voter epoch step target uphold := by
        rintro ⟨ch', hch', -, -, hquorum'⟩
        obtain rfl := Option.some.inj (hch.symm.trans hch')
        exact hquorum hquorum'
      split at h
      · obtain ⟨rfl, -⟩ := Prod.mk.inj (Except.ok.inj h)
        exact ⟨_, .inr ⟨hnot, rfl⟩⟩
      · obtain ⟨rfl, -⟩ := Prod.mk.inj (Except.ok.inj h)
        exact ⟨_, .inr ⟨hnot, rfl⟩⟩

/-- A vote that upholds a challenge is accepted. -/
theorem Upholds.accepted {voter : H160} {epoch : EpochIndex} {step : UInt32} {target : H160}
    {uphold : Bool} (h : job.Upholds voter epoch step target uphold) :
    ∃ job' reward, job.voteChallenge voter epoch step target uphold = .ok (job', reward) := by
  obtain ⟨ch, hch, hvoting, hnew, hquorum⟩ := h
  simp only [voteChallenge, hch]
  rw [if_neg (by simp [hvoting]), if_neg hnew, if_pos hquorum]
  exact ⟨_, _, rfl⟩

end Job

/-- An accepted operation of the chain model on one job. -/
inductive JobStep (H : Hashes) (s : State) (id : Nat) (job job' : Job) : Op → Prop where
  | joinTrainingJob {sender : H160} {stake : U128}
      (h : job.joinTrainingJob sender stake = .ok job') :
      JobStep H s id job job' (.joinTrainingJob id sender stake)
  | closeRecruitment {coordinator : H160}
      (h : job.closeRecruitment s.blockNumber coordinator = .ok job') :
      JobStep H s id job job' (.closeRecruitment id coordinator)
  | commitEpoch {sender : H160} {epoch : EpochIndex} {root : B32} (hroot : root ≠ FixedBytes.zero)
      (h : job.commitEpoch s.blockNumber sender epoch root = .ok job') :
      JobStep H s id job job' (.commitEpoch id sender epoch root)
  | finalize (h : job.finalize s.blockNumber = .ok job') : JobStep H s id job job' (.finalize id)
  | expireStalledTraining {caller : H160}
      (h : job.expireStalledTraining s.blockNumber caller = .ok job') :
      JobStep H s id job job' (.expireStalledTraining id caller)
  | reassignCoordinator {caller newCoordinator : H160}
      (h : job.reassignCoordinator s.blockNumber caller newCoordinator = .ok job') :
      JobStep H s id job job' (.reassignCoordinator id caller newCoordinator)
  | challengeStep {caller : H160} {epoch : EpochIndex} {step : UInt32} {target : H160}
      {leaf : B32} {merkleProof : List B32} {bond : U128}
      (h : job.challengeStep H caller epoch step target leaf merkleProof bond = .ok job') :
      JobStep H s id job job' (.challengeStep id caller epoch step target leaf merkleProof bond)
  | voteChallenge {voter : H160} {epoch : EpochIndex} {step : UInt32} {target : H160}
      {uphold : Bool} {reward : Option (H160 × U128)} (hvoter : voter ∈ s.committee)
      (h : job.voteChallenge voter epoch step target uphold = .ok (job', reward)) :
      JobStep H s id job job' (.voteChallenge id voter epoch step target uphold)

variable {s s' : State} {op : Op}

theorem State.onJob_ok {id : Nat} {act : Job → Except ChainError Job}
    (h : s.onJob id act = .ok s') :
    ∃ job job', s.jobs id = some job ∧ act job = .ok job' ∧
      s' = { s with jobs := Function.update s.jobs id (some job') } := by
  simp only [State.onJob] at h
  split at h
  · cases h
  · rename_i job hjob
    cases hact : act job with
    | error e =>
        rw [hact] at h
        cases h
    | ok job' =>
        rw [hact] at h
        exact ⟨job, job', hjob, hact, (Except.ok.inj h).symm⟩

/-- What an accepted operation does to the jobs: it creates one, or it is an
operation on one of them, or it touches none. -/
theorem perform_cases (h : s.perform H op = .ok s') :
    (∃ spec, op = .createJob spec ∧ s' = s.createJob spec) ∨
      (∃ id job job', s.jobs id = some job ∧ JobStep H s id job job' op ∧
        s'.jobs = Function.update s.jobs id (some job') ∧ s'.nextJobId = s.nextJobId) ∨
      s'.jobs = s.jobs ∧ s'.nextJobId = s.nextJobId := by
  -- The operations which go through `get_mut` differ in the act only.
  have hon : ∀ {id : Nat} {act : Job → Except ChainError Job},
      (∀ job job', act job = .ok job' → JobStep H s id job job' op) →
      s.onJob id act = .ok s' →
      ∃ id job job', s.jobs id = some job ∧ JobStep H s id job job' op ∧
        s'.jobs = Function.update s.jobs id (some job') ∧ s'.nextJobId = s.nextJobId := by
    intro id act hstep hact
    obtain ⟨job, job', hjob, hok, rfl⟩ := State.onJob_ok hact
    exact ⟨id, job, job', hjob, hstep job job' hok, rfl, rfl⟩
  cases op with
  | createJob spec => exact .inl ⟨spec, rfl, (Except.ok.inj h).symm⟩
  | joinTrainingJob id sender stake =>
      exact .inr (.inl (hon (fun _ _ hok => .joinTrainingJob hok) h))
  | closeRecruitment id coordinator =>
      exact .inr (.inl (hon (fun _ _ hok => .closeRecruitment hok) h))
  | commitEpoch id sender epoch root =>
      simp only [State.perform, State.commitEpoch, check_eq_ok] at h
      exact .inr (.inl (hon (fun _ _ hok => .commitEpoch h.1 hok) h.2))
  | advanceBlocks n =>
      obtain rfl := Except.ok.inj h
      exact .inr (.inr ⟨rfl, rfl⟩)
  | finalize id => exact .inr (.inl (hon (fun _ _ hok => .finalize hok) h))
  | expireStalledTraining id caller =>
      exact .inr (.inl (hon (fun _ _ hok => .expireStalledTraining hok) h))
  | reassignCoordinator id caller newCoordinator =>
      exact .inr (.inl (hon (fun _ _ hok => .reassignCoordinator hok) h))
  | challengeStep id caller epoch step target leaf merkleProof bond =>
      exact .inr (.inl (hon (fun _ _ hok => .challengeStep hok) h))
  | voteChallenge id voter epoch step target uphold =>
      simp only [State.perform, State.voteChallenge, check_eq_ok, not_not] at h
      obtain ⟨hvoter, h⟩ := h
      split at h
      · cases h
      · rename_i job hjob
        cases hvote : job.voteChallenge voter epoch step target uphold with
        | error e =>
            rw [hvote] at h
            cases h
        | ok result =>
            rw [hvote] at h
            obtain rfl := Except.ok.inj h
            exact .inr (.inl ⟨id, job, result.1, hjob, .voteChallenge hvoter hvote, rfl, rfl⟩)
  | setCommitteeMember member active =>
      obtain rfl := Except.ok.inj h
      exact .inr (.inr ⟨rfl, rfl⟩)

/-- Where a job of the state after an operation comes from. -/
theorem job_of_step {id : Nat} (h : ((chain H).step s op).jobs id = some job') :
    s.jobs id = some job' ∨
      (∃ spec, op = .createJob spec ∧ id = s.nextJobId ∧ job' = Job.new spec) ∨
      ∃ job, s.jobs id = some job ∧ JobStep H s id job job' op := by
  simp only [chain] at h
  split at h
  · rename_i s' hok
    rcases perform_cases hok with ⟨spec, rfl, rfl⟩ | ⟨id', job, after, hjob, hstep, hjobs, -⟩ |
      ⟨hjobs, -⟩
    · have hcreated : Function.update s.jobs s.nextJobId (some (Job.new spec)) id = some job' := h
      by_cases hid : id = s.nextJobId
      · subst hid
        rw [Function.update_self] at hcreated
        exact .inr (.inl ⟨spec, rfl, rfl, (Option.some.inj hcreated).symm⟩)
      · rw [Function.update_of_ne hid] at hcreated
        exact .inl hcreated
    · rw [hjobs] at h
      by_cases hid : id = id'
      · subst hid
        rw [Function.update_self] at h
        obtain rfl := Option.some.inj h
        exact .inr (.inr ⟨job, hjob, hstep⟩)
      · rw [Function.update_of_ne hid] at h
        exact .inl h
    · rw [hjobs] at h
      exact .inl h
  · exact .inl h

end Ok

/-- Hashes that agree with Keccak-256 on the one string of a single-leaf proof of
the zero leaf: 33 zero bytes. -/
def zeroLeafHashes : Hashes where
  keccak256 _ :=
    FixedBytes.ofNat 0xf39a869f62e75cf5f0bf914688a6b289caf2049435d8e68c5c5e6d05e44913f3
  sha256 _ := FixedBytes.zero

/-- Worker 1 joins, coordinates, and commits the root of the zero leaf; two
committee members are seated. -/
def committedRun (epochCount : UInt32) : List Op :=
  [.createJob ⟨default, default, epochCount, 1, 1, 5, 10, 0, 10000⟩,
    .joinTrainingJob 0 (FixedBytes.ofNat 1) 10000,
    .closeRecruitment 0 (FixedBytes.ofNat 1),
    .commitEpoch 0 (FixedBytes.ofNat 1) 0 (zeroLeafHashes.keccak256 []),
    .setCommitteeMember (FixedBytes.ofNat 2) true,
    .setCommitteeMember (FixedBytes.ofNat 3) true]

/-- Worker 1 is challenged and the committee upholds the challenge. -/
def upheldChallenge : List Op :=
  [.challengeStep 0 (FixedBytes.ofNat 4) 0 0 (FixedBytes.ofNat 1) FixedBytes.zero [] CHALLENGE_BOND,
    .voteChallenge 0 (FixedBytes.ofNat 2) 0 0 (FixedBytes.ofNat 1) true,
    .voteChallenge 0 (FixedBytes.ofNat 3) 0 0 (FixedBytes.ofNat 1) true]

end MockChain
end Worker
end ComputePool
