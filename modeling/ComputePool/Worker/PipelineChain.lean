import ComputePool.Federated.Basic
import ComputePool.Lib.Machine
import ComputePool.Rust.Result

/-!
# The pipeline's chain model

The in-memory state machine of `pipeline.rs`: a job has an owner for each of its
stages, and a request moves through the stages in order, each paying its owner an
equal share of the request's payment.

The share is a quotient by the number of stages, which nothing keeps from being
zero.
-/

namespace ComputePool
namespace Worker

open RustStd Federated

namespace PipelineChain

abbrev StageIndex := UInt32

/-- `PipelineChainError`, without the texts it is shown with. -/
inductive PipelineChainError where
  | unknownJob (job : Nat)
  | unknownRequest (request : Nat)
  | wrongState (text : String)
  | notStageOwner (stage : StageIndex)
  | stageUnowned (stage : StageIndex)
  deriving DecidableEq

structure PipelineJobSpec where
  stageCount : UInt32
  paymentPerRequest : BitVec 128
  perStakePerStage : BitVec 128
  modelHash : B32

inductive RequestState where
  | inFlight | completed | failed
  deriving DecidableEq

structure Job where
  spec : PipelineJobSpec
  stageOwners : StageIndex → Option H160

structure Request where
  jobId : Nat
  requester : H160
  progress : StageIndex
  state : RequestState
  paymentEarned : List (H160 × BitVec 128)

/-- The tables keep every job and request, so that ids do not reach the end of
`u64`. -/
structure State where
  jobs : Nat → Option Job
  requests : Nat → Option Request
  nextJobId : Nat
  nextRequestId : Nat

def State.new : State where
  jobs := fun _ => none
  requests := fun _ => none
  nextJobId := 0
  nextRequestId := 0

/-- `*payment_earned.entry(worker).or_insert(0) += amount`. -/
def credit (worker : H160) (amount : BitVec 128) :
    List (H160 × BitVec 128) → List (H160 × BitVec 128)
  | [] => [(worker, amount)]
  | (key, earned) :: rest =>
      if key = worker then (key, earned + amount) :: rest
      else (key, earned) :: credit worker amount rest

/-- What a worker earned with a request. -/
def Request.earned (request : Request) (worker : H160) : BitVec 128 :=
  ((request.paymentEarned.find? (·.1 = worker)).map Prod.snd).getD 0

/-- What the workers earned with a request together. -/
def Request.totalPaid (request : Request) : Nat :=
  (request.paymentEarned.map (·.2.toNat)).sum

/-- The share of a stage of a request's payment. -/
def PipelineJobSpec.stageShare (spec : PipelineJobSpec) : BitVec 128 :=
  spec.paymentPerRequest / BitVec.ofNat 128 spec.stageCount.toNat

/-- The operations; a job is created with as many owners as it has stages. -/
inductive Op where
  | createActiveJob (spec : PipelineJobSpec) (stageOwners : List H160)
      (hcount : stageOwners.length = spec.stageCount.toNat)
  | submitRequest (job : Nat) (requester : H160)
  | faultStage (job : Nat) (stage : StageIndex)
  | reassignStage (job : Nat) (stage : StageIndex) (newOwner : H160)
  | advanceRequest (request : Nat) (caller : H160)

namespace State

variable (s : State)

def createActiveJob (spec : PipelineJobSpec) (stageOwners : List H160) :
    Checked PipelineChainError State :=
  if UInt32.ofNat stageOwners.length ≠ spec.stageCount then .error .panic
  else .ok
    { s with
      nextJobId := s.nextJobId + 1
      jobs := Function.update s.jobs s.nextJobId
        (some ⟨spec, fun stage => stageOwners[stage.toNat]?⟩) }

def submitRequest (job : Nat) (requester : H160) : Checked PipelineChainError State :=
  match s.jobs job with
  | none => .error (.err (.unknownJob job))
  | some _ => .ok
      { s with
        nextRequestId := s.nextRequestId + 1
        requests := Function.update s.requests s.nextRequestId
          (some ⟨job, requester, 0, .inFlight, []⟩) }

/-- `if let Some(job) = state.jobs.get_mut(&job_id)`, with what is put at a stage. -/
def setStage (id : Nat) (stage : StageIndex) (owner : Option H160) : State :=
  match s.jobs id with
  | none => s
  | some job =>
      { s with
        jobs := Function.update s.jobs id
          (some { job with stageOwners := Function.update job.stageOwners stage owner }) }

def advanceRequest (id : Nat) (caller : H160) : Checked PipelineChainError State :=
  match s.requests id with
  | none => .error (.err (.unknownRequest id))
  | some request =>
      if request.state ≠ .inFlight then .error (.err (.wrongState "not in-flight"))
      else
        match s.jobs request.jobId with
        | none => .error (.err (.unknownJob request.jobId))
        | some job =>
            match job.stageOwners request.progress with
            | none => .error (.err (.stageUnowned request.progress))
            | some owner =>
                if owner ≠ caller then .error (.err (.notStageOwner request.progress))
                -- `u128` division by zero.
                else if job.spec.stageCount = 0 then .error .panic
                else .ok
                  { s with
                    requests := Function.update s.requests id
                      (some
                        { request with
                          paymentEarned := credit caller job.spec.stageShare request.paymentEarned
                          progress := request.progress + 1
                          state :=
                            if request.progress + 1 = job.spec.stageCount then .completed
                            else .inFlight }) }

/-- What an operation returns, and the state it leaves. -/
def perform : Op → Checked PipelineChainError State
  | .createActiveJob spec stageOwners _ => s.createActiveJob spec stageOwners
  | .submitRequest job requester => s.submitRequest job requester
  | .faultStage job stage => .ok (s.setStage job stage none)
  | .reassignStage job stage newOwner => .ok (s.setStage job stage (some newOwner))
  | .advanceRequest request caller => s.advanceRequest request caller

end State

/-- An operation that fails changes nothing: the checks, and the division, come
before the first assignment. -/
def pipeline : Machine State Op where
  step s op :=
    match s.perform op with
    | .ok s' => s'
    | .error _ => s

/-- A stage of a request that was paid. -/
structure Payment where
  request : Nat
  stage : StageIndex
  worker : H160
  deriving DecidableEq

/-- The payment an operation makes: an accepted advance pays the stage it
advances from. -/
def State.payment (s : State) (op : Op) : Option Payment :=
  match op with
  | .advanceRequest id caller =>
      match s.advanceRequest id caller with
      | .ok _ => (s.requests id).map fun request => ⟨id, request.progress, caller⟩
      | .error _ => none
  | _ => none

/-- The payments of a run, in order. -/
def payments (s : State) : List Op → List Payment
  | [] => []
  | op :: rest => (s.payment op).toList ++ payments (pipeline.step s op) rest

variable {s s' : State} {op : Op} {id : Nat} {job job' : Job} {request request' : Request}

/-! ## Credits -/

theorem earned_le_totalPaid (request : Request) (worker : H160) :
    (request.earned worker).toNat ≤ request.totalPaid := by
  simp only [Request.earned, Request.totalPaid]
  induction request.paymentEarned with
  | nil => simp
  | cons entry rest ih =>
      by_cases hkey : entry.1 = worker
      · simp [hkey]
      · have hskip : (entry :: rest).find? (·.1 = worker) = rest.find? (·.1 = worker) :=
          List.find?_cons_of_neg (by simpa using hkey)
        rw [hskip, List.map_cons, List.sum_cons]
        omega

/-- A credit adds to what the worker has, and to what all have together. -/
theorem credit_spec (worker : H160) (amount : BitVec 128) (earned : List (H160 × BitVec 128))
    (hfits : (earned.map (·.2.toNat)).sum + amount.toNat < 2 ^ 128) :
    ((credit worker amount earned).map (·.2.toNat)).sum =
        (earned.map (·.2.toNat)).sum + amount.toNat ∧
      (((credit worker amount earned).find? (·.1 = worker)).map Prod.snd).getD 0 =
        ((earned.find? (·.1 = worker)).map Prod.snd).getD 0 + amount ∧
      ∀ other, other ≠ worker →
        (credit worker amount earned).find? (·.1 = other) = earned.find? (·.1 = other) := by
  induction earned with
  | nil =>
      refine ⟨by simp [credit], by simp [credit], fun other hother => ?_⟩
      simp [credit, hother.symm]
  | cons entry rest ih =>
      obtain ⟨key, old⟩ := entry
      simp only [List.map_cons, List.sum_cons] at hfits
      by_cases hkey : key = worker
      · subst hkey
        refine ⟨?_, by simp [credit], fun other hother => ?_⟩
        · simp only [credit, if_pos, List.map_cons, List.sum_cons, BitVec.toNat_add]
          rw [Nat.mod_eq_of_lt (by omega)]
          omega
        · simp [credit, hother.symm]
      · obtain ⟨hsum, hself, hothers⟩ := ih (by omega)
        refine ⟨?_, ?_, fun other hother => ?_⟩
        · simp only [credit, if_neg hkey, List.map_cons, List.sum_cons, hsum]
          omega
        · simpa [credit, hkey] using hself
        · simp only [credit, if_neg hkey, List.find?_cons, hothers other hother]

/-! ## What an operation does -/

/-- A request that is advanced once. -/
def advanced (request : Request) (caller : H160) (spec : PipelineJobSpec) : Request :=
  { request with
    paymentEarned := credit caller spec.stageShare request.paymentEarned
    progress := request.progress + 1
    state := if request.progress + 1 = spec.stageCount then .completed else .inFlight }

namespace State

theorem createActiveJob_eq {spec : PipelineJobSpec} {stageOwners : List H160}
    (hcount : stageOwners.length = spec.stageCount.toNat) :
    s.createActiveJob spec stageOwners = .ok
      { s with
        nextJobId := s.nextJobId + 1
        jobs := Function.update s.jobs s.nextJobId
          (some ⟨spec, fun stage => stageOwners[stage.toNat]?⟩) } := by
  rw [createActiveJob, if_neg]
  rw [hcount, UInt32.ofNat_toNat]
  exact fun h => h rfl

theorem submitRequest_ok {requester : H160} (h : s.submitRequest id requester = .ok s') :
    ∃ job, s.jobs id = some job ∧
      s' = { s with
        nextRequestId := s.nextRequestId + 1
        requests := Function.update s.requests s.nextRequestId
          (some ⟨id, requester, 0, .inFlight, []⟩) } := by
  simp only [submitRequest] at h
  split at h
  · cases h
  · rename_i job hjob
    exact ⟨job, hjob, (Except.ok.inj h).symm⟩

/-- What an accepted advance finds, and the request it leaves. -/
structure Advances (s : State) (id : Nat) (caller : H160) (request : Request) (job : Job) :
    Prop where
  found : s.requests id = some request
  flying : request.state = .inFlight
  jobFound : s.jobs request.jobId = some job
  owned : job.stageOwners request.progress = some caller
  stages : job.spec.stageCount ≠ 0

theorem advanceRequest_ok {caller : H160} (h : s.advanceRequest id caller = .ok s') :
    ∃ request job, s.Advances id caller request job ∧
      s' = { s with
        requests := Function.update s.requests id (some (advanced request caller job.spec)) } := by
  simp only [advanceRequest] at h
  split at h
  · cases h
  · rename_i request hrequest
    simp only [check_eq_ok, not_not] at h
    obtain ⟨hflight, h⟩ := h
    split at h
    · cases h
    · rename_i job hjob
      split at h
      · cases h
      · rename_i owner howner
        simp only [check_eq_ok, not_not, Except.ok.injEq] at h
        obtain ⟨rfl, hstages, rfl⟩ := h
        exact ⟨request, job, ⟨hrequest, hflight, hjob, howner, hstages⟩, rfl⟩

/-- Setting a stage's owner leaves the requests, and the specs of the jobs. -/
theorem setStage_spec (s : State) (id : Nat) (stage : StageIndex) (owner : Option H160) :
    (s.setStage id stage owner).requests = s.requests ∧
      (s.setStage id stage owner).nextJobId = s.nextJobId ∧
      (s.setStage id stage owner).nextRequestId = s.nextRequestId ∧
      ∀ other, ((s.setStage id stage owner).jobs other).map Job.spec =
        (s.jobs other).map Job.spec := by
  unfold setStage
  split
  · exact ⟨rfl, rfl, rfl, fun _ => rfl⟩
  · rename_i job hjob
    refine ⟨rfl, rfl, rfl, fun other => ?_⟩
    by_cases hother : other = id
    · subst hother
      simp [hjob]
    · simp [Function.update_of_ne hother]

end State

end PipelineChain
end Worker
end ComputePool
