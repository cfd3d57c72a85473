import ComputePool.Worker.EpochAggregator
import ComputePool.Federated.Tree
import ComputePool.Worker.PipelineChain

/-!
# Serving a stage of a pipeline

`serve_request` of `pipeline.rs` as a machine that stops at each of its awaits:
`recv`, the query for the upstream owner, the broadcast, and `advance_request`.
What the environment answers is an input of the machine, and so is a cancellation,
which may come at any await: `serve_request_resilient` puts its timeout around the
whole call.

A call keeps what it took from the queue in a local variable.  An activation of
another request is discarded, and so is the one the call holds when it is
cancelled.
-/

namespace ComputePool
namespace Worker
namespace Pipeline

open RustStd Federated PipelineChain

deriving instance DecidableEq for WorkerMessage

/-- A worker's role within a pipeline job. -/
structure StageRole where
  jobId : Nat
  stageIndex : StageIndex
  selfAddress : H160
  totalStages : UInt32

namespace StageRole

variable (role : StageRole)

def isFirstStage : Bool := role.stageIndex == 0

def isLastStage : Bool := role.stageIndex + 1 == role.totalStages

def nextStage : Option StageIndex :=
  if role.isLastStage then none else some (role.stageIndex + 1)

end StageRole

/-- The fields of a `PipelineActivation`. -/
structure Activation where
  requestId : UInt64
  fromStage : StageIndex
  toStage : StageIndex
  fromWorker : H160
  payload : List UInt8
  deriving DecidableEq

def Activation.message (a : Activation) : WorkerMessage :=
  .pipelineActivation a.requestId a.fromStage a.toStage a.fromWorker a.payload

/-- `pipeline_stage_forward`. -/
def pipelineStageForward (H : Hashes) (stageIndex : StageIndex) (input : List UInt8) :
    List UInt8 :=
  (keccak H [toBE 4 stageIndex.toNat, input]).toBytes

/-- The await a call is at, with what its local variables hold. -/
inductive Phase where
  | idle
  | receiving (request : UInt64)
  /-- The owner of the upstream stage is asked for. -/
  | checking (request : UInt64) (incoming : Activation)
  | forwarding (request : UInt64) (incoming : Option Activation) (output : List UInt8)
  | advancing (request : UInt64) (incoming : Option Activation) (output : List UInt8)

/-- The activation a call holds. -/
def Phase.held : Phase → Option Activation
  | checking _ incoming => some incoming
  | forwarding _ incoming _ | advancing _ incoming _ => incoming
  | _ => none

structure State where
  queue : List WorkerMessage
  phase : Phase

def State.new : State := ⟨[], .idle⟩

/-- What a call of `serve_request` for a request did. -/
inductive Event where
  /-- `recv` took the message from the queue. -/
  | took (request : UInt64) (msg : WorkerMessage)
  /-- The message was no activation for the request and the stage. -/
  | skipped (request : UInt64) (msg : WorkerMessage)
  /-- Its sender was not the upstream owner. -/
  | refused (request : UInt64) (incoming : Activation)
  | forwarded (msg : WorkerMessage)
  /-- `advance_request` succeeded. -/
  | advanced (request : UInt64) (incoming : Option Activation)
  | returned (request : UInt64) (finalOutput : Option (List UInt8))
  /-- The call failed or was cancelled. -/
  | cut (request : UInt64) (incoming : Option Activation)
  deriving DecidableEq

/-- Messages that arrive, calls, what their awaits return, and cancellation. -/
inductive Act where
  | arrive (msg : WorkerMessage)
  | serve (request : UInt64) (firstStageInput : Option (List UInt8))
  | recv
  | closed
  | ownerReply (reply : Except PipelineChainError (Option H160))
  | broadcastDone (ok : Bool)
  | advanceReply (reply : Except PipelineChainError RequestState)
  | cancel

section Step

variable (H : Hashes) (role : StageRole)

/-- What the loop of `serve_request` makes of a message, up to the next await. -/
def receive (request : UInt64) (msg : WorkerMessage) : Phase × List Event :=
  match msg with
  | .pipelineActivation rid fromStage toStage fromWorker payload =>
      if rid ≠ request ∨ toStage ≠ role.stageIndex then
        (.receiving request, [.took request msg, .skipped request msg])
      else if fromStage ≠ role.stageIndex - 1 then
        (.receiving request, [.took request msg, .skipped request msg])
      else (.checking request ⟨rid, fromStage, toStage, fromWorker, payload⟩, [.took request msg])
  | _ => (.receiving request, [.took request msg, .skipped request msg])

/-- Run the stage, up to the next await. -/
def compute (request : UInt64) (incoming : Option Activation) (input : List UInt8) : Phase :=
  let output := pipelineStageForward H role.stageIndex input
  match role.nextStage with
  | some _ => .forwarding request incoming output
  | none => .advancing request incoming output

/-- The activation that a stage sends to the next one. -/
def outgoing (request : UInt64) (output : List UInt8) : WorkerMessage :=
  .pipelineActivation request role.stageIndex (role.stageIndex + 1) role.selfAddress output

/-- A step, with what happened in it.  An answer to an await that the call is not
at does not come. -/
def perform (s : State) : Act → State × List Event
  | .arrive msg => ({ s with queue := s.queue ++ [msg] }, [])
  | .serve request firstStageInput =>
      match s.phase with
      | .idle =>
          if role.isFirstStage then
            match firstStageInput with
            | some input => ({ s with phase := compute H role request none input }, [])
            | none => (s, [.cut request none])
          else ({ s with phase := .receiving request }, [])
      | _ => (s, [])
  | .recv =>
      match s.phase, s.queue with
      | .receiving request, msg :: rest =>
          let (phase, events) := receive role request msg
          (⟨rest, phase⟩, events)
      | _, _ => (s, [])
  | .closed =>
      match s.phase with
      | .receiving request => ({ s with phase := .idle }, [.cut request none])
      | _ => (s, [])
  | .ownerReply reply =>
      match s.phase with
      | .checking request incoming =>
          match reply with
          | .error _ => ({ s with phase := .idle }, [.cut request (some incoming)])
          | .ok owner =>
              if owner ≠ some incoming.fromWorker then
                ({ s with phase := .receiving request }, [.refused request incoming])
              else
                ({ s with phase := compute H role request (some incoming) incoming.payload }, [])
      | _ => (s, [])
  | .broadcastDone ok =>
      match s.phase with
      | .forwarding request incoming output =>
          if ok then
            ({ s with phase := .advancing request incoming output },
              [.forwarded (outgoing role request output)])
          else ({ s with phase := .idle }, [.cut request incoming])
      | _ => (s, [])
  | .advanceReply reply =>
      match s.phase with
      | .advancing request incoming output =>
          match reply with
          | .error _ => ({ s with phase := .idle }, [.cut request incoming])
          | .ok _ =>
              ({ s with phase := .idle },
                [.advanced request incoming,
                  .returned request (if role.isLastStage then some output else none)])
      | _ => (s, [])
  | .cancel =>
      match s.phase with
      | .idle => (s, [])
      | .receiving request => ({ s with phase := .idle }, [.cut request none])
      | .checking request incoming => ({ s with phase := .idle }, [.cut request (some incoming)])
      | .forwarding request incoming _ | .advancing request incoming _ =>
          ({ s with phase := .idle }, [.cut request incoming])

def worker : Machine State Act where
  step s act := (perform H role s act).1

/-- What happened in a run, in order. -/
def trace (s : State) : List Act → List Event
  | [] => []
  | act :: rest => (perform H role s act).2 ++ trace ((worker H role).step s act) rest

end Step

variable {H : Hashes} {role : StageRole} {s : State} {act : Act} {a : Activation}

/-! ## What becomes of a message -/

/-- The activation is for this stage, and from the stage before it. -/
def Activation.Addressed (a : Activation) (role : StageRole) : Prop :=
  a.toStage = role.stageIndex ∧ a.fromStage = role.stageIndex - 1

/-- The activation that a call holds is for the request of the call. -/
def Phase.Sound : Phase → Prop
  | .checking request incoming => incoming.requestId = request
  | .forwarding request incoming _ | .advancing request incoming _ =>
      ∀ a, incoming = some a → a.requestId = request
  | _ => True

/-- How often an activation was taken by a call for its own request. -/
def tookOwn (a : Activation) (events : List Event) : Nat :=
  events.count (.took a.requestId a.message)

/-- How often a call for its request was done with an activation: it was refused,
or its request was advanced with it, or the call was cut short. -/
def doneWith (a : Activation) (events : List Event) : Nat :=
  events.count (.refused a.requestId a) + events.count (.advanced a.requestId (some a)) +
    events.count (.cut a.requestId (some a))

/-- Whether a call holds the activation. -/
def Phase.holds (phase : Phase) (a : Activation) : Nat := if phase.held = some a then 1 else 0

section Holds

variable (request : UInt64) (incoming : Option Activation) (a : Activation) (output : List UInt8)

@[simp] theorem holds_idle : Phase.idle.holds a = 0 := rfl

@[simp] theorem holds_receiving : (Phase.receiving request).holds a = 0 := rfl

@[simp] theorem holds_checking (b : Activation) :
    (Phase.checking request b).holds a = if b = a then 1 else 0 := by
  simp [Phase.holds, Phase.held]

@[simp] theorem holds_forwarding : (Phase.forwarding request incoming output).holds a =
    if incoming = some a then 1 else 0 := rfl

@[simp] theorem holds_advancing : (Phase.advancing request incoming output).holds a =
    if incoming = some a then 1 else 0 := rfl

@[simp] theorem holds_compute (input : List UInt8) :
    (compute H role request incoming input).holds a = if incoming = some a then 1 else 0 := by
  simp only [compute]
  split <;> rfl

variable {request incoming}

end Holds

@[simp] theorem tookOwn_nil (a : Activation) : tookOwn a [] = 0 := rfl

@[simp] theorem doneWith_nil (a : Activation) : doneWith a [] = 0 := rfl

end Pipeline
end Worker
end ComputePool
