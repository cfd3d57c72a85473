import ComputePool.PoolCoordinator.HttpChain
import ComputePool.Rust.Collections

/-!
# One compute request

`handle_event` of `pool-coordinator/src/lib.rs`: admit the event, check that this
daemon is the elected coordinator, pick a member, record the dispatch, POST the
prompt, and complete or fail the job.  It is written against the `ChainAdapter`
trait, so its calls here are the methods of the trait and the two uses of the
HTTP client; `HttpChainAdapter.handler` says what each of them does on the wire.
-/

namespace ComputePool
namespace PoolCoordinator

open RustStd Federated Interaction

/-- `ComputeRequestedEvent`, without the requester and the log position, which
`handle_event` does not read. -/
structure ComputeRequestedEvent where
  poolId : Nat
  jobId : Nat
  paymentGrains : Nat
  prompt : String
  maxTokens : Nat
  blockNumber : Nat

/-- `CoordinatorConfig`, as far as `handle_event` reads it. -/
structure CoordinatorConfig where
  memberEndpoints : BTreeMap H160 String
  providerTimeoutSecs : Nat
  minPaymentGrains : Nat
  maxPromptBytes : Nat
  maxTokensCap : Nat

inductive EffectCall where
  | coordinatorFor (poolId epoch : Nat)
  | poolMembers (poolId : Nat)
  | recordDispatch (jobId : Nat) (member : H160)
  | buildClient
  | poolInfer (endpoint : String) (body : PoolInferRequest) (timeoutSecs : Nat)
  | completeJob (jobId : Nat)
  | failJob (jobId : Nat)
  deriving DecidableEq

/-- The effects of `handle_event`. -/
abbrev Effect : Signature where
  Call := EffectCall
  Answer
    | .coordinatorFor _ _ => Except (Stop CoordinatorError) H160
    | .poolMembers _ => Except (Stop CoordinatorError) (List PoolMemberInfo)
    | .recordDispatch _ _ => Except (Stop CoordinatorError) Confirmed
    | .buildClient => Except String Unit
    | .poolInfer _ _ _ => PostReply
    | .completeJob _ => Except (Stop CoordinatorError) H256
    | .failJob _ => Except (Stop CoordinatorError) H256
  cost _ := 0

/-- What each effect does on the wire when the chain is an `HttpChainAdapter`. -/
def HttpChainAdapter.handler (a : HttpChainAdapter) : Handler Effect Wire
  | .coordinatorFor poolId epoch => a.coordinatorFor poolId epoch
  | .poolMembers poolId => a.poolMembers poolId
  | .recordDispatch jobId member => a.recordDispatch jobId member
  | .buildClient => Proc.call (I := Wire) .buildClient Proc.done
  | .poolInfer endpoint body timeoutSecs =>
      Proc.call (I := Wire) (.post endpoint body timeoutSecs) Proc.done
  | .completeJob jobId => a.completeJob jobId
  | .failJob jobId => a.failJob jobId

/-! ## The decision -/

def EPOCH_LENGTH : Nat := 100

def epochOf (block : Nat) : Nat := block / EPOCH_LENGTH

def DEFAULT_MODEL : String := "llama-3.1-8b"

/-- The admission gate: the first check an event fails. -/
def admission (cfg : CoordinatorConfig) (event : ComputeRequestedEvent) : Except Rejection Unit :=
  if cfg.minPaymentGrains ≠ 0 ∧ event.paymentGrains < cfg.minPaymentGrains then
    .error (.payment event.jobId event.paymentGrains cfg.minPaymentGrains)
  else if event.prompt.utf8ByteSize > cfg.maxPromptBytes then
    .error (.prompt event.jobId event.prompt.utf8ByteSize cfg.maxPromptBytes)
  else if event.maxTokens > cfg.maxTokensCap then
    .error (.maxTokens event.jobId event.maxTokens cfg.maxTokensCap)
  else .ok ()

/-- Stateless round-robin: the last eight bytes of the hash of the job id, modulo
the number of members. -/
def selectMember (H : Hashes) (jobId : Nat) (members : List H160) : Option H160 :=
  let h := keccak H [toBE 8 jobId]
  members[beNat (h.toBytes.drop 24) % members.length]?

/-- The members the dispatcher picks from. -/
def activeMembers (members : List PoolMemberInfo) : List H160 :=
  (members.filter fun m => m.active && decide (m.gpuCount > 0)).map PoolMemberInfo.address

/-- What `dispatch_to_member` makes of a provider's reply. -/
def providerResult (endpoint : String) : PostReply → Except ProviderError PoolInferResponse
  | .transport cause => .error (.transport cause)
  | .response status body =>
      if ¬ (200 ≤ status ∧ status < 300) then .error (.http status endpoint)
      else
        match body with
        | .error cause => .error (.decode cause)
        | .ok decoded =>
            if (trim decoded.output.toList).isEmpty then .error .emptyOutput else .ok decoded

def poolInferRequest (event : ComputeRequestedEvent) : PoolInferRequest where
  model := DEFAULT_MODEL
  prompt := event.prompt
  maxTokens := event.maxTokens
  jobId := event.jobId

/-- `return Err(e)`. -/
def refuse {α : Type} (e : CoordinatorError) : Fallible Effect (Stop CoordinatorError) α :=
  .fail (.err e)

/-- The end of `handle_event`, once the provider has replied. -/
def settle (event : ComputeRequestedEvent) (endpoint : String) (reply : PostReply) :
    Fallible Effect (Stop CoordinatorError) Unit :=
  match providerResult endpoint reply with
  | .ok _ => do
      let completed ← Fallible.ask (I := Effect) (.completeJob event.jobId)
      let _ ← .ofExcept completed
  | .error e => do
      -- `fail_job` is best effort: its own error is dropped
      let _ ← Fallible.ask (I := Effect) (.failJob event.jobId)
      refuse (.providerFailed e)

def handleEvent (H : Hashes) (selfAddress : H160) (cfg : CoordinatorConfig)
    (event : ComputeRequestedEvent) : Fallible Effect (Stop CoordinatorError) Unit := do
  .ofExcept ((admission cfg event).mapError fun e => .err (.rejectedEvent e))
  let elected ← Fallible.ask (I := Effect)
    (.coordinatorFor event.poolId (epochOf event.blockNumber))
  let elected ← .ofExcept elected
  if elected ≠ selfAddress then refuse .notCoordinator
  else
    let members ← Fallible.ask (I := Effect) (.poolMembers event.poolId)
    let members ← .ofExcept members
    if members.isEmpty then refuse (.noMembers event.poolId)
    else
      match selectMember H event.jobId (activeMembers members) with
      | none => refuse (.noMembers event.poolId)
      | some chosen =>
          match cfg.memberEndpoints[chosen]? with
          | none => refuse (.unknownMemberEndpoint chosen)
          | some endpoint =>
              let recorded ← Fallible.ask (I := Effect) (.recordDispatch event.jobId chosen)
              let _ ← .ofExcept recorded
              let client ← Fallible.ask (I := Effect) .buildClient
              .ofExcept (client.mapError fun cause => .err (.internal cause))
              let reply ← Fallible.ask (I := Effect)
                (.poolInfer endpoint (poolInferRequest event) cfg.providerTimeoutSecs)
              settle event endpoint reply

/-- `handle_event` over an `HttpChainAdapter`: its outcome and the spans of its
effects, against a node and a provider that behave like `env`. -/
def HttpChainAdapter.handled (a : HttpChainAdapter) (env : Env Wire) (cfg : CoordinatorConfig)
    (event : ComputeRequestedEvent) :
    Except (Stop CoordinatorError) Unit × List (Span Effect Wire) :=
  (handleEvent a.hashes a.wallet.address cfg event).runOver a.handler env []

end PoolCoordinator
end ComputePool
