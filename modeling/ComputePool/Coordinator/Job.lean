import ComputePool.Federated.Round
import ComputePool.Rust.Json

/-!
# What work exists, and who is allowed to be given it

The vocabulary of `coordinator_protocol.rs`: the capability tiers, the job
specification, and what a specification is as far as federated LoRA rounds are
concerned.
-/

namespace ComputePool
namespace Coordinator

open RustStd

/-- What a machine has to be to receive a job.  Cumulative: a higher tier can
do everything below it. -/
inductive Capability where
  | probe
  | federated
  | h01
  deriving DecidableEq

namespace Capability

/-- The derived order of the enumeration: declaration order. -/
def rank : Capability → Nat
  | probe => 0
  | federated => 1
  | h01 => 2

theorem rank_injective : Function.Injective rank := by
  intro a b h
  cases a <;> cases b <;> first | rfl | cases h

instance : LinearOrder Capability := LinearOrder.lift' rank rank_injective

def satisfies (self required : Capability) : Bool := decide (required ≤ self)

end Capability

/-- Stable identifier for a unit of work. -/
abbrev JobId := String

/-- A unit of work as published by the coordinator. -/
structure JobSpec where
  id : JobId
  requires : Capability
  /-- What the worker actually runs. -/
  payload : Json
  /-- How long the lease lasts before the job returns to the pool. -/
  leaseSecs : Nat
  maxAttempts : Nat

/-- What the coordinator takes from other crates: the hashes, and the derived
deserialiser of a round payload (`serde_json::from_value`). -/
structure Env where
  hashes : Federated.Hashes
  payloadOfJson : Json → Option Federated.LoraDeltaPayload

/-- What a job is, as far as federated LoRA rounds are concerned. -/
inductive LoraRound where
  /-- Not a `lora_delta` job. -/
  | notLora
  /-- Says it is a `lora_delta` job but its payload does not parse or validate. -/
  | malformed
  | round (p : Federated.LoraDeltaPayload)

def loraRoundOf (env : Env) (spec : JobSpec) : LoraRound :=
  if (spec.payload.get "task").bind Json.asStr ≠ some Federated.TASK_LORA_DELTA then
    .notLora
  else
    match env.payloadOfJson spec.payload with
    | none => .malformed
    | some p =>
        match p.validate env.hashes with
        | .ok () => .round p
        | .error _ => .malformed

/-- The round a job belongs to, if it belongs to one. -/
def LoraRound.roundId? : LoraRound → Option Federated.B32
  | round p => some p.roundId
  | notLora | malformed => none

end Coordinator
end ComputePool
