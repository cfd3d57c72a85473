import ComputePool.Coordinator.Job
import ComputePool.Rust.Integer

/-!
# The coordinator's state

The records of `state.rs`.  Times are unix seconds; a `u64` sum saturates.
`tokens_per_second` is an `f64`, kept as its bits.
-/

namespace ComputePool
namespace Coordinator

open RustStd

/-- Where a job is in its life. -/
inductive JobStatus where
  /-- Available to be leased. -/
  | pending
  /-- Held by a worker until `expiresAt`.  Heartbeats move `expiresAt` forward,
  never past `deadline`; a `deadline` of 0 is read as "no extension". -/
  | leased (worker : H160) (expiresAt deadline : Nat)
  /-- Submitted and accepted. -/
  | done (worker : H160) (at_ : Nat)
  | quarantined (reason : String)
  deriving DecidableEq

namespace JobStatus

/-- The worker a lease names, live or lapsed. -/
def holder? : JobStatus → Option H160
  | leased w _ _ => some w
  | _ => none

/-- The holder of a lease which is live at `now`. -/
def liveHolder? (now : Nat) : JobStatus → Option H160
  | leased w e _ => if e > now then some w else none
  | _ => none

end JobStatus

structure JobRecord where
  spec : JobSpec
  status : JobStatus
  attempts : Nat
  /-- Workers whose lease on this job expired. -/
  failedBy : Finset H160
  /-- Set once accepted. -/
  result : Option String
  /-- Source groups whose worker let a lease on this job lapse. -/
  failedBySources : Finset String
  /-- After a lapse the job is offered only to vouched workers until then. -/
  heldUntil : Nat
  /-- Lease expiry as last written to disk; 0 after a load. -/
  persistedExpiry : Nat

structure WorkerRecord where
  capability : Capability
  backend : String
  dtype : String
  tokensPerSecond : UInt64
  registeredAt : Nat
  lastSeen : Nat
  /-- Where the registration came from. -/
  source : String
  /-- Leases this worker let expire since its last accepted submission. -/
  noshows : Nat
  /-- No new lease before this unix second. -/
  cooldownUntil : Nat
  delivered : Nat
  lastRegistration : Nat
  /-- Last time this worker asked for work or heartbeated a lease. -/
  lastEngaged : Option Nat
  deriving DecidableEq

/-- No-show history of a source group. -/
structure SourceRecord where
  noshows : Nat
  cooldownUntil : Nat
  lastSeen : Nat
  deriving DecidableEq

/-- `SourceRecord::default()`. -/
def SourceRecord.default : SourceRecord := ⟨0, 0, 0⟩

/-- A key's no-show history, kept after its registry record is evicted. -/
structure Penalty where
  noshows : Nat
  cooldownUntil : Nat
  deriving DecidableEq

/-- `Penalty::default()`. -/
def Penalty.default : Penalty := ⟨0, 0⟩

/-- Operator-supplied admission policy. -/
structure Policy where
  /-- Addresses the operator has vetted for top-tier work. -/
  trustedH01 : Finset H160
  /-- Highest tier an unvouched worker may be granted. -/
  openTier : Capability
  maxWorkersPerSource : Nat
  leaseWindowSecs : Nat
  maxLeasesPerSource : Nat
  registerRefreshSecs : Nat
  deriving DecidableEq

/-- `MAX_LEASES_PER_WORKER`. -/
def MAX_LEASES_PER_WORKER : Nat := 1
def DEFAULT_MAX_WORKERS_PER_SOURCE : Nat := 16
def SOURCE_SLOT_STALE_SECS : Nat := 86400
def DEFAULT_MAX_LEASES_PER_SOURCE : Nat := 4
def LAPSE_HOLD_SECS : Nat := 900
def VOUCHED_ACTIVE_SECS : Nat := 3600
def RESERVATION_MAX_SECS : Nat := 7 * 86400
def HEARTBEAT_PERSIST_STEP_SECS : Nat := 300
def DEFAULT_REGISTER_REFRESH_SECS : Nat := 60
def LEASE_RENEW_WINDOW_SECS : Nat := 900
def NOSHOW_BACKOFF_BASE_SECS : Nat := 3600
def NOSHOW_BACKOFF_MAX_SECS : Nat := 7 * 86400
/-- Upper bound on the worker map. -/
def MAX_WORKERS : Nat := 4096
/-- Bound on the persisted `sources` map. -/
def MAX_SOURCES : Nat := MAX_WORKERS

namespace Policy

/-- `Policy::default()`. -/
def default : Policy where
  trustedH01 := ∅
  openTier := .probe
  maxWorkersPerSource := DEFAULT_MAX_WORKERS_PER_SOURCE
  leaseWindowSecs := LEASE_RENEW_WINDOW_SECS
  maxLeasesPerSource := DEFAULT_MAX_LEASES_PER_SOURCE
  registerRefreshSecs := DEFAULT_REGISTER_REFRESH_SECS

def isTrusted (p : Policy) (id : H160) : Bool := decide (id ∈ p.trustedH01)

/-- The capability the coordinator actually grants for a claimed one. -/
def effectiveCapability (p : Policy) (id : H160) (claimed : Capability) : Capability :=
  if p.isTrusted id then claimed else min (min claimed p.openTier) .federated

/-- `State::tier_allowed`: the operator policy check only. -/
def tierAllowed (p : Policy) (worker : H160) (requires : Capability) : Bool :=
  (p.effectiveCapability worker .h01).satisfies requires

end Policy

structure State where
  jobs : BTreeMap JobId JobRecord
  workers : BTreeMap H160 WorkerRecord
  /-- Per-source-group no-show history. -/
  sources : BTreeMap String SourceRecord
  /-- No-show history of keys no longer in `workers`. -/
  penalties : BTreeMap H160 Penalty
  policy : Policy
  /-- Set by every change that must be persisted. -/
  dirty : Bool
  /-- (signer, timestamp) of registrations accepted within the freshness window. -/
  recentRegistrations : Finset (H160 × Nat)

/-- `State::default()` under a policy: the empty store. -/
def State.empty (policy : Policy) : State where
  jobs := ∅
  workers := ∅
  sources := ∅
  penalties := ∅
  policy := policy
  dirty := false
  recentRegistrations := ∅

/-- How long a lapsed job above the probe tier may stay reserved. -/
def reservationCap (leaseSecs : Nat) : Nat :=
  max LAPSE_HOLD_SECS (min (satMul leaseSecs 2) RESERVATION_MAX_SECS)

/-- The unit a no-show is charged to: an IPv6 source, folded to a /64, is
widened to its /48; any other source stands for itself. -/
def sourceGroup (source : String) : String :=
  match stripSuffix "::/64".toList source.toList with
  | none => source
  | some pre =>
      match pre.splitOn ':' with
      | [a, b, c, _] => String.ofList (a ++ [':'] ++ b ++ [':'] ++ c ++ "::/48".toList)
      | _ => source

/-- Cool-down after the `n`th consecutive no-show. -/
def noshowBackoff (n : Nat) : Nat :=
  let doublings := min (n - 1) 20
  min (satMul NOSHOW_BACKOFF_BASE_SECS (2 ^ doublings)) NOSHOW_BACKOFF_MAX_SECS

/-- The last moment a lease can be extended to. -/
def hardDeadline (expiresAt deadline : Nat) : Nat :=
  if deadline = 0 then expiresAt else deadline

end Coordinator
end ComputePool
