import ComputePool.Coordinator.Lease
import ComputePool.Coordinator.Admission

/-!
# Heartbeats, submissions and restarts

`State::renew`, `State::submit`, and what a restart does to the leases it
finds: `revoke_out_of_policy`, then `grace_live_leases`.
-/

namespace ComputePool
namespace Coordinator

open RustStd

inductive SubmitError where
  | unknownJob
  | notLeaseholder
  | leaseExpired (expiredAt now : Nat)
  | notLeased
  | tierRevoked
  deriving DecidableEq

/-- A result of this worker was accepted; only a vouched worker's delivery
clears its no-show record. -/
def WorkerRecord.deliver (w : WorkerRecord) (trusted : Bool) (now : Nat) : WorkerRecord :=
  { w with
    lastSeen := now
    delivered := satAdd32 w.delivered 1
    noshows := if trusted then 0 else w.noshows }

namespace State

variable (s : State)

def addJob (spec : JobSpec) : State :=
  { s with
    dirty := true
    jobs := s.jobs.insert spec.id
      { spec := spec
        status := .pending
        attempts := 0
        failedBy := ∅
        result := none
        failedBySources := ∅
        heldUntil := 0
        persistedExpiry := 0 } }

/-- Overwrite the status of a job. -/
def setStatus (job : JobId) (status : JobStatus) : State :=
  { s with jobs := s.jobs.modify job fun r => { r with status := status } }

/-- Return a job whose lease the current policy no longer allows to the pool. -/
def revokeLease (job : JobId) : State :=
  match s.jobs[job]? with
  | none => s
  | some _ => { s.setStatus job .pending with dirty := true }

/-- Extend a live lease by one heartbeat window, never past its deadline. -/
def renew (worker : H160) (job : JobId) (now : Nat) : State × Except SubmitError Nat :=
  match s.jobs[job]? with
  | none => (s, .error .unknownJob)
  | some rec_ =>
      match rec_.status with
      | .leased holder expiresAt deadline =>
          if holder ≠ worker then (s, .error .notLeaseholder)
          else if expiresAt ≤ now then (s, .error (.leaseExpired expiresAt now))
          else if ¬ s.policy.tierAllowed worker rec_.spec.requires then
            (s.revokeLease job, .error .tierRevoked)
          else
            let hard := hardDeadline expiresAt deadline
            let extended :=
              max (min (satAdd now s.policy.leaseWindowSecs) hard) expiresAt
            -- A heartbeat is written only when it moved the expiry a full step
            -- past what is on disk, or reached the deadline.
            let persist :=
              decide (extended ≥ satAdd rec_.persistedExpiry HEARTBEAT_PERSIST_STEP_SECS) ||
                (decide (extended = hard) && decide (rec_.persistedExpiry ≠ hard))
            let s := { s.setStatus job (.leased worker extended hard) with
                       dirty := s.dirty || persist }
            (s.engage worker now, .ok extended)
      | _ => (s, .error .notLeased)

/-- What an accepted result does to the worker's record and, for a vouched
worker, to its source group's. -/
def credit (worker : H160) (trusted : Bool) (now : Nat) : State :=
  let group := (s.workers[worker]?).map fun w => sourceGroup w.source
  { s with
    workers := s.workers.modify worker fun w => w.deliver trusted now
    sources :=
      match group with
      | some g =>
          if trusted then s.sources.modify g fun src => { src with noshows := 0 }
          else s.sources
      | none => s.sources }

/-- Accept a result from the worker holding the lease. -/
def submit (worker : H160) (job : JobId) (result : String) (now : Nat) :
    State × Except SubmitError Unit :=
  match s.jobs[job]? with
  | none => (s, .error .unknownJob)
  | some rec_ =>
      match rec_.status with
      | .leased holder expiresAt _ =>
          if holder = worker ∧ expiresAt > now ∧
              ¬ s.policy.tierAllowed worker rec_.spec.requires then
            (s.revokeLease job, .error .tierRevoked)
          else if holder ≠ worker then (s, .error .notLeaseholder)
          else if expiresAt ≤ now then (s, .error (.leaseExpired expiresAt now))
          else
            let s := { s with
              jobs := s.jobs.modify job fun r =>
                { r with status := .done worker now, result := some result }
              dirty := true }
            (s.credit worker (s.policy.isTrusted worker) now, .ok ())
      | _ => (s, .error .notLeased)

/-- The jobs whose lease the current policy no longer allows. -/
def outOfPolicy : List JobId :=
  (s.jobs.toList.filter fun e =>
    match e.2.status with
    | .leased w _ _ => !s.policy.tierAllowed w e.2.spec.requires
    | _ => false).map Prod.fst

/-- Revoke every lease the current policy no longer allows. -/
def revokeOutOfPolicy : State × List JobId :=
  (s.outOfPolicy.foldl revokeLease s, s.outOfPolicy)

end State

/-- A lease still inside its deadline gets a fresh renewal window. -/
def JobStatus.grace (window now : Nat) : JobStatus → JobStatus
  | .leased worker expiresAt deadline =>
      let hard := hardDeadline expiresAt deadline
      if hard > now then
        let renewed := max (min (satAdd now window) hard) expiresAt
        if renewed ≠ expiresAt then .leased worker renewed hard
        else .leased worker expiresAt deadline
      else .leased worker expiresAt deadline
  | status => status

namespace State

variable (s : State)

/-- At start: give every lease still inside its deadline a fresh window. -/
def graceLiveLeases (now : Nat) : State :=
  let window := s.policy.leaseWindowSecs
  { s with
    jobs := s.jobs.map fun _ r => { r with status := r.status.grace window now }
    dirty := s.dirty || s.jobs.toList.any fun e =>
      decide (e.2.status.grace window now ≠ e.2.status) }

/-- Whether anything that must be persisted changed since the last call; the
lease expiries being written are recorded. -/
def takeDirty : State × Bool :=
  if s.dirty then
    ({ s with
        dirty := false
        jobs := s.jobs.map fun _ r =>
          match r.status with
          | .leased _ expiresAt _ => { r with persistedExpiry := expiresAt }
          | _ => r }, true)
  else (s, false)

/-- Record an accepted registration; `false` if it was already accepted.
Entries outside the freshness window are pruned. -/
def noteRegistration (id : H160) (timestamp nowNanos : Nat) : State × Bool :=
  let recent := s.recentRegistrations.filter fun e =>
    absDiff e.2 nowNanos ≤ LEASE_FRESHNESS_NANOS
  let inserted := decide ((id, timestamp) ∉ recent)
  ({ s with
      recentRegistrations := insert (id, timestamp) recent
      dirty := s.dirty || inserted }, inserted)

/-- Was `(id, timestamp)` already accepted? -/
def registrationSeen (id : H160) (timestamp : Nat) : Bool :=
  decide ((id, timestamp) ∈ s.recentRegistrations)

/-- What `Store::load` reads back from a state that `Store::save` wrote: the
skipped fields have their defaults. -/
def reload : State :=
  { s with
    dirty := false
    policy := Policy.default
    jobs := s.jobs.map fun _ r => { r with persistedExpiry := 0 } }

/-- `Coordinator::open_with` on a stored state. -/
def openWith (stored : State) (policy : Policy) (now : Nat) : State :=
  let s := { stored with policy := policy }
  let s := s.revokeOutOfPolicy.1
  (s.graceLiveLeases now).takeDirty.1

/-- A restart: the state is saved and reopened under `policy`. -/
def restart (policy : Policy) (now : Nat) : State :=
  openWith s.reload policy now

end State
end Coordinator
end ComputePool
