import ComputePool.Coordinator.Register

/-!
# Expiry and assignment

`State::expire_leases` and `State::lease`.  The sweep is the loop of the
source: one pass over the jobs in key order which updates job records and
worker records and collects the groups to be charged when the pass is over.
-/

namespace ComputePool
namespace Coordinator

open RustStd

inductive LeaseError where
  | unknownWorker
  | nothingAvailable
  | coolingDown (until_ : Nat)
  | atLeaseCap
  deriving DecidableEq

/-- A lapsed lease costs the worker one no-show and a doubling cool-down. -/
def WorkerRecord.noshow (w : WorkerRecord) (now : Nat) : WorkerRecord :=
  let noshows := satAdd32 w.noshows 1
  { w with noshows := noshows, cooldownUntil := satAdd now (noshowBackoff noshows) }

/-- What the sweep does to a job record: the job goes back to the pool, the
holder is not offered it again, nor is its source group when there is one to
charge. -/
def JobRecord.lapse (rec_ : JobRecord) (worker : H160) (group : Option String)
    (now : Nat) : JobRecord :=
  { rec_ with
    failedBy := insert worker rec_.failedBy
    status := .pending
    heldUntil := satAdd now LAPSE_HOLD_SECS
    failedBySources :=
      match group with
      | some g => insert g rec_.failedBySources
      | none => rec_.failedBySources }

/-- The accumulator of the sweep's loop. -/
structure Sweep where
  state : State
  freed : List JobId
  lapsedGroups : List String

namespace State

variable (s : State)

/-- The source group charged with a lapse of `worker`: that of its record, if
it is registered and unvouched. -/
def lapsedGroup (worker : H160) : Option String :=
  match s.workers[worker]? with
  | some w => if worker ∈ s.policy.trustedH01 then none else some (sourceGroup w.source)
  | none => none

end State

/-- One iteration of the sweep. -/
def Sweep.visit (now : Nat) (acc : Sweep) (entry : JobId × JobRecord) : Sweep :=
  match entry.2.status with
  | .leased worker expiresAt _ =>
      if expiresAt > now then acc
      else
        let group := acc.state.lapsedGroup worker
        { state :=
            { acc.state with
              jobs := acc.state.jobs.insert entry.1 (entry.2.lapse worker group now)
              workers := acc.state.workers.modify worker fun w => w.noshow now
              dirty := true }
          freed := acc.freed ++ [entry.1]
          lapsedGroups := acc.lapsedGroups ++ group.toList }
  | _ => acc

namespace State

variable (s : State)

/-- The loop of the sweep, before the groups are charged. -/
def sweepJobs (now : Nat) : Sweep :=
  s.jobs.toList.foldl (Sweep.visit now) ⟨s, [], []⟩

/-- Return expired leases to the pool. -/
def expireLeases (now : Nat) : State × List JobId :=
  let sweep := s.sweepJobs now
  (sweep.lapsedGroups.foldl (fun s g => s.chargeSource g now) sweep.state, sweep.freed)

/-- Is a pending job reserved for vetted workers at `now`? -/
def reservedForVouched (rec_ : JobRecord) (now : Nat) : Bool :=
  if rec_.heldUntil = 0 then false
  else if rec_.heldUntil > now then true
  else if rec_.spec.requires = .probe then false
  else if now ≥ satAdd (rec_.heldUntil - LAPSE_HOLD_SECS) (reservationCap rec_.spec.leaseSecs)
  then false
  else
    s.workers.toList.any fun e =>
      s.policy.isTrusted e.1 &&
        (match e.2.lastEngaged with
          | some t => decide (now - t < VOUCHED_ACTIVE_SECS)
          | none => false) &&
        decide (e.1 ∉ rec_.failedBy) &&
        (s.policy.effectiveCapability e.1 e.2.capability).satisfies rec_.spec.requires

/-- The leases, live or lapsed, that name `worker` as their holder. -/
def heldBy (worker : H160) : Nat :=
  s.jobs.toList.countP fun e => decide (e.2.status.holder? = some worker)

/-- Is `h` an unvouched registered worker of the source group? -/
def unvouchedOf (group : String) (h : H160) : Bool :=
  !s.policy.isTrusted h &&
    match s.workers[h]? with
    | some w => sourceGroup w.source == group
    | none => false

/-- The leases held by unvouched registered workers of one source group. -/
def heldByGroup (group : String) : Nat :=
  s.jobs.toList.countP fun e =>
    match e.2.status.holder? with
    | some h => s.unvouchedOf group h
    | none => false

/-- The limits which apply before a job is chosen. -/
def leaseRefusal (worker : H160) (group : String) (now : Nat) : Option LeaseError :=
  let until_ := (s.workers[worker]?).elim 0 WorkerRecord.cooldownUntil
  if until_ > now then some (.coolingDown until_)
  else if s.heldBy worker ≥ MAX_LEASES_PER_WORKER then some .atLeaseCap
  else if s.policy.isTrusted worker then none
  else
    let until_ := (s.sources[group]?).elim 0 SourceRecord.cooldownUntil
    if until_ > now then some (.coolingDown until_)
    else if s.heldByGroup group ≥ s.policy.maxLeasesPerSource then some .atLeaseCap
    else none

/-- The federated rounds this worker already holds or finished a job of. -/
def myRounds (env : Env) (worker : H160) : List Federated.B32 :=
  (s.jobs.toList.filter fun e =>
    match e.2.status with
    | .leased h _ _ | .done h _ => decide (h = worker)
    | _ => false).filterMap fun e => (loraRoundOf env e.2.spec).roundId?

/-- May `worker` be offered this pending job? -/
def offered (env : Env) (worker : H160) (group : String) (cap : Capability) (now : Nat)
    (r : JobRecord) : Bool :=
  let trusted := s.policy.isTrusted worker
  decide (r.status = .pending) &&
    cap.satisfies r.spec.requires &&
    (match loraRoundOf env r.spec with
      | .notLora => true
      | .malformed => false
      | .round p => p.config.inRoster worker && decide (p.roundId ∉ s.myRounds env worker)) &&
    decide (worker ∉ r.failedBy) &&
    (trusted || decide (group ∉ r.failedBySources)) &&
    (trusted || !s.reservedForVouched r now)

/-- The comparison which chooses among the offered jobs: the most demanding
first, ties to the smaller id. -/
def assignmentOrder (a b : JobRecord) : Ordering :=
  (compare a.spec.requires b.spec.requires).then (compare b.spec.id a.spec.id)

/-- The most demanding job this worker is able to do. -/
def pick (env : Env) (worker : H160) (group : String) (claimed : Capability) (now : Nat) :
    Option JobId :=
  let cap := s.policy.effectiveCapability worker claimed
  (maxBy assignmentOrder
    ((s.jobs.toList.map Prod.snd).filter (s.offered env worker group cap now))).map
    fun r => r.spec.id

end State

/-- The record of a job just leased: the lease lives one heartbeat window,
extendable up to the job's own `lease_secs`. -/
def JobRecord.grant (r : JobRecord) (worker : H160) (window now : Nat) : JobRecord :=
  { r with
    attempts := wrapAdd32 r.attempts 1
    status := .leased worker (satAdd now (min r.spec.leaseSecs window))
      (satAdd now r.spec.leaseSecs) }

namespace State

variable (s : State)

/-- A signed poll is proof of life. -/
def engage (worker : H160) (now : Nat) : State :=
  { s with
    workers := s.workers.modify worker fun w =>
      { w with lastSeen := now, lastEngaged := some now } }

/-- Lease the most demanding job this worker is able to do. -/
def lease (env : Env) (worker : H160) (now : Nat) : State × Except LeaseError JobSpec :=
  match s.workers[worker]? with
  | none => (s, .error .unknownWorker)
  | some rec_ =>
      let group := sourceGroup rec_.source
      let s := ((s.engage worker now).expireLeases now).1
      match s.leaseRefusal worker group now with
      | some e => (s, .error e)
      | none =>
          match s.pick env worker group rec_.capability now with
          | none => (s, .error .nothingAvailable)
          | some id =>
              match s.jobs[id]? with
              | none => (s, .error .nothingAvailable)
              | some r =>
                  let r := r.grant worker s.policy.leaseWindowSecs now
                  ({ s with jobs := s.jobs.insert id r, dirty := true }, .ok r.spec)

end State
end Coordinator
end ComputePool
