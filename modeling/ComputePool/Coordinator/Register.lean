import ComputePool.Coordinator.State
import ComputePool.Rust.Collections
import ComputePool.Rust.Result

/-!
# The worker registry

`State::register` and what it calls.  A new identity is admitted only if its
source has room and the registry has room; making room evicts a worker which
holds no live lease, and keeps the evicted key's no-show history.
-/

namespace ComputePool
namespace Coordinator

open RustStd

inductive RegisterError where
  | sourceFull
  | registryFull
  deriving DecidableEq

/-- A machine that has proved what it is: the recovered signing address and the
probe's measurements. -/
structure RegisteredWorker where
  id : H160
  capability : Capability
  backend : String
  dtype : String
  tokensPerSecond : UInt64

namespace State

variable (s : State)

/-- Mark the state as needing a save. -/
def markDirty : State := { s with dirty := true }

/-- Workers holding a lease that is still live at `now`. -/
def leaseholders (now : Nat) : Finset H160 :=
  (s.jobs.toList.filterMap fun e => e.2.status.liveHolder? now).toFinset

/-- Drop a worker record, keeping its no-show history. -/
def forgetWorker (id : H160) (now : Nat) : State :=
  match s.workers[id]? with
  | none => s
  | some r =>
      let s := { s with workers := s.workers.erase id }
      if r.noshows = 0 ∧ r.cooldownUntil ≤ now then s
      else
        let penalties :=
          if s.penalties.size ≥ MAX_WORKERS ∧ id ∉ s.penalties then
            match minByKey (fun e => e.2.cooldownUntil) s.penalties.toList with
            | some oldest => s.penalties.erase oldest.1
            | none => s.penalties
          else s.penalties
        { s with penalties := penalties.insert id ⟨r.noshows, r.cooldownUntil⟩ }

/-- The unvouched workers registered from `source`. -/
def fromSource (source : String) : List (H160 × WorkerRecord) :=
  s.workers.toList.filter fun e => e.2.source == source && !s.policy.isTrusted e.1

/-- The slots of `source` a new registration may reclaim. -/
def staleSlots (source : String) (holders : Finset H160) (now : Nat) :
    List (H160 × WorkerRecord) :=
  (s.fromSource source).filter fun e =>
    decide (now - e.2.lastSeen ≥ SOURCE_SLOT_STALE_SECS) && decide (e.1 ∉ holders)

/-- One source may hold at most `max_workers_per_source` unvouched identities;
at the cap the stalest slot is reclaimed. -/
def makeRoomForSource (source : String) (holders : Finset H160) (now : Nat) :
    Except RegisterError State :=
  if (s.fromSource source).length < s.policy.maxWorkersPerSource then .ok s
  else
    match minByKey (fun e => e.2.lastSeen) (s.staleSlots source holders now) with
    | none => .error .sourceFull
    | some stale => .ok (s.forgetWorker stale.1 now)

/-- The workers which may be evicted from a full registry. -/
def evictable (holders : Finset H160) : List (H160 × WorkerRecord) :=
  s.workers.toList.filter fun e => !s.policy.isTrusted e.1 && decide (e.1 ∉ holders)

/-- The registry bound of `State::register`: evict the least recently seen
worker that is neither vouched nor mid-job. -/
def makeRoomInRegistry (holders : Finset H160) (now : Nat) : Except RegisterError State :=
  if s.workers.size ≥ MAX_WORKERS then
    match minByKey (fun e => e.2.lastSeen) (s.evictable holders) with
    | none => .error .registryFull
    | some evict => .ok (s.forgetWorker evict.1 now)
  else .ok s

/-- The record of a new identity, with the penalties kept for its key. -/
def admitWorker (w : RegisteredWorker) (source : String) (now : Nat) : State :=
  let penalty := (s.penalties[w.id]?).getD Penalty.default
  { s with
    penalties := s.penalties.erase w.id
    workers := s.workers.insert w.id
      { capability := w.capability
        backend := w.backend
        dtype := w.dtype
        tokensPerSecond := w.tokensPerSecond
        registeredAt := now
        lastSeen := now
        source := source
        noshows := penalty.noshows
        cooldownUntil := penalty.cooldownUntil
        delivered := 0
        lastRegistration := now
        lastEngaged := none } }

end State

/-- What a repeated registration overwrites; `source` is not among it. -/
def WorkerRecord.refresh (e : WorkerRecord) (w : RegisteredWorker) (now : Nat) :
    WorkerRecord :=
  { e with
    lastRegistration := now
    capability := w.capability
    backend := w.backend
    dtype := w.dtype
    tokensPerSecond := w.tokensPerSecond
    lastSeen := now }

namespace State

variable (s : State)

/-- The part of `register` for a key the registry does not know: make room in
the source of an unvouched key, then in the registry, then insert the record.
A refusal keeps what was changed on the way. -/
def registerNew (w : RegisteredWorker) (source : String) (now : Nat) :
    State × Except RegisterError Unit :=
  let holders := s.leaseholders now
  let room :=
    if s.policy.isTrusted w.id then .ok s else s.makeRoomForSource source holders now
  match room with
  | .error e => (s, .error e)
  | .ok s =>
      match s.makeRoomInRegistry holders now with
      | .error e => (s, .error e)
      | .ok s => (s.admitWorker w source now, .ok ())

/-- Register or refresh a worker, returning the capability granted. -/
def register (w : RegisteredWorker) (source : String) (now : Nat) :
    State × Except RegisterError Capability :=
  let granted := s.policy.effectiveCapability w.id w.capability
  match s.workers[w.id]? with
  | some e =>
      ({ s with
          workers := s.workers.modify w.id fun e => e.refresh w now
          dirty := s.dirty || decide (e.capability ≠ w.capability) },
        .ok granted)
  | none =>
      let (s, admitted) := s.markDirty.registerNew w source now
      (s, admitted.map fun _ => granted)

/-- Would a registration of a never-seen `id` from `source` be admitted? -/
def admitsNew (id : H160) (source : String) (now : Nat) : Except RegisterError Unit :=
  if s.policy.isTrusted id then .ok ()
  else if (s.fromSource source).length < s.policy.maxWorkersPerSource then .ok ()
  else if (s.staleSlots source (s.leaseholders now) now).isEmpty then .error .sourceFull
  else .ok ()

/-- Charge a no-show to a source group, bounded like the worker map. -/
def chargeSource (group : String) (now : Nat) : State :=
  let sources :=
    if group ∉ s.sources ∧ s.sources.size ≥ MAX_SOURCES then
      match minByKey (fun e => toLex (decide (e.2.cooldownUntil > now), e.2.lastSeen))
          s.sources.toList with
      | some victim => s.sources.erase victim.1
      | none => s.sources
    else s.sources
  let rec_ := (sources[group]?).getD SourceRecord.default
  let noshows := satAdd32 rec_.noshows 1
  { s with
    sources := sources.insert group
      ⟨noshows, satAdd now (noshowBackoff noshows), now⟩ }

end State
end Coordinator
end ComputePool
