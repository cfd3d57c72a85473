import ComputePool.Coordinator.Run
import ComputePool.Coordinator.Admission

/-!
# Signed requests

The part of `api.rs` between a request whose signature has been recovered and
the state: the freshness test, which reads the clock before the lock is taken,
and the closure that runs under the lock and reads the clock again.
-/

namespace ComputePool
namespace Coordinator

open RustStd

def NEW_REGISTRATIONS_PER_HOUR : Nat := 60
def NEW_REGISTRATION_BURST : Nat := 30

/-- Token bucket for new-identity registrations. -/
structure RegistrationBudget where
  tokens : Nat
  lastRefill : Option Nat

/-- `RegistrationBudget::new`. -/
def RegistrationBudget.new : RegistrationBudget := ⟨NEW_REGISTRATION_BURST, none⟩

/-- Take one token at `now` (unix seconds); `false` means over budget. -/
def RegistrationBudget.tryTake (b : RegistrationBudget) (now : Nat) :
    RegistrationBudget × Bool :=
  let perToken := 3600 / NEW_REGISTRATIONS_PER_HOUR
  let last := b.lastRefill.getD now
  let earned := (now - last) / perToken
  let b : RegistrationBudget :=
    if earned > 0 then
      ⟨min (satAdd b.tokens earned) NEW_REGISTRATION_BURST, some (satAdd last (earned * perToken))⟩
    else { b with lastRefill := some last }
  if b.tokens = 0 then (b, false) else ({ b with tokens := b.tokens - 1 }, true)

/-- Is a signed timestamp acceptable at `nowNanos`? -/
def fresh (timestamp nowNanos : Nat) : Bool :=
  decide (timestamp ≤ satAdd nowNanos MAX_FUTURE_SKEW_NANOS) &&
    decide (nowNanos - timestamp ≤ LEASE_FRESHNESS_NANOS)

/-- Why a registration was refused inside the state lock. -/
inductive RegFail where
  | replay
  | tooSoon (retryAfterSecs : Nat)
  | budget
  | registry (e : RegisterError)
  deriving DecidableEq

/-- What the handlers share. -/
structure Service where
  state : State
  admission : Admission
  newRegistrations : RegistrationBudget

/-- A request with its recovered signer. -/
inductive Request where
  | lease (who : H160) (timestamp : Nat)
  | heartbeat (who : H160) (timestamp : Nat) (job : JobId)
  | register (w : RegisteredWorker) (source : String) (timestamp : Nat)

namespace Request

/-- The signer and the signed timestamp. -/
def stamp : Request → H160 × Nat
  | lease who ts => (who, ts)
  | heartbeat who ts _ => (who, ts)
  | register w _ ts => (w.id, ts)

/-- The test made before the lock is taken. -/
def passes (nowNanos : Nat) : Request → Bool
  | lease _ ts => fresh ts nowNanos
  | heartbeat _ ts _ => fresh ts nowNanos
  | register _ _ ts => decide (ts ≠ 0) && fresh ts nowNanos

end Request

/-- What a request achieved under the lock, as far as replay is concerned. -/
inductive Outcome where
  | refused
  /-- `Admission::admit` accepted the stamp. -/
  | admitted
  /-- `note_registration` was reached. -/
  | registered
  deriving DecidableEq

namespace Service

variable (c : Service)

/-- The end of `Coordinator::mutate`: persist what must be persisted.  `saved`
says whether the store accepted it. -/
def persist (saved : Bool) : Service :=
  let (s, dirty) := c.state.takeDirty
  { c with state := if dirty && !saved then s.markDirty else s }

/-- Per-key admission for a registered signer, then `act`; an unknown key's
request goes to `act` without being recorded. -/
def signed (who : H160) (ts nowNanos : Nat) (act : State → State) : Service × Outcome :=
  if (c.state.workers[who]?).isNone then ({ c with state := act c.state }, .refused)
  else
    match c.admission.admitRequest who ts nowNanos with
    | (admission, .ok ()) =>
        ({ c with admission := admission, state := act c.state }, .admitted)
    | (admission, .error _) => ({ c with admission := admission }, .refused)

/-- Does a registration of a known key come before its refresh interval is
over? -/
def tooSoon (w : RegisteredWorker) (now : Nat) : Option Nat :=
  (c.state.workers[w.id]?).bind fun known =>
    let due := satAdd known.lastRegistration c.state.policy.registerRefreshSecs
    if now < due then some (due - now) else none

/-- The budget check of a never-seen, unvouched key. -/
def spendNew (w : RegisteredWorker) (source : String) (now : Nat) :
    RegistrationBudget × Except RegFail Unit :=
  if (c.state.workers[w.id]?).isNone && !c.state.policy.isTrusted w.id then
    match c.state.admitsNew w.id source now with
    | .error e => (c.newRegistrations, .error (.registry e))
    | .ok () =>
        let (budget, taken) := c.newRegistrations.tryTake now
        (budget, if taken then .ok () else .error .budget)
  else (c.newRegistrations, .ok ())

/-- The in-lock closure of `register_inner`. -/
def registerInner (w : RegisteredWorker) (source : String) (ts now nowNanos : Nat) :
    Service × Except RegFail Capability :=
  if c.state.registrationSeen w.id ts then (c, .error .replay)
  else
    match c.tooSoon w now with
    | some secs => (c, .error (.tooSoon secs))
    | none =>
        match c.spendNew w source now with
        | (budget, .error e) => ({ c with newRegistrations := budget }, .error e)
        | (budget, .ok ()) =>
            match c.state.register w source now with
            | (s, .error e) =>
                ({ c with newRegistrations := budget, state := s }, .error (.registry e))
            | (s, .ok granted) =>
                ({ c with
                    newRegistrations := budget
                    state := (s.noteRegistration w.id ts nowNanos).1 }, .ok granted)

/-- The in-lock step of a request, at the second clock reading; `now` is the
reading in seconds that the handler took before the lock. -/
def inLock (env : Env) (r : Request) (now nowNanos : Nat) (saved : Bool) : Service × Outcome :=
  let (c, outcome) :=
    match r with
    | .lease who ts => c.signed who ts nowNanos fun s => (s.lease env who now).1
    | .heartbeat who ts job => c.signed who ts nowNanos fun s => (s.renew who job now).1
    | .register w source ts =>
        match c.registerInner w source ts now nowNanos with
        | (c, .ok _) => (c, .registered)
        | (c, .error _) => (c, .refused)
  (c.persist saved, outcome)

end Service
end Coordinator
end ComputePool
