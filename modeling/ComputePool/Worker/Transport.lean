import ComputePool.Lib.Machine
import ComputePool.Worker.EpochAggregator

/-!
# The in-process transport

Tasks send and receive through one locked table of queues and one `Notify`
(`transport.rs`).  A broadcast is: lock; push to the queues; unlock;
`notify_waiters`.  A `recv` is a loop of: lock; pop, or find nothing; unlock;
create and await `notified`.  Each of these is one step here, and the steps of
any number of tasks interleave.  `notify_waiters` wakes the waits that exist and
leaves nothing for later ones.

The libp2p transport has the same `recv`, and its swarm task delivers as a
sender does that skips the queue of the envelope's signer.
-/

namespace ComputePool
namespace Worker

open RustStd

namespace InProcessTransport

/-- Where a task is in `broadcast`.  A scoped handle skips its own peer. -/
inductive Sending where
  | idle
  | locked (skip : Option H160) (msg : WorkerMessage)
  | pushed
  | unlocked

/-- Where a task is in `recv`. -/
inductive Receiving where
  | idle
  /-- At the head of the loop. -/
  | looping (peer : H160)
  | locked (peer : H160)
  /-- The lock is held and the queue was looked at. -/
  | looked (peer : H160) (popped : Option WorkerMessage)
  /-- The queue was empty and the lock is released. -/
  | released (peer : H160)
  /-- The wait exists. -/
  | waiting (peer : H160)
  | returned (msg : WorkerMessage)

structure State where
  peers : H160 → Option (List WorkerMessage)
  locked : Bool
  senders : Nat → Sending
  receivers : Nat → Receiving

/-- The steps of the tasks, and of `register`, which holds the lock throughout. -/
inductive Act where
  | register (peer : H160)
  /-- A call of `broadcast` takes the lock. -/
  | broadcast (task : Nat) (skip : Option H160) (msg : WorkerMessage)
  | push (task : Nat)
  | unlock (task : Nat)
  | notifyWaiters (task : Nat)
  /-- A call of `recv`. -/
  | recv (task : Nat) (peer : H160)
  | lock (task : Nat)
  | look (task : Nat)
  | release (task : Nat)
  /-- The wait is created. -/
  | wait (task : Nat)

namespace State

variable (s : State)

/-- What is in the queue of a peer; a peer that is not registered has none. -/
def queue (peer : H160) : List WorkerMessage := (s.peers peer).getD []

def setSender (task : Nat) (phase : Sending) : State :=
  { s with senders := Function.update s.senders task phase }

def setReceiver (task : Nat) (phase : Receiving) : State :=
  { s with receivers := Function.update s.receivers task phase }

theorem setReceiver_self (task : Nat) (phase : Receiving) :
    (s.setReceiver task phase).receivers task = phase :=
  Function.update_self _ _ _

theorem setReceiver_of_ne {task other : Nat} (h : other ≠ task) (phase : Receiving) :
    (s.setReceiver task phase).receivers other = s.receivers other :=
  Function.update_of_ne h _ _

/-- `push_back` on every queue but the skipped one. -/
def deliver (skip : Option H160) (msg : WorkerMessage) : State :=
  { s with peers := fun peer =>
      if skip = some peer then s.peers peer else (s.peers peer).map (· ++ [msg]) }

/-- `pop_front` of the queue of a peer. -/
def pop (peer : H160) : State × Option WorkerMessage :=
  match s.peers peer with
  | some (msg :: rest) => ({ s with peers := Function.update s.peers peer (some rest) }, some msg)
  | _ => (s, none)

end State

/-- A wait that exists is woken: its task is at the head of its loop again. -/
def Receiving.wake : Receiving → Receiving
  | waiting peer => looping peer
  | phase => phase

/-- A step of a task that is not there, or that needs a lock which is held,
does not happen. -/
def step (s : State) : Act → State
  | .register peer =>
      if s.locked then s
      else { s with peers := Function.update s.peers peer (some (s.queue peer)) }
  | .broadcast task skip msg =>
      match s.senders task with
      | .idle =>
          if s.locked then s else { s.setSender task (.locked skip msg) with locked := true }
      | _ => s
  | .push task =>
      match s.senders task with
      | .locked skip msg => (s.deliver skip msg).setSender task .pushed
      | _ => s
  | .unlock task =>
      match s.senders task with
      | .pushed => { s.setSender task .unlocked with locked := false }
      | _ => s
  | .notifyWaiters task =>
      match s.senders task with
      | .unlocked => { s.setSender task .idle with receivers := fun j => (s.receivers j).wake }
      | _ => s
  | .recv task peer =>
      match s.receivers task with
      | .idle | .returned _ => s.setReceiver task (.looping peer)
      | _ => s
  | .lock task =>
      match s.receivers task with
      | .looping peer =>
          if s.locked then s else { s.setReceiver task (.locked peer) with locked := true }
      | _ => s
  | .look task =>
      match s.receivers task with
      | .locked peer => (s.pop peer).1.setReceiver task (.looked peer (s.pop peer).2)
      | _ => s
  | .release task =>
      match s.receivers task with
      | .looked _ (some msg) => { s.setReceiver task (.returned msg) with locked := false }
      | .looked peer none => { s.setReceiver task (.released peer) with locked := false }
      | _ => s
  | .wait task =>
      match s.receivers task with
      | .released peer => s.setReceiver task (.waiting peer)
      | _ => s

def transport : Machine State Act := ⟨step⟩

/-- No peer is registered and no task is in a call. -/
def initial : State where
  peers := fun _ => none
  locked := false
  senders := fun _ => .idle
  receivers := fun _ => .idle

/-- Every broadcast has finished. -/
def State.Quiet (s : State) : Prop := ∀ task, s.senders task = .idle

/-- No receiver waits with a message in its queue. -/
def State.Served (s : State) : Prop :=
  ∀ task peer, s.receivers task = .waiting peer → s.queue peer = []

/-- A receiver that creates its wait does so before a broadcast to its queue has
notified: its queue is still empty, or a broadcast is still on its way to
`notify_waiters`. -/
def WaitsInTime (s : State) (act : Act) : Prop :=
  ∀ task peer, act = .wait task → s.receivers task = .released peer →
    s.queue peer = [] ∨ ¬ s.Quiet

variable {s : State} {act : Act}

/-! ## What a step does -/

theorem Receiving.wake_ne_waiting (phase : Receiving) (peer : H160) :
    phase.wake ≠ .waiting peer := by
  cases phase <;> simp [wake]

/-- A task that is busy keeps the state from being quiet. -/
theorem State.not_quiet_of_sender {task : Nat} (h : s.senders task ≠ .idle) : ¬ s.Quiet :=
  fun hquiet => h (hquiet task)

theorem State.not_quiet_setSender (task : Nat) {phase : Sending} (h : phase ≠ .idle) :
    ¬ (s.setSender task phase).Quiet := by
  apply @State.not_quiet_of_sender _ task
  simpa [setSender] using h

/-- Popping leaves an empty queue empty, and the tasks where they are. -/
theorem State.pop_spec (s : State) (peer : H160) :
    (s.pop peer).1.senders = s.senders ∧ (s.pop peer).1.receivers = s.receivers ∧
      ∀ other, s.queue other = [] → (s.pop peer).1.queue other = [] := by
  unfold State.pop
  split
  · rename_i msg rest hpeer
    refine ⟨rfl, rfl, fun other hempty => ?_⟩
    by_cases hother : other = peer
    · subst hother
      simp [queue, hpeer] at hempty
    · simpa [queue, Function.update_of_ne hother] using hempty
  · exact ⟨rfl, rfl, fun other hempty => hempty⟩

/-- A step that changes no sender, fills no queue, and adds no wait but the one
that `act` creates. -/
structure Harmless (s : State) (act : Act) (s' : State) : Prop where
  senders : s'.senders = s.senders
  queue : ∀ peer, s.queue peer = [] → s'.queue peer = []
  waits : ∀ task peer, s'.receivers task = .waiting peer →
    s.receivers task = .waiting peer ∨
      act = .wait task ∧ s.receivers task = .released peer

theorem Harmless.refl (s : State) (act : Act) : Harmless s act s :=
  ⟨rfl, fun _ hempty => hempty, fun _ _ hwait => .inl hwait⟩

/-- Moving a receiver to a phase which is not a wait is harmless. -/
theorem Harmless.setReceiver {s' : State} (h : Harmless s act s') (task : Nat)
    {phase : Receiving} (hphase : ∀ peer, phase ≠ .waiting peer) :
    Harmless s act (s'.setReceiver task phase) := by
  refine ⟨h.senders, h.queue, fun other peer hwait => ?_⟩
  by_cases hother : other = task
  · subst hother
    rw [State.setReceiver_self] at hwait
    exact absurd hwait (hphase peer)
  · rw [State.setReceiver_of_ne _ hother] at hwait
    exact h.waits other peer hwait

theorem Harmless.setLocked {s' : State} (h : Harmless s act s') (locked : Bool) :
    Harmless s act { s' with locked := locked } :=
  ⟨h.senders, h.queue, h.waits⟩

/-- A step ends every wait, or leaves a broadcast under way, or is harmless. -/
theorem step_cases (s : State) (act : Act) :
    (∀ task peer, (step s act).receivers task ≠ .waiting peer) ∨ ¬ (step s act).Quiet ∨
      Harmless s act (step s act) := by
  have hnone : Harmless s act s := Harmless.refl s act
  cases act with
  | register peer =>
      right; right
      simp only [step]
      split
      · exact hnone
      · refine ⟨rfl, fun other hempty => ?_, hnone.waits⟩
        by_cases hother : other = peer
        · subst hother
          simpa [State.queue] using hempty
        · simpa [State.queue, Function.update_of_ne hother] using hempty
  | broadcast task skip msg =>
      right
      simp only [step]
      split
      · split
        · exact .inr hnone
        · exact .inl (State.not_quiet_setSender task (by simp))
      · exact .inr hnone
  | push task =>
      right
      simp only [step]
      split
      · exact .inl (State.not_quiet_setSender task (by simp))
      · exact .inr hnone
  | unlock task =>
      right
      simp only [step]
      split
      · exact .inl (State.not_quiet_setSender task (by simp))
      · exact .inr hnone
  | notifyWaiters task =>
      simp only [step]
      split
      · left
        intro other peer
        exact Receiving.wake_ne_waiting _ peer
      · exact .inr (.inr hnone)
  | recv task peer =>
      right; right
      simp only [step]
      split
      · exact hnone.setReceiver task (by simp)
      · exact hnone.setReceiver task (by simp)
      · exact hnone
  | lock task =>
      right; right
      simp only [step]
      split
      · split
        · exact hnone
        · exact (hnone.setReceiver task (by simp)).setLocked true
      · exact hnone
  | look task =>
      right; right
      simp only [step]
      split
      · rename_i peer hphase
        obtain ⟨hsenders, hreceivers, hempty⟩ := s.pop_spec peer
        have hpop : Harmless s (.look task) (s.pop peer).1 :=
          ⟨hsenders, hempty, fun _ _ hwait => .inl (hreceivers ▸ hwait)⟩
        exact hpop.setReceiver task (by simp)
      · exact hnone
  | release task =>
      right; right
      simp only [step]
      split
      · exact (hnone.setReceiver task (by simp)).setLocked false
      · exact (hnone.setReceiver task (by simp)).setLocked false
      · exact hnone
  | wait task =>
      right; right
      simp only [step]
      split
      · rename_i peer hphase
        refine ⟨rfl, hnone.queue, fun other peer' hwait => ?_⟩
        by_cases hother : other = task
        · subst hother
          rw [State.setReceiver_self] at hwait
          obtain rfl := Receiving.waiting.inj hwait
          exact .inr ⟨rfl, hphase⟩
        · rw [State.setReceiver_of_ne _ hother] at hwait
          exact .inl hwait
      · exact hnone

/-! ## Runs -/

/-- While a receiver waits with a message in its queue, a broadcast is under
way, which will notify it. -/
def Attended (s : State) : Prop :=
  ∀ task peer, s.receivers task = .waiting peer → s.queue peer = [] ∨ ¬ s.Quiet

theorem attended_step (h : Attended s) (htime : WaitsInTime s act) : Attended (step s act) := by
  intro task peer hwait
  rcases step_cases s act with hwoken | hbusy | hharmless
  · exact absurd hwait (hwoken task peer)
  · exact .inr hbusy
  · -- The wait was there before, or was created in time.
    have hbefore : s.queue peer = [] ∨ ¬ s.Quiet := by
      rcases hharmless.waits task peer hwait with hold | ⟨hact, hreleased⟩
      · exact h task peer hold
      · exact htime task peer hact hreleased
    rcases hbefore with hempty | hbusy
    · exact .inl (hharmless.queue peer hempty)
    · refine .inr fun hquiet => hbusy fun other => ?_
      rw [← hharmless.senders]
      exact hquiet other

theorem attended_initial : Attended initial :=
  fun _ _ hwait => absurd hwait (by simp [initial])

/-- A wait that is created too late is a lost wake-up at once. -/
theorem lost_of_late (h : ¬ WaitsInTime s act) :
    (step s act).Quiet ∧ ¬ (step s act).Served := by
  simp only [WaitsInTime, not_forall, not_or, not_not] at h
  obtain ⟨task, peer, rfl, hreleased, hqueue, hquiet⟩ := h
  have hstep : step s (.wait task) = s.setReceiver task (.waiting peer) := by
    simp [step, hreleased]
  rw [hstep]
  refine ⟨hquiet, fun hserved => hqueue (hserved task peer ?_)⟩
  exact Function.update_self _ _ _

/-- **No wake-up is lost** in a run exactly when every wait of the run is created
in time: before the broadcasts to its queue since it looked have notified. -/
theorem no_lost_wakeup_iff (acts : List Act) :
    (∀ front, front <+: acts → (transport.run initial front).Quiet →
        (transport.run initial front).Served) ↔
      transport.Along WaitsInTime initial acts := by
  constructor
  · intro hserved
    rw [Machine.along_iff_forall_prefix]
    intro front act hfront
    by_contra hlate
    obtain ⟨hquiet, hlost⟩ := lost_of_late hlate
    have hrun := hserved (front ++ [act]) hfront
    rw [Machine.run_concat] at hrun
    exact hlost (hrun hquiet)
  · intro htime front hfront hquiet task peer hwait
    have hattended : Attended (transport.run initial front) :=
      Machine.run_invariant Attended (fun _ _ h hin => attended_step h hin) attended_initial
        (htime.of_prefix hfront)
    rcases hattended task peer hwait with hempty | hbusy
    · exact hempty
    · exact absurd hquiet hbusy

/-- A receiver looks, finds nothing and lets go of the lock; a whole broadcast
passes; and the receiver creates its wait. -/
def lateWait (peer : H160) : List Act :=
  [.register peer, .recv 0 peer, .lock 0, .look 0, .release 0,
    .broadcast 1 none (.stepAdvance 0 0), .push 1, .unlock 1, .notifyWaiters 1, .wait 0]

/-- After it every broadcast has finished, and the receiver waits with a message
in its queue. -/
theorem lateWait_lost :
    ¬ ∀ acts : List Act, (transport.run initial acts).Quiet → (transport.run initial acts).Served := by
  intro hserved
  have hquiet : (transport.run initial (lateWait default)).Quiet := by
    intro task
    have hsenders : (transport.run initial (lateWait default)).senders =
        Function.update (Function.update (Function.update (Function.update (fun _ => .idle) 1
          (.locked none (.stepAdvance 0 0))) 1 .pushed) 1 .unlocked) 1 .idle := rfl
    rw [hsenders]
    by_cases htask : task = 1
    · simp [htask]
    · simp [Function.update_of_ne htask]
  have hqueue : (transport.run initial (lateWait default)).queue default =
      [.stepAdvance 0 0] := by
    rfl
  have hempty := hserved _ hquiet 0 default rfl
  rw [hqueue] at hempty
  cases hempty

end InProcessTransport
end Worker
end ComputePool
