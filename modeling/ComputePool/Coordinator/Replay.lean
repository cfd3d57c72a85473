import ComputePool.Coordinator.Api

/-!
# Replay of signed requests

A request is two steps: the freshness test against one clock reading, and later
the in-lock step, which reads the clock again.  Other requests may run between
the two.  What was used is forgotten by its age at the second reading, so a
copy of a used request is refused as long as its own in-lock step comes before
its timestamp leaves the freshness window; one that was tested in time but gets
the lock too late is not.
-/

namespace ComputePool
namespace Coordinator

open RustStd

/-- A service with requests in flight. -/
structure Traffic where
  service : Service
  /-- The clock at the last in-lock step. -/
  clock : Nat
  /-- The requests that passed the freshness test and wait for the lock, with
  the clock reading of their test. -/
  waiting : Nat → Option (Request × Nat)
  /-- The stamps accepted by `Admission::admit`, latest first. -/
  admitted : List (H160 × Nat)
  /-- The stamps of accepted registrations, latest first. -/
  registered : List (H160 × Nat)

inductive Moment where
  /-- Request number `n` arrives and is tested at clock reading `c₁`. -/
  | test (n : Nat) (r : Request) (c₁ : Nat)
  /-- Request number `n` gets the lock at clock reading `c₂`. -/
  | inLock (n : Nat) (now c₂ : Nat) (saved : Bool)

namespace Traffic

/-- A service with no request in flight and nothing used yet. -/
def init (state : State) : Traffic where
  service := ⟨state, Admission.empty, RegistrationBudget.new⟩
  clock := 0
  waiting _ := none
  admitted := []
  registered := []

def step (env : Env) (t : Traffic) : Moment → Traffic
  | .test n r c₁ =>
      if r.passes c₁ then
        { t with waiting := fun m => if m = n then some (r, c₁) else t.waiting m }
      else t
  | .inLock n now c₂ saved =>
      match t.waiting n with
      | none => { t with clock := c₂ }
      | some (r, _) =>
          let (service, outcome) := t.service.inLock env r now c₂ saved
          { service := service
            clock := c₂
            waiting := fun m => if m = n then none else t.waiting m
            admitted := if outcome = .admitted then r.stamp :: t.admitted else t.admitted
            registered :=
              if outcome = .registered then r.stamp :: t.registered else t.registered }

end Traffic

/-- The requests and their steps as a machine. -/
def requestMachine (env : Env) : Machine Traffic Moment where
  step := Traffic.step env

/-- The clock readings: in-lock steps are ordered, and a request gets the lock
no earlier than it was tested. -/
def InOrder (t : Traffic) : Moment → Prop
  | .test _ _ _ => True
  | .inLock n _ c₂ _ => t.clock ≤ c₂ ∧ ((t.waiting n).all fun w => decide (w.2 ≤ c₂)) = true

/-- The stamps which a request of this kind may not use again. -/
def Traffic.used (t : Traffic) : Request → List (H160 × Nat)
  | .register _ _ _ => t.registered
  | .lease _ _ | .heartbeat _ _ _ => t.admitted

/-- No copy of a used request gets the lock after its timestamp has left the
freshness window. -/
def NoLateCopy (t : Traffic) : Moment → Prop
  | .test _ _ _ => True
  | .inLock n _ c₂ _ =>
      ((t.waiting n).all fun w =>
        decide (w.1.stamp ∈ t.used w.1 → c₂ ≤ w.1.stamp.2 + LEASE_FRESHNESS_NANOS)) = true

instance {t : Traffic} : (m : Moment) → Decidable (InOrder t m)
  | .test _ _ _ => .isTrue trivial
  | .inLock _ _ _ _ => inferInstanceAs (Decidable (_ ∧ _))

instance {t : Traffic} : (m : Moment) → Decidable (NoLateCopy t m)
  | .test _ _ _ => .isTrue trivial
  | .inLock _ _ _ _ => inferInstanceAs (Decidable (_ = true))

/-! ## What the operations leave of the remembered registrations -/

namespace State

variable {s : State} {now : Nat} {env : Env}

theorem expireLeases_recent :
    (s.expireLeases now).1.recentRegistrations = s.recentRegistrations := by
  obtain ⟨sources, h⟩ := s.expireLeases_eq now
  rw [h]
  exact Sweep.foldl_recent

theorem lease_recent (w : H160) :
    (s.lease env w now).1.recentRegistrations = s.recentRegistrations := by
  obtain ⟨-, h⟩ | ⟨rec_, -, h | ⟨id, r, -, -, -, h⟩⟩ :=
    lease_cases (s := s) env w now
  · rw [h]
  · rw [h]
    exact expireLeases_recent (s := s.engage w now)
  · rw [h]
    exact expireLeases_recent (s := s.engage w now)

theorem renew_recent (w : H160) (job : JobId) :
    (s.renew w job now).1.recentRegistrations = s.recentRegistrations := by
  obtain h | ⟨r, e, d, -, -, -, ⟨-, h⟩ | ⟨dirty, h⟩⟩ :=
    renew_cases (s := s) w job now
  · rw [h]
  · rw [h, revokeLease]
    split <;> rfl
  · rw [h]
    rfl

theorem forgetWorker_recent (id : H160) :
    (s.forgetWorker id now).recentRegistrations = s.recentRegistrations := by
  obtain ⟨_, h | ⟨-, h⟩⟩ := forgetWorker_spec (s := s) id now <;> rw [h]

theorem register_recent (w : RegisteredWorker) (source : String) (now : Nat) :
    (s.register w source now).1.recentRegistrations = s.recentRegistrations := by
  have hfold : ∀ (victims : List H160) (s : State),
      (victims.foldl (fun s v => s.forgetWorker v now) s).recentRegistrations =
        s.recentRegistrations := by
    intro victims
    induction victims with
    | nil => exact fun _ => rfl
    | cons v rest ih => exact fun s => (ih _).trans (forgetWorker_recent v)
  cases hknown : s.workers[w.id]? with
  | some e => simp only [register, hknown]
  | none =>
      obtain ⟨h, -⟩ | ⟨h, -⟩ := register_new source now hknown
      · rw [h, hfold]
        rfl
      · rw [h, admitWorker, hfold]
        rfl

theorem takeDirty_recent : s.takeDirty.1.recentRegistrations = s.recentRegistrations := by
  unfold takeDirty
  split <;> rfl

end State

namespace Service

variable {c : Service} {env : Env} {now c₂ : Nat} {saved : Bool}

@[simp] theorem persist_recent :
    (c.persist saved).state.recentRegistrations = c.state.recentRegistrations := by
  simp only [persist]
  split
  · exact State.takeDirty_recent
  · exact State.takeDirty_recent

@[simp] theorem persist_admission : (c.persist saved).admission = c.admission := rfl

/-- A signed request leaves the registrations alone, and the admission either
alone or as `admit` leaves it; only `admit` makes it count as admitted. -/
theorem signed_cases (who : H160) (ts c₂ : Nat) {act : State → State}
    (hact : ∀ s, (act s).recentRegistrations = s.recentRegistrations) :
    (c.signed who ts c₂ act).1.state.recentRegistrations = c.state.recentRegistrations ∧
      (((c.signed who ts c₂ act).2 = .refused ∧
          ((c.signed who ts c₂ act).1.admission = c.admission ∨
            (c.signed who ts c₂ act).1.admission = (c.admission.admitRequest who ts c₂).1)) ∨
        ((c.signed who ts c₂ act).2 = .admitted ∧
          (c.admission.admitRequest who ts c₂).2 = .ok () ∧
          (c.signed who ts c₂ act).1.admission = (c.admission.admitRequest who ts c₂).1)) := by
  unfold signed
  split
  · exact ⟨hact _, .inl ⟨rfl, .inl rfl⟩⟩
  · split
    · rename_i admission hadmitted
      exact ⟨hact _, .inr ⟨rfl, by rw [hadmitted], by rw [hadmitted]⟩⟩
    · rename_i admission e hadmitted
      exact ⟨rfl, .inl ⟨rfl, .inr (by rw [hadmitted])⟩⟩

/-- A registration leaves the admission alone; it is accepted only when its
stamp is not remembered, and then remembers it and prunes by age. -/
theorem registerInner_cases (w : RegisteredWorker) (source : String) (ts now c₂ : Nat) :
    (c.registerInner w source ts now c₂).1.admission = c.admission ∧
      (((∃ e, (c.registerInner w source ts now c₂).2 = .error e) ∧
          (c.registerInner w source ts now c₂).1.state.recentRegistrations =
            c.state.recentRegistrations) ∨
        ((∃ granted, (c.registerInner w source ts now c₂).2 = .ok granted) ∧
          (w.id, ts) ∉ c.state.recentRegistrations ∧
          (c.registerInner w source ts now c₂).1.state.recentRegistrations =
            insert (w.id, ts) (c.state.recentRegistrations.filter fun e =>
              absDiff e.2 c₂ ≤ LEASE_FRESHNESS_NANOS))) := by
  unfold registerInner
  split
  · exact ⟨rfl, .inl ⟨⟨_, rfl⟩, rfl⟩⟩
  · rename_i hseen
    split
    · exact ⟨rfl, .inl ⟨⟨_, rfl⟩, rfl⟩⟩
    · split
      · exact ⟨rfl, .inl ⟨⟨_, rfl⟩, rfl⟩⟩
      · have hrecent := State.register_recent (s := c.state) w source now
        split
        · rename_i s e hregister
          rw [hregister] at hrecent
          exact ⟨rfl, .inl ⟨⟨_, rfl⟩, hrecent⟩⟩
        · rename_i s granted hregister
          rw [hregister] at hrecent
          refine ⟨rfl, .inr ⟨⟨_, rfl⟩, by simpa [State.registrationSeen] using hseen, ?_⟩⟩
          simp only [State.noteRegistration]
          rw [show s.recentRegistrations = _ from hrecent]

/-- What the in-lock step of a request does to what is remembered. -/
theorem inLock_cases (c : Service) (env : Env) (r : Request) (now c₂ : Nat) (saved : Bool) :
    let c' := (c.inLock env r now c₂ saved).1
    let outcome := (c.inLock env r now c₂ saved).2
    (outcome = .refused ∧
        c'.state.recentRegistrations = c.state.recentRegistrations ∧
        (c'.admission = c.admission ∨
          ∃ who ts, c'.admission = (c.admission.admitRequest who ts c₂).1)) ∨
      (outcome = .admitted ∧ (∀ t : Traffic, t.used r = t.admitted) ∧
        c'.state.recentRegistrations = c.state.recentRegistrations ∧
        (c.admission.admitRequest r.stamp.1 r.stamp.2 c₂).2 = .ok () ∧
        c'.admission = (c.admission.admitRequest r.stamp.1 r.stamp.2 c₂).1) ∨
      (outcome = .registered ∧ (∀ t : Traffic, t.used r = t.registered) ∧
        c'.admission = c.admission ∧ r.stamp ∉ c.state.recentRegistrations ∧
        c'.state.recentRegistrations =
          insert r.stamp (c.state.recentRegistrations.filter fun e =>
            absDiff e.2 c₂ ≤ LEASE_FRESHNESS_NANOS)) := by
  cases r with
  | lease who ts =>
      obtain ⟨hrecent, ⟨hout, hsame | hadmitted⟩ | ⟨hout, hok, hadmitted⟩⟩ :=
        signed_cases (c := c) who ts c₂
          (fun s => State.lease_recent who)
      · exact .inl ⟨hout, by simp [inLock, hrecent], .inl (by simp [inLock, hsame])⟩
      · exact .inl ⟨hout, by simp [inLock, hrecent], .inr ⟨who, ts, by simp [inLock, hadmitted]⟩⟩
      · exact .inr (.inl ⟨hout, fun _ => rfl, by simp [inLock, hrecent], hok,
          by simp [inLock, hadmitted, Request.stamp]⟩)
  | heartbeat who ts job =>
      obtain ⟨hrecent, ⟨hout, hsame | hadmitted⟩ | ⟨hout, hok, hadmitted⟩⟩ :=
        signed_cases (c := c) who ts c₂
          (fun s => State.renew_recent who job)
      · exact .inl ⟨hout, by simp [inLock, hrecent], .inl (by simp [inLock, hsame])⟩
      · exact .inl ⟨hout, by simp [inLock, hrecent], .inr ⟨who, ts, by simp [inLock, hadmitted]⟩⟩
      · exact .inr (.inl ⟨hout, fun _ => rfl, by simp [inLock, hrecent], hok,
          by simp [inLock, hadmitted, Request.stamp]⟩)
  | register w source ts =>
      obtain ⟨hadmission, ⟨⟨e, herr⟩, hrecent⟩ | ⟨⟨granted, hok⟩, hnew, hrecent⟩⟩ :=
        registerInner_cases (c := c) w source ts now c₂
      · have hinner : c.registerInner w source ts now c₂ =
            ((c.registerInner w source ts now c₂).1, .error e) := Prod.ext rfl herr
        refine .inl ⟨?_, ?_, .inl ?_⟩
        · simp only [inLock]
          rw [hinner]
        · simp only [inLock]
          rw [hinner]
          simpa using hrecent
        · simp only [inLock]
          rw [hinner]
          simpa using hadmission
      · have hinner : c.registerInner w source ts now c₂ =
            ((c.registerInner w source ts now c₂).1, .ok granted) := Prod.ext rfl hok
        refine .inr (.inr ⟨?_, fun _ => rfl, ?_, hnew, ?_⟩)
        · simp only [inLock]
          rw [hinner]
        · simp only [inLock]
          rw [hinner]
          simpa using hadmission
        · simp only [inLock]
          rw [hinner]
          simpa [Request.stamp] using hrecent

end Service

/-- A request that passes its test is not dated beyond the allowed skew. -/
theorem stamp_le_of_passes {r : Request} {c₁ : Nat} (h : r.passes c₁ = true) :
    r.stamp.2 ≤ c₁ + LEASE_FRESHNESS_NANOS := by
  have hfresh : fresh r.stamp.2 c₁ = true := by
    cases r with
    | lease who ts => exact h
    | heartbeat who ts job => exact h
    | register w source ts => exact (Bool.and_eq_true_iff.mp h).2
  have hskew := of_decide_eq_true (Bool.and_eq_true_iff.mp hfresh).1
  have hle := hskew.trans (satAdd_le_add c₁ MAX_FUTURE_SKEW_NANOS)
  have hwindow : MAX_FUTURE_SKEW_NANOS ≤ LEASE_FRESHNESS_NANOS := by decide
  omega

/-- No stamp has been used twice, and every used stamp that is still in the
window is remembered. -/
structure Unreplayed (t : Traffic) : Prop where
  admitted_nodup : t.admitted.Nodup
  registered_nodup : t.registered.Nodup
  admitted_kept : ∀ stamp ∈ t.admitted, t.clock ≤ stamp.2 + LEASE_FRESHNESS_NANOS →
    t.service.admission.Remembers stamp.1 stamp.2
  registered_kept : ∀ stamp ∈ t.registered, t.clock ≤ stamp.2 + LEASE_FRESHNESS_NANOS →
    stamp ∈ t.service.state.recentRegistrations
  registered_past : ∀ stamp ∈ t.registered, stamp.2 ≤ t.clock + LEASE_FRESHNESS_NANOS
  tested : ∀ n r c₁, t.waiting n = some (r, c₁) → r.passes c₁ = true

theorem Unreplayed.step {env : Env} {t : Traffic} {m : Moment} (h : Unreplayed t)
    (horder : InOrder t m) (hlate : NoLateCopy t m) :
    Unreplayed ((requestMachine env).step t m) := by
  cases m with
  | test n r c₁ =>
      change Unreplayed (if r.passes c₁ then _ else _)
      split
      · rename_i hpasses
        refine { h with tested := fun m r' c₁' hwaiting => ?_ }
        dsimp only at hwaiting
        split at hwaiting
        · cases hwaiting
          exact hpasses
        · exact h.tested m r' c₁' hwaiting
      · exact h
  | inLock n now c₂ saved =>
      obtain ⟨hclock, hc₁⟩ := horder
      have hA : ∀ stamp ∈ t.admitted, c₂ ≤ stamp.2 + LEASE_FRESHNESS_NANOS →
          t.service.admission.Remembers stamp.1 stamp.2 := fun stamp hmem hwindow =>
        h.admitted_kept stamp hmem (hclock.trans hwindow)
      have hR : ∀ stamp ∈ t.registered, c₂ ≤ stamp.2 + LEASE_FRESHNESS_NANOS →
          stamp ∈ t.service.state.recentRegistrations := fun stamp hmem hwindow =>
        h.registered_kept stamp hmem (hclock.trans hwindow)
      have hP : ∀ stamp ∈ t.registered, stamp.2 ≤ c₂ + LEASE_FRESHNESS_NANOS :=
        fun stamp hmem => (h.registered_past stamp hmem).trans (Nat.add_le_add_right hclock _)
      cases hwaiting : t.waiting n with
      | none =>
          simp only [requestMachine, Traffic.step, hwaiting]
          exact { h with admitted_kept := hA, registered_kept := hR, registered_past := hP }
      | some w =>
          obtain ⟨r, c₁⟩ := w
          simp only [NoLateCopy, hwaiting, Option.all_some, decide_eq_true_eq] at hlate hc₁
          have htested : ∀ m r' c₁', (if m = n then none else t.waiting m) = some (r', c₁') →
              r'.passes c₁' = true := by
            intro m r' c₁' hm
            split at hm
            · cases hm
            · exact h.tested m r' c₁' hm
          have hpast : r.stamp.2 ≤ c₂ + LEASE_FRESHNESS_NANOS :=
            (stamp_le_of_passes (h.tested n r c₁ hwaiting)).trans (Nat.add_le_add_right hc₁ _)
          simp only [requestMachine, Traffic.step, hwaiting]
          obtain ⟨hout, hrecent, hadmission⟩ | ⟨hout, hused, hrecent, hok, hadmission⟩ |
            ⟨hout, hused, hadmission, hnew, hrecent⟩ :=
              t.service.inLock_cases env r now c₂ saved
          · -- A refused request uses nothing and forgets nothing in the window.
            simp only [hout, if_neg (show Outcome.refused ≠ .admitted by decide),
              if_neg (show Outcome.refused ≠ .registered by decide)]
            refine ⟨h.admitted_nodup, h.registered_nodup, fun stamp hmem hwindow => ?_,
              fun stamp hmem hwindow => ?_, hP, htested⟩
            · obtain hsame | ⟨who, ts, hadmitted⟩ := hadmission
              · rw [hsame]
                exact hA stamp hmem hwindow
              · rw [hadmitted]
                exact (hA stamp hmem hwindow).admitRequest hwindow
            · rw [hrecent]
              exact hR stamp hmem hwindow
          · simp only [hout, if_true, if_neg (show Outcome.admitted ≠ .registered by decide)]
            have hfirst : r.stamp ∉ t.admitted := by
              intro hmem
              rw [hused] at hlate
              have hwindow := hlate hmem
              rw [Admission.not_admit_of_remembers (hA _ hmem hwindow) hwindow] at hok
              cases hok
            refine ⟨List.nodup_cons.mpr ⟨hfirst, h.admitted_nodup⟩, h.registered_nodup,
              fun stamp hmem hwindow => ?_, fun stamp hmem hwindow => ?_, hP, htested⟩
            · rw [hadmission]
              rcases List.mem_cons.mp hmem with rfl | hold
              · exact Admission.admitRequest_remembers hok
              · exact (hA stamp hold hwindow).admitRequest hwindow
            · rw [hrecent]
              exact hR stamp hmem hwindow
          · simp only [hout, if_true, if_neg (show Outcome.registered ≠ .admitted by decide)]
            have hfirst : r.stamp ∉ t.registered := by
              intro hmem
              rw [hused] at hlate
              exact hnew (hR _ hmem (hlate hmem))
            refine ⟨h.admitted_nodup, List.nodup_cons.mpr ⟨hfirst, h.registered_nodup⟩,
              fun stamp hmem hwindow => ?_, fun stamp hmem hwindow => ?_,
              fun stamp hmem => ?_, htested⟩
            · rw [hadmission]
              exact hA stamp hmem hwindow
            · rw [hrecent]
              rcases List.mem_cons.mp hmem with rfl | hold
              · exact Finset.mem_insert_self _ _
              · refine Finset.mem_insert_of_mem (Finset.mem_filter.mpr
                  ⟨hR stamp hold hwindow, ?_⟩)
                exact absDiff_le_iff.mpr ⟨hP stamp hold, hwindow⟩
            · rcases List.mem_cons.mp hmem with rfl | hold
              · exact hpast
              · exact hP stamp hold

/-- **No replay of a signed coordinator request.**  For any interleaving of the
two steps of any number of requests, from any stored state, in which no copy of
a used request gets the lock after its timestamp has left the freshness window:
no stamp is admitted twice and no stamp is registered twice. -/
theorem stamps_used_once (env : Env) (state : State) (moments : List Moment)
    (horder : (requestMachine env).Along InOrder (Traffic.init state) moments)
    (hlate : (requestMachine env).Along NoLateCopy (Traffic.init state) moments) :
    ((requestMachine env).run (Traffic.init state) moments).admitted.Nodup ∧
      ((requestMachine env).run (Traffic.init state) moments).registered.Nodup := by
  have hinit : Unreplayed (Traffic.init state) :=
    ⟨List.nodup_nil, List.nodup_nil, by simp [Traffic.init], by simp [Traffic.init],
      by simp [Traffic.init], by simp [Traffic.init]⟩
  have hinv := Machine.run_invariant _ (fun _ _ h hstep => Unreplayed.step h hstep.1 hstep.2)
    hinit (horder.and hlate)
  exact ⟨hinv.admitted_nodup, hinv.registered_nodup⟩

/-- One second, in nanoseconds. -/
def second : Nat := 1000000000

/-- A machine registers and polls; a copy of the poll that comes in time is
refused. -/
def promptCopy : List Moment :=
  [.test 0 (.register (probeWorker 1) "s" (1000 * second)) (1000 * second),
    .inLock 0 1000 (1000 * second) true,
    .test 1 (.lease (probeWorker 1).id (1001 * second)) (1001 * second),
    .inLock 1 1001 (1001 * second) true,
    .test 2 (.lease (probeWorker 1).id (1001 * second)) (1100 * second),
    .inLock 2 1100 (1121 * second) true]

theorem promptCopy_used_once :
    ((requestMachine plainEnv).run (Traffic.init (State.empty Policy.default))
        promptCopy).admitted.Nodup ∧
      ((requestMachine plainEnv).run (Traffic.init (State.empty Policy.default))
        promptCopy).registered.Nodup :=
  stamps_used_once plainEnv (State.empty Policy.default) promptCopy (by decide) (by decide)

/-- The copy is tested at the last moment of the window and gets the lock a
nanosecond later. -/
def lateCopy : List Moment :=
  [.test 0 (.register (probeWorker 1) "s" (1000 * second)) (1000 * second),
    .inLock 0 1000 (1000 * second) true,
    .test 1 (.lease (probeWorker 1).id (1001 * second)) (1001 * second),
    .inLock 1 1001 (1001 * second) true,
    .test 2 (.lease (probeWorker 1).id (1001 * second)) (1121 * second),
    .inLock 2 1121 (1121 * second + 1) true]

/-- The same for a registration: another machine's registration, made between
the two steps of the copy, forgets the first one. -/
def lateRegistration : List Moment :=
  [.test 0 (.register (probeWorker 1) "s" (1000 * second)) (1000 * second),
    .inLock 0 1000 (1000 * second) true,
    .test 1 (.register (probeWorker 1) "s" (1000 * second)) (1120 * second),
    .test 2 (.register (probeWorker 2) "s" (1120 * second)) (1120 * second),
    .inLock 2 1120 (1120 * second + 1) true,
    .inLock 1 1120 (1120 * second + 2) true]

/-- Both copies are accepted a second time. -/
theorem late_copies_accepted_twice :
    ((requestMachine plainEnv).Along InOrder (Traffic.init (State.empty Policy.default))
        lateCopy ∧
      ¬ ((requestMachine plainEnv).run (Traffic.init (State.empty Policy.default))
        lateCopy).admitted.Nodup) ∧
    ((requestMachine plainEnv).Along InOrder (Traffic.init (State.empty Policy.default))
        lateRegistration ∧
      ¬ ((requestMachine plainEnv).run (Traffic.init (State.empty Policy.default))
        lateRegistration).registered.Nodup) := by
  decide

end Coordinator
end ComputePool
