import Mathlib

/-!
# A ledger of leases

What a work coordinator is for, without its bookkeeping: published jobs, each
free, held under one lease, closed for good or parked, and the roster of the
workers with the source each of them registered from.  The rules say which
workers are vouched for, which group a source belongs to, and how many leases
the unvouched workers of one group may hold.

The transitions are the only ways the ledger may change.  An implementation is
shown to refine it by decomposing each of its operations into transitions; what
is proved here about one transition then holds of every operation.
-/

namespace LeaseLedger

variable {J W S G R : Type*}

/-- A lease: who holds it, until when, and how far it may be extended. -/
structure Lease (W : Type*) where
  holder : W
  expires : Nat
  hard : Nat

/-- Where a published job is in its life. -/
inductive Phase (W R : Type*) where
  | free
  | held (lease : Lease W)
  | closed (record : R)
  | parked

/-- The jobs that are published and the workers that are registered. -/
@[ext] structure Ledger (J W S R : Type*) where
  phase : J → Option (Phase W R)
  roster : W → Option S

/-- The policy a ledger is run under. -/
structure Rules (W S G : Type*) where
  vouched : W → Prop
  group : S → G
  cap : Nat

inductive Action (J W S R : Type*) where
  | publish (job : J)
  | enroll (worker : W) (source : S)
  | evict (worker : W)
  | lapse (job : J)
  | grant (job : J) (lease : Lease W)
  | extend (job : J) (expires : Nat)
  | revoke (job : J)
  | finish (job : J) (worker : W) (record : R)

namespace Ledger

variable (l : Ledger J W S R)

/-- The job is under this lease. -/
def Held (job : J) (lease : Lease W) : Prop := l.phase job = some (.held lease)

/-- The jobs held by unvouched workers on the roster from the group `g`, under
a lease that can still be extended past `now`. -/
def groupJobs (rules : Rules W S G) (now : Nat) (g : G) : Set J :=
  { job | ∃ lease, l.Held job lease ∧ now < lease.hard ∧ ¬ rules.vouched lease.holder ∧
      ∃ source, l.roster lease.holder = some source ∧ rules.group source = g }

open Classical in
/-- The ledger with the phase of one job replaced. -/
noncomputable def setPhase (job : J) (phase : Phase W R) : Ledger J W S R :=
  { l with phase := Function.update l.phase job (some phase) }

open Classical in
/-- The ledger with the roster entry of one worker replaced. -/
noncomputable def setRoster (worker : W) (source : Option S) : Ledger J W S R :=
  { l with roster := Function.update l.roster worker source }

@[simp] theorem setPhase_roster (job : J) (phase : Phase W R) :
    (l.setPhase job phase).roster = l.roster := rfl

@[simp] theorem setRoster_phase (worker : W) (source : Option S) :
    (l.setRoster worker source).phase = l.phase := rfl

@[simp] theorem setPhase_phase_self (job : J) (phase : Phase W R) :
    (l.setPhase job phase).phase job = some phase := by
  simp [setPhase]

theorem setPhase_phase_of_ne {job other : J} (phase : Phase W R) (h : other ≠ job) :
    (l.setPhase job phase).phase other = l.phase other := by
  simp [setPhase, h]

@[simp] theorem setRoster_roster_self (worker : W) (source : Option S) :
    (l.setRoster worker source).roster worker = source := by
  simp [setRoster]

theorem setRoster_roster_of_ne {worker other : W} (source : Option S) (h : other ≠ worker) :
    (l.setRoster worker source).roster other = l.roster other := by
  simp [setRoster, h]

@[simp] theorem setRoster_held {worker : W} {source : Option S} {job : J} {lease : Lease W} :
    (l.setRoster worker source).Held job lease ↔ l.Held job lease := Iff.rfl

/-- A job is held after one phase is replaced if it is the replaced one, and
was replaced by that lease, or if it is another and was held. -/
theorem held_setPhase {job other : J} {phase : Phase W R} {lease : Lease W} :
    (l.setPhase job phase).Held other lease ↔
      (other = job ∧ phase = .held lease) ∨ (other ≠ job ∧ l.Held other lease) := by
  by_cases h : other = job
  · subst h
    simp [Held]
  · simp [Held, setPhase_phase_of_ne l phase h, h]

end Ledger

/-- What one transition does at time `now`, and when it may be taken. -/
def Fires (rules : Rules W S G) (now : Nat) (l : Ledger J W S R) :
    Action J W S R → Ledger J W S R → Prop
  | .publish job, l' => l.phase job = none ∧ l' = l.setPhase job .free
  | .enroll worker source, l' =>
      l.roster worker = none ∧ l' = l.setRoster worker (some source)
  | .evict worker, l' =>
      -- Only a worker without a live lease leaves the roster.
      (∀ job lease, l.Held job lease → lease.holder = worker → lease.expires ≤ now) ∧
        l' = l.setRoster worker none
  | .lapse job, l' =>
      ∃ lease, l.Held job lease ∧ lease.expires ≤ now ∧ l' = l.setPhase job .free
  | .grant job lease, l' =>
      l.phase job = some .free ∧
        (∀ other lease', l.Held other lease' → lease'.holder ≠ lease.holder) ∧
        lease.expires ≤ lease.hard ∧
        (∃ source, l.roster lease.holder = some source ∧
          (¬ rules.vouched lease.holder →
            (l.groupJobs rules now (rules.group source)).encard < rules.cap)) ∧
        l' = l.setPhase job (.held lease)
  | .extend job expires, l' =>
      ∃ lease, l.Held job lease ∧ lease.expires ≤ expires ∧
        expires ≤ max lease.expires lease.hard ∧
        l' = l.setPhase job (.held { lease with expires := expires })
  | .revoke job, l' => (∃ lease, l.Held job lease) ∧ l' = l.setPhase job .free
  | .finish job worker record, l' =>
      ∃ lease, l.Held job lease ∧ lease.holder = worker ∧ now < lease.expires ∧
        l' = l.setPhase job (.closed record)

/-- A sequence of transitions at one time, each of an allowed kind. -/
inductive Path (rules : Rules W S G) (now : Nat) (allowed : Action J W S R → Prop) :
    Ledger J W S R → Ledger J W S R → Prop where
  | nil {l : Ledger J W S R} : Path rules now allowed l l
  | cons {l l' l'' : Ledger J W S R} {action : Action J W S R} :
      allowed action → Fires rules now l action l' → Path rules now allowed l' l'' →
        Path rules now allowed l l''

namespace Path

variable {rules : Rules W S G} {now : Nat} {allowed : Action J W S R → Prop}
  {l l' l'' : Ledger J W S R}

theorem single {action : Action J W S R} (hallowed : allowed action)
    (hfires : Fires rules now l action l') : Path rules now allowed l l' :=
  cons hallowed hfires nil

theorem trans (h : Path rules now allowed l l') (h' : Path rules now allowed l' l'') :
    Path rules now allowed l l'' := by
  induction h with
  | nil => exact h'
  | cons hallowed hfires _ ih => exact cons hallowed hfires (ih h')

theorem mono {more : Action J W S R → Prop} (h : Path rules now allowed l l')
    (hmore : ∀ action, allowed action → more action) : Path rules now more l l' := by
  induction h with
  | nil => exact nil
  | cons hallowed hfires _ ih => exact cons (hmore _ hallowed) hfires ih

/-- What every allowed transition preserves, a path preserves. -/
theorem preserves (Inv : Ledger J W S R → Prop)
    (hstep : ∀ l action l', Inv l → allowed action → Fires rules now l action l' → Inv l')
    (h : Path rules now allowed l l') (hinit : Inv l) : Inv l' := by
  induction h with
  | nil => exact hinit
  | cons hallowed hfires _ ih => exact ih (hstep _ _ _ hinit hallowed hfires)

/-- What happens to one leased job between two ledgers, by a transition that
concerns no other job. -/
def Changes (now : Nat) (allowed : Action J W S R → Prop) (l l' : Ledger J W S R)
    (job : J) : Prop :=
  ∃ lease, l.Held job lease ∧
    ((lease.expires ≤ now ∧ allowed (.lapse job) ∧ l'.phase job = some .free) ∨
      (allowed (.revoke job) ∧ l'.phase job = some .free) ∨
      ∃ expires, allowed (.extend job expires) ∧ lease.expires ≤ expires ∧
        expires ≤ max lease.expires lease.hard ∧
        l'.phase job = some (.held { lease with expires := expires }))

/-- Two ledgers which differ job by job, at finitely many jobs, are joined by a
path. -/
theorem of_jobwise (jobs : List J) (hroster : l'.roster = l.roster)
    (hout : ∀ job, job ∉ jobs → l'.phase job = l.phase job)
    (hin : ∀ job ∈ jobs, l'.phase job = l.phase job ∨ Changes now allowed l l' job) :
    Path rules now allowed l l' := by
  induction jobs generalizing l with
  | nil =>
      have hsame : l' = l := Ledger.ext (funext fun job => hout job (by simp)) hroster
      exact hsame ▸ nil
  | cons job rest ih =>
      by_cases hdone : job ∈ rest ∨ l'.phase job = l.phase job
      · refine ih hroster (fun other hother => ?_) fun other hother =>
          hin other (List.mem_cons_of_mem _ hother)
        by_cases h : other = job
        · subst h
          exact hdone.resolve_left hother
        · exact hout other (by simp [h, hother])
      · rw [not_or] at hdone
        obtain ⟨lease, hheld, hcases⟩ := (hin job List.mem_cons_self).resolve_left hdone.2
        -- Replay the change of this job first, the others after it.
        have hrest : ∀ phase, l'.phase job = some phase →
            Path rules now allowed (l.setPhase job phase) l' := by
          intro phase hphase
          refine ih hroster (fun other hother => ?_) fun other hother => ?_
          · by_cases h : other = job
            · subst h
              rw [l.setPhase_phase_self, hphase]
            · rw [l.setPhase_phase_of_ne _ h]
              exact hout other (by simp [h, hother])
          · have h : other ≠ job := fun h => hdone.1 (h ▸ hother)
            simp only [Changes, Ledger.Held, l.setPhase_phase_of_ne _ h]
            exact hin other (List.mem_cons_of_mem _ hother)
        obtain ⟨hle, hallowed, hphase⟩ | ⟨hallowed, hphase⟩ |
          ⟨expires, hallowed, hle, hmax, hphase⟩ := hcases
        · exact cons hallowed ⟨lease, hheld, hle, rfl⟩ (hrest _ hphase)
        · exact cons hallowed ⟨⟨lease, hheld⟩, rfl⟩ (hrest _ hphase)
        · exact cons hallowed ⟨lease, hheld, hle, hmax, rfl⟩ (hrest _ hphase)

end Path

/-! ## Exclusive leases -/

section Exclusive

variable {rules : Rules W S G} {now : Nat} {l l' : Ledger J W S R} {action : Action J W S R}

/-- No worker holds two jobs. -/
def Exclusive (l : Ledger J W S R) : Prop :=
  ∀ job job' lease lease', l.Held job lease → l.Held job' lease' →
    lease.holder = lease'.holder → job = job'

/-- Replacing a phase by one that is not a lease keeps the ledger exclusive. -/
private theorem exclusive_setPhase_unheld {job : J} {phase : Phase W R}
    (h : Exclusive l) (hphase : ∀ lease, phase ≠ .held lease) :
    Exclusive (l.setPhase job phase) := by
  intro a b lease lease' ha hb hsame
  rw [Ledger.held_setPhase] at ha hb
  obtain ⟨-, hbad⟩ | ⟨-, ha⟩ := ha
  · exact absurd hbad (hphase lease)
  obtain ⟨-, hbad⟩ | ⟨-, hb⟩ := hb
  · exact absurd hbad (hphase lease')
  exact h a b lease lease' ha hb hsame

/-- Giving a job to a holder who holds no other job keeps the ledger exclusive. -/
private theorem exclusive_setPhase_held {job : J} {lease : Lease W} (h : Exclusive l)
    (hfree : ∀ other lease', l.Held other lease' → lease'.holder = lease.holder → other = job) :
    Exclusive (l.setPhase job (.held lease)) := by
  intro a b leaseA leaseB ha hb hsame
  rw [Ledger.held_setPhase] at ha hb
  obtain ⟨rfl, hA⟩ | ⟨hane, ha⟩ := ha <;> obtain ⟨rfl, hB⟩ | ⟨hbne, hb⟩ := hb
  · rfl
  · obtain rfl := Phase.held.inj hA
    exact (hfree b leaseB hb hsame.symm).symm
  · obtain rfl := Phase.held.inj hB
    exact hfree a leaseA ha hsame
  · exact h a b leaseA leaseB ha hb hsame

theorem Fires.exclusive (h : Exclusive l) (hfires : Fires rules now l action l') :
    Exclusive l' := by
  cases action with
  | publish job =>
      obtain ⟨-, rfl⟩ := hfires
      exact exclusive_setPhase_unheld h fun _ => by simp
  | enroll worker source =>
      obtain ⟨-, rfl⟩ := hfires
      exact h
  | evict worker =>
      obtain ⟨-, rfl⟩ := hfires
      exact h
  | lapse job =>
      obtain ⟨lease, -, -, rfl⟩ := hfires
      exact exclusive_setPhase_unheld h fun _ => by simp
  | grant job lease =>
      obtain ⟨-, hnone, -, -, rfl⟩ := hfires
      exact exclusive_setPhase_held h fun other lease' hheld hsame =>
        absurd hsame (hnone other lease' hheld)
  | extend job expires =>
      obtain ⟨lease, hheld, -, -, rfl⟩ := hfires
      exact exclusive_setPhase_held h fun other lease' hother hsame =>
        h other job lease' lease hother hheld hsame
  | revoke job =>
      obtain ⟨-, rfl⟩ := hfires
      exact exclusive_setPhase_unheld h fun _ => by simp
  | finish job worker record =>
      obtain ⟨lease, -, -, -, rfl⟩ := hfires
      exact exclusive_setPhase_unheld h fun _ => by simp

end Exclusive

/-! ## Leases within their limit -/

section Within

variable {rules : Rules W S G} {now : Nat} {l l' : Ledger J W S R} {action : Action J W S R}

/-- No lease runs past the point it may be extended to. -/
def Within (l : Ledger J W S R) : Prop := ∀ job lease, l.Held job lease → lease.expires ≤ lease.hard

/-- Replacing a phase keeps the leases within their limit when the new one is. -/
theorem within_setPhase {job : J} {phase : Phase W R} (h : Within l)
    (hphase : ∀ lease, phase = .held lease → lease.expires ≤ lease.hard) :
    Within (l.setPhase job phase) := by
  intro other lease hheld
  obtain ⟨-, hnew⟩ | ⟨-, hold⟩ := (Ledger.held_setPhase l).mp hheld
  · exact hphase lease hnew
  · exact h other lease hold

theorem Fires.within (h : Within l) (hfires : Fires rules now l action l') : Within l' := by
  cases action with
  | publish job =>
      obtain ⟨-, rfl⟩ := hfires
      exact within_setPhase h (by simp)
  | enroll worker source =>
      obtain ⟨-, rfl⟩ := hfires
      exact h
  | evict worker =>
      obtain ⟨-, rfl⟩ := hfires
      exact h
  | lapse job =>
      obtain ⟨lease, -, -, rfl⟩ := hfires
      exact within_setPhase h (by simp)
  | grant job lease =>
      obtain ⟨-, -, hle, -, rfl⟩ := hfires
      refine within_setPhase h fun lease' hnew => ?_
      obtain rfl := Phase.held.inj hnew
      exact hle
  | extend job expires =>
      obtain ⟨lease, hheld, -, hmax, rfl⟩ := hfires
      refine within_setPhase h fun lease' hnew => ?_
      obtain rfl := Phase.held.inj hnew
      exact hmax.trans (max_le (h job lease hheld) le_rfl)
  | revoke job =>
      obtain ⟨-, rfl⟩ := hfires
      exact within_setPhase h (by simp)
  | finish job worker record =>
      obtain ⟨lease, -, -, -, rfl⟩ := hfires
      exact within_setPhase h (by simp)

/-- Along a path the leases stay within their limit. -/
theorem Path.within {allowed : Action J W S R → Prop} (h : Path rules now allowed l l')
    (hinit : Within l) : Within l' :=
  h.preserves Within (fun _ _ _ hinv _ hfires => hfires.within hinv) hinit

end Within

/-! ## Closed jobs -/

section Closed

variable {rules : Rules W S G} {now : Nat} {l l' : Ledger J W S R} {action : Action J W S R}
  {job : J} {record : R}

/-- A transition changes the phase of a job only as its kind says. -/
theorem Fires.phase_cases (hfires : Fires rules now l action l') (job : J) :
    l'.phase job = l.phase job ∨
      (l.phase job = none ∧ l'.phase job = some .free) ∨
      (∃ lease, l.Held job lease ∧ ∃ phase, l'.phase job = some phase ∧
        ∀ record, phase = .closed record → action = .finish job lease.holder record ∧
          now < lease.expires) ∨
      (l.phase job = some .free ∧ ∃ lease, l'.phase job = some (.held lease)) := by
  have hother : ∀ {at_ : J} {phase : Phase W R}, job ≠ at_ →
      (l.setPhase at_ phase).phase job = l.phase job :=
    fun h => l.setPhase_phase_of_ne _ h
  cases action with
  | enroll worker source =>
      obtain ⟨-, rfl⟩ := hfires
      exact .inl rfl
  | evict worker =>
      obtain ⟨-, rfl⟩ := hfires
      exact .inl rfl
  | publish at_ =>
      obtain ⟨hnone, rfl⟩ := hfires
      by_cases h : job = at_
      · subst h
        exact .inr (.inl ⟨hnone, l.setPhase_phase_self ..⟩)
      · exact .inl (hother h)
  | lapse at_ =>
      obtain ⟨lease, hheld, -, rfl⟩ := hfires
      by_cases h : job = at_
      · subst h
        exact .inr (.inr (.inl ⟨lease, hheld, .free, l.setPhase_phase_self .., by simp⟩))
      · exact .inl (hother h)
  | grant at_ lease =>
      obtain ⟨hfree, -, -, -, rfl⟩ := hfires
      by_cases h : job = at_
      · subst h
        exact .inr (.inr (.inr ⟨hfree, lease, l.setPhase_phase_self ..⟩))
      · exact .inl (hother h)
  | extend at_ expires =>
      obtain ⟨lease, hheld, -, -, rfl⟩ := hfires
      by_cases h : job = at_
      · subst h
        exact .inr (.inr (.inl ⟨lease, hheld, _, l.setPhase_phase_self .., by simp⟩))
      · exact .inl (hother h)
  | revoke at_ =>
      obtain ⟨⟨lease, hheld⟩, rfl⟩ := hfires
      by_cases h : job = at_
      · subst h
        exact .inr (.inr (.inl ⟨lease, hheld, .free, l.setPhase_phase_self .., by simp⟩))
      · exact .inl (hother h)
  | finish at_ worker record =>
      obtain ⟨lease, hheld, rfl, hlive, rfl⟩ := hfires
      by_cases h : job = at_
      · subst h
        refine .inr (.inr (.inl ⟨lease, hheld, _, l.setPhase_phase_self .., ?_⟩))
        rintro record' hrecord
        obtain rfl := Phase.closed.inj hrecord
        exact ⟨rfl, hlive⟩
      · exact .inl (hother h)

/-- A closed job is never changed again. -/
theorem Fires.closed_stable (hfires : Fires rules now l action l')
    (hclosed : l.phase job = some (.closed record)) :
    l'.phase job = some (.closed record) := by
  obtain hsame | ⟨hnone, -⟩ | ⟨lease, hheld, -⟩ | ⟨hfree, -⟩ := hfires.phase_cases job
  · rw [hsame, hclosed]
  · rw [hnone] at hclosed
    cases hclosed
  · rw [Ledger.Held, hclosed] at hheld
    cases hheld
  · rw [hfree] at hclosed
    cases hclosed

/-- A job becomes closed only when the holder of its live lease finishes it. -/
theorem Fires.closed_by_finish (hfires : Fires rules now l action l')
    (hclosed : l'.phase job = some (.closed record)) :
    l.phase job = some (.closed record) ∨
      ∃ lease, l.Held job lease ∧ action = .finish job lease.holder record ∧
        now < lease.expires := by
  obtain hsame | ⟨-, hfree⟩ | ⟨lease, hheld, phase, hphase, honly⟩ | ⟨-, lease, hheld⟩ :=
    hfires.phase_cases job
  · exact .inl (hsame ▸ hclosed)
  · rw [hfree] at hclosed
    cases hclosed
  · rw [hphase] at hclosed
    obtain ⟨haction, hlive⟩ := honly record (Option.some.inj hclosed)
    exact .inr ⟨lease, hheld, haction, hlive⟩
  · rw [hheld] at hclosed
    cases hclosed

variable {allowed : Action J W S R → Prop}

/-- Along a path a closed job stays closed. -/
theorem Path.closed_stable (h : Path rules now allowed l l')
    (hclosed : l.phase job = some (.closed record)) :
    l'.phase job = some (.closed record) :=
  h.preserves (fun l => l.phase job = some (.closed record))
    (fun _ _ _ hinv _ hfires => hfires.closed_stable hinv) hclosed

/-- A path on which no finishing transition is allowed closes no job. -/
theorem Path.closed_by_finish (h : Path rules now allowed l l')
    (hclosed : l'.phase job = some (.closed record)) :
    l.phase job = some (.closed record) ∨ ∃ worker, allowed (.finish job worker record) := by
  induction h with
  | nil => exact .inl hclosed
  | cons hallowed hfires _ ih =>
      obtain hmid | hlater := ih hclosed
      · obtain hfirst | ⟨lease, -, haction, -⟩ := hfires.closed_by_finish hmid
        · exact .inl hfirst
        · exact .inr ⟨lease.holder, haction ▸ hallowed⟩
      · exact .inr hlater

end Closed

/-! ## Evictions and the roster -/

section Roster

variable {rules : Rules W S G} {now : Nat} {l l' : Ledger J W S R} {action : Action J W S R}
  {allowed : Action J W S R → Prop}

/-- The transition does not evict the holder of a lease whose limit counts. -/
def Spares (counts : Nat → Prop) (l : Ledger J W S R) (action : Action J W S R) : Prop :=
  ∀ worker, action = .evict worker → ∀ job lease, l.Held job lease → counts lease.hard →
    lease.holder ≠ worker

/-- A lease on the ledger was there before, perhaps with another expiry, or it
has just been granted. -/
theorem Fires.held_cases {job : J} {lease : Lease W} (hfires : Fires rules now l action l')
    (hheld : l'.Held job lease) :
    action = .grant job lease ∨
      ∃ old, l.Held job old ∧ old.holder = lease.holder ∧ old.hard = lease.hard := by
  have hunheld : ∀ {at_ : J} {phase : Phase W R}, (∀ lease, phase ≠ .held lease) →
      (l.setPhase at_ phase).Held job lease →
        ∃ old, l.Held job old ∧ old.holder = lease.holder ∧ old.hard = lease.hard := by
    intro at_ phase hphase hheld
    rw [Ledger.held_setPhase] at hheld
    obtain ⟨-, hbad⟩ | ⟨-, hheld⟩ := hheld
    · exact absurd hbad (hphase lease)
    · exact ⟨lease, hheld, rfl, rfl⟩
  cases action with
  | publish at_ =>
      obtain ⟨-, rfl⟩ := hfires
      exact .inr (hunheld (fun _ => by simp) hheld)
  | enroll worker source =>
      obtain ⟨-, rfl⟩ := hfires
      exact .inr ⟨lease, hheld, rfl, rfl⟩
  | evict worker =>
      obtain ⟨-, rfl⟩ := hfires
      exact .inr ⟨lease, hheld, rfl, rfl⟩
  | lapse at_ =>
      obtain ⟨_, -, -, rfl⟩ := hfires
      exact .inr (hunheld (fun _ => by simp) hheld)
  | grant at_ granted =>
      obtain ⟨-, -, -, -, rfl⟩ := hfires
      rw [Ledger.held_setPhase] at hheld
      obtain ⟨rfl, hsame⟩ | ⟨-, hheld⟩ := hheld
      · exact .inl (congrArg _ (Phase.held.inj hsame))
      · exact .inr ⟨lease, hheld, rfl, rfl⟩
  | extend at_ expires =>
      obtain ⟨old, hold, -, -, rfl⟩ := hfires
      rw [Ledger.held_setPhase] at hheld
      obtain ⟨rfl, hsame⟩ | ⟨-, hheld⟩ := hheld
      · obtain rfl := Phase.held.inj hsame
        exact .inr ⟨old, hold, rfl, rfl⟩
      · exact .inr ⟨lease, hheld, rfl, rfl⟩
  | revoke at_ =>
      obtain ⟨-, rfl⟩ := hfires
      exact .inr (hunheld (fun _ => by simp) hheld)
  | finish at_ worker record =>
      obtain ⟨_, -, -, -, rfl⟩ := hfires
      exact .inr (hunheld (fun _ => by simp) hheld)

/-- What transitions that spare the holders preserve, a path preserves, if the
holders are spared in the ledger it starts from and no lease is granted to a
worker the path may evict. -/
theorem Path.preserves_sparing {Inv : Ledger J W S R → Prop} (counts : Nat → Prop)
    (hgrant : ∀ job lease, allowed (.grant job lease) → ¬ allowed (.evict lease.holder))
    (hstep : ∀ l action l', Inv l → Spares counts l action → Fires rules now l action l' → Inv l')
    (h : Path rules now allowed l l') (hinit : Inv l)
    (hspares : ∀ action, allowed action → Spares counts l action) : Inv l' := by
  induction h with
  | nil => exact hinit
  | cons hallowed hfires _ ih =>
      refine ih (hstep _ _ _ hinit (hspares _ hallowed) hfires) ?_
      rintro action hnext worker rfl job lease hheld hcounts
      obtain rfl | ⟨old, hold, hholder, hhard⟩ := hfires.held_cases hheld
      · rintro rfl
        exact hgrant job lease hallowed hnext
      · rw [← hholder]
        exact hspares _ hnext worker rfl job old hold (hhard ▸ hcounts)

/-- The roster gains a worker only by an admission. -/
theorem Fires.roster_cases {worker : W} {source : S} (hfires : Fires rules now l action l')
    (h : l'.roster worker = some source) :
    l.roster worker = some source ∨ action = .enroll worker source := by
  cases action with
  | enroll w src =>
      obtain ⟨-, rfl⟩ := hfires
      by_cases hw : worker = w
      · subst hw
        rw [l.setRoster_roster_self, Option.some.injEq] at h
        exact .inr (h ▸ rfl)
      · exact .inl (l.setRoster_roster_of_ne _ hw ▸ h)
  | evict w =>
      obtain ⟨-, rfl⟩ := hfires
      by_cases hw : worker = w
      · subst hw
        rw [l.setRoster_roster_self] at h
        cases h
      · exact .inl (l.setRoster_roster_of_ne _ hw ▸ h)
  | publish job =>
      obtain ⟨-, rfl⟩ := hfires
      exact .inl h
  | lapse job =>
      obtain ⟨_, -, -, rfl⟩ := hfires
      exact .inl h
  | grant job lease =>
      obtain ⟨-, -, -, -, rfl⟩ := hfires
      exact .inl h
  | extend job expires =>
      obtain ⟨_, -, -, -, rfl⟩ := hfires
      exact .inl h
  | revoke job =>
      obtain ⟨-, rfl⟩ := hfires
      exact .inl h
  | finish job w record =>
      obtain ⟨_, -, -, -, rfl⟩ := hfires
      exact .inl h

theorem Path.roster_cases {worker : W} {source : S} (h : Path rules now allowed l l')
    (hroster : l'.roster worker = some source) :
    l.roster worker = some source ∨ allowed (.enroll worker source) := by
  induction h with
  | nil => exact .inl hroster
  | cons hallowed hfires _ ih =>
      obtain hmid | hlater := ih hroster
      · obtain hfirst | rfl := hfires.roster_cases hmid
        · exact .inl hfirst
        · exact .inr hallowed
      · exact .inr hlater

/-- Every holder of a lease is on the roster. -/
def HoldersRegistered (l : Ledger J W S R) : Prop :=
  ∀ job lease, l.Held job lease → ∃ source, l.roster lease.holder = some source

/-- A transition that evicts no holder keeps every holder registered. -/
theorem Fires.holdersRegistered (h : HoldersRegistered l)
    (hspares : Spares (fun _ => True) l action) (hfires : Fires rules now l action l') :
    HoldersRegistered l' := by
  intro job lease hheld
  -- A worker on the roster stays there, unless it is evicted.
  have hkept : ∀ worker source, l.roster worker = some source → action ≠ .evict worker →
      ∃ source, l'.roster worker = some source := by
    intro worker source hsource hne
    cases action with
    | enroll w src =>
        obtain ⟨-, rfl⟩ := hfires
        by_cases hw : worker = w
        · exact ⟨src, hw ▸ l.setRoster_roster_self ..⟩
        · exact ⟨source, (l.setRoster_roster_of_ne _ hw).trans hsource⟩
    | evict w =>
        obtain ⟨-, rfl⟩ := hfires
        have hw : worker ≠ w := fun hw => hne (hw ▸ rfl)
        exact ⟨source, (l.setRoster_roster_of_ne _ hw).trans hsource⟩
    | publish at_ =>
        obtain ⟨-, rfl⟩ := hfires
        exact ⟨source, hsource⟩
    | lapse at_ =>
        obtain ⟨_, -, -, rfl⟩ := hfires
        exact ⟨source, hsource⟩
    | grant at_ granted =>
        obtain ⟨-, -, -, -, rfl⟩ := hfires
        exact ⟨source, hsource⟩
    | extend at_ expires =>
        obtain ⟨_, -, -, -, rfl⟩ := hfires
        exact ⟨source, hsource⟩
    | revoke at_ =>
        obtain ⟨-, rfl⟩ := hfires
        exact ⟨source, hsource⟩
    | finish at_ w record =>
        obtain ⟨_, -, -, -, rfl⟩ := hfires
        exact ⟨source, hsource⟩
  obtain rfl | ⟨old, hold, hholder, -⟩ := hfires.held_cases hheld
  · obtain ⟨-, -, -, ⟨source, hsource, -⟩, rfl⟩ := hfires
    exact ⟨source, hsource⟩
  · obtain ⟨source, hsource⟩ := h job old hold
    rw [hholder] at hsource
    refine hkept _ _ hsource fun haction => ?_
    exact hspares _ haction job old hold trivial hholder

end Roster

/-! ## The cap on a source group -/

section Capped

variable {rules : Rules W S G} {now clock : Nat} {l l' : Ledger J W S R}
  {action : Action J W S R}

/-- Every lease that can still be extended past `now` has a holder on the
roster, none expires after its own limit, and no group of unvouched workers
holds more of them than the cap. -/
structure Capped (rules : Rules W S G) (now : Nat) (l : Ledger J W S R) : Prop where
  expires_le : ∀ job lease, l.Held job lease → lease.expires ≤ lease.hard
  registered : ∀ job lease, l.Held job lease → now < lease.hard →
    ∃ source, l.roster lease.holder = some source
  within : ∀ g, (l.groupJobs rules now g).encard ≤ rules.cap

/-- Time passing only takes leases out of account. -/
theorem Capped.later (h : Capped rules clock l) (hle : clock ≤ now) :
    Capped rules now l where
  expires_le := h.expires_le
  registered job lease hheld hlive := h.registered job lease hheld (hle.trans_lt hlive)
  within g := by
    refine le_trans (Set.encard_le_encard ?_) (h.within g)
    rintro job ⟨lease, hheld, hlive, hrest⟩
    exact ⟨lease, hheld, hle.trans_lt hlive, hrest⟩

/-- Replacing a phase by one that is not a lease. -/
private theorem Capped.setPhase_unheld {job : J} {phase : Phase W R}
    (h : Capped rules now l) (hphase : ∀ lease, phase ≠ .held lease) :
    Capped rules now (l.setPhase job phase) := by
  have hback : ∀ {other : J} {lease : Lease W}, (l.setPhase job phase).Held other lease →
      l.Held other lease := by
    intro other lease hheld
    rw [Ledger.held_setPhase] at hheld
    obtain ⟨-, hbad⟩ | ⟨-, hheld⟩ := hheld
    · exact absurd hbad (hphase lease)
    · exact hheld
  constructor
  · exact fun other lease hheld => h.expires_le other lease (hback hheld)
  · exact fun other lease hheld => h.registered other lease (hback hheld)
  · intro g
    refine le_trans (Set.encard_le_encard ?_) (h.within g)
    rintro other ⟨lease, hheld, hrest⟩
    exact ⟨lease, hback hheld, hrest⟩

theorem Fires.capped (h : Capped rules now l) (hspares : Spares (now < ·) l action)
    (hfires : Fires rules now l action l') : Capped rules now l' := by
  cases action with
  | publish job =>
      obtain ⟨-, rfl⟩ := hfires
      exact h.setPhase_unheld fun _ => by simp
  | lapse job =>
      obtain ⟨lease, -, -, rfl⟩ := hfires
      exact h.setPhase_unheld fun _ => by simp
  | revoke job =>
      obtain ⟨-, rfl⟩ := hfires
      exact h.setPhase_unheld fun _ => by simp
  | finish job worker record =>
      obtain ⟨lease, -, -, -, rfl⟩ := hfires
      exact h.setPhase_unheld fun _ => by simp
  | enroll worker source =>
      obtain ⟨hnone, rfl⟩ := hfires
      -- The new worker holds nothing that counts, since it was not registered.
      have hne : ∀ job lease, l.Held job lease → now < lease.hard →
          lease.holder ≠ worker := by
        rintro job lease hheld hlive rfl
        obtain ⟨source', hsource'⟩ := h.registered job lease hheld hlive
        rw [hnone] at hsource'
        cases hsource'
      constructor
      · exact h.expires_le
      · intro job lease hheld hlive
        rw [l.setRoster_roster_of_ne _ (hne job lease hheld hlive)]
        exact h.registered job lease hheld hlive
      · intro g
        refine le_trans (Set.encard_le_encard ?_) (h.within g)
        rintro job ⟨lease, hheld, hlive, hun, source', hsource', hg⟩
        rw [l.setRoster_roster_of_ne _ (hne job lease hheld hlive)] at hsource'
        exact ⟨lease, hheld, hlive, hun, source', hsource', hg⟩
  | evict worker =>
      obtain ⟨-, rfl⟩ := hfires
      have hne : ∀ job lease, l.Held job lease → now < lease.hard →
          lease.holder ≠ worker := hspares worker rfl
      constructor
      · exact h.expires_le
      · intro job lease hheld hlive
        rw [l.setRoster_roster_of_ne _ (hne job lease hheld hlive)]
        exact h.registered job lease hheld hlive
      · intro g
        refine le_trans (Set.encard_le_encard ?_) (h.within g)
        rintro job ⟨lease, hheld, hlive, hun, source', hsource', hg⟩
        rw [l.setRoster_roster_of_ne _ (hne job lease hheld hlive)] at hsource'
        exact ⟨lease, hheld, hlive, hun, source', hsource', hg⟩
  | grant job lease =>
      obtain ⟨-, -, hexp, ⟨source, hsource, hroom⟩, rfl⟩ := hfires
      constructor
      · intro other lease' hheld
        rw [Ledger.held_setPhase] at hheld
        obtain ⟨-, hsame⟩ | ⟨-, hheld⟩ := hheld
        · obtain rfl := Phase.held.inj hsame
          exact hexp
        · exact h.expires_le other lease' hheld
      · intro other lease' hheld hlive
        rw [Ledger.held_setPhase] at hheld
        obtain ⟨-, hsame⟩ | ⟨-, hheld⟩ := hheld
        · obtain rfl := Phase.held.inj hsame
          exact ⟨source, hsource⟩
        · exact h.registered other lease' hheld hlive
      · intro g
        by_cases hcounts : ¬ rules.vouched lease.holder ∧ rules.group source = g
        · obtain ⟨hun, rfl⟩ := hcounts
          -- At most the granted job is new in its group.
          have hsub : (l.setPhase job (.held lease)).groupJobs rules now (rules.group source) ⊆
              insert job (l.groupJobs rules now (rules.group source)) := by
            rintro other ⟨lease', hheld, hrest⟩
            rw [Ledger.held_setPhase] at hheld
            obtain ⟨rfl, -⟩ | ⟨-, hheld⟩ := hheld
            · exact Set.mem_insert ..
            · exact Set.mem_insert_of_mem _ ⟨lease', hheld, hrest⟩
          calc ((l.setPhase job (.held lease)).groupJobs rules now (rules.group source)).encard
              ≤ (insert job (l.groupJobs rules now (rules.group source))).encard :=
                Set.encard_le_encard hsub
            _ ≤ (l.groupJobs rules now (rules.group source)).encard + 1 :=
                Set.encard_insert_le ..
            _ ≤ rules.cap := Order.add_one_le_of_lt (hroom hun)
        · refine le_trans (Set.encard_le_encard ?_) (h.within g)
          rintro other ⟨lease', hheld, hlive, hun, source', hsource', hg⟩
          rw [Ledger.held_setPhase] at hheld
          obtain ⟨-, hsame⟩ | ⟨-, hheld⟩ := hheld
          · obtain rfl := Phase.held.inj hsame
            rw [l.setPhase_roster, hsource, Option.some.injEq] at hsource'
            subst hsource'
            exact absurd ⟨hun, hg⟩ hcounts
          · exact ⟨lease', hheld, hlive, hun, source', hsource', hg⟩
  | extend job expires =>
      obtain ⟨lease, hheld₀, -, hle, rfl⟩ := hfires
      -- An extended lease keeps its holder and its limit.
      have hback : ∀ {other : J} {lease' : Lease W},
          (l.setPhase job (.held { lease with expires := expires })).Held other lease' →
            ∃ old, l.Held other old ∧ old.holder = lease'.holder ∧ old.hard = lease'.hard ∧
              lease'.expires ≤ max old.expires old.hard := by
        intro other lease' hheld
        rw [Ledger.held_setPhase] at hheld
        obtain ⟨rfl, hsame⟩ | ⟨-, hheld⟩ := hheld
        · obtain rfl := Phase.held.inj hsame
          exact ⟨lease, hheld₀, rfl, rfl, hle⟩
        · exact ⟨lease', hheld, rfl, rfl, le_max_left ..⟩
      constructor
      · intro other lease' hheld
        obtain ⟨old, hold, -, hhard, hexp⟩ := hback hheld
        rw [max_eq_right (h.expires_le other old hold)] at hexp
        exact hhard ▸ hexp
      · intro other lease' hheld hlive
        obtain ⟨old, hold, hholder, hhard, -⟩ := hback hheld
        rw [l.setPhase_roster, ← hholder]
        exact h.registered other old hold (hhard ▸ hlive)
      · intro g
        refine le_trans (Set.encard_le_encard ?_) (h.within g)
        rintro other ⟨lease', hheld, hlive, hun, hrest⟩
        obtain ⟨old, hold, hholder, hhard, -⟩ := hback hheld
        rw [← hholder] at hun hrest
        exact ⟨old, hold, hhard ▸ hlive, hun, hrest⟩

end Capped

end LeaseLedger
