import ComputePool.Coordinator.HonestRound
import ComputePool.Lib.Machine

/-!
# One delta for each device and round

The poll loop of a device with `FlExecutor::run`: a job is run, its artifact uploaded, the
round marked and the result submitted, one after the other.  Each may fail, the process may
end between any two, and a loss of power may lose a marker that is not on disk yet.  The look
at the marker may fail too, and the round then counts as one without a marker.
-/

namespace ComputePool
namespace Worker
namespace FlExecutor

open RustStd Federated Coordinator

/-- Where the loop is. -/
inductive Phase where
  | idle
  /-- The run is over, and nothing is sent. -/
  | trained (job : JobId) (out : Runner.LoraRunOutput)
  /-- The upload is answered, and the round is not marked. -/
  | uploaded (job : JobId) (out : Runner.LoraRunOutput)
  /-- The round is marked, and the result is not submitted. -/
  | marked (job : JobId) (out : Runner.LoraRunOutput)

structure Device where
  phase : Phase
  /-- The rounds that have a marker. -/
  markers : Finset B32
  /-- The uploads that were sent, with an answer or without. -/
  sent : List (JobId × Runner.LoraRunOutput)
  submitted : List (JobId × Runner.LoraRunOutput)
  /-- The rounds of uploads after which no marker was made. -/
  unmarked : Multiset B32
  /-- The rounds whose marker was lost. -/
  lost : Multiset B32
  /-- The rounds of jobs that were run although there was a marker. -/
  missed : Multiset B32

def Device.new : Device := ⟨.idle, ∅, [], [], 0, 0, 0⟩

/-- How `mark_contributed` ends. -/
inductive Marking where
  | succeeds
  /-- It fails, and the marker is there all the same. -/
  | failsMade
  | fails

/-- What happens next. -/
inductive DeviceEvent where
  /-- A job is leased and run, on the files as it finds them: a look at a marker that fails
  finds none. -/
  | job (id : JobId) (payload : Json) (files : Runner.Files)
  /-- `upload_fl_delta` -/
  | upload (succeeds : Bool)
  | mark (marking : Marking)
  | submit
  | crash
  /-- The markers that are left. -/
  | powerLoss (kept : Finset B32)

/-- The job in hand is given up. -/
def Device.stop (d : Device) : Device :=
  match d.phase with
  | .uploaded _ out => { d with phase := .idle, unmarked := out.result.roundId ::ₘ d.unmarked }
  | _ => { d with phase := .idle }

section Step

variable (env : Runner.RunEnv) (device : Runner.DeviceConfig) (trainer : Option Runner.LoraTrainer)

def step (d : Device) (event : DeviceEvent) : Device :=
  match event, d.phase with
  | .job id payload files, .idle =>
      match Runner.run env device trainer files payload with
      | .ok out =>
          { d with
            phase := .trained id out
            missed :=
              if out.result.roundId ∈ d.markers then out.result.roundId ::ₘ d.missed else d.missed }
      | .error _ => d
  | .upload succeeds, .trained id out =>
      let sent := { d with phase := .uploaded id out, sent := d.sent ++ [(id, out)] }
      if succeeds then sent else sent.stop
  | .mark .succeeds, .uploaded id out =>
      { d with phase := .marked id out, markers := insert out.result.roundId d.markers }
  | .mark .failsMade, .uploaded _ out =>
      { d with phase := .idle, markers := insert out.result.roundId d.markers }
  | .mark .fails, .uploaded _ _ => d.stop
  | .submit, .marked id out => { d with phase := .idle, submitted := d.submitted ++ [(id, out)] }
  | .crash, _ => d.stop
  | .powerLoss kept, _ =>
      { d.stop with
        markers := d.markers ∩ kept
        lost := d.lost + (d.markers \ kept).val }
  | _, _ => d

def machine : Machine Device DeviceEvent := ⟨step env device trainer⟩

/-- Nothing fails, the look at a marker neither, and nothing ends. -/
def Undisturbed (d : Device) (event : DeviceEvent) : Prop :=
  match event with
  | .job _ _ files => ∀ round ∈ d.markers, (files (device.marker round)).isOk = true
  | .upload succeeds => succeeds = true
  | .mark marking => marking = .succeeds
  | .submit => True
  | .crash => False
  | .powerLoss _ => False

end Step

/-- The uploads sent for a round. -/
def Device.sends (d : Device) (round : B32) : Nat :=
  d.sent.countP fun entry => decide (entry.2.result.roundId = round)

/-- The results submitted for a round. -/
def Device.submissions (d : Device) (round : B32) : Nat :=
  d.submitted.countP fun entry => decide (entry.2.result.roundId = round)

/-! ## What a run has checked -/

section

variable {env : Runner.RunEnv} {device : Runner.DeviceConfig} {trainer : Option Runner.LoraTrainer}
  {d : Device}

theorem run_checked {files : Runner.Files} {payload : Json} {out : Runner.LoraRunOutput}
    (h : Runner.run env device trainer files payload = .ok out) :
    Runner.consented env device files out.result.roundId = .ok true ∧
      ¬ (files (device.marker out.result.roundId)).isOk := by
  obtain ⟨p, hprep, h⟩ := bind_eq_ok.mp h
  obtain ⟨after, -, hconclude⟩ := bind_eq_ok.mp h
  have hready := (ready_of_prepare (checked_eq_ok.mp hprep)).1
  have ⟨_, _, _, _, _, _, hdone⟩ := concluded_of_conclude hconclude
  have hround : out.result.roundId = p.payload.roundId := by
    rw [hdone.result]
    rfl
  rw [hround]
  exact ⟨hready.consent, hready.unmarked⟩

/-! ## The accounts of a round -/

/-- An upload of the round waits for its marker. -/
def Phase.waits (round : B32) : Phase → Nat
  | .uploaded _ out => if out.result.roundId = round then 1 else 0
  | _ => 0

/-- A result of the round waits to be submitted. -/
def Phase.ready (round : B32) : Phase → Nat
  | .marked _ out => if out.result.roundId = round then 1 else 0
  | _ => 0

/-- A job of the round is in hand that has yet to make its marker. -/
def Phase.ahead (round : B32) : Phase → Nat
  | .trained _ out => if out.result.roundId = round then 1 else 0
  | .uploaded _ out => if out.result.roundId = round then 1 else 0
  | _ => 0

def Device.has (d : Device) (round : B32) : Nat := if round ∈ d.markers then 1 else 0

/-- Every upload of a round waits for its marker, or went without one, or made the marker
that is there or that was lost, or is of a job that was run although there was a marker.
Of these jobs one may be in hand, whose marker will be no new one. -/
structure Balanced (d : Device) : Prop where
  sends : ∀ round, d.sends round + d.phase.ahead round * d.has round ≤
    d.unmarked.count round + d.phase.waits round + d.has round + d.lost.count round +
      d.missed.count round
  submissions : ∀ round, d.submissions round + d.phase.ready round +
    d.phase.ahead round * d.has round ≤ d.has round + d.lost.count round + d.missed.count round

theorem balanced_new : Balanced .new where
  sends := fun _ => le_rfl
  submissions := fun _ => le_rfl

theorem has_le (d : Device) (round : B32) : d.has round ≤ 1 := by
  unfold Device.has
  split <;> decide

@[simp] theorem stop_phase (d : Device) : d.stop.phase = .idle := by
  unfold Device.stop
  split <;> rfl

@[simp] theorem stop_markers (d : Device) : d.stop.markers = d.markers := by
  unfold Device.stop
  split <;> rfl

@[simp] theorem stop_sent (d : Device) : d.stop.sent = d.sent := by
  unfold Device.stop
  split <;> rfl

@[simp] theorem stop_submitted (d : Device) : d.stop.submitted = d.submitted := by
  unfold Device.stop
  split <;> rfl

@[simp] theorem stop_lost (d : Device) : d.stop.lost = d.lost := by
  unfold Device.stop
  split <;> rfl

/-- An upload that waited for its marker now goes without one. -/
theorem stop_unmarked (d : Device) (round : B32) :
    d.stop.unmarked.count round = d.unmarked.count round + d.phase.waits round := by
  unfold Device.stop Phase.waits
  split
  · rw [Multiset.count_cons]
    simp only [eq_comm]
  · rfl

@[simp] theorem stop_missed (d : Device) : d.stop.missed = d.missed := by
  unfold Device.stop
  split <;> rfl

theorem Balanced.stop (h : Balanced d) : Balanced d.stop where
  sends := by
    intro round
    have hsends := h.sends round
    simp only [Device.sends, Device.has, stop_sent, stop_markers, stop_lost, stop_phase,
      stop_missed, stop_unmarked, Phase.waits, Phase.ahead, Nat.zero_mul] at hsends ⊢
    omega
  submissions := by
    intro round
    have hsubmissions := h.submissions round
    simp only [Device.submissions, Device.has, stop_submitted, stop_markers, stop_lost, stop_phase,
      stop_missed, Phase.ready, Phase.ahead, Nat.zero_mul] at hsubmissions ⊢
    omega

theorem Balanced.trained (h : Balanced d) {id : JobId} {out : Runner.LoraRunOutput}
    (hidle : d.phase = .idle) :
    Balanced
      { d with
        phase := .trained id out
        missed :=
          if out.result.roundId ∈ d.markers then out.result.roundId ::ₘ d.missed else d.missed } := by
  -- the job that has a marker ahead of it is counted as missed
  have hmissed : ∀ round, (if out.result.roundId = round then 1 else 0) * d.has round +
      d.missed.count round =
        (if out.result.roundId ∈ d.markers then out.result.roundId ::ₘ d.missed
          else d.missed).count round := by
    intro round
    unfold Device.has
    by_cases hround : out.result.roundId = round
    · subst hround
      by_cases hmarker : out.result.roundId ∈ d.markers
      · simp [hmarker, Nat.add_comm]
      · simp [hmarker]
    · by_cases hmarker : out.result.roundId ∈ d.markers
      · simp [hround, hmarker, Ne.symm hround]
      · simp [hround, hmarker]
  refine ⟨fun round => ?_, fun round => ?_⟩
  · have hsends := h.sends round
    have hround := hmissed round
    rw [hidle] at hsends
    simp only [Device.sends, Device.has, Phase.waits, Phase.ahead, Nat.zero_mul] at hsends hround ⊢
    omega
  · have hsubmissions := h.submissions round
    have hround := hmissed round
    rw [hidle] at hsubmissions
    simp only [Device.submissions, Device.has, Phase.ready, Phase.ahead, Nat.zero_mul]
      at hsubmissions hround ⊢
    omega

theorem Balanced.sent (h : Balanced d) {id : JobId} {out : Runner.LoraRunOutput}
    (hphase : d.phase = .trained id out) :
    Balanced { d with phase := .uploaded id out, sent := d.sent ++ [(id, out)] } where
  sends := by
    intro round
    have hsends := h.sends round
    rw [hphase] at hsends
    simp only [Device.sends, Device.has, Phase.waits, Phase.ahead, List.countP_append,
      List.countP_cons, List.countP_nil, decide_eq_true_eq] at hsends ⊢
    omega
  submissions := by
    intro round
    have hsubmissions := h.submissions round
    rw [hphase] at hsubmissions
    exact hsubmissions

/-- The marker is made, and the upload no longer waits. -/
theorem Balanced.marked (h : Balanced d) {id : JobId} {out : Runner.LoraRunOutput}
    (hphase : d.phase = .uploaded id out) {phase : Phase}
    (hnext : phase = .marked id out ∨ phase = .idle) :
    Balanced { d with phase := phase, markers := insert out.result.roundId d.markers } := by
  have hhas : ∀ round, (if round ∈ insert out.result.roundId d.markers then 1 else 0) +
      (if out.result.roundId = round then 1 else 0) * d.has round =
        d.has round + if out.result.roundId = round then 1 else 0 := by
    intro round
    unfold Device.has
    by_cases hround : out.result.roundId = round
    · subst hround
      by_cases hmarker : out.result.roundId ∈ d.markers
      · simp [hmarker]
      · simp [hmarker]
    · simp [hround, Ne.symm hround]
  have hready : ∀ round, phase.ready round ≤ if out.result.roundId = round then 1 else 0 := by
    intro round
    rcases hnext with rfl | rfl
    · exact le_rfl
    · exact Nat.zero_le _
  have hdone : ∀ round, phase.waits round = 0 ∧ phase.ahead round = 0 := by
    intro round
    rcases hnext with rfl | rfl
    · exact ⟨rfl, rfl⟩
    · exact ⟨rfl, rfl⟩
  refine ⟨fun round => ?_, fun round => ?_⟩
  · have hsends := h.sends round
    have hround := hhas round
    rw [hphase] at hsends
    simp only [Device.sends, Device.has, Phase.waits, Phase.ahead] at hsends hround
    simp only [Device.sends, Device.has, hdone round, Nat.zero_mul]
    omega
  · have hsubmissions := h.submissions round
    have hround := hhas round
    have hnew := hready round
    rw [hphase] at hsubmissions
    simp only [Device.submissions, Device.has, Phase.ready, Phase.ahead] at hsubmissions hround
    simp only [Device.submissions, Device.has, hdone round, Nat.zero_mul]
    omega

theorem Balanced.submitted (h : Balanced d) {id : JobId} {out : Runner.LoraRunOutput}
    (hphase : d.phase = .marked id out) :
    Balanced { d with phase := .idle, submitted := d.submitted ++ [(id, out)] } where
  sends := by
    intro round
    have hsends := h.sends round
    rw [hphase] at hsends
    exact hsends
  submissions := by
    intro round
    have hsubmissions := h.submissions round
    rw [hphase] at hsubmissions
    simp only [Device.submissions, Device.has, Phase.ready, Phase.ahead, List.countP_append,
      List.countP_cons, List.countP_nil, decide_eq_true_eq] at hsubmissions ⊢
    omega

theorem Balanced.powerLoss (h : Balanced d) (kept : Finset B32) :
    Balanced
      { d.stop with
        markers := d.markers ∩ kept
        lost := d.lost + (d.markers \ kept).val } := by
  have hstopped := h.stop
  have hhas : ∀ round, (if round ∈ d.markers ∩ kept then 1 else 0) +
      (d.markers \ kept).val.count round = d.has round := by
    intro round
    unfold Device.has
    rw [Multiset.count_eq_of_nodup (d.markers \ kept).nodup]
    simp only [Finset.mem_val, Finset.mem_inter, Finset.mem_sdiff]
    by_cases hmarker : round ∈ d.markers <;> by_cases hkept : round ∈ kept <;> simp [hmarker, hkept]
  refine ⟨fun round => ?_, fun round => ?_⟩
  · have hsends := hstopped.sends round
    have hround := hhas round
    simp only [Device.sends, Device.has, stop_sent, stop_markers, stop_lost, stop_phase,
      stop_missed, Phase.waits, Phase.ahead, Nat.zero_mul, Multiset.count_add] at hsends hround ⊢
    omega
  · have hsubmissions := hstopped.submissions round
    have hround := hhas round
    simp only [Device.submissions, Device.has, stop_submitted, stop_markers, stop_lost, stop_phase,
      stop_missed, Phase.ready, Phase.ahead, Nat.zero_mul, Multiset.count_add]
      at hsubmissions hround ⊢
    omega

/-- One step, by what is in hand. -/
theorem balanced_step (h : Balanced d) (event : DeviceEvent) :
    Balanced (step env device trainer d event) := by
  unfold step
  split
  · rename_i id payload files hphase
    split
    · exact h.trained hphase
    · exact h
  · rename_i succeeds id out hphase
    cases succeeds with
    | true => exact h.sent hphase
    | false => exact (h.sent hphase).stop
  · rename_i id out hphase
    exact h.marked hphase (.inl rfl)
  · rename_i id out hphase
    exact h.marked hphase (.inr rfl)
  · exact h.stop
  · rename_i id out hphase
    exact h.submitted hphase
  · exact h.stop
  · rename_i kept
    exact h.powerLoss kept
  · exact h

theorem Balanced.sends_le (h : Balanced d) (round : B32) :
    d.sends round ≤ 1 + d.unmarked.count round + d.lost.count round + d.missed.count round := by
  have hsends := h.sends round
  have hhas := has_le d round
  -- an upload that waits beside a marker is of a job in hand
  have hone : d.phase.waits round + d.has round ≤ 1 + d.phase.ahead round * d.has round := by
    cases hphase : d.phase with
    | uploaded id out =>
        unfold Phase.waits Phase.ahead
        dsimp only
        split
        · omega
        · omega
    | _ => simp only [Phase.waits, zero_add]; omega
  omega

theorem Balanced.submissions_le (h : Balanced d) (round : B32) :
    d.submissions round ≤ 1 + d.lost.count round + d.missed.count round := by
  have hsubmissions := h.submissions round
  have hhas := has_le d round
  omega

/-! ## Where an upload comes from -/

/-- The job in hand, if there is one. -/
def Phase.inHand : Phase → Option (JobId × Runner.LoraRunOutput)
  | .idle => none
  | .trained id out => some (id, out)
  | .uploaded id out => some (id, out)
  | .marked id out => some (id, out)

/-- An output that is in hand or was sent. -/
def Device.Holds (d : Device) (entry : JobId × Runner.LoraRunOutput) : Prop :=
  entry ∈ d.sent ∨ d.phase.inHand = some entry

theorem holds_stop {entry : JobId × Runner.LoraRunOutput} (h : d.stop.Holds entry) :
    d.Holds entry := by
  rcases h with hsent | hhand
  · rw [stop_sent] at hsent
    exact .inl hsent
  · rw [stop_phase] at hhand
    cases hhand

theorem holds_step {event : DeviceEvent} {entry : JobId × Runner.LoraRunOutput}
    (h : (step env device trainer d event).Holds entry) :
    d.Holds entry ∨ ∃ payload files, event = .job entry.1 payload files ∧
      Runner.run env device trainer files payload = .ok entry.2 := by
  have hsend : ∀ {id out}, d.phase = .trained id out →
      Device.Holds { d with phase := .uploaded id out, sent := d.sent ++ [(id, out)] } entry →
        d.Holds entry := by
    rintro id out hphase (hmem | hhand)
    · rcases List.mem_append.mp hmem with hold | hnew
      · exact .inl hold
      · rw [List.mem_singleton.mp hnew]
        exact .inr (by rw [hphase]; rfl)
    · exact .inr (by rw [hphase]; exact hhand)
  unfold step at h
  split at h
  · rename_i id payload files hphase
    split at h
    · rename_i out hrun
      rcases h with hsent | hhand
      · exact .inl (.inl hsent)
      · cases Option.some.inj hhand
        exact .inr ⟨payload, files, rfl, hrun⟩
    · exact .inl h
  · rename_i succeeds id out hphase
    cases succeeds with
    | true => exact .inl (hsend hphase h)
    | false => exact .inl (hsend hphase (holds_stop h))
  · rename_i id out hphase
    rcases h with hsent | hhand
    · exact .inl (.inl hsent)
    · exact .inl (.inr (by rw [hphase]; exact hhand))
  · rcases h with hsent | hhand
    · exact .inl (.inl hsent)
    · cases hhand
  · exact .inl (holds_stop h)
  · rcases h with hsent | hhand
    · exact .inl (.inl hsent)
    · cases hhand
  · exact .inl (holds_stop h)
  · refine .inl (holds_stop ?_)
    rcases h with hsent | hhand
    · exact .inl hsent
    · exact .inr hhand
  · exact .inl h

theorem holds_run {events : List DeviceEvent} {entry : JobId × Runner.LoraRunOutput}
    (h : ((machine env device trainer).run d events).Holds entry) :
    d.Holds entry ∨ ∃ payload files, .job entry.1 payload files ∈ events ∧
      Runner.run env device trainer files payload = .ok entry.2 := by
  induction events generalizing d with
  | nil => exact .inl h
  | cons event rest ih =>
      rcases ih h with hheld | ⟨payload, files, hmem, hrun⟩
      · rcases holds_step hheld with hold | ⟨payload, files, rfl, hrun⟩
        · exact .inl hold
        · exact .inr ⟨payload, files, List.mem_cons_self, hrun⟩
      · exact .inr ⟨payload, files, List.mem_cons_of_mem _ hmem, hrun⟩

/-! ## The order of the steps -/

/-- The results are those of uploads, in their order; the one in hand comes last. -/
def Ordered (d : Device) : Prop :=
  match d.phase with
  | .uploaded id out => (d.submitted ++ [(id, out)]).Sublist d.sent
  | .marked id out => (d.submitted ++ [(id, out)]).Sublist d.sent
  | _ => d.submitted.Sublist d.sent

theorem Ordered.sublist (h : Ordered d) : d.submitted.Sublist d.sent := by
  unfold Ordered at h
  split at h
  · exact (List.sublist_append_left _ _).trans h
  · exact (List.sublist_append_left _ _).trans h
  · exact h

theorem Ordered.stop (h : Ordered d) : Ordered d.stop := by
  unfold Ordered
  rw [stop_phase, stop_submitted, stop_sent]
  exact h.sublist

theorem ordered_step (h : Ordered d) (event : DeviceEvent) :
    Ordered (step env device trainer d event) := by
  have hsend : ∀ {id out}, d.phase = .trained id out →
      Ordered { d with phase := .uploaded id out, sent := d.sent ++ [(id, out)] } := by
    intro id out _
    exact h.sublist.append (List.Sublist.refl _)
  unfold step
  split
  · split
    · exact h.sublist
    · exact h
  · rename_i succeeds id out hphase
    cases succeeds with
    | true => exact hsend hphase
    | false => exact (hsend hphase).stop
  · rename_i id out hphase
    unfold Ordered at h
    rwa [hphase] at h
  · exact h.sublist
  · exact h.stop
  · rename_i id out hphase
    unfold Ordered at h
    rwa [hphase] at h
  · exact h.stop
  · have hstop := h.stop
    unfold Ordered at hstop ⊢
    exact hstop
  · exact h

/-- Nothing went wrong with a marker. -/
def Settled (d : Device) : Prop := d.unmarked = 0 ∧ d.lost = 0 ∧ d.missed = 0

theorem settled_step {event : DeviceEvent} (h : Settled d) (hquiet : Undisturbed device d event) :
    Settled (step env device trainer d event) := by
  unfold step
  split
  · rename_i id payload files hphase
    split
    · rename_i out hrun
      -- a job that ran has found no marker
      have hunmarked : out.result.roundId ∉ d.markers := fun hmem =>
        (run_checked hrun).2 (hquiet _ hmem)
      refine ⟨h.1, h.2.1, ?_⟩
      rw [if_neg hunmarked]
      exact h.2.2
    · exact h
  · obtain rfl := hquiet
    exact h
  · exact h
  · cases hquiet
  · cases hquiet
  · exact h
  · exact hquiet.elim
  · exact hquiet.elim
  · exact h

end

/-- In every run of a device's jobs, whatever fails and wherever the process ends or power is
lost: it sends a delta only for a round that the consent file listed when the job was run;
it sends a second one only after an upload that went without a marker, a marker that was
lost or a look that missed the marker; it submits a second result only after a marker was
lost or missed, and only results of uploads; and where nothing is disturbed it sends one
delta for each round. -/
theorem one_delta_per_round (env : Runner.RunEnv) (device : Runner.DeviceConfig)
    (trainer : Option Runner.LoraTrainer) (events : List DeviceEvent) :
    (∀ entry ∈ ((machine env device trainer).run .new events).sent,
      ∃ payload files, .job entry.1 payload files ∈ events ∧
        Runner.run env device trainer files payload = .ok entry.2 ∧
        Runner.consented env device files entry.2.result.roundId = .ok true) ∧
    (∀ round, ((machine env device trainer).run .new events).sends round ≤
      1 + ((machine env device trainer).run .new events).unmarked.count round +
        ((machine env device trainer).run .new events).lost.count round +
        ((machine env device trainer).run .new events).missed.count round) ∧
    (∀ round, ((machine env device trainer).run .new events).submissions round ≤
      1 + ((machine env device trainer).run .new events).lost.count round +
        ((machine env device trainer).run .new events).missed.count round) ∧
    ((machine env device trainer).run .new events).submitted.Sublist
      ((machine env device trainer).run .new events).sent ∧
    ((machine env device trainer).Along (Undisturbed device) .new events →
      ∀ round, ((machine env device trainer).run .new events).sends round ≤ 1) := by
  have hbalanced : Balanced ((machine env device trainer).run .new events) :=
    Machine.run_preserves Balanced (fun _ event h => balanced_step h event) balanced_new events
  have hnew : Ordered .new := List.Sublist.refl []
  have hordered : Ordered ((machine env device trainer).run .new events) :=
    Machine.run_preserves Ordered (fun _ event h => ordered_step h event) hnew events
  refine ⟨fun entry hentry => ?_, hbalanced.sends_le, hbalanced.submissions_le, hordered.sublist,
    fun hquiet round => ?_⟩
  · rcases holds_run (Or.inl hentry) with (hnone | hnone) | ⟨payload, files, hmem, hran⟩
    · cases hnone
    · cases hnone
    · exact ⟨payload, files, hmem, hran, (run_checked hran).1⟩
  · have hsettled : Settled ((machine env device trainer).run .new events) :=
      Machine.run_invariant Settled (fun _ _ h hevent => settled_step h hevent) ⟨rfl, rfl, rfl⟩ hquiet
    have hle := hbalanced.sends_le round
    rw [hsettled.1, hsettled.2.1, hsettled.2.2] at hle
    simpa using hle

section

variable {env : Runner.RunEnv} {device : Runner.DeviceConfig} {trainer : Option Runner.LoraTrainer}
  {files : Runner.Files} {payload : Json} {out : Runner.LoraRunOutput}

/-- The device is killed between upload and marker and handed the job again; it marks the
round, and a look at the marker that fails lets the job run a third time. -/
def disturbedRun (payload : Json) (files : Runner.Files) : List DeviceEvent :=
  [.job "a" payload files, .upload true, .crash,
    .job "a" payload files, .upload true, .mark .succeeds, .submit,
    .job "a" payload files, .upload true, .mark .succeeds, .submit]

theorem disturbedRun_ends (hrun : Runner.run env device trainer files payload = .ok out) :
    (machine env device trainer).run .new (disturbedRun payload files) =
      ⟨.idle, {out.result.roundId}, List.replicate 3 ("a", out), List.replicate 2 ("a", out),
        out.result.roundId ::ₘ 0, 0, out.result.roundId ::ₘ 0⟩ := by
  simp [disturbedRun, machine, step, Device.new, hrun, Device.stop, List.replicate]

end

/-- The bounds are reached: three deltas with one upload unmarked and one marker missed, and
two results. -/
theorem one_delta_per_round_killed :
    ((machine deviceEnv deviceAt (some deviceTrainer)).run .new
      (disturbedRun .null deviceFiles)).sends deviceOutput.result.roundId = 3 ∧
    ((machine deviceEnv deviceAt (some deviceTrainer)).run .new
      (disturbedRun .null deviceFiles)).submissions deviceOutput.result.roundId = 2 ∧
    (∀ entry ∈ ((machine deviceEnv deviceAt (some deviceTrainer)).run .new
      (disturbedRun .null deviceFiles)).sent, ∃ payload files,
        .job entry.1 payload files ∈ disturbedRun .null deviceFiles ∧
          Runner.run deviceEnv deviceAt (some deviceTrainer) files payload = .ok entry.2 ∧
          Runner.consented deviceEnv deviceAt files entry.2.result.roundId = .ok true) := by
  have hends := disturbedRun_ends run_device
  refine ⟨?_, ?_, (one_delta_per_round deviceEnv deviceAt (some deviceTrainer)
    (disturbedRun .null deviceFiles)).1⟩
  · rw [hends]
    simp [Device.sends]
  · rw [hends]
    simp [Device.submissions]

end FlExecutor
end Worker
end ComputePool
