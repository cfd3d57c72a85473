import ComputePool.Lib.Streak
import ComputePool.Worker.Corpus
import ComputePool.Worker.Merkle

/-!
# When a training run is abandoned

The loop of `NatJobRunner::run`: every step is trained and recorded, and every
`share_every` steps the share of each zone is sampled.  A zone whose share does not
rise above what the merge floor gives it is dead; the run is given up once a zone has
been dead for `dead_zone_patience` samples in a row.  The weights, their gradients
and the comparison of a share with the floor belong to the backend.
-/

namespace ComputePool
namespace Worker

open RustStd Federated Streak

variable {F32 F64 : Type}

/-- The fields of a payload that a run reads. -/
structure RunPayload extends TrainingJobPayload where
  modelStartHash : B32
  epoch : UInt32
  /-- Consecutive dead samples before the run is abandoned. -/
  deadZonePatience : Nat

/-- What a step leaves: the commitment to its gradients, and its weights. -/
structure StepResult where
  commitment : B32
  postWeightsHash : B32

/-- What a run asks of its backend. -/
structure ModelBackend (F32 F64 : Type) where
  loadStartingWeights : B32 → Except String B32
  /-- `forward_backward(prev, epoch, step, worker_shard)` -/
  forwardBackward : B32 → UInt32 → Nat → Nat → Except String StepResult
  /-- The merge weights on the fixed slice after a step; the dense arm has none. -/
  zoneMergeWeights : Nat → Except String (Option (List F32))
  floorShare : F64
  /-- `(share as f64) <= floor * 1.05` -/
  atFloor : F32 → F64 → Bool
  /-- The corpus's `data_quality`, as its raw `Q16`. -/
  dataQuality : Except String Int64

namespace ModelBackend

/-- The learned zones, in the order `AutoregConfig` declares them. -/
def ZONES : List String := ["SM", "CB", "HP", "PF", "CX"]

def zoneShares (b : ModelBackend F32 F64) (step : Nat) :
    Except String (Option (List (String × F32))) := do
  let weights ← b.zoneMergeWeights step
  pure (weights.map fun w => ZONES.zip w)

/-- "Dead" means indistinguishable from what the floor guarantees. -/
def dead (b : ModelBackend F32 F64) (share : F32) : Bool := b.atFloor share b.floorShare

end ModelBackend

inductive RunError (F32 F64 : Type) where
  | training (cause : String)
  | deadZone (zone : String) (share : F32) (floor : F64) (samples step : Nat)

structure StepRecord where
  step : Nat
  commitment : B32
  postWeights : B32

structure ShareSample (F32 : Type) where
  step : Nat
  shares : List (String × F32)

/-- The locals of the loop. -/
structure RunState (F32 : Type) where
  prev : B32
  steps : List StepRecord
  commits : List StepCommit
  shareTrace : List (ShareSample F32)
  /-- Consecutive dead samples, per zone. -/
  deadRun : String → Nat

structure TrainingJobResult (F32 : Type) where
  epoch : UInt32
  workerShard : Nat
  steps : List StepRecord
  epochRoot : B32
  finalWeights : B32
  dataQualityRaw : Int64
  shareTrace : List (ShareSample F32)

namespace NatJobRunner

variable (worker : H160) (b : ModelBackend F32 F64) (p : RunPayload)

/-- The loop over the zones of one sample. -/
def checkZones (step : Nat) :
    List (String × F32) → (String → Nat) → Except (RunError F32 F64) (String → Nat)
  | [], deadRun => .ok deadRun
  | (zone, share) :: rest, deadRun =>
      let run := if b.dead share then deadRun zone + 1 else 0
      if run ≥ p.deadZonePatience then
        .error (.deadZone zone share b.floorShare run step)
      else checkZones step rest (Function.update deadRun zone run)

/-- The sample due after a step, if one is due and the model has zones. -/
def sample (step : Nat) : Except String (Option (List (String × F32))) :=
  if p.shareEvery > 0 ∧ step % p.shareEvery = 0 then b.zoneShares step else .ok none

def runStep (s : RunState F32) (step : Nat) : Except (RunError F32 F64) (RunState F32) := do
  let result ← (b.forwardBackward s.prev p.epoch step p.workerShard).mapError .training
  let shares ← (sample b p step).mapError .training
  let deadRun ← checkZones b p step (shares.getD []) s.deadRun
  pure
    { prev := result.postWeightsHash
      steps := s.steps ++ [⟨step, result.commitment, result.postWeightsHash⟩]
      commits := s.commits ++ [⟨p.epoch, UInt32.ofNat step, worker, result.commitment, s.prev⟩]
      shareTrace := s.shareTrace ++ (shares.map (ShareSample.mk step)).toList
      deadRun := deadRun }

def runSteps (s : RunState F32) (step : Nat) : Nat → Except (RunError F32 F64) (RunState F32)
  | 0 => .ok s
  | todo + 1 => do
      let s ← runStep worker b p s step
      runSteps s (step + 1) todo

/-- A run, from the load of the starting weights. -/
def run (H : Hashes) : Except (RunError F32 F64) (TrainingJobResult F32) := do
  let prev ← (b.loadStartingWeights p.modelStartHash).mapError .training
  let s ← runSteps worker b p ⟨prev, [], [], [], fun _ => 0⟩ 0 p.steps
  let dataQuality ← b.dataQuality.mapError .training
  pure
    { epoch := p.epoch
      workerShard := p.workerShard
      steps := s.steps
      epochRoot := (Merkle.computeEpochRoot H s.commits).1
      finalWeights := s.prev
      dataQualityRaw := dataQuality
      shareTrace := s.shareTrace }

/-! ## What a run has seen -/

/-- The weights before step `n`. -/
def weightsBefore : Nat → Except String B32
  | 0 => b.loadStartingWeights p.modelStartHash
  | n + 1 => do
      let prev ← weightsBefore n
      let result ← b.forwardBackward prev p.epoch n p.workerShard
      pure result.postWeightsHash

/-- The sample taken after a step. -/
def sampled (step : Nat) : Option (List (String × F32)) := (sample b p step).toOption.join

/-- The first `n` steps train, and the samples due after them are read. -/
def Trained (n : Nat) : Prop :=
  (∃ weights, weightsBefore b p n = .ok weights) ∧
    ∀ step < n, ∃ shares, sample b p step = .ok shares

/-- At the sample after this step the zone has been dead in each of its last
`dead_zone_patience` samples, and in at least one. -/
def DeadFor (zone : String) (step : Nat) : Prop :=
  (∃ share, (sampled b p step).bind (List.lookup zone) = some share) ∧
    max 1 p.deadZonePatience ≤ (traceOf (sampled b p) zone (step + 1)).length ∧
      ∀ share ∈ (traceOf (sampled b p) zone (step + 1)).rtake (max 1 p.deadZonePatience),
        b.dead share = true

/-- The first sample of a run at which some zone has been dead for long enough. -/
def FirstDead (step : Nat) : Prop :=
  step < p.steps ∧ Trained b p (step + 1) ∧ (∃ zone, DeadFor b p zone step) ∧
    ∀ earlier < step, ∀ zone, ¬ DeadFor b p zone earlier

/-- A run ended for this zone, by its share after this step. -/
def AbandonedFor (r : Except (RunError F32 F64) (TrainingJobResult F32)) (zone : String)
    (share : F32) (step : Nat) : Prop :=
  ∃ samples, r = .error (.deadZone zone share b.floorShare samples step)

/-- A run is abandoned at the first sample at which a zone has been dead for long
enough, and for a zone which is dead in that sample. -/
def AbandonsTheDead (H : Hashes) : Prop :=
  (∀ step, (∃ zone share, AbandonedFor b (run worker b p H) zone share step) ↔
      FirstDead b p step) ∧
    ∀ zone share step, AbandonedFor b (run worker b p H) zone share step →
      b.dead share = true

/-- The first sample of a run that lists any zone. -/
def FirstSample (step : Nat) (shares : List (String × F32)) : Prop :=
  step < p.steps ∧ Trained b p (step + 1) ∧ sampled b p step = some shares ∧ shares ≠ [] ∧
    ∀ earlier < step, ∀ shares', sampled b p earlier = some shares' → shares' = []

/-! ## One sample -/

variable {worker b p}

theorem sampled_of_sample {step : Nat} {shares : Option (List (String × F32))}
    (h : sample b p step = .ok shares) : sampled b p step = shares := by
  unfold sampled
  rw [h]
  cases shares <;> rfl

/-- A sample lists a zone once. -/
theorem sampled_nodup {step : Nat} {shares : List (String × F32)}
    (h : sampled b p step = some shares) : (shares.map Prod.fst).Nodup := by
  have hzip : ∃ w, shares = ModelBackend.ZONES.zip w := by
    unfold sampled sample ModelBackend.zoneShares at h
    split at h
    · cases hw : b.zoneMergeWeights step with
      | error e =>
          rw [hw] at h
          cases h
      | ok weights =>
          rw [hw] at h
          cases weights with
          | none => cases h
          | some w => exact ⟨w, (Option.some.inj h).symm⟩
    · cases h
  obtain ⟨w, rfl⟩ := hzip
  have hnodup : ModelBackend.ZONES.Nodup := by decide
  rw [List.zip_eq_zip_take_min, List.map_fst_zip (by simp)]
  exact hnodup.sublist (List.take_sublist _ _)

/-- The counter of a zone after a sample of it. -/
def counted (b : ModelBackend F32 F64) (deadRun : String → Nat) (entry : String × F32) : Nat :=
  if b.dead entry.2 then deadRun entry.1 + 1 else 0

theorem checkZones_cons {step : Nat} {first : String × F32} {rest : List (String × F32)}
    {deadRun : String → Nat} :
    checkZones b p step (first :: rest) deadRun =
      if counted b deadRun first ≥ p.deadZonePatience then
        .error (.deadZone first.1 first.2 b.floorShare (counted b deadRun first) step)
      else checkZones b p step rest
        (Function.update deadRun first.1 (counted b deadRun first)) := rfl

/-- An update of one zone does not change what is counted for another. -/
theorem counted_update {deadRun : String → Nat} {zone : String} {run : Nat}
    {entry : String × F32} (hne : entry.1 ≠ zone) :
    counted b (Function.update deadRun zone run) entry = counted b deadRun entry := by
  unfold counted
  rw [Function.update_of_ne hne]

/-- The run is given up for the first zone whose counter has reached the patience. -/
theorem checkZones_fires {step : Nat} {shares : List (String × F32)} {deadRun : String → Nat}
    {entry : String × F32} (hnodup : (shares.map Prod.fst).Nodup)
    (h : shares.find? (fun e => decide (counted b deadRun e ≥ p.deadZonePatience)) = some entry) :
    checkZones b p step shares deadRun =
      .error (.deadZone entry.1 entry.2 b.floorShare (counted b deadRun entry) step) := by
  induction shares generalizing deadRun with
  | nil => cases h
  | cons first rest ih =>
      have ⟨hnot, hrest⟩ := List.nodup_cons.mp hnodup
      by_cases hreach : counted b deadRun first ≥ p.deadZonePatience
      · simp only [List.find?_cons, decide_eq_true hreach] at h
        cases h
        exact if_pos hreach
      · simp only [List.find?_cons, decide_eq_false hreach] at h
        have hother : ∀ e ∈ rest, e.1 ≠ first.1 := fun e he heq =>
          hnot (heq ▸ List.mem_map_of_mem he)
        have hin := List.mem_of_find?_eq_some h
        rw [checkZones_cons, if_neg hreach, ih hrest, counted_update (hother entry hin)]
        rw [← h]
        refine List.find?_congr fun e he => ?_
        rw [counted_update (hother e he)]

/-- Otherwise every zone of the sample is counted, and the others keep their counter. -/
theorem checkZones_passes {step : Nat} {shares : List (String × F32)} {deadRun : String → Nat}
    (hnodup : (shares.map Prod.fst).Nodup)
    (h : shares.find? (fun e => decide (counted b deadRun e ≥ p.deadZonePatience)) = none) :
    ∃ deadRun', checkZones b p step shares deadRun = .ok deadRun' ∧
      ∀ zone, deadRun' zone =
        ((shares.lookup zone).map fun share => counted b deadRun (zone, share)).getD
          (deadRun zone) := by
  induction shares generalizing deadRun with
  | nil => exact ⟨deadRun, rfl, fun zone => rfl⟩
  | cons first rest ih =>
      have ⟨hnot, hrest⟩ := List.nodup_cons.mp hnodup
      have hreach : ¬ counted b deadRun first ≥ p.deadZonePatience := by
        simpa using List.find?_eq_none.mp h first (List.mem_cons_self ..)
      have hother : ∀ e ∈ rest, e.1 ≠ first.1 := fun e he heq =>
        hnot (heq ▸ List.mem_map_of_mem he)
      have hnext : rest.find? (fun e =>
          decide (counted b (Function.update deadRun first.1 (counted b deadRun first)) e ≥
            p.deadZonePatience)) = none := by
        refine List.find?_eq_none.mpr fun e he => ?_
        rw [counted_update (hother e he)]
        exact List.find?_eq_none.mp h e (List.mem_cons_of_mem _ he)
      have ⟨deadRun', hcheck, hcount⟩ := ih hrest hnext
      refine ⟨deadRun', ?_, fun zone => ?_⟩
      · rw [checkZones_cons, if_neg hreach]
        exact hcheck
      · rw [hcount zone]
        obtain ⟨name, share⟩ := first
        by_cases heq : zone = name
        · subst heq
          have hgone : rest.lookup zone = none := by
            refine List.lookup_eq_none_iff.mpr fun e he => ?_
            simpa using (hother e he).symm
          rw [hgone, List.lookup_cons_self]
          exact Function.update_self ..
        · rw [List.lookup_cons, beq_eq_false_iff_ne.mpr heq, Function.update_of_ne heq]
          cases rest.lookup zone with
          | none => rfl
          | some share' =>
              have hne : (zone, share').1 ≠ name := heq
              exact counted_update hne

/-- The zone a run is given up for after a step, from the samples so far. -/
def fires (b : ModelBackend F32 F64) (p : RunPayload) (step : Nat) : Option (String × F32) :=
  ((sampled b p step).getD []).find? fun entry =>
    decide (streak b.dead (traceOf (sampled b p) entry.1 (step + 1)) ≥ p.deadZonePatience)

/-! ## One step -/

/-- Before step `n` the run holds the weights of the steps done, and for each zone how
often it has just been dead. -/
structure At (b : ModelBackend F32 F64) (p : RunPayload) (n : Nat) (s : RunState F32) : Prop where
  prev : weightsBefore b p n = .ok s.prev
  deadRun : ∀ zone, s.deadRun zone = streak b.dead (traceOf (sampled b p) zone n)

/-- A counter stays within the number of steps, and so within its 32 bits. -/
theorem At.deadRun_le {n : Nat} {s : RunState F32} (hat : At b p n s) (zone : String) :
    s.deadRun zone ≤ n := by
  rw [hat.deadRun zone]
  exact (streak_le_length _ _).trans (traceOf_length_le _ _ _)

theorem Trained.mono {m n : Nat} (hle : m ≤ n) (h : Trained b p n) : Trained b p m := by
  refine ⟨?_, fun step hstep => h.2 step (by omega)⟩
  obtain ⟨d, rfl⟩ := Nat.exists_eq_add_of_le hle
  have ⟨weights, hweights⟩ := h.1
  clear h hle
  induction d generalizing weights with
  | zero => exact ⟨weights, hweights⟩
  | succ d ih =>
      rw [← Nat.add_assoc, weightsBefore] at hweights
      cases hprev : weightsBefore b p (m + d) with
      | error e =>
          rw [hprev] at hweights
          cases hweights
      | ok prev => exact ih prev hprev

theorem lookup_getD (shares : Option (List (String × F32))) (zone : String) :
    (shares.getD []).lookup zone = shares.bind (List.lookup zone) := by
  cases shares <;> rfl

/-- What is counted for a sampled zone is how often it has just been dead. -/
theorem At.counted_eq {n : Nat} {s : RunState F32} (hat : At b p n s) {zone : String}
    {share : F32} (h : (sampled b p n).bind (List.lookup zone) = some share) :
    counted b s.deadRun (zone, share) = streak b.dead (traceOf (sampled b p) zone (n + 1)) := by
  rw [traceOf_succ, h, Option.toList_some, streak_concat, ← hat.deadRun zone]
  rfl

theorem At.counted_entry {n : Nat} {s : RunState F32} (hat : At b p n s) {entry : String × F32}
    (hin : entry ∈ (sampled b p n).getD []) :
    counted b s.deadRun entry =
      streak b.dead (traceOf (sampled b p) entry.1 (n + 1)) := by
  cases hshares : sampled b p n with
  | none =>
      rw [hshares] at hin
      cases hin
  | some shares =>
      rw [hshares] at hin
      refine hat.counted_eq ?_
      rw [hshares]
      exact lookup_of_mem (sampled_nodup hshares) hin

theorem getD_nodup (n : Nat) : (((sampled b p n).getD []).map Prod.fst).Nodup := by
  cases hshares : sampled b p n with
  | none => exact List.nodup_nil
  | some shares => exact sampled_nodup hshares

theorem At.find_eq {n : Nat} {s : RunState F32} (hat : At b p n s) :
    ((sampled b p n).getD []).find? (fun e =>
      decide (counted b s.deadRun e ≥ p.deadZonePatience)) = fires b p n := by
  refine List.find?_congr fun e he => ?_
  rw [hat.counted_entry he]

/-- A step whose training or sample fails ends the run, and not for a zone. -/
theorem runStep_stops {n : Nat} {s : RunState F32} (hat : At b p n s) (htr : Trained b p n)
    (hnot : ¬ Trained b p (n + 1)) :
    ∃ cause, runStep worker b p s n = .error (.training cause) := by
  unfold runStep
  cases hstep : b.forwardBackward s.prev p.epoch n p.workerShard with
  | error e => exact ⟨e, rfl⟩
  | ok result =>
      cases hsample : sample b p n with
      | error e => exact ⟨e, rfl⟩
      | ok shares =>
          refine absurd ⟨⟨result.postWeightsHash, ?_⟩, fun step hlt => ?_⟩ hnot
          · rw [weightsBefore, hat.prev]
            show (b.forwardBackward s.prev p.epoch n p.workerShard >>= _) = _
            rw [hstep]
            rfl
          · rcases Nat.lt_succ_iff_lt_or_eq.mp hlt with hlt | rfl
            · exact htr.2 step hlt
            · exact ⟨shares, hsample⟩

/-- What a step that trains does with its sample. -/
theorem runStep_trained {n : Nat} {s : RunState F32} (hat : At b p n s)
    (htr : Trained b p (n + 1)) :
    ∃ result : StepResult, weightsBefore b p (n + 1) = .ok result.postWeightsHash ∧
      runStep worker b p s n =
        (checkZones b p n ((sampled b p n).getD []) s.deadRun).map fun deadRun =>
          { prev := result.postWeightsHash
            steps := s.steps ++ [⟨n, result.commitment, result.postWeightsHash⟩]
            commits := s.commits ++
              [⟨p.epoch, UInt32.ofNat n, worker, result.commitment, s.prev⟩]
            shareTrace := s.shareTrace ++ ((sampled b p n).map (ShareSample.mk n)).toList
            deadRun := deadRun } := by
  have ⟨⟨weights, hweights⟩, hsamples⟩ := htr
  have ⟨shares, hsample⟩ := hsamples n (Nat.lt_succ_self n)
  rw [weightsBefore, hat.prev] at hweights
  cases hstep : b.forwardBackward s.prev p.epoch n p.workerShard with
  | error e =>
      replace hweights : (b.forwardBackward s.prev p.epoch n p.workerShard >>= _) = _ := hweights
      rw [hstep] at hweights
      cases hweights
  | ok result =>
      refine ⟨result, ?_, ?_⟩
      · rw [weightsBefore, hat.prev]
        show (b.forwardBackward s.prev p.epoch n p.workerShard >>= _) = _
        rw [hstep]
        rfl
      · unfold runStep
        rw [hstep, hsample, sampled_of_sample hsample]
        show (checkZones b p n (shares.getD []) s.deadRun >>= _) = _
        cases checkZones b p n (shares.getD []) s.deadRun <;> rfl

theorem runStep_abandons {n : Nat} {s : RunState F32} (hat : At b p n s)
    (htr : Trained b p (n + 1)) {entry : String × F32} (hfires : fires b p n = some entry) :
    runStep worker b p s n =
      .error (.deadZone entry.1 entry.2 b.floorShare (counted b s.deadRun entry) n) := by
  have ⟨result, _, hrun⟩ := @runStep_trained F32 F64 worker b p n s hat htr
  rw [← hat.find_eq] at hfires
  rw [hrun, checkZones_fires (getD_nodup n) hfires]
  rfl

theorem runStep_goes {n : Nat} {s : RunState F32} (hat : At b p n s)
    (htr : Trained b p (n + 1)) (hfires : fires b p n = none) :
    ∃ s', runStep worker b p s n = .ok s' ∧ At b p (n + 1) s' := by
  have ⟨result, hweights, hrun⟩ := @runStep_trained F32 F64 worker b p n s hat htr
  rw [← hat.find_eq] at hfires
  have ⟨deadRun, hcheck, hcount⟩ :=
    @checkZones_passes F32 F64 b p n _ s.deadRun (getD_nodup n) hfires
  rw [hcheck] at hrun
  refine ⟨_, hrun, hweights, fun zone => ?_⟩
  show deadRun zone = _
  rw [hcount zone, lookup_getD]
  cases hlook : (sampled b p n).bind (List.lookup zone) with
  | none =>
      rw [traceOf_succ, hlook, Option.toList_none, List.append_nil]
      exact hat.deadRun zone
  | some share => exact hat.counted_eq hlook

/-! ## The whole run -/

/-- From step `n` on the run is given up at the first step that fires. -/
theorem runSteps_abandoned_iff {todo n : Nat} {s : RunState F32} (hat : At b p n s)
    (htr : Trained b p n) (zone : String) (share : F32) (step : Nat) :
    (∃ samples, runSteps worker b p s n todo =
        .error (.deadZone zone share b.floorShare samples step)) ↔
      n ≤ step ∧ step < n + todo ∧ Trained b p (step + 1) ∧
        fires b p step = some (zone, share) ∧
        ∀ earlier, n ≤ earlier → earlier < step → fires b p earlier = none := by
  induction todo generalizing n s with
  | zero =>
      constructor
      · rintro ⟨samples, h⟩
        cases h
      · rintro ⟨hle, hlt, _⟩
        omega
  | succ todo ih =>
      rw [runSteps]
      by_cases hnext : Trained b p (n + 1)
      · cases hfires : fires b p n with
        | some entry =>
            rw [runStep_abandons hat hnext hfires]
            constructor
            · rintro ⟨samples, h⟩
              cases h
              exact ⟨le_rfl, by omega, hnext, hfires, fun earlier hle hlt => by omega⟩
            · rintro ⟨hle, _, _, hat_step, hearlier⟩
              rcases hle.lt_or_eq with hlt | rfl
              · rw [hearlier n le_rfl hlt] at hfires
                cases hfires
              · rw [hat_step] at hfires
                cases hfires
                exact ⟨_, rfl⟩
        | none =>
            have ⟨s', hrun, hat'⟩ := @runStep_goes F32 F64 worker b p n s hat hnext hfires
            rw [hrun]
            show (∃ samples, runSteps worker b p s' (n + 1) todo = _) ↔ _
            rw [ih hat' hnext]
            constructor
            · rintro ⟨hle, hlt, htrained, hat_step, hearlier⟩
              refine ⟨by omega, by omega, htrained, hat_step, fun earlier hfrom hto => ?_⟩
              rcases hfrom.lt_or_eq with hfrom | rfl
              · exact hearlier earlier hfrom hto
              · exact hfires
            · rintro ⟨hle, hlt, htrained, hat_step, hearlier⟩
              have hne : n ≠ step := by
                rintro rfl
                rw [hfires] at hat_step
                cases hat_step
              exact ⟨by omega, by omega, htrained, hat_step, fun earlier hfrom hto =>
                hearlier earlier (by omega) hto⟩
      · have ⟨cause, hrun⟩ := @runStep_stops F32 F64 worker b p n s hat htr hnext
        rw [hrun]
        constructor
        · rintro ⟨samples, h⟩
          cases h
        · rintro ⟨hle, _, htrained, _⟩
          exact absurd (htrained.mono (by omega)) hnext

theorem run_abandoned_iff (H : Hashes) (zone : String) (share : F32) (step : Nat) :
    AbandonedFor b (run worker b p H) zone share step ↔
      step < p.steps ∧ Trained b p (step + 1) ∧ fires b p step = some (zone, share) ∧
        ∀ earlier < step, fires b p earlier = none := by
  unfold AbandonedFor run
  cases hload : b.loadStartingWeights p.modelStartHash with
  | error e =>
      constructor
      · rintro ⟨samples, h⟩
        cases h
      · rintro ⟨_, htrained, _⟩
        have ⟨weights, h⟩ := (htrained.mono (Nat.zero_le _)).1
        rw [weightsBefore, hload] at h
        cases h
  | ok prev =>
      have hat : At b p 0 (⟨prev, [], [], [], fun _ => 0⟩ : RunState F32) :=
        ⟨hload, fun zone => rfl⟩
      have htr : Trained b p 0 := ⟨⟨prev, hload⟩, fun step hlt => absurd hlt (Nat.not_lt_zero _)⟩
      have hsteps := @runSteps_abandoned_iff F32 F64 worker b p p.steps 0 _ hat htr zone share step
      rw [Nat.zero_add] at hsteps
      simp only [Nat.zero_le, true_and, forall_const] at hsteps
      rw [← hsteps]
      refine exists_congr fun samples => ?_
      show (runSteps worker b p ⟨prev, [], [], [], fun _ => 0⟩ 0 p.steps >>= _) = _ ↔ _
      cases runSteps worker b p ⟨prev, [], [], [], fun _ => 0⟩ 0 p.steps with
      | error e =>
          constructor
          · intro h
            cases h
            rfl
          · intro h
            cases h
            rfl
      | ok s =>
          -- the corpus may still be unreadable, which is not for a zone
          refine iff_of_false (fun h => ?_) (fun h => by cases h)
          replace h : (b.dataQuality.mapError RunError.training >>= _) = _ := h
          cases hquality : b.dataQuality with
          | error e =>
              rw [hquality] at h
              cases h
          | ok quality =>
              rw [hquality] at h
              cases h

theorem deadFor_iff {zone : String} {step : Nat} :
    DeadFor b p zone step ↔
      (∃ share, (sampled b p step).bind (List.lookup zone) = some share) ∧
        max 1 p.deadZonePatience ≤ streak b.dead (traceOf (sampled b p) zone (step + 1)) := by
  unfold DeadFor
  rw [le_streak_iff]

/-- A zone which has just been dead is dead in the sample. -/
theorem dead_of_streak {zone : String} {share : F32} {step : Nat}
    (hshare : (sampled b p step).bind (List.lookup zone) = some share)
    (h : 1 ≤ streak b.dead (traceOf (sampled b p) zone (step + 1))) : b.dead share = true := by
  rw [traceOf_succ, hshare, Option.toList_some, streak_concat] at h
  by_contra hdead
  rw [if_neg hdead] at h
  omega

theorem lookup_of_fires {step : Nat} {entry : String × F32} (h : fires b p step = some entry) :
    (sampled b p step).bind (List.lookup entry.1) = some entry.2 := by
  rw [← lookup_getD]
  exact lookup_of_mem (getD_nodup step) (List.mem_of_find?_eq_some h)

theorem streak_of_fires {step : Nat} {entry : String × F32} (h : fires b p step = some entry) :
    p.deadZonePatience ≤ streak b.dead (traceOf (sampled b p) entry.1 (step + 1)) := by
  simpa using List.find?_some h

/-- A zone which has been dead for long enough makes the sample fire. -/
theorem fires_of_deadFor {zone : String} {step : Nat} (h : DeadFor b p zone step) :
    fires b p step ≠ none := by
  have ⟨⟨share, hshare⟩, hstreak⟩ := deadFor_iff.mp h
  intro hnone
  rw [← lookup_getD] at hshare
  have hin : (zone, share) ∈ (sampled b p step).getD [] := by
    have ⟨before, after, hsplit, _⟩ := List.lookup_eq_some_iff.mp hshare
    rw [hsplit]
    simp
  have hquiet := List.find?_eq_none.mp hnone _ hin
  simp only [decide_eq_true_eq] at hquiet
  omega

theorem deadFor_of_fires {step : Nat} {entry : String × F32} (h : fires b p step = some entry)
    (hdead : 1 ≤ streak b.dead (traceOf (sampled b p) entry.1 (step + 1))) :
    DeadFor b p entry.1 step :=
  deadFor_iff.mpr ⟨⟨entry.2, lookup_of_fires h⟩, max_le hdead (streak_of_fires h)⟩

/-- With no patience at all any sample fires, for the first zone it lists. -/
theorem fires_of_zero (hzero : p.deadZonePatience = 0) (step : Nat) :
    fires b p step = ((sampled b p step).getD []).head? := by
  unfold fires
  cases (sampled b p step).getD [] with
  | nil => rfl
  | cons first rest => exact List.find?_cons_of_pos (by simp [hzero])

/-- A run abandoned for a dead zone is abandoned after that zone has been dead for
long enough. -/
theorem deadFor_of_dead {step : Nat} {entry : String × F32} (h : fires b p step = some entry)
    (hdead : b.dead entry.2 = true) : DeadFor b p entry.1 step := by
  refine deadFor_of_fires h ?_
  rw [traceOf_succ, lookup_of_fires h, Option.toList_some, streak_concat, if_pos hdead]
  omega

/-- A run which is only ever abandoned for a dead zone is abandoned in time. -/
theorem abandonsTheDead_of (H : Hashes)
    (h : ∀ zone share step, AbandonedFor b (run worker b p H) zone share step →
      b.dead share = true) : AbandonsTheDead worker b p H := by
  refine ⟨fun step => ⟨?_, ?_⟩, h⟩
  · rintro ⟨zone, share, habandoned⟩
    have ⟨hlt, htrained, hfires, hearlier⟩ := (run_abandoned_iff H zone share step).mp habandoned
    have hdead := h zone share step habandoned
    exact ⟨hlt, htrained, ⟨zone, deadFor_of_dead hfires hdead⟩, fun earlier hbefore zone' hd =>
      fires_of_deadFor hd (hearlier earlier hbefore)⟩
  · rintro ⟨hlt, htrained, ⟨zone, hlong⟩, hnone⟩
    -- the first step that fires would have been abandoned for a dead zone
    have hquiet : ∀ earlier < step, fires b p earlier = none := by
      intro earlier
      induction earlier using Nat.strong_induction_on with
      | _ earlier ih =>
          intro hbefore
          by_contra hsome
          obtain ⟨entry, hfires⟩ := Option.ne_none_iff_exists'.mp hsome
          have habandoned : AbandonedFor b (run worker b p H) entry.1 entry.2 earlier :=
            (run_abandoned_iff H _ _ earlier).mpr
              ⟨by omega, htrained.mono (by omega), hfires, fun e he => ih e he (by omega)⟩
          exact hnone earlier hbefore entry.1 (deadFor_of_dead hfires (h _ _ _ habandoned))
    obtain ⟨entry, hfires⟩ := Option.ne_none_iff_exists'.mp (fires_of_deadFor hlong)
    exact ⟨entry.1, entry.2,
      (run_abandoned_iff H _ _ step).mpr ⟨hlt, htrained, hfires, hquiet⟩⟩

/-- With no patience the run is abandoned for the first zone of its first sample. -/
theorem abandonedFor_iff_firstSample (H : Hashes) (hzero : p.deadZonePatience = 0)
    (zone : String) (share : F32) (step : Nat) :
    AbandonedFor b (run worker b p H) zone share step ↔
      ∃ rest, FirstSample b p step ((zone, share) :: rest) := by
  have hnone : ∀ s, fires b p s = none ↔ ∀ shares, sampled b p s = some shares → shares = [] := by
    intro s
    rw [fires_of_zero hzero, List.head?_eq_none_iff]
    cases sampled b p s <;> simp
  have hsome : fires b p step = some (zone, share) ↔
      ∃ rest, sampled b p step = some ((zone, share) :: rest) := by
    rw [fires_of_zero hzero, List.head?_eq_some_iff]
    cases sampled b p step <;> simp
  rw [run_abandoned_iff, hsome]
  simp only [hnone]
  constructor
  · rintro ⟨hlt, htrained, ⟨rest, hrest⟩, hearlier⟩
    exact ⟨rest, hlt, htrained, hrest, List.cons_ne_nil _ _, hearlier⟩
  · rintro ⟨rest, hlt, htrained, hrest, _, hearlier⟩
    exact ⟨hlt, htrained, ⟨rest, hrest⟩, hearlier⟩

/-- A run is abandoned exactly for its dead zones if it has any patience at all; without,
it stops at its first sample, dead or not. -/
theorem abandonsTheDead_iff (worker : H160) (b : ModelBackend F32 F64) (p : RunPayload)
    (H : Hashes) :
    AbandonsTheDead worker b p H ↔
      1 ≤ p.deadZonePatience ∨
        ∀ step zone share rest, FirstSample b p step ((zone, share) :: rest) →
          b.dead share = true := by
  constructor
  · intro hlaw
    rcases Nat.eq_zero_or_pos p.deadZonePatience with hzero | hpos
    · refine .inr fun step zone share rest hfirst => ?_
      exact hlaw.2 zone share step
        ((abandonedFor_iff_firstSample H hzero zone share step).mpr ⟨rest, hfirst⟩)
    · exact .inl hpos
  · intro hcondition
    refine abandonsTheDead_of H fun zone share step habandoned => ?_
    rcases Nat.eq_zero_or_pos p.deadZonePatience with hzero | hpos
    · have ⟨rest, hfirst⟩ :=
        (abandonedFor_iff_firstSample H hzero zone share step).mp habandoned
      rcases hcondition with hpos | hdead
      · omega
      · exact hdead step zone share rest hfirst
    · have ⟨_, _, hfires, _⟩ := (run_abandoned_iff H zone share step).mp habandoned
      have hshare : (sampled b p step).bind (List.lookup zone) = some share :=
        lookup_of_fires hfires
      have hstreak : p.deadZonePatience ≤ _ := streak_of_fires hfires
      exact dead_of_streak hshare (Nat.le_trans hpos hstreak)

/-- A backend whose five zones stay well above the floor. -/
def liveBackend : ModelBackend Nat Nat where
  loadStartingWeights w := .ok w
  forwardBackward w _ _ _ := .ok ⟨w, w⟩
  zoneMergeWeights _ := .ok (some [20, 20, 20, 20, 20])
  floorShare := 4
  atFloor share floor := decide (share ≤ floor)
  dataQuality := .ok 0

/-- One step, sampled, and no patience. -/
def impatient : RunPayload := ⟨⟨1, 0, 1, 1⟩, FixedBytes.zero, 0, 0⟩

/-- The run is abandoned for a zone that is alive. -/
theorem impatient_run_abandons_a_live_zone :
    ¬ AbandonsTheDead FixedBytes.zero liveBackend impatient ⟨fun _ => FixedBytes.zero,
      fun _ => FixedBytes.zero⟩ := by
  intro hlaw
  have hfirst : FirstSample liveBackend impatient 0
      (("SM", 20) :: [("CB", 20), ("HP", 20), ("PF", 20), ("CX", 20)]) := by
    refine ⟨by decide, ⟨⟨_, rfl⟩, fun step hlt => ?_⟩, rfl, by simp, fun earlier hlt => by omega⟩
    have hstep : step = 0 := by omega
    subst hstep
    exact ⟨_, rfl⟩
  have hdead := hlaw.2 "SM" 20 0
    ((abandonedFor_iff_firstSample _ rfl "SM" 20 0).mpr ⟨_, hfirst⟩)
  cases hdead

end NatJobRunner

end Worker
end ComputePool
