import ComputePool.Lib.Arc
import ComputePool.Rust.Integer

/-!
# Which shards of the corpus a worker reads

`shard_slice_for` of `nat_backend.rs`, and the two places which use it: the staging
of a training job and the reads of its run.  A slice is an arc of the corpus; where
it starts depends on the worker and on the step.
-/

namespace ComputePool
namespace Worker

open RustStd

/-- Which manifest positions a given (step, worker_shard) reads. -/
def shardSliceFor (total shardsPerStep step workerShard : Nat) : List Nat :=
  if total = 0 then []
  else
    let want := min shardsPerStep total
    let offset :=
      wrapAdd64 (wrapMul64 workerShard 0x9E3779B9) (wrapMul64 step (total / max want 1 + 1)) % total
    (List.range want).map fun i => (offset + i) % total

/-! ## Two workers at one step -/

/-- Any two of the first `workers` workers read different positions at this step. -/
def WorkersDisjoint (total shardsPerStep step workers : Nat) : Prop :=
  ∀ a < workers, ∀ b < workers, a ≠ b →
    List.Disjoint (shardSliceFor total shardsPerStep step a)
      (shardSliceFor total shardsPerStep step b)

/-- The multiples of the constant, shifted by the step and wrapped at 64 bits, are
at least a slice apart modulo the size of the corpus. -/
def OffsetsApart (total shardsPerStep step workers : Nat) : Prop :=
  let shift := step * (total / max (min shardsPerStep total) 1 + 1)
  ∀ a < workers, ∀ b < workers, a ≠ b →
    min shardsPerStep total ≤
      Arc.gap total ((a * 0x9E3779B9 + shift) % 2 ^ 64 % total)
        ((b * 0x9E3779B9 + shift) % 2 ^ 64 % total)

theorem shardSliceFor_eq_arc {total : Nat} (htotal : total ≠ 0) (shardsPerStep step w : Nat) :
    shardSliceFor total shardsPerStep step w =
      Arc.arc total
        ((w * 0x9E3779B9 + step * (total / max (min shardsPerStep total) 1 + 1)) % 2 ^ 64 % total)
        (min shardsPerStep total) := by
  unfold shardSliceFor Arc.arc wrapAdd64 wrapMul64
  rw [if_neg htotal]
  dsimp only
  rw [← Nat.add_mod]

/-- The slices of a step are disjoint exactly where the starts are a slice apart. -/
theorem workersDisjoint_iff (total shardsPerStep step workers : Nat) :
    WorkersDisjoint total shardsPerStep step workers ↔
      OffsetsApart total shardsPerStep step workers := by
  unfold WorkersDisjoint OffsetsApart
  by_cases htotal : total = 0
  · -- there is nothing to read
    subst htotal
    simp [shardSliceFor]
  · have hpos : 0 < total := Nat.pos_of_ne_zero htotal
    dsimp only
    constructor
    · intro h a ha b hb hne
      have hdisjoint := h a ha b hb hne
      rw [shardSliceFor_eq_arc htotal, shardSliceFor_eq_arc htotal,
        Arc.disjoint_iff (Nat.mod_lt _ hpos) (Nat.mod_lt _ hpos) (Nat.min_le_right _ _)]
        at hdisjoint
      exact hdisjoint.1
    · intro h a ha b hb hne
      rw [shardSliceFor_eq_arc htotal, shardSliceFor_eq_arc htotal,
        Arc.disjoint_iff (Nat.mod_lt _ hpos) (Nat.mod_lt _ hpos) (Nat.min_le_right _ _)]
      exact ⟨h a ha b hb hne, h b hb a ha hne.symm⟩

/-- Where nothing wraps at 64 bits the step does not matter: what counts is where the
multiples of the constant fall in the corpus. -/
theorem offsetsApart_iff_multiples {total shardsPerStep step workers : Nat}
    (htotal : 0 < total)
    (hwrap : workers * 0x9E3779B9 + step * (total / max (min shardsPerStep total) 1 + 1) < 2 ^ 64) :
    OffsetsApart total shardsPerStep step workers ↔
      ∀ d, 0 < d → d < workers →
        min shardsPerStep total ≤ d * 0x9E3779B9 % total ∧
          d * 0x9E3779B9 % total + min shardsPerStep total ≤ total :=
  Arc.gaps_iff_multiples htotal hwrap

/-- Of four shards two workers could read two each, and do not: the second starts in
the middle of the first one's slice. -/
theorem two_workers_overlap :
    2 * min 2 4 ≤ 4 ∧ ¬ WorkersDisjoint 4 2 0 2 := by
  refine ⟨by decide, fun h => ?_⟩
  have hdisjoint := h 0 (by decide) 1 (by decide) (by decide)
  have hfirst : 1 ∈ shardSliceFor 4 2 0 0 := by decide
  have hsecond : 1 ∈ shardSliceFor 4 2 0 1 := by decide
  exact hdisjoint hfirst hsecond

/-! ## One worker over a run of steps -/

/-- No position of a slice is outside the manifest. -/
theorem shardSliceFor_lt {total shardsPerStep step w idx : Nat}
    (h : idx ∈ shardSliceFor total shardsPerStep step w) : idx < total := by
  unfold shardSliceFor at h
  split at h
  · cases h
  · rename_i htotal
    have ⟨i, _, hi⟩ := List.mem_map.mp h
    rw [← hi]
    exact Nat.mod_lt _ (Nat.pos_of_ne_zero htotal)

/-- The stride has little in common with the size of the corpus. -/
theorem gcd_stride_le {total want : Nat} (hwant : 0 < want) :
    (total / want + 1).gcd total ≤ want := by
  have hsplit := Nat.div_add_mod total want
  have hlt := Nat.mod_lt total hwant
  have hmultiple : want * (total / want + 1) = total + (want - total % want) := by
    rw [Nat.mul_add, Nat.mul_one]
    omega
  have hdvd : (total / want + 1).gcd total ∣ want - total % want := by
    rw [← Nat.dvd_add_right (Nat.gcd_dvd_right (total / want + 1) total), ← hmultiple]
    exact Dvd.dvd.mul_left (Nat.gcd_dvd_left _ _) want
  have hle := Nat.le_of_dvd (by omega) hdvd
  omega

/-- Nothing wraps below `2 ^ 31` steps of a corpus of fewer than `2 ^ 31` shards. -/
theorem shardSliceFor_of_small {total shardsPerStep step w : Nat} (htotal : 0 < total)
    (hsize : total < 2 ^ 31) (hshards : 0 < shardsPerStep) (hw : w < 2 ^ 32)
    (hstep : step < 2 ^ 31) :
    shardSliceFor total shardsPerStep step w =
      Arc.arc total
        ((w * 0x9E3779B9 + step * (total / min shardsPerStep total + 1)) % total)
        (min shardsPerStep total) := by
  have hwant : 1 ≤ min shardsPerStep total := by omega
  have hquot := Nat.div_le_self total (min shardsPerStep total)
  have hstride : step * (total / min shardsPerStep total + 1) ≤ 2 ^ 31 * 2 ^ 31 :=
    Nat.mul_le_mul (by omega) (by omega)
  rw [shardSliceFor_eq_arc (by omega), max_eq_left hwant]
  have hfits : w * 0x9E3779B9 + step * (total / min shardsPerStep total + 1) < 2 ^ 64 := by omega
  rw [Nat.mod_eq_of_lt hfits]

/-- A slice is as wide as it can be and names no position twice, and over as many
consecutive steps as the corpus has shards one worker reads all of it. -/
theorem corpus_covered {total shardsPerStep w : Nat} (htotal : 0 < total) (hsize : total < 2 ^ 31)
    (hshards : 0 < shardsPerStep) (hw : w < 2 ^ 32) :
    (∀ step, (shardSliceFor total shardsPerStep step w).length = min shardsPerStep total ∧
        (shardSliceFor total shardsPerStep step w).Nodup ∧
        ∀ idx ∈ shardSliceFor total shardsPerStep step w, idx < total) ∧
      ∀ first, first + total ≤ 2 ^ 31 → ∀ p < total,
        ∃ k < total, p ∈ shardSliceFor total shardsPerStep (first + k) w := by
  constructor
  · intro step
    refine ⟨?_, ?_, fun idx => shardSliceFor_lt⟩
    · rw [shardSliceFor_eq_arc (by omega), Arc.arc, List.length_map, List.length_range]
    · rw [shardSliceFor_eq_arc (by omega)]
      exact Arc.arc_nodup (Nat.min_le_right _ _)
  · intro first hfirst p hp
    let stride := total / min shardsPerStep total + 1
    have hwide : stride.gcd total ≤ min shardsPerStep total := gcd_stride_le (by omega)
    have ⟨k, hk, hin⟩ := @Arc.arcs_cover total _ stride (w * 0x9E3779B9 + first * stride) p hp hwide
    refine ⟨k, hk, ?_⟩
    have hoffset : w * 0x9E3779B9 + first * stride + k * stride =
        w * 0x9E3779B9 + (first + k) * stride := by
      rw [Nat.add_mul, Nat.add_assoc]
    rw [hoffset] at hin
    rw [shardSliceFor_of_small htotal hsize hshards hw (by omega)]
    exact hin

/-- Six shards, four at a time: the stride divides the corpus. -/
theorem corpus_covered_six :
    (2 : Nat).gcd 6 ≠ 1 ∧ ∀ p < 6, ∃ k < 6, p ∈ shardSliceFor 6 4 (0 + k) 3 :=
  ⟨by decide, (corpus_covered (by decide) (by decide) (by decide) (by decide)).2 0 (by decide)⟩

/-! ## What is staged and what is opened -/

/-- What the schedule of a job takes from its payload. -/
structure TrainingJobPayload where
  steps : Nat
  workerShard : Nat
  shardsPerStep : Nat
  /-- Sample zone shares every N steps; 0 disables it. -/
  shareEvery : Nat

/-- The shard files `read_and_verify_shards` opens, by the `shard_index` of their
entries; `shards` is that of every entry of the manifest. -/
def readAndVerifyShards (shards : List Nat) (p : TrainingJobPayload) (step workerShard : Nat) :
    List Nat :=
  (shardSliceFor shards.length p.shardsPerStep step workerShard).filterMap fun idx => shards[idx]?

/-- The shard files `stage` makes present. -/
def stage (shards : List Nat) (p : TrainingJobPayload) : Finset Nat :=
  ((List.range p.steps).flatMap fun step =>
    (shardSliceFor shards.length p.shardsPerStep step p.workerShard).filterMap fun idx =>
      shards[idx]?).toFinset

/-- The shard files a run opens, in order: those of each step, and, where the zone
shares are sampled after it, those of the fixed slice.  A run which stops early opens
the first of them. -/
def runOpens (shards : List Nat) (p : TrainingJobPayload) : List Nat :=
  (List.range p.steps).flatMap fun step =>
    readAndVerifyShards shards p step p.workerShard ++
      if 0 < p.shareEvery ∧ step % p.shareEvery = 0 then readAndVerifyShards shards p 0 0 else []

/-- Every shard file a run opens has been staged. -/
def StagingCovers (shards : List Nat) (p : TrainingJobPayload) : Prop :=
  ∀ f ∈ runOpens shards p, f ∈ stage shards p

theorem mem_stage {shards : List Nat} {p : TrainingJobPayload} {f : Nat} :
    f ∈ stage shards p ↔
      ∃ step < p.steps, f ∈ readAndVerifyShards shards p step p.workerShard := by
  unfold stage readAndVerifyShards
  simp only [List.mem_toFinset, List.mem_flatMap, List.mem_range]

/-- The steps themselves are staged; what is sampled is covered when there is nothing
to sample, or the fixed slice happens to be among the files of the steps. -/
theorem stagingCovers_iff (shards : List Nat) (p : TrainingJobPayload) :
    StagingCovers shards p ↔
      p.steps = 0 ∨ p.shareEvery = 0 ∨
        ∀ f ∈ readAndVerifyShards shards p 0 0,
          ∃ step < p.steps, f ∈ readAndVerifyShards shards p step p.workerShard := by
  constructor
  · intro h
    by_cases hsteps : p.steps = 0
    · exact .inl hsteps
    by_cases hshare : p.shareEvery = 0
    · exact .inr (.inl hshare)
    refine .inr (.inr fun f hf => mem_stage.mp (h f ?_))
    -- the shares are sampled after the first step already
    apply List.mem_flatMap.mpr
    refine ⟨0, List.mem_range.mpr (Nat.pos_of_ne_zero hsteps), List.mem_append_right _ ?_⟩
    rw [if_pos ⟨Nat.pos_of_ne_zero hshare, Nat.zero_mod _⟩]
    exact hf
  · intro h f hf
    have ⟨step, hstep, hopened⟩ := List.mem_flatMap.mp hf
    rw [List.mem_range] at hstep
    rcases List.mem_append.mp hopened with hown | hsampled
    · exact mem_stage.mpr ⟨step, hstep, hown⟩
    · split at hsampled
      · rename_i hshare
        rcases h with hsteps | hnone | hcovered
        · omega
        · omega
        · exact mem_stage.mpr (hcovered f hsampled)
      · cases hsampled

/-- The second worker of a corpus of four stages the shard of its step, and then
samples the zone shares on the first shard. -/
theorem second_worker_not_staged : ¬ StagingCovers [0, 1, 2, 3] ⟨1, 1, 1, 1⟩ := by
  intro h
  have hstaged := h 0 (by decide)
  revert hstaged
  decide

end Worker
end ComputePool
