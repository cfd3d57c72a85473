import ComputePool.Coordinator.Aggregate
import ComputePool.Federated.Alignment

/-!
# What an aggregated round merges

A weight of the merged adapter is the weight of the start adapter and one value that the
node returned: the one at the weight's place in its chunk, in answer to an input that
holds every participant's delta of the same weight at that place.
-/

namespace ComputePool
namespace Coordinator

open RustStd Federated

/-! ## The outputs of a round -/

theorem parseOutput_spec {bytes : List UInt8} {dim : Nat} {out : ChunkOutput}
    (h : parseOutput bytes dim = .ok out) :
    out.values.length = dim ∧ out.states.length = dim ∧ ∀ s ∈ out.states, s ≤ 3 := by
  unfold parseOutput at h
  dsimp only at h
  have ⟨hlength, h⟩ := check_eq_ok.mp h
  rw [not_or, not_not] at hlength
  split at h
  · cases h
  · rename_i hstates
    cases h
    refine ⟨?_, ?_, ?_⟩
    · exact (rowBytes_beI64s (by rw [List.length_take]; omega)).2
    · rw [List.length_drop]
      omega
    · intro s hs
      have hle := List.find?_eq_none.mp hstates s hs
      simpa using hle

theorem tally_sum {states : List UInt8} (h : ∀ s ∈ states, s ≤ 3) :
    (tally states).sum = states.length := by
  induction states with
  | nil => rfl
  | cons s rest ih =>
      have hs : s = 0 ∨ s = 1 ∨ s = 2 ∨ s = 3 := by
        have hle := h s List.mem_cons_self
        rw [UInt8.le_iff_toNat_le] at hle
        simp only [← UInt8.toNat_inj, UInt8.reduceToNat] at hle ⊢
        omega
      have hrest := ih fun s hs => h s (List.mem_cons_of_mem _ hs)
      simp only [tally, List.map_cons, List.map_nil, List.sum_cons, List.sum_nil] at hrest ⊢
      rcases hs with rfl | rfl | rfl | rfl <;> simp <;> omega

section

variable {H : Hashes} {ops : Delta.FloatOps} {overflowChecks : Bool}
  {backend : Nat → List UInt8 → Except String (List UInt8)} {cfg : RoundConfig}
  {ordinal : UInt64} {contributions : List Contribution} {start : Adapter}
  {runs : List ChunkRun} {merged : List (List F32)} {outcome : RoundOutcome}

/-- The width of a chunk. -/
def widthAt (cfg : RoundConfig) (start : Adapter) (c : Nat) : Nat :=
  min cfg.chunkDim.toNat (Delta.valueCount start - c * cfg.chunkDim.toNat)

/-- A chunk that was run, with one value and one state for each place. -/
structure Answered (backend : Nat → List UInt8 → Except String (List UInt8)) (cfg : RoundConfig)
    (contributions : List Contribution) (start : Adapter) (c : Nat) (run : ChunkRun) : Prop where
  ran : Ran backend cfg contributions c run
  values : run.parsed.values.length = widthAt cfg start c
  states : run.parsed.states.length = widthAt cfg start c
  belnap : ∀ s ∈ run.parsed.states, s ≤ 3

theorem Aggregated.answered
    (h : Aggregated H ops overflowChecks backend cfg ordinal contributions start runs merged
      outcome) (hvalues : ∀ k ∈ contributions, k.artifact.values.length = Delta.valueCount start)
    {c : Nat} {run : ChunkRun} (hrun : runs[c]? = some run) :
    Answered backend cfg contributions start c run := by
  have hin := (List.getElem?_eq_some_iff.mp hrun).1
  have hcount := h.ran.length_eq
  rw [List.length_range] at hcount
  have ⟨run', hrun', hran⟩ := h.chunk (c := c) (by omega)
  cases hrun.symm.trans hrun'
  -- there is a first contribution, and its row is as wide as every other
  have hfloor : (3 : UInt16) ≤ cfg.minParticipants := h.valid.min_floor
  have hthree : 3 ≤ cfg.minParticipants.toNat := hfloor
  have henough := h.enough
  have hfirst : 0 < contributions.length := by omega
  have hmem : contributions[0] ∈ contributions := List.getElem_mem _
  have hparsed := parseOutput_spec (hran.parsed _ (mem_roundRows hmem))
  rw [row_length, hvalues _ hmem] at hparsed
  exact ⟨hran, hparsed.1, hparsed.2.1, hparsed.2.2⟩

theorem Aggregated.count (h : Aggregated H ops overflowChecks backend cfg ordinal contributions
    start runs merged outcome) :
    runs.length = Pieces.count cfg.chunkDim.toNat (Delta.valueCount start) := by
  have hdim : 0 < cfg.chunkDim := UInt32.pos_iff_ne_zero.mpr h.valid.chunkDim_pos
  rw [← chunkCount_eq_count hdim, ← h.ran.length_eq, List.length_range]

/-- What the chunks give, laid out as the values of an adapter. -/
theorem Aggregated.laidOut {α : Type} (part : ChunkRun → List α)
    (h : Aggregated H ops overflowChecks backend cfg ordinal contributions start runs merged
      outcome)
    (hpart : ∀ c run, runs[c]? = some run → (part run).length = widthAt cfg start c) :
    (runs.flatMap part).length = Delta.valueCount start ∧
      ∀ c run j, runs[c]? = some run → j < (part run).length →
        (runs.flatMap part)[c * cfg.chunkDim.toNat + j]? = (part run)[j]? := by
  have hdim : 0 < cfg.chunkDim.toNat := UInt32.pos_iff_ne_zero.mpr h.valid.chunkDim_pos
  have hlists : ∀ c l, (runs.map part)[c]? = some l →
      l.length = min cfg.chunkDim.toNat (Delta.valueCount start - c * cfg.chunkDim.toNat) := by
    intro c l hl
    rw [List.getElem?_map, Option.map_eq_some_iff] at hl
    have ⟨run, hrun, hl⟩ := hl
    rw [← hl]
    exact hpart c run hrun
  rw [List.flatMap_def]
  constructor
  · exact Pieces.length_ragged hlists hdim (by rw [List.length_map, h.count])
  · intro c run j hrun hj
    refine Pieces.getElem?_ragged hlists ?_ hj
    rw [List.getElem?_map, hrun, Option.map_some]

/-- Where a weight of the merged adapter comes from: `k` is its place in canonical order. -/
structure WeightFrom (ops : Delta.FloatOps)
    (backend : Nat → List UInt8 → Except String (List UInt8)) (cfg : RoundConfig)
    (contributions : List Contribution) (start : Adapter) (merged : List (List F32)) (k : Nat)
    (c : Delta.Coordinate) (run : ChunkRun) (x : Int64) : Prop where
  ran : Ran backend cfg contributions (k / cfg.chunkDim.toNat) run
  /-- The node's value for the place is added to the weight. -/
  value : run.parsed.values[k % cfg.chunkDim.toNat]? = some x
  weight : Delta.MergedAt ops (ops.mul64 Delta.Q16_UNIT (ops.powi264 cfg.valueScaleLog2)) start
    merged c x
  /-- The node was given every participant's delta of the same weight. -/
  deltas : ∀ (i : Nat) κ, contributions[i]? = some κ → ∃ r y, (rowsOfInput run.input)[i]? = some r ∧
    r[k % cfg.chunkDim.toNat]? = some y ∧ κ.artifact.values[k]? = some y

/-- Every weight of the merged adapter of a round is the start adapter's and one value of
the node; and each of them is counted under one state. -/
theorem aggregated_values (H : Hashes) (ops : Delta.FloatOps) (overflowChecks : Bool)
    (backend : Nat → List UInt8 → Except String (List UInt8)) (cfg : RoundConfig)
    (ordinal : UInt64) (contributions : List Contribution) (excluded : List Exclusion)
    (path : String) (file : List UInt8) (start : Adapter) (outcome : RoundOutcome)
    (hload : Adapter.load path file = .ok start)
    (hvalues : ∀ k ∈ contributions, k.artifact.values.length = Delta.valueCount start)
    (h : aggregate H ops overflowChecks backend cfg ordinal contributions excluded start =
      .ok outcome) :
    ∃ merged states,
      Delta.mergedGguf overflowChecks start merged = .ok outcome.mergedAdapter ∧
      outcome.bundle.adapterSha256 = H.sha256 outcome.mergedAdapter ∧
      outcome.bundle.stateCounts = tally states ∧
      outcome.bundle.stateCounts.sum = Delta.valueCount start ∧
      ∀ k c, (Delta.coordinates start)[k]? = some c → ∃ run x,
        WeightFrom ops backend cfg contributions start merged k c run x ∧
        states[k]? = run.parsed.states[k % cfg.chunkDim.toNat]? := by
  have hfrom := Gguf.loadedFrom_load hload
  have ⟨runs, merged, hparts⟩ := aggregate_eq_ok h
  have hanswered : ∀ c run, runs[c]? = some run → Answered backend cfg contributions start c run :=
    fun c run hrun => hparts.answered hvalues hrun
  have hagg := hparts.laidOut (fun run => run.parsed.values)
    fun c run hrun => (hanswered c run hrun).values
  have hstates := hparts.laidOut (fun run => run.parsed.states)
    fun c run hrun => (hanswered c run hrun).states
  have hbelnap : ∀ s ∈ statesOf runs, s ≤ 3 := by
    intro s hs
    have ⟨run, hmem, hs⟩ := List.mem_flatMap.mp hs
    have ⟨c, hc⟩ := List.getElem?_of_mem hmem
    exact (hanswered c run hc).belnap s hs
  have hlength : (runs.flatMap fun run => run.parsed.values).length =
      (Delta.coordinates start).length := hagg.1.trans (Delta.valueCount_eq hfrom)
  have ⟨merged', hmerged', _, hall⟩ := Delta.merge_spec ops hfrom hlength cfg.valueScaleLog2
  cases hparts.merged.symm.trans hmerged'
  refine ⟨merged, statesOf runs, hparts.adapter, hparts.adapterHash, hparts.stateCounts, ?_, ?_⟩
  · rw [hparts.stateCounts, tally_sum hbelnap]
    exact hstates.1
  intro k c hk
  have hdim : 0 < cfg.chunkDim := UInt32.pos_iff_ne_zero.mpr hparts.valid.chunkDim_pos
  have hpos : 0 < cfg.chunkDim.toNat := hdim
  have hin := (List.getElem?_eq_some_iff.mp hk).1
  rw [← Delta.valueCount_eq hfrom] at hin
  have hsplit : k / cfg.chunkDim.toNat * cfg.chunkDim.toNat + k % cfg.chunkDim.toNat = k :=
    Nat.div_add_mod' k _
  have hmod := Nat.mod_lt k hpos
  have hchunk : k / cfg.chunkDim.toNat < chunkCount (Delta.valueCount start) cfg.chunkDim := by
    rw [lt_chunkCount_iff hdim]
    omega
  have ⟨run, hrun, hran⟩ := hparts.chunk hchunk
  have hwidths := hanswered _ run hrun
  have hplace : k % cfg.chunkDim.toNat < widthAt cfg start (k / cfg.chunkDim.toNat) := by
    unfold widthAt
    omega
  have hvalue := hagg.2 _ run _ hrun (by rw [hwidths.values]; exact hplace)
  have hstate := hstates.2 _ run _ hrun (by rw [hwidths.states]; exact hplace)
  rw [hsplit] at hvalue hstate
  have hlong : k % cfg.chunkDim.toNat < run.parsed.values.length := by
    rw [hwidths.values]
    exact hplace
  have hx : run.parsed.values[k % cfg.chunkDim.toNat]? =
      some run.parsed.values[k % cfg.chunkDim.toNat] := List.getElem?_eq_getElem _
  refine ⟨run, _, ⟨hran, hx, ?_, ?_⟩, hstate⟩
  · have hat := (List.forall₂_iff_get.mp hall).2 k (List.getElem?_eq_some_iff.mp hk).1 (by omega)
    rw [hx, List.getElem?_eq_some_iff] at hvalue
    have ⟨_, hvalue⟩ := hvalue
    rw [List.get_eq_getElem, List.get_eq_getElem, (List.getElem?_eq_some_iff.mp hk).2, hvalue] at hat
    exact hat
  · intro i κ hκ
    have hmem := List.mem_of_getElem? hκ
    have hlen := hvalues κ hmem
    have hin : k < κ.artifact.values.length := by omega
    have hy : κ.artifact.values[k]? = some κ.artifact.values[k] := List.getElem?_eq_getElem _
    refine ⟨row κ.artifact.values cfg.chunkDim (k / cfg.chunkDim.toNat), _, ?_, ?_, hy⟩
    · rw [rowsOfInput_eq hran.input, roundRows, List.getElem?_map, hκ, Option.map_some]
    · rw [row_eq_piece, Pieces.piece_getElem? _ hmod, hsplit, hy]

end

/-- A file with one tensor, of the values 0 and 1. -/
def pairFile : List UInt8 :=
  ((Gguf.encodeF32 true Delta.tinyKv [⟨"x.lora_a", [2], [0, 0x3f800000]⟩]).toOption).getD []

def pairLoaded : Adapter := ((Adapter.load "start" pairFile).toOption).getD pairStart

/-- A worker whose delta has these values. -/
def valuesMember (i : Nat) (values : List Int64) : Contribution where
  job := "a"
  result :=
    { shortResult Tree.residueHashes with
      worker := FixedBytes.ofNat i
      deltaRoot := ((deltaRoot Tree.residueHashes values 1).toOption).getD FixedBytes.zero
      deltaSha256 := Tree.residueHashes.sha256 { twoChunks with values := values }.encode }
  artifact := { twoChunks with values := values }

/-- Two of the three add 1 to the first weight. -/
def valuesTrio : List Contribution :=
  [valuesMember 1 [16 * 65536, 0], valuesMember 2 [16 * 65536, 0], valuesMember 3 [0, 0]]

/-- A node that answers with the first participant's value and the state `True`. -/
def firstRowNode (_ : Nat) (input : List UInt8) : Except String (List UInt8) :=
  .ok ((input.drop 8).take 8 ++ [1])

/-- What evaluation finds of the adapter and of the two chunks. -/
theorem valuesTrio_evaluates :
    (Adapter.load "start" pairFile).isOk = true ∧
    Delta.valueCount pairLoaded = 2 ∧
    Delta.coordinates pairLoaded = [("x.lora_a", 0), ("x.lora_a", 1)] ∧
    (aggregate Tree.residueHashes Delta.tinyOps true firstRowNode trioConfig 0 valuesTrio []
      pairLoaded).isOk = true ∧
    (runChunk firstRowNode trioConfig valuesTrio 0).toOption.map (fun run => run.parsed.values) =
      some [16 * 65536] ∧
    (runChunk firstRowNode trioConfig valuesTrio 1).toOption.map (fun run => run.parsed.values) =
      some [0] := by
  decide +kernel

/-- A chunk has one run. -/
theorem Ran.unique {backend : Nat → List UInt8 → Except String (List UInt8)} {cfg : RoundConfig}
    {contributions : List Contribution} {c : Nat} {run run' : ChunkRun} (hsome : contributions ≠ [])
    (h : Ran backend cfg contributions c run) (h' : Ran backend cfg contributions c run') :
    run = run' := by
  obtain ⟨input, output, parsed⟩ := run
  obtain ⟨input', output', parsed'⟩ := run'
  obtain rfl : input = input' := Except.ok.inj (h.input.symm.trans h'.input)
  obtain rfl : output = output' := Except.ok.inj (h.output.symm.trans h'.output)
  obtain ⟨κ, hκ⟩ := List.exists_mem_of_ne_nil contributions hsome
  have hrow : row κ.artifact.values cfg.chunkDim c ∈ roundRows cfg contributions c :=
    List.mem_map_of_mem hκ
  obtain rfl : parsed = parsed' :=
    Except.ok.inj ((h.parsed _ hrow).symm.trans (h'.parsed _ hrow))
  rfl

/-- The value added to a weight is the one the run of its chunk gave. -/
theorem WeightFrom.eq_of_run {c : Nat} {coordinate : Delta.Coordinate} {merged : List (List F32)}
    {run : ChunkRun} {x y : Int64}
    (hfrom : WeightFrom Delta.tinyOps firstRowNode trioConfig valuesTrio pairLoaded merged c
      coordinate run x)
    (hrun : (runChunk firstRowNode trioConfig valuesTrio c).toOption.map
      (fun run => run.parsed.values) = some [y]) : x = y := by
  -- a chunk is one value wide, so that weight `c` is all of chunk `c`
  have hdim : trioConfig.chunkDim.toNat = 1 := rfl
  have hran := hfrom.ran
  have hvalue := hfrom.value
  rw [hdim, Nat.div_one] at hran
  rw [hdim, Nat.mod_one] at hvalue
  cases hchunk : runChunk firstRowNode trioConfig valuesTrio c with
  | error e =>
      rw [hchunk] at hrun
      cases hrun
  | ok run' =>
      rw [hchunk] at hrun
      have hsame := hran.unique (List.cons_ne_nil _ _) (runChunk_eq_ok hchunk)
      have hvalues : run'.parsed.values = [y] := Option.some.inj hrun
      rw [hsame, hvalues] at hvalue
      exact (Option.some.inj hvalue).symm

/-- The first weight goes from 0 to 1 and the second stays. -/
theorem aggregated_values_trio : ∃ (outcome : RoundOutcome) (merged : List (List F32))
    (run run' : ChunkRun),
    aggregate Tree.residueHashes Delta.tinyOps true firstRowNode trioConfig 0 valuesTrio []
      pairLoaded = .ok outcome ∧
    WeightFrom Delta.tinyOps firstRowNode trioConfig valuesTrio pairLoaded merged 0
      ("x.lora_a", 0) run (16 * 65536) ∧
    WeightFrom Delta.tinyOps firstRowNode trioConfig valuesTrio pairLoaded merged 1
      ("x.lora_a", 1) run' 0 := by
  obtain ⟨hload, hcount, hcoordinates, hok, hfirst, hsecond⟩ := valuesTrio_evaluates
  have hlengths : ∀ k ∈ valuesTrio, k.artifact.values.length = Delta.valueCount pairLoaded := by
    rw [hcount]
    exact (by decide : ∀ k ∈ valuesTrio, k.artifact.values.length = 2)
  cases houtcome : aggregate Tree.residueHashes Delta.tinyOps true firstRowNode trioConfig 0
      valuesTrio [] pairLoaded with
  | error e =>
      rw [houtcome] at hok
      cases hok
  | ok outcome =>
      have ⟨merged, _, _, _, _, _, hweights⟩ := aggregated_values Tree.residueHashes Delta.tinyOps
        true firstRowNode trioConfig 0 valuesTrio [] "start" pairFile pairLoaded outcome
        (eq_ok_of_isOk hload pairStart) hlengths houtcome
      rw [hcoordinates] at hweights
      have ⟨run, x, hfrom, _⟩ := hweights 0 _ rfl
      have ⟨run', x', hfrom', _⟩ := hweights 1 _ rfl
      rw [hfrom.eq_of_run hfirst] at hfrom
      rw [hfrom'.eq_of_run hsecond] at hfrom'
      exact ⟨outcome, merged, run, run', rfl, hfrom, hfrom'⟩

end Coordinator
end ComputePool
