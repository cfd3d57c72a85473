import ComputePool.Coordinator.Bundle

/-!
# Aggregating a round

`aggregate` of `fl_round.rs`: for every chunk the contributions' rows become the input of
the precompile, a node runs it, and its outputs are folded into the merged adapter; the
round is summarised as a bundle.  What the node answers is a parameter, one answer for
each call.
-/

namespace ComputePool
namespace Coordinator

open RustStd Federated

/-- How `aggregate` fails; the text of a node's error is the node's. -/
inductive AggregateError where
  | config (e : ConfigError)
  | tooFew (got : Nat) (need : UInt16)
  | node (message : String)
  | chunk (c : Nat) (e : BelnapWireError)
  /-- `too many chunks` -/
  | tooManyChunks
  | delta (e : DeltaError)
  | tree (e : Tree.TreeError)
  /-- `too many participants` -/
  | tooManyParticipants
  deriving DecidableEq

/-- The aggregated round: its bundle and the merged adapter's bytes. -/
structure RoundOutcome where
  bundle : Bundle
  mergedAdapter : List UInt8
  deriving DecidableEq

def BUNDLE_VERSION : String := "citrate-fl-round-bundle/1"

/-- One chunk of a round: what was sent to the node and what came back. -/
structure ChunkRun where
  input : List UInt8
  output : List UInt8
  parsed : ChunkOutput
  deriving DecidableEq

/-- The variables that the loop over the chunks fills. -/
structure Folded where
  agg : List Int64
  inputHashes : List String
  outputHashes : List String
  inPayloads : List B32
  outPayloads : List B32
  stateCounts : List Nat
  deriving DecidableEq

def Folded.start : Folded := ⟨[], [], [], [], [], [0, 0, 0, 0]⟩

/-- `state_counts[usize::from(*s)] += 1`. -/
def countState (counts : List Nat) (s : UInt8) : Checked AggregateError (List Nat) := do
  let n ← indexAt counts s.toNat
  .ok (counts.set s.toNat (n + 1))

section

variable (H : Hashes) (ops : Delta.FloatOps) (overflowChecks : Bool)
  (backend : Nat → List UInt8 → Except String (List UInt8))
  (cfg : RoundConfig) (ordinal : UInt64) (contributions : List Contribution)

/-- The contributions' rows of a chunk. -/
def roundRows (c : Nat) : List (List Int64) :=
  contributions.map fun k => row k.artifact.values cfg.chunkDim c

/-- The calls of one iteration that can fail. -/
def runChunk (c : Nat) : Checked AggregateError ChunkRun := do
  let rows := roundRows cfg contributions c
  let input ← checked ((chunkInput rows cfg.chunkRules).mapError (.chunk c))
  let output ← checked ((backend c input).mapError .node)
  let first ← indexAt rows 0
  let parsed ← checked ((parseOutput output first.length).mapError (.chunk c))
  .ok ⟨input, output, parsed⟩

/-- The rest of an iteration. -/
def foldChunk (f : Folded) (run : ChunkRun) : Checked AggregateError Folded := do
  let counts ← run.parsed.states.foldlM countState f.stateCounts
  let ih := keccak H [run.input]
  let oh := keccak H [run.output]
  .ok
    { agg := f.agg ++ run.parsed.values
      inputHashes := f.inputHashes ++ [hex0x ih.toBytes]
      outputHashes := f.outputHashes ++ [hex0x oh.toBytes]
      inPayloads := f.inPayloads ++ [ih]
      outPayloads := f.outPayloads ++ [oh]
      stateCounts := counts }

def aggregateStep (f : Folded) (c : Nat) : Checked AggregateError Folded := do
  let run ← runChunk backend cfg contributions c
  foldChunk H f run

/-- A contribution as the bundle lists it. -/
def participantOf (k : Contribution) : BundleParticipant where
  worker := k.result.worker
  job := k.job
  deltaRoot := k.result.deltaRoot
  deltaSha256 := k.result.deltaSha256
  result := k.result

def payloadOf (k : Contribution) : B32 := participantPayload H k.result.worker k.result.deltaRoot

def aggregateRoot (payloads : List B32) : Checked AggregateError B32 :=
  checked ((Tree.root H payloads).mapError .tree)

/-- Aggregate verified contributions through `backend`. -/
def aggregate (excluded : List Exclusion) (start : Adapter) :
    Checked AggregateError RoundOutcome := do
  checked (cfg.validate.mapError .config)
  if contributions.length < cfg.minParticipants.toNat then
    .error (.err (.tooFew contributions.length cfg.minParticipants))
  else
    let nValues := Delta.valueCount start
    let chunks := chunkCount nValues cfg.chunkDim
    if chunks ≥ 2 ^ 32 then .error (.err .tooManyChunks)
    else do
      let f ← (List.range chunks).foldlM (aggregateStep H backend cfg contributions) .start
      let merged ← mapStop .delta (Delta.merge ops start f.agg cfg.valueScaleLog2)
      let mergedAdapter ← mapStop .delta (Delta.mergedGguf overflowChecks start merged)
      let adapterSha256 := H.sha256 mergedAdapter
      let participantsRoot ← aggregateRoot H (contributions.map (payloadOf H))
      let inputRoot ← aggregateRoot H f.inPayloads
      let outputRoot ← aggregateRoot H f.outPayloads
      let roundId := cfg.roundId H ordinal
      let configHash := cfg.configHash H
      if contributions.length ≥ 2 ^ 16 then .error (.err .tooManyParticipants)
      else
        .ok
          { bundle :=
              { version := BUNDLE_VERSION
                ordinal := ordinal
                roundId := roundId
                configHash := configHash
                config := cfg
                participants := contributions.map participantOf
                nValues := UInt64.ofNat nValues
                chunks := UInt32.ofNat chunks
                inputHashes := f.inputHashes
                outputHashes := f.outputHashes
                participantsRoot := participantsRoot
                inputRoot := inputRoot
                outputRoot := outputRoot
                adapterSha256 := adapterSha256
                recordDigest :=
                  recordDigest H cfg.chainId cfg.ledger roundId configHash participantsRoot
                    inputRoot outputRoot adapterSha256 (UInt64.ofNat nValues) (UInt32.ofNat chunks)
                    contributions.length
                stateCounts := f.stateCounts
                excluded := excluded }
            mergedAdapter := mergedAdapter }

end

/-! ## The loop over the chunks -/

/-- A loop that computes and then records: it has computed every step, and recorded
what the steps gave. -/
theorem foldlM_bind_eq_ok {ε σ α β : Type} {compute : α → Except ε β} {push : σ → β → Except ε σ}
    {items : List α} {s out : σ}
    (h : items.foldlM (fun s a => compute a >>= push s) s = .ok out) :
    ∃ results, List.Forall₂ (fun a b => compute a = .ok b) items results ∧
      results.foldlM push s = .ok out := by
  induction items generalizing s with
  | nil => exact ⟨[], .nil, h⟩
  | cons a rest ih =>
      rw [List.foldlM_cons, bind_eq_ok] at h
      have ⟨s', hstep, hrest⟩ := h
      have ⟨b, hb, hpush⟩ := bind_eq_ok.mp hstep
      have ⟨results, hall, hfold⟩ := ih hrest
      refine ⟨b :: results, .cons hb hall, ?_⟩
      rw [List.foldlM_cons, bind_of_ok hpush]
      exact hfold

section

variable {H : Hashes} {ops : Delta.FloatOps} {overflowChecks : Bool}
  {backend : Nat → List UInt8 → Except String (List UInt8)}
  {cfg : RoundConfig} {ordinal : UInt64} {contributions : List Contribution}

def inputHash (H : Hashes) (run : ChunkRun) : B32 := keccak H [run.input]

def outputHash (H : Hashes) (run : ChunkRun) : B32 := keccak H [run.output]

/-- The states of a round, chunk by chunk. -/
def statesOf (runs : List ChunkRun) : List UInt8 := runs.flatMap fun run => run.parsed.states

/-- How often each of the four states occurs. -/
def tally (states : List UInt8) : List Nat := [0, 1, 2, 3].map fun s => states.count s

theorem countState_tally {states : List UInt8} {s : UInt8} {counts : List Nat}
    (h : countState (tally states) s = .ok counts) : counts = tally (states ++ [s]) := by
  unfold countState at h
  have ⟨n, hn, h⟩ := bind_eq_ok.mp h
  have hlt : s.toNat < 4 := by
    unfold indexAt at hn
    split at hn
    · rename_i hget
      exact (List.getElem?_eq_some_iff.mp hget).1
    · cases hn
  have hs : s = 0 ∨ s = 1 ∨ s = 2 ∨ s = 3 := by
    simp only [← UInt8.toNat_inj, UInt8.reduceToNat]
    omega
  cases h
  rcases hs with rfl | rfl | rfl | rfl <;>
    (cases hn
     simp [tally, List.count_append])

theorem foldlM_countState {before states : List UInt8} {counts : List Nat}
    (h : states.foldlM countState (tally before) = .ok counts) :
    counts = tally (before ++ states) := by
  induction states generalizing before with
  | nil =>
      cases h
      rw [List.append_nil]
  | cons s rest ih =>
      rw [List.foldlM_cons, bind_eq_ok] at h
      have ⟨next, hstep, hrest⟩ := h
      rw [countState_tally hstep] at hrest
      rw [ih hrest, List.append_assoc, List.singleton_append]

/-- What the loop has recorded of the chunks it ran. -/
structure Recorded (H : Hashes) (runs : List ChunkRun) (f : Folded) : Prop where
  agg : f.agg = runs.flatMap fun run => run.parsed.values
  stateCounts : f.stateCounts = tally (statesOf runs)
  inPayloads : f.inPayloads = runs.map (inputHash H)
  outPayloads : f.outPayloads = runs.map (outputHash H)
  inputHashes : f.inputHashes = f.inPayloads.map fun x => hex0x x.toBytes
  outputHashes : f.outputHashes = f.outPayloads.map fun x => hex0x x.toBytes

theorem recorded_start (H : Hashes) : Recorded H [] .start := ⟨rfl, rfl, rfl, rfl, rfl, rfl⟩

theorem foldChunk_recorded {runs : List ChunkRun} {f f' : Folded} {run : ChunkRun}
    (h : Recorded H runs f) (hstep : foldChunk H f run = .ok f') :
    Recorded H (runs ++ [run]) f' := by
  unfold foldChunk at hstep
  have ⟨counts, hcounts, hstep⟩ := bind_eq_ok.mp hstep
  rw [h.stateCounts] at hcounts
  cases hstep
  exact
    { agg := by simp [h.agg]
      stateCounts := by
        rw [foldlM_countState hcounts]
        simp [statesOf]
      inPayloads := by simp [h.inPayloads, inputHash]
      outPayloads := by simp [h.outPayloads, outputHash]
      inputHashes := by simp [h.inputHashes]
      outputHashes := by simp [h.outputHashes] }

theorem foldlM_foldChunk {before runs : List ChunkRun} {f f' : Folded} (h : Recorded H before f)
    (hfold : runs.foldlM (foldChunk H) f = .ok f') : Recorded H (before ++ runs) f' := by
  induction runs generalizing before f with
  | nil =>
      cases hfold
      rwa [List.append_nil]
  | cons run rest ih =>
      rw [List.foldlM_cons, bind_eq_ok] at hfold
      have ⟨next, hstep, hrest⟩ := hfold
      have hrun := ih (foldChunk_recorded h hstep) hrest
      rwa [List.append_assoc, List.singleton_append] at hrun

theorem mem_roundRows {k : Contribution} {c : Nat} (hk : k ∈ contributions) :
    row k.artifact.values cfg.chunkDim c ∈ roundRows cfg contributions c :=
  List.mem_map.mpr ⟨k, hk, rfl⟩

/-- A chunk that was run: its input, what the node answered to it, and the answer read. -/
structure Ran (backend : Nat → List UInt8 → Except String (List UInt8)) (cfg : RoundConfig)
    (contributions : List Contribution) (c : Nat) (run : ChunkRun) : Prop where
  input : chunkInput (roundRows cfg contributions c) cfg.chunkRules = .ok run.input
  output : backend c run.input = .ok run.output
  parsed : ∀ row ∈ roundRows cfg contributions c, parseOutput run.output row.length = .ok run.parsed

theorem runChunk_eq_ok {c : Nat} {run : ChunkRun}
    (h : runChunk backend cfg contributions c = .ok run) : Ran backend cfg contributions c run := by
  unfold runChunk at h
  have ⟨input, hinput, h⟩ := bind_eq_ok.mp h
  have ⟨output, houtput, h⟩ := bind_eq_ok.mp h
  have ⟨first, hfirst, h⟩ := bind_eq_ok.mp h
  have ⟨parsed, hparsed, h⟩ := bind_eq_ok.mp h
  rw [checked_eq_ok, mapError_eq_ok] at hinput houtput hparsed
  cases h
  refine ⟨hinput, houtput, fun row hrow => ?_⟩
  -- the rows have one width, the first one's
  have ⟨dim, _, _, _, _, hwidth, _⟩ := chunkInput_spec hinput
  have hmem : first ∈ roundRows cfg contributions c := by
    unfold indexAt at hfirst
    split at hfirst
    · cases hfirst
      rename_i hget
      exact List.mem_of_getElem? hget
    · cases hfirst
  rw [hwidth row hrow, ← hwidth first hmem]
  exact hparsed

/-- An aggregated round, read back: the chunks that were run, the values that were
merged, and where each part of the bundle comes from. -/
structure Aggregated (H : Hashes) (ops : Delta.FloatOps) (overflowChecks : Bool)
    (backend : Nat → List UInt8 → Except String (List UInt8)) (cfg : RoundConfig)
    (ordinal : UInt64) (contributions : List Contribution) (start : Adapter)
    (runs : List ChunkRun) (values : List (List F32)) (outcome : RoundOutcome) : Prop where
  valid : cfg.Valid
  enough : cfg.minParticipants.toNat ≤ contributions.length
  few : contributions.length < 2 ^ 16
  chunks_lt : chunkCount (Delta.valueCount start) cfg.chunkDim < 2 ^ 32
  ran : List.Forall₂ (Ran backend cfg contributions)
    (List.range (chunkCount (Delta.valueCount start) cfg.chunkDim)) runs
  merged : Delta.merge ops start (runs.flatMap fun run => run.parsed.values) cfg.valueScaleLog2 =
    .ok values
  adapter : Delta.mergedGguf overflowChecks start values = .ok outcome.mergedAdapter
  adapterHash : outcome.bundle.adapterSha256 = H.sha256 outcome.mergedAdapter
  config : outcome.bundle.config = cfg
  configHash : outcome.bundle.configHash = cfg.configHash H
  roundId : outcome.bundle.roundId = cfg.roundId H ordinal
  chunks : outcome.bundle.chunks.toNat = chunkCount (Delta.valueCount start) cfg.chunkDim
  participants : outcome.bundle.participants = contributions.map participantOf
  inputHashes : outcome.bundle.inputHashes = toHex (runs.map (inputHash H))
  outputHashes : outcome.bundle.outputHashes = toHex (runs.map (outputHash H))
  stateCounts : outcome.bundle.stateCounts = tally (statesOf runs)
  participantsRoot : Tree.root H (contributions.map (payloadOf H)) =
    .ok outcome.bundle.participantsRoot
  inputRoot : Tree.root H (runs.map (inputHash H)) = .ok outcome.bundle.inputRoot
  outputRoot : Tree.root H (runs.map (outputHash H)) = .ok outcome.bundle.outputRoot
  digest : outcome.bundle.recordDigest =
    recordDigest H cfg.chainId cfg.ledger outcome.bundle.roundId outcome.bundle.configHash
      outcome.bundle.participantsRoot outcome.bundle.inputRoot outcome.bundle.outputRoot
      outcome.bundle.adapterSha256 outcome.bundle.nValues outcome.bundle.chunks contributions.length

theorem aggregate_eq_ok {excluded : List Exclusion} {start : Adapter} {outcome : RoundOutcome}
    (h : aggregate H ops overflowChecks backend cfg ordinal contributions excluded start =
      .ok outcome) :
    ∃ runs merged, Aggregated H ops overflowChecks backend cfg ordinal contributions start runs
      merged outcome := by
  unfold aggregate at h
  have ⟨_, hvalid, h⟩ := bind_eq_ok.mp h
  have ⟨henough, h⟩ := check_eq_ok.mp h
  have ⟨hchunks, h⟩ := check_eq_ok.mp h
  have ⟨f, hfold, h⟩ := bind_eq_ok.mp h
  have ⟨merged, hmerged, h⟩ := bind_eq_ok.mp h
  have ⟨adapter, hadapter, h⟩ := bind_eq_ok.mp h
  have ⟨proot, hproot, h⟩ := bind_eq_ok.mp h
  have ⟨iroot, hiroot, h⟩ := bind_eq_ok.mp h
  have ⟨oroot, horoot, h⟩ := bind_eq_ok.mp h
  have ⟨hfew, h⟩ := check_eq_ok.mp h
  have ⟨runs, hran, hruns⟩ := foldlM_bind_eq_ok hfold
  have hrecorded : Recorded H runs f := foldlM_foldChunk (recorded_start H) hruns
  rw [checked_eq_ok, mapError_eq_ok] at hvalid
  rw [mapStop_eq_ok] at hmerged hadapter
  unfold aggregateRoot at hproot hiroot horoot
  rw [checked_eq_ok, mapError_eq_ok] at hproot hiroot horoot
  have hlt : chunkCount (Delta.valueCount start) cfg.chunkDim < 2 ^ 32 := not_le.mp hchunks
  rw [hrecorded.inPayloads] at hiroot
  rw [hrecorded.outPayloads] at horoot
  rw [hrecorded.agg] at hmerged
  have hinputs := hrecorded.inputHashes
  have houtputs := hrecorded.outputHashes
  rw [hrecorded.inPayloads] at hinputs
  rw [hrecorded.outPayloads] at houtputs
  cases h
  exact ⟨runs, merged,
    { valid := RoundConfig.valid_of_validate hvalid
      enough := by omega
      few := by omega
      chunks_lt := hlt
      ran := hran.imp fun _ _ => runChunk_eq_ok
      merged := hmerged
      adapter := hadapter
      adapterHash := rfl
      config := rfl
      configHash := rfl
      roundId := rfl
      chunks := UInt32.toNat_ofNat_of_lt' hlt
      participants := rfl
      inputHashes := hinputs
      outputHashes := houtputs
      stateCounts := hrecorded.stateCounts
      participantsRoot := hproot
      inputRoot := hiroot
      outputRoot := horoot
      digest := rfl }⟩

end

/-! ## Every chunk of an aggregated round can be proved -/

theorem parseList_toHex (xs : List B32) : parseList (toHex xs) = .ok xs := by
  induction xs with
  | nil => rfl
  | cons x rest ih =>
      have hparse : okOr (parseHex 32 (hex0x x.toBytes)) (RoundError.hex (hex0x x.toBytes)) =
          .ok x := by
        rw [parseHex_hex0x, okOr_some]
      unfold parseList toHex at ih ⊢
      rw [List.map_cons, List.mapM_cons, bind_of_ok hparse, bind_of_ok ih]
      rfl

theorem mapM_of_ok {ε α β : Type} {f : α → Except ε β} {g : α → β} {items : List α}
    (h : ∀ a ∈ items, f a = .ok (g a)) : items.mapM f = .ok (items.map g) := by
  induction items with
  | nil => rfl
  | cons a rest ih =>
      rw [List.mapM_cons, bind_of_ok (h a List.mem_cons_self),
        bind_of_ok (ih fun a ha => h a (List.mem_cons_of_mem _ ha))]
      rfl

/-- What a row proof shows to a verifier that knows the roots: the participant is listed
with its delta, and `values` are its row of the chunk. -/
structure RowProves (H : Hashes) (b : Bundle) (chunk : UInt32) (i : Nat) (p : BundleParticipant)
    (values : List Int64) (r : RowProof) : Prop where
  participant : r.participant = i
  worker : r.worker = hex0x p.worker.toBytes
  deltaRoot : r.deltaRoot = hex0x p.deltaRoot.toBytes
  listed : ∃ path, r.participantProof = toHex path ∧
    Tree.verify H b.participantsRoot (UInt32.ofNat i) (participantPayload H p.worker p.deltaRoot)
      path = true
  rowHash : r.rowHash = hex0x (Federated.rowHash H values).toBytes
  inDelta : ∃ path, r.rowProof = toHex path ∧
    Tree.verify H p.deltaRoot chunk (Federated.rowHash H values) path = true

/-- What the proofs of a chunk show: `input` and `output` are the committed ones, and
the rows of the input are the participants'. -/
structure ChunkProves (H : Hashes) (b : Bundle) (chunk : UInt32) (input output : List UInt8)
    (proof : ChunkProof) : Prop where
  chunk_eq : proof.chunk = chunk
  input_eq : proof.input = hex0x input
  inInputs : ∃ path, proof.inputProof = toHex path ∧
    Tree.verify H b.inputRoot chunk (keccak H [input]) path = true
  output_eq : proof.outputHash = hex0x (keccak H [output]).toBytes
  inOutputs : ∃ path, proof.outputProof = toHex path ∧
    Tree.verify H b.outputRoot chunk (keccak H [output]) path = true
  rows_length : proof.rows.length = b.participants.length
  row : ∀ i p, b.participants[i]? = some p → ∃ values r, (rowsOfInput input)[i]? = some values ∧
    proof.rows[i]? = some r ∧ RowProves H b chunk i p values r

section

variable {env : RoundEnv} {b : Bundle}

theorem treeProof_verifies {payloads : List B32} {root : B32}
    (hroot : Tree.root env.hashes payloads = .ok root) {i : Nat} {p : B32}
    (hp : payloads[i]? = some p) {index : UInt32} (hindex : index.toNat = i) :
    ∃ path, treeProof env payloads i = .ok path ∧
      Tree.verify env.hashes root index p path = true := by
  have ⟨path, hpath, _, hclimb⟩ := Tree.proof_spec hroot hp
  refine ⟨path, ?_, ?_⟩
  · unfold treeProof
    rw [checked_eq_ok, mapError_eq_ok]
    exact hpath
  · unfold Tree.verify
    rw [hindex, hclimb]
    exact beq_self_eq_true root

theorem deltaRoot_eq_ok {H : Hashes} {values : List Int64} {chunkDim : UInt32} {root : B32}
    (h : deltaRoot H values chunkDim = .ok root) :
    ∃ rh, rowHashes H values chunkDim = .ok rh ∧ Tree.root H rh = .ok root := by
  unfold deltaRoot at h
  have ⟨rh, hrh, h⟩ := bind_eq_ok.mp h
  refine ⟨rh, hrh, ?_⟩
  split at h
  · rename_i hroot
    cases h
    exact hroot
  · cases h

/-- The row of a participant whose delta has the root it is listed with. -/
theorem rowProof_proves {chunk : UInt32}
    (hroot : Tree.root env.hashes (participantPayloads env.hashes b) = .ok b.participantsRoot)
    {p : BundleParticipant} {a : Artifact} {i : Nat} (hp : b.participants[i]? = some p)
    (hi : i < 2 ^ 16) (hdelta : deltaRoot env.hashes a.values b.config.chunkDim = .ok p.deltaRoot)
    (hdim : 0 < b.config.chunkDim)
    (hc : chunk.toNat < chunkCount a.values.length b.config.chunkDim) :
    ∃ r, rowProof env b chunk.toNat ((p, a), i) = .ok r ∧
      RowProves env.hashes b chunk i p (row a.values b.config.chunkDim chunk.toNat) r := by
  have ⟨rh, hrh, hrows⟩ := deltaRoot_eq_ok hdelta
  have ⟨rh', hrh', hget⟩ := rowHashes_get (H := env.hashes) hdim hc
  cases hrh.symm.trans hrh'
  have hlisted : (participantPayloads env.hashes b)[i]? =
      some (participantPayload env.hashes p.worker p.deltaRoot) := by
    unfold participantPayloads
    rw [List.getElem?_map, hp, Option.map_some]
  have hindex : (UInt32.ofNat i).toNat = i := UInt32.toNat_ofNat_of_lt' (hi.trans (by decide))
  have ⟨ppath, hppath, hpverify⟩ := treeProof_verifies hroot hlisted hindex
  have ⟨rpath, hrpath, hrverify⟩ := treeProof_verifies hrows hget rfl
  have hlist : RustStd.checked
      ((rowHashes env.hashes a.values b.config.chunkDim).mapError RoundError.artifact) = .ok rh := by
    rw [checked_eq_ok, mapError_eq_ok]
    exact hrh
  unfold rowProof
  dsimp only
  rw [bind_of_ok hlist, bind_of_ok hppath, bind_of_ok (indexAt_ok hget), bind_of_ok hrpath]
  refine ⟨_, rfl, ?_⟩
  exact
    { participant := Nat.mod_eq_of_lt hi
      worker := rfl
      deltaRoot := rfl
      listed := ⟨ppath, rfl, hpverify⟩
      rowHash := rfl
      inDelta := ⟨rpath, rfl, hrverify⟩ }

/-- A contribution whose artifact is in the delta store and has the signed root. -/
structure Stored (env : RoundEnv) (cfg : RoundConfig) (k : Contribution) : Prop where
  artifact : ∃ bytes, env.read (deltaFile k.result.deltaSha256) = some bytes ∧
    env.hashes.sha256 bytes = k.result.deltaSha256 ∧
    Artifact.decode false bytes cfg.maxValues = .ok k.artifact
  root : deltaRoot env.hashes k.artifact.values cfg.chunkDim = .ok k.result.deltaRoot

theorem stored_of_collected {checks : Bool} {cfg : RoundConfig} {ordinal : UInt64}
    {start : Adapter} {s : State} {contributions : List Contribution} {excluded : List Exclusion}
    (h : collect checks env cfg ordinal start s = .ok (contributions, excluded))
    {k : Contribution} (hk : k ∈ contributions) : Stored env cfg k := by
  rw [mem_contributions h, findSome_offers_iff] at hk
  have ⟨_, _, hacceptable, _⟩ := hk
  exact ⟨hacceptable.artifact, hacceptable.root⟩

variable {ops : Delta.FloatOps} {overflowChecks : Bool}
  {backend : Nat → List UInt8 → Except String (List UInt8)} {cfg : RoundConfig}
  {ordinal : UInt64} {contributions : List Contribution} {start : Adapter}
  {runs : List ChunkRun} {values : List (List F32)} {outcome : RoundOutcome}

theorem Aggregated.participantPayloads
    (h : Aggregated env.hashes ops overflowChecks backend cfg ordinal contributions start runs
      values outcome) :
    participantPayloads env.hashes outcome.bundle = contributions.map (payloadOf env.hashes) := by
  unfold Coordinator.participantPayloads
  rw [h.participants, List.map_map]
  rfl

/-- A bundle that was aggregated passes the check of a published one. -/
theorem Aggregated.rootsFollow
    (h : Aggregated env.hashes ops overflowChecks backend cfg ordinal contributions start runs
      values outcome) : RootsFollow env.hashes outcome.bundle where
  participants := by
    rw [h.participantPayloads]
    exact h.participantsRoot
  inputs := ⟨_, by rw [h.inputHashes]; exact parseList_toHex _, h.inputRoot⟩
  outputs := ⟨_, by rw [h.outputHashes]; exact parseList_toHex _, h.outputRoot⟩
  few := by
    rw [h.participants, List.length_map]
    exact h.few
  digest := by
    rw [h.digest, h.config, h.participants, List.length_map]

theorem Aggregated.chunk {H : Hashes}
    (h : Aggregated H ops overflowChecks backend cfg ordinal contributions start runs
      values outcome) {c : Nat} (hc : c < chunkCount (Delta.valueCount start) cfg.chunkDim) :
    ∃ run, runs[c]? = some run ∧ Ran backend cfg contributions c run := by
  have hlength := h.ran.length_eq
  rw [List.length_range] at hlength
  have hrun : c < runs.length := by omega
  have hran := (List.forall₂_iff_get.mp h.ran).2 c (by rwa [List.length_range]) hrun
  simp only [List.get_eq_getElem, List.getElem_range] at hran
  exact ⟨runs[c], List.getElem?_eq_getElem hrun, hran⟩

/-- The artifacts are read back from the store, in the order of the contributions. -/
theorem Aggregated.readArtifacts
    (h : Aggregated env.hashes ops overflowChecks backend cfg ordinal contributions start runs
      values outcome) (hstored : ∀ k ∈ contributions, Stored env cfg k) :
    readArtifacts false env outcome.bundle = .ok (contributions.map Contribution.artifact) := by
  have hread : ∀ k ∈ contributions,
      readArtifact false env outcome.bundle (participantOf k) = .ok k.artifact := by
    intro k hk
    rw [readArtifact_eq_ok, h.config]
    exact (hstored k hk).artifact
  unfold Coordinator.readArtifacts
  rw [h.participants, List.mapM_map]
  exact mapM_of_ok hread

/-- The row proofs of a chunk, one for each contribution. -/
theorem Aggregated.rowProofs
    (h : Aggregated env.hashes ops overflowChecks backend cfg ordinal contributions start runs
      values outcome) (hstored : ∀ k ∈ contributions, Stored env cfg k) {chunk : UInt32}
    {input : List UInt8}
    (hinput : chunkInput (roundRows cfg contributions chunk.toNat) cfg.chunkRules = .ok input) :
    ∃ rows, (outcome.bundle.participants.zip
        (contributions.map Contribution.artifact)).zipIdx.mapM
          (rowProof env outcome.bundle chunk.toNat) = .ok rows ∧
      rows.length = outcome.bundle.participants.length ∧
      ∀ i p, outcome.bundle.participants[i]? = some p → ∃ v r, (rowsOfInput input)[i]? = some v ∧
        rows[i]? = some r ∧ RowProves env.hashes outcome.bundle chunk i p v r := by
  have hfollow := h.rootsFollow
  have hdim : 0 < cfg.chunkDim := UInt32.pos_iff_ne_zero.mpr h.valid.chunkDim_pos
  have hpairs : outcome.bundle.participants.zip (contributions.map Contribution.artifact) =
      contributions.map fun k => (participantOf k, k.artifact) := by
    rw [h.participants, List.zip_map']
  have hone : ∀ i k, contributions[i]? = some k → ∃ r,
      rowProof env outcome.bundle chunk.toNat ((participantOf k, k.artifact), i) = .ok r ∧
        RowProves env.hashes outcome.bundle chunk i (participantOf k)
          (row k.artifact.values cfg.chunkDim chunk.toNat) r := by
    intro i k hk
    have hmem := List.mem_of_getElem? hk
    have hi := (List.getElem?_eq_some_iff.mp hk).1
    have hp : outcome.bundle.participants[i]? = some (participantOf k) := by
      rw [h.participants, List.getElem?_map, hk, Option.map_some]
    -- the chunk has an input, so that the contribution has a row in it
    have ⟨dim, hpos, _, _, _, hwidth, _⟩ := chunkInput_spec hinput
    have hlength := hwidth _ (mem_roundRows hmem)
    rw [row_length] at hlength
    have hin : chunk.toNat < chunkCount k.artifact.values.length cfg.chunkDim := by
      rw [lt_chunkCount_iff hdim]
      omega
    have hproves := @rowProof_proves env outcome.bundle chunk hfollow.participants _ k.artifact i hp
      (by have := h.few; omega)
    rw [h.config] at hproves
    exact hproves (hstored k hmem).root hdim hin
  have hentry : ∀ entry ∈ (outcome.bundle.participants.zip
      (contributions.map Contribution.artifact)).zipIdx,
      ∃ k, contributions[entry.2]? = some k ∧ entry.1 = (participantOf k, k.artifact) := by
    intro entry hmem
    have hget := List.mem_zipIdx_iff_getElem?.mp hmem
    rw [hpairs, List.getElem?_map, Option.map_eq_some_iff] at hget
    have ⟨k, hk, hsame⟩ := hget
    exact ⟨k, hk, hsame.symm⟩
  have ⟨rows, hrows⟩ : ∃ rows, (outcome.bundle.participants.zip
      (contributions.map Contribution.artifact)).zipIdx.mapM
        (rowProof env outcome.bundle chunk.toNat) = .ok rows := by
    apply mapM_ok
    intro entry hmem
    have ⟨k, hk, hsame⟩ := hentry entry hmem
    have ⟨r, hr, _⟩ := hone entry.2 k hk
    rw [← hsame] at hr
    exact ⟨r, hr⟩
  have hall := mapM_eq_ok hrows
  have hcount := hall.length_eq
  rw [List.length_zipIdx, hpairs, List.length_map] at hcount
  refine ⟨rows, hrows, ?_, ?_⟩
  · rw [h.participants, List.length_map]
    exact hcount.symm
  · intro i p hp
    rw [h.participants, List.getElem?_map, Option.map_eq_some_iff] at hp
    have ⟨k, hk, hsame⟩ := hp
    subst hsame
    have hi := (List.getElem?_eq_some_iff.mp hk).1
    have ⟨r, hr, hproves⟩ := hone i k hk
    have hrow : (rowsOfInput input)[i]? =
        some (row k.artifact.values cfg.chunkDim chunk.toNat) := by
      rw [rowsOfInput_eq hinput, roundRows, List.getElem?_map, hk, Option.map_some]
    have hir : i < rows.length := by omega
    have hstep := (List.forall₂_iff_get.mp hall).2 i
      (by rw [List.length_zipIdx, hpairs, List.length_map]; exact hi) hir
    have hat : ((outcome.bundle.participants.zip
        (contributions.map Contribution.artifact)).zipIdx)[i]? =
          some ((participantOf k, k.artifact), i) := by
      rw [List.getElem?_zipIdx, hpairs, List.getElem?_map, hk]
      simp
    rw [List.get_eq_getElem, List.get_eq_getElem, (List.getElem?_eq_some_iff.mp hat).2, hr] at hstep
    have hsame : r = rows[i] := Except.ok.inj hstep
    exact ⟨_, r, hrow, by rw [hsame]; exact List.getElem?_eq_getElem hir, hproves⟩

theorem Aggregated.chunkProof_proves
    (h : Aggregated env.hashes ops overflowChecks backend cfg ordinal contributions start runs
      values outcome) (hstored : ∀ k ∈ contributions, Stored env cfg k) {chunk : UInt32}
    (hchunk : chunk < outcome.bundle.chunks) :
    ∃ run proof, Ran backend cfg contributions chunk.toNat run ∧
      chunkProof overflowChecks env outcome.bundle chunk = .ok proof ∧
      ChunkProves env.hashes outcome.bundle chunk run.input run.output proof := by
  have hlt : chunk.toNat < outcome.bundle.chunks.toNat := hchunk
  have ⟨run, hrun, hran⟩ := h.chunk (h.chunks ▸ hlt)
  have harts := h.readArtifacts hstored
  have hrows : chunkRows outcome.bundle (contributions.map Contribution.artifact) chunk.toNat =
      roundRows cfg contributions chunk.toNat := by
    unfold chunkRows roundRows
    rw [h.config, List.map_map]
    rfl
  have ⟨rows, hproofs, hlength, hproves⟩ := h.rowProofs hstored hran.input
  have hat : (runs.map (inputHash env.hashes))[chunk.toNat]? =
      some (keccak env.hashes [run.input]) := by
    rw [List.getElem?_map, hrun]
    rfl
  have hout : (runs.map (outputHash env.hashes))[chunk.toNat]? =
      some (keccak env.hashes [run.output]) := by
    rw [List.getElem?_map, hrun]
    rfl
  have ⟨ipath, hipath, hiverify⟩ := treeProof_verifies h.inputRoot hat rfl
  have ⟨opath, hopath, hoverify⟩ := treeProof_verifies h.outputRoot hout rfl
  have hins : RustStd.checked (parseList outcome.bundle.inputHashes) =
      .ok (runs.map (inputHash env.hashes)) := by
    rw [checked_eq_ok, h.inputHashes]
    exact parseList_toHex _
  have houts : RustStd.checked (parseList outcome.bundle.outputHashes) =
      .ok (runs.map (outputHash env.hashes)) := by
    rw [checked_eq_ok, h.outputHashes]
    exact parseList_toHex _
  have hrebuilt : RustStd.checked ((chunkInput (chunkRows outcome.bundle
      (contributions.map Contribution.artifact) chunk.toNat)
        outcome.bundle.config.chunkRules).mapError RoundError.wire) = .ok run.input := by
    rw [checked_eq_ok, mapError_eq_ok, hrows, h.config]
    exact hran.input
  unfold chunkProof
  dsimp only
  rw [if_neg (by omega), bind_of_ok (readArtifacts_eq_ok.mpr harts), bind_of_ok hrebuilt,
    bind_of_ok hins, bind_of_ok houts, bind_of_ok (indexAt_ok hat), if_neg (not_not_intro rfl),
    bind_of_ok hproofs, bind_of_ok hipath, bind_of_ok (indexAt_ok hout), bind_of_ok hopath]
  refine ⟨run, _, hran, rfl, ?_⟩
  exact
    { chunk_eq := rfl
      input_eq := rfl
      inInputs := ⟨ipath, rfl, hiverify⟩
      output_eq := rfl
      inOutputs := ⟨opath, rfl, hoverify⟩
      rows_length := hlength
      row := hproves }

end

/-- The contributions that are collected are in the store; and of contributions that are,
every aggregated round has a bundle that passes the check of a published one and whose
every chunk can be proved: what was sent to the node, what it answered, and the row of
each participant, under the roots that the bundle states. -/
theorem aggregated_round_provable (env : RoundEnv) (ops : Delta.FloatOps) (overflowChecks : Bool)
    (backend : Nat → List UInt8 → Except String (List UInt8)) (cfg : RoundConfig)
    (ordinal : UInt64) (start : Adapter) :
    (∀ s contributions excluded,
      collect overflowChecks env cfg ordinal start s = .ok (contributions, excluded) →
        ∀ k ∈ contributions, Stored env cfg k) ∧
    ∀ contributions excluded outcome, (∀ k ∈ contributions, Stored env cfg k) →
      aggregate env.hashes ops overflowChecks backend cfg ordinal contributions excluded start =
        .ok outcome →
      checkBundleRoots env.hashes outcome.bundle = .ok () ∧
      ∀ chunk < outcome.bundle.chunks, ∃ run proof,
        Ran backend cfg contributions chunk.toNat run ∧
        chunkProof overflowChecks env outcome.bundle chunk = .ok proof ∧
        ChunkProves env.hashes outcome.bundle chunk run.input run.output proof := by
  refine ⟨fun s contributions excluded h k hk => stored_of_collected h hk, ?_⟩
  intro contributions excluded outcome hstored h
  have ⟨runs, values, hparts⟩ := aggregate_eq_ok h
  exact ⟨checkBundleRoots_ok.mpr hparts.rootsFollow, fun chunk hchunk =>
    hparts.chunkProof_proves hstored hchunk⟩

/-- An adapter with one tensor of two values. -/
def pairStart : Adapter where
  header :=
    { version := 3
      kv := []
      tensors := [⟨"x.lora_a", [2], Gguf.GGML_TYPE_F32, 0⟩]
      alignment := 32
      dataOffset := 96
      fileLen := 104 }
  values := [[0, 0]]

/-- Operations that are those of `f64` on the value 0. -/
def zeroOps : Delta.FloatOps where
  isFinite _ := true
  sub _ _ := 0
  mul _ _ := 0
  abs x := x
  gt _ _ := false
  powi2 _ := 0
  fromF32 _ := 0
  widen _ := 0
  ofInt _ := 0
  add64 _ _ := 0
  mul64 _ _ := 0
  div64 _ _ := 0
  powi264 _ := 0
  narrow _ := 0

def trioConfig : RoundConfig where
  chainId := 1
  ledger := FixedBytes.ofNat 1
  clusterId := FixedBytes.ofNat 1
  baseModelSha256 := FixedBytes.ofNat 1
  startAdapterSha256 := FixedBytes.ofNat 1
  roster := [FixedBytes.ofNat 1, FixedBytes.ofNat 2, FixedBytes.ofNat 3]
  minParticipants := 3
  chunkDim := 1
  valueScaleLog2 := 4
  thresholdPos := 1
  thresholdNeg := -1
  confidence := .nonzero
  weight := .uniform
  maxValues := 2

/-- A worker with the delta of two values. -/
def trioMember (i : Nat) : Contribution where
  job := "a"
  result :=
    { shortResult Tree.residueHashes with
      worker := FixedBytes.ofNat i
      deltaRoot := ((deltaRoot Tree.residueHashes twoChunks.values 1).toOption).getD
        FixedBytes.zero }
  artifact := twoChunks

def trio : List Contribution := [trioMember 1, trioMember 2, trioMember 3]

/-- A node that answers every call with the value 0 and the state `Neither`. -/
def zeroNode (_ : Nat) (_ : List UInt8) : Except String (List UInt8) := .ok (List.replicate 9 0)

theorem trioMember_stored (i : Nat) :
    Stored (shortEnv Tree.residueHashes) trioConfig (trioMember i) where
  artifact := by
    have hdecode : Artifact.decode false twoChunks.encode 2 = .ok twoChunks := by decide +kernel
    exact ⟨twoChunks.encode, rfl, rfl, hdecode⟩
  root := by
    have hroot : deltaRoot Tree.residueHashes twoChunks.values 1 =
        .ok (((deltaRoot Tree.residueHashes twoChunks.values 1).toOption).getD FixedBytes.zero) := by
      decide +kernel
    exact hroot

theorem trio_stored : ∀ k ∈ trio, Stored (shortEnv Tree.residueHashes) trioConfig k := by
  intro k hk
  simp only [trio, List.mem_cons, List.not_mem_nil, or_false] at hk
  rcases hk with rfl | rfl | rfl
  · exact trioMember_stored 1
  · exact trioMember_stored 2
  · exact trioMember_stored 3

theorem trio_aggregated : (aggregate Tree.residueHashes zeroOps true zeroNode trioConfig 0 trio []
    pairStart).isOk = true := by
  decide +kernel

/-- The second chunk of a round of three. -/
theorem aggregated_round_provable_trio : ∃ (outcome : RoundOutcome) (run : ChunkRun)
    (proof : ChunkProof),
    aggregate Tree.residueHashes zeroOps true zeroNode trioConfig 0 trio [] pairStart =
      .ok outcome ∧
    chunkProof true (shortEnv Tree.residueHashes) outcome.bundle 1 = .ok proof ∧
    ChunkProves Tree.residueHashes outcome.bundle 1 run.input run.output proof := by
  cases houtcome : aggregate Tree.residueHashes zeroOps true zeroNode trioConfig 0 trio []
      pairStart with
  | error e =>
      have hok := trio_aggregated
      rw [houtcome] at hok
      cases hok
  | ok outcome =>
      have ⟨_, _, hparts⟩ := aggregate_eq_ok houtcome
      have hchunks : outcome.bundle.chunks.toNat = 2 := hparts.chunks
      have hin : (1 : UInt32) < outcome.bundle.chunks := by
        rw [UInt32.lt_iff_toNat_lt, hchunks]
        decide
      have hall := (aggregated_round_provable (shortEnv Tree.residueHashes) zeroOps true zeroNode
        trioConfig 0 pairStart).2 trio [] outcome trio_stored houtcome
      have ⟨run, proof, _, hproof, hproves⟩ := hall.2 1 hin
      exact ⟨outcome, run, proof, rfl, hproof, hproves⟩

end Coordinator
end ComputePool
