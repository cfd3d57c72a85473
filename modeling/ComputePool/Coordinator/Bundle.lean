import ComputePool.Coordinator.Collect
import ComputePool.Federated.ChunkLayout
import ComputePool.Federated.Precompile

/-!
# Round bundles

The bundle of an aggregated round in `fl_round.rs`: the record digest and the calldata
that speak of it, the check of a published bundle, and the proofs for one chunk.  A
bundle is read from JSON, so that its counts, lists, configuration and participants
need not fit together.
-/

namespace ComputePool
namespace Coordinator

open RustStd Federated

inductive RoundError where
  /-- `chunk {chunk} >= {chunks}` -/
  | chunkRange (chunk chunks : UInt32)
  | io
  /-- `{path} does not hash` -/
  | doesNotHash (name : String)
  | artifact (e : DeltaError)
  | wire (e : BelnapWireError)
  /-- The error of `parse_hex`. -/
  | hex (s : String)
  /-- `the rebuilt input does not match the bundle's committed leaf` -/
  | leafMismatch
  | tree (e : Tree.TreeError)
  /-- `too many participants` -/
  | tooManyParticipants
  /-- `{name} root does not follow from its leaves` -/
  | root (name : String)
  /-- `record digest does not follow from the bundle` -/
  | recordDigest
  deriving DecidableEq

/-- One participant in the bundle. -/
structure BundleParticipant where
  worker : Addr
  job : JobId
  deltaRoot : B32
  deltaSha256 : B32
  /-- The worker's signed result, verbatim. -/
  result : LoraDeltaResult
  deriving DecidableEq

/-- Everything needed to audit, replay and challenge a round. -/
structure Bundle where
  version : String
  ordinal : UInt64
  roundId : B32
  configHash : B32
  config : RoundConfig
  participants : List BundleParticipant
  nValues : UInt64
  chunks : UInt32
  inputHashes : List String
  outputHashes : List String
  participantsRoot : B32
  inputRoot : B32
  outputRoot : B32
  adapterSha256 : B32
  recordDigest : B32
  /-- `[neither, true, false, both]` over the whole round. -/
  stateCounts : List Nat
  excluded : List Exclusion
  deriving DecidableEq

section

variable (H : Hashes)

/-- The participant leaf payload. -/
def participantPayload (worker : Addr) (deltaRoot : B32) : B32 :=
  keccak H [worker.toBytes, deltaRoot.toBytes]

def wordU64 (v : Nat) : List UInt8 := List.replicate 24 0 ++ toBE 8 v

def wordAddr (a : Addr) : List UInt8 := List.replicate 12 0 ++ a.toBytes

def recordDigest (chainId : UInt64) (ledger : Addr) (roundId configHash participantsRoot inputRoot
    outputRoot adapterHash : B32) (nValues : UInt64) (chunks : UInt32) (participants : Nat) : B32 :=
  keccak H
    [wordU64 chainId.toNat, wordAddr ledger, roundId.toBytes, configHash.toBytes,
      participantsRoot.toBytes, inputRoot.toBytes, outputRoot.toBytes, adapterHash.toBytes,
      wordU64 nValues.toNat, wordU64 chunks.toNat, wordU64 participants]

def COMMIT_SIG : String :=
  "commitRound((bytes32,uint64,bytes32,bytes32,uint16,uint64,bytes32,bytes32,uint32,bytes32))"

/-- The unsigned `commitRound` calldata for a bundle. -/
def commitCalldata (b : Bundle) : List UInt8 :=
  [selector H COMMIT_SIG, b.config.clusterId.toBytes, wordU64 b.ordinal.toNat,
    b.configHash.toBytes, b.participantsRoot.toBytes, wordU64 b.participants.length,
    wordU64 b.nValues.toNat, b.inputRoot.toBytes, b.outputRoot.toBytes, wordU64 b.chunks.toNat,
    b.adapterSha256.toBytes].flatten

def parseList (v : List String) : Except RoundError (List B32) :=
  v.mapM fun s => okOr (parseHex 32 s) (.hex s)

/-! ## The check of a published bundle -/

/-- The roots and record digest that follow from a bundle's own leaf lists. -/
structure Roots where
  participantsRoot : B32
  inputRoot : B32
  outputRoot : B32
  recordDigest : B32
  deriving DecidableEq

def participantPayloads (b : Bundle) : List B32 :=
  b.participants.map fun p => participantPayload H p.worker p.deltaRoot

def treeRoot (payloads : List B32) : Except RoundError B32 :=
  (Tree.root H payloads).mapError RoundError.tree

/-- Recompute the roots and record digest from a bundle's leaves, without trusting
the roots it states. -/
def recomputeRoots (b : Bundle) : Except RoundError Roots := do
  let participantsRoot ← treeRoot H (participantPayloads H b)
  let ins ← parseList b.inputHashes
  let inputRoot ← treeRoot H ins
  let outs ← parseList b.outputHashes
  let outputRoot ← treeRoot H outs
  if b.participants.length ≥ 2 ^ 16 then .error .tooManyParticipants
  else
    .ok
      { participantsRoot := participantsRoot
        inputRoot := inputRoot
        outputRoot := outputRoot
        recordDigest :=
          recordDigest H b.config.chainId b.config.ledger b.roundId b.configHash participantsRoot
            inputRoot outputRoot b.adapterSha256 b.nValues b.chunks b.participants.length }

/-- A published bundle whose stated roots do not follow from its leaves is malformed. -/
def checkBundleRoots (b : Bundle) : Except RoundError Unit := do
  let r ← recomputeRoots H b
  if r.participantsRoot ≠ b.participantsRoot then .error (.root "participants")
  else if r.inputRoot ≠ b.inputRoot then .error (.root "input")
  else if r.outputRoot ≠ b.outputRoot then .error (.root "output")
  else if r.recordDigest ≠ b.recordDigest then .error .recordDigest
  else .ok ()

end

/-! ## The proofs for one chunk -/

structure RowProof where
  participant : Nat
  worker : String
  deltaRoot : String
  participantProof : List String
  rowHash : String
  rowProof : List String
  deriving DecidableEq

/-- What a challenger needs for one chunk, read from the bundle and the deltas. -/
structure ChunkProof where
  chunk : UInt32
  input : String
  inputProof : List String
  outputHash : String
  outputProof : List String
  /-- Per participant, for a row challenge. -/
  rows : List RowProof
  deriving DecidableEq

section

variable (overflowChecks : Bool) (env : RoundEnv) (b : Bundle)

def toHex (path : List B32) : List String := path.map fun x => hex0x x.toBytes

/-- One iteration of the first loop: a participant's artifact. -/
def readArtifact (p : BundleParticipant) : Checked RoundError Artifact := do
  let bytes ← checked (okOr (env.read (deltaFile p.deltaSha256)) .io)
  if env.hashes.sha256 bytes ≠ p.deltaSha256 then
    .error (.err (.doesNotHash (deltaFile p.deltaSha256)))
  else mapStop .artifact (Artifact.decode overflowChecks bytes b.config.maxValues)

def readArtifacts : Checked RoundError (List Artifact) :=
  b.participants.mapM (readArtifact overflowChecks env b)

def treeProof (payloads : List B32) (index : Nat) : Checked RoundError (List B32) :=
  checked ((Tree.proof env.hashes payloads index).mapError RoundError.tree)

/-- One iteration of the second loop: a participant's row. -/
def rowProof (c : Nat) (entry : (BundleParticipant × Artifact) × Nat) :
    Checked RoundError RowProof := do
  let ((p, a), i) := entry
  let rh ← checked ((rowHashes env.hashes a.values b.config.chunkDim).mapError RoundError.artifact)
  let participantProof ← treeProof env (participantPayloads env.hashes b) i
  let hash ← indexAt rh c
  let path ← treeProof env rh c
  .ok
    { participant := i % 2 ^ 16
      worker := hex0x p.worker.toBytes
      deltaRoot := hex0x p.deltaRoot.toBytes
      participantProof := toHex participantProof
      rowHash := hex0x hash.toBytes
      rowProof := toHex path }

/-- The rows of a chunk. -/
def chunkRows (arts : List Artifact) (c : Nat) : List (List Int64) :=
  arts.map fun a => row a.values b.config.chunkDim c

/-- Build the proofs for `chunk` of a committed bundle.  The input is rebuilt from the
delta artifacts and must hash to the bundle's committed leaf. -/
def chunkProof (chunk : UInt32) : Checked RoundError ChunkProof :=
  let c := chunk.toNat
  if c ≥ b.chunks.toNat then .error (.err (.chunkRange chunk b.chunks))
  else do
    let arts ← readArtifacts overflowChecks env b
    let input ← checked ((chunkInput (chunkRows b arts c) b.config.chunkRules).mapError .wire)
    let ins ← checked (parseList b.inputHashes)
    let outs ← checked (parseList b.outputHashes)
    let leaf ← indexAt ins c
    if keccak env.hashes [input] ≠ leaf then .error (.err .leafMismatch)
    else do
      let rows ← (b.participants.zip arts).zipIdx.mapM (rowProof env b c)
      let inputProof ← treeProof env ins c
      let outputHash ← indexAt outs c
      let outputProof ← treeProof env outs c
      .ok
        { chunk := chunk
          input := hex0x input
          inputProof := toHex inputProof
          outputHash := hex0x outputHash.toBytes
          outputProof := toHex outputProof
          rows := rows }

end

/-! ## What the check of a bundle says -/

/-- What is tied down in a bundle that is accepted: each root by its own leaves, and
the record digest by what it is taken over. -/
structure RootsFollow (H : Hashes) (b : Bundle) : Prop where
  participants : Tree.root H (participantPayloads H b) = .ok b.participantsRoot
  inputs : ∃ ins, parseList b.inputHashes = .ok ins ∧ Tree.root H ins = .ok b.inputRoot
  outputs : ∃ outs, parseList b.outputHashes = .ok outs ∧ Tree.root H outs = .ok b.outputRoot
  few : b.participants.length < 2 ^ 16
  digest : b.recordDigest =
    recordDigest H b.config.chainId b.config.ledger b.roundId b.configHash b.participantsRoot
      b.inputRoot b.outputRoot b.adapterSha256 b.nValues b.chunks b.participants.length

theorem checkBundleRoots_ok {H : Hashes} {b : Bundle} :
    checkBundleRoots H b = .ok () ↔ RootsFollow H b := by
  constructor
  · intro h
    unfold checkBundleRoots at h
    rw [bind_eq_ok] at h
    have ⟨r, hr, hroots⟩ := h
    rw [check_eq_ok, check_eq_ok, check_eq_ok, check_eq_ok] at hroots
    have ⟨hparticipants, hinput, houtput, hdigest, _⟩ := hroots
    rw [not_not] at hparticipants hinput houtput hdigest
    unfold recomputeRoots treeRoot at hr
    rw [bind_eq_ok] at hr
    have ⟨proot, hproot, hr⟩ := hr
    rw [bind_eq_ok] at hr
    have ⟨ins, hins, hr⟩ := hr
    rw [bind_eq_ok] at hr
    have ⟨iroot, hiroot, hr⟩ := hr
    rw [bind_eq_ok] at hr
    have ⟨outs, houts, hr⟩ := hr
    rw [bind_eq_ok] at hr
    have ⟨oroot, horoot, hr⟩ := hr
    rw [check_eq_ok] at hr
    have ⟨hfew, hr⟩ := hr
    rw [mapError_eq_ok] at hproot hiroot horoot
    cases hr
    subst hparticipants hinput houtput
    exact ⟨hproot, ⟨ins, hins, hiroot⟩, ⟨outs, houts, horoot⟩, by omega, hdigest.symm⟩
  · intro h
    have ⟨ins, hins, hiroot⟩ := h.inputs
    have ⟨outs, houts, horoot⟩ := h.outputs
    have hfew := h.few
    have hr : recomputeRoots H b =
        .ok ⟨b.participantsRoot, b.inputRoot, b.outputRoot, b.recordDigest⟩ := by
      unfold recomputeRoots treeRoot
      rw [bind_of_ok (mapError_eq_ok.mpr h.participants), bind_of_ok hins,
        bind_of_ok (mapError_eq_ok.mpr hiroot), bind_of_ok houts,
        bind_of_ok (mapError_eq_ok.mpr horoot), if_neg (by omega), h.digest]
    unfold checkBundleRoots
    rw [bind_of_ok hr]
    simp

/-! ## When the proofs of a chunk do not panic -/

section

variable {checks : Bool} {env : RoundEnv} {b : Bundle} {c : Nat}

theorem treeProof_of_root {payloads : List B32} {root : B32}
    (hroot : Tree.root env.hashes payloads = .ok root) {i : Nat} (hi : i < payloads.length) :
    ∃ path, treeProof env payloads i = .ok path := by
  have ⟨path, hpath, _⟩ := Tree.proof_spec hroot (List.getElem?_eq_getElem hi)
  refine ⟨path, ?_⟩
  unfold treeProof
  rw [checked_eq_ok, mapError_eq_ok]
  exact hpath

/-- A proof over a list that is not empty fails only for a list that is too long. -/
theorem treeProof_ok_iff {payloads : List B32} {i : Nat} (hi : i < payloads.length) :
    (∃ path, treeProof env payloads i = .ok path) ↔ payloads.length ≤ Tree.MAX_LEAVES := by
  have hne : payloads ≠ [] := fun h => by
    rw [h] at hi
    cases hi
  unfold treeProof
  simp only [checked_eq_ok, mapError_eq_ok]
  unfold Tree.proof
  rw [if_neg (not_le.mpr hi)]
  constructor
  · rintro ⟨path, hpath⟩
    have ⟨level, hlevel, _⟩ := bind_eq_ok.mp hpath
    exact (Tree.leaves_spec hlevel).1
  · intro hmany
    have ⟨level, hlevel⟩ := Tree.leaves_ok (H := env.hashes) hne hmany
    exact ⟨_, bind_of_ok hlevel⟩

/-- The artifacts read, one for each participant. -/
theorem readArtifacts_length {arts : List Artifact}
    (h : readArtifacts checks env b = .ok arts) : arts.length = b.participants.length :=
  (List.Forall₂.length_eq (mapM_eq_ok h)).symm

/-- An artifact is read from a file of the store that has the participant's hash. -/
theorem readArtifact_eq_ok {p : BundleParticipant} {a : Artifact} :
    readArtifact checks env b p = .ok a ↔
      ∃ bytes, env.read (deltaFile p.deltaSha256) = some bytes ∧
        env.hashes.sha256 bytes = p.deltaSha256 ∧
        Artifact.decode false bytes b.config.maxValues = .ok a := by
  unfold readArtifact
  simp only [bind_eq_ok, checked_eq_ok, okOr_eq_ok, check_eq_ok, not_not, mapStop_eq_ok]
  constructor
  · rintro ⟨bytes, hbytes, hsha, ha⟩
    exact ⟨bytes, hbytes, hsha, Artifact.decode_eq_ok.mp ha⟩
  · rintro ⟨bytes, hbytes, hsha, ha⟩
    exact ⟨bytes, hbytes, hsha, Artifact.decode_eq_ok.mpr ha⟩

theorem returns_readArtifact_iff {p : BundleParticipant} :
    Returns (readArtifact checks env b p) ↔ ∀ bytes,
      env.read (deltaFile p.deltaSha256) = some bytes →
        env.hashes.sha256 bytes = p.deltaSha256 →
          checks = true → ¬ Artifact.CountOverflows bytes b.config.maxValues := by
  unfold readArtifact
  rw [returns_bind_iff (returns_checked _)]
  refine forall_congr' fun bytes => ?_
  rw [checked_eq_ok, okOr_eq_ok]
  refine imp_congr_right fun _ => ?_
  by_cases hsha : env.hashes.sha256 bytes = p.deltaSha256
  · rw [if_neg (not_not_intro hsha), returns_mapStop, Artifact.decode_returns_iff]
    exact ⟨fun h _ => h, fun h => h hsha⟩
  · rw [if_pos hsha]
    exact iff_of_true (returns_error _) fun h => absurd h hsha

/-- The announced lengths of the deltas fit: none overflows that comes to be decoded,
after deltas that are all there. -/
def LengthsFit (env : RoundEnv) (b : Bundle) : Prop :=
  ∀ front p back, b.participants = front ++ p :: back →
    (∀ q ∈ front, ∃ a, readArtifact true env b q = .ok a) →
      ∀ bytes, env.read (deltaFile p.deltaSha256) = some bytes →
        env.hashes.sha256 bytes = p.deltaSha256 →
          ¬ Artifact.CountOverflows bytes b.config.maxValues

theorem readArtifacts_eq_ok {arts : List Artifact} :
    readArtifacts checks env b = .ok arts ↔ readArtifacts false env b = .ok arts := by
  unfold readArtifacts
  simp only [mapM_eq_ok_iff, readArtifact_eq_ok]

theorem returns_readArtifacts_iff :
    Returns (readArtifacts checks env b) ↔ (checks = true → LengthsFit env b) := by
  unfold readArtifacts LengthsFit
  rw [returns_mapM_iff]
  simp only [returns_readArtifact_iff, readArtifact_eq_ok]
  constructor
  · intro h hchecks front p back hsplit hfront bytes hbytes hsha
    exact h front p back hsplit hfront bytes hbytes hsha hchecks
  · intro h front p back hsplit hfront bytes hbytes hsha hchecks
    exact h hchecks front p back hsplit hfront bytes hbytes hsha

/-- Where the chunk has an input, every participant has a row in it. -/
theorem lt_chunkCount_of_input {arts : List Artifact} {input : List UInt8}
    (hinput : chunkInput (chunkRows b arts c) b.config.chunkRules = .ok input) {a : Artifact}
    (ha : a ∈ arts) :
    0 < b.config.chunkDim ∧ c < chunkCount a.values.length b.config.chunkDim := by
  have ⟨dim, hpos, _, _, _, hrows, _⟩ := chunkInput_spec hinput
  have hlength := hrows _ (List.mem_map_of_mem (f := fun a => row a.values b.config.chunkDim c) ha)
  rw [row_length] at hlength
  have hdim : 0 < b.config.chunkDim := by
    change 0 < b.config.chunkDim.toNat
    omega
  refine ⟨hdim, (lt_chunkCount_iff hdim).mpr ?_⟩
  omega

/-- A row proof does not panic where the row is there, and fails only for an artifact
with more rows than a tree has leaves. -/
theorem rowProof_spec {root : B32}
    (hroot : Tree.root env.hashes (participantPayloads env.hashes b) = .ok root)
    {p : BundleParticipant} {a : Artifact} {i : Nat} (hi : i < b.participants.length)
    (hdim : 0 < b.config.chunkDim) (hc : c < chunkCount a.values.length b.config.chunkDim) :
    Returns (rowProof env b c ((p, a), i)) ∧
      ((∃ r, rowProof env b c ((p, a), i) = .ok r) ↔
        chunkCount a.values.length b.config.chunkDim ≤ Tree.MAX_LEAVES) := by
  have ⟨rh, hrh, hget⟩ := rowHashes_get (H := env.hashes) hdim hc
  have hrows : rh.length = chunkCount a.values.length b.config.chunkDim := by
    unfold rowHashes at hrh
    split at hrh
    · cases hrh
    · cases hrh
      rw [List.length_map, List.length_range]
  have hin : i < (participantPayloads env.hashes b).length := by
    unfold participantPayloads
    rwa [List.length_map]
  have ⟨path, hpath⟩ := treeProof_of_root hroot hin
  have hlist : RustStd.checked
      ((rowHashes env.hashes a.values b.config.chunkDim).mapError RoundError.artifact) = .ok rh := by
    rw [checked_eq_ok, mapError_eq_ok]
    exact hrh
  have hrest := @treeProof_ok_iff env rh c (by omega)
  rw [hrows] at hrest
  unfold rowProof
  dsimp only
  rw [bind_of_ok hlist, bind_of_ok hpath, bind_of_ok (indexAt_ok hget)]
  constructor
  · exact Returns.bind (returns_checked _) fun _ _ => returns_ok _
  · rw [← hrest]
    constructor
    · rintro ⟨r, hr⟩
      have ⟨path, hp, _⟩ := bind_eq_ok.mp hr
      exact ⟨path, hp⟩
    · rintro ⟨path, hp⟩
      exact ⟨_, bind_of_ok hp⟩

/-- The row proofs of a chunk that has an input do not panic, and are all there when no
artifact has more rows than a tree has leaves. -/
theorem rowProofs_spec {arts : List Artifact} {input : List UInt8} {root : B32}
    (hroot : Tree.root env.hashes (participantPayloads env.hashes b) = .ok root)
    (harts : readArtifacts checks env b = .ok arts)
    (hinput : chunkInput (chunkRows b arts c) b.config.chunkRules = .ok input) :
    Returns ((b.participants.zip arts).zipIdx.mapM (rowProof env b c)) ∧
      ((∃ rows, (b.participants.zip arts).zipIdx.mapM (rowProof env b c) = .ok rows) ↔
        ∀ a ∈ arts, chunkCount a.values.length b.config.chunkDim ≤ Tree.MAX_LEAVES) := by
  have hlength := readArtifacts_length harts
  have hentry : ∀ entry ∈ (b.participants.zip arts).zipIdx,
      entry.1.2 ∈ arts ∧ entry.2 < b.participants.length := by
    intro entry hmem
    have hget := List.mem_zipIdx_iff_getElem?.mp hmem
    have hlt := (List.getElem?_eq_some_iff.mp hget).1
    rw [List.length_zip, hlength, min_self] at hlt
    exact ⟨(List.of_mem_zip (List.mem_of_getElem? hget)).2, hlt⟩
  have hone : ∀ entry ∈ (b.participants.zip arts).zipIdx,
      Returns (rowProof env b c entry) ∧ ((∃ r, rowProof env b c entry = .ok r) ↔
        chunkCount entry.1.2.values.length b.config.chunkDim ≤ Tree.MAX_LEAVES) := by
    intro entry hmem
    have ⟨ha, hi⟩ := hentry entry hmem
    have ⟨hdim, hc⟩ := lt_chunkCount_of_input hinput ha
    exact rowProof_spec hroot hi hdim hc
  refine ⟨returns_mapM fun entry hmem => (hone entry hmem).1, ?_⟩
  constructor
  · rintro ⟨rows, hrows⟩ a ha
    -- the artifact stands in the list of pairs, beside its participant
    have ⟨i, hi⟩ := List.getElem?_of_mem ha
    have hlt := (List.getElem?_eq_some_iff.mp hi).1
    have hp : b.participants[i]? = some b.participants[i] := List.getElem?_eq_getElem (by omega)
    have hmem : ((b.participants[i], a), i) ∈ (b.participants.zip arts).zipIdx := by
      rw [List.mem_zipIdx_iff_getElem?, List.getElem?_zip_eq_some]
      exact ⟨hp, hi⟩
    exact (hone _ hmem).2.mp (mapM_ok_of_mem hrows hmem)
  · intro h
    apply mapM_ok
    intro entry hmem
    exact (hone entry hmem).2.mpr (h _ (hentry entry hmem).1)

/-- Every index of the proofs for a chunk in range is in range: there is an input hash,
and where it is the hash of the rebuilt input, and no delta has more rows than a tree has
leaves, there is an output hash. -/
def IndexesReach (env : RoundEnv) (b : Bundle) (chunk : UInt32) : Prop :=
  chunk.toNat < b.chunks.toNat → ∀ arts input ins, readArtifacts false env b = .ok arts →
    chunkInput (chunkRows b arts chunk.toNat) b.config.chunkRules = .ok input →
    parseList b.inputHashes = .ok ins →
      ∃ leaf, ins[chunk.toNat]? = some leaf ∧
        (keccak env.hashes [input] = leaf →
          (∀ a ∈ arts, chunkCount a.values.length b.config.chunkDim ≤ Tree.MAX_LEAVES) →
            chunk.toNat < b.outputHashes.length)

/-- The proofs for a chunk of an accepted bundle return exactly when every index
reaches and, where overflow is checked, the lengths of the deltas fit: the range check is
against the count that the bundle states, nothing ties that count to the two lists of
hashes, and the bound on the values that the deltas are decoded under is the bundle's. -/
theorem chunkProof_returns_iff (overflowChecks : Bool) (env : RoundEnv) (b : Bundle)
    (chunk : UInt32) (h : checkBundleRoots env.hashes b = .ok ()) :
    Returns (chunkProof overflowChecks env b chunk) ↔
      (overflowChecks = true → chunk.toNat < b.chunks.toNat → LengthsFit env b) ∧
        IndexesReach env b chunk := by
  have hfollow := checkBundleRoots_ok.mp h
  have ⟨ins, hins, hiroot⟩ := hfollow.inputs
  have ⟨outs, houts, horoot⟩ := hfollow.outputs
  have hcount : outs.length = b.outputHashes.length :=
    (List.Forall₂.length_eq (mapM_eq_ok houts)).symm
  unfold chunkProof IndexesReach
  dsimp only
  by_cases hc : chunk.toNat ≥ b.chunks.toNat
  · rw [if_pos hc]
    exact iff_of_true (returns_error _)
      ⟨fun _ hlt => absurd hlt (by omega), fun hlt => absurd hlt (by omega)⟩
  · rw [if_neg hc]
    have hlt : chunk.toNat < b.chunks.toNat := by omega
    have hlist : RustStd.checked (parseList b.inputHashes) = .ok ins := checked_eq_ok.mpr hins
    have hlist' : RustStd.checked (parseList b.outputHashes) = .ok outs := checked_eq_ok.mpr houts
    constructor
    · intro hreturns
      have hread : Returns (readArtifacts overflowChecks env b) := fun hpanic => by
        rw [hpanic] at hreturns
        exact hreturns rfl
      refine ⟨fun hchecks _ => returns_readArtifacts_iff.mp hread hchecks, ?_⟩
      rw [returns_bind_iff hread] at hreturns
      intro _ arts input ins' harts hinput hins'
      cases hins.symm.trans hins'
      have hrest := hreturns arts (readArtifacts_eq_ok.mpr harts)
      rw [bind_of_ok (checked_eq_ok.mpr (mapError_eq_ok.mpr hinput)), bind_of_ok hlist,
        bind_of_ok hlist', returns_indexAt_bind] at hrest
      have ⟨leaf, hleaf, hnext⟩ := hrest
      refine ⟨leaf, hleaf, fun heq hmany => ?_⟩
      have ⟨rows, hrows⟩ := (rowProofs_spec hfollow.participants harts hinput).2.mpr hmany
      have ⟨path, hpath⟩ :=
        treeProof_of_root hiroot (List.getElem?_eq_some_iff.mp hleaf).1
      rw [if_neg (not_not.mpr heq), bind_of_ok hrows, bind_of_ok hpath,
        returns_indexAt_bind] at hnext
      have ⟨_, hout, _⟩ := hnext
      rw [← hcount]
      exact (List.getElem?_eq_some_iff.mp hout).1
    · rintro ⟨hfit, hreach⟩
      apply Returns.bind (returns_readArtifacts_iff.mpr fun hchecks => hfit hchecks hlt)
      intro arts harts
      rw [readArtifacts_eq_ok] at harts
      apply Returns.bind (returns_checked _)
      intro input hinput
      rw [checked_eq_ok, mapError_eq_ok] at hinput
      have ⟨leaf, hleaf, hlists⟩ := hreach hlt arts input ins harts hinput hins
      have hspec := rowProofs_spec hfollow.participants harts hinput
      rw [bind_of_ok hlist, bind_of_ok hlist', bind_of_ok (indexAt_ok hleaf)]
      apply returns_ite
      · exact fun _ => returns_error _
      · intro heq
        apply Returns.bind hspec.1
        intro rows hrows
        apply Returns.bind (returns_checked _)
        intro path _
        -- the rows are all there, so that the output hash is asked for
        have hout := hlists (not_not.mp heq) (hspec.2.mp ⟨rows, hrows⟩)
        apply Returns.bind (returns_indexAt (by omega))
        intro out _
        exact Returns.bind (returns_checked _) fun _ _ => returns_ok _

/-- A chunk in range of the count, past the end of the input hashes. -/
theorem chunkProof_panics {chunk : UInt32} (hlt : chunk.toNat < b.chunks.toNat)
    {arts : List Artifact} (harts : readArtifacts false env b = .ok arts) {input : List UInt8}
    (hinput : chunkInput (chunkRows b arts chunk.toNat) b.config.chunkRules = .ok input)
    {ins outs : List B32} (hins : parseList b.inputHashes = .ok ins)
    (houts : parseList b.outputHashes = .ok outs) (hpast : ins.length ≤ chunk.toNat) :
    chunkProof checks env b chunk = .error .panic := by
  unfold chunkProof
  dsimp only
  rw [if_neg (by omega), bind_of_ok (readArtifacts_eq_ok.mpr harts),
    bind_of_ok (checked_eq_ok.mpr (mapError_eq_ok.mpr hinput)),
    bind_of_ok (checked_eq_ok.mpr hins), bind_of_ok (checked_eq_ok.mpr houts)]
  rw [indexAt, List.getElem?_eq_none hpast]
  rfl

/-- A delta of two values, one for each chunk. -/
def twoChunks : Artifact :=
  { valueScaleLog2 := 4
    roundId := FixedBytes.zero
    worker := FixedBytes.zero
    startAdapterSha256 := FixedBytes.zero
    trainedAdapterSha256 := FixedBytes.zero
    manifestHash := FixedBytes.zero
    chunkDim := 1
    values := [1, -1] }

def oneHash : List String := [hex0x (FixedBytes.zero : B32).toBytes]

section

variable (H : Hashes)

def shortResult : LoraDeltaResult where
  task := TASK_LORA_DELTA
  roundId := FixedBytes.zero
  worker := FixedBytes.zero
  deltaRoot := FixedBytes.zero
  deltaSha256 := H.sha256 twoChunks.encode
  nValues := 2
  chunkDim := 1
  startAdapterSha256 := FixedBytes.zero
  trainedAdapterSha256 := FixedBytes.zero
  datasetSha256 := FixedBytes.zero
  examples := 1
  trainer := ""
  seconds := 0
  signature := ""

def shortParticipant : BundleParticipant where
  worker := FixedBytes.zero
  job := "a"
  deltaRoot := FixedBytes.zero
  deltaSha256 := H.sha256 twoChunks.encode
  result := shortResult H

/-- A bundle that states three values in two chunks and lists the hashes of one. -/
def shortBundle : Bundle :=
  let participantsRoot := Tree.leaf H 0 (participantPayload H FixedBytes.zero FixedBytes.zero)
  let root := Tree.leaf H 0 FixedBytes.zero
  { version := ""
    ordinal := 1
    roundId := FixedBytes.zero
    configHash := FixedBytes.zero
    config :=
      { chainId := 1
        ledger := FixedBytes.zero
        clusterId := FixedBytes.zero
        baseModelSha256 := FixedBytes.zero
        startAdapterSha256 := FixedBytes.zero
        roster := [FixedBytes.zero]
        minParticipants := 1
        chunkDim := 1
        valueScaleLog2 := 4
        thresholdPos := 1
        thresholdNeg := -1
        confidence := .nonzero
        weight := .uniform
        maxValues := 2 }
    participants := [shortParticipant H]
    nValues := 3
    chunks := 2
    inputHashes := oneHash
    outputHashes := oneHash
    participantsRoot := participantsRoot
    inputRoot := root
    outputRoot := root
    adapterSha256 := FixedBytes.zero
    recordDigest :=
      recordDigest H 1 FixedBytes.zero FixedBytes.zero FixedBytes.zero participantsRoot root root
        FixedBytes.zero 3 2 1
    stateCounts := [0, 1, 1, 0]
    excluded := [] }

/-- The delta store with the one delta. -/
def shortEnv : RoundEnv where
  hashes := H
  payloadOfJson := fun _ => none
  resultOfStr := fun _ => none
  recoverPoint := fun _ _ _ => none
  read := fun _ => some twoChunks.encode

theorem root_singleton (p : B32) : Tree.root H [p] = .ok (Tree.leaf H 0 p) := by
  have hwidth : Tree.nextPowerOfTwo 1 = 1 := by simp [Tree.nextPowerOfTwo]
  have hleaves : Tree.leaves H [p] = .ok [Tree.leaf H 0 p] := by
    unfold Tree.leaves
    rw [if_neg (by simp), List.length_singleton, if_neg (by decide), hwidth]
    rfl
  unfold Tree.root
  rw [bind_of_ok hleaves]
  rfl

theorem parseList_oneHash : parseList oneHash = .ok [FixedBytes.zero] := by
  unfold parseList oneHash
  rw [List.mapM_cons, parseHex_hex0x]
  rfl

theorem shortBundle_accepted : checkBundleRoots H (shortBundle H) = .ok () := by
  rw [checkBundleRoots_ok]
  exact
    { participants := root_singleton H _
      inputs := ⟨_, parseList_oneHash, root_singleton H _⟩
      outputs := ⟨_, parseList_oneHash, root_singleton H _⟩
      few := (by decide : 1 < 2 ^ 16)
      digest := rfl }

theorem shortBundle_artifacts :
    readArtifacts false (shortEnv H) (shortBundle H) = .ok [twoChunks] := by
  have hdecode : Artifact.decode false twoChunks.encode 2 = .ok twoChunks := by
    refine Artifact.decode_encode false (by decide) (by decide) ?_
    rw [Artifact.encode_length]
    decide
  have hread : readArtifact false (shortEnv H) (shortBundle H) (shortParticipant H) =
      .ok twoChunks := readArtifact_eq_ok.mpr ⟨twoChunks.encode, rfl, rfl, hdecode⟩
  unfold readArtifacts
  change [shortParticipant H].mapM _ = _
  rw [List.mapM_cons, bind_of_ok hread]
  rfl

/-- The second chunk is in range of the count, and there is no second hash. -/
theorem shortBundle_panics (checks : Bool) :
    chunkProof checks (shortEnv H) (shortBundle H) 1 = .error .panic := by
  have hrow : chunkRows (shortBundle H) [twoChunks] 1 = [[-1]] :=
    (by decide : [row [1, -1] 1 1] = [[-1]])
  have hone : ∀ r ∈ ([[-1]] : List (List Int64)), r.length = 1 := by decide
  have ⟨input, hinput⟩ : ∃ input, chunkInput [[-1]] (shortBundle H).config.chunkRules = .ok input :=
    chunkInput_ok _ Nat.one_pos (by decide) (by decide) (by decide) hone
  rw [← hrow] at hinput
  have hrange : (1 : UInt32).toNat < (2 : UInt32).toNat := by decide
  exact chunkProof_panics hrange (shortBundle_artifacts H) hinput parseList_oneHash
    parseList_oneHash (by decide)

end

/-- With the hashes of one chunk for two, the bundle is accepted, and the proofs for
the second chunk panic in both builds. -/
theorem missing_hash_panics :
    checkBundleRoots Tree.residueHashes (shortBundle Tree.residueHashes) = .ok () ∧
      ¬ Returns (chunkProof false (shortEnv Tree.residueHashes) (shortBundle Tree.residueHashes) 1) ∧
      ¬ Returns (chunkProof true (shortEnv Tree.residueHashes) (shortBundle Tree.residueHashes) 1) :=
  ⟨shortBundle_accepted _, fun hret => hret (shortBundle_panics _ false),
    fun hret => hret (shortBundle_panics _ true)⟩

/-- The proofs for the first chunk of the same bundle return. -/
theorem chunkProof_returns_iff_short :
    Returns (chunkProof true (shortEnv Tree.residueHashes) (shortBundle Tree.residueHashes) 0) := by
  refine (chunkProof_returns_iff true (shortEnv Tree.residueHashes)
    (shortBundle Tree.residueHashes) 0 (shortBundle_accepted _)).mpr ⟨fun _ _ => ?_, fun _ => ?_⟩
  · intro front p back _ _ bytes hbytes _ hover
    obtain rfl := Option.some.inj hbytes
    have hbig := hover.add_overflows
    rw [Artifact.countWord_encode twoChunks (by decide)] at hbig
    exact absurd hbig (by decide)
  · intro arts input ins _ _ hins
    cases parseList_oneHash.symm.trans hins
    exact ⟨FixedBytes.zero, rfl, fun _ _ => Nat.one_pos⟩

/-- The short bundle with a delta that is a header alone, and a bound that its announced
count keeps. -/
def headerBundle (H : Hashes) : Bundle :=
  { shortBundle H with
    config := { (shortBundle H).config with maxValues := UInt64.ofNat (2 ^ 64 - 1) }
    participants :=
      [{ shortParticipant H with deltaSha256 := H.sha256 Artifact.overflowingHeader }] }

/-- The bundle is accepted, and where overflow is checked the proofs for its first chunk
panic in the decoder. -/
theorem headerBundle_panics (H : Hashes) :
    checkBundleRoots H (headerBundle H) = .ok () ∧
      chunkProof true { shortEnv H with read := fun _ => some Artifact.overflowingHeader }
        (headerBundle H) 0 = .error .panic := by
  have haccepted : checkBundleRoots H (headerBundle H) = .ok () := by
    have hshort := checkBundleRoots_ok.mp (shortBundle_accepted H)
    exact checkBundleRoots_ok.mpr
      ⟨hshort.participants, hshort.inputs, hshort.outputs, hshort.few, hshort.digest⟩
  refine ⟨haccepted, not_not.mp fun hreturns => ?_⟩
  have hfit := ((chunkProof_returns_iff true
    { shortEnv H with read := fun _ => some Artifact.overflowingHeader } (headerBundle H) 0
    haccepted).mp hreturns).1 rfl (Nat.two_pos)
  exact hfit [] _ [] rfl (fun q hq => absurd hq List.not_mem_nil) Artifact.overflowingHeader rfl rfl
    Artifact.overflowingHeader_overflows

end

/-! ## What an accepted bundle commits to -/

/-- The `i`-th word of the arguments of a call. -/
def argument (calldata : List UInt8) (i : Nat) : List UInt8 := (calldata.drop (4 + 32 * i)).take 32

theorem wordU64_length (v : Nat) : (wordU64 v).length = 32 := by
  unfold wordU64
  rw [List.length_append, List.length_replicate, toBE_length]

/-- The arguments of a call, read back behind its selector. -/
theorem argument_of_word {front : List UInt8} (hfront : front.length = 4)
    {words : List (List UInt8)} (hwidth : ∀ word ∈ words, word.length = 32) {i : Nat}
    {word : List UInt8} (hword : words[i]? = some word) :
    argument (front :: words).flatten i = word := by
  have hi := (List.getElem?_eq_some_iff.mp hword).1
  have hbefore : (((front :: words).take (i + 1)).map List.length).sum = 4 + 32 * i := by
    have hsame : ∀ n ∈ (words.take i).map List.length, n = 32 := by
      intro n hn
      have ⟨w, hw, hlength⟩ := List.mem_map.mp hn
      rw [← hlength]
      exact hwidth w (List.mem_of_mem_take hw)
    have hsum := List.sum_eq_card_nsmul _ _ hsame
    rw [List.length_map, List.length_take, smul_eq_mul] at hsum
    rw [List.take_succ_cons, List.map_cons, List.sum_cons, hsum, hfront]
    omega
  have hlength := hwidth word (List.mem_of_getElem? hword)
  have hcut := @take_drop_flatten _ (front :: words) _ (i + 1) hword _ hbefore
  rw [hlength] at hcut
  exact hcut

/-- The arguments of `commitRound`, in order. -/
def commitWords (b : Bundle) : List (List UInt8) :=
  [b.config.clusterId.toBytes, wordU64 b.ordinal.toNat, b.configHash.toBytes,
    b.participantsRoot.toBytes, wordU64 b.participants.length, wordU64 b.nValues.toNat,
    b.inputRoot.toBytes, b.outputRoot.toBytes, wordU64 b.chunks.toNat, b.adapterSha256.toBytes]

theorem commitCalldata_argument (H : Hashes) {b : Bundle} {i : Nat} {word : List UInt8}
    (hword : (commitWords b)[i]? = some word) : argument (commitCalldata H b) i = word := by
  have hselector : (selector H COMMIT_SIG).length = 4 := by
    unfold selector
    rw [List.length_take, FixedBytes.toBytes_length]
    rfl
  have hwidth : ∀ word ∈ commitWords b, word.length = 32 := by
    simp [commitWords, wordU64_length]
  exact argument_of_word hselector hwidth hword

/-- The roots of an accepted bundle follow from its own leaves, and its record digest
is taken over the words of its calldata, next to the chain, the ledger and the round id
that it states. -/
theorem accepted_bundle_commits (H : Hashes) (b : Bundle) (h : checkBundleRoots H b = .ok ()) :
    RootsFollow H b ∧
      b.recordDigest = keccak H
        [wordU64 b.config.chainId.toNat, wordAddr b.config.ledger, b.roundId.toBytes,
          argument (commitCalldata H b) 2, argument (commitCalldata H b) 3,
          argument (commitCalldata H b) 6, argument (commitCalldata H b) 7,
          argument (commitCalldata H b) 9, argument (commitCalldata H b) 5,
          argument (commitCalldata H b) 8, argument (commitCalldata H b) 4] := by
  have hfollow := checkBundleRoots_ok.mp h
  have hword : ∀ {i : Nat} {word : List UInt8}, (commitWords b)[i]? = some word →
      argument (commitCalldata H b) i = word := commitCalldata_argument H
  refine ⟨hfollow, ?_⟩
  rw [hfollow.digest, @hword 2 _ rfl, @hword 3 _ rfl, @hword 6 _ rfl, @hword 7 _ rfl,
    @hword 9 _ rfl, @hword 5 _ rfl, @hword 8 _ rfl, @hword 4 _ rfl]
  rfl

theorem accepted_bundle_commits_short :
    RootsFollow Tree.residueHashes (shortBundle Tree.residueHashes) :=
  (accepted_bundle_commits Tree.residueHashes (shortBundle Tree.residueHashes)
    (shortBundle_accepted _)).1

/-- The short bundle is accepted with a configuration hash, a round id and a count of
chunks that are not its own. -/
theorem shortBundle_mixed :
    checkBundleRoots Tree.residueHashes (shortBundle Tree.residueHashes) = .ok () ∧
      (shortBundle Tree.residueHashes).configHash ≠
        (shortBundle Tree.residueHashes).config.configHash Tree.residueHashes ∧
      (shortBundle Tree.residueHashes).roundId ≠
        (shortBundle Tree.residueHashes).config.roundId Tree.residueHashes
          (shortBundle Tree.residueHashes).ordinal ∧
      (shortBundle Tree.residueHashes).chunks.toNat ≠
        (shortBundle Tree.residueHashes).inputHashes.length ∧
      (shortBundle Tree.residueHashes).chunks.toNat ≠
        (shortBundle Tree.residueHashes).outputHashes.length ∧
      (shortBundle Tree.residueHashes).chunks.toNat ≠
        chunkCount (shortBundle Tree.residueHashes).nValues.toNat
          (shortBundle Tree.residueHashes).config.chunkDim := by
  refine ⟨shortBundle_accepted _, ?_, ?_, ?_, ?_, ?_⟩
  · decide +kernel
  · decide +kernel
  · decide +kernel
  · decide +kernel
  · decide +kernel

end Coordinator
end ComputePool
