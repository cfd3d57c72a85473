import ComputePool.Federated.Basic
import ComputePool.Rust.Json

/-!
# The artifacts of a training job

`ArtifactStore::resolve` of `job_artifacts.rs`: the checkpoint and the manifest are
checked against the hashes of the job, and the architecture, the commitment grid and
the shape of the model are read from the sidecar next to the checkpoint, by three
readers with a fallback each.  The files of the host and the JSON parser are
parameters.
-/

namespace ComputePool
namespace Worker
namespace JobArtifacts

open RustStd Federated

/-- The components of a `PathBuf`. -/
abbrev Path := List String

inductive IoError where
  | notFound
  | other (text : String)

/-- What the files of a host hold while a job is resolved. -/
structure Host where
  read : Path → Except IoError (List UInt8)
  readToString : Path → Except IoError String
  /-- `serde_json::from_str::<Value>` -/
  fromStr : String → Except String Json

/-- The model architecture a job asks for. -/
inductive Architecture where
  | zonePartitioned
  | dense
  deriving DecidableEq

/-- Which quantization grid a job's step commitments ride. -/
inductive CommitmentGrid where
  | q16
  | legacyF32Scale
  deriving DecidableEq

/-- The model's shape, read from the sidecar rather than assumed. -/
structure ModelShape where
  vocab : Nat
  d : Nat
  seqLen : Nat
  dFf : Nat
  dtype : String
  deriving DecidableEq

def ModelShape.default : ModelShape := ⟨256, 48, 64, 192, "f32"⟩

/-- Why a job could not be resolved.  Every variant is a refusal. -/
inductive ArtifactError where
  | missing (what : String) (path : Path)
  | hashMismatch (what expected actual : String)
  | unreadableSidecar (text : String)
  | unsupportedArchitecture (name : String)
  | unknownCommitmentGrid (name : String)
  deriving DecidableEq

/-- A job's artifacts, resolved and verified. -/
structure Artifacts where
  checkpointDir : Path
  manifestPath : Path
  architecture : Architecture
  commitmentGrid : CommitmentGrid
  shape : ModelShape
  modelStartHash : B32
  datasetHash : B32

variable (H : Hashes) (host : Host)

def hexOf (h : B32) : String := hex0x h.toBytes

def modelDir (root : Path) (hash : B32) : Path := root ++ ["models", hexOf hash]

def datasetDir (root : Path) (hash : B32) : Path := root ++ ["datasets", hexOf hash]

def manifestPath (root : Path) (hash : B32) : Path := datasetDir root hash ++ ["manifest.json"]

def weightsPath (root : Path) (hash : B32) : Path := modelDir root hash ++ ["model.safetensors"]

def sidecarPath (root : Path) (hash : B32) : Path := modelDir root hash ++ ["sidecar.nat.json"]

/-- The bytes of a file against the commitment of the chain. -/
def verifyFile (what : String) (path : Path) (expected : B32) : Except ArtifactError Unit :=
  match host.read path with
  | .error _ => .error (.missing what path)
  | .ok bytes =>
      let actual := H.keccak256 bytes
      if actual ≠ expected then .error (.hashMismatch what (hexOf expected) (hexOf actual))
      else .ok ()

/-- How each reader opens the sidecar; nothing when there is none. -/
def readSidecar (sidecar : Path) : Except ArtifactError (Option Json) :=
  match host.readToString sidecar with
  | .error .notFound => .ok none
  | .error (.other text) => .error (.unreadableSidecar text)
  | .ok raw =>
      match host.fromStr raw with
      | .error text => .error (.unreadableSidecar text)
      | .ok doc => .ok (some doc)

/-- The architecture a zone graph implies: declared zones make a zone model. -/
def inferArchitecture (doc : Json) : Architecture :=
  match (doc.get "zones").bind Json.asArray with
  | some (_ :: _) => .zonePartitioned
  | _ => .dense

/-- What `read_architecture` makes of a document. -/
def architectureOf (doc : Json) : Except ArtifactError Architecture :=
  match (doc.get "architecture").bind Json.asStr with
  | some kind =>
      if kind = "zone-partitioned" ∨ kind = "nat-zone" then .ok .zonePartitioned
      else if kind = "dense" then .ok .dense
      else .error (.unsupportedArchitecture kind)
  | none => .ok (inferArchitecture doc)

/-- What `read_commitment_grid` makes of a document. -/
def commitmentGridOf (doc : Json) : Except ArtifactError CommitmentGrid :=
  match (doc.get "commitment_grid").bind Json.asStr with
  | none => .ok .q16
  | some grid =>
      if grid = "q16" then .ok .q16
      else if grid = "legacy-f32-scale" then .ok .legacyF32Scale
      else .error (.unknownCommitmentGrid grid)

/-- A field that is read as a number, with its fallback. -/
def num (doc : Json) (key : String) (fallback : Nat) : Nat :=
  ((doc.get key).bind Json.asU64).getD fallback

/-- What `read_model_shape` makes of a document. -/
def modelShapeOf (doc : Json) : ModelShape where
  vocab := num doc "vocab" ModelShape.default.vocab
  d := num doc "d" ModelShape.default.d
  seqLen := num doc "seq_len" ModelShape.default.seqLen
  dFf := num doc "d_ff" ModelShape.default.dFf
  dtype := ((doc.get "dtype").bind Json.asStr).getD ModelShape.default.dtype

def readArchitecture (sidecar : Path) : Except ArtifactError Architecture := do
  match ← readSidecar host sidecar with
  | none => .ok .dense
  | some doc => architectureOf doc

def readCommitmentGrid (sidecar : Path) : Except ArtifactError CommitmentGrid := do
  match ← readSidecar host sidecar with
  | none => .ok .q16
  | some doc => commitmentGridOf doc

def readModelShape (sidecar : Path) : Except ArtifactError ModelShape := do
  match ← readSidecar host sidecar with
  | none => .ok ModelShape.default
  | some doc => .ok (modelShapeOf doc)

/-- Resolve and verify both artifacts for a job. -/
def resolve (root : Path) (modelStartHash datasetHash : B32) :
    Except ArtifactError Artifacts := do
  verifyFile H host "model checkpoint" (weightsPath root modelStartHash) modelStartHash
  verifyFile H host "dataset manifest" (manifestPath root datasetHash) datasetHash
  let sidecar := sidecarPath root modelStartHash
  let architecture ← readArchitecture host sidecar
  let commitmentGrid ← readCommitmentGrid host sidecar
  let shape ← readModelShape host sidecar
  pure
    { checkpointDir := modelDir root modelStartHash
      manifestPath := manifestPath root datasetHash
      architecture := architecture
      commitmentGrid := commitmentGrid
      shape := shape
      modelStartHash := modelStartHash
      datasetHash := datasetHash }

/-! ## What a document declares -/

/-- The meaning of a declared architecture, if it has one. -/
def Architecture.declared : Json → Option Architecture
  | .string kind =>
      if kind = "zone-partitioned" ∨ kind = "nat-zone" then some .zonePartitioned
      else if kind = "dense" then some .dense
      else none
  | _ => none

/-- The meaning of a declared grid, if it has one. -/
def CommitmentGrid.declared : Json → Option CommitmentGrid
  | .string "q16" => some .q16
  | .string "legacy-f32-scale" => some .legacyF32Scale
  | _ => none

/-- The value used for a field is the declared one, and the default where the document
has no such field. -/
def Uses {A : Type} (doc : Json) (key : String) (declared : Json → Option A) (default used : A) :
    Prop :=
  (doc.get key).elim (some default) declared = some used

/-- What a document declares is what the artifacts have. -/
structure Honours (doc : Json) (a : Artifacts) : Prop where
  architecture : Uses doc "architecture" Architecture.declared (inferArchitecture doc) a.architecture
  commitmentGrid : Uses doc "commitment_grid" CommitmentGrid.declared .q16 a.commitmentGrid
  vocab : Uses doc "vocab" Json.asU64 ModelShape.default.vocab a.shape.vocab
  d : Uses doc "d" Json.asU64 ModelShape.default.d a.shape.d
  seqLen : Uses doc "seq_len" Json.asU64 ModelShape.default.seqLen a.shape.seqLen
  dFf : Uses doc "d_ff" Json.asU64 ModelShape.default.dFf a.shape.dFf
  dtype : Uses doc "dtype" Json.asStr ModelShape.default.dtype a.shape.dtype

/-- The document in the sidecar of a job. -/
def SidecarHolds (root : Path) (modelStartHash : B32) (doc : Json) : Prop :=
  ∃ raw, host.readToString (sidecarPath root modelStartHash) = .ok raw ∧ host.fromStr raw = .ok doc

/-- Whatever a job resolves to honours its sidecar. -/
def SidecarHonoured (root : Path) (modelStartHash datasetHash : B32) : Prop :=
  ∀ doc a, SidecarHolds host root modelStartHash doc →
    resolve H host root modelStartHash datasetHash = .ok a → Honours doc a

/-- A file is there, and its bytes hash to the commitment. -/
def Verified (path : Path) (hash : B32) : Prop :=
  ∃ bytes, host.read path = .ok bytes ∧ H.keccak256 bytes = hash

/-- A named architecture which this worker cannot train. -/
def NamesUntrainable (doc : Json) : Prop :=
  ∃ kind, doc.get "architecture" = some (.string kind) ∧
    kind ≠ "zone-partitioned" ∧ kind ≠ "nat-zone" ∧ kind ≠ "dense"

/-- A named grid which this worker does not implement. -/
def NamesUnknownGrid (doc : Json) : Prop :=
  ∃ grid, doc.get "commitment_grid" = some (.string grid) ∧
    grid ≠ "q16" ∧ grid ≠ "legacy-f32-scale"

/-- Every field that is there has the type it is read at. -/
def FieldsTyped (doc : Json) : Prop :=
  (∀ key ∈ ["architecture", "commitment_grid", "dtype"], ∀ v, doc.get key = some v →
      v.asStr ≠ none) ∧
    ∀ key ∈ ["vocab", "d", "seq_len", "d_ff"], ∀ v, doc.get key = some v → v.asU64 ≠ none

/-! ## The readers of one document -/

variable {H host} {doc : Json}

theorem verifyFile_eq_ok {what : String} {path : Path} {hash : B32} :
    verifyFile H host what path hash = .ok () ↔ Verified H host path hash := by
  unfold verifyFile Verified
  cases host.read path with
  | error e => simp
  | ok bytes =>
      show (if H.keccak256 bytes ≠ hash then _ else _) = _ ↔ _
      by_cases hsame : H.keccak256 bytes = hash
      · rw [if_neg (not_not.mpr hsame)]
        exact iff_of_true rfl ⟨bytes, rfl, hsame⟩
      · rw [if_pos hsame]
        refine iff_of_false (fun h => by cases h) ?_
        rintro ⟨bytes', hread, hkeccak⟩
        cases hread
        exact hsame hkeccak

/-- A document which is refused for its architecture names one. -/
theorem architectureOf_error (doc : Json) :
    (∃ e, architectureOf doc = .error e) ↔ NamesUntrainable doc := by
  unfold architectureOf NamesUntrainable
  cases hget : doc.get "architecture" with
  | none => simp
  | some v =>
      cases v with
      | string kind =>
          simp only [Option.bind_some, Json.asStr, Option.some.injEq, Json.string.injEq,
            exists_eq_left']
          by_cases hzone : kind = "zone-partitioned" ∨ kind = "nat-zone"
          · rw [if_pos hzone]
            refine iff_of_false (fun ⟨e, h⟩ => by cases h) ?_
            rintro ⟨hzone', hnat, _⟩
            exact hzone.elim hzone' hnat
          · rw [if_neg hzone]
            by_cases hdense : kind = "dense"
            · rw [if_pos hdense]
              exact iff_of_false (fun ⟨e, h⟩ => by cases h) fun h => h.2.2 hdense
            · rw [if_neg hdense]
              exact iff_of_true ⟨_, rfl⟩
                ⟨fun h => hzone (.inl h), fun h => hzone (.inr h), hdense⟩
      | _ => simp [Json.asStr]

theorem commitmentGridOf_error (doc : Json) :
    (∃ e, commitmentGridOf doc = .error e) ↔ NamesUnknownGrid doc := by
  unfold commitmentGridOf NamesUnknownGrid
  cases hget : doc.get "commitment_grid" with
  | none => simp
  | some v =>
      cases v with
      | string grid =>
          simp only [Option.bind_some, Json.asStr, Option.some.injEq, Json.string.injEq,
            exists_eq_left']
          by_cases hq : grid = "q16"
          · rw [if_pos hq]
            exact iff_of_false (fun ⟨e, h⟩ => by cases h) fun h => h.1 hq
          · rw [if_neg hq]
            by_cases hlegacy : grid = "legacy-f32-scale"
            · rw [if_pos hlegacy]
              exact iff_of_false (fun ⟨e, h⟩ => by cases h) fun h => h.2 hlegacy
            · rw [if_neg hlegacy]
              exact iff_of_true ⟨_, rfl⟩ ⟨hq, hlegacy⟩
      | _ => simp [Json.asStr]

/-- An architecture that is read has its declared meaning unless it is no string. -/
theorem architectureOf_uses {used : Architecture} (h : architectureOf doc = .ok used) :
    Uses doc "architecture" Architecture.declared (inferArchitecture doc) used ↔
      ∀ v, doc.get "architecture" = some v → v.asStr ≠ none := by
  unfold architectureOf at h
  unfold Uses
  cases hget : doc.get "architecture" with
  | none =>
      rw [hget] at h
      cases h
      simp
  | some v =>
      rw [hget] at h
      cases v with
      | string kind =>
          simp only [Option.bind_some, Json.asStr] at h
          refine iff_of_true ?_ (by simp [Json.asStr])
          simp only [Option.elim, Architecture.declared]
          split at h
          · cases h
            rw [if_pos ‹_›]
          · rw [if_neg ‹_›]
            split at h
            · cases h
              rw [if_pos ‹_›]
            · cases h
      | _ => simp [Json.asStr, Architecture.declared]

theorem commitmentGridOf_uses {used : CommitmentGrid} (h : commitmentGridOf doc = .ok used) :
    Uses doc "commitment_grid" CommitmentGrid.declared .q16 used ↔
      ∀ v, doc.get "commitment_grid" = some v → v.asStr ≠ none := by
  unfold commitmentGridOf at h
  unfold Uses
  cases hget : doc.get "commitment_grid" with
  | none =>
      rw [hget] at h
      cases h
      simp
  | some v =>
      rw [hget] at h
      cases v with
      | string grid =>
          simp only [Option.bind_some, Json.asStr] at h
          refine iff_of_true ?_ (by simp [Json.asStr])
          split at h
          · cases h
            subst_vars
            rfl
          · split at h
            · cases h
              subst_vars
              rfl
            · cases h
      | _ => simp [Json.asStr, CommitmentGrid.declared]

/-- A field with a fallback has its declared value unless it is mistyped. -/
theorem uses_getD {A : Type} (read : Json → Option A) (key : String) (default : A) :
    Uses doc key read default (((doc.get key).bind read).getD default) ↔
      ∀ v, doc.get key = some v → read v ≠ none := by
  unfold Uses
  cases hget : doc.get key with
  | none => simp
  | some v => cases hread : read v <;> simp [hread]

/-- The artifacts honour a document exactly when its fields have their types. -/
theorem honours_iff {a : Artifacts} (harch : architectureOf doc = .ok a.architecture)
    (hgrid : commitmentGridOf doc = .ok a.commitmentGrid) (hshape : a.shape = modelShapeOf doc) :
    Honours doc a ↔ FieldsTyped doc := by
  have hvocab := @uses_getD doc _ Json.asU64 "vocab" ModelShape.default.vocab
  have hd := @uses_getD doc _ Json.asU64 "d" ModelShape.default.d
  have hseq := @uses_getD doc _ Json.asU64 "seq_len" ModelShape.default.seqLen
  have hff := @uses_getD doc _ Json.asU64 "d_ff" ModelShape.default.dFf
  have hdtype := @uses_getD doc _ Json.asStr "dtype" ModelShape.default.dtype
  have hsplit : FieldsTyped doc ↔
      ((∀ v, doc.get "architecture" = some v → v.asStr ≠ none) ∧
        (∀ v, doc.get "commitment_grid" = some v → v.asStr ≠ none) ∧
        ∀ v, doc.get "dtype" = some v → v.asStr ≠ none) ∧
      (∀ v, doc.get "vocab" = some v → v.asU64 ≠ none) ∧
        (∀ v, doc.get "d" = some v → v.asU64 ≠ none) ∧
        (∀ v, doc.get "seq_len" = some v → v.asU64 ≠ none) ∧
        ∀ v, doc.get "d_ff" = some v → v.asU64 ≠ none := by
    simp [FieldsTyped]
  rw [hsplit, ← architectureOf_uses harch, ← commitmentGridOf_uses hgrid, ← hvocab, ← hd, ← hseq,
    ← hff, ← hdtype]
  constructor
  · intro h
    have hs := h.vocab
    rw [hshape] at hs
    have hs' := h.d
    rw [hshape] at hs'
    have hs'' := h.seqLen
    rw [hshape] at hs''
    have hs''' := h.dFf
    rw [hshape] at hs'''
    have ht := h.dtype
    rw [hshape] at ht
    exact ⟨⟨h.architecture, h.commitmentGrid, ht⟩, hs, hs', hs'', hs'''⟩
  · rintro ⟨⟨ha, hg, ht⟩, hv, hd, hs, hf⟩
    exact
      { architecture := ha
        commitmentGrid := hg
        vocab := by rwa [hshape]
        d := by rwa [hshape]
        seqLen := by rwa [hshape]
        dFf := by rwa [hshape]
        dtype := by rwa [hshape] }

/-! ## A job -/

section Job

variable {root : Path} {modelStartHash datasetHash : B32}

/-- With a document in the sidecar each reader reads that document. -/
theorem readers_of_holds (hdoc : SidecarHolds host root modelStartHash doc) :
    readArchitecture host (sidecarPath root modelStartHash) = architectureOf doc ∧
      readCommitmentGrid host (sidecarPath root modelStartHash) = commitmentGridOf doc ∧
      readModelShape host (sidecarPath root modelStartHash) = .ok (modelShapeOf doc) := by
  obtain ⟨raw, hraw, hparse⟩ := hdoc
  have hread : readSidecar host (sidecarPath root modelStartHash) = .ok (some doc) := by
    simp only [readSidecar, hraw, hparse]
  unfold readArchitecture readCommitmentGrid readModelShape
  rw [hread]
  exact ⟨rfl, rfl, rfl⟩

/-- What is resolved with a document in the sidecar is resolved from it. -/
theorem resolve_eq_ok {a : Artifacts} (hdoc : SidecarHolds host root modelStartHash doc)
    (h : resolve H host root modelStartHash datasetHash = .ok a) :
    Verified H host (weightsPath root modelStartHash) modelStartHash ∧
      Verified H host (manifestPath root datasetHash) datasetHash ∧
      architectureOf doc = .ok a.architecture ∧ commitmentGridOf doc = .ok a.commitmentGrid ∧
      a.shape = modelShapeOf doc := by
  have ⟨hreadArch, hreadGrid, hreadShape⟩ := readers_of_holds hdoc
  unfold resolve at h
  cases hweights : verifyFile H host "model checkpoint" (weightsPath root modelStartHash)
      modelStartHash with
  | error e =>
      rw [hweights] at h
      cases h
  | ok _ =>
      cases hmanifest : verifyFile H host "dataset manifest" (manifestPath root datasetHash)
          datasetHash with
      | error e =>
          rw [hweights, hmanifest] at h
          cases h
      | ok _ =>
          rw [hweights, hmanifest] at h
          simp only [hreadArch, hreadGrid, hreadShape] at h
          cases harch : architectureOf doc with
          | error e =>
              rw [harch] at h
              cases h
          | ok architecture =>
              cases hgrid : commitmentGridOf doc with
              | error e =>
                  rw [harch, hgrid] at h
                  cases h
              | ok grid =>
                  rw [harch, hgrid] at h
                  cases h
                  exact ⟨verifyFile_eq_ok.mp hweights, verifyFile_eq_ok.mp hmanifest, rfl, rfl, rfl⟩

/-- Verified artifacts resolve if neither reader of a name refuses. -/
theorem resolve_of_readers {architecture : Architecture} {grid : CommitmentGrid}
    (hdoc : SidecarHolds host root modelStartHash doc)
    (hweights : Verified H host (weightsPath root modelStartHash) modelStartHash)
    (hmanifest : Verified H host (manifestPath root datasetHash) datasetHash)
    (harch : architectureOf doc = .ok architecture) (hgrid : commitmentGridOf doc = .ok grid) :
    ∃ a, resolve H host root modelStartHash datasetHash = .ok a := by
  have ⟨hreadArch, hreadGrid, hreadShape⟩ := readers_of_holds hdoc
  unfold resolve
  rw [verifyFile_eq_ok.mpr hweights, verifyFile_eq_ok.mpr hmanifest]
  simp only [hreadArch, hreadGrid, hreadShape, harch, hgrid]
  exact ⟨_, rfl⟩

/-- The sidecar is honoured exactly where nothing verified has a mistyped field: it is
then filled in by the default. -/
theorem sidecarHonoured_iff (H : Hashes) (host : Host) (root : Path)
    (modelStartHash datasetHash : B32) :
    SidecarHonoured H host root modelStartHash datasetHash ↔
      ∀ doc, SidecarHolds host root modelStartHash doc →
        Verified H host (weightsPath root modelStartHash) modelStartHash →
        Verified H host (manifestPath root datasetHash) datasetHash →
        NamesUntrainable doc ∨ NamesUnknownGrid doc ∨ FieldsTyped doc := by
  constructor
  · intro h doc hdoc hweights hmanifest
    cases harch : architectureOf doc with
    | error e => exact .inl ((architectureOf_error doc).mp ⟨e, harch⟩)
    | ok architecture =>
        cases hgrid : commitmentGridOf doc with
        | error e => exact .inr (.inl ((commitmentGridOf_error doc).mp ⟨e, hgrid⟩))
        | ok grid =>
            have ⟨a, hres⟩ := resolve_of_readers hdoc hweights hmanifest harch hgrid
            have ⟨_, _, harch', hgrid', hshape⟩ := resolve_eq_ok hdoc hres
            exact .inr (.inr ((honours_iff harch' hgrid' hshape).mp (h doc a hdoc hres)))
  · intro h doc a hdoc hres
    have ⟨hweights, hmanifest, harch, hgrid, hshape⟩ := resolve_eq_ok hdoc hres
    rcases h doc hdoc hweights hmanifest with hnames | hnames | htyped
    · have ⟨e, he⟩ := (architectureOf_error doc).mpr hnames
      rw [harch] at he
      cases he
    · have ⟨e, he⟩ := (commitmentGridOf_error doc).mpr hnames
      rw [hgrid] at he
      cases he
    · exact (honours_iff harch hgrid hshape).mpr htyped

end Job

/-- A host whose sidecar has a number for its grid. -/
def numericGrid : Host where
  read _ := .ok []
  readToString _ := .ok "\x7b\"commitment_grid\": 7\x7d"
  fromStr _ := .ok (.object [("commitment_grid", .number (.posInt 7))])

/-- The default grid is used for a declared one. -/
theorem numeric_grid_is_not_honoured :
    ¬ SidecarHonoured ⟨fun _ => FixedBytes.zero, fun _ => FixedBytes.zero⟩ numericGrid []
      FixedBytes.zero FixedBytes.zero := by
  intro h
  have hdoc : SidecarHolds numericGrid [] FixedBytes.zero
      (.object [("commitment_grid", .number (.posInt 7))]) := ⟨_, rfl, rfl⟩
  have hverified : ∀ path, Verified ⟨fun _ => FixedBytes.zero, fun _ => FixedBytes.zero⟩
      numericGrid path FixedBytes.zero := fun path => ⟨[], rfl, rfl⟩
  have harch : architectureOf (.object [("commitment_grid", .number (.posInt 7))]) = .ok .dense :=
    rfl
  have hgrid : commitmentGridOf (.object [("commitment_grid", .number (.posInt 7))]) = .ok .q16 :=
    rfl
  have ⟨a, hres⟩ := resolve_of_readers hdoc (hverified _) (hverified (manifestPath [] _)) harch hgrid
  have hgrid := (h _ a hdoc hres).commitmentGrid
  cases hgrid

end JobArtifacts
end Worker
end ComputePool
