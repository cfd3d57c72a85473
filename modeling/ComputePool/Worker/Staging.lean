import ComputePool.Federated.Tree
import ComputePool.Rust.Net
import ComputePool.Worker.ArtifactFetch
import ComputePool.Worker.Corpus

/-!
# Staging a training job

`NatJobRunner::stage` of `job_runner.rs`: the checkpoint and the manifest are fetched against
the hashes the job names, the sidecar is fetched when there is none, and of the shards those
which the steps will open.  Staging makes files present; `resolve` decides after it whether
they are acceptable.
-/

namespace ComputePool
namespace Worker
namespace NatJobRunner

open RustStd Federated Interaction JobArtifacts ArtifactFetch
open Interaction.Fallible (Moves moves_pure moves_fail moves_ofExcept moves_ask moves_forM runs_bind
  runs_bind_error runs_bind_cut runs_mapError runs_ofExcept runs_ask)

/-- What staging takes from the payload of a job. -/
structure StagedJob extends TrainingJobPayload where
  modelStartHash : B32
  datasetHash : B32

inductive RunError where
  | artifactsMissing (text : String)
  | fetch (text : String)

/-- `RunError::from` -/
def RunError.ofFetch (e : FetchError) : RunError := .fetch e.display

/-- The runner, with the parser of a manifest: `shard_index` of every entry. -/
structure Runner where
  hashes : Hashes
  storeRoot : Path
  hasMirror : Bool
  quoted : String → String
  parseManifest : String → Except String (List Nat)

/-- `dest.exists()` -/
def pathExists (dest : Path) : Fetch RunError Bool := Fallible.ask (I := Store) (.probe dest)

/-- `place_unverified_sidecar` and `place_shard` -/
def writeAtomic (dest : Path) (bytes : List UInt8) : Fetch RunError Unit := placeFile .fetch dest bytes

/-- `format!("shard_{shard_index:04}.json")` -/
def shardFile (shardIndex : Nat) : String :=
  let digits := Nat.toDigits 10 shardIndex
  "shard_" ++ String.ofList (List.replicate (4 - digits.length) '0' ++ digits) ++ ".json"

/-- `ArtifactStore::shard_path` -/
def shardPath (root : Path) (hash : B32) (shardIndex : Nat) : Path :=
  datasetDir root hash ++ [shardFile shardIndex]

namespace Runner

variable (r : Runner)

/-- The closure `fetch` of `stage`. -/
def fetch (rel : String) (want : B32) : Fetch RunError Bool := do
  let dest ← Fallible.ofExcept ((localDest r.quoted r.storeRoot rel).mapError .ofFetch)
  Fallible.mapError .ofFetch (fetchVerified r.hashes rel dest want)

/-- The sidecar is fetched if there is none; that it cannot be had is no error. -/
def stageSidecar (side : String) : Fetch RunError Unit :=
  match localDest r.quoted r.storeRoot side with
  | .error _ => pure ()
  | .ok dest => do
      let found ← pathExists dest
      if found then pure ()
      else
        let answer ← Fallible.attempt (getArtifact side)
        match answer with
        | .error _ => pure ()
        | .ok bytes =>
            let _ ← (Fallible.attempt (writeAtomic dest bytes) : Fetch RunError _)
            pure ()

/-- The manifest that is in the store now. -/
def readManifest (datasetHash : B32) : Fetch RunError (List Nat) := do
  let read ← Fallible.ask (I := Store) (.read (manifestPath r.storeRoot datasetHash))
  let bytes ← Fallible.ofExcept
    (read.mapError fun text => RunError.artifactsMissing ("manifest unreadable: " ++ text))
  let raw ← Fallible.ofExcept (match fromUtf8 bytes with
    | some raw => .ok raw
    | none => .error (RunError.artifactsMissing
        "manifest unreadable: stream did not contain valid UTF-8"))
  Fallible.ofExcept ((r.parseManifest raw).mapError fun text =>
    .artifactsMissing ("manifest unparseable: " ++ text))

def stageShard (datasetHash : B32) (shardIndex : Nat) : Fetch RunError Unit := do
  let rel := datasetPath datasetHash (shardFile shardIndex)
  let dest ← Fallible.ofExcept ((localDest r.quoted r.storeRoot rel).mapError .ofFetch)
  let found ← pathExists dest
  if found then pure ()
  else
    let bytes ← Fallible.mapError .ofFetch (getArtifact rel)
    writeAtomic dest bytes

/-- The two artifacts with the hashes the job names. -/
def named (job : StagedJob) : List (String × B32) :=
  [(modelPath job.modelStartHash "model.safetensors", job.modelStartHash),
    (datasetPath job.datasetHash "manifest.json", job.datasetHash)]

def stageNamed (entry : String × B32) : Fetch RunError Unit := do
  let _ ← r.fetch entry.1 entry.2
  pure ()

/-- Fetch exactly what this job will read, and nothing else. -/
def stage (job : StagedJob) : Fetch RunError Unit :=
  if r.hasMirror then do
    forM (named job) r.stageNamed
    r.stageSidecar (modelPath job.modelStartHash "sidecar.nat.json")
    let shards ← r.readManifest job.datasetHash
    forM ((Worker.stage shards job.toTrainingJobPayload).sort (· ≤ ·)) (r.stageShard job.datasetHash)
  else pure ()

end Runner

/-! ## Where the files go -/

/-- A name that may be part of a path of the store. -/
def SafeName (name : String) : Prop := '/' ∉ name.toList ∧ unsafePart name.toList = false

theorem localDest_ok {quoted : String → String} {root : Path} {rel : String} (names : List String)
    (hne : names ≠ []) (hsafe : ∀ name ∈ names, SafeName name)
    (hrel : rel.toList = ['/'].intercalate (names.map String.toList)) :
    localDest quoted root rel = .ok (root ++ names) := by
  have hparts : rel.toList.splitOn '/' = names.map String.toList := by
    rw [hrel, List.splitOn_intercalate]
    · intro part hpart
      obtain ⟨name, hname, rfl⟩ := List.mem_map.mp hpart
      exact (hsafe name hname).1
    · simpa using hne
  have hall : ¬ (names.map String.toList).any unsafePart = true := by
    rw [List.any_eq_true]
    rintro ⟨part, hpart, hunsafe⟩
    obtain ⟨name, hname, rfl⟩ := List.mem_map.mp hpart
    rw [(hsafe name hname).2] at hunsafe
    cases hunsafe
  unfold localDest
  dsimp only
  rw [hparts, if_neg hall, List.map_map]
  simp [Function.comp_def]

theorem safeName_hexOf (hash : B32) : SafeName (hexOf hash) := by
  have hdigit : ∀ c ∈ (hexOf hash).toList, c = '0' ∨ c = 'x' ∨ ∃ n < 16, c = hexDigit n := by
    intro c hc
    rw [hexOf, hex0x, String.toList_ofList] at hc
    rcases List.mem_cons.mp hc with rfl | hc
    · exact .inl rfl
    · rcases List.mem_cons.mp hc with rfl | hc
      · exact .inr (.inl rfl)
      · exact .inr (.inr (hexDigit_mem hc))
  have hplain : ∀ c ∈ (hexOf hash).toList, c ≠ '/' ∧ c ≠ '\\' := by
    have hdigits : ∀ n < 16, hexDigit n ≠ '/' ∧ hexDigit n ≠ '\\' := by decide
    intro c hc
    rcases hdigit c hc with rfl | rfl | ⟨n, hn, rfl⟩
    · decide
    · decide
    · exact hdigits n hn
  refine ⟨fun hslash => (hplain _ hslash).1 rfl, ?_⟩
  have hback : ¬ '\\' ∈ (hexOf hash).toList := fun hmem => (hplain _ hmem).2 rfl
  rw [unsafePart, List.contains_eq_mem, decide_eq_false hback]
  rw [hexOf, hex0x, String.toList_ofList]
  simp

/-- Where an artifact named by its hash goes. -/
theorem localDest_hashed {quoted : String → String} {root : Path} {hash : B32}
    {front file rel : String} (kind : String) (hkind : SafeName kind) (hfile : SafeName file)
    (hfront : front.toList = kind.toList ++ ['/', '0', 'x'])
    (hrel : rel = front ++ hexEncode hash.toBytes ++ "/" ++ file) :
    localDest quoted root rel = .ok (root ++ [kind, hexOf hash] ++ [file]) := by
  rw [List.append_assoc]
  refine localDest_ok [kind, hexOf hash, file] nofun ?_ ?_
  · intro name hname
    rw [List.mem_cons, List.mem_cons, List.mem_singleton] at hname
    rcases hname with rfl | rfl | rfl
    · exact hkind
    · exact safeName_hexOf hash
    · exact hfile
  · have hslash : "/".toList = ['/'] := rfl
    rw [hrel, String.toList_append, String.toList_append, String.toList_append, hfront, hslash,
      hexEncode, String.toList_ofList]
    simp [List.intercalate, hexOf, hex0x]

theorem localDest_modelPath (quoted : String → String) (root : Path) (hash : B32) (file : String)
    (hfile : SafeName file) :
    localDest quoted root (modelPath hash file) = .ok (modelDir root hash ++ [file]) :=
  localDest_hashed "models" ⟨by decide, by decide⟩ hfile rfl rfl

theorem localDest_datasetPath (quoted : String → String) (root : Path) (hash : B32) (file : String)
    (hfile : SafeName file) :
    localDest quoted root (datasetPath hash file) = .ok (datasetDir root hash ++ [file]) :=
  localDest_hashed "datasets" ⟨by decide, by decide⟩ hfile rfl rfl

theorem hexOf_injective : Function.Injective hexOf := by
  intro a b h
  have hchars := congrArg String.toList h
  rw [hexOf, hexOf, hex0x, hex0x, String.toList_ofList, String.toList_ofList] at hchars
  have hhex := (List.cons.inj (List.cons.inj hchars).2).2
  exact FixedBytes.toBytes_injective (hexChars_injective hhex)

section Addresses

variable {root : Path} {hash hash' : B32} {name : String}

theorem addressed_weights (h : Addressed root hash' (weightsPath root hash)) : hash' = hash := by
  rcases h with h | h
  · have htail := List.append_cancel_left ((List.append_assoc _ _ _).symm.trans
      (h.symm.trans (List.append_assoc _ _ _)))
    simp only [List.cons_append, List.nil_append, List.cons.injEq] at htail
    exact hexOf_injective htail.2.1
  · have htail := List.append_cancel_left ((List.append_assoc _ _ _).symm.trans
      (h.trans (List.append_assoc _ _ _)))
    simp at htail

theorem addressed_manifest (h : Addressed root hash' (manifestPath root hash)) : hash' = hash := by
  rcases h with h | h
  · have htail := List.append_cancel_left ((List.append_assoc _ _ _).symm.trans
      (h.trans (List.append_assoc _ _ _)))
    simp at htail
  · have htail := List.append_cancel_left ((List.append_assoc _ _ _).symm.trans
      (h.symm.trans (List.append_assoc _ _ _)))
    simp only [List.cons_append, List.nil_append, List.cons.injEq] at htail
    exact hexOf_injective htail.2.1

/-- Only two names of the store are named by a hash. -/
theorem not_addressed {dir : Path} (hweights : name ≠ "model.safetensors")
    (hmanifest : name ≠ "manifest.json") : ¬ Addressed root hash (dir ++ [name]) := by
  rintro (h | h)
  · exact hweights (List.singleton_inj.mp (List.append_inj' h rfl).2)
  · exact hmanifest (List.singleton_inj.mp (List.append_inj' h rfl).2)

end Addresses

/-! ## The name of a shard -/

theorem not_mem_shardFile {c : Char} (hfront : c ∉ "shard_".toList) (hback : c ∉ ".json".toList)
    (hzero : c ≠ '0') (hdigit : toDigit 10 c = none) (n : Nat) : c ∉ (shardFile n).toList := by
  unfold shardFile
  simp only [String.toList_append, String.toList_ofList, List.mem_append, not_or]
  refine ⟨⟨hfront, fun hpad => hzero (List.eq_of_mem_replicate hpad), ?_⟩, hback⟩
  exact not_mem_toDigits (by decide) (by decide) hdigit

theorem shardFile_ne {n : Nat} {name : String} (h : "shard_".toList.isPrefixOf name.toList = false) :
    shardFile n ≠ name := by
  rintro rfl
  have hprefix : "shard_".toList <+: (shardFile n).toList := by
    unfold shardFile
    rw [String.append_assoc, String.toList_append]
    exact List.prefix_append _ _
  rw [List.isPrefixOf_iff_prefix.mpr hprefix] at h
  cases h

theorem safeName_shardFile (n : Nat) : SafeName (shardFile n) := by
  refine ⟨not_mem_shardFile (by decide) (by decide) (by decide) (by decide) n, ?_⟩
  have hback := not_mem_shardFile (c := '\\') (by decide) (by decide) (by decide) (by decide) n
  have hne : ∀ other : String, "shard_".toList.isPrefixOf other.toList = false →
      (shardFile n).toList ≠ other.toList := fun other h hsame =>
    shardFile_ne h (String.toList_injective hsame)
  have hempty : (shardFile n).toList ≠ [] := hne "" (by decide)
  have hdot : (shardFile n).toList ≠ ['.'] := hne "." (by decide)
  have hdots : (shardFile n).toList ≠ ['.', '.'] := hne ".." (by decide)
  simp [unsafePart, hempty, hdot, hdots, hback]

theorem shardPath_whole (root : Path) (hash : B32) (n : Nat) : ¬ IsPartial (shardPath root hash n) := by
  refine not_isPartial ?_
  -- the name ends in `.json`
  have hlast : (shardFile n).toList.getLast? = some 'n' := by
    unfold shardFile
    rw [String.toList_append, List.getLast?_append]
    rfl
  rw [Bool.eq_false_iff]
  intro hsuffix
  obtain ⟨front, hname⟩ := List.isSuffixOf_iff_suffix.mp hsuffix
  rw [← hname, List.getLast?_append] at hlast
  cases hlast

/-! ## What staging does -/

/-- What may come under a path that is not named by a hash. -/
def Unaddressed (H : Hashes) (root path : Path) (bytes : List UInt8) : Prop :=
  Placeable H root path bytes ∧ ∀ hash, ¬ Addressed root hash path

/-- Every file at the path of the manifest that can be read is read as these shards. -/
def ManifestIs (r : Runner) (hash : B32) (shards : List Nat) (d : Disk) : Prop :=
  ∃ bytes raw, d.files (manifestPath r.storeRoot hash) = some (.file bytes) ∧
    r.hashes.keccak256 bytes = hash ∧ fromUtf8 bytes = some raw ∧ r.parseManifest raw = .ok shards

section Programs

variable {r : Runner} {faults : Prop} {mirror : String → Except String Response → Prop}
  {d d' : Disk} {hash : B32}

/-- Every file that a staging places. -/
abbrev Runner.Stages (r : Runner) : Disk → Disk → Prop :=
  Changes r.storeRoot (Placeable r.hashes r.storeRoot)

/-- The files that a staging places beside those that are named by a hash. -/
abbrev Runner.StagesBeside (r : Runner) : Disk → Disk → Prop :=
  Changes r.storeRoot (Unaddressed r.hashes r.storeRoot)

theorem stages_of_beside (h : r.StagesBeside d d') : r.Stages d d' :=
  Changes.mono h fun _ _ hmay => hmay.1

theorem fetch_moves {rel : String} {dir : Path} {name : String}
    (hdest : localDest r.quoted r.storeRoot rel = .ok (dir ++ [name]))
    (haddress : Addressed r.storeRoot hash (dir ++ [name])) (hroot : r.storeRoot <+: dir)
    (hdeep : dir.length ≤ r.storeRoot.length + 2)
    (hsame : ∀ hash', Addressed r.storeRoot hash' (dir ++ [name]) → hash' = hash) :
    Moves (disk faults mirror) r.Stages (fun _ d' => Holds r.hashes (dir ++ [name]) hash d')
      (r.fetch rel hash) d := by
  refine Moves.bind (M := fun dest _ => dest = dir ++ [name]) (moves_ofExcept fun dest h => ?_)
    fun dest d₁ _ h => ?_
  · rw [hdest] at h
    exact (Except.ok.inj h).symm
  · rw [h]
    exact Moves.mapError (fetchVerified_moves haddress hroot hdeep hsame)

/-- A file that has no hash of its own is placed. -/
theorem writeAtomic_moves {dir : Path} {name : String} {bytes : List UInt8}
    (hwhole : ¬ IsPartial (dir ++ [name])) (hroot : r.storeRoot <+: dir)
    (hdeep : dir.length ≤ r.storeRoot.length + 2)
    (haddress : ∀ hash, ¬ Addressed r.storeRoot hash (dir ++ [name]))
    (hfits : bytes.length ≤ MAX_ARTIFACT_BYTES) :
    Moves (disk faults mirror) r.StagesBeside
      (fun _ d' => d'.files (dir ++ [name]) = some (.file bytes))
      (writeAtomic (dir ++ [name]) bytes) d := by
  refine placeFile_moves hwhole hroot hdeep ⟨⟨?_, hfits, fun hash h => absurd h (haddress hash)⟩, haddress⟩
    fun tmp htemp k => ⟨placeable_beside hroot hfits htemp k, fun hash h => ?_⟩
  · exact ⟨hroot.trans (List.prefix_append _ _), concat_ne_root hroot⟩
  · exact h.not_partial htemp

theorem pathExists_moves {path : Path} :
    Moves (disk faults mirror) r.StagesBeside (fun found d' => found = true → d'.files path ≠ none)
      (pathExists path) d := by
  unfold pathExists
  refine moves_ask (I := Store) (c := .probe path) ?_ ?_
  · rintro d' rfl
    exact refl d'
  · rintro found d' ⟨rfl, hfound, -⟩
    exact ⟨refl _, hfound⟩

theorem stageSidecar_moves :
    Moves (disk faults mirror) r.StagesBeside (fun _ _ => True)
      (r.stageSidecar (modelPath hash "sidecar.nat.json")) d := by
  unfold Runner.stageSidecar
  rw [localDest_modelPath _ _ _ _ ⟨by decide, by decide⟩]
  dsimp only
  refine Moves.bind pathExists_moves fun found d₁ _ _ => ?_
  split
  · exact moves_pure trivial
  refine Moves.bind (M := fun answer _ => ∀ bytes, answer = .ok bytes →
    bytes.length ≤ MAX_ARTIFACT_BYTES) ?_ fun answer d₂ _ hfits => ?_
  · refine Moves.attempt (getArtifact_moves.mono fun bytes _ _ hfits bytes' h => ?_) fun _ _ _ => nofun
    cases h
    exact hfits
  · cases answer with
    | error _ => exact moves_pure trivial
    | ok bytes =>
        refine Moves.bind (M := fun _ _ => True) (Moves.attempt ?_ fun _ _ _ => trivial)
          fun _ _ _ _ => moves_pure trivial
        refine (writeAtomic_moves (not_isPartial (by decide)) (List.prefix_append _ _)
          List.length_append.le (fun _ => not_addressed (by decide) (by decide))
          (hfits bytes rfl)).mono fun _ _ _ _ => trivial

/-- The manifest that is read is one that has its hash. -/
theorem readManifest_moves (hholds : Holds r.hashes (manifestPath r.storeRoot hash) hash d) :
    Moves (disk faults mirror) r.StagesBeside (fun shards d' => ManifestIs r hash shards d')
      (r.readManifest hash) d := by
  obtain ⟨stored, hstored, hkeccak⟩ := hholds
  have hmanifest : Moves (disk faults mirror) r.StagesBeside (fun read d' =>
      d'.files (manifestPath r.storeRoot hash) = some (.file stored) ∧
        ∀ bytes, read = .ok bytes → bytes = stored)
      (Fallible.ask (I := Store) (.read (manifestPath r.storeRoot hash)) : Fetch RunError _) d := by
    refine moves_ask ?_ ?_
    · rintro d' rfl
      exact refl d'
    · rintro read d' ⟨rfl, hread, -⟩
      refine ⟨refl _, hstored, fun bytes hbytes => ?_⟩
      have hsame := hread bytes hbytes
      rw [hstored] at hsame
      cases hsame
      rfl
  refine Moves.bind hmanifest fun read d₁ _ hread => ?_
  refine Moves.bind (M := fun bytes d' => bytes = stored ∧
    d'.files (manifestPath r.storeRoot hash) = some (.file stored)) (moves_ofExcept ?_)
    fun bytes d₂ _ hbytes => ?_
  · intro bytes hbytes
    cases read with
    | error text => cases hbytes
    | ok bytes' =>
        cases hbytes
        exact ⟨hread.2 bytes rfl, hread.1⟩
  obtain ⟨rfl, hthere⟩ := hbytes
  refine Moves.bind (M := fun raw d' => fromUtf8 bytes = some raw ∧
    d'.files (manifestPath r.storeRoot hash) = some (.file bytes)) (moves_ofExcept ?_)
    fun raw d₃ _ hraw => ?_
  · intro raw h
    cases hutf8 : fromUtf8 bytes with
    | none =>
        rw [hutf8] at h
        cases h
    | some raw' =>
        rw [hutf8] at h
        cases h
        exact ⟨rfl, hthere⟩
  refine moves_ofExcept fun shards hshards => ⟨bytes, raw, hraw.2, hkeccak, hraw.1, ?_⟩
  cases hparse : r.parseManifest raw with
  | error text =>
      rw [hparse] at hshards
      cases hshards
  | ok shards' =>
      rw [hparse] at hshards
      cases hshards
      rfl

theorem stageShard_moves (shardIndex : Nat) :
    Moves (disk faults mirror) r.StagesBeside
      (fun _ d' => d'.files (shardPath r.storeRoot hash shardIndex) ≠ none)
      (r.stageShard hash shardIndex) d := by
  have haddress : ∀ hash', ¬ Addressed r.storeRoot hash' (shardPath r.storeRoot hash shardIndex) :=
    fun _ => not_addressed (shardFile_ne (by decide)) (shardFile_ne (by decide))
  refine Moves.bind (M := fun dest _ => dest = shardPath r.storeRoot hash shardIndex)
    (moves_ofExcept fun dest h => ?_) fun dest d₁ _ h => ?_
  · rw [localDest_datasetPath _ _ _ _ (safeName_shardFile shardIndex)] at h
    exact (Except.ok.inj h).symm
  subst h
  refine Moves.bind pathExists_moves fun found d₂ _ hfound => ?_
  split
  · rename_i hthere
    exact moves_pure (hfound hthere)
  · refine Moves.bind (Moves.mapError getArtifact_moves) fun bytes d₃ _ hfits => ?_
    refine (writeAtomic_moves (shardPath_whole _ _ _) (List.prefix_append _ _)
      List.length_append.le haddress hfits).mono fun _ d' _ hplaced => ?_
    rw [shardPath, hplaced]
    nofun

theorem present_changes {root path : Path} {may : Path → List UInt8 → Prop}
    (h : Changes root may d d') (hwhole : ¬ IsPartial path) (hthere : d.files path ≠ none) :
    d'.files path ≠ none := by
  obtain ⟨node, hnode⟩ := Option.ne_none_iff_exists'.mp hthere
  cases node with
  | dir =>
      rw [h.dirs path hnode]
      nofun
  | file bytes =>
      obtain ⟨bytes', hfile⟩ := h.kept path bytes hnode fun _ => hwhole
      rw [hfile]
      nofun

theorem ManifestIs.changes {shards : List Nat} (h : ManifestIs r hash shards d)
    (hchanges : r.StagesBeside d d') : ManifestIs r hash shards d' := by
  obtain ⟨bytes, raw, hfile, hrest⟩ := h
  have haddress : Addressed r.storeRoot hash (manifestPath r.storeRoot hash) := .inr rfl
  exact ⟨bytes, raw, hchanges.fixed (fun _ hmay => hmay.2 hash haddress) haddress.not_partial hfile,
    hrest⟩

/-- What a job finds that was staged. -/
structure Staged (r : Runner) (job : StagedJob) (d : Disk) : Prop where
  weights : Holds r.hashes (weightsPath r.storeRoot job.modelStartHash) job.modelStartHash d
  shards : ∃ shards, ManifestIs r job.datasetHash shards d ∧
    ∀ f ∈ Worker.stage shards job.toTrainingJobPayload,
      d.files (shardPath r.storeRoot job.datasetHash f) ≠ none

variable {job : StagedJob}

/-- The part of a staging that follows the two fetches. -/
theorem stageShards_moves
    (hholds : Holds r.hashes (manifestPath r.storeRoot job.datasetHash) job.datasetHash d) :
    Moves (disk faults mirror) r.StagesBeside
      (fun _ d' => ∃ shards, ManifestIs r job.datasetHash shards d' ∧
        ∀ f ∈ Worker.stage shards job.toTrainingJobPayload,
          d'.files (shardPath r.storeRoot job.datasetHash f) ≠ none)
      (do
        let shards ← r.readManifest job.datasetHash
        forM ((Worker.stage shards job.toTrainingJobPayload).sort (· ≤ ·))
          (r.stageShard job.datasetHash)) d := by
  refine Moves.bind (readManifest_moves hholds) fun shards d₁ _ hmanifest => ?_
  have hloop : Moves (disk faults mirror) r.StagesBeside
      (fun _ d' => ∀ f ∈ (Worker.stage shards job.toTrainingJobPayload).sort (· ≤ ·),
        d'.files (shardPath r.storeRoot job.datasetHash f) ≠ none)
      (forM ((Worker.stage shards job.toTrainingJobPayload).sort (· ≤ ·))
        (r.stageShard job.datasetHash)) d₁ :=
    moves_forM (fun f d' d'' h => present_changes h (shardPath_whole _ _ f))
      fun f _ d' => stageShard_moves f
  refine hloop.mono fun _ d' hchanges hthere => ?_
  exact ⟨shards, hmanifest.changes hchanges, fun f hf => hthere f ((Finset.mem_sort _).mpr hf)⟩

/-- The file that an entry names is there, with its hash. -/
def Fetched (r : Runner) (entry : String × B32) (d : Disk) : Prop :=
  ∃ path, localDest r.quoted r.storeRoot entry.1 = .ok path ∧
    Addressed r.storeRoot entry.2 path ∧ Holds r.hashes path entry.2 d

theorem Fetched.weights (h : Fetched r (modelPath hash "model.safetensors", hash) d) :
    Holds r.hashes (weightsPath r.storeRoot hash) hash d := by
  obtain ⟨path, hpath, -, hholds⟩ := h
  have hdest := localDest_modelPath r.quoted r.storeRoot hash
    "model.safetensors" ⟨by decide, by decide⟩
  obtain rfl := Except.ok.inj (hdest.symm.trans hpath)
  exact hholds

theorem Fetched.manifest (h : Fetched r (datasetPath hash "manifest.json", hash) d) :
    Holds r.hashes (manifestPath r.storeRoot hash) hash d := by
  obtain ⟨path, hpath, -, hholds⟩ := h
  have hdest := localDest_datasetPath r.quoted r.storeRoot hash
    "manifest.json" ⟨by decide, by decide⟩
  obtain rfl := Except.ok.inj (hdest.symm.trans hpath)
  exact hholds

theorem stageNamed_moves {entry : String × B32} (hentry : entry ∈ Runner.named job) :
    Moves (disk faults mirror) r.Stages (fun _ d' => Fetched r entry d') (r.stageNamed entry) d := by
  rcases List.mem_pair.mp hentry with rfl | rfl
  · have hdest := localDest_modelPath r.quoted r.storeRoot job.modelStartHash
      "model.safetensors" ⟨by decide, by decide⟩
    exact Moves.bind (fetch_moves hdest (.inl rfl) (List.prefix_append _ _)
      List.length_append.le fun _ => addressed_weights) fun _ _ _ hholds => moves_pure ⟨_, hdest, .inl rfl, hholds⟩
  · have hdest := localDest_datasetPath r.quoted r.storeRoot job.datasetHash
      "manifest.json" ⟨by decide, by decide⟩
    exact Moves.bind (fetch_moves hdest (.inr rfl) (List.prefix_append _ _)
      List.length_append.le fun _ => addressed_manifest) fun _ _ _ hholds => moves_pure ⟨_, hdest, .inr rfl, hholds⟩

theorem stage_moves (hmirror : r.hasMirror = true) :
    Moves (disk faults mirror) r.Stages (fun _ d' => Staged r job d') (r.stage job) d := by
  have hfetches : Moves (disk faults mirror) r.Stages
      (fun _ d' => ∀ entry ∈ Runner.named job, Fetched r entry d')
      (forM (Runner.named job) r.stageNamed) d := by
    refine moves_forM (R := r.Stages) ?_ fun entry hentry d' => stageNamed_moves hentry
    rintro entry d' d'' hchanges ⟨path, hpath, haddress, hholds⟩
    exact ⟨path, hpath, haddress, hholds.changes haddress hchanges⟩
  unfold Runner.stage
  rw [if_pos hmirror]
  refine Moves.bind hfetches fun _ d₁ _ hfetched => ?_
  have hweights := (hfetched _ List.mem_cons_self).weights
  have hmanifest := (hfetched _ (List.mem_cons_of_mem _ List.mem_cons_self)).manifest
  have hside : Moves (disk faults mirror) r.StagesBeside (fun _ _ => True)
      (r.stageSidecar (modelPath job.modelStartHash "sidecar.nat.json")) d₁ := stageSidecar_moves
  refine Moves.bind (hside.coarser fun _ => stages_of_beside) fun _ d₂ hsidecar _ => ?_
  have hthere := hmanifest.changes (.inr rfl) hsidecar
  refine ((stageShards_moves hthere).coarser fun _ => stages_of_beside).mono
    fun _ d' hchanges hshards => ?_
  exact ⟨(hweights.changes (.inl rfl) hsidecar).changes (.inl rfl) hchanges, hshards⟩

end Programs

/-! ## Runs of a staging -/

/-- The disk with a file placed under `dest`. -/
def placed (d : Disk) (dest : Path) (bytes : List UInt8) : Disk where
  files := Function.update (Function.update d.files (withExtension dest "partial") none) dest
    (some (.file bytes))
  asked := d.asked

/-- The disk with the start of a file beside `dest`. -/
def torn (d : Disk) (dest : Path) (bytes : List UInt8) : Disk where
  files := Function.update d.files (withExtension dest "partial") (some (.file bytes))
  asked := d.asked

/-- The disk after the mirror was asked. -/
def requested (d : Disk) (rel : String) : Disk := ⟨d.files, d.asked ++ [rel]⟩

/-- No directory is where a file of `dir` would be. -/
def Free (dir : Path) (d : Disk) : Prop := ∀ name, d.files (dir ++ [name]) ≠ some .dir

theorem placed_file {d : Disk} {dest : Path} {bytes : List UInt8} :
    (placed d dest bytes).files dest = some (.file bytes) := Function.update_self ..

section Runs

variable {r : Runner} {d d' : Disk} {dir dest path : Path} {name rel : String} {hash : B32}
  {bytes : List UInt8}

theorem Free.requested (h : Free dir d) : Free dir (requested d rel) := h

theorem Free.placed (h : Free dir d) : Free dir (placed d dest bytes) := by
  intro name hdir
  simp only [NatJobRunner.placed, Function.update_apply] at hdir
  split at hdir
  · cases hdir
  · split at hdir
    · cases hdir
    · exact h name hdir

theorem Free.torn (h : Free dir d) : Free dir (torn d dest bytes) := by
  intro name hdir
  simp only [NatJobRunner.torn, Function.update_apply] at hdir
  split at hdir
  · cases hdir
  · exact h name hdir

/-- A write that did not end left every whole file. -/
theorem torn_file (hwhole : ¬ IsPartial path) :
    (torn d (dir ++ [name]) bytes).files path = d.files path := by
  obtain ⟨tmp, htmp, hpartial⟩ := isPartial_withExtension dir name
  refine Function.update_of_ne (fun hsame => hwhole ?_) _ _
  rw [hsame, htmp]
  exact hpartial

theorem makesDir (d : Disk) (dir : Path) :
    (disk True fun _ _ => True).answers d (.createDirAll dir) (.ok ()) d := ⟨rfl, fun _ => .inl rfl⟩

theorem placeFile_runs {ε : Type} {io : String → ε} (hfree : Free dir d) :
    Proc.Runs (disk True fun _ _ => True) (placeFile io (dir ++ [name]) bytes) d (some (.ok ()))
      (placed d (dir ++ [name]) bytes) := by
  obtain ⟨tmp, htmp, -⟩ := isPartial_withExtension dir name
  let d' : Disk := ⟨Function.update d.files (dir ++ [tmp]) (some (.file bytes)), d.asked⟩
  have hwritten : (disk True fun _ _ => True).answers d (.write (dir ++ [tmp]) bytes) (.ok ()) d' :=
    ⟨rfl, hfree tmp, rfl⟩
  have hrenamed : (disk True fun _ _ => True).answers d' (.rename (dir ++ [tmp]) (dir ++ [name]))
      (.ok ()) (placed d (dir ++ [name]) bytes) := by
    refine ⟨bytes, Function.update_self .., ?_, ?_⟩
    · simp only [d', Function.update_apply]
      split
      · intro h
        cases h
      · exact hfree name
    · simp only [placed, htmp, d', Function.update_idem]
  unfold placeFile
  rw [if_neg (List.append_ne_nil_of_right_ne_nil _ (List.cons_ne_nil _ _)), List.dropLast_concat, htmp]
  refine runs_bind (runs_ask (makesDir d dir)) (runs_bind .done ?_)
  refine runs_bind (runs_ask hwritten) (runs_bind .done ?_)
  exact runs_bind (runs_ask hrenamed) .done

/-- The disk is full before all is written. -/
theorem placeFile_fails {ε : Type} {io : String → ε} (hfree : Free dir d) (k : Nat) (text : String) :
    Proc.Runs (disk True fun _ _ => True) (placeFile io (dir ++ [name]) bytes) d
      (some (.error (io text))) (torn d (dir ++ [name]) (bytes.take k)) := by
  obtain ⟨tmp, htmp, -⟩ := isPartial_withExtension dir name
  have htorn : (disk True fun _ _ => True).answers d (.write (dir ++ [tmp]) bytes) (.error text)
      (torn d (dir ++ [name]) (bytes.take k)) :=
    ⟨rfl, .inr ⟨hfree tmp, k, by rw [torn, htmp]⟩⟩
  unfold placeFile
  rw [if_neg (List.append_ne_nil_of_right_ne_nil _ (List.cons_ne_nil _ _)), List.dropLast_concat, htmp]
  refine runs_bind (runs_ask (makesDir d dir)) (runs_bind .done ?_)
  exact runs_bind (runs_ask htorn) (runs_bind_error .done)

/-- The process is killed before all is written. -/
theorem placeFile_killed {ε : Type} {io : String → ε} (hfree : Free dir d) (k : Nat) :
    Proc.Runs (disk True fun _ _ => True) (placeFile io (dir ++ [name]) bytes) d none
      (torn d (dir ++ [name]) (bytes.take k)) := by
  obtain ⟨tmp, htmp, -⟩ := isPartial_withExtension dir name
  have htorn : (disk True fun _ _ => True).partway d (.write (dir ++ [tmp]) bytes)
      (torn d (dir ++ [name]) (bytes.take k)) :=
    ⟨rfl, .inr ⟨hfree tmp, k, by rw [torn, htmp]⟩⟩
  unfold placeFile
  rw [if_neg (List.append_ne_nil_of_right_ne_nil _ (List.cons_ne_nil _ _)), List.dropLast_concat, htmp]
  -- the directory is made, and the write beside the target is cut off
  refine runs_bind (runs_ask (makesDir d dir)) (runs_bind .done ?_)
  exact .during htorn

theorem getArtifact_runs (hfits : bytes.length ≤ MAX_ARTIFACT_BYTES) :
    Proc.Runs (disk True fun _ _ => True) (getArtifact rel) d (some (.ok bytes)) (requested d rel) := by
  have hserved : (disk True fun _ _ => True).answers d (.request rel) (.ok ⟨200, none, [bytes], none⟩)
      (requested d rel) := ⟨rfl, trivial⟩
  have hbody : fetchCapped rel MAX_ARTIFACT_BYTES (.ok ⟨200, none, [bytes], none⟩) = .ok bytes := by
    unfold fetchCapped
    dsimp only
    rw [if_neg (by decide), if_neg (by simp), collectChunks, if_neg (by simpa using hfits)]
    rfl
  refine runs_bind (runs_ask hserved) ?_
  rw [hbody]
  exact .done

/-- However the placing of the bytes goes, so goes the fetch. -/
theorem fetch_runs {out : Option (Except FetchError Unit)}
    (hdest : localDest r.quoted r.storeRoot rel = .ok (dir ++ [name]))
    (hkeccak : r.hashes.keccak256 bytes = hash) (hfits : bytes.length ≤ MAX_ARTIFACT_BYTES)
    (hplace : Proc.Runs (disk True fun _ _ => True) (placeFile .io (dir ++ [name]) bytes)
      (requested d rel) out d') :
    Proc.Runs (disk True fun _ _ => True) (r.fetch rel hash) d
      (out.map fun res => (res.mapError RunError.ofFetch).map fun _ => true) d' := by
  have hread : (disk True fun _ _ => True).answers d (.read (dir ++ [name])) (.error "not found") d :=
    ⟨rfl, fun _ h => absurd h (by simp), fun h => absurd trivial h⟩
  have hverified : Proc.Runs (disk True fun _ _ => True)
      (fetchVerified r.hashes rel (dir ++ [name]) hash) d
      (out.map fun res => res.map fun _ => true) d' := by
    -- there is nothing to read, and so the mirror is asked
    refine runs_bind (runs_ask hread) ?_
    rw [if_neg (by simp [Except.toOption])]
    refine runs_bind (getArtifact_runs hfits) ?_
    unfold placeVerified
    rw [if_neg (not_not.mpr hkeccak)]
    cases out with
    | none => exact runs_bind_cut hplace
    | some res =>
        cases res with
        | error e => exact runs_bind_error hplace
        | ok u => exact runs_bind hplace .done
  unfold Runner.fetch
  rw [hdest]
  refine runs_bind .done ?_
  have hmapped := runs_mapError (f := RunError.ofFetch) hverified
  cases out with
  | none => exact hmapped
  | some res =>
      cases res with
      | error e => exact hmapped
      | ok u => exact hmapped

/-- A file that has its hash is not fetched again. -/
theorem fetch_kept (hdest : localDest r.quoted r.storeRoot rel = .ok (dir ++ [name]))
    (hfile : d.files (dir ++ [name]) = some (.file bytes)) (hkeccak : r.hashes.keccak256 bytes = hash) :
    Proc.Runs (disk True fun _ _ => True) (r.fetch rel hash) d (some (.ok false)) d := by
  have hread : (disk True fun _ _ => True).answers d (.read (dir ++ [name])) (.ok bytes) d := by
    refine ⟨rfl, fun bytes' h => ?_, fun h => absurd trivial h⟩
    cases h
    exact hfile
  have hverified : Proc.Runs (disk True fun _ _ => True)
      (fetchVerified r.hashes rel (dir ++ [name]) hash) d (some (.ok false)) d := by
    have hthere : (Except.ok bytes : Except String _).toOption.any
        (fun bytes => decide (r.hashes.keccak256 bytes = hash)) = true := decide_eq_true hkeccak
    refine runs_bind (runs_ask hread) ?_
    rw [if_pos hthere]
    exact .done
  unfold Runner.fetch
  rw [hdest]
  exact runs_bind .done (runs_mapError hverified)

/-- The mirror has no sidecar, and that is no error. -/
theorem stageSidecar_runs : Proc.Runs (disk True fun _ _ => True)
    (r.stageSidecar (modelPath hash "sidecar.nat.json")) d (some (.ok ()))
    (requested d (modelPath hash "sidecar.nat.json")) := by
  have hprobe : ∀ path, (disk True fun _ _ => True).answers d (.probe path) false d := fun _ =>
    ⟨rfl, fun h => absurd h Bool.false_ne_true, fun h => absurd trivial h⟩
  have hrefused : ∀ rel, (disk True fun _ _ => True).answers d (.request rel)
      (.ok ⟨404, none, [], none⟩) (requested d rel) := fun _ => ⟨rfl, trivial⟩
  unfold Runner.stageSidecar
  rw [localDest_modelPath _ _ _ _ ⟨by decide, by decide⟩]
  let unserved := FetchError.notServed 404 (modelPath hash "sidecar.nat.json")
  refine runs_bind (runs_ask (hprobe _)) (runs_bind (a := .error unserved) ?_ .done)
  exact Proc.Runs.bind (runs_bind (runs_ask (hrefused _)) .done) .done

theorem readManifest_runs {shards : List Nat} (h : ManifestIs r hash shards d) :
    Proc.Runs (disk True fun _ _ => True) (r.readManifest hash) d (some (.ok shards)) d := by
  obtain ⟨bytes, raw, hfile, -, hraw, hparse⟩ := h
  have hread : (disk True fun _ _ => True).answers d (.read (manifestPath r.storeRoot hash))
      (.ok bytes) d := by
    refine ⟨rfl, fun bytes' h => ?_, fun h => absurd trivial h⟩
    cases h
    exact hfile
  refine runs_bind (runs_ask hread) (runs_bind (runs_ofExcept rfl) ?_)
  rw [hraw]
  refine runs_bind (runs_ofExcept rfl) (runs_ofExcept ?_)
  rw [hparse]
  rfl

/-- Every shard that is wanted is served. -/
theorem stageShards_runs (served : Nat → List UInt8)
    (hfits : ∀ f, (served f).length ≤ MAX_ARTIFACT_BYTES) {shards : List Nat}
    (hfree : Free (datasetDir r.storeRoot hash) d) :
    ∃ d', Proc.Runs (disk True fun _ _ => True)
      (forM shards (r.stageShard hash) : Fetch RunError PUnit) d (some (.ok ())) d' := by
  -- induction on the shards: none of them puts anything beside its own path
  induction shards generalizing d with
  | nil => exact ⟨d, .done⟩
  | cons f rest ih =>
      let rel := datasetPath hash (shardFile f)
      have hprobe : (disk True fun _ _ => True).answers d (.probe (shardPath r.storeRoot hash f))
          false d := ⟨rfl, fun h => absurd h Bool.false_ne_true, fun h => absurd trivial h⟩
      have hshard : Proc.Runs (disk True fun _ _ => True) (r.stageShard hash f) d (some (.ok ()))
          (placed (requested d rel) (shardPath r.storeRoot hash f) (served f)) := by
        unfold Runner.stageShard
        dsimp only
        rw [localDest_datasetPath _ _ _ _ (safeName_shardFile f)]
        refine runs_bind .done (runs_bind (runs_ask hprobe) ?_)
        exact runs_bind (runs_mapError (getArtifact_runs (hfits f))) (placeFile_runs hfree)
      obtain ⟨d', hrest⟩ := ih hfree.requested.placed
      exact ⟨d', runs_bind hshard hrest⟩

/-- A manifest that is there is read in one way. -/
theorem ManifestIs.unique {shards shards' : List Nat} (h : ManifestIs r hash shards d)
    (h' : ManifestIs r hash shards' d) : shards = shards' := by
  obtain ⟨bytes, raw, hfile, -, hraw, hparse⟩ := h
  obtain ⟨bytes', raw', hfile', -, hraw', hparse'⟩ := h'
  rw [hfile] at hfile'
  cases hfile'
  rw [hraw] at hraw'
  cases hraw'
  rw [hparse] at hparse'
  cases hparse'
  rfl

end Runs

/-! ## Three stagings of an empty store -/

/-- A manifest is one digit for each of its shards here. -/
def digitRunner : Runner where
  hashes := Federated.Tree.residueHashes
  storeRoot := ["store"]
  hasMirror := true
  quoted := id
  parseManifest raw := .ok (raw.toList.map fun c => c.toNat - 48)

def weightBytes : List UInt8 := [1, 2, 3, 4, 5]

/-- Two steps of one shard each, out of the shards 3 and 7. -/
def digitJob : StagedJob where
  steps := 2
  workerShard := 0
  shardsPerStep := 1
  shareEvery := 1
  modelStartHash := Federated.Tree.residueHashes.keccak256 weightBytes
  datasetHash := Federated.Tree.residueHashes.keccak256 (utf8 "37")

/-- The directories of the store, without a file. -/
def emptyStore : Disk := ⟨fun path => if path.length ≤ 3 then some .dir else none, []⟩

theorem emptyStore_free {dir : Path} (h : dir.length = 3) : Free dir emptyStore := by
  intro name
  simp [emptyStore, h]

theorem emptyStore_file (path : Path) (bytes : List UInt8) :
    emptyStore.files path ≠ some (.file bytes) := by
  intro h
  unfold emptyStore at h
  dsimp only at h
  split at h
  · cases h
  · cases h

section Digits

abbrev weightsRel : String := modelPath digitJob.modelStartHash "model.safetensors"
abbrev manifestRel : String := datasetPath digitJob.datasetHash "manifest.json"
abbrev digitWeights : Path := weightsPath digitRunner.storeRoot digitJob.modelStartHash
abbrev digitManifest : Path := manifestPath digitRunner.storeRoot digitJob.datasetHash

/-- The disk is full after three bytes of the checkpoint. -/
def diskFull : Disk := torn (requested emptyStore weightsRel) digitWeights (weightBytes.take 3)

def withWeights : Disk := placed (requested diskFull weightsRel) digitWeights weightBytes

/-- The process is killed after one byte of the manifest. -/
def killed : Disk := torn (requested withWeights manifestRel) digitManifest ((utf8 "37").take 1)

def withManifest : Disk := placed (requested killed manifestRel) digitManifest (utf8 "37")

theorem weightsRel_dest :
    localDest digitRunner.quoted digitRunner.storeRoot weightsRel = .ok digitWeights :=
  localDest_modelPath _ _ _ _ ⟨by decide, by decide⟩

theorem manifestRel_dest :
    localDest digitRunner.quoted digitRunner.storeRoot manifestRel = .ok digitManifest :=
  localDest_datasetPath _ _ _ _ ⟨by decide, by decide⟩

theorem weightBytes_fit : weightBytes.length ≤ MAX_ARTIFACT_BYTES := by decide

theorem manifestBytes_fit : (utf8 "37").length ≤ MAX_ARTIFACT_BYTES := by decide

theorem diskFull_free {dir : Path} (h : dir.length = 3) : Free dir diskFull :=
  (emptyStore_free h).requested.torn

theorem withWeights_free {dir : Path} (h : dir.length = 3) : Free dir withWeights :=
  (diskFull_free h).requested.placed

theorem killed_free {dir : Path} (h : dir.length = 3) : Free dir killed :=
  (withWeights_free h).requested.torn

theorem stage_fails : Proc.Runs (disk True fun _ _ => True) (digitRunner.stage digitJob) emptyStore
    (some (.error (.fetch "io: disk full"))) diskFull := by
  have hfetch := fetch_runs (d := emptyStore) weightsRel_dest rfl weightBytes_fit
    (placeFile_fails (emptyStore_free rfl).requested 3 "disk full")
  unfold Runner.stage
  rw [if_pos (show digitRunner.hasMirror = true from rfl)]
  -- the checkpoint comes first, and its failure ends the staging
  exact runs_bind_error (runs_bind_error (runs_bind_error hfetch))

theorem stage_killed : Proc.Runs (disk True fun _ _ => True) (digitRunner.stage digitJob) diskFull
    none killed := by
  have hfetch := fetch_runs (d := diskFull) weightsRel_dest rfl weightBytes_fit
    (placeFile_runs (diskFull_free rfl).requested)
  have hcut := fetch_runs (d := withWeights) manifestRel_dest rfl manifestBytes_fit
    (placeFile_killed (withWeights_free rfl).requested 1)
  unfold Runner.stage
  rw [if_pos (show digitRunner.hasMirror = true from rfl)]
  -- the checkpoint is placed, and the write of the manifest is the one cut short
  exact runs_bind_cut (runs_bind (runs_bind hfetch .done) (runs_bind_cut (runs_bind_cut hcut)))

theorem withManifest_is : ManifestIs digitRunner digitJob.datasetHash [3, 7] withManifest :=
  ⟨utf8 "37", "37", placed_file, rfl, fromUtf8_utf8 _, rfl⟩

/-- The third time the checkpoint is there, and the shards are served. -/
theorem stage_ends : ∃ d, Proc.Runs (disk True fun _ _ => True) (digitRunner.stage digitJob) killed
    (some (.ok ())) d ∧ ManifestIs digitRunner digitJob.datasetHash [3, 7] d := by
  let sideRel := modelPath digitJob.modelStartHash "sidecar.nat.json"
  let wanted := (Worker.stage [3, 7] digitJob.toTrainingJobPayload).sort (· ≤ ·)
  have hplaced : withWeights.files digitWeights = some (.file weightBytes) := placed_file
  have hthere : killed.files digitWeights = some (.file weightBytes) :=
    (torn_file (not_isPartial (by decide))).trans hplaced
  have hkept := fetch_kept weightsRel_dest hthere rfl
  have hfetch := fetch_runs (d := killed) manifestRel_dest rfl manifestBytes_fit
    (placeFile_runs (killed_free rfl).requested)
  have hread : ManifestIs digitRunner digitJob.datasetHash [3, 7] (requested withManifest sideRel) :=
    withManifest_is
  obtain ⟨d, hshards⟩ : ∃ d, Proc.Runs (disk True fun _ _ => True)
      (forM wanted (digitRunner.stageShard digitJob.datasetHash) : Fetch RunError PUnit)
      (requested withManifest sideRel) (some (.ok ())) d :=
    stageShards_runs (fun f => [f.toUInt8]) (fun _ => by simp [MAX_ARTIFACT_BYTES])
      (killed_free rfl).requested.placed.requested
  have hmoves : Moves (disk True fun _ _ => True) digitRunner.StagesBeside (fun _ _ => True)
      (forM wanted (digitRunner.stageShard digitJob.datasetHash)) (requested withManifest sideRel) :=
    (moves_forM (fun _ _ _ _ _ => trivial) fun f _ d' =>
      (stageShard_moves f).mono fun _ _ _ _ => trivial).mono fun _ _ _ _ => trivial
  refine ⟨d, ?_, hread.changes (hmoves.runs hshards).1⟩
  unfold Runner.stage
  rw [if_pos (show digitRunner.hasMirror = true from rfl)]
  -- the checkpoint is kept and the manifest fetched again; the shards come last
  refine runs_bind (runs_bind (runs_bind hkept .done) (runs_bind (runs_bind hfetch .done) .done)) ?_
  exact runs_bind stageSidecar_runs (runs_bind (readManifest_runs hread) hshards)

end Digits

/-! ## Any number of stagings -/

/-- One staging that ended or was cut short, whatever the mirror and the disk did. -/
def StagedOnce (r : Runner) (d d' : Disk) : Prop :=
  ∃ job out, Proc.Runs (disk True fun _ _ => True) (r.stage job) d out d'

theorem StagedOnce.changes {r : Runner} {d d' : Disk} (h : StagedOnce r d d') : r.Stages d d' := by
  obtain ⟨job, out, hruns⟩ := h
  by_cases hmirror : r.hasMirror = true
  · exact ((stage_moves hmirror).runs hruns).1
  · rw [Runner.stage, if_neg hmirror] at hruns
    cases hruns
    exact refl d

theorem stages_of_runs {r : Runner} {d d' : Disk} (h : Relation.ReflTransGen (StagedOnce r) d d') :
    r.Stages d d' := by
  induction h with
  | refl => exact refl d
  | tail _ hstep ih => exact trans_of r.Stages ih hstep.changes

/-- Jobs may be staged one after the other from any mirror, with a disk that fails at any
time, and be killed at any point.  What is then found under a name that is a hash was there
before or has that hash, and a file that has its hash keeps one; nothing is larger than the
cap, nothing whole goes away, and outside the store every file is as it was. -/
theorem store_stays_addressed (r : Runner) {d d' : Disk}
    (h : Relation.ReflTransGen (StagedOnce r) d d') :
    (∀ hash path bytes, Addressed r.storeRoot hash path → d'.files path = some (.file bytes) →
      d.files path = some (.file bytes) ∨ r.hashes.keccak256 bytes = hash) ∧
    (∀ hash path, Addressed r.storeRoot hash path → Holds r.hashes path hash d →
      Holds r.hashes path hash d') ∧
    (∀ path bytes, d'.files path = some (.file bytes) →
      d.files path = some (.file bytes) ∨ bytes.length ≤ MAX_ARTIFACT_BYTES) ∧
    (∀ path bytes, ¬ IsPartial path → d.files path = some (.file bytes) →
      ∃ bytes', d'.files path = some (.file bytes')) ∧
    ∀ path bytes, ¬ r.storeRoot <+: path →
      (d'.files path = some (.file bytes) ↔ d.files path = some (.file bytes)) := by
  have hchanges := stages_of_runs h
  have houtside : ∀ path bytes, ¬ r.storeRoot <+: path → d'.files path = some (.file bytes) →
      d.files path = some (.file bytes) := by
    intro path bytes hroot hfile
    rcases hchanges.placed path bytes hfile with hbefore | hplaced
    · exact hbefore
    · exact absurd hplaced.inside.1 hroot
  refine ⟨fun hash path bytes haddress hfile => ?_, fun hash path haddress hholds => ?_,
    fun path bytes hfile => ?_, fun path bytes hwhole hfile => ?_, fun path bytes hroot => ?_⟩
  · exact (hchanges.placed path bytes hfile).imp_right fun hplaced => hplaced.verified hash haddress
  · exact hholds.changes haddress hchanges
  · exact (hchanges.placed path bytes hfile).imp_right fun hplaced => hplaced.fits
  · exact hchanges.kept path bytes hfile fun _ => hwhole
  · refine ⟨houtside path bytes hroot, fun hfile => ?_⟩
    obtain ⟨bytes', hfile'⟩ := hchanges.kept path bytes hfile fun hinside => absurd hinside hroot
    have hbefore := houtside path bytes' hroot hfile'
    rw [hfile] at hbefore
    cases hbefore
    exact hfile'

/-- A full disk, a kill and a third staging that ends. -/
theorem store_stays_addressed_torn : ∃ d,
    Proc.Runs (disk True fun _ _ => True) (digitRunner.stage digitJob) emptyStore
      (some (.error (.fetch "io: disk full"))) diskFull ∧
    Proc.Runs (disk True fun _ _ => True) (digitRunner.stage digitJob) diskFull none killed ∧
    Proc.Runs (disk True fun _ _ => True) (digitRunner.stage digitJob) killed (some (.ok ())) d ∧
    ∀ hash path bytes, Addressed digitRunner.storeRoot hash path →
      d.files path = some (.file bytes) → Federated.Tree.residueHashes.keccak256 bytes = hash := by
  obtain ⟨d, hstaged, -⟩ := stage_ends
  have hchain : Relation.ReflTransGen (StagedOnce digitRunner) emptyStore d :=
    .tail (.tail (.single ⟨digitJob, _, stage_fails⟩) ⟨digitJob, _, stage_killed⟩)
      ⟨digitJob, _, hstaged⟩
  have hstays := store_stays_addressed digitRunner hchain
  refine ⟨d, stage_fails, stage_killed, hstaged, fun hash path bytes haddress hfile => ?_⟩
  exact (hstays.1 hash path bytes haddress hfile).resolve_left (emptyStore_file path bytes)

/-! ## What a run finds after a staging -/

/-- The files of the disk are what the host reads. -/
def HostOf (d : Disk) (host : Host) : Prop :=
  ∀ path bytes, d.files path = some (.file bytes) → host.read path = .ok bytes

/-- An artifact is not there, or is not the one that the job names. -/
def AboutArtifact : ArtifactError → Prop
  | .missing _ _ => True
  | .hashMismatch _ _ _ => True
  | _ => False

theorem verifyFile_of_holds {H : Hashes} {host : Host} {path : Path} {hash : B32} {d : Disk}
    (h : Holds H path hash d) (hhost : HostOf d host) (what : String) :
    verifyFile H host what path hash = .ok () := by
  obtain ⟨bytes, hfile, hkeccak⟩ := h
  exact verifyFile_eq_ok.mpr ⟨bytes, hhost path bytes hfile, hkeccak⟩

theorem readSidecar_error {host : Host} {path : Path} {e : ArtifactError}
    (h : readSidecar host path = .error e) : ¬ AboutArtifact e := by
  unfold readSidecar at h
  split at h
  · cases h
  · cases h
    exact id
  · split at h
    · cases h
      exact id
    · cases h

/-- A reader of the sidecar says nothing of the artifacts. -/
theorem reader_error {A : Type} {host : Host} {path : Path} {e : ArtifactError} {default : A}
    (read : Json → Except ArtifactError A) (hread : ∀ doc e, read doc = .error e → ¬ AboutArtifact e)
    (h : (do
      match ← readSidecar host path with
      | none => .ok default
      | some doc => read doc) = .error e) : ¬ AboutArtifact e := by
  cases hsidecar : readSidecar host path with
  | error e' =>
      rw [hsidecar] at h
      cases h
      exact readSidecar_error hsidecar
  | ok doc? =>
      rw [hsidecar] at h
      cases doc? with
      | none => cases h
      | some doc => exact hread doc e h

theorem architectureOf_not_about (doc : Json) (e : ArtifactError)
    (h : architectureOf doc = .error e) : ¬ AboutArtifact e := by
  unfold architectureOf at h
  split at h
  · split at h
    · cases h
    · split at h
      · cases h
      · cases h
        exact id
  · cases h

theorem commitmentGridOf_not_about (doc : Json) (e : ArtifactError)
    (h : commitmentGridOf doc = .error e) : ¬ AboutArtifact e := by
  unfold commitmentGridOf at h
  split at h
  · cases h
  · split at h
    · cases h
    · split at h
      · cases h
      · cases h
        exact id

/-- With both artifacts verified, what can still be wrong is the sidecar. -/
theorem resolve_error {H : Hashes} {host : Host} {root : Path} {modelStartHash datasetHash : B32}
    {d : Disk} {e : ArtifactError} (hhost : HostOf d host)
    (hweights : Holds H (weightsPath root modelStartHash) modelStartHash d)
    (hmanifest : Holds H (manifestPath root datasetHash) datasetHash d)
    (h : resolve H host root modelStartHash datasetHash = .error e) : ¬ AboutArtifact e := by
  unfold resolve at h
  rw [verifyFile_of_holds hweights hhost, verifyFile_of_holds hmanifest hhost] at h
  cases harch : readArchitecture host (sidecarPath root modelStartHash) with
  | error e' =>
      simp only [harch] at h
      cases h
      exact reader_error _ architectureOf_not_about harch
  | ok architecture =>
      cases hgrid : readCommitmentGrid host (sidecarPath root modelStartHash) with
      | error e' =>
          simp only [harch, hgrid] at h
          cases h
          exact reader_error _ commitmentGridOf_not_about hgrid
      | ok grid =>
          cases hshape : readModelShape host (sidecarPath root modelStartHash) with
          | error e' =>
              simp only [harch, hgrid, hshape] at h
              cases h
              exact reader_error (fun doc => .ok (modelShapeOf doc)) nofun hshape
          | ok shape =>
              simp only [harch, hgrid, hshape] at h
              cases h

/-- A directory under the path of a shard was there before. -/
theorem shard_found {r : Runner} {hash : B32} {d d' : Disk} {f : Nat} (hchanges : r.Stages d d')
    (hthere : d'.files (shardPath r.storeRoot hash f) ≠ none) :
    (∃ bytes, d'.files (shardPath r.storeRoot hash f) = some (.file bytes)) ∨
      d.files (shardPath r.storeRoot hash f) = some .dir := by
  obtain ⟨node, hnode⟩ := Option.ne_none_iff_exists'.mp hthere
  cases node with
  | file bytes => exact .inl ⟨bytes, hnode⟩
  | dir =>
      right
      -- the path is one deeper than the directories that a staging makes
      refine (hchanges.made _ hnode).resolve_right fun hdeep => ?_
      simp only [shardPath, datasetDir, List.length_append, List.length_cons, List.length_nil]
        at hdeep
      omega

/-- After a staging that succeeded, whatever the mirror sent and whatever was on the disk
before: both artifacts have the hashes of the job, there is a file for every shard that a step
opens, unless a directory has its name since before, and `resolve` can find fault with the
sidecar only. -/
theorem staged_suffices (r : Runner) (hmirror : r.hasMirror = true) {job : StagedJob} {d d' : Disk}
    (hruns : Proc.Runs (disk True fun _ _ => True) (r.stage job) d (some (.ok ())) d') :
    Holds r.hashes (weightsPath r.storeRoot job.modelStartHash) job.modelStartHash d' ∧
    (∃ shards, ManifestIs r job.datasetHash shards d' ∧
      ∀ step < job.steps,
        ∀ f ∈ readAndVerifyShards shards job.toTrainingJobPayload step job.workerShard,
          (∃ bytes, d'.files (shardPath r.storeRoot job.datasetHash f) = some (.file bytes)) ∨
            d.files (shardPath r.storeRoot job.datasetHash f) = some .dir) ∧
    ∀ host, HostOf d' host → ∀ e,
      resolve r.hashes host r.storeRoot job.modelStartHash job.datasetHash = .error e →
        ¬ AboutArtifact e := by
  obtain ⟨hchanges, hpost⟩ := (stage_moves hmirror).runs hruns
  have hstaged := hpost () rfl
  obtain ⟨shards, hmanifest, hthere⟩ := hstaged.shards
  refine ⟨hstaged.weights, ⟨shards, hmanifest, fun step hstep f hf => ?_⟩, fun host hhost e he => ?_⟩
  · exact shard_found hchanges (hthere f (mem_stage.mpr ⟨step, hstep, hf⟩))
  · obtain ⟨bytes, raw, hfile, hkeccak, -⟩ := hmanifest
    exact resolve_error hhost hstaged.weights ⟨bytes, hfile, hkeccak⟩ he

/-- Both shards of the job are there, and the checkpoint has its hash. -/
theorem staged_suffices_shards : ∃ d,
    Proc.Runs (disk True fun _ _ => True) (digitRunner.stage digitJob) killed (some (.ok ())) d ∧
      Holds Federated.Tree.residueHashes digitWeights digitJob.modelStartHash d ∧
      ∀ f ∈ [3, 7], ∃ bytes,
        d.files (shardPath digitRunner.storeRoot digitJob.datasetHash f) = some (.file bytes) := by
  obtain ⟨d, hruns, hmanifest⟩ := stage_ends
  obtain ⟨hweights, ⟨shards, hread, hthere⟩, -⟩ := staged_suffices digitRunner rfl hruns
  obtain rfl := hread.unique hmanifest
  refine ⟨d, hruns, hweights, fun f hf => ?_⟩
  have hopened : ∃ step < digitJob.steps,
      f ∈ readAndVerifyShards [3, 7] digitJob.toTrainingJobPayload step digitJob.workerShard := by
    rcases List.mem_pair.mp hf with rfl | rfl
    · exact ⟨0, by decide, by decide⟩
    · exact ⟨1, by decide, by decide⟩
  obtain ⟨step, hstep, hopens⟩ := hopened
  exact (hthere step hstep f hopens).resolve_right (killed_free rfl _)

end NatJobRunner
end Worker
end ComputePool
