import ComputePool.Lib.World
import ComputePool.Worker.JobArtifacts

/-!
# Artifacts from a mirror

`artifact_fetch.rs`: an artifact is fetched from a mirror that nobody trusts, hashed, and
renamed into its place.  The mirror and the file system are the other side of the programs
here.  The mirror says what it likes; an operation on a file may fail at any time, and the
process may be killed before any operation or in the middle of it.
-/

namespace ComputePool
namespace Worker
namespace ArtifactFetch

open RustStd Federated Interaction JobArtifacts
open Interaction.Fallible (Moves moves_pure moves_fail moves_ofExcept moves_ask moves_forM)

/-! ## Paths -/

/-- `Path::file_stem`; a dot in front belongs to the stem. -/
def fileStem (name : List Char) : List Char :=
  match (name.splitOn '.').dropLast with
  | [] | [[]] => name
  | front => ['.'].intercalate front

/-- `Path::with_extension` -/
def withExtension (path : Path) (ext : String) : Path :=
  match path.getLast? with
  | none => path
  | some name => path.dropLast ++ [String.ofList (fileStem name.toList ++ '.' :: ext.toList)]

/-! ## Calls -/

/-- What the mirror sends.  `broken` is set when the connection ends before the body does. -/
structure Response where
  status : Nat
  contentLength : Option Nat
  chunks : List (List UInt8)
  broken : Option String

/-- What is found under a path. -/
inductive Node where
  | file (bytes : List UInt8)
  | dir

abbrev Files := Path → Option Node

inductive StoreCall where
  /-- `std::fs::read` -/
  | read (path : Path)
  /-- `Path::exists` -/
  | probe (path : Path)
  | createDirAll (path : Path)
  /-- `std::fs::write` -/
  | write (path : Path) (bytes : List UInt8)
  | rename (source dest : Path)
  | removeFile (path : Path)
  /-- `http.get(format!("{base}/{path}"))` -/
  | request (path : String)

def Store : Signature where
  Call := StoreCall
  Answer
    | .read _ => Except String (List UInt8)
    | .probe _ => Bool
    | .request _ => Except String Response
    | _ => Except String Unit
  cost _ := 0

inductive FetchError where
  | transport (text : String)
  | notServed (status : Nat) (path : String)
  | hashMismatch (path : String) (wanted got : B32)
  | tooLarge
  | io (text : String)

def MAX_ARTIFACT_BYTES : Nat := 1024 * 1024 * 1024

def FetchError.display : FetchError → String
  | transport text => "mirror is unreachable: " ++ text
  | notServed status path => "mirror returned " ++ status.repr ++ " for " ++ path
  | hashMismatch path wanted got =>
      "content hash mismatch for " ++ path ++ ": wanted " ++ hexOf wanted ++ ", got " ++
        hexOf got ++ ". The mirror served something other than what the job named; " ++
          "nothing was written."
  | tooLarge => "artifact exceeds the " ++ MAX_ARTIFACT_BYTES.repr ++ "-byte cap"
  | io text => "io: " ++ text

/-- A program that works on the store and asks the mirror. -/
abbrev Fetch (ε α : Type) := Fallible Store ε α

/-! ## The mirror -/

/-- The loop over the chunks of a body. -/
def collectChunks (maxBytes : Nat) (broken : Option String) :
    List (List UInt8) → List UInt8 → Except FetchError (List UInt8)
  | [], buf =>
      match broken with
      | some text => .error (.transport text)
      | none => .ok buf
  | chunk :: rest, buf =>
      if buf.length + chunk.length > maxBytes then .error .tooLarge
      else collectChunks maxBytes broken rest (buf ++ chunk)

/-- `HttpMirror::fetch_capped`, from the answer on. -/
def fetchCapped (path : String) (maxBytes : Nat) (reply : Except String Response) :
    Except FetchError (List UInt8) :=
  match reply with
  | .error text => .error (.transport text)
  | .ok res =>
      if ¬ (200 ≤ res.status ∧ res.status < 300) then .error (.notServed res.status path)
      else if res.contentLength.any fun len => decide (len > maxBytes) then .error .tooLarge
      else collectChunks maxBytes res.broken res.chunks []

/-- `ArtifactSource::get` of an `HttpMirror`. -/
def getArtifact (path : String) : Fetch FetchError (List UInt8) := do
  let reply ← Fallible.ask (I := Store) (.request path)
  Fallible.ofExcept (fetchCapped path MAX_ARTIFACT_BYTES reply)

/-! ## Placing a file -/

section Place

variable {ε : Type} (io : String → ε)

/-- `?` on a file operation. -/
def orIo (answer : Except String Unit) : Fetch ε Unit := Fallible.ofExcept (answer.mapError io)

/-- Write beside `dest`, and rename into place. -/
def placeFile (dest : Path) (bytes : List UInt8) : Fetch ε Unit :=
  if dest = [] then Fallible.fail (io "destination has no parent")
  else do
    let made ← Fallible.ask (I := Store) (.createDirAll dest.dropLast)
    orIo io made
    let tmp := withExtension dest "partial"
    let written ← Fallible.ask (I := Store) (.write tmp bytes)
    orIo io written
    let renamed ← Fallible.ask (I := Store) (.rename tmp dest)
    match renamed with
    | .ok _ => pure ()
    | .error text =>
        let _ ← Fallible.ask (I := Store) (.removeFile tmp)
        Fallible.fail (io text)

end Place

variable (H : Hashes) (quoted : String → String)

/-- Write `bytes` to `dest` only if they hash to `wanted`. -/
def placeVerified (dest : Path) (bytes : List UInt8) (wanted : B32) (label : String) :
    Fetch FetchError Unit :=
  let got := H.keccak256 bytes
  if got ≠ wanted then Fallible.fail (.hashMismatch label wanted got)
  else placeFile .io dest bytes

/-- Fetch and place in one step, unless the file is there and hashes correctly. -/
def fetchVerified (remotePath : String) (dest : Path) (wanted : B32) : Fetch FetchError Bool := do
  let existing ← Fallible.ask (I := Store) (.read dest)
  if existing.toOption.any fun bytes => H.keccak256 bytes = wanted then pure false
  else
    let bytes ← getArtifact remotePath
    placeVerified H dest bytes wanted remotePath
    pure true

def modelPath (hash : B32) (file : String) : String :=
  "models/0x" ++ hexEncode hash.toBytes ++ "/" ++ file

def datasetPath (hash : B32) (file : String) : String :=
  "datasets/0x" ++ hexEncode hash.toBytes ++ "/" ++ file

/-- A part of a relative path that `local_dest` refuses. -/
def unsafePart (part : List Char) : Bool :=
  part = [] || part = ['.'] || part = ['.', '.'] || part.contains '\\'

/-- Local destination for a store-relative path; `quoted` is its `Debug` text. -/
def localDest (storeRoot : Path) (rel : String) : Except FetchError Path :=
  let parts := rel.toList.splitOn '/'
  if parts.any unsafePart then .error (.io ("refusing unsafe artifact path " ++ quoted rel))
  else .ok (storeRoot ++ parts.map String.ofList)

/-! ## The disk -/

structure Disk where
  files : Files
  /-- What the mirror was asked for. -/
  asked : List String

/-- Directories may be new on the way to `path`. -/
def MadeDirs (path : Path) (files files' : Files) : Prop :=
  ∀ p, files' p = files p ∨ files p = none ∧ files' p = some .dir ∧ p <+: path

/-- A write that was not finished. -/
def Torn (path : Path) (bytes : List UInt8) (files files' : Files) : Prop :=
  files' = files ∨ files path ≠ some .dir ∧
    ∃ k, files' = Function.update files path (some (.file (bytes.take k)))

/-- The file system, and a mirror of which `mirror` says what it may answer.  Without
`faults` every file that is there can be read. -/
def disk (faults : Prop) (mirror : String → Except String Response → Prop) :
    World Store Disk where
  answers d c := match c with
    | .read path => fun r d' => d' = d ∧ (∀ bytes, r = .ok bytes → d.files path = some (.file bytes)) ∧
        (¬ faults → ∀ bytes, d.files path = some (.file bytes) → r = .ok bytes)
    | .probe path => fun found d' => d' = d ∧ (found = true → d.files path ≠ none) ∧
        (¬ faults → d.files path ≠ none → found = true)
    | .createDirAll path => fun _ d' => d'.asked = d.asked ∧ MadeDirs path d.files d'.files
    | .write path bytes => fun r d' => d'.asked = d.asked ∧ match r with
        | .ok _ => d.files path ≠ some .dir ∧
            d'.files = Function.update d.files path (some (.file bytes))
        | .error _ => Torn path bytes d.files d'.files
    | .rename source dest => fun r d' => match r with
        | .ok _ => ∃ bytes, d.files source = some (.file bytes) ∧ d.files dest ≠ some .dir ∧
            d' = { d with
              files := Function.update (Function.update d.files source none) dest
                (some (.file bytes)) }
        | .error _ => d' = d
    | .removeFile path => fun r d' => match r with
        | .ok _ => d.files path ≠ some .dir ∧
            d' = { d with files := Function.update d.files path none }
        | .error _ => d' = d
    | .request path => fun r d' => d' = { d with asked := d.asked ++ [path] } ∧ mirror path r
  partway d c d' := match c with
    | .createDirAll path => d'.asked = d.asked ∧ MadeDirs path d.files d'.files
    | .write path bytes => d'.asked = d.asked ∧ Torn path bytes d.files d'.files
    | .request path => d' = { d with asked := d.asked ++ [path] }
    | _ => d' = d

/-! ## What no run does to the store -/

/-- A path whose name ends in `.partial`. -/
def IsPartial (path : Path) : Prop :=
  ∃ dir stem, path = dir ++ [String.ofList (stem ++ ".partial".toList)]

/-- A path that is named by the hash of what is found there. -/
def Addressed (root : Path) (hash : B32) (path : Path) : Prop :=
  path = weightsPath root hash ∨ path = manifestPath root hash

/-- What may come under a path of the store. -/
structure Placeable (root path : Path) (bytes : List UInt8) : Prop where
  inside : root <+: path ∧ path ≠ root
  fits : bytes.length ≤ MAX_ARTIFACT_BYTES
  verified : ∀ hash, Addressed root hash path → H.keccak256 bytes = hash

/-- What a run may make of the files: `may` says what comes under a path, only a file that is
not whole yet goes, and directories are new down to those of the artifacts. -/
structure Changes (root : Path) (may : Path → List UInt8 → Prop) (d d' : Disk) : Prop where
  dirs : ∀ path, d.files path = some .dir → d'.files path = some .dir
  kept : ∀ path bytes, d.files path = some (.file bytes) → (root <+: path → ¬ IsPartial path) →
    ∃ bytes', d'.files path = some (.file bytes')
  placed : ∀ path bytes, d'.files path = some (.file bytes) →
    d.files path = some (.file bytes) ∨ may path bytes
  made : ∀ path, d'.files path = some .dir →
    d.files path = some .dir ∨ path.length ≤ root.length + 2

section

variable {H : Hashes} {quoted : String → String} {root : Path} {d d' d'' : Disk} {hash : B32}
  {path : Path} {may may' : Path → List UInt8 → Prop} {bytes : List UInt8}

instance : Std.Refl (Changes root may) :=
  ⟨fun _ => ⟨fun _ h => h, fun _ bytes h _ => ⟨bytes, h⟩, fun _ _ h => .inl h, fun _ h => .inl h⟩⟩

instance : IsTrans Disk (Changes root may) where
  trans d d' d'' h h' :=
    { dirs := fun path hdir => h'.dirs path (h.dirs path hdir)
      kept := by
        intro path bytes hfile hwhole
        obtain ⟨bytes', hfile'⟩ := h.kept path bytes hfile hwhole
        exact h'.kept path bytes' hfile' hwhole
      placed := by
        intro path bytes hfile
        rcases h'.placed path bytes hfile with hbefore | hplaced
        · exact h.placed path bytes hbefore
        · exact .inr hplaced
      made := by
        intro path hdir
        rcases h'.made path hdir with hbefore | hmade
        · exact h.made path hbefore
        · exact .inr hmade }

theorem Changes.mono (h : Changes root may d d') (hmay : ∀ path bytes, may path bytes →
    may' path bytes) : Changes root may' d d' :=
  ⟨h.dirs, h.kept, fun path bytes hfile => (h.placed path bytes hfile).imp_right (hmay path bytes),
    h.made⟩

/-- A whole file under a path where nothing may come stays as it is. -/
theorem Changes.fixed (h : Changes root may d d') (hnone : ∀ bytes, ¬ may path bytes)
    (hwhole : ¬ IsPartial path) (hfile : d.files path = some (.file bytes)) :
    d'.files path = some (.file bytes) := by
  obtain ⟨bytes', hfile'⟩ := h.kept path bytes hfile fun _ => hwhole
  rcases h.placed path bytes' hfile' with hbefore | hplaced
  · rw [hbefore] at hfile
    cases hfile
    exact hfile'
  · exact absurd hplaced (hnone bytes')

theorem changes_of_files (h : d'.files = d.files) : Changes root may d d' := by
  refine ⟨fun path hdir => ?_, fun path bytes hfile _ => ⟨bytes, ?_⟩, fun path bytes hfile => .inl ?_,
    fun path hdir => .inl ?_⟩
  · rwa [h]
  · rwa [h]
  · rwa [← h]
  · rwa [← h]

theorem MadeDirs.changes (h : MadeDirs path d.files d'.files) (hdeep : path.length ≤ root.length + 2) :
    Changes root may d d' := by
  refine ⟨fun p hdir => ?_, fun p bytes hfile _ => ⟨bytes, ?_⟩, fun p bytes hfile => .inl ?_,
    fun p hdir => ?_⟩
  · rcases h p with hsame | ⟨hnone, -, -⟩
    · rwa [hsame]
    · cases hnone.symm.trans hdir
  · rcases h p with hsame | ⟨hnone, -, -⟩
    · rwa [hsame]
    · cases hnone.symm.trans hfile
  · rcases h p with hsame | ⟨-, hdir, -⟩
    · rwa [← hsame]
    · cases hdir.symm.trans hfile
  · rcases h p with hsame | ⟨-, -, hway⟩
    · exact .inl (hsame ▸ hdir)
    · exact .inr (hway.length_le.trans hdeep)

/-- One file is new. -/
theorem changes_update (hdir : d.files path ≠ some .dir) (hmay : may path bytes)
    (hfiles : d'.files = Function.update d.files path (some (.file bytes))) :
    Changes root may d d' := by
  refine ⟨fun p hp => ?_, fun p bytes' hfile _ => ?_, fun p bytes' hfile => ?_,
    fun p hp => .inl ?_⟩
  · have hne : p ≠ path := fun hsame => hdir (hsame ▸ hp)
    rwa [hfiles, Function.update_of_ne hne]
  · rw [hfiles]
    by_cases hsame : p = path
    · subst hsame
      exact ⟨bytes, Function.update_self _ _ _⟩
    · exact ⟨bytes', (Function.update_of_ne hsame _ _).trans hfile⟩
  · rw [hfiles] at hfile
    by_cases hsame : p = path
    · subst hsame
      rw [Function.update_self] at hfile
      cases hfile
      exact .inr hmay
    · rw [Function.update_of_ne hsame] at hfile
      exact .inl hfile
  · rw [hfiles] at hp
    by_cases hsame : p = path
    · subst hsame
      rw [Function.update_self] at hp
      cases hp
    · rwa [Function.update_of_ne hsame] at hp

/-- A file of the store that is not whole is gone. -/
theorem changes_remove (htemp : IsPartial path) (hroot : root <+: path)
    (hdir : d.files path ≠ some .dir) (hfiles : d'.files = Function.update d.files path none) :
    Changes root may d d' := by
  refine ⟨fun p hp => ?_, fun p bytes hfile hwhole => ⟨bytes, ?_⟩, fun p bytes hfile => .inl ?_,
    fun p hp => .inl ?_⟩
  · have hne : p ≠ path := fun hsame => hdir (hsame ▸ hp)
    rwa [hfiles, Function.update_of_ne hne]
  · have hne : p ≠ path := by
      rintro rfl
      exact hwhole hroot htemp
    rwa [hfiles, Function.update_of_ne hne]
  · rw [hfiles] at hfile
    by_cases hsame : p = path
    · subst hsame
      rw [Function.update_self] at hfile
      cases hfile
    · rwa [Function.update_of_ne hsame] at hfile
  · rw [hfiles] at hp
    by_cases hsame : p = path
    · subst hsame
      rw [Function.update_self] at hp
      cases hp
    · rwa [Function.update_of_ne hsame] at hp

theorem Torn.changes (h : Torn path bytes d.files d'.files) (hmay : ∀ k, may path (bytes.take k)) :
    Changes root may d d' := by
  rcases h with hsame | ⟨hdir, k, hfiles⟩
  · exact changes_of_files hsame
  · exact changes_update hdir (hmay k) hfiles

/-! ## Names -/

theorem not_isPartial {dir : Path} {name : String}
    (h : ".partial".toList.isSuffixOf name.toList = false) : ¬ IsPartial (dir ++ [name]) := by
  rintro ⟨dir', stem, hpath⟩
  have hname := (List.append_inj' hpath rfl).2
  rw [List.singleton_inj] at hname
  rw [hname, Bool.eq_false_iff] at h
  simp only [String.toList_ofList] at h
  exact h (List.isSuffixOf_iff_suffix.mpr (List.suffix_append _ _))

theorem Addressed.not_partial (h : Addressed root hash path) : ¬ IsPartial path := by
  rcases h with rfl | rfl
  · exact not_isPartial (by decide)
  · exact not_isPartial (by decide)

theorem concat_ne_root {dir : Path} {name : String} (hroot : root <+: dir) : dir ++ [name] ≠ root := by
  intro hsame
  have hlength := hroot.length_le
  rw [← hsame, List.length_append, List.length_singleton] at hlength
  omega

/-- The temporary file is beside the file. -/
theorem isPartial_withExtension (dir : Path) (name : String) :
    ∃ tmp, withExtension (dir ++ [name]) "partial" = dir ++ [tmp] ∧ IsPartial (dir ++ [tmp]) := by
  refine ⟨String.ofList (fileStem name.toList ++ ".partial".toList), ?_, dir, _, rfl⟩
  rw [withExtension, List.getLast?_concat, List.dropLast_concat]
  rfl

/-! ## The programs -/

variable {faults : Prop} {mirror : String → Except String Response → Prop} {ε : Type}

theorem orIo_moves {io : String → ε} {answer : Except String Unit} {post : Unit → Disk → Prop}
    (h : answer = .ok () → post () d) :
    Moves (disk faults mirror) (Changes root may) post (orIo io answer) d := by
  refine moves_ofExcept fun a ha => ?_
  cases answer with
  | ok _ => exact h rfl
  | error text => cases ha

/-- A file that may come under its path is placed there, or nothing is. -/
theorem placeFile_moves {io : String → ε} {dir : Path} {name : String}
    (hwhole : ¬ IsPartial (dir ++ [name])) (hroot : root <+: dir)
    (hdeep : dir.length ≤ root.length + 2) (hmay : may (dir ++ [name]) bytes)
    (hbeside : ∀ tmp, IsPartial (dir ++ [tmp]) → ∀ k, may (dir ++ [tmp]) (bytes.take k)) :
    Moves (disk faults mirror) (Changes root may)
      (fun _ d' => d'.files (dir ++ [name]) = some (.file bytes))
      (placeFile io (dir ++ [name]) bytes) d := by
  obtain ⟨tmp, htmp, htemp⟩ := isPartial_withExtension dir name
  have hne : dir ++ [name] ≠ [] := by simp
  have hother : dir ++ [name] ≠ dir ++ [tmp] := fun hsame => hwhole (hsame ▸ htemp)
  have hinside : root <+: dir ++ [tmp] := hroot.trans (List.prefix_append _ _)
  have htorn := hbeside tmp htemp
  have hwritten : may (dir ++ [tmp]) bytes := by
    have htake := htorn bytes.length
    rwa [List.take_length] at htake
  unfold placeFile
  rw [if_neg hne, htmp, List.dropLast_concat]
  refine Moves.bind (M := fun _ _ => True) (moves_ask ?_ ?_) fun made d₁ _ _ => ?_
  · exact fun d' hpart => hpart.2.changes hdeep
  · exact fun answer d' hanswer => ⟨hanswer.2.changes hdeep, trivial⟩
  refine Moves.bind (M := fun _ _ => True) (orIo_moves fun _ => trivial) fun _ d₂ _ _ => ?_
  refine Moves.bind (M := fun written d' => written = .ok () →
    d'.files (dir ++ [tmp]) = some (.file bytes)) (moves_ask ?_ ?_) fun written d₃ _ hdone => ?_
  · exact fun d' hpart => hpart.2.changes htorn
  · rintro (text | _) d' ⟨_, hwrote⟩
    · exact ⟨hwrote.changes htorn, nofun⟩
    · refine ⟨changes_update hwrote.1 hwritten hwrote.2, fun _ => ?_⟩
      rw [hwrote.2]
      exact Function.update_self _ _ _
  refine Moves.bind (M := fun _ d' => d'.files (dir ++ [tmp]) = some (.file bytes))
    (orIo_moves fun h => hdone h) fun _ d₄ _ hthere => ?_
  refine Moves.bind (M := fun renamed d' => renamed = .ok () →
    d'.files (dir ++ [name]) = some (.file bytes)) (moves_ask ?_ ?_) fun renamed d₅ _ hrenamed => ?_
  · rintro d' rfl
    exact refl d'
  · rintro (text | _) d' hanswer
    · obtain rfl := hanswer
      exact ⟨refl _, nofun⟩
    · obtain ⟨bytes', hsource, hdest, rfl⟩ := hanswer
      rw [hthere] at hsource
      cases hsource
      refine ⟨?_, fun _ => Function.update_self _ _ _⟩
      -- the temporary file goes, and then the file is new
      have hgone : Changes root may d₄
          { d₄ with files := Function.update d₄.files (dir ++ [tmp]) none } :=
        changes_remove htemp hinside (by rw [hthere]; nofun) rfl
      refine trans_of _ hgone (changes_update ?_ hmay rfl)
      dsimp only
      rwa [Function.update_of_ne hother]
  · cases renamed with
    | ok _ => exact moves_pure (hrenamed rfl)
    | error text =>
        refine Moves.bind (M := fun _ _ => True) (moves_ask ?_ ?_) fun _ _ _ _ => moves_fail
        · rintro d' rfl
          exact refl d'
        · rintro (reason | _) d' hanswer
          · obtain rfl := hanswer
            exact ⟨refl _, trivial⟩
          · obtain ⟨hdir, rfl⟩ := hanswer
            exact ⟨changes_remove htemp hinside hdir rfl, trivial⟩

theorem collectChunks_length {maxBytes : Nat} {broken : Option String} {chunks : List (List UInt8)}
    {buf : List UInt8} (hbuf : buf.length ≤ maxBytes)
    (h : collectChunks maxBytes broken chunks buf = .ok bytes) : bytes.length ≤ maxBytes := by
  induction chunks generalizing buf with
  | nil =>
      cases broken with
      | none =>
          cases h
          exact hbuf
      | some text => cases h
  | cons chunk rest ih =>
      rw [collectChunks] at h
      split at h
      · cases h
      · rename_i hfits
        refine ih ?_ h
        rw [List.length_append]
        omega

/-- What is fetched is not larger than the cap. -/
theorem fetchCapped_length {rel : String} {maxBytes : Nat} {reply : Except String Response}
    (h : fetchCapped rel maxBytes reply = .ok bytes) : bytes.length ≤ maxBytes := by
  unfold fetchCapped at h
  cases reply with
  | error text => cases h
  | ok res =>
      dsimp only at h
      split at h
      · cases h
      · split at h
        · cases h
        · exact collectChunks_length (Nat.zero_le _) h

theorem getArtifact_moves {rel : String} :
    Moves (disk faults mirror) (Changes root may)
      (fun bytes _ => bytes.length ≤ MAX_ARTIFACT_BYTES) (getArtifact rel) d := by
  refine Moves.bind (M := fun _ _ => True) (moves_ask ?_ ?_) fun reply d₁ _ _ => ?_
  · rintro d' rfl
    exact changes_of_files rfl
  · rintro reply d' ⟨rfl, -⟩
    exact ⟨changes_of_files rfl, trivial⟩
  · exact moves_ofExcept fun bytes hbytes => fetchCapped_length hbytes

/-- There is a file under the path, and it has the hash. -/
def Holds (H : Hashes) (path : Path) (hash : B32) (d : Disk) : Prop :=
  ∃ bytes, d.files path = some (.file bytes) ∧ H.keccak256 bytes = hash

/-- A file that has its hash keeps a file that has it. -/
theorem Holds.changes (h : Holds H path hash d) (haddress : Addressed root hash path)
    (hchanges : Changes root (Placeable H root) d d') : Holds H path hash d' := by
  obtain ⟨bytes, hfile, hkeccak⟩ := h
  obtain ⟨bytes', hfile'⟩ := hchanges.kept path bytes hfile fun _ => haddress.not_partial
  rcases hchanges.placed path bytes' hfile' with hbefore | hplaced
  · rw [hfile] at hbefore
    cases hbefore
    exact ⟨bytes, hfile', hkeccak⟩
  · exact ⟨bytes', hfile', hplaced.verified hash haddress⟩

/-- What is beside a file of the store may be written there. -/
theorem placeable_beside {dir : Path} (hroot : root <+: dir)
    (hfits : bytes.length ≤ MAX_ARTIFACT_BYTES) {tmp : String} (htemp : IsPartial (dir ++ [tmp]))
    (k : Nat) : Placeable H root (dir ++ [tmp]) (bytes.take k) where
  inside := ⟨hroot.trans (List.prefix_append _ _), concat_ne_root hroot⟩
  fits := (List.length_take_le' k bytes).trans hfits
  verified := fun _ haddr => absurd htemp haddr.not_partial

/-- Whatever the mirror answers: after a success the file is there, with its hash. -/
theorem fetchVerified_moves {rel : String} {dir : Path} {name : String}
    (haddress : Addressed root hash (dir ++ [name])) (hroot : root <+: dir)
    (hdeep : dir.length ≤ root.length + 2)
    (hsame : ∀ hash', Addressed root hash' (dir ++ [name]) → hash' = hash) :
    Moves (disk faults mirror) (Changes root (Placeable H root))
      (fun _ d' => Holds H (dir ++ [name]) hash d')
      (fetchVerified H rel (dir ++ [name]) hash) d := by
  refine Moves.bind (M := fun existing d' => ∀ bytes, existing = .ok bytes →
    d'.files (dir ++ [name]) = some (.file bytes)) (moves_ask ?_ ?_) fun existing d₁ _ hread => ?_
  · rintro d' rfl
    exact refl d'
  · rintro existing d' ⟨rfl, hread, -⟩
    exact ⟨refl _, hread⟩
  split
  · rename_i hthere
    cases existing with
    | ok bytes => exact moves_pure ⟨bytes, hread bytes rfl, of_decide_eq_true hthere⟩
    | error _ => cases hthere
  · refine Moves.bind getArtifact_moves fun bytes d₂ _ hfits => ?_
    unfold placeVerified
    dsimp only
    split
    · exact Moves.bind (M := fun _ _ => False) moves_fail nofun
    · rename_i hkeccak
      rw [ne_eq, not_not] at hkeccak
      have hplace : Placeable H root (dir ++ [name]) bytes := by
        refine ⟨⟨hroot.trans (List.prefix_append _ _), concat_ne_root hroot⟩, hfits,
          fun hash' h' => ?_⟩
        rw [hsame hash' h', hkeccak]
      refine Moves.bind (placeFile_moves haddress.not_partial hroot hdeep hplace
        fun _ htemp => placeable_beside hroot hfits htemp) fun _ d₃ _ hplaced => ?_
      exact moves_pure ⟨bytes, hplaced, hkeccak⟩

end

end ArtifactFetch
end Worker
end ComputePool
