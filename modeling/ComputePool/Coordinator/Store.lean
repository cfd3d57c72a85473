import ComputePool.Coordinator.State
import ComputePool.Lib.CrashFs
import ComputePool.Rust.Bytes

/-!
# The store

`store.rs` over the file system of `CrashFs`.  A path is its components, as
`std::path` splits it; the temporary name is `with_extension("tmp")` as the
standard library computes it.  An operation of `save` that fails ends it there,
which leaves the files as a crash at that point does before the crash.

The JSON text of a state and its reader are parameters.
-/

namespace ComputePool
namespace Coordinator
namespace Store

open CrashFs

/-! ## Paths -/

inductive Component where
  | rootDir
  | curDir
  | parentDir
  | normal (name : List UInt8)
  deriving DecidableEq

abbrev PathBuf := List Component

/-- `b'.'`. -/
def dot : UInt8 := 46

/-- `b"tmp"`. -/
def tmp : List UInt8 := [116, 109, 112]

/-- `rsplit_file_at_dot`: what stands before the last dot and what stands after
it.  A name with no dot, or with its last dot in front, is not split. -/
def rsplitFileAtDot (file : List UInt8) : Option (List UInt8) × Option (List UInt8) :=
  if file = [dot, dot] then (some file, none)
  else
    let after := (file.reverse.takeWhile (· ≠ dot)).reverse
    match file.reverse.dropWhile (· ≠ dot) with
    | [] => (none, some after)
    | _ :: before =>
        if before = [] then (some file, none) else (some before.reverse, some after)

namespace PathBuf

variable (path : PathBuf)

/-- `Path::parent`. -/
def parent : Option PathBuf :=
  match path.getLast? with
  | none | some .rootDir => none
  | some _ => some path.dropLast

/-- `Path::file_name`. -/
def fileName : Option (List UInt8) :=
  match path.getLast? with
  | some (.normal name) => some name
  | _ => none

/-- `Path::file_stem`. -/
def fileStem : Option (List UInt8) :=
  path.fileName.bind fun file =>
    let (before, after) := rsplitFileAtDot file
    before.or after

/-- `Path::extension`. -/
def extension : Option (List UInt8) :=
  path.fileName.bind fun file =>
    let (before, after) := rsplitFileAtDot file
    before.bind fun _ => after

/-- `Path::with_extension`: a path with no file name is left as it is. -/
def withExtension (ext : List UInt8) : PathBuf :=
  match path.fileStem with
  | none => path
  | some stem =>
      path.dropLast ++ [.normal (if ext = [] then stem else stem ++ dot :: ext)]

end PathBuf

/-- A file name that is split at its last dot is put together again. -/
theorem rsplitFileAtDot_append {file before after : List UInt8}
    (h : rsplitFileAtDot file = (some before, some after)) :
    file = before ++ dot :: after := by
  have hparts := List.takeWhile_append_dropWhile (p := (· ≠ dot)) (l := file.reverse)
  simp only [rsplitFileAtDot] at h
  split at h
  · cases h
  · split at h
    · cases h
    · rename_i head front hrest
      split at h
      · cases h
      · obtain ⟨hbefore, hafter⟩ := Prod.mk.inj h
        -- What `dropWhile` stops at is the dot.
        have hhead : head = dot := by
          have hstop := List.head?_dropWhile_not (· ≠ dot) file.reverse
          rw [hrest] at hstop
          simpa using hstop
        rw [hrest, hhead] at hparts
        have hreverse := congrArg List.reverse hparts
        rw [List.reverse_append, List.reverse_cons, List.reverse_reverse, List.append_assoc,
          List.singleton_append] at hreverse
        rw [← Option.some.inj hbefore, ← Option.some.inj hafter]
        exact hreverse.symm

/-- A file name that is not split is its own stem, and has no extension. -/
theorem rsplitFileAtDot_whole (file : List UInt8) :
    (∃ before after, rsplitFileAtDot file = (some before, some after)) ∨
      rsplitFileAtDot file = (some file, none) ∨ rsplitFileAtDot file = (none, some file) := by
  have hparts := List.takeWhile_append_dropWhile (p := (· ≠ dot)) (l := file.reverse)
  simp only [rsplitFileAtDot]
  split
  · exact .inr (.inl rfl)
  · split
    · rename_i hrest
      rw [hrest, List.append_nil] at hparts
      right
      right
      rw [hparts, List.reverse_reverse]
    · split
      · exact .inr (.inl rfl)
      · exact .inl ⟨_, _, rfl⟩

namespace PathBuf

variable {path : PathBuf} {file : List UInt8}

theorem dropLast_append_fileName (h : path.fileName = some file) :
    path.dropLast ++ [.normal file] = path := by
  unfold fileName at h
  split at h
  · rename_i name hlast
    obtain rfl := Option.some.inj h
    exact List.dropLast_append_getLast? _ hlast
  · cases h

/-- **The temporary name is the path itself** exactly when the path's extension
is already the temporary one. -/
theorem withExtension_eq_self (hfile : path.fileName = some file) {ext : List UInt8}
    (hext : ext ≠ []) : path.withExtension ext = path ↔ path.extension = some ext := by
  -- In each case `with_extension` puts a name after the path's directory.
  have hname : ∀ name : List UInt8,
      path.dropLast ++ [Component.normal name] = path ↔ name = file := by
    intro name
    conv_lhs => rhs; rw [← dropLast_append_fileName hfile]
    simp
  rcases rsplitFileAtDot_whole file with ⟨before, after, hsplit⟩ | hsplit | hsplit
  · have hfull := rsplitFileAtDot_append hsplit
    simp only [withExtension, fileStem, extension, hfile, hsplit, Option.bind_some,
      Option.some_or, hname, if_neg hext]
    rw [hfull]
    simp [eq_comm]
  · simp [withExtension, fileStem, extension, hfile, hsplit, hname, hext]
  · simp [withExtension, fileStem, extension, hfile, hsplit, hname, hext]

/-- A path with a file name has a parent. -/
theorem parent_of_fileName (h : path.fileName = some file) : path.parent = some path.dropLast := by
  unfold fileName at h
  split at h
  · rename_i name hlast
    simp [parent, hlast]
  · cases h

end PathBuf

/-! ## Load and save -/

section Files

variable (decode : List UInt8 → Option State)

/-- `Store::load` of what is at the path: no file is the empty state, and a file
which does not parse is an error. -/
def load (contents : Option (List UInt8)) : Option State :=
  match contents with
  | none => some (State.empty Policy.default)
  | some bytes => decode bytes

/-- The file operations of `Store::save`.  A path with no parent is refused
before the first, and one with no file name names a directory, which
`File::create` refuses. -/
def save (path : PathBuf) (bytes : List UInt8) : List (Op PathBuf UInt8) :=
  match path.parent, path.fileName with
  | some dir, some _ =>
      let beside := path.withExtension tmp
      [.create beside, .write beside bytes, .syncFile beside, .rename beside path] ++
        -- The directory of a bare file name is the empty path, which does not open.
        if dir = [] then [] else [.syncDir]
  | _, _ => []

variable {path : PathBuf} {bytes : List UInt8} {fs s : Fs PathBuf UInt8}

/-- `save` is the library's replacement of a file, without the last sync where
there is no directory to open. -/
theorem passes_save (h : Passes (save path bytes) fs s) :
    s = fs ∨ (∃ file, path.fileName = some file) ∧
      Passes (replace (path.withExtension tmp) path bytes) fs s := by
  simp only [save] at h
  split at h
  · rename_i dir file hdir hfile
    refine .inr ⟨⟨file, hfile⟩, ?_⟩
    split at h
    · exact h.append [.syncDir]
    · exact h
  · left
    cases h
    rfl

/-- What a crash inside `save` may leave is the state before or the state saved:
the bytes at the path, and so what `load` returns of them. -/
def SavesAtomically (path : PathBuf) : Prop :=
  ∀ (fs : Fs PathBuf UInt8) (bytes : List UInt8), fs.Settled path →
    ∀ s, Passes (save path bytes) fs s → ∀ contents, s.MayRead path contents →
      (contents = fs.read path ∨ contents = some bytes) ∧
        ∀ (decode : List UInt8 → Option State) (before saved : State),
          load decode (fs.read path) = some before → decode bytes = some saved →
            load decode contents = some before ∨ load decode contents = some saved

/-- Where the path has the temporary extension, the temporary file is the live
file, and creating it empties what was saved. -/
theorem not_savesAtomically_of_tmp (hext : path.extension = some tmp) :
    ¬ SavesAtomically path := by
  intro hatomic
  obtain ⟨file, hfile⟩ : ∃ file, path.fileName = some file := by
    cases hname : path.fileName with
    | none => simp [PathBuf.extension, hname] at hext
    | some file => exact ⟨file, rfl⟩
  have hself := (PathBuf.withExtension_eq_self hfile (by decide)).mpr hext
  -- One byte is on disk, another is saved; the crash is right after `File::create`.
  have hpass : Passes (save path [1]) (Fs.single path [0]) ((Fs.single path [0]).create path) := by
    simp only [save, PathBuf.parent_of_fileName hfile, hfile, hself]
    exact .step .here
  obtain ⟨h | h, -⟩ := hatomic _ [1] (Fs.single_settled path [0]) _ hpass _
    (create_mayRead_nil _ path)
  · rw [Fs.read_single] at h
    exact absurd (Option.some.inj h) (by decide)
  · exact absurd (Option.some.inj h) (by decide)

/-- **A save is atomic** exactly at the paths whose extension is not the
temporary one. -/
theorem save_atomic_iff (path : PathBuf) :
    SavesAtomically path ↔ path.extension ≠ some tmp := by
  constructor
  · intro hatomic hext
    exact not_savesAtomically_of_tmp hext hatomic
  · intro hext fs bytes hsettled s hpass contents hread
    have hcontents : contents = fs.read path ∨ contents = some bytes := by
      rcases passes_save hpass with rfl | ⟨⟨file, hfile⟩, hreplace⟩
      · exact .inl (hsettled.mayRead hread)
      · refine replace_atomic (fun hself => hext ?_) hsettled hreplace hread
        exact (PathBuf.withExtension_eq_self hfile (by decide)).mp hself
    refine ⟨hcontents, fun decode before saved hbefore hsaved => ?_⟩
    rcases hcontents with rfl | rfl
    · exact .inl hbefore
    · exact .inr hsaved

/-- A state file of the configured name `/state.tmp` is lost in a crash. -/
theorem tmp_path_not_atomic :
    ¬ SavesAtomically [.rootDir, .normal [115, 116, 97, 116, 101, 46, 116, 109, 112]] :=
  not_savesAtomically_of_tmp (by decide)

end Files

end Store
end Coordinator
end ComputePool
