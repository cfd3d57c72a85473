import Mathlib

/-!
# Files and crashes

A directory of named files as a program sees it, and what a crash may leave of
it.  A name denotes a file through the directory; renaming changes the
directory in one step.  A crash may bring back the directory as it was at any
point since it was last synced, and may leave anything in a file that was
written and not synced since.  What a sync has settled, a crash leaves alone.

Names and contents are of arbitrary types.
-/

namespace CrashFs

variable {N α : Type*} [DecidableEq N]

/-- The files a directory names. -/
abbrev Dir (N : Type*) := N → Option Nat

structure Fs (N α : Type*) where
  /-- The directory as programs see it. -/
  names : Dir N
  /-- The directories of before, since the last sync of the directory. -/
  earlier : List (Dir N)
  data : Nat → List α
  /-- The contents of the file are on disk. -/
  synced : Nat → Bool
  next : Nat
  /-- The files are numbered below `next`. -/
  numbered : ∀ n i, names n = some i → i < next
  /-- No file has two names. -/
  unlinked : ∀ n m i, names n = some i → names m = some i → n = m

namespace Fs

variable (fs : Fs N α)

/-- The contents a program reads under a name. -/
def read (n : N) : Option (List α) := (fs.names n).map fs.data

/-- `File::create`: the file under `n` is emptied, or a new empty file put
there. -/
def create (n : N) : Fs N α :=
  match hn : fs.names n with
  | some i =>
      { fs with
        data := Function.update fs.data i []
        synced := Function.update fs.synced i false }
  | none =>
      { names := Function.update fs.names n (some fs.next)
        earlier := fs.names :: fs.earlier
        data := Function.update fs.data fs.next []
        synced := Function.update fs.synced fs.next false
        next := fs.next + 1
        numbered := by
          intro m i h
          by_cases hm : m = n
          · subst hm
            rw [Function.update_self] at h
            obtain rfl := Option.some.inj h
            exact Nat.lt_succ_self _
          · rw [Function.update_of_ne hm] at h
            exact Nat.lt_succ_of_lt (fs.numbered m i h)
        unlinked := by
          intro m k i hm hk
          by_cases hmn : m = n <;> by_cases hkn : k = n
          · rw [hmn, hkn]
          · subst hmn
            rw [Function.update_self] at hm
            rw [Function.update_of_ne hkn] at hk
            obtain rfl := Option.some.inj hm
            exact absurd (fs.numbered k _ hk) (lt_irrefl _)
          · subst hkn
            rw [Function.update_self] at hk
            rw [Function.update_of_ne hmn] at hm
            obtain rfl := Option.some.inj hk
            exact absurd (fs.numbered m _ hm) (lt_irrefl _)
          · rw [Function.update_of_ne hmn] at hm
            rw [Function.update_of_ne hkn] at hk
            exact fs.unlinked m k i hm hk }

/-- Append to the open file under `n`. -/
def write (n : N) (bytes : List α) : Fs N α :=
  match fs.names n with
  | some i =>
      { fs with
        data := Function.update fs.data i (fs.data i ++ bytes)
        synced := Function.update fs.synced i false }
  | none => fs

/-- Sync the contents of the file under `n`. -/
def syncFile (n : N) : Fs N α :=
  match fs.names n with
  | some i => { fs with synced := Function.update fs.synced i true }
  | none => fs

/-- Rename `a` over `b`. -/
def rename (a b : N) : Fs N α :=
  match ha : fs.names a with
  | none => fs
  | some i =>
      { fs with
        names := Function.update (Function.update fs.names a none) b (some i)
        earlier := fs.names :: fs.earlier
        numbered := by
          intro m k h
          by_cases hb : m = b
          · subst hb
            rw [Function.update_self] at h
            obtain rfl := Option.some.inj h
            exact fs.numbered a i ha
          · rw [Function.update_of_ne hb] at h
            by_cases hma : m = a
            · subst hma
              simp at h
            · rw [Function.update_of_ne hma] at h
              exact fs.numbered m k h
        unlinked := by
          -- The moved file has left its old name.
          have hold : ∀ m k, m ≠ b →
              Function.update (Function.update fs.names a none) b (some i) m = some k →
                m ≠ a ∧ fs.names m = some k := by
            intro m k hmb h
            rw [Function.update_of_ne hmb] at h
            by_cases hma : m = a
            · subst hma
              simp at h
            · rw [Function.update_of_ne hma] at h
              exact ⟨hma, h⟩
          intro m k j hm hk
          by_cases hmb : m = b <;> by_cases hkb : k = b
          · rw [hmb, hkb]
          · subst hmb
            rw [Function.update_self] at hm
            obtain rfl := Option.some.inj hm
            obtain ⟨hka, hk⟩ := hold k _ hkb hk
            exact absurd (fs.unlinked k a _ hk ha) hka
          · subst hkb
            rw [Function.update_self] at hk
            obtain rfl := Option.some.inj hk
            obtain ⟨hma, hm⟩ := hold m _ hmb hm
            exact absurd (fs.unlinked m a _ hm ha) hma
          · exact fs.unlinked m k j (hold m j hmb hm).2 (hold k j hkb hk).2 }

/-- Sync the directory. -/
def syncDir : Fs N α := { fs with earlier := [] }

end Fs

inductive Op (N α : Type*) where
  | create (n : N)
  | write (n : N) (bytes : List α)
  | syncFile (n : N)
  | rename (a b : N)
  | syncDir

def Op.apply (op : Op N α) (fs : Fs N α) : Fs N α :=
  match op with
  | create n => fs.create n
  | write n bytes => fs.write n bytes
  | syncFile n => fs.syncFile n
  | rename a b => fs.rename a b
  | syncDir => fs.syncDir

/-- The states a program passes through: after any number of its operations,
and in the middle of a write. -/
inductive Passes : List (Op N α) → Fs N α → Fs N α → Prop where
  | here {ops : List (Op N α)} {fs : Fs N α} : Passes ops fs fs
  | step {op : Op N α} {ops : List (Op N α)} {fs s : Fs N α} :
      Passes ops (op.apply fs) s → Passes (op :: ops) fs s
  | cut {n : N} {bytes : List α} {ops : List (Op N α)} {fs : Fs N α} (k : Nat) :
      Passes (.write n bytes :: ops) fs (fs.write n (bytes.take k))

/-- A longer program passes through what a shorter one does. -/
theorem Passes.append {ops : List (Op N α)} {fs s : Fs N α} (h : Passes ops fs s)
    (more : List (Op N α)) : Passes (ops ++ more) fs s := by
  induction h with
  | here => exact .here
  | step _ ih => exact .step ih
  | cut k => exact .cut k

namespace Fs

variable {fs : Fs N α}

/-- What may be read under `n` now, or after a crash now. -/
def MayRead (fs : Fs N α) (n : N) (contents : Option (List α)) : Prop :=
  ∃ dir ∈ fs.names :: fs.earlier,
    (dir n = none ∧ contents = none) ∨
      ∃ i bytes, dir n = some i ∧ contents = some bytes ∧
        (fs.synced i = true → bytes = fs.data i)

/-- What is under `n` is on disk, its name and its contents. -/
structure Settled (fs : Fs N α) (n : N) : Prop where
  name : ∀ dir ∈ fs.earlier, dir n = fs.names n
  contents : ∀ i, fs.names n = some i → fs.synced i = true

/-- Every directory a crash may bring back has the file `kept` under `n`, and the
contents of that file are on disk. -/
structure Holds (fs : Fs N α) (n : N) (kept : Option (Nat × List α)) : Prop where
  name : ∀ dir ∈ fs.names :: fs.earlier, dir n = kept.map Prod.fst
  contents : ∀ i bytes, kept = some (i, bytes) → fs.synced i = true ∧ fs.data i = bytes

omit [DecidableEq N] in
theorem Settled.holds {n : N} (h : fs.Settled n) :
    ∃ kept, fs.Holds n kept ∧ fs.read n = kept.map Prod.snd := by
  refine ⟨(fs.names n).map fun i => (i, fs.data i), ⟨fun dir hdir => ?_, ?_⟩, ?_⟩
  · rw [Option.map_map]
    have hname : dir n = fs.names n := by
      rcases List.mem_cons.mp hdir with rfl | hearlier
      · rfl
      · exact h.name dir hearlier
    rw [hname]
    exact Option.map_id'.symm
  · intro i bytes hkept
    obtain ⟨i', hi, hpair⟩ := Option.map_eq_some_iff.mp hkept
    obtain ⟨rfl, rfl⟩ := Prod.mk.inj hpair
    exact ⟨h.contents i' hi, rfl⟩
  · rw [Option.map_map]
    rfl

omit [DecidableEq N] in
/-- A crash leaves a settled file as it is. -/
theorem Settled.mayRead {n : N} (h : fs.Settled n) {contents : Option (List α)}
    (hread : fs.MayRead n contents) : contents = fs.read n := by
  obtain ⟨dir, hdir, hcases⟩ := hread
  have hname : dir n = fs.names n := by
    rcases List.mem_cons.mp hdir with rfl | hearlier
    · rfl
    · exact h.name dir hearlier
  rcases hcases with ⟨hnone, rfl⟩ | ⟨i, bytes, hsome, rfl, hsynced⟩
  · rw [read, ← hname, hnone]
    rfl
  · rw [hname] at hsome
    rw [read, hsome, hsynced (h.contents i hsome)]
    rfl

/-- One file, on disk. -/
def single (n : N) (bytes : List α) : Fs N α where
  names := Function.update (fun _ => none) n (some 0)
  earlier := []
  data := fun _ => bytes
  synced := fun _ => true
  next := 1
  numbered := by
    intro m i h
    by_cases hm : m = n
    · subst hm
      rw [Function.update_self] at h
      obtain rfl := Option.some.inj h
      exact Nat.one_pos
    · rw [Function.update_of_ne hm] at h
      cases h
  unlinked := by
    have hname : ∀ m i, Function.update (fun _ => none) n (some 0) m = some i → m = n := by
      intro m i h
      by_contra hm
      rw [Function.update_of_ne hm] at h
      cases h
    intro m k i hm hk
    rw [hname m i hm, hname k i hk]

theorem single_settled (n : N) (bytes : List α) : (single n bytes).Settled n where
  name := fun _ hdir => absurd hdir List.not_mem_nil
  contents := fun _ _ => rfl

theorem read_single (n : N) (bytes : List α) : (single n bytes).read n = some bytes := by
  simp [read, single]

variable {n m : N} {kept : Option (Nat × List α)}

omit [DecidableEq N] in
/-- What is held is what may be read. -/
theorem Holds.mayRead (h : fs.Holds n kept) {contents : Option (List α)}
    (hread : fs.MayRead n contents) : contents = kept.map Prod.snd := by
  obtain ⟨dir, hdir, ⟨hnone, rfl⟩ | ⟨i, bytes, hsome, rfl, hsynced⟩⟩ := hread
  · rw [h.name dir hdir] at hnone
    cases kept with
    | none => rfl
    | some pair => cases hnone
  · rw [h.name dir hdir] at hsome
    obtain ⟨⟨i', kept'⟩, rfl, rfl⟩ := Option.map_eq_some_iff.mp hsome
    obtain ⟨hon, hdata⟩ := h.contents _ _ rfl
    rw [hsynced hon, hdata]
    rfl

omit [DecidableEq N] in
/-- The file held under `n` is not the file under another name. -/
theorem Holds.other (h : fs.Holds n kept) (hne : m ≠ n) {i j : Nat} {bytes : List α}
    (hkept : kept = some (i, bytes)) (hm : fs.names m = some j) : i ≠ j := by
  rintro rfl
  have hn : fs.names n = some i := by
    rw [h.name fs.names List.mem_cons_self, hkept]
    rfl
  exact hne (fs.unlinked m n i hm hn)

/-! ## Writing beside a held file -/

theorem Holds.create (h : fs.Holds n kept) (hne : m ≠ n) : (fs.create m).Holds n kept := by
  unfold Fs.create
  split
  · rename_i j hm
    refine ⟨h.name, fun i bytes hkept => ?_⟩
    have hij : i ≠ j := h.other hne hkept hm
    obtain ⟨hon, hdata⟩ := h.contents i bytes hkept
    exact ⟨(Function.update_of_ne hij _ _).trans hon, (Function.update_of_ne hij _ _).trans hdata⟩
  · refine ⟨fun dir hdir => ?_, fun i bytes hkept => ?_⟩
    · rcases List.mem_cons.mp hdir with rfl | hearlier
      · exact (Function.update_of_ne hne.symm _ _).trans (h.name fs.names List.mem_cons_self)
      · exact h.name dir hearlier
    · -- The new file has a number no file had.
      have hn : fs.names n = some i := by
        rw [h.name fs.names List.mem_cons_self, hkept]
        rfl
      have hij : i ≠ fs.next := (fs.numbered n i hn).ne
      obtain ⟨hon, hdata⟩ := h.contents i bytes hkept
      exact ⟨(Function.update_of_ne hij _ _).trans hon, (Function.update_of_ne hij _ _).trans hdata⟩

omit [DecidableEq N] in
theorem Holds.write (h : fs.Holds n kept) (hne : m ≠ n) (bytes : List α) :
    (fs.write m bytes).Holds n kept := by
  unfold Fs.write
  split
  · rename_i j hm
    refine ⟨h.name, fun i bytes hkept => ?_⟩
    have hij : i ≠ j := h.other hne hkept hm
    obtain ⟨hon, hdata⟩ := h.contents i bytes hkept
    exact ⟨(Function.update_of_ne hij _ _).trans hon, (Function.update_of_ne hij _ _).trans hdata⟩
  · exact h

omit [DecidableEq N] in
theorem Holds.syncFile (h : fs.Holds n kept) (hne : m ≠ n) : (fs.syncFile m).Holds n kept := by
  unfold Fs.syncFile
  split
  · rename_i j hm
    refine ⟨h.name, fun i bytes hkept => ?_⟩
    have hij : i ≠ j := h.other hne hkept hm
    obtain ⟨hon, hdata⟩ := h.contents i bytes hkept
    exact ⟨(Function.update_of_ne hij _ _).trans hon, hdata⟩
  · exact h

/-- The file under `m` has these contents. -/
def Has (fs : Fs N α) (m : N) (bytes : List α) : Prop :=
  ∃ j, fs.names m = some j ∧ fs.data j = bytes

theorem create_has (fs : Fs N α) (m : N) : (fs.create m).Has m [] := by
  unfold Fs.create
  split
  · rename_i j hm
    exact ⟨j, hm, Function.update_self _ _ _⟩
  · exact ⟨fs.next, Function.update_self _ _ _, Function.update_self _ _ _⟩

omit [DecidableEq N] in
theorem Has.write {old : List α} (h : fs.Has m old) (bytes : List α) :
    (fs.write m bytes).Has m (old ++ bytes) := by
  obtain ⟨j, hm, hdata⟩ := h
  refine ⟨j, ?_, ?_⟩
  · simp [Fs.write, hm]
  · simp [Fs.write, hm, hdata]

omit [DecidableEq N] in
theorem Has.syncFile {bytes : List α} (h : fs.Has m bytes) :
    ∃ j, (fs.syncFile m).names m = some j ∧ (fs.syncFile m).data j = bytes ∧
      (fs.syncFile m).synced j = true := by
  obtain ⟨j, hm, hdata⟩ := h
  refine ⟨j, ?_, ?_, ?_⟩ <;> simp [Fs.syncFile, hm, hdata]

/-- After a synced file is renamed over a held one, the one or the other may be
read, whole. -/
theorem Holds.rename (h : fs.Holds n kept) {j : Nat} {bytes : List α}
    (hm : fs.names m = some j) (hdata : fs.data j = bytes) (hsynced : fs.synced j = true)
    {contents : Option (List α)} (hread : (fs.rename m n).MayRead n contents) :
    contents = kept.map Prod.snd ∨ contents = some bytes := by
  unfold Fs.rename at hread
  split at hread
  · rename_i hnone
    rw [hnone] at hm
    cases hm
  · rename_i i hi
    obtain rfl := Option.some.inj (hi.symm.trans hm)
    obtain ⟨dir, hdir, hcases⟩ := hread
    rcases List.mem_cons.mp hdir with rfl | hearlier
    · right
      obtain ⟨hnone, -⟩ | ⟨k, bytes', hsome, rfl, hk⟩ := hcases
      · have hself := Function.update_self (f := Function.update fs.names m none) n (some i)
        cases hself.symm.trans hnone
      · have hself := Function.update_self (f := Function.update fs.names m none) n (some i)
        obtain rfl := Option.some.inj (hself.symm.trans hsome)
        rw [hk hsynced]
        exact congrArg some hdata
    · left
      exact h.mayRead ⟨dir, hearlier, hcases⟩

omit [DecidableEq N] in
theorem mayRead_syncDir {contents : Option (List α)} (h : fs.syncDir.MayRead n contents) :
    fs.MayRead n contents := by
  obtain ⟨dir, hdir, hcases⟩ := h
  obtain rfl := List.mem_singleton.mp hdir
  exact ⟨fs.names, List.mem_cons_self, hcases⟩

end Fs

/-! ## Replacing a file -/

/-- Write the new contents beside the file, sync them, rename them over it, and
sync the directory. -/
def replace (beside n : N) (bytes : List α) : List (Op N α) :=
  [.create beside, .write beside bytes, .syncFile beside, .rename beside n, .syncDir]

variable {beside n : N} {bytes : List α} {fs s : Fs N α} {contents : Option (List α)}

/-- **Replacing a file is atomic**, when it is written beside under another
name: at every point, and after a crash there, the old contents or the new are
under the name, whole. -/
theorem replace_atomic (hne : beside ≠ n) (hsettled : fs.Settled n)
    (hpass : Passes (replace beside n bytes) fs s) (hread : s.MayRead n contents) :
    contents = fs.read n ∨ contents = some bytes := by
  obtain ⟨kept, hholds, hkept⟩ := hsettled.holds
  rw [hkept]
  have hcreated := hholds.create hne
  have hwritten := fun chunk => hcreated.write hne chunk
  have hsynced := (hwritten bytes).syncFile hne
  obtain ⟨j, hj, hdata, hon⟩ := ((fs.create_has beside).write bytes).syncFile
  have hrenamed := fun h => @Fs.Holds.rename _ _ _ _ _ _ _ hsynced _ _ hj hdata hon contents h
  rw [replace] at hpass
  cases hpass with
  | here => exact .inl (hholds.mayRead hread)
  | step h₁ =>
      cases h₁ with
      | here => exact .inl (hcreated.mayRead hread)
      | cut k => exact .inl ((hwritten _).mayRead hread)
      | step h₂ =>
          cases h₂ with
          | here => exact .inl ((hwritten bytes).mayRead hread)
          | step h₃ =>
              cases h₃ with
              | here => exact .inl (hsynced.mayRead hread)
              | step h₄ =>
                  cases h₄ with
                  | here => exact hrenamed hread
                  | step h₅ =>
                      cases h₅ with
                      | here => exact hrenamed (Fs.mayRead_syncDir hread)

/-- A file that is created is empty. -/
theorem create_mayRead_nil (fs : Fs N α) (n : N) : (fs.create n).MayRead n (some []) := by
  obtain ⟨j, hj, hdata⟩ := fs.create_has n
  exact ⟨_, List.mem_cons_self, .inr ⟨j, [], hj, rfl, fun _ => hdata.symm⟩⟩

end CrashFs
