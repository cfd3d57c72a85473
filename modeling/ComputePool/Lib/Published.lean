import ComputePool.Lib.CrashFs

/-!
# Published files

Some names of a directory are published: a file comes under one of them only by a rename,
from a name that is not published, and only when its contents are on disk.  What holds of
the contents of every file that is published then holds of every file found under a
published name, also after a crash, whatever is written beside them.
-/

namespace CrashFs
namespace Fs

variable {N α : Type*} [DecidableEq N]

/-- `remove_file`. -/
def remove (fs : Fs N α) (n : N) : Fs N α :=
  { fs with
    names := Function.update fs.names n none
    earlier := fs.names :: fs.earlier
    numbered := by
      intro m i h
      by_cases hm : m = n
      · subst hm
        simp at h
      · rw [Function.update_of_ne hm] at h
        exact fs.numbered m i h
    unlinked := by
      intro m k i hm hk
      by_cases hmn : m = n
      · subst hmn
        simp at hm
      by_cases hkn : k = n
      · subst hkn
        simp at hk
      rw [Function.update_of_ne hmn] at hm
      rw [Function.update_of_ne hkn] at hk
      exact fs.unlinked m k i hm hk }

/-- What a crash may leave, after the machine is up again. -/
structure Reboots (fs fs' : Fs N α) : Prop where
  read : ∀ n, fs.MayRead n (fs'.read n)
  clean : fs'.earlier = []
  synced : ∀ i, fs'.synced i = true

/-! ## Names beside an operation -/

/-- The file under `m`, if there is one, is as it was. -/
def Untouched (fs fs' : Fs N α) (m : N) : Prop :=
  ∀ j, fs.names m = some j → fs'.names m = some j ∧ fs'.data j = fs.data j ∧
    (fs.synced j = true → fs'.synced j = true)

variable {fs fs' : Fs N α} {m n : N}

theorem create_untouched (hne : m ≠ n) : Untouched fs (fs.create n) m := by
  intro j hj
  unfold Fs.create
  split
  · rename_i i hn
    have hij : j ≠ i := fun h => hne (fs.unlinked m n i (h ▸ hj) hn)
    refine ⟨hj, Function.update_of_ne hij _ _, fun hon => ?_⟩
    exact (Function.update_of_ne hij _ _).trans hon
  · have hij : j ≠ fs.next := (fs.numbered m j hj).ne
    refine ⟨(Function.update_of_ne hne _ _).trans hj, Function.update_of_ne hij _ _, fun hon => ?_⟩
    exact (Function.update_of_ne hij _ _).trans hon

omit [DecidableEq N] in
theorem write_untouched (hne : m ≠ n) (bytes : List α) : Untouched fs (fs.write n bytes) m := by
  intro j hj
  unfold Fs.write
  split
  · rename_i i hn
    have hij : j ≠ i := fun h => hne (fs.unlinked m n i (h ▸ hj) hn)
    refine ⟨hj, Function.update_of_ne hij _ _, fun hon => ?_⟩
    exact (Function.update_of_ne hij _ _).trans hon
  · exact ⟨hj, rfl, id⟩

omit [DecidableEq N] in
theorem syncFile_untouched (hne : m ≠ n) : Untouched fs (fs.syncFile n) m := by
  intro j hj
  unfold Fs.syncFile
  split
  · rename_i i hn
    have hij : j ≠ i := fun h => hne (fs.unlinked m n i (h ▸ hj) hn)
    exact ⟨hj, rfl, fun hon => (Function.update_of_ne hij _ _).trans hon⟩
  · exact ⟨hj, rfl, id⟩

theorem remove_untouched (hne : m ≠ n) : Untouched fs (fs.remove n) m := fun _ hj =>
  ⟨(Function.update_of_ne hne _ _).trans hj, rfl, id⟩

theorem rename_untouched {a b : N} (ha : m ≠ a) (hb : m ≠ b) :
    Untouched fs (fs.rename a b) m := by
  intro j hj
  unfold Fs.rename
  split
  · exact ⟨hj, rfl, id⟩
  · refine ⟨?_, rfl, id⟩
    exact (Function.update_of_ne hb _ _).trans ((Function.update_of_ne ha _ _).trans hj)

omit [DecidableEq N] in
theorem Has.untouched {bytes : List α} (h : fs.Has m bytes) (hsame : Untouched fs fs' m) :
    fs'.Has m bytes := by
  obtain ⟨j, hj, hdata⟩ := h
  obtain ⟨hj', hdata', -⟩ := hsame j hj
  exact ⟨j, hj', hdata'.trans hdata⟩

omit [DecidableEq N] in
theorem Untouched.named (h : Untouched fs fs' m) (hm : fs.names m ≠ none) : fs'.names m ≠ none := by
  obtain ⟨j, hj⟩ := Option.ne_none_iff_exists'.mp hm
  rw [(h j hj).1]
  nofun

theorem rename_named {j : Nat} (hm : fs.names m = some j) : (fs.rename m n).names n = some j := by
  unfold Fs.rename
  split
  · rename_i hnone
    cases hnone.symm.trans hm
  · rename_i i hi
    obtain rfl := Option.some.inj (hi.symm.trans hm)
    exact Function.update_self _ _ _

/-- The file under `m` has these contents, and they are on disk. -/
def OnDisk (fs : Fs N α) (m : N) (bytes : List α) : Prop :=
  ∃ j, fs.names m = some j ∧ fs.data j = bytes ∧ fs.synced j = true

omit [DecidableEq N] in
theorem OnDisk.untouched {bytes : List α} (h : fs.OnDisk m bytes) (hsame : Untouched fs fs' m) :
    fs'.OnDisk m bytes := by
  obtain ⟨j, hj, hdata, hon⟩ := h
  obtain ⟨hj', hdata', hon'⟩ := hsame j hj
  exact ⟨j, hj', hdata'.trans hdata, hon' hon⟩

omit [DecidableEq N] in
theorem OnDisk.read {bytes : List α} (h : fs.OnDisk m bytes) : fs.read m = some bytes := by
  obtain ⟨j, hj, hdata, -⟩ := h
  rw [Fs.read, hj, Option.map_some, hdata]

/-! ## Published names -/

section Published

variable {P : N → Prop} {Good : N → List α → Prop}

/-- What is found under a published name in any directory that a crash may bring back:
a file with good contents on disk, which no other name reaches. -/
structure Published (P : N → Prop) (Good : N → List α → Prop) (fs : Fs N α) : Prop where
  file : ∀ dir ∈ fs.names :: fs.earlier, ∀ n j, P n → dir n = some j →
    j < fs.next ∧ fs.synced j = true ∧ Good n (fs.data j) ∧ ∀ m, ¬ P m → fs.names m ≠ some j

omit [DecidableEq N] in
theorem Published.good (h : fs.Published P Good) (hn : P n) {contents : List α}
    (hread : fs.MayRead n (some contents)) : Good n contents := by
  obtain ⟨dir, hdir, ⟨-, hnone⟩ | ⟨i, bytes, hsome, hbytes, hsynced⟩⟩ := hread
  · cases hnone
  · obtain ⟨-, hon, hgood, -⟩ := h.file dir hdir n i hn hsome
    obtain rfl := Option.some.inj hbytes
    rw [hsynced hon]
    exact hgood

omit [DecidableEq N] in
theorem Published.mono {Good' : N → List α → Prop} (h : fs.Published P Good)
    (hgood : ∀ n bytes, Good n bytes → Good' n bytes) : fs.Published P Good' where
  file := by
    intro dir hdir n j hn hj
    obtain ⟨hlt, hon, hg, hown⟩ := h.file dir hdir n j hn hj
    exact ⟨hlt, hon, hgood _ _ hg, hown⟩

omit [DecidableEq N] in
/-- An operation on names that are not published. -/
theorem Published.beside (h : fs.Published P Good) (hnext : fs.next ≤ fs'.next)
    (hdirs : ∀ dir ∈ fs'.names :: fs'.earlier, ∃ dir' ∈ fs.names :: fs.earlier,
      ∀ n, P n → dir n = dir' n)
    (hfiles : ∀ j < fs.next, (∀ m, ¬ P m → fs.names m ≠ some j) →
      fs'.data j = fs.data j ∧ (fs.synced j = true → fs'.synced j = true) ∧
        ∀ m, ¬ P m → fs'.names m ≠ some j) : fs'.Published P Good where
  file := by
    intro dir hdir n j hn hj
    obtain ⟨dir', hdir', hsame⟩ := hdirs dir hdir
    obtain ⟨hlt, hon, hgood, hown⟩ := h.file dir' hdir' n j hn (hsame n hn ▸ hj)
    obtain ⟨hdata, hon', hown'⟩ := hfiles j hlt hown
    exact ⟨by omega, hon' hon, hdata ▸ hgood, hown'⟩

omit [DecidableEq N] in
theorem Published.write (h : fs.Published P Good) (hm : ¬ P m) (bytes : List α) :
    (fs.write m bytes).Published P Good := by
  unfold Fs.write
  split
  · rename_i i hi
    refine h.beside le_rfl (fun dir hdir => ⟨dir, hdir, fun _ _ => rfl⟩) fun j _ hown => ?_
    have hij : j ≠ i := fun hsame => hown m hm (hsame ▸ hi)
    refine ⟨Function.update_of_ne hij _ _, fun hon => ?_, hown⟩
    exact (Function.update_of_ne hij _ _).trans hon
  · exact h

omit [DecidableEq N] in
theorem Published.syncFile (h : fs.Published P Good) (hm : ¬ P m) :
    (fs.syncFile m).Published P Good := by
  unfold Fs.syncFile
  split
  · rename_i i hi
    refine h.beside le_rfl (fun dir hdir => ⟨dir, hdir, fun _ _ => rfl⟩) fun j _ hown => ?_
    have hij : j ≠ i := fun hsame => hown m hm (hsame ▸ hi)
    exact ⟨rfl, fun hon => (Function.update_of_ne hij _ _).trans hon, hown⟩
  · exact h

omit [DecidableEq N] in
theorem Published.syncDir (h : fs.Published P Good) : fs.syncDir.Published P Good := by
  refine h.beside le_rfl (fun dir hdir => ?_) fun j _ hown => ⟨rfl, id, hown⟩
  obtain rfl := List.mem_singleton.mp hdir
  exact ⟨_, List.mem_cons_self, fun _ _ => rfl⟩

theorem Published.create (h : fs.Published P Good) (hm : ¬ P m) :
    (fs.create m).Published P Good := by
  unfold Fs.create
  split
  · rename_i i hi
    refine h.beside le_rfl (fun dir hdir => ⟨dir, hdir, fun _ _ => rfl⟩) fun j _ hown => ?_
    have hij : j ≠ i := fun hsame => hown m hm (hsame ▸ hi)
    refine ⟨Function.update_of_ne hij _ _, fun hon => ?_, hown⟩
    exact (Function.update_of_ne hij _ _).trans hon
  · refine h.beside (Nat.le_succ _) ?_ fun j hlt hown => ?_
    · intro dir hdir
      rcases List.mem_cons.mp hdir with rfl | hearlier
      · refine ⟨fs.names, List.mem_cons_self, fun n hn => Function.update_of_ne ?_ _ _⟩
        exact fun hsame => hm (hsame ▸ hn)
      · exact ⟨dir, hearlier, fun _ _ => rfl⟩
    · refine ⟨Function.update_of_ne hlt.ne _ _, fun hon => ?_, fun k hk hname => ?_⟩
      · exact (Function.update_of_ne hlt.ne _ _).trans hon
      · by_cases hkm : k = m
        · subst hkm
          have hself := Function.update_self (f := fs.names) k (some fs.next)
          exact hlt.ne (Option.some.inj (hname.symm.trans hself))
        · exact hown k hk ((Function.update_of_ne hkm _ _).symm.trans hname)

theorem Published.remove (h : fs.Published P Good) (hm : ¬ P m) :
    (fs.remove m).Published P Good := by
  refine h.beside le_rfl ?_ fun j _ hown => ⟨rfl, id, fun k hk hname => ?_⟩
  · intro dir hdir
    rcases List.mem_cons.mp hdir with rfl | hearlier
    · refine ⟨fs.names, List.mem_cons_self, fun n hn => Function.update_of_ne ?_ _ _⟩
      exact fun hsame => hm (hsame ▸ hn)
    · exact ⟨dir, hearlier, fun _ _ => rfl⟩
  · by_cases hkm : k = m
    · subst hkm
      have hself : (fs.remove k).names k = none := Function.update_self _ _ _
      cases hself.symm.trans hname
    · exact hown k hk ((Function.update_of_ne hkm _ _).symm.trans hname)

/-- Publishing: a file with good contents on disk comes under a published name. -/
theorem Published.rename (h : fs.Published P Good) (hm : ¬ P m) (hn : P n) {bytes : List α}
    (hfile : fs.OnDisk m bytes) (hgood : Good n bytes) : (fs.rename m n).Published P Good := by
  obtain ⟨i, hi, hdata, hon⟩ := hfile
  unfold Fs.rename
  split
  · exact h
  rename_i i' hi'
  obtain rfl := Option.some.inj (hi'.symm.trans hi)
  -- a name outside has the file it had, or has lost it to the published name
  have hmoved : ∀ m' j', ¬ P m' →
      Function.update (Function.update fs.names m none) n (some i') m' = some j' →
        m' ≠ m ∧ fs.names m' = some j' := by
    intro m' j' hm' hname
    have hmn : m' ≠ n := fun hsame => hm' (hsame ▸ hn)
    rw [Function.update_of_ne hmn] at hname
    by_cases hmm : m' = m
    · subst hmm
      simp at hname
    · rw [Function.update_of_ne hmm] at hname
      exact ⟨hmm, hname⟩
  refine ⟨fun dir hdir k j hk hj => ?_⟩
  rcases List.mem_cons.mp hdir with rfl | hold
  · dsimp only at hj
    by_cases hkn : k = n
    · subst hkn
      rw [Function.update_self] at hj
      obtain rfl := Option.some.inj hj
      refine ⟨fs.numbered m i' hi', hon, hdata ▸ hgood, fun m' hm' hname => ?_⟩
      have ⟨hmm, hname⟩ := hmoved m' i' hm' hname
      exact hmm (fs.unlinked m' m i' hname hi')
    · have hkm : k ≠ m := fun hsame => hm (hsame ▸ hk)
      rw [Function.update_of_ne hkn, Function.update_of_ne hkm] at hj
      obtain ⟨hlt, hon', hgood', hown⟩ := h.file fs.names List.mem_cons_self k j hk hj
      exact ⟨hlt, hon', hgood', fun m' hm' hname => hown m' hm' (hmoved m' j hm' hname).2⟩
  · obtain ⟨hlt, hon', hgood', hown⟩ := h.file dir hold k j hk hj
    exact ⟨hlt, hon', hgood', fun m' hm' hname => hown m' hm' (hmoved m' j hm' hname).2⟩

omit [DecidableEq N] in
theorem Published.reboots (h : fs.Published P Good) (hreboots : Reboots fs fs') :
    fs'.Published P Good where
  file := by
    intro dir hdir n j hn hj
    rw [hreboots.clean, List.mem_singleton] at hdir
    subst hdir
    have hread : fs'.read n = some (fs'.data j) := by rw [Fs.read, hj, Option.map_some]
    have hmay := hreboots.read n
    rw [hread] at hmay
    refine ⟨fs'.numbered n j hj, hreboots.synced j, h.good hn hmay, fun m hm hname => ?_⟩
    exact hm (fs'.unlinked m n j hname hj ▸ hn)

/-- There is a file under `n` in every directory that a crash may bring back. -/
def Kept (fs : Fs N α) (n : N) : Prop := ∀ dir ∈ fs.names :: fs.earlier, dir n ≠ none

omit [DecidableEq N] in
theorem Kept.beside (h : fs.Kept n)
    (hdirs : ∀ dir ∈ fs'.names :: fs'.earlier, ∃ dir' ∈ fs.names :: fs.earlier,
      dir n = dir' n ∨ dir n ≠ none) : fs'.Kept n := by
  intro dir hdir
  obtain ⟨dir', hdir', hsame | hsome⟩ := hdirs dir hdir
  · rw [hsame]
    exact h dir' hdir'
  · exact hsome

omit [DecidableEq N] in
theorem kept_syncDir (hn : fs.names n ≠ none) : fs.syncDir.Kept n := by
  intro dir hdir
  obtain rfl := List.mem_singleton.mp hdir
  exact hn

omit [DecidableEq N] in
theorem Kept.reboots (h : fs.Kept n) (hreboots : Reboots fs fs') : fs'.Kept n := by
  intro dir hdir
  rw [hreboots.clean, List.mem_singleton] at hdir
  subst hdir
  intro hnone
  obtain ⟨dir, hdir, ⟨hgone, -⟩ | ⟨i, bytes, -, hread, -⟩⟩ := hreboots.read n
  · exact h dir hdir hgone
  · rw [Fs.read, hnone] at hread
    cases hread

omit [DecidableEq N] in
theorem Kept.mayRead (h : fs.Kept n) {contents : Option (List α)} (hread : fs.MayRead n contents) :
    contents ≠ none := by
  obtain ⟨dir, hdir, ⟨hgone, -⟩ | ⟨i, bytes, -, hread, -⟩⟩ := hread
  · exact absurd hgone (h dir hdir)
  · rw [hread]
    nofun

omit [DecidableEq N] in
theorem Kept.write (h : fs.Kept n) (m : N) (bytes : List α) : (fs.write m bytes).Kept n := by
  unfold Fs.write
  split
  · exact h
  · exact h

omit [DecidableEq N] in
theorem Kept.syncFile (h : fs.Kept n) (m : N) : (fs.syncFile m).Kept n := by
  unfold Fs.syncFile
  split
  · exact h
  · exact h

omit [DecidableEq N] in
theorem Kept.syncDir (h : fs.Kept n) : fs.syncDir.Kept n :=
  kept_syncDir (h fs.names List.mem_cons_self)

theorem Kept.create (h : fs.Kept n) (m : N) : (fs.create m).Kept n := by
  unfold Fs.create
  split
  · exact h
  · refine h.beside fun dir hdir => ?_
    rcases List.mem_cons.mp hdir with rfl | hold
    · refine ⟨fs.names, List.mem_cons_self, ?_⟩
      by_cases hnm : n = m
      · subst hnm
        exact .inr (by simp)
      · exact .inl (Function.update_of_ne hnm _ _)
    · exact ⟨dir, hold, .inl rfl⟩

theorem Kept.remove (h : fs.Kept n) (hne : n ≠ m) : (fs.remove m).Kept n := by
  refine h.beside fun dir hdir => ?_
  rcases List.mem_cons.mp hdir with rfl | hold
  · exact ⟨fs.names, List.mem_cons_self, .inl (Function.update_of_ne hne _ _)⟩
  · exact ⟨dir, hold, .inl rfl⟩

theorem Kept.rename {a b : N} (h : fs.Kept n) (hne : n ≠ a) : (fs.rename a b).Kept n := by
  unfold Fs.rename
  split
  · exact h
  · refine h.beside fun dir hdir => ?_
    rcases List.mem_cons.mp hdir with rfl | hold
    · refine ⟨fs.names, List.mem_cons_self, ?_⟩
      by_cases hnb : n = b
      · subst hnb
        exact .inr (by simp)
      · exact .inl ((Function.update_of_ne hnb _ _).trans (Function.update_of_ne hne _ _))
    · exact ⟨dir, hold, .inl rfl⟩

end Published

end Fs
end CrashFs
