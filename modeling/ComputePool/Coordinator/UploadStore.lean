import ComputePool.Coordinator.Aggregate
import ComputePool.Coordinator.Upload

/-!
# What the delta directory holds

Whatever the order of the steps, a file under the address of a delta has that hash and is
the delta of a worker that was admitted, also after a crash.  Two uploads in flight never
share a temporary file, and a temporary file never has the name of a delta.
-/

namespace ComputePool
namespace Coordinator

namespace Uploads

open RustStd Federated CrashFs

/-! ## Names -/

/-- The name of a delta. -/
def IsDelta (name : String) : Prop := ∃ sha, name = deltaFile sha

theorem deltaFile_injective : Function.Injective deltaFile := by
  intro a b h
  have hchars := congrArg String.toList h
  simp only [deltaFile, hexEncode, String.toList_append, String.toList_ofList] at hchars
  have hlength : (hexChars a.toBytes).length = (hexChars b.toBytes).length := by
    rw [hexChars_length, hexChars_length, FixedBytes.toBytes_length, FixedBytes.toBytes_length]
  exact FixedBytes.toBytes_injective (hexChars_injective (List.append_inj hchars hlength).1)

theorem hexDigit_ne_dot : ∀ n < 16, hexDigit n ≠ '.' := by
  decide

/-- A temporary file starts with a dot, and a delta does not. -/
theorem partialPath_not_delta (sha : B32) (pid n : Nat) : ¬ IsDelta (partialPath sha pid n) := by
  rintro ⟨other, h⟩
  have hchars := congrArg String.toList h
  simp only [deltaFile, hexEncode, partialPath, String.toList_append, String.toList_ofList]
    at hchars
  have hne : hexChars other.toBytes ≠ [] := by
    intro hnil
    have hlength := hexChars_length other.toBytes
    rw [hnil, FixedBytes.toBytes_length] at hlength
    cases hlength
  have ⟨c, rest, hcons⟩ := List.exists_cons_of_ne_nil hne
  rw [hcons, List.cons_append] at hchars
  have hmem : c ∈ hexChars other.toBytes := by
    rw [hcons]
    exact List.mem_cons_self
  have ⟨d, hd, hc⟩ := hexDigit_mem hmem
  have hdot := (List.cons.inj hchars).1
  exact hexDigit_ne_dot d hd (hc.symm.trans hdot.symm)

/-- Two uploads of one process take different numbers, and two processes have different
ids. -/
theorem partialPath_injective {sha sha' : B32} {pid pid' n n' : Nat}
    (h : partialPath sha pid n = partialPath sha' pid' n') : pid = pid' ∧ n = n' := by
  have hchars := congrArg String.toList h
  simp only [partialPath, String.toList_ofList] at hchars
  have hlength : (hexChars sha.toBytes).length = (hexChars sha'.toBytes).length := by
    rw [hexChars_length, hexChars_length, FixedBytes.toBytes_length, FixedBytes.toBytes_length]
  have hdot : toDigit 10 '.' = none := by decide
  have hnumeral : ∀ k, '.' ∉ Nat.toDigits 10 k := fun k =>
    not_mem_toDigits (by decide) (by decide) hdot
  have hrest := (List.append_inj (List.cons.inj hchars).2 hlength).2
  have ⟨hpid, hcounter⟩ := Framing.append_sep_inj (hnumeral pid) (hnumeral pid')
    (List.cons.inj hrest).2
  have hn := List.append_cancel_right hcounter
  have hinj : Function.Injective (Nat.toDigits 10) := toDigits_injective (by decide) (by decide)
  exact ⟨hinj hpid, hinj hn⟩

/-! ## The invariant -/

/-- The bytes are the delta that the upload was admitted for. -/
structure Delivers (env : RoundEnv) (u : Upload) (bytes : List UInt8) : Prop where
  hash : env.hashes.sha256 bytes = u.sha
  fits : bytes.length ≤ u.cap
  header : bindHeader false u bytes = .ok ()

/-- What may be under the name of a delta: what was there before, or a delta delivered
by an upload that was admitted. -/
def Good (env : RoundEnv) (before : Fs String UInt8) (admitted : List Upload) (name : String)
    (bytes : List UInt8) : Prop :=
  before.read name = some bytes ∨
    ∃ u ∈ admitted, name = deltaFile u.sha ∧ Delivers env u bytes

/-- What a request in flight can rely on. -/
def PhaseHolds (env : RoundEnv) (fs : Fs String UInt8) (u : Upload) : UploadPhase → Prop
  | .admitted => True
  | .streaming tmp got => fs.Has tmp got ∧ got.length ≤ u.cap
  | .received tmp got => fs.OnDisk tmp got ∧ got.length ≤ u.cap
  | .verified tmp got => fs.OnDisk tmp got ∧ Delivers env u got
  | .stored => fs.names (deltaFile u.sha) ≠ none

structure TaskHolds (env : RoundEnv) (fs : Fs String UInt8) (next : Nat) (t : UploadTask) : Prop where
  phase : PhaseHolds env fs t.upload t.phase
  named : ∀ tmp, t.phase.tmp? = some tmp → ∃ n < next, tmp = partialPath t.upload.sha t.pid n

structure Inv (env : RoundEnv) (before : Fs String UInt8) (w : Uploads) : Prop where
  published : w.fs.Published IsDelta (Good env before w.admitted)
  task : ∀ id t, w.tasks id = some t →
    t.upload ∈ w.admitted ∧ TaskHolds env w.fs (w.next t.pid) t
  /-- No two requests in flight have one temporary file. -/
  apart : ∀ id id' t t' tmp, w.tasks id = some t → w.tasks id' = some t' →
    t.phase.tmp? = some tmp → t'.phase.tmp? = some tmp → id = id'

section

variable {checks : Bool} {env : RoundEnv} {before fs fs' : Fs String UInt8} {w : Uploads}

theorem inv_boot (hclean : fs.earlier = []) (hsynced : ∀ i, fs.synced i = true) :
    Inv env fs (.boot fs) where
  published :=
    { file := by
        intro dir hdir n j hn hj
        have hdir' : dir = fs.names := by
          have hmem : dir ∈ fs.names :: fs.earlier := hdir
          rwa [hclean, List.mem_singleton] at hmem
        subst hdir'
        refine ⟨fs.numbered n j hj, hsynced j, .inl ?_, fun m hm hname => ?_⟩
        · rw [Fs.read, hj, Option.map_some]
          rfl
        · exact hm (fs.unlinked m n j hname hj ▸ hn) }
  task := nofun
  apart := nofun

theorem TaskHolds.tmp_not_delta {next : Nat} {t : UploadTask} (h : TaskHolds env fs next t)
    {tmp : String} (htmp : t.phase.tmp? = some tmp) : ¬ IsDelta tmp := by
  have ⟨n, _, hname⟩ := h.named tmp htmp
  rw [hname]
  exact partialPath_not_delta _ _ _

/-- A request that another one's step leaves alone. -/
theorem TaskHolds.beside {next next' : Nat} {t : UploadTask} (h : TaskHolds env fs next t)
    (hsame : ∀ tmp, t.phase.tmp? = some tmp → Fs.Untouched fs fs' tmp)
    (hkept : ∀ sha, fs.names (deltaFile sha) ≠ none → fs'.names (deltaFile sha) ≠ none)
    (hnext : next ≤ next') : TaskHolds env fs' next' t where
  phase := by
    have hphase := h.phase
    cases ht : t.phase with
    | admitted => trivial
    | streaming tmp got =>
        rw [ht] at hphase
        exact ⟨hphase.1.untouched (hsame tmp (by rw [ht]; rfl)), hphase.2⟩
    | received tmp got =>
        rw [ht] at hphase
        exact ⟨hphase.1.untouched (hsame tmp (by rw [ht]; rfl)), hphase.2⟩
    | verified tmp got =>
        rw [ht] at hphase
        exact ⟨hphase.1.untouched (hsame tmp (by rw [ht]; rfl)), hphase.2⟩
    | stored =>
        rw [ht] at hphase
        exact hkept _ hphase
  named := by
    intro tmp htmp
    have ⟨n, hn, hname⟩ := h.named tmp htmp
    exact ⟨n, by omega, hname⟩

theorem put_self (id : Nat) (new : Option UploadTask) : (w.put id fs' new).tasks id = new :=
  Function.update_self _ _ _

theorem put_other {id id' : Nat} (h : id' ≠ id) (new : Option UploadTask) :
    (w.put id fs' new).tasks id' = w.tasks id' :=
  Function.update_of_ne h _ _

/-- A name that no request has been given yet. -/
def Fresh (w : Uploads) (pid : Nat) (name : String) : Prop :=
  ∃ sha n, w.next pid ≤ n ∧ name = partialPath sha pid n

/-- No request in flight has a fresh name. -/
theorem Inv.not_fresh (h : Inv env before w) {id pid : Nat} {t : UploadTask} {tmp : String}
    (ht : w.tasks id = some t) (htmp : t.phase.tmp? = some tmp) : ¬ Fresh w pid tmp := by
  rintro ⟨sha, n, hn, hname⟩
  have ⟨n', hlt, hname'⟩ := (h.task id t ht).2.named tmp htmp
  have ⟨hpid, hsame⟩ := partialPath_injective (hname'.symm.trans hname)
  subst hpid hsame
  omega

/-- A request that goes on with the temporary file it has, with a fresh one, or without. -/
structure GoesOn (env : RoundEnv) (w w' : Uploads) (t t' : UploadTask) : Prop where
  pid : t'.pid = t.pid
  upload : t'.upload = t.upload
  tmp : ∀ tmp, t'.phase.tmp? = some tmp → t.phase.tmp? = some tmp ∨
    ∃ n, w.next t.pid ≤ n ∧ n < w'.next t.pid ∧ tmp = partialPath t.upload.sha t.pid n
  phase : PhaseHolds env w'.fs t.upload t'.phase

/-- A step of one request: it touches nothing but its own temporary file, fresh names and
the names of deltas. -/
structure OneStep (env : RoundEnv) (w w' : Uploads) (id : Nat) (t : UploadTask) : Prop where
  admitted : w'.admitted = w.admitted
  others : ∀ id', id' ≠ id → w'.tasks id' = w.tasks id'
  next : ∀ pid, w.next pid ≤ w'.next pid
  untouched : ∀ m, ¬ IsDelta m → t.phase.tmp? ≠ some m → ¬ Fresh w t.pid m →
    Fs.Untouched w.fs w'.fs m
  kept : ∀ sha, w.fs.names (deltaFile sha) ≠ none → w'.fs.names (deltaFile sha) ≠ none
  goesOn : ∀ t', w'.tasks id = some t' → GoesOn env w w' t t'

theorem Inv.oneStep (h : Inv env before w) {w' : Uploads} {id : Nat} {t : UploadTask}
    (ht : w.tasks id = some t) (hpub : w'.fs.Published IsDelta (Good env before w.admitted))
    (hstep : OneStep env w w' id t) : Inv env before w' where
  published := by
    rw [hstep.admitted]
    exact hpub
  task := by
    intro id' t' ht'
    rw [hstep.admitted]
    by_cases hid : id' = id
    · subst hid
      have hgoes := hstep.goesOn t' ht'
      have ⟨hmem, hholds⟩ := h.task id' t ht
      refine ⟨hgoes.upload ▸ hmem, ?_, fun tmp htmp => ?_⟩
      · rw [hgoes.upload]
        exact hgoes.phase
      · rw [hgoes.upload, hgoes.pid]
        rcases hgoes.tmp tmp htmp with hold | ⟨n, _, hn, hname⟩
        · have ⟨n, hn, hname⟩ := hholds.named tmp hold
          exact ⟨n, hn.trans_le (hstep.next _), hname⟩
        · exact ⟨n, hn, hname⟩
    · rw [hstep.others id' hid] at ht'
      have ⟨hmem, hholds⟩ := h.task id' t' ht'
      refine ⟨hmem, hholds.beside (fun tmp htmp => ?_) hstep.kept (hstep.next _)⟩
      refine hstep.untouched tmp (hholds.tmp_not_delta htmp) (fun hown => ?_) (h.not_fresh ht' htmp)
      exact hid (h.apart id' id t' t tmp ht' ht htmp hown)
  apart := by
    -- a temporary file in flight afterwards was in flight before, or is a fresh one of `id`
    have hold : ∀ id' t' tmp, w'.tasks id' = some t' → t'.phase.tmp? = some tmp →
        (∃ t₀, w.tasks id' = some t₀ ∧ t₀.phase.tmp? = some tmp) ∨
          (id' = id ∧ Fresh w t.pid tmp) := by
      intro id' t' tmp ht' htmp
      by_cases hid : id' = id
      · subst hid
        rcases (hstep.goesOn t' ht').tmp tmp htmp with hown | ⟨n, hn, _, hname⟩
        · exact .inl ⟨t, ht, hown⟩
        · exact .inr ⟨rfl, _, n, hn, hname⟩
      · rw [hstep.others id' hid] at ht'
        exact .inl ⟨t', ht', htmp⟩
    intro id₁ id₂ t₁ t₂ tmp h₁ h₂ htmp₁ htmp₂
    rcases hold id₁ t₁ tmp h₁ htmp₁ with ⟨s₁, hs₁, hsame₁⟩ | ⟨hid₁, hfresh₁⟩
    · rcases hold id₂ t₂ tmp h₂ htmp₂ with ⟨s₂, hs₂, hsame₂⟩ | ⟨_, hfresh₂⟩
      · exact h.apart id₁ id₂ s₁ s₂ tmp hs₁ hs₂ hsame₁ hsame₂
      · exact absurd hfresh₂ (h.not_fresh hs₁ hsame₁)
    · rcases hold id₂ t₂ tmp h₂ htmp₂ with ⟨s₂, hs₂, hsame₂⟩ | ⟨hid₂, _⟩
      · exact absurd hfresh₁ (h.not_fresh hs₂ hsame₂)
      · rw [hid₁, hid₂]

/-- A request that takes a step with its own temporary file, or without one. -/
theorem oneStep_put {id : Nat} {t : UploadTask} {new : Option UploadTask}
    (hsame : ∀ m, ¬ IsDelta m → t.phase.tmp? ≠ some m → Fs.Untouched w.fs fs' m)
    (hkept : ∀ sha, w.fs.names (deltaFile sha) ≠ none → fs'.names (deltaFile sha) ≠ none)
    (hnew : ∀ t', new = some t' → t'.pid = t.pid ∧ t'.upload = t.upload ∧
      (∀ tmp, t'.phase.tmp? = some tmp → t.phase.tmp? = some tmp) ∧
      PhaseHolds env fs' t.upload t'.phase) : OneStep env w (w.put id fs' new) id t where
  admitted := rfl
  others := fun _ hid => put_other hid new
  next := fun _ => le_rfl
  untouched := fun m hm hown _ => hsame m hm hown
  kept := hkept
  goesOn := by
    intro t' ht'
    have ⟨hpid, hupload, htmp, hphase⟩ := hnew t' ((put_self id new).symm.trans ht')
    exact ⟨hpid, hupload, fun tmp h => .inl (htmp tmp h), hphase⟩

/-- A request that ends, or goes on, without touching the directory. -/
theorem Inv.quiet (h : Inv env before w) {id : Nat} {t : UploadTask} (ht : w.tasks id = some t)
    {new : Option UploadTask} (hnew : ∀ t', new = some t' → t'.pid = t.pid ∧ t'.upload = t.upload ∧
      (∀ tmp, t'.phase.tmp? = some tmp → t.phase.tmp? = some tmp) ∧
      PhaseHolds env w.fs t.upload t'.phase) : Inv env before (w.put id w.fs new) :=
  h.oneStep ht h.published
    (oneStep_put (fun _ _ _ _ hj => ⟨hj, rfl, fun h => h⟩) (fun _ h => h) hnew)

section Own

variable {id : Nat} {t : UploadTask} {tmp : String} (h : Inv env before w)
  (ht : w.tasks id = some t) (htmp : t.phase.tmp? = some tmp)

include h ht htmp

theorem Inv.tmp_ne_delta (sha : B32) : deltaFile sha ≠ tmp := by
  intro hsame
  exact (h.task id t ht).2.tmp_not_delta htmp ⟨sha, hsame.symm⟩

/-- An operation on the temporary file alone. -/
theorem Inv.ownFile {new : Option UploadTask}
    (hpub : fs'.Published IsDelta (Good env before w.admitted))
    (hsame : ∀ m, m ≠ tmp → Fs.Untouched w.fs fs' m)
    (hnew : ∀ t', new = some t' → t'.pid = t.pid ∧ t'.upload = t.upload ∧
      (∀ tmp, t'.phase.tmp? = some tmp → t.phase.tmp? = some tmp) ∧
      PhaseHolds env fs' t.upload t'.phase) : Inv env before (w.put id fs' new) := by
  refine h.oneStep ht hpub (oneStep_put (fun m _ hown => hsame m ?_) (fun sha => ?_) hnew)
  · intro hmt
    exact hown (hmt ▸ htmp)
  · exact (hsame _ (h.tmp_ne_delta ht htmp sha)).named

theorem Inv.reject : Inv env before (w.reject id tmp) :=
  h.ownFile ht htmp (h.published.remove ((h.task id t ht).2.tmp_not_delta htmp))
    (fun _ hne => Fs.remove_untouched hne) nofun

end Own

/-! ## Every step -/

section Steps

variable {maxBytes id pid : Nat} {t : UploadTask}

/-- What holds of a request in flight, by its phase. -/
theorem Inv.holds (h : Inv env before w) (ht : w.tasks id = some t) {phase : UploadPhase}
    (hphase : t.phase = phase) : PhaseHolds env w.fs t.upload phase := by
  rw [← hphase]
  exact (h.task id t ht).2.phase

theorem inv_start (h : Inv env before w) (ht : w.tasks id = some t) :
    Inv env before (w.start id t) := by
  unfold Uploads.start
  split
  · exact h.quiet ht nofun
  · let tmp := partialPath t.upload.sha t.pid (w.next t.pid)
    have hfresh : Fresh w t.pid tmp := ⟨_, _, le_rfl, rfl⟩
    have htmp : ¬ IsDelta tmp := partialPath_not_delta _ _ _
    have hself : Function.update w.next t.pid (w.next t.pid + 1) t.pid = w.next t.pid + 1 :=
      Function.update_self _ _ _
    refine h.oneStep ht (h.published.create htmp) ?_
    exact
      { admitted := rfl
        others := fun _ hid => Function.update_of_ne hid _ _
        next := by
          intro pid
          by_cases hpid : pid = t.pid
          · rw [hpid]
            exact (Nat.le_succ _).trans hself.ge
          · exact (Function.update_of_ne hpid _ w.next).ge
        untouched := fun m _ _ hnot => Fs.create_untouched fun hsame => hnot (hsame ▸ hfresh)
        kept := fun sha => (Fs.create_untouched fun hsame => htmp ⟨sha, hsame.symm⟩).named
        goesOn := by
          intro t' ht'
          have hnew : some t' = some { t with phase := .streaming tmp [] } :=
            ht'.symm.trans (Function.update_self _ _ _)
          cases hnew
          refine ⟨rfl, rfl, fun tmp' htmp' => .inr ⟨w.next t.pid, le_rfl, ?_, ?_⟩, ?_⟩
          · exact (Nat.lt_succ_self _).trans_eq hself.symm
          · exact (Option.some.inj htmp').symm
          · exact ⟨Fs.create_has _ _, Nat.zero_le _⟩ }

theorem inv_chunk (h : Inv env before w) (ht : w.tasks id = some t) {tmp : String}
    {got : List UInt8} (hphase : t.phase = .streaming tmp got) (bytes : List UInt8) :
    Inv env before (w.chunk id t tmp got bytes) := by
  have htmp : t.phase.tmp? = some tmp := by rw [hphase]; rfl
  have ⟨hhas, _⟩ := h.holds ht hphase
  unfold Uploads.chunk
  split
  · exact h.reject ht htmp
  · rename_i hfits
    refine h.ownFile ht htmp (h.published.write ((h.task id t ht).2.tmp_not_delta htmp) bytes)
      (fun _ hne => Fs.write_untouched hne bytes) ?_
    intro t' ht'
    cases ht'
    refine ⟨rfl, rfl, fun tmp' htmp' => htmp.trans htmp', hhas.write bytes, ?_⟩
    rw [List.length_append]
    omega

theorem inv_finish (h : Inv env before w) (ht : w.tasks id = some t) {tmp : String}
    {got : List UInt8} (hphase : t.phase = .streaming tmp got) :
    Inv env before
      (w.put id (w.fs.syncFile tmp) (some { t with phase := .received tmp got })) := by
  have htmp : t.phase.tmp? = some tmp := by rw [hphase]; rfl
  have ⟨hhas, hfits⟩ := h.holds ht hphase
  refine h.ownFile ht htmp (h.published.syncFile ((h.task id t ht).2.tmp_not_delta htmp))
    (fun _ hne => Fs.syncFile_untouched hne) ?_
  intro t' ht'
  cases ht'
  exact ⟨rfl, rfl, fun tmp' htmp' => htmp.trans htmp', hhas.syncFile, hfits⟩

/-- What is read back is what was streamed, so that the checks are of one and the same
bytes. -/
theorem inv_verify (h : Inv env before w) (ht : w.tasks id = some t) {tmp : String}
    {got : List UInt8} (hphase : t.phase = .received tmp got) :
    Inv env before (w.verify checks env id t tmp got) := by
  have htmp : t.phase.tmp? = some tmp := by rw [hphase]; rfl
  have ⟨hdisk, hfits⟩ := h.holds ht hphase
  unfold Uploads.verify
  rw [hdisk.read]
  dsimp only
  split
  · exact h.reject ht htmp
  rename_i hhash
  split
  · exact h.reject ht htmp
  split
  · exact h.quiet ht nofun
  · exact h.reject ht htmp
  · rename_i hbound
    refine h.quiet ht ?_
    intro t' ht'
    cases ht'
    exact ⟨rfl, rfl, fun tmp' htmp' => htmp.trans htmp', hdisk, not_not.mp hhash, hfits,
      bindHeader_eq_ok.mpr (bindHeader_eq_ok.mp hbound)⟩

theorem inv_rename (h : Inv env before w) (ht : w.tasks id = some t) {tmp : String}
    {got : List UInt8} (hphase : t.phase = .verified tmp got) :
    Inv env before (w.put id (w.fs.rename tmp (deltaFile t.upload.sha))
      (some { t with phase := .stored })) := by
  have htmp : t.phase.tmp? = some tmp := by rw [hphase]; rfl
  have ⟨hdisk, hdelivers⟩ := h.holds ht hphase
  have ⟨hmem, hholds⟩ := h.task id t ht
  have ⟨j, hj, _, _⟩ := hdisk
  have hnamed : (w.fs.rename tmp (deltaFile t.upload.sha)).names (deltaFile t.upload.sha) ≠ none := by
    rw [Fs.rename_named hj]
    nofun
  refine h.oneStep ht (h.published.rename (hholds.tmp_not_delta htmp) ⟨_, rfl⟩ hdisk
    (.inr ⟨_, hmem, rfl, hdelivers⟩)) (oneStep_put (fun m hm hown => ?_) (fun sha hsha => ?_) ?_)
  · exact Fs.rename_untouched (fun hsame => hown (hsame ▸ htmp)) fun hsame => hm ⟨_, hsame⟩
  · by_cases hown : deltaFile sha = deltaFile t.upload.sha
    · rw [hown]
      exact hnamed
    · exact (Fs.rename_untouched (h.tmp_ne_delta ht htmp sha) hown).named hsha
  · intro t' ht'
    cases ht'
    exact ⟨rfl, rfl, nofun, hnamed⟩

theorem inv_sync (h : Inv env before w) (ht : w.tasks id = some t) :
    Inv env before (w.put id w.fs.syncDir none) :=
  h.oneStep ht h.published.syncDir
    (oneStep_put (fun _ _ _ _ hj => ⟨hj, rfl, fun h => h⟩) (fun _ h => h) nofun)

theorem inv_fail (h : Inv env before w) (ht : w.tasks id = some t) :
    Inv env before (w.fail id t) := by
  unfold Uploads.fail
  split
  · exact h.quiet ht nofun
  · rename_i tmp htmp
    exact h.reject ht htmp

theorem inv_request (h : Inv env before w) (hid : w.tasks id = none) (u : Upload) :
    Inv env before { w.put id w.fs (some ⟨pid, u, .admitted⟩) with
      admitted := w.admitted ++ [u] } where
  published := h.published.mono fun n bytes hgood => by
    rcases hgood with hold | ⟨u', hmem, hname, hdelivers⟩
    · exact .inl hold
    · exact .inr ⟨u', List.mem_append_left _ hmem, hname, hdelivers⟩
  task := by
    intro id' t' ht'
    by_cases hsame : id' = id
    · subst hsame
      have hnew : some t' = some ⟨pid, u, .admitted⟩ :=
        ht'.symm.trans (@put_self w.fs w id' _)
      cases hnew
      exact ⟨List.mem_append_right _ List.mem_cons_self, trivial, nofun⟩
    · have ht' : w.tasks id' = some t' := (@put_other w.fs w _ _ hsame _).symm.trans ht'
      have ⟨hmem, hholds⟩ := h.task id' t' ht'
      exact ⟨List.mem_append_left _ hmem, hholds⟩
  apart := by
    have hold : ∀ id' t' tmp, Function.update w.tasks id (some ⟨pid, u, .admitted⟩) id' = some t' →
        t'.phase.tmp? = some tmp → w.tasks id' = some t' := by
      intro id' t' tmp ht' htmp
      by_cases hsame : id' = id
      · subst hsame
        have hnew := ht'.symm.trans (Function.update_self _ _ _)
        cases hnew
        cases htmp
      · exact (Function.update_of_ne hsame _ _).symm.trans ht'
    intro id₁ id₂ t₁ t₂ tmp h₁ h₂ htmp₁ htmp₂
    exact h.apart id₁ id₂ t₁ t₂ tmp (hold id₁ t₁ tmp h₁ htmp₁) (hold id₂ t₂ tmp h₂ htmp₂) htmp₁ htmp₂

theorem inv_exit (h : Inv env before w) (pid : Nat) :
    Inv env before (w.step checks env maxBytes (.exit pid)) where
  published := h.published
  task := by
    intro id t ht
    have ⟨ht, hpid⟩ := Option.filter_eq_some_iff.mp ht
    have hne : t.pid ≠ pid := by simpa using hpid
    have ⟨hmem, hholds⟩ := h.task id t ht
    have hnext : Function.update w.next pid 0 t.pid = w.next t.pid := Function.update_of_ne hne _ _
    refine ⟨hmem, hholds.beside (fun _ _ _ hj => ⟨hj, rfl, fun h => h⟩) (fun _ h => h) hnext.ge⟩
  apart := by
    intro id₁ id₂ t₁ t₂ tmp h₁ h₂ htmp₁ htmp₂
    have h₁ := (Option.filter_eq_some_iff.mp h₁).1
    have h₂ := (Option.filter_eq_some_iff.mp h₂).1
    exact h.apart id₁ id₂ t₁ t₂ tmp h₁ h₂ htmp₁ htmp₂

theorem inv_reboot (h : Inv env before w) (hfs : w.fs.Reboots fs) :
    Inv env before (w.step checks env maxBytes (.reboot fs)) where
  published := h.published.reboots hfs
  task := nofun
  apart := nofun

theorem Inv.goes (h : Inv env before w) {next : UploadTask → Uploads}
    (hnext : ∀ t, w.tasks id = some t → Inv env before (next t)) :
    Inv env before (w.goes id next) := by
  unfold Uploads.goes
  split
  · exact h
  · rename_i t ht
    exact hnext t ht

theorem inv_step (h : Inv env before w) (event : UploadEvent) (hevent : Possible w event) :
    Inv env before (w.step checks env maxBytes event) := by
  cases event with
  | request id pid s now req =>
      unfold Uploads.step
      dsimp only
      split
      · rename_i u hid _
        exact inv_request h hid u
      · exact h
  | start id =>
      refine h.goes fun t ht => ?_
      split
      · exact inv_start h ht
      · exact h
  | chunk id bytes =>
      refine h.goes fun t ht => ?_
      split
      · rename_i hphase
        exact inv_chunk h ht hphase bytes
      · exact h
  | finish id =>
      refine h.goes fun t ht => ?_
      split
      · rename_i hphase
        exact inv_finish h ht hphase
      · exact h
  | verify id =>
      refine h.goes fun t ht => ?_
      split
      · rename_i hphase
        exact inv_verify h ht hphase
      · exact h
  | rename id =>
      refine h.goes fun t ht => ?_
      split
      · rename_i hphase
        exact inv_rename h ht hphase
      · exact h
  | sync id =>
      refine h.goes fun t ht => ?_
      split
      · exact inv_sync h ht
      · exact h
  | fail id => exact h.goes fun t ht => inv_fail h ht
  | drop id => exact h.goes fun t ht => h.quiet ht nofun
  | exit pid => exact inv_exit h pid
  | reboot fs => exact inv_reboot h hevent

/-! ## What is synced stays -/

variable {sha : B32}

theorem kept_goes (hk : w.fs.Kept (deltaFile sha)) {next : UploadTask → Uploads}
    (hnext : ∀ t, w.tasks id = some t → (next t).fs.Kept (deltaFile sha)) :
    (w.goes id next).fs.Kept (deltaFile sha) := by
  unfold Uploads.goes
  split
  · exact hk
  · rename_i t ht
    exact hnext t ht

theorem kept_reject (h : Inv env before w) (hk : w.fs.Kept (deltaFile sha))
    (ht : w.tasks id = some t) {tmp : String} (htmp : t.phase.tmp? = some tmp) :
    (w.reject id tmp).fs.Kept (deltaFile sha) :=
  hk.remove (h.tmp_ne_delta ht htmp sha)

/-- No step takes a delta away. -/
theorem kept_step (h : Inv env before w) (hk : w.fs.Kept (deltaFile sha)) (event : UploadEvent)
    (hevent : Possible w event) : (w.step checks env maxBytes event).fs.Kept (deltaFile sha) := by
  cases event with
  | request id pid s now req =>
      unfold Uploads.step
      dsimp only
      split
      · exact hk
      · exact hk
  | start id =>
      refine kept_goes hk fun t ht => ?_
      split
      · unfold Uploads.start
        split
        · exact hk
        · exact hk.create _
      · exact hk
  | chunk id bytes =>
      refine kept_goes hk fun t ht => ?_
      split
      · rename_i hphase
        unfold Uploads.chunk
        split
        · exact kept_reject h hk ht (by rw [hphase]; rfl)
        · exact hk.write _ bytes
      · exact hk
  | finish id =>
      refine kept_goes hk fun t ht => ?_
      split
      · exact hk.syncFile _
      · exact hk
  | verify id =>
      refine kept_goes hk fun t ht => ?_
      split
      · rename_i hphase
        have hreject := kept_reject h hk ht (by rw [hphase]; rfl)
        unfold Uploads.verify
        split
        · exact hreject
        split
        · exact hreject
        split
        · exact hreject
        split
        · exact hk
        · exact hreject
        · exact hk
      · exact hk
  | rename id =>
      refine kept_goes hk fun t ht => ?_
      split
      · rename_i hphase
        exact hk.rename (h.tmp_ne_delta ht (by rw [hphase]; rfl) sha)
      · exact hk
  | sync id =>
      refine kept_goes hk fun t ht => ?_
      split
      · exact hk.syncDir
      · exact hk
  | fail id =>
      refine kept_goes hk fun t ht => ?_
      unfold Uploads.fail
      split
      · exact hk
      · rename_i tmp htmp
        exact kept_reject h hk ht htmp
  | drop id => exact kept_goes hk fun t ht => hk
  | exit pid => exact hk
  | reboot fs => exact hk.reboots hevent

/-! ## Runs -/

/-- An upload is admitted only by a request that passes the checks. -/
theorem admitted_step (event : UploadEvent) {u : Upload}
    (hu : u ∈ (w.step checks env maxBytes event).admitted) :
    u ∈ w.admitted ∨ ∃ id pid s now req, event = .request id pid s now req ∧
      authorise env maxBytes s now req = .ok u := by
  have hgoes : ∀ id (next : UploadTask → Uploads), (∀ t, (next t).admitted = w.admitted) →
      u ∈ (w.goes id next).admitted → u ∈ w.admitted := by
    intro id next hnext hmem
    unfold Uploads.goes at hmem
    split at hmem
    · exact hmem
    · rename_i t _
      rwa [hnext t] at hmem
  cases event with
  | request id pid s now req =>
      unfold Uploads.step at hu
      dsimp only at hu
      split at hu
      · rename_i u' _ hgranted
        rcases List.mem_append.mp hu with hold | hnew
        · exact .inl hold
        · rw [List.mem_singleton.mp hnew]
          exact .inr ⟨id, pid, s, now, req, rfl, hgranted⟩
      · exact .inl hu
  | start id =>
      refine .inl (hgoes id _ (fun t => ?_) hu)
      unfold Uploads.start
      split
      · split <;> rfl
      · rfl
  | chunk id bytes =>
      refine .inl (hgoes id _ (fun t => ?_) hu)
      unfold Uploads.chunk
      split
      · split <;> rfl
      · rfl
  | finish id =>
      refine .inl (hgoes id _ (fun t => ?_) hu)
      split <;> rfl
  | verify id =>
      refine .inl (hgoes id _ (fun t => ?_) hu)
      unfold Uploads.verify
      split
      · repeat' split
        all_goals rfl
      · rfl
  | rename id =>
      refine .inl (hgoes id _ (fun t => ?_) hu)
      split <;> rfl
  | sync id =>
      refine .inl (hgoes id _ (fun t => ?_) hu)
      split <;> rfl
  | fail id =>
      refine .inl (hgoes id _ (fun t => ?_) hu)
      unfold Uploads.fail
      split <;> rfl
  | drop id =>
      refine .inl (hgoes id _ (fun t => ?_) hu)
      rfl
  | exit pid => exact .inl hu
  | reboot fs => exact .inl hu

theorem admitted_run {events : List UploadEvent} {u : Upload}
    (hu : u ∈ ((machine checks env maxBytes).run w events).admitted) :
    u ∈ w.admitted ∨ ∃ id pid s now req, .request id pid s now req ∈ events ∧
      authorise env maxBytes s now req = .ok u := by
  induction events generalizing w with
  | nil => exact .inl hu
  | cons event rest ih =>
      rcases ih hu with hmem | ⟨id, pid, s, now, req, hmem, hgranted⟩
      · rcases admitted_step event hmem with hold | ⟨id, pid, s, now, req, rfl, hgranted⟩
        · exact .inl hold
        · exact .inr ⟨id, pid, s, now, req, List.mem_cons_self, hgranted⟩
      · exact .inr ⟨id, pid, s, now, req, List.mem_cons_of_mem _ hmem, hgranted⟩

theorem inv_run {events : List UploadEvent} (h : Inv env before w)
    (hrun : (machine checks env maxBytes).Along Possible w events) :
    Inv env before ((machine checks env maxBytes).run w events) :=
  Machine.run_invariant (Inv env before) (fun _ event hinv => inv_step hinv event) h hrun

theorem kept_run {events : List UploadEvent} (h : Inv env before w)
    (hk : w.fs.Kept (deltaFile sha)) (hrun : (machine checks env maxBytes).Along Possible w events) :
    ((machine checks env maxBytes).run w events).fs.Kept (deltaFile sha) :=
  (Machine.run_invariant (fun w => Inv env before w ∧ w.fs.Kept (deltaFile sha))
    (fun _ event hinv hevent =>
      ⟨inv_step hinv.1 event hevent, kept_step hinv.1 hinv.2 event hevent⟩) ⟨h, hk⟩ hrun).2

end Steps

end

/-- In every run of uploads, whatever their order, wherever clients go away, processes end
and power is lost: what may be read under the address of a delta was there before, or has
that hash and is the delta of the worker, the round and the start adapter of a request that
was admitted; two uploads in flight never share a temporary file; and a delta whose upload
was answered, its directory synced, is never lost. -/
theorem delta_store_sound (overflowChecks : Bool) (env : RoundEnv) (maxBytes : Nat)
    (fs : Fs String UInt8) (hclean : fs.earlier = []) (hsynced : ∀ i, fs.synced i = true) (events : List UploadEvent)
    (hrun : (machine overflowChecks env maxBytes).Along Possible (.boot fs) events) :
    (∀ sha bytes,
      ((machine overflowChecks env maxBytes).run (.boot fs) events).fs.MayRead (deltaFile sha) (some bytes) →
      fs.read (deltaFile sha) = some bytes ∨
        ∃ id pid s now req u, .request id pid s now req ∈ events ∧
          authorise env maxBytes s now req = .ok u ∧ u.sha = sha ∧ Delivers env u bytes) ∧
    (∀ id id' t t' tmp, ((machine overflowChecks env maxBytes).run (.boot fs) events).tasks id = some t →
      ((machine overflowChecks env maxBytes).run (.boot fs) events).tasks id' = some t' →
      t.phase.tmp? = some tmp → t'.phase.tmp? = some tmp → id = id') ∧
    ∀ front back id t, events = front ++ .sync id :: back →
      ((machine overflowChecks env maxBytes).run (.boot fs) front).tasks id = some t → t.phase = .stored →
      ∀ contents, ((machine overflowChecks env maxBytes).run (.boot fs) events).fs.MayRead
        (deltaFile t.upload.sha) contents → contents ≠ none := by
  have hboot : Inv env fs (.boot fs) := inv_boot hclean hsynced
  have hinv := inv_run hboot hrun
  refine ⟨?_, hinv.apart, ?_⟩
  · intro sha bytes hread
    rcases hinv.published.good ⟨sha, rfl⟩ hread with hold | ⟨u, hmem, hname, hdelivers⟩
    · exact .inl hold
    · rcases admitted_run hmem with hnone | ⟨id, pid, s, now, req, hevent, hgranted⟩
      · cases hnone
      · exact .inr ⟨id, pid, s, now, req, u, hevent, hgranted,
          (deltaFile_injective hname).symm, hdelivers⟩
  · rintro front back id t rfl ht hphase contents hread
    have ⟨hfront, hrest⟩ := Machine.along_append.mp hrun
    have hbefore := inv_run hboot hfront
    have hnamed : ((machine overflowChecks env maxBytes).run (.boot fs) front).fs.names
        (deltaFile t.upload.sha) ≠ none := hbefore.holds ht hphase
    have hsync : ((machine overflowChecks env maxBytes).step ((machine overflowChecks env maxBytes).run (.boot fs) front)
        (.sync id)).fs.Kept (deltaFile t.upload.sha) := by
      show (Uploads.goes _ id _).fs.Kept _
      unfold Uploads.goes
      rw [ht]
      dsimp only
      rw [hphase]
      exact Fs.kept_syncDir hnamed
    have hafter : Inv env fs ((machine overflowChecks env maxBytes).step
        ((machine overflowChecks env maxBytes).run (.boot fs) front) (.sync id)) :=
      @inv_step overflowChecks env fs _ maxBytes hbefore (.sync id) trivial
    rw [Machine.run_append, Machine.run_cons] at hread
    exact (kept_run hafter hsync hrest.2).mayRead hread

/-! ## A run with two uploads -/

theorem parseSha_hexEncode (sha : B32) : parseSha (hexEncode sha.toBytes) = some sha := by
  have hdecode := hexDecode_hexChars sha.toBytes
  have hsize : (utf8 (hexEncode sha.toBytes)).length = 64 := by
    have htwo := utf8ByteSize_of_hexDecode hdecode
    rwa [FixedBytes.toBytes_length] at htwo
  unfold parseSha
  rw [if_neg (not_not_intro hsize), hexEncode, String.toList_ofList, hdecode]
  exact dif_pos sha.toBytes_length

/-- The machine comes up with the directory that programs saw; of a file that was never
synced nothing is left. -/
def unsyncedLost (fs : Fs String UInt8) : Fs String UInt8 :=
  { fs with
    earlier := []
    data := fun i => if fs.synced i then fs.data i else []
    synced := fun _ => true }

theorem reboots_unsyncedLost (fs : Fs String UInt8) : fs.Reboots (unsyncedLost fs) where
  read n := by
    refine ⟨fs.names, List.mem_cons_self, ?_⟩
    cases hn : fs.names n with
    | none => exact .inl ⟨rfl, by simp [Fs.read, unsyncedLost, hn]⟩
    | some i =>
        refine .inr ⟨i, if fs.synced i then fs.data i else [], rfl, ?_, fun hon => if_pos hon⟩
        simp [Fs.read, unsyncedLost, hn]
  clean := rfl
  synced _ := rfl

/-- A run without a loss of power is possible. -/
theorem along_of_powered {checks : Bool} {env : RoundEnv} {maxBytes : Nat}
    {events : List UploadEvent} (h : ∀ event ∈ events, ∀ fs, event ≠ .reboot fs) (w : Uploads) :
    (machine checks env maxBytes).Along Possible w events := by
  induction events generalizing w with
  | nil => trivial
  | cons event rest ih =>
      refine ⟨?_, ih (fun e he => h e (List.mem_cons_of_mem _ he)) _⟩
      cases event with
      | reboot fs => exact absurd rfl (h _ List.mem_cons_self fs)
      | _ => trivial

/-- A run that ends with a loss of power. -/
theorem along_unsyncedLost {checks : Bool} {env : RoundEnv} {maxBytes : Nat}
    {events : List UploadEvent} {last : UploadEvent} {w : Uploads}
    (h : (machine checks env maxBytes).Along Possible w (events ++ [last])) :
    (machine checks env maxBytes).Along Possible w (events ++ last ::
      [.reboot (unsyncedLost ((machine checks env maxBytes).run w (events ++ [last])).fs)]) := by
  rw [List.append_cons]
  exact Machine.along_append.mpr ⟨h, reboots_unsyncedLost _, trivial⟩

/-- The address that every signature recovers to. -/
def signer : H160 := addressOfPoint Tree.residueHashes (List.replicate 65 4)

def openEnv : RoundEnv where
  hashes := Tree.residueHashes
  payloadOfJson := fun _ => some (.new Tree.residueHashes trioConfig 0)
  resultOfStr := fun _ => none
  recoverPoint := fun _ _ _ => some (List.replicate 65 4)
  read := fun _ => none

/-- The job `a`, leased to the signer until 10. -/
def leasedJob : JobRecord where
  spec := ⟨"a", .federated, .null, 10, 1⟩
  status := .leased signer 10 10
  attempts := 1
  failedBy := ∅
  result := none
  failedBySources := ∅
  heldUntil := 0
  persistedExpiry := 0

def leasedState : State :=
  { State.empty Policy.default with jobs := (∅ : BTreeMap JobId JobRecord).insert "a" leasedJob }

/-- A delta of the signer's for the round. -/
def deltaOf (values : List Int64) : Artifact :=
  { twoChunks with
    roundId := trioConfig.roundId Tree.residueHashes 0
    worker := signer
    startAdapterSha256 := trioConfig.startAdapterSha256
    values := values }

def shaOf (values : List Int64) : B32 := Tree.residueHashes.sha256 (deltaOf values).encode

def requestOf (values : List Int64) : UploadRequest where
  shaHex := hexEncode (shaOf values).toBytes
  job := "a"
  signature := some (hexEncode (List.replicate 65 0))

def uploadOf (values : List Int64) : Upload where
  sha := shaOf values
  job := "a"
  who := signer
  payload := .new openEnv.hashes trioConfig 0
  cap := min (roundCap trioConfig.maxValues) 1000

theorem uploadOf_sha (values : List Int64) : (uploadOf values).sha = shaOf values := rfl

/-- One upload up to its rename, and a second one that has sent half of its body. -/
def twoUploads : List UploadEvent :=
  [.request 0 7 leasedState 0 (requestOf [1, -1]), .start 0, .chunk 0 (deltaOf [1, -1]).encode,
    .finish 0, .verify 0, .request 1 7 leasedState 0 (requestOf [2, -2]), .start 1, .rename 0,
    .chunk 1 ((deltaOf [2, -2]).encode.take 90)]

/-- The directory with one other file, after these events. -/
abbrev after (events : List UploadEvent) : Uploads :=
  (machine true openEnv 1000).run (.boot (.single "notes" [])) events

/-- The first upload is answered, and then power is lost. -/
def answeredRun : List UploadEvent :=
  twoUploads ++ .sync 0 :: [.reboot (unsyncedLost (after (twoUploads ++ [.sync 0])).fs)]

/-- Before the answer both uploads are in flight, the second one in the middle of its body. -/
theorem twoUploads_tasks : (after twoUploads).tasks 0 = some ⟨7, uploadOf [1, -1], .stored⟩ ∧
    (after twoUploads).tasks 1 = some ⟨7, uploadOf [2, -2],
      .streaming (partialPath (shaOf [2, -2]) 7 1) ((deltaOf [2, -2]).encode.take 90)⟩ := by
  decide +kernel

/-- With a second upload in the middle of its body the first one is answered, and power is
lost.  There still is a file under the address of the first delta, and it is the delta of a
request of the run. -/
theorem delta_store_sound_stored :
    (after twoUploads).tasks 1 = some ⟨7, uploadOf [2, -2],
      .streaming (partialPath (shaOf [2, -2]) 7 1) ((deltaOf [2, -2]).encode.take 90)⟩ ∧
    ∀ contents, (after answeredRun).fs.MayRead (deltaFile (shaOf [1, -1])) contents →
      ∃ bytes, contents = some bytes ∧
        ∃ id pid s now req u, .request id pid s now req ∈ answeredRun ∧
          authorise openEnv 1000 s now req = .ok u ∧ u.sha = shaOf [1, -1] ∧
          Delivers openEnv u bytes := by
  have hpowered : ∀ event ∈ twoUploads ++ [.sync 0], ∀ fs, event ≠ .reboot fs := by
    simp [twoUploads]
  have hpossible : (machine true openEnv 1000).Along Possible (.boot (.single "notes" []))
      answeredRun := along_unsyncedLost (along_of_powered hpowered _)
  have hsound := delta_store_sound true openEnv 1000 (Fs.single "notes" []) rfl (fun _ => rfl)
    answeredRun hpossible
  refine ⟨twoUploads_tasks.2, fun contents hread => ?_⟩
  have hsplit : answeredRun = twoUploads ++ .sync 0 ::
    [.reboot (unsyncedLost (after (twoUploads ++ [.sync 0])).fs)] := rfl
  have htask := twoUploads_tasks.1
  unfold after at htask
  have hkept := hsound.2.2 twoUploads _ 0 _ hsplit htask rfl contents
  rw [uploadOf_sha] at hkept
  obtain ⟨bytes, rfl⟩ := Option.ne_none_iff_exists'.mp (hkept hread)
  refine ⟨bytes, rfl, ?_⟩
  rcases hsound.1 _ bytes hread with hold | hnew
  · -- before the run there was nothing under this address
    have hnone : (Fs.single "notes" ([] : List UInt8)).names (deltaFile (shaOf [1, -1])) = none := by
      decide +kernel
    rw [Fs.read, hnone] at hold
    cases hold
  · exact hnew

end Uploads
end Coordinator
end ComputePool
