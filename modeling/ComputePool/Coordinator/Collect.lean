import ComputePool.Coordinator.State
import ComputePool.Federated.Delta

/-!
# Collecting a round's contributions

`collect` of `fl_round.rs`: every finished job of a round is verified from first
principles and becomes its worker's contribution, or is excluded with a reason.
Jobs are visited in the order of their ids; of one worker's acceptable jobs the
first one visited contributes.
-/

namespace ComputePool
namespace Coordinator

open RustStd Federated

/-- What the aggregator takes from outside besides the hashes: the derived
deserialiser of a result, public-key recovery, and the delta store, by file name. -/
structure RoundEnv extends Env where
  resultOfStr : String → Option LoraDeltaResult
  /-- `VerifyingKey::recover_from_prehash` with its argument checks: the digest,
  `r ‖ s` and the recovery id give the uncompressed point. -/
  recoverPoint : B32 → List UInt8 → UInt8 → Option (List UInt8)
  /-- `std::fs::read` of a file in the delta store. -/
  read : String → Option (List UInt8)

/-- The address of an uncompressed public key. -/
def addressOfPoint (H : Hashes) (point : List UInt8) : H160 :=
  ⟨(H.keccak256 (point.drop 1)).toBytes.drop 12, by
    rw [List.length_drop, FixedBytes.toBytes_length]⟩

/-- `Wallet::recover_address`. -/
def RoundEnv.recoverAddress (env : RoundEnv) (digest : B32) (sig65 : List UInt8) : Option H160 :=
  if sig65.length ≠ 65 then none
  else (env.recoverPoint digest (sig65.take 64) (sig65.getD 64 0)).map (addressOfPoint env.hashes)

/-- One verified contribution. -/
structure Contribution where
  job : JobId
  result : LoraDeltaResult
  artifact : Artifact
  deriving DecidableEq

/-- The text of an exclusion; the texts of the errors it quotes are not modelled. -/
inductive Reason where
  | text (message : String)
  /-- "result is not a lora_delta result: …". -/
  | notResult
  /-- "artifact … unavailable: …". -/
  | unavailable (name : String)
  /-- "artifact: …". -/
  | artifact (e : DeltaError)
  deriving DecidableEq

/-- Why a submitted result was left out of the round. -/
structure Exclusion where
  job : JobId
  reason : Reason
  deriving DecidableEq

/-- A job is passed over silently, or left out with a reason. -/
inductive Skip where
  | silent
  | excluded (reason : Reason)
  deriving DecidableEq

def out {α : Type} (message : String) : Checked Skip α := .error (.err (.excluded (.text message)))

/-- The file of an artifact in the delta store. -/
def deltaFile (sha : B32) : String := hexEncode sha.toBytes ++ ".fld"

section Judge

variable (overflowChecks : Bool) (env : RoundEnv) (cfg : RoundConfig) (ordinal : UInt64)
  (start : Adapter)

/-- The header of an artifact does not match the round. -/
def headerMismatch (r : LoraDeltaResult) (art : Artifact) : Prop :=
  art.roundId ≠ cfg.roundId env.hashes ordinal ∨
    art.worker ≠ r.worker ∨
    art.startAdapterSha256 ≠ cfg.startAdapterSha256 ∨
    art.manifestHash ≠ Delta.manifestHash env.hashes start ∨
    art.chunkDim ≠ cfg.chunkDim ∨
    art.valueScaleLog2 ≠ cfg.valueScaleLog2 ∨
    art.values.length ≠ Delta.valueCount start ∨
    r.nValues.toNat ≠ Delta.valueCount start ∨
    r.chunkDim ≠ cfg.chunkDim

instance (r : LoraDeltaResult) (art : Artifact) :
    Decidable (headerMismatch env cfg ordinal start r art) := by
  unfold headerMismatch
  infer_instance

/-- The checks of the artifact a result names. -/
def judgeArtifact (id : JobId) (r : LoraDeltaResult) : Checked Skip Contribution := do
  let bytes ← checked (okOr (env.read (deltaFile r.deltaSha256))
    (.excluded (.unavailable (deltaFile r.deltaSha256))))
  if env.hashes.sha256 bytes ≠ r.deltaSha256 then
    out "the stored artifact does not hash to the signed value"
  else do
    let art ← mapStop (fun e => .excluded (.artifact e))
      (Artifact.decode overflowChecks bytes cfg.maxValues)
    if headerMismatch env cfg ordinal start r art then
      out "the artifact header does not match the round"
    else if deltaRoot env.hashes art.values cfg.chunkDim ≠ .ok r.deltaRoot then
      out "the artifact does not re-derive the signed delta root"
    else .ok ⟨id, r, art⟩

/-- The checks of a result. -/
def judgeResult (id : JobId) (submitter : H160) (r : LoraDeltaResult) :
    Checked Skip Contribution :=
  if r.worker ≠ submitter then out "the result names a worker other than its submitter"
  else if r.roundId ≠ cfg.roundId env.hashes ordinal then out "the result is for another round"
  else if ¬ cfg.inRoster r.worker then out "the worker is not on the roster"
  else do
    let sig ← checked (okOr (hexDecode (trimStart0x r.signature.toList))
      (.excluded (.text "the delta signature is not hex")))
    if env.recoverAddress (r.digest env.hashes) sig ≠ some r.worker then
      out "the delta signature does not recover to the worker"
    else judgeArtifact overflowChecks env cfg ordinal start id r

/-- The body of the loop, up to the check for a second contribution. -/
def judge (id : JobId) (job : JobRecord) : Checked Skip Contribution := do
  let p ← checked (okOr (env.payloadOfJson job.spec.payload) .silent)
  if p.roundId ≠ cfg.roundId env.hashes ordinal then .error (.err .silent)
  else if p.config ≠ cfg then out "the job's round config differs from the round's"
  else
    match job.status with
    | .done worker _ => do
        let raw ← checked (okOr job.result (.excluded (.text "done without a result")))
        let r ← checked (okOr (env.resultOfStr raw) (.excluded .notResult))
        judgeResult overflowChecks env cfg ordinal start id worker r
    | _ => .error (.err .silent)

/-- The contributions by worker, and the exclusions. -/
structure Collected where
  byWorker : BTreeMap Addr Contribution
  excluded : List Exclusion

def Collected.empty : Collected := ⟨∅, []⟩

/-- The loop's body. -/
def collectStep (acc : Collected) (entry : JobId × JobRecord) : Checked Empty Collected :=
  match judge overflowChecks env cfg ordinal start entry.1 entry.2 with
  | .error .panic => .error .panic
  | .error (.err .silent) => .ok acc
  | .error (.err (.excluded reason)) =>
      .ok { acc with excluded := acc.excluded ++ [⟨entry.1, reason⟩] }
  | .ok c =>
      if c.result.worker ∈ acc.byWorker then
        .ok
          { acc with
            excluded := acc.excluded ++
              [⟨entry.1, .text "a second contribution from the same worker"⟩] }
      else .ok { acc with byWorker := acc.byWorker.insert c.result.worker c }

/-- The loop over the jobs. -/
def collectLoop (jobs : List (JobId × JobRecord)) : Checked Empty Collected :=
  jobs.foldlM (collectStep overflowChecks env cfg ordinal start) .empty

/-- Collect and verify the round's contributions from coordinator state and the
delta store. -/
def collect (s : State) : Checked Empty (List Contribution × List Exclusion) := do
  let acc ← collectLoop overflowChecks env cfg ordinal start s.jobs.toList
  .ok (acc.byWorker.toList.map Prod.snd, acc.excluded)

end Judge

/-! ## What an acceptable job is -/

/-- The artifact's header agrees with the round, and so do the counts signed. -/
structure HeaderAgrees (env : RoundEnv) (cfg : RoundConfig) (ordinal : UInt64) (start : Adapter)
    (r : LoraDeltaResult) (art : Artifact) : Prop where
  roundId : art.roundId = cfg.roundId env.hashes ordinal
  worker : art.worker = r.worker
  startAdapter : art.startAdapterSha256 = cfg.startAdapterSha256
  manifest : art.manifestHash = Delta.manifestHash env.hashes start
  chunkDim : art.chunkDim = cfg.chunkDim
  scale : art.valueScaleLog2 = cfg.valueScaleLog2
  values : art.values.length = Delta.valueCount start
  nValues : r.nValues.toNat = Delta.valueCount start
  signedChunkDim : r.chunkDim = cfg.chunkDim

/-- A finished job of the round whose result and artifact stand up to every check,
and the contribution it makes. -/
structure Acceptable (env : RoundEnv) (cfg : RoundConfig) (ordinal : UInt64) (start : Adapter)
    (id : JobId) (job : JobRecord) (c : Contribution) : Prop where
  payload : ∃ p, env.payloadOfJson job.spec.payload = some p ∧
    p.roundId = cfg.roundId env.hashes ordinal ∧ p.config = cfg
  submitter : ∃ at_, job.status = .done c.result.worker at_
  result : ∃ raw, job.result = some raw ∧ env.resultOfStr raw = some c.result
  id_eq : c.job = id
  round : c.result.roundId = cfg.roundId env.hashes ordinal
  roster : cfg.inRoster c.result.worker = true
  signature : ∃ sig, hexDecode (trimStart0x c.result.signature.toList) = some sig ∧
    env.recoverAddress (c.result.digest env.hashes) sig = some c.result.worker
  artifact : ∃ bytes, env.read (deltaFile c.result.deltaSha256) = some bytes ∧
    env.hashes.sha256 bytes = c.result.deltaSha256 ∧
    Artifact.decode false bytes cfg.maxValues = .ok c.artifact
  header : HeaderAgrees env cfg ordinal start c.result c.artifact
  root : deltaRoot env.hashes c.artifact.values cfg.chunkDim = .ok c.result.deltaRoot

section Partition

variable {checks : Bool} {env : RoundEnv} {cfg : RoundConfig} {ordinal : UInt64} {start : Adapter}

theorem not_headerMismatch {r : LoraDeltaResult} {art : Artifact} :
    ¬ headerMismatch env cfg ordinal start r art ↔
      HeaderAgrees env cfg ordinal start r art := by
  simp only [headerMismatch, not_or, not_not]
  constructor
  · rintro ⟨h1, h2, h3, h4, h5, h6, h7, h8, h9⟩
    exact ⟨h1, h2, h3, h4, h5, h6, h7, h8, h9⟩
  · rintro ⟨h1, h2, h3, h4, h5, h6, h7, h8, h9⟩
    exact ⟨h1, h2, h3, h4, h5, h6, h7, h8, h9⟩

theorem out_check {α : Type} {p : Prop} [Decidable p] {message : String} {next : Checked Skip α}
    {a : α} : (if p then out message else next) = .ok a ↔ ¬ p ∧ next = .ok a :=
  check_eq_ok

/-- `None` returned as an error: success means something was there. -/
theorem ask_eq_ok {α β : Type} {o : Option α} {e : Skip} {next : α → Checked Skip β} {b : β} :
    (checked (okOr o e) >>= next) = .ok b ↔ ∃ a, o = some a ∧ next a = .ok b := by
  simp only [bind_eq_ok, checked_eq_ok, okOr_eq_ok]

theorem judgeArtifact_eq_ok {id : JobId} {r : LoraDeltaResult} {c : Contribution} :
    judgeArtifact checks env cfg ordinal start id r = .ok c ↔
      c.job = id ∧ c.result = r ∧
      (∃ bytes, env.read (deltaFile r.deltaSha256) = some bytes ∧
        env.hashes.sha256 bytes = r.deltaSha256 ∧
        Artifact.decode false bytes cfg.maxValues = .ok c.artifact) ∧
      HeaderAgrees env cfg ordinal start r c.artifact ∧
      deltaRoot env.hashes c.artifact.values cfg.chunkDim = .ok r.deltaRoot := by
  unfold judgeArtifact
  rw [ask_eq_ok]
  constructor
  · rintro ⟨bytes, hbytes, h⟩
    obtain ⟨hsha, h⟩ := out_check.mp h
    obtain ⟨art, hart, h⟩ := bind_eq_ok.mp h
    obtain ⟨hheader, h⟩ := out_check.mp h
    obtain ⟨hroot, h⟩ := out_check.mp h
    cases h
    exact ⟨rfl, rfl, ⟨bytes, hbytes, not_not.mp hsha,
      Artifact.decode_eq_ok.mp (mapStop_eq_ok.mp hart)⟩, not_headerMismatch.mp hheader,
      not_not.mp hroot⟩
  · obtain ⟨job, result, artifact⟩ := c
    rintro ⟨rfl, rfl, ⟨bytes, hbytes, hsha, hart⟩, hheader, hroot⟩
    refine ⟨bytes, hbytes, ?_⟩
    rw [if_neg (not_not_intro hsha),
      bind_of_ok (mapStop_eq_ok.mpr (Artifact.decode_eq_ok.mpr hart)),
      if_neg (not_headerMismatch.mpr hheader), if_neg (not_not_intro hroot)]

theorem judgeResult_eq_ok {id : JobId} {submitter : H160} {r : LoraDeltaResult}
    {c : Contribution} :
    judgeResult checks env cfg ordinal start id submitter r = .ok c ↔
      r.worker = submitter ∧ r.roundId = cfg.roundId env.hashes ordinal ∧
      cfg.inRoster r.worker = true ∧
      (∃ sig, hexDecode (trimStart0x r.signature.toList) = some sig ∧
        env.recoverAddress (r.digest env.hashes) sig = some r.worker) ∧
      judgeArtifact checks env cfg ordinal start id r = .ok c := by
  unfold judgeResult
  simp only [out_check, ask_eq_ok, not_not]
  constructor
  · rintro ⟨h1, h2, h3, sig, h4, h5, h6⟩
    exact ⟨h1, h2, h3, ⟨sig, h4, h5⟩, h6⟩
  · rintro ⟨h1, h2, h3, ⟨sig, h4, h5⟩, h6⟩
    exact ⟨h1, h2, h3, sig, h4, h5, h6⟩

/-- The loop's checks accept a job exactly when it is acceptable. -/
theorem judge_eq_ok {id : JobId} {job : JobRecord} {c : Contribution} :
    judge checks env cfg ordinal start id job = .ok c ↔
      Acceptable env cfg ordinal start id job c := by
  unfold judge
  rw [ask_eq_ok]
  constructor
  · rintro ⟨p, hp, h⟩
    obtain ⟨hround, h⟩ := check_eq_ok.mp h
    obtain ⟨hconfig, h⟩ := out_check.mp h
    split at h
    · rename_i worker at_ hstatus
      obtain ⟨raw, hraw, h⟩ := ask_eq_ok.mp h
      obtain ⟨r, hr, h⟩ := ask_eq_ok.mp h
      obtain ⟨hworker, hresult, hroster, hsig, h⟩ := judgeResult_eq_ok.mp h
      obtain ⟨hid, rfl, hart, hheader, hroot⟩ := judgeArtifact_eq_ok.mp h
      exact
        { payload := ⟨p, hp, not_not.mp hround, not_not.mp hconfig⟩
          submitter := ⟨at_, hworker ▸ hstatus⟩
          result := ⟨raw, hraw, hr⟩
          id_eq := hid
          round := hresult
          roster := hroster
          signature := hsig
          artifact := hart
          header := hheader
          root := hroot }
    · cases h
  · intro h
    obtain ⟨p, hp, hround, hconfig⟩ := h.payload
    obtain ⟨at_, hstatus⟩ := h.submitter
    obtain ⟨raw, hraw, hr⟩ := h.result
    refine ⟨p, hp, ?_⟩
    rw [if_neg (not_not_intro hround), if_neg (not_not_intro hconfig), hstatus]
    refine ask_eq_ok.mpr ⟨raw, hraw, ask_eq_ok.mpr ⟨c.result, hr, ?_⟩⟩
    exact judgeResult_eq_ok.mpr ⟨rfl, h.round, h.roster, h.signature,
      judgeArtifact_eq_ok.mpr ⟨h.id_eq, rfl, h.artifact, h.header, h.root⟩⟩

/-- A finished job whose payload names the round. -/
def FinishedInRound (env : RoundEnv) (cfg : RoundConfig) (ordinal : UInt64) (job : JobRecord) :
    Prop :=
  (∃ p, env.payloadOfJson job.spec.payload = some p ∧
    p.roundId = cfg.roundId env.hashes ordinal) ∧
  ∃ worker at_, job.status = .done worker at_

theorem loud_check {α : Type} {p : Prop} [Decidable p] {message : String} {next : Checked Skip α}
    (h : next ≠ .error (.err .silent)) :
    (if p then out message else next) ≠ .error (.err .silent) := by
  by_cases hp : p
  · rw [if_pos hp]
    nofun
  · rwa [if_neg hp]

theorem loud_ask {α β : Type} {o : Option α} {reason : Reason} {next : α → Checked Skip β}
    (h : ∀ a, next a ≠ .error (.err .silent)) :
    (checked (okOr o (.excluded reason)) >>= next) ≠ .error (.err .silent) := by
  cases o with
  | none => nofun
  | some a => exact h a

theorem judgeArtifact_loud {id : JobId} {r : LoraDeltaResult} :
    judgeArtifact checks env cfg ordinal start id r ≠ .error (.err .silent) := by
  refine loud_ask fun bytes => loud_check ?_
  rcases Artifact.decode checks bytes cfg.maxValues with (_ | e) | art
  · nofun
  · nofun
  · exact loud_check (loud_check nofun)

theorem judgeResult_loud {id : JobId} {submitter : H160} {r : LoraDeltaResult} :
    judgeResult checks env cfg ordinal start id submitter r ≠ .error (.err .silent) :=
  loud_check (loud_check (loud_check (loud_ask fun _ => loud_check judgeArtifact_loud)))

/-- Nothing finished in the round is passed over silently. -/
theorem judge_not_silent {id : JobId} {job : JobRecord}
    (h : FinishedInRound env cfg ordinal job) :
    judge checks env cfg ordinal start id job ≠ .error (.err .silent) := by
  obtain ⟨⟨p, hp, hround⟩, worker, at_, hstatus⟩ := h
  rw [judge, hp, checked_okOr_some, bind_of_ok rfl, if_neg (not_not_intro hround), hstatus]
  exact loud_check (loud_ask fun raw => loud_ask fun r => judgeResult_loud)

/-- Without overflow checks no job stops the loop. -/
theorem returns_judge (id : JobId) (job : JobRecord) :
    Returns (judge false env cfg ordinal start id job) := by
  have hout : ∀ {α : Type} (message : String), Returns (out message : Checked Skip α) :=
    fun _ => returns_error _
  have hartifact : ∀ r, Returns (judgeArtifact false env cfg ordinal start id r) := by
    intro r
    refine Returns.bind (returns_checked _) fun bytes _ => returns_ite (fun _ => hout _) fun _ => ?_
    refine Returns.bind (returns_mapStop.mpr ?_) fun art _ => ?_
    · exact (Artifact.decode_returns_iff _ _ _).mpr fun h => absurd h Bool.false_ne_true
    · refine returns_ite (fun _ => hout _) fun _ => ?_
      exact returns_ite (fun _ => hout _) fun _ => returns_ok _
  have hresult : ∀ submitter r,
      Returns (judgeResult false env cfg ordinal start id submitter r) := by
    intro submitter r
    refine returns_ite (fun _ => hout _) fun _ => returns_ite (fun _ => hout _) fun _ => ?_
    refine returns_ite (fun _ => hout _) fun _ => Returns.bind (returns_checked _) fun sig _ => ?_
    exact returns_ite (fun _ => hout _) fun _ => hartifact r
  refine Returns.bind (returns_checked _) fun p _ => returns_ite (fun _ => returns_error _) fun _ => ?_
  refine returns_ite (fun _ => hout _) fun _ => ?_
  split
  · refine Returns.bind (returns_checked _) fun raw _ => ?_
    exact Returns.bind (returns_checked _) fun r _ => hresult _ r
  · exact returns_error _

/-! ## The loop -/

/-- The contribution a visited job makes for worker `w`, if it is acceptable. -/
def offers (env : RoundEnv) (cfg : RoundConfig) (ordinal : UInt64) (start : Adapter) (w : Addr)
    (entry : JobId × JobRecord) : Option Contribution :=
  match judge false env cfg ordinal start entry.1 entry.2 with
  | .ok c => if c.result.worker = w then some c else none
  | .error _ => none

theorem offers_eq_some {w : Addr} {entry : JobId × JobRecord} {c : Contribution} :
    offers env cfg ordinal start w entry = some c ↔
      judge false env cfg ordinal start entry.1 entry.2 = .ok c ∧ c.result.worker = w := by
  unfold offers
  cases hjudge : judge false env cfg ordinal start entry.1 entry.2 with
  | error skip => simp
  | ok d =>
      by_cases hw : d.result.worker = w
      · simp only [hw, if_true, Option.some.injEq, Except.ok.injEq]
        constructor
        · rintro rfl
          exact ⟨rfl, hw⟩
        · exact fun h => h.1
      · simp only [hw, if_false, Except.ok.injEq]
        constructor
        · nofun
        · rintro ⟨rfl, hsame⟩
          exact absurd hsame hw

/-- After the jobs in `done` have been visited. -/
structure Visited (env : RoundEnv) (cfg : RoundConfig) (ordinal : UInt64) (start : Adapter)
    (done : List (JobId × JobRecord)) (acc : Collected) : Prop where
  /-- Every worker has its first acceptable job. -/
  first : ∀ w, acc.byWorker[w]? = done.findSome? (offers env cfg ordinal start w)
  excluded_nodup : (acc.excluded.map Exclusion.job).Nodup
  excluded_done : ∀ x ∈ acc.excluded.map Exclusion.job, x ∈ done.map Prod.fst
  disjoint : ∀ (w : Addr) (c : Contribution), acc.byWorker[w]? = some c → c.job ∉ acc.excluded.map Exclusion.job
  placed : ∀ entry ∈ done, FinishedInRound env cfg ordinal entry.2 →
    (∃ (w : Addr) (c : Contribution), acc.byWorker[w]? = some c ∧ c.job = entry.1) ∨
      entry.1 ∈ acc.excluded.map Exclusion.job

theorem Visited.job_done {done : List (JobId × JobRecord)} {acc : Collected}
    (h : Visited env cfg ordinal start done acc) {w : Addr} {c : Contribution}
    (hc : acc.byWorker[w]? = some c) : c.job ∈ done.map Prod.fst := by
  rw [h.first] at hc
  obtain ⟨entry, hentry, hoffer⟩ := List.exists_of_findSome?_eq_some hc
  have hid := (judge_eq_ok.mp (offers_eq_some.mp hoffer).1).id_eq
  exact List.mem_map.mpr ⟨entry, hentry, hid.symm⟩

theorem visited_empty : Visited env cfg ordinal start [] .empty where
  first := fun w => by simp [Collected.empty]
  excluded_nodup := List.nodup_nil
  excluded_done := nofun
  disjoint := fun w c h => by simp [Collected.empty] at h
  placed := nofun

/-- A visit that excludes the job. -/
theorem visited_excluded {done : List (JobId × JobRecord)} {acc : Collected}
    {entry : JobId × JobRecord} {reason : Reason}
    (h : Visited env cfg ordinal start done acc) (hnew : entry.1 ∉ done.map Prod.fst)
    (hoffers : ∀ w, (done.findSome? (offers env cfg ordinal start w)).or
      (offers env cfg ordinal start w entry) = done.findSome? (offers env cfg ordinal start w)) :
    Visited env cfg ordinal start (done ++ [entry])
      { acc with excluded := acc.excluded ++ [⟨entry.1, reason⟩] } where
  first := by
    intro w
    rw [List.findSome?_append, List.findSome?_singleton, hoffers]
    exact h.first w
  excluded_nodup := by
    rw [List.map_append, List.nodup_append]
    refine ⟨h.excluded_nodup, List.nodup_singleton _, ?_⟩
    intro x hx y hy
    rw [List.map_singleton, List.mem_singleton] at hy
    subst hy
    rintro rfl
    exact hnew (h.excluded_done _ hx)
  excluded_done := by
    intro x hx
    rw [List.map_append, List.mem_append] at hx ⊢
    rcases hx with hx | hx
    · exact .inl (h.excluded_done x hx)
    · exact .inr hx
  disjoint := by
    intro w c hc hmem
    rw [List.map_append, List.mem_append] at hmem
    rcases hmem with hmem | hmem
    · exact h.disjoint w c hc hmem
    · rw [List.map_singleton, List.mem_singleton] at hmem
      have hsame : c.job = entry.1 := hmem
      exact hnew (hsame ▸ h.job_done hc)
  placed := by
    intro e he hloud
    rw [List.map_append, List.mem_append]
    rcases List.mem_append.mp he with he | he
    · rcases h.placed e he hloud with hin | hout
      · exact .inl hin
      · exact .inr (.inl hout)
    · rw [List.mem_singleton] at he
      subst he
      exact .inr (.inr List.mem_cons_self)

/-- Both builds accept the same jobs. -/
theorem judge_release {id : JobId} {job : JobRecord} {c : Contribution} :
    judge checks env cfg ordinal start id job = .ok c ↔
      judge false env cfg ordinal start id job = .ok c :=
  judge_eq_ok.trans judge_eq_ok.symm

theorem visited_step {done : List (JobId × JobRecord)} {acc acc' : Collected}
    {entry : JobId × JobRecord} (h : Visited env cfg ordinal start done acc)
    (hnew : entry.1 ∉ done.map Prod.fst)
    (hstep : collectStep checks env cfg ordinal start acc entry = .ok acc') :
    Visited env cfg ordinal start (done ++ [entry]) acc' := by
  unfold collectStep at hstep
  cases hjudge : judge checks env cfg ordinal start entry.1 entry.2 with
  | error stop =>
      have hnone : ∀ w, offers env cfg ordinal start w entry = none := by
        intro w
        rw [← Option.not_isSome_iff_eq_none, Option.isSome_iff_exists]
        rintro ⟨c, hc⟩
        rw [judge_release.mpr (offers_eq_some.mp hc).1] at hjudge
        cases hjudge
      rw [hjudge] at hstep
      rcases stop with _ | _ | reason
      · cases hstep
      · cases hstep
        refine ⟨fun w => ?_, h.excluded_nodup, fun x hx => ?_, h.disjoint, fun e he hfinished => ?_⟩
        · rw [List.findSome?_append, List.findSome?_singleton, hnone, Option.or_none]
          exact h.first w
        · rw [List.map_append, List.mem_append]
          exact .inl (h.excluded_done x hx)
        · rcases List.mem_append.mp he with he | he
          · exact h.placed e he hfinished
          · rw [List.mem_singleton] at he
            subst he
            exact absurd hjudge (judge_not_silent hfinished)
      · cases hstep
        refine visited_excluded h hnew fun w => ?_
        rw [hnone, Option.or_none]
  | ok c =>
      have hoffer : offers env cfg ordinal start c.result.worker entry = some c :=
        offers_eq_some.mpr ⟨judge_release.mp hjudge, rfl⟩
      have hother : ∀ w, c.result.worker ≠ w → offers env cfg ordinal start w entry = none := by
        intro w hw
        rw [offers, judge_release.mp hjudge]
        exact if_neg hw
      rw [hjudge] at hstep
      dsimp only at hstep
      by_cases hmem : c.result.worker ∈ acc.byWorker
      · rw [if_pos hmem] at hstep
        cases hstep
        obtain ⟨d, hd⟩ := mem_iff_get.mp hmem
        refine visited_excluded h hnew fun w => ?_
        by_cases hw : c.result.worker = w
        · subst hw
          rw [← h.first, hd, Option.some_or]
        · rw [hother w hw, Option.or_none]
      · rw [if_neg hmem] at hstep
        cases hstep
        have hnone : acc.byWorker[c.result.worker]? = none := by
          cases hget : acc.byWorker[c.result.worker]? with
          | none => rfl
          | some d => exact absurd (mem_iff_get.mpr ⟨d, hget⟩) hmem
        have hid : c.job = entry.1 := (judge_eq_ok.mp hjudge).id_eq
        refine ⟨fun w => ?_, h.excluded_nodup, fun x hx => ?_, fun w d hd => ?_,
          fun e he hfinished => ?_⟩
        · rw [List.findSome?_append, List.findSome?_singleton, get_insert]
          by_cases hw : c.result.worker = w
          · subst hw
            rw [if_pos rfl, ← h.first, hnone, Option.none_or, hoffer]
          · rw [if_neg hw, hother w hw, Option.or_none]
            exact h.first w
        · rw [List.map_append, List.mem_append]
          exact .inl (h.excluded_done x hx)
        · rw [get_insert] at hd
          split at hd
          · cases hd
            rw [hid]
            exact fun hout => hnew (h.excluded_done _ hout)
          · exact h.disjoint w d hd
        · rcases List.mem_append.mp he with he | he
          · rcases h.placed e he hfinished with ⟨w, d, hd, hjob⟩ | hout
            · refine .inl ⟨w, d, ?_, hjob⟩
              rw [get_insert, if_neg]
              · exact hd
              · rintro rfl
                rw [hnone] at hd
                cases hd
            · exact .inr hout
          · rw [List.mem_singleton] at he
            subst he
            exact .inl ⟨c.result.worker, c, by rw [get_insert, if_pos rfl], hid⟩

theorem collect_eq_ok {s : State} {contributions : List Contribution} {excluded : List Exclusion} :
    collect checks env cfg ordinal start s = .ok (contributions, excluded) ↔
      ∃ acc, collectLoop checks env cfg ordinal start s.jobs.toList = .ok acc ∧
        contributions = acc.byWorker.toList.map Prod.snd ∧ excluded = acc.excluded := by
  unfold collect
  rw [bind_eq_ok]
  constructor
  · rintro ⟨acc, hacc, h⟩
    cases h
    exact ⟨acc, hacc, rfl, rfl⟩
  · rintro ⟨acc, hacc, rfl, rfl⟩
    exact ⟨acc, hacc, rfl⟩

theorem visited_collect {s : State} {acc : Collected}
    (h : collectLoop checks env cfg ordinal start s.jobs.toList = .ok acc) :
    Visited env cfg ordinal start s.jobs.toList acc := by
  have hnodup := entries_keys_nodup s.jobs
  refine foldlM_ok_invariant
    (fun done acc => (done.map Prod.fst).Nodup → Visited env cfg ordinal start done acc)
    (fun done acc entry acc' hdone hstep hnodup => ?_) (fun _ => visited_empty) h hnodup
  rw [List.map_append, List.nodup_append] at hnodup
  refine visited_step (hdone hnodup.1) (fun hmem => ?_) hstep
  exact hnodup.2.2 _ hmem _ List.mem_cons_self rfl

/-- A contribution is kept under its own worker. -/
theorem Visited.worker_eq {done : List (JobId × JobRecord)} {acc : Collected}
    (h : Visited env cfg ordinal start done acc) {w : Addr} {c : Contribution}
    (hc : acc.byWorker[w]? = some c) : c.result.worker = w := by
  rw [h.first] at hc
  obtain ⟨entry, -, hoffer⟩ := List.exists_of_findSome?_eq_some hc
  exact (offers_eq_some.mp hoffer).2

theorem mem_contributions {s : State} {contributions : List Contribution}
    {excluded : List Exclusion} {c : Contribution}
    (h : collect checks env cfg ordinal start s = .ok (contributions, excluded)) :
    c ∈ contributions ↔
      s.jobs.toList.findSome? (offers env cfg ordinal start c.result.worker) = some c := by
  obtain ⟨acc, hacc, rfl, -⟩ := collect_eq_ok.mp h
  have hvisited := visited_collect hacc
  rw [← hvisited.first]
  constructor
  · intro hc
    obtain ⟨⟨w, d⟩, hentry, rfl⟩ := List.mem_map.mp hc
    have hget := mem_entries.mp hentry
    rwa [hvisited.worker_eq hget]
  · intro hget
    exact List.mem_map.mpr ⟨(c.result.worker, c), mem_entries.mpr hget, rfl⟩

/-- The first job to offer something for a worker is the acceptable one with the
smallest id. -/
theorem findSome_offers_iff {s : State} {c : Contribution} :
    s.jobs.toList.findSome? (offers env cfg ordinal start c.result.worker) = some c ↔
      ∃ job, s.jobs[c.job]? = some job ∧ Acceptable env cfg ordinal start c.job job c ∧
        ∀ id' job' c', s.jobs[id']? = some job' →
          Acceptable env cfg ordinal start id' job' c' →
          c'.result.worker = c.result.worker → c.job ≤ id' := by
  have hsorted := entries_ascending s.jobs
  rw [List.findSome?_eq_some_iff]
  constructor
  · rintro ⟨before, ⟨id, job⟩, after, hsplit, hoffer, hnone⟩
    have hacceptable := judge_eq_ok.mp (offers_eq_some.mp hoffer).1
    have hid : c.job = id := hacceptable.id_eq
    subst hid
    refine ⟨job, mem_entries.mp (by rw [hsplit]; simp), hacceptable, ?_⟩
    intro id' job' c' hjob' hacceptable' hworker
    have hmem := mem_entries.mpr hjob'
    have hoffer' : offers env cfg ordinal start c.result.worker (id', job') = some c' :=
      offers_eq_some.mpr ⟨judge_eq_ok.mpr hacceptable', hworker⟩
    rw [hsplit] at hmem hsorted
    rcases List.mem_append.mp hmem with hbefore | hafter
    · rw [hnone _ hbefore] at hoffer'
      cases hoffer'
    · rcases List.mem_cons.mp hafter with hsame | hafter
      · exact (congrArg Prod.fst hsame).ge
      · have hlater := (List.pairwise_cons.mp (List.pairwise_append.mp hsorted).2.1).1
        exact (hlater _ hafter).le
  · rintro ⟨job, hjob, hacceptable, hleast⟩
    obtain ⟨before, after, hsplit⟩ := List.append_of_mem (mem_entries.mpr hjob)
    refine ⟨before, (c.job, job), after, hsplit,
      offers_eq_some.mpr ⟨judge_eq_ok.mpr hacceptable, rfl⟩, ?_⟩
    intro entry hentry
    cases hoffer : offers env cfg ordinal start c.result.worker entry with
    | none => rfl
    | some d =>
        obtain ⟨hjudge, hworker⟩ := offers_eq_some.mp hoffer
        have hget : s.jobs[entry.1]? = some entry.2 :=
          mem_entries.mp (by rw [hsplit]; exact List.mem_append_left _ hentry)
        have hle := hleast entry.1 entry.2 d hget (judge_eq_ok.mp hjudge) hworker
        rw [hsplit] at hsorted
        have hlt := (List.pairwise_append.mp hsorted).2.2 entry hentry _ List.mem_cons_self
        exact absurd hlt (not_lt.mpr hle)

/-- Without overflow checks the jobs are always collected. -/
theorem collect_returns (env : RoundEnv) (cfg : RoundConfig) (ordinal : UInt64)
    (start : Adapter) (s : State) : ∃ r, collect false env cfg ordinal start s = .ok r := by
  have hstep : ∀ acc entry, Returns (collectStep false env cfg ordinal start acc entry) := by
    intro acc entry
    have hreturns := @returns_judge env cfg ordinal start entry.1 entry.2
    unfold collectStep
    split
    · rename_i hpanic
      exact absurd hpanic hreturns
    · exact returns_ok _
    · exact returns_ok _
    · exact returns_ite (fun _ => returns_ok _) fun _ => returns_ok _
  have ⟨acc, hacc⟩ := foldlM_ok hstep s.jobs.toList .empty
  exact ⟨_, bind_of_ok hacc⟩

/-- `collect` is a partition.  No job is placed twice, and every finished job of the
round is placed; the contributions ascend by worker; a contribution is exactly the
acceptable job with the smallest id among those of its worker, and its worker is on
the roster.  It always returns without overflow checks; with them it places the jobs
in the same way, if no delta stops it. -/
theorem collect_partition (env : RoundEnv) (cfg : RoundConfig) (ordinal : UInt64)
    (start : Adapter) (s : State) :
    (∃ r, collect false env cfg ordinal start s = .ok r) ∧
    ∀ overflowChecks contributions excluded,
      collect overflowChecks env cfg ordinal start s = .ok (contributions, excluded) →
      (contributions.map Contribution.job ++ excluded.map Exclusion.job).Nodup ∧
      (∀ id job, s.jobs[id]? = some job → FinishedInRound env cfg ordinal job →
        id ∈ contributions.map Contribution.job ++ excluded.map Exclusion.job) ∧
      contributions.Pairwise (fun a b => a.result.worker < b.result.worker) ∧
      (∀ c, c ∈ contributions ↔
        ∃ job, s.jobs[c.job]? = some job ∧ Acceptable env cfg ordinal start c.job job c ∧
          ∀ id' job' c', s.jobs[id']? = some job' →
            Acceptable env cfg ordinal start id' job' c' →
            c'.result.worker = c.result.worker → c.job ≤ id') ∧
      ∀ c ∈ contributions, c.result.worker ∈ cfg.roster := by
  refine ⟨collect_returns env cfg ordinal start s, ?_⟩
  intro overflowChecks contributions excluded h
  have hchosen : ∀ c, c ∈ contributions ↔ _ := fun c =>
    (mem_contributions h).trans findSome_offers_iff
  have hget : ∀ c, c ∈ contributions ↔ _ := fun c => mem_contributions h
  obtain ⟨acc, hacc, hcontributions, rfl⟩ := collect_eq_ok.mp h
  have hvisited := visited_collect hacc
  have hworkers : contributions.Pairwise (fun a b => a.result.worker < b.result.worker) := by
    rw [hcontributions, List.pairwise_map]
    refine (entries_ascending _).imp_of_mem ?_
    intro a b ha hb hlt
    rwa [hvisited.worker_eq (mem_entries.mp ha), hvisited.worker_eq (mem_entries.mp hb)]
  refine ⟨?_, ?_, hworkers, hchosen, ?_⟩
  · rw [List.nodup_append]
    refine ⟨?_, hvisited.excluded_nodup, ?_⟩
    · -- two contributions from one job would be one
      rw [List.Nodup, List.pairwise_map]
      refine hworkers.imp_of_mem ?_
      intro a b ha hb hlt hsame
      obtain ⟨job, hjob, hacceptable, -⟩ := (hchosen a).mp ha
      obtain ⟨job', hjob', hacceptable', -⟩ := (hchosen b).mp hb
      rw [← hsame] at hjob' hacceptable'
      rw [hjob] at hjob'
      cases hjob'
      have hfirst : judge false env cfg ordinal start a.job job = .ok a :=
        judge_eq_ok.mpr hacceptable
      cases hfirst.symm.trans (judge_eq_ok.mpr hacceptable')
      exact lt_irrefl _ hlt
    · intro x hx y hy hsame
      obtain ⟨c, hc, rfl⟩ := List.mem_map.mp hx
      have hfound := (hget c).mp hc
      rw [← hvisited.first] at hfound
      exact hvisited.disjoint _ c hfound (hsame ▸ hy)
  · intro id job hjob hfinished
    rw [List.mem_append]
    rcases hvisited.placed (id, job) (mem_entries.mpr hjob) hfinished with ⟨w, c, hc, hid⟩ | hout
    · refine .inl (List.mem_map.mpr ⟨c, ?_, hid⟩)
      rw [hcontributions]
      exact List.mem_map.mpr ⟨(w, c), mem_entries.mpr hc, rfl⟩
    · exact .inr hout
  · intro c hc
    obtain ⟨job, -, hacceptable, -⟩ := (hchosen c).mp hc
    have hroster := hacceptable.roster
    rw [RoundConfig.inRoster, binarySearch, decide_eq_true_eq] at hroster
    exact List.mem_of_getElem? hroster

end Partition

end Coordinator
end ComputePool
