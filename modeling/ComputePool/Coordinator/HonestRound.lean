import ComputePool.Coordinator.UploadStore
import ComputePool.Federated.LoraRunner

/-!
# The delta of an honest device

What a device makes in a run that succeeds is let in at upload, and its result is counted
when the round is collected: the two crates agree on digests, counts, roots and headers.
-/

namespace ComputePool
namespace Coordinator

open RustStd Federated Gguf

/-- The request of `upload_fl_delta`. -/
def uploadFlDelta (env : Runner.RunEnv) (job : JobId) (sha : B32) : Option UploadRequest :=
  (env.sign (CoordinatorProtocol.flDeltaUploadDigest env.hashes.keccak256 job sha)).map fun sig =>
    { shaHex := hexEncode sha.toBytes
      job := job
      signature := some (hex0x sig) }

section Device

variable {env : Runner.RunEnv} {device : Runner.DeviceConfig} {trainer : Option Runner.LoraTrainer}
  {files after : Runner.Files} {job : Json} {p : Runner.Prepared} {out : Runner.LoraRunOutput}

/-- What is settled before the trainer starts. -/
structure Ready (env : Runner.RunEnv) (device : Runner.DeviceConfig) (files : Runner.Files)
    (job : Json) (p : Runner.Prepared) : Prop where
  payload : env.payloadOfJson job = some p.payload
  valid : p.payload.validate env.hashes = .ok ()
  roster : p.payload.config.inRoster env.me = true
  consent : Runner.consented env device files p.payload.roundId = .ok true
  unmarked : ¬ (files (device.marker p.payload.roundId)).isOk
  start : ∃ file, files (device.adapterPath p.payload.config.startAdapterSha256) = .ok file ∧
    env.hashes.sha256 file = p.payload.config.startAdapterSha256

theorem verifyFile_eq_ok {what path : String} {want : B32}
    (h : Runner.verifyFile env files what path want = .ok ()) :
    ∃ file, files path = .ok file ∧ env.hashes.sha256 file = want := by
  obtain ⟨file, hfile, h⟩ := bind_eq_ok.mp h
  exact ⟨file, mapError_eq_ok.mp hfile, not_not.mp (check_eq_ok.mp h).1⟩

theorem ready_of_prepare (h : Runner.prepare env device trainer files job = .ok p) :
    Ready env device files job p ∧ trainer = some p.trainer := by
  unfold Runner.prepare at h
  obtain ⟨payload, hpayload, h⟩ := bind_eq_ok.mp h
  obtain ⟨_, hvalid, h⟩ := bind_eq_ok.mp h
  obtain ⟨hroster, h⟩ := check_eq_ok.mp h
  obtain ⟨agreed, hconsent, h⟩ := bind_eq_ok.mp h
  obtain ⟨hagreed, h⟩ := check_eq_ok.mp h
  obtain ⟨hmarker, h⟩ := check_eq_ok.mp h
  obtain ⟨trainer', htrainer, h⟩ := bind_eq_ok.mp h
  obtain ⟨_, -, h⟩ := bind_eq_ok.mp h
  obtain ⟨_, hstart, h⟩ := bind_eq_ok.mp h
  obtain ⟨data, -, h⟩ := bind_eq_ok.mp h
  obtain ⟨-, h⟩ := check_eq_ok.mp h
  obtain ⟨examples, -, h⟩ := bind_eq_ok.mp h
  cases h
  have hagreed' : agreed = true := by simpa using hagreed
  subst hagreed'
  exact
    ⟨{ payload := okOr_eq_ok.mp hpayload
       valid := mapError_eq_ok.mp hvalid
       roster := by simpa using hroster
       consent := hconsent
       unmarked := hmarker
       start := verifyFile_eq_ok hstart }, okOr_eq_ok.mp htrainer⟩

/-- What was made of the start adapter and the trained one. -/
structure Concluded (env : Runner.RunEnv) (device : Runner.DeviceConfig) (p : Runner.Prepared)
    (after : Runner.Files) (out : Runner.LoraRunOutput) (start trained : Adapter)
    (values : List Int64) (trainedSha root : B32) (sig : List UInt8) : Prop where
  loaded : ∃ path file, after (device.adapterPath p.payload.config.startAdapterSha256) = .ok file ∧
    Adapter.load path file = .ok start
  computed : Delta.compute env.ops start trained p.payload.config.valueScaleLog2 = .ok values
  bounded : values.length ≤ p.payload.config.maxValues.toNat
  rooted : deltaRoot env.hashes values p.payload.config.chunkDim = .ok root
  artifact : out.artifact =
    (Runner.artifactOf env p (Delta.manifestHash env.hashes start) trainedSha values).encode
  sha : out.artifactSha256 = env.hashes.sha256 out.artifact
  signed : env.sign ((Runner.unsigned env p trainedSha root out.artifactSha256
    values.length).digest env.hashes) = some sig
  result : out.result =
    { Runner.unsigned env p trainedSha root out.artifactSha256 values.length with
      signature := hex0x sig }

theorem concluded_of_conclude (h : Runner.conclude env device p after = .ok out) :
    ∃ start trained values trainedSha root sig,
      Concluded env device p after out start trained values trainedSha root sig := by
  unfold Runner.conclude at h
  obtain ⟨start, hstart, h⟩ := bind_eq_ok.mp h
  obtain ⟨trained, -, h⟩ := bind_eq_ok.mp h
  obtain ⟨-, h⟩ := check_eq_ok.mp h
  obtain ⟨trainedFile, -, h⟩ := bind_eq_ok.mp h
  obtain ⟨values, hvalues, h⟩ := bind_eq_ok.mp h
  obtain ⟨hbounded, h⟩ := check_eq_ok.mp h
  obtain ⟨root, hroot, h⟩ := bind_eq_ok.mp h
  obtain ⟨sig, hsig, h⟩ := bind_eq_ok.mp (checked_eq_ok.mp h)
  obtain ⟨resultJson, -, h⟩ := bind_eq_ok.mp h
  cases h
  obtain ⟨file, hfile, hload⟩ := bind_eq_ok.mp (checked_eq_ok.mp hstart)
  have hcomputed : Delta.compute env.ops start trained p.payload.config.valueScaleLog2 =
      .ok values := by
    unfold Runner.conclude.liftDelta at hvalues
    split at hvalues
    · rename_i hcompute
      rw [hcompute, Except.ok.inj hvalues]
    · cases hvalues
    · cases hvalues
  exact ⟨start, trained, values, _, root, sig,
    { loaded := ⟨_, file, mapError_eq_ok.mp hfile, mapError_eq_ok.mp hload⟩
      computed := hcomputed
      bounded := by omega
      rooted := mapError_eq_ok.mp (checked_eq_ok.mp hroot)
      artifact := rfl
      sha := rfl
      signed := okOr_eq_ok.mp hsig
      result := rfl }⟩

end Device

/-! ## The number of values -/

section Values

open Delta

variable {ops : FloatOps} {start trained : Adapter} {scale : F32}

/-- Each pair of tensors gives a value for each coordinate of the start adapter's. -/
theorem computeLoop_length {pairs : List (Entry × Entry)} {values : List Int64}
    (hplaced : ∀ pair ∈ pairs, ∃ sv, Placed start pair.1 sv)
    (h : computeLoop ops start trained scale pairs = .ok values) :
    values.length = ((pairs.map Prod.fst).flatMap coordinatesOf).length := by
  induction pairs generalizing values with
  | nil =>
      cases h
      rfl
  | cons pair rest ih =>
      obtain ⟨s, t⟩ := pair
      rw [computeLoop] at h
      obtain ⟨-, h⟩ := check_eq_ok.mp h
      obtain ⟨sv, hsv, h⟩ := bind_eq_ok.mp h
      obtain ⟨tv, -, h⟩ := bind_eq_ok.mp h
      obtain ⟨hlen, h⟩ := check_eq_ok.mp h
      obtain ⟨head, hhead, h⟩ := bind_eq_ok.mp h
      obtain ⟨others, hothers, h⟩ := bind_eq_ok.mp h
      cases h
      obtain ⟨sv', hsv'⟩ := hplaced (s, t) List.mem_cons_self
      have hsame := indexAt_ok (ε := DeltaError) hsv'.values
      rw [hsv] at hsame
      cases hsame
      have hpairs : head.length = sv.length := by
        rcases tensorDeltas_cases ops s.name scale 0 (sv.zip tv) with ⟨hdeltas, -⟩ | ⟨e, hdeltas, -⟩
        · rw [checked_eq_ok, hdeltas] at hhead
          cases hhead
          rw [List.length_map, List.length_zip, ← not_not.mp hlen, min_self]
        · rw [checked_eq_ok, hdeltas] at hhead
          cases hhead
      rw [List.map_cons, List.flatMap_cons, List.length_append, List.length_append, hpairs,
        coordinatesOf_length hsv', ih (fun pair hpair => hplaced pair (List.mem_cons_of_mem _ hpair))
          hothers]

/-- A delta has one value for each of the start adapter's, whatever the trained adapter is. -/
theorem compute_length {file : List UInt8} {scaleLog2 : UInt8} {values : List Int64}
    (hstart : LoadedFrom file start) (h : compute ops start trained scaleLog2 = .ok values) :
    values.length = valueCount start := by
  obtain ⟨hcounts, h⟩ := check_eq_ok.mp h
  have hfst : ((canonical start).zip (canonical trained)).map Prod.fst = canonical start :=
    List.map_fst_zip (not_not.mp hcounts).le
  have hlength := computeLoop_length (fun pair hpair => ?_) h
  · rw [hlength, hfst, valueCount_eq hstart, coordinates]
  · have hmem : pair.1 ∈ canonical start := by
      rw [← hfst]
      exact List.mem_map_of_mem hpair
    exact placed_canonical hstart hmem

end Values

/-! ## Why a job is left out -/

section Excluded

variable {checks : Bool} {env : RoundEnv} {cfg : RoundConfig} {ordinal : UInt64} {start : Adapter}

/-- A job that was visited and left out was refused, or came second. -/
def LeftOut (env : RoundEnv) (cfg : RoundConfig) (ordinal : UInt64) (start : Adapter)
    (done : List (JobId × JobRecord)) (x : Exclusion) : Prop :=
  ∃ entry ∈ done, entry.1 = x.job ∧
    ((∀ c, ¬ Acceptable env cfg ordinal start entry.1 entry.2 c) ∨
      x.reason = .text "a second contribution from the same worker")

theorem LeftOut.append {done more : List (JobId × JobRecord)} {x : Exclusion}
    (h : LeftOut env cfg ordinal start done x) :
    LeftOut env cfg ordinal start (done ++ more) x := by
  obtain ⟨entry, hmem, hx⟩ := h
  exact ⟨entry, List.mem_append_left _ hmem, hx⟩

theorem leftOut_step {done : List (JobId × JobRecord)} {acc acc' : Collected}
    {entry : JobId × JobRecord} (h : ∀ x ∈ acc.excluded, LeftOut env cfg ordinal start done x)
    (hstep : collectStep checks env cfg ordinal start acc entry = .ok acc') :
    ∀ x ∈ acc'.excluded, LeftOut env cfg ordinal start (done ++ [entry]) x := by
  have hnew : ∀ reason, (∀ c, ¬ Acceptable env cfg ordinal start entry.1 entry.2 c) ∨
      reason = .text "a second contribution from the same worker" →
      ∀ x ∈ acc.excluded ++ [⟨entry.1, reason⟩],
        LeftOut env cfg ordinal start (done ++ [entry]) x := by
    intro reason hreason x hx
    rcases List.mem_append.mp hx with hold | hlast
    · exact (h x hold).append
    · rw [List.mem_singleton.mp hlast]
      exact ⟨entry, List.mem_append_right _ List.mem_cons_self, rfl, hreason⟩
  unfold collectStep at hstep
  split at hstep
  · cases hstep
  · cases hstep
    exact fun x hx => (h x hx).append
  · rename_i reason hrefused
    cases hstep
    refine hnew reason (.inl fun c hc => ?_)
    rw [judge_eq_ok.mpr hc] at hrefused
    cases hrefused
  · split at hstep
    · cases hstep
      exact hnew _ (.inr rfl)
    · cases hstep
      exact fun x hx => (h x hx).append

/-- An acceptable job is left out for one reason only. -/
theorem excluded_of_acceptable {s : State} {contributions : List Contribution}
    {excluded : List Exclusion} {job : JobRecord} {c : Contribution} {x : Exclusion}
    (h : collect checks env cfg ordinal start s = .ok (contributions, excluded))
    (hjob : s.jobs[x.job]? = some job) (hc : Acceptable env cfg ordinal start x.job job c)
    (hx : x ∈ excluded) : x.reason = .text "a second contribution from the same worker" := by
  obtain ⟨acc, hacc, -, rfl⟩ := collect_eq_ok.mp h
  have hall := foldlM_ok_invariant
    (fun done (acc : Collected) => ∀ x ∈ acc.excluded, LeftOut env cfg ordinal start done x)
    (fun done acc entry acc' hdone hstep => leftOut_step hdone hstep)
    (fun x hnone => absurd hnone List.not_mem_nil) hacc
  obtain ⟨⟨id, job'⟩, hmem, hid, hrefused | hsecond⟩ := hall x hx
  · subst hid
    have hsame := hjob.symm.trans (mem_entries.mp hmem)
    obtain rfl := Option.some.inj hsame
    exact absurd hc (hrefused c)
  · exact hsecond

end Excluded

/-! ## Upload -/

section Honest

theorem signature_reads (sig : List UInt8) :
    hexDecode (trimStart0x (hex0x sig).toList) = some sig := by
  have hmarker : trimStart0x ('0' :: 'x' :: hexChars sig) = trimStart0x (hexChars sig) := rfl
  rw [hex0x, String.toList_ofList, hmarker, trimStart0x_hexChars, hexDecode_hexChars]

theorem artifact_fits {n : Nat} {maxValues : UInt64} (hn : n ≤ maxValues.toNat)
    (hfits : HEADER_LEN + 8 * n ≤ isizeMax) : HEADER_LEN + 8 * n ≤ roundCap maxValues := by
  have hmax : isizeMax = 2 ^ 63 - 1 := rfl
  unfold roundCap checkedMul
  split
  · omega
  · rename_i b hb
    have hb' : b = maxValues.toNat * 8 := by
      split at hb
      · exact (Option.some.inj hb).symm
      · cases hb
    unfold Gguf.checkedAdd
    split
    · rw [Option.getD_some]
      omega
    · rw [Option.getD_none]
      omega

variable {round : RoundEnv} {maxBytes now : Nat} {s : State} {rec : JobRecord} {id : JobId}
  {payload : LoraDeltaPayload} {who : H160} {sha : B32} {sig : List UInt8}

/-- The holder of a live lease is let in. -/
theorem authorise_of_lease {expiresAt deadline : Nat} (hrec : s.jobs[id]? = some rec)
    (hstatus : rec.status = .leased who expiresAt deadline) (hlive : now < expiresAt)
    (hpayload : round.payloadOfJson rec.spec.payload = some payload)
    (hvalid : payload.validate round.hashes = .ok ())
    (hsig : round.recoverAddress
      (CoordinatorProtocol.flDeltaUploadDigest round.hashes.keccak256 id sha) sig = some who) :
    authorise round maxBytes s now ⟨hexEncode sha.toBytes, id, some (hex0x sig)⟩ =
      .ok ⟨sha, id, who, payload, min (roundCap payload.config.maxValues) maxBytes⟩ := by
  have hholds : ¬ ¬ holdsLease rec who now = true := by
    unfold holdsLease
    rw [hstatus]
    simpa using hlive
  have hchecked : (payload.validate round.hashes).mapError UploadError.payload = .ok () :=
    mapError_eq_ok.mpr hvalid
  unfold authorise
  refine (bind_of_ok (okOr_eq_ok.mpr (Uploads.parseSha_hexEncode sha))).trans ?_
  refine (bind_of_ok (okOr_eq_ok.mpr rfl)).trans ?_
  refine (bind_of_ok (okOr_eq_ok.mpr (signature_reads sig))).trans ?_
  refine (bind_of_ok (okOr_eq_ok.mpr hsig)).trans ?_
  refine (bind_of_ok (okOr_eq_ok.mpr hrec)).trans ?_
  rw [if_neg hholds]
  refine (bind_of_ok (okOr_eq_ok.mpr hpayload)).trans ?_
  exact (bind_of_ok hchecked).trans rfl

/-- The header of what the device made is the round's. -/
theorem delivers_of_artifact {art : Artifact} (hsha : round.hashes.sha256 art.encode = sha)
    (hdim : art.chunkDim ≠ 0) (hcount : art.values.length ≤ payload.config.maxValues.toNat)
    (hlength : art.encode.length ≤ isizeMax) (hbytes : art.encode.length ≤ maxBytes)
    (hround : art.roundId = payload.roundId) (hworker : art.worker = who)
    (hstart : art.startAdapterSha256 = payload.config.startAdapterSha256)
    (hchunk : art.chunkDim = payload.config.chunkDim)
    (hscale : art.valueScaleLog2 = payload.config.valueScaleLog2) :
    Uploads.Delivers round
      ⟨sha, id, who, payload, min (roundCap payload.config.maxValues) maxBytes⟩ art.encode where
  hash := hsha
  fits := by
    have hfits := hlength
    rw [Artifact.encode_length] at hfits
    refine le_min ?_ hbytes
    rw [Artifact.encode_length]
    exact artifact_fits hcount hfits
  header := by
    have hsame : ¬ otherHeader
        ⟨sha, id, who, payload, min (roundCap payload.config.maxValues) maxBytes⟩ art := by
      simp [otherHeader, hround, hworker, hstart, hchunk, hscale]
    exact bindHeader_eq_ok.mpr ⟨art, Artifact.decode_encode false hdim hcount hlength, hsame⟩

end Honest

/-! ## Both ends -/

section Ends

theorem load_anywhere {path : String} {file : List UInt8} {a : Adapter} (path' : String)
    (h : Adapter.load path file = .ok a) : Adapter.load path' file = .ok a := by
  obtain ⟨header, hheader, h⟩ := bind_eq_ok.mp h
  obtain ⟨hlora, h⟩ := check_eq_ok.mp h
  unfold Adapter.load
  rw [bind_of_ok hheader, if_neg hlora]
  exact h

variable {env : Runner.RunEnv} {round : RoundEnv} {device : Runner.DeviceConfig}
  {after : Runner.Files} {files : Runner.Files} {p : Runner.Prepared} {out : Runner.LoraRunOutput}
  {start trained : Adapter} {values : List Int64} {trainedSha root : B32} {sig : List UInt8}

/-- What the device made, as the aggregator reads it. -/
def contributionOf (env : Runner.RunEnv) (p : Runner.Prepared) (out : Runner.LoraRunOutput)
    (start : Adapter) (values : List Int64) (trainedSha : B32) (id : JobId) (seconds : UInt64) :
    Contribution where
  job := id
  result := { out.result with seconds := seconds }
  artifact := Runner.artifactOf env p (Delta.manifestHash env.hashes start) trainedSha values

theorem acceptable_of_concluded {job : Json} {rec : JobRecord} {id : JobId} {at_ : Nat}
    {seconds : UInt64} (hhashes : round.hashes = env.hashes)
    (hpayloads : round.payloadOfJson = env.payloadOfJson)
    (hsign : ∀ digest sig, env.sign digest = some sig →
      round.recoverAddress digest sig = some env.me)
    (hready : Ready env device files job p)
    (hdone : Concluded env device p after out start trained values trainedSha root sig)
    (hcount : values.length = Delta.valueCount start)
    (hmemory : out.artifact.length ≤ isizeMax) (hpayload : rec.spec.payload = job)
    (hstatus : rec.status = .done env.me at_) (hresult : rec.result = some out.resultJson)
    (hserde : round.resultOfStr out.resultJson = some { out.result with seconds := seconds })
    (hstored : round.read (deltaFile out.artifactSha256) = some out.artifact) :
    Acceptable round p.payload.config p.payload.ordinal start id rec
      (contributionOf env p out start values trainedSha id seconds) := by
  have ⟨_, hvalid, _, hround⟩ := LoraDeltaPayload.validate_ok hready.valid
  have hcounted : (UInt64.ofNat values.length).toNat = values.length :=
    UInt64.toNat_ofNat_of_lt' (hdone.bounded.trans_lt p.payload.config.maxValues.toNat_lt)
  have hartifact := hdone.artifact
  rw [hartifact] at hmemory
  exact
    { payload := ⟨p.payload, by rw [hpayloads, hpayload]; exact hready.payload,
        by rw [hhashes]; exact hround.symm, rfl⟩
      submitter := ⟨at_, by rw [contributionOf, hdone.result]; exact hstatus⟩
      result := ⟨out.resultJson, hresult, hserde⟩
      id_eq := rfl
      round := by
        rw [contributionOf, hdone.result, hhashes]
        exact hround.symm
      roster := by
        rw [contributionOf, hdone.result]
        exact hready.roster
      signature := by
        refine ⟨sig, ?_, ?_⟩
        · rw [contributionOf, hdone.result]
          exact signature_reads sig
        · rw [contributionOf, hdone.result, hhashes]
          exact hsign _ _ hdone.signed
      artifact := by
        have hnamed : (contributionOf env p out start values trainedSha id seconds).result.deltaSha256 =
            out.artifactSha256 := by
          rw [contributionOf, hdone.result]
          rfl
        refine ⟨out.artifact, by rw [hnamed]; exact hstored, ?_, ?_⟩
        · rw [hnamed, hhashes]
          exact hdone.sha.symm
        · rw [hartifact]
          exact Artifact.decode_encode false hvalid.chunkDim_pos hdone.bounded hmemory
      header := by
        rw [contributionOf, hdone.result]
        exact
          { roundId := by rw [hhashes]; exact hround.symm
            worker := rfl
            startAdapter := rfl
            manifest := by rw [hhashes]; rfl
            chunkDim := rfl
            scale := rfl
            values := hcount
            nValues := hcounted.trans hcount
            signedChunkDim := rfl }
      root := by
        rw [contributionOf, hdone.result, hhashes]
        exact hdone.rooted }

/-- A worker with an acceptable job contributes, by that job or by an earlier one. -/
theorem contributes_of_acceptable {checks : Bool} {cfg : RoundConfig} {ordinal : UInt64}
    {s : State} {contributions : List Contribution} {excluded : List Exclusion}
    {job : JobRecord} {c : Contribution}
    (h : collect checks round cfg ordinal start s = .ok (contributions, excluded))
    (hjob : s.jobs[c.job]? = some job) (hc : Acceptable round cfg ordinal start c.job job c) :
    ∃ c' ∈ contributions, c'.result.worker = c.result.worker ∧ (c' = c ∨ c'.job < c.job) := by
  have hoffer : offers round cfg ordinal start c.result.worker (c.job, job) = some c :=
    offers_eq_some.mpr ⟨judge_eq_ok.mpr hc, rfl⟩
  have hmem : (c.job, job) ∈ s.jobs.toList := mem_entries.mpr hjob
  cases hfound : s.jobs.toList.findSome? (offers round cfg ordinal start c.result.worker) with
  | none =>
      rw [List.findSome?_eq_none_iff.mp hfound _ hmem] at hoffer
      cases hoffer
  | some c' =>
      have ⟨entry, _, hentry⟩ := List.exists_of_findSome?_eq_some hfound
      have hworker := (offers_eq_some.mp hentry).2
      rw [← hworker] at hfound
      have ⟨job', hjob', hc', hleast⟩ := findSome_offers_iff.mp hfound
      refine ⟨c', (mem_contributions h).mpr hfound, hworker, ?_⟩
      rcases lt_or_eq_of_le (hleast c.job job c hjob hc hworker.symm) with hlt | hsame
      · exact .inr hlt
      · rw [hsame] at hjob' hc'
        obtain rfl := Option.some.inj (hjob'.symm.trans hjob)
        have hjudge : judge false round cfg ordinal start c.job job' = .ok c := judge_eq_ok.mpr hc
        exact .inl (Except.ok.inj ((judge_eq_ok.mpr hc').symm.trans hjudge))

end Ends

/-- A run that succeeds makes a delta that both ends take.  For a job the device holds a
live lease on, the upload is let in and delivers; and once its result is the job's and its
artifact is stored, the worker contributes to the round, with this delta or with that of an
earlier job, and the job is left out for no reason but that one. -/
theorem honest_delta_counts (env : Runner.RunEnv) (round : RoundEnv) (device : Runner.DeviceConfig)
    (trainer : Runner.LoraTrainer) (files : Runner.Files) (spec : JobSpec)
    (p : LoraDeltaPayload) (out : Runner.LoraRunOutput)
    (hhashes : round.hashes = env.hashes) (hpayloads : round.payloadOfJson = env.payloadOfJson)
    (hsign : ∀ digest sig, env.sign digest = some sig →
      round.recoverAddress digest sig = some env.me)
    (hkept : ∀ request after, trainer.train request files = .ok after →
      after request.startAdapter = files request.startAdapter)
    (hp : env.payloadOfJson spec.payload = some p)
    (hrun : Runner.run env device (some trainer) files spec.payload = .ok out)
    (hmemory : out.artifact.length ≤ isizeMax) :
    (∀ maxBytes s now rec expiresAt deadline request, out.artifact.length ≤ maxBytes →
      s.jobs[spec.id]? = some rec → rec.spec = spec →
      rec.status = .leased env.me expiresAt deadline → now < expiresAt →
      uploadFlDelta env spec.id out.artifactSha256 = some request →
      ∃ u, authorise round maxBytes s now request = .ok u ∧ u.sha = out.artifactSha256 ∧
        Uploads.Delivers round u out.artifact) ∧
    ∀ path file start s rec at_ seconds, Adapter.load path file = .ok start →
      (∀ own, files (device.adapterPath p.config.startAdapterSha256) = .ok own →
        env.hashes.sha256 own = p.config.startAdapterSha256 → own = file) →
      s.jobs[spec.id]? = some rec → rec.spec = spec → rec.status = .done env.me at_ →
      rec.result = some out.resultJson →
      round.resultOfStr out.resultJson = some { out.result with seconds := seconds } →
      round.read (deltaFile out.artifactSha256) = some out.artifact →
      (∃ r, collect false round p.config p.ordinal start s = .ok r) ∧
      ∀ overflowChecks contributions excluded,
        collect overflowChecks round p.config p.ordinal start s = .ok (contributions, excluded) →
        (∃ c ∈ contributions, c.result.worker = env.me ∧
          (c.job = spec.id ∧ c.artifact.encode = out.artifact ∨ c.job < spec.id)) ∧
        ∀ x ∈ excluded, x.job = spec.id →
          x.reason = .text "a second contribution from the same worker" := by
  obtain ⟨prep, hprep, hrun⟩ := bind_eq_ok.mp hrun
  obtain ⟨after, hafter, hconclude⟩ := bind_eq_ok.mp hrun
  have ⟨hready, htrainer⟩ := ready_of_prepare (checked_eq_ok.mp hprep)
  have ⟨begun, trained, values, trainedSha, root, sig, hdone⟩ := concluded_of_conclude hconclude
  rw [checked_eq_ok, mapError_eq_ok, ← Option.some.inj htrainer] at hafter
  obtain rfl := Option.some.inj (hready.payload.symm.trans hp)
  have ⟨_, hvalid, _, _⟩ := LoraDeltaPayload.validate_ok hready.valid
  refine ⟨?_, ?_⟩
  · intro maxBytes s now rec expiresAt deadline request hbytes hrec hspec hstatus hlive hrequest
    obtain ⟨sig', hsig', rfl⟩ := Option.map_eq_some_iff.mp hrequest
    have hlet := @authorise_of_lease round maxBytes now s rec spec.id prep.payload env.me
      out.artifactSha256 sig' expiresAt deadline hrec hstatus hlive
      (by rw [hpayloads, hspec]; exact hready.payload) (by rw [hhashes]; exact hready.valid)
      (by rw [hhashes]; exact hsign _ _ hsig')
    refine ⟨_, hlet, rfl, ?_⟩
    have hartifact := hdone.artifact
    have hsha := hdone.sha
    rw [hartifact] at hmemory hbytes hsha ⊢
    exact delivers_of_artifact (by rw [hhashes]; exact hsha.symm) hvalid.chunkDim_pos hdone.bounded
      hmemory hbytes rfl rfl rfl rfl rfl
  · intro path file start s rec at_ seconds hload hunique hrec hspec hstatus hresult hserde hstored
    -- both sides load the start adapter from one file
    have ⟨own, hown, hsha⟩ := hready.start
    have ⟨path', file', hfile', hbegun⟩ := hdone.loaded
    have hkept' : after (device.adapterPath prep.payload.config.startAdapterSha256) = .ok own :=
      (hkept _ _ hafter).trans hown
    rw [hkept'] at hfile'
    obtain rfl := Except.ok.inj hfile'
    rw [hunique own hown hsha] at hbegun
    obtain rfl := Except.ok.inj ((load_anywhere path hbegun).symm.trans hload)
    have hcount := compute_length (loadedFrom_load hload) hdone.computed
    have hc : Acceptable round prep.payload.config prep.payload.ordinal begun spec.id rec
        (contributionOf env prep out begun values trainedSha spec.id seconds) :=
      acceptable_of_concluded hhashes hpayloads hsign hready hdone hcount hmemory (by rw [hspec])
        hstatus hresult hserde hstored
    refine ⟨collect_returns round prep.payload.config prep.payload.ordinal begun s, ?_⟩
    intro overflowChecks contributions excluded hcollected
    have ⟨c, hmem, hworker, hwhich⟩ := @contributes_of_acceptable round begun overflowChecks
      prep.payload.config prep.payload.ordinal s contributions excluded rec
      (contributionOf env prep out begun values trainedSha spec.id seconds) hcollected hrec hc
    have hme : c.result.worker = env.me := by
      have hsigned : out.result.worker = env.me := by rw [hdone.result]; rfl
      exact hworker.trans hsigned
    refine ⟨⟨c, hmem, hme, ?_⟩, fun x hx hid => ?_⟩
    · rcases hwhich with rfl | hearlier
      · exact .inl ⟨rfl, hdone.artifact.symm⟩
      · exact .inr hearlier
    · rw [← hid] at hrec hc
      exact excluded_of_acceptable hcollected hrec hc hx

/-! ## A device with one job -/

section

variable {env : Runner.RunEnv} {device : Runner.DeviceConfig} {p : Runner.Prepared}
  {files : Runner.Files} {startFile trainedFile : List UInt8} {start trained : Adapter}
  {values : List Int64} {root : B32} {sig : List UInt8} {json : String}

/-- What a run hands back. -/
def outputOf (env : Runner.RunEnv) (p : Runner.Prepared) (start : Adapter)
    (trainedFile : List UInt8) (values : List Int64) (root : B32) (sig : List UInt8)
    (json : String) : Runner.LoraRunOutput :=
  let bytes := (Runner.artifactOf env p (Delta.manifestHash env.hashes start)
    (env.hashes.sha256 trainedFile) values).encode
  { result :=
      { Runner.unsigned env p (env.hashes.sha256 trainedFile) root (env.hashes.sha256 bytes)
          values.length with
        signature := hex0x sig }
    resultJson := json
    artifact := bytes
    artifactSha256 := env.hashes.sha256 bytes }

theorem conclude_ok
    (hstart : files (device.adapterPath p.payload.config.startAdapterSha256) = .ok startFile)
    (htrained : files (device.trained p.payload.roundId) = .ok trainedFile)
    (hload : Adapter.load "start" startFile = .ok start)
    (hload' : Adapter.load "start" trainedFile = .ok trained)
    (hmanifest : Delta.manifestHash env.hashes trained = Delta.manifestHash env.hashes start)
    (hvalues : Delta.compute env.ops start trained p.payload.config.valueScaleLog2 = .ok values)
    (hcount : ¬ values.length > p.payload.config.maxValues.toNat)
    (hroot : deltaRoot env.hashes values p.payload.config.chunkDim = .ok root)
    (hsign : ∀ digest, env.sign digest = some sig)
    (hjson : env.resultToString (outputOf env p start trainedFile values root sig json).result =
      some json) :
    Runner.conclude env device p files =
      .ok (outputOf env p start trainedFile values root sig json) := by
  have hadapter : ∀ path file a, files path = .ok file → Adapter.load "start" file = .ok a →
      checked (Runner.loadAdapter files path) = .ok a := by
    intro path file a hpath ha
    rw [checked_eq_ok]
    unfold Runner.loadAdapter
    rw [bind_of_ok (mapError_eq_ok.mpr hpath)]
    exact mapError_eq_ok.mpr (load_anywhere path ha)
  have hlifted : Runner.conclude.liftDelta
      (Delta.compute env.ops start trained p.payload.config.valueScaleLog2) = .ok values := by
    rw [hvalues]
    rfl
  unfold Runner.conclude
  refine (bind_of_ok (hadapter _ _ _ hstart hload)).trans ?_
  refine (bind_of_ok (hadapter _ _ _ htrained hload')).trans ?_
  refine (if_neg (not_not_intro hmanifest)).trans ?_
  refine (bind_of_ok (checked_eq_ok.mpr (mapError_eq_ok.mpr htrained))).trans ?_
  refine (bind_of_ok hlifted).trans ?_
  refine (if_neg hcount).trans ?_
  refine (bind_of_ok (checked_eq_ok.mpr (mapError_eq_ok.mpr hroot))).trans ?_
  refine checked_eq_ok.mpr ?_
  unfold Runner.signResult
  refine (bind_of_ok (okOr_eq_ok.mpr (hsign _))).trans ?_
  exact (bind_of_ok (okOr_eq_ok.mpr hjson)).trans rfl

end

/-- The start adapter's file, its two tensors not in the order of their names. -/
def startFile : List UInt8 :=
  ((Gguf.encodeF32 true Delta.tinyKv (Delta.pairTensors 0 0x3f800000 0).reverse).toOption).getD []

/-- What the training leaves: the tensors in the other order, and every value 1. -/
def trainedFile : List UInt8 :=
  ((Gguf.encodeF32 true Delta.tinyKv
    (Delta.pairTensors 0x3f800000 0x3f800000 0x3f800000)).toOption).getD []

def startAdapter : Adapter := ((Adapter.load "start" startFile).toOption).getD pairStart

def trainedAdapter : Adapter := ((Adapter.load "start" trainedFile).toOption).getD pairStart

/-- The base model. -/
def modelFile : List UInt8 := [1, 2, 3]

def deviceConfig : RoundConfig :=
  { trioConfig with
    baseModelSha256 := Tree.residueHashes.sha256 modelFile
    startAdapterSha256 := Tree.residueHashes.sha256 startFile
    roster := [FixedBytes.ofNat 1, FixedBytes.ofNat 2, Uploads.signer]
    chunkDim := 2
    maxValues := 3 }

def devicePayload : LoraDeltaPayload := .new Tree.residueHashes deviceConfig 0

def consentJson (round : B32) : Json :=
  .object [("rounds", .array [.string (hex0x round.toBytes)])]

def exportJson : Json :=
  .object [("messages", .array [.object [("role", .string "user"), ("content", .string "hi")]]),
    ("metadata", .object [("model", .string "m"), ("verifiers", .array [.string "v"])])]

def deviceEnv : Runner.RunEnv where
  hashes := Tree.residueHashes
  serde := ⟨fun _ => "", fun s => some (if s = "c" then consentJson devicePayload.roundId else exportJson), fun _ => true⟩
  toLowercase := id
  isAlphanumeric := fun _ => true
  ops := Delta.tinyOps
  payloadOfJson := fun _ => some devicePayload
  resultToString := fun _ => some "r"
  me := Uploads.signer
  sign := fun _ => some (List.replicate 65 0)
  seconds := 0

/-- The first value and the last go from 0 to 1, the one between them stays. -/
def deviceValues : List Int64 := [16 * 65536, 0, 16 * 65536]

def deviceRoot : B32 :=
  ((deltaRoot deviceEnv.hashes deviceValues 2).toOption).getD FixedBytes.zero

/-- What evaluation finds of the two adapters. -/
theorem adapters_evaluate :
    (Adapter.load "start" startFile).isOk = true ∧
    (Adapter.load "start" trainedFile).isOk = true ∧
    startAdapter.header.tensors =
      rowsFrom DEFAULT_ALIGNMENT 0 (Delta.pairTensors 0 0x3f800000 0).reverse ∧
    trainedAdapter.header.tensors =
      rowsFrom DEFAULT_ALIGNMENT 0 (Delta.pairTensors 0x3f800000 0x3f800000 0x3f800000) ∧
    Delta.computeLoop deviceEnv.ops startAdapter trainedAdapter (deviceEnv.ops.powi2 4)
      ([⟨1, "x.lora_a", [1]⟩, ⟨0, "x.lora_b", [2]⟩].zip
        [⟨0, "x.lora_a", [1]⟩, ⟨1, "x.lora_b", [2]⟩]) = .ok deviceValues := by
  decide +kernel

/-- What evaluation finds of the configuration, the export and the delta's root. -/
theorem device_evaluates :
    deviceConfig.validate = .ok () ∧
    deviceConfig.inRoster Uploads.signer = true ∧
    (utf8 "d").length ≤ Runner.MAX_DATASET_BYTES ∧
    (lines "d".toList).zipIdx.foldlM (Runner.verifyLine deviceEnv.toDatasetEnv) 0 = .ok 1 ∧
    (deltaRoot deviceEnv.hashes deviceValues 2).isOk = true := by
  decide +kernel

theorem startAdapter_loads : Adapter.load "start" startFile = .ok startAdapter :=
  eq_ok_of_isOk adapters_evaluate.1 pairStart

theorem trainedAdapter_loads : Adapter.load "start" trainedFile = .ok trainedAdapter :=
  eq_ok_of_isOk adapters_evaluate.2.1 pairStart

theorem startAdapter_canonical :
    Delta.canonical startAdapter = [⟨1, "x.lora_a", [1]⟩, ⟨0, "x.lora_b", [2]⟩] :=
  Delta.reversed_canonical adapters_evaluate.2.2.1

theorem trainedAdapter_canonical :
    Delta.canonical trainedAdapter = [⟨0, "x.lora_a", [1]⟩, ⟨1, "x.lora_b", [2]⟩] :=
  Delta.pair_canonical adapters_evaluate.2.2.2.1

def deviceAt : Runner.DeviceConfig := ⟨"fl", "data", some "consent"⟩

/-- The consent file, the export, the base model and the start adapter. -/
def deviceFiles (path : String) : Except Runner.ReadError (List UInt8) :=
  if path = "consent" then .ok (utf8 "c")
  else if path = "data" then .ok (utf8 "d")
  else if path = deviceAt.modelPath deviceConfig.baseModelSha256 then .ok modelFile
  else if path = deviceAt.adapterPath deviceConfig.startAdapterSha256 then .ok startFile
  else .error .notFound

/-- A trainer that writes the trained adapter beside the start adapter. -/
def deviceTrainer : Runner.LoraTrainer where
  id := "trainer"
  train request files :=
    if request.out = request.startAdapter then .error "nowhere to write"
    else .ok (Function.update files request.out (.ok trainedFile))

def preparedJob : Runner.Prepared where
  payload := devicePayload
  trainer := deviceTrainer
  examples := 1
  datasetSha256 := Tree.residueHashes.sha256 (utf8 "d")

/-- What is on the disk after the training. -/
def trainedFiles : Runner.Files :=
  Function.update deviceFiles (deviceAt.trained devicePayload.roundId) (.ok trainedFile)

/-- A path in the store, in the directory that starts with this letter. -/
def InStore (letter : Char) (path : String) : Prop :=
  path.toList[1]? = some 'l' ∧ path.toList[3]? = some letter

theorem InStore.ne {a b : Char} {s t : String} (hs : InStore a s) (ht : InStore b t)
    (hab : a ≠ b) : s ≠ t := by
  rintro rfl
  exact hab (Option.some.inj (hs.2.symm.trans ht.2))

theorem InStore.outside {letter : Char} {path : String} (h : InStore letter path) :
    path ≠ "consent" ∧ path ≠ "data" := by
  constructor
  · rintro rfl
    exact absurd h.1 (by decide)
  · rintro rfl
    exact absurd h.1 (by decide)

/-- The directories differ in their first letter, whatever the hashes in the names of
their files are. -/
theorem inStore (sha : B32) :
    InStore 'm' (deviceAt.modelPath sha) ∧ InStore 'a' (deviceAt.adapterPath sha) ∧
      InStore 'c' (deviceAt.marker sha) ∧ InStore 's' (deviceAt.trained sha) := by
  have hdir : ∀ (dir name : String) (i : Nat), i < dir.toList.length →
      (dir ++ "/" ++ name).toList[i]? = dir.toList[i]? := by
    intro dir name i hlong
    rw [String.toList_append, String.toList_append, List.append_assoc]
    exact List.getElem?_append_left hlong
  exact ⟨⟨hdir "fl/models" _ 1 (by decide), hdir "fl/models" _ 3 (by decide)⟩,
    ⟨hdir "fl/adapters" _ 1 (by decide), hdir "fl/adapters" _ 3 (by decide)⟩,
    ⟨hdir "fl/contributed" _ 1 (by decide), hdir "fl/contributed" _ 3 (by decide)⟩,
    ⟨hdir "fl/scratch" _ 1 (by decide), hdir "fl/scratch" _ 3 (by decide)⟩⟩

theorem deviceFiles_data : deviceFiles "data" = .ok (utf8 "d") := by
  unfold deviceFiles
  rw [if_neg (by decide), if_pos rfl]

theorem deviceFiles_model :
    deviceFiles (deviceAt.modelPath deviceConfig.baseModelSha256) = .ok modelFile := by
  have hout := (inStore deviceConfig.baseModelSha256).1.outside
  unfold deviceFiles
  rw [if_neg hout.1, if_neg hout.2, if_pos rfl]

theorem deviceFiles_adapter :
    deviceFiles (deviceAt.adapterPath deviceConfig.startAdapterSha256) = .ok startFile := by
  have hin := (inStore deviceConfig.startAdapterSha256).2.1
  -- adapters and models are in different directories, so the hashes do not matter
  have hother := hin.ne (inStore deviceConfig.baseModelSha256).1 (by decide)
  unfold deviceFiles
  rw [if_neg hin.outside.1, if_neg hin.outside.2, if_neg hother, if_pos rfl]

/-- The device has contributed to no round. -/
theorem deviceFiles_marker (round : B32) :
    deviceFiles (deviceAt.marker round) = .error .notFound := by
  have hin := (inStore round).2.2.1
  have hmodel := hin.ne (inStore deviceConfig.baseModelSha256).1 (by decide)
  have hadapter := hin.ne (inStore deviceConfig.startAdapterSha256).2.1 (by decide)
  unfold deviceFiles
  rw [if_neg hin.outside.1, if_neg hin.outside.2, if_neg hmodel, if_neg hadapter]

theorem verifyDataset_device : Runner.verifyDataset deviceEnv.toDatasetEnv (utf8 "d") = .ok 1 := by
  obtain ⟨-, -, -, hlines, -⟩ := device_evaluates
  unfold Runner.verifyDataset
  rw [fromUtf8_utf8]
  exact (bind_of_ok rfl).trans ((bind_of_ok hlines).trans rfl)

theorem consented_device :
    Runner.consented deviceEnv deviceAt deviceFiles devicePayload.roundId = .ok true := by
  have hread : deviceFiles "consent" = .ok (utf8 "c") := if_pos rfl
  have hlisted : Runner.readConsent (consentJson devicePayload.roundId) =
      some [hex0x devicePayload.roundId.toBytes] := rfl
  have htrim : trim (hex0x devicePayload.roundId.toBytes).toList =
      (hex0x devicePayload.roundId.toBytes).toList :=
    trim_of_no_whiteSpace fun _ => hex0x_not_whiteSpace
  unfold Runner.consented
  dsimp only [deviceAt]
  rw [hread]
  dsimp only
  rw [fromUtf8_utf8]
  refine (bind_of_ok (okOr_eq_ok.mpr rfl)).trans ?_
  refine (bind_of_ok (okOr_eq_ok.mpr hlisted)).trans ?_
  rw [List.any_cons, List.any_nil, htrim, Runner.eqIgnoreAsciiCase, beq_self_eq_true]
  rfl

theorem prepare_device :
    Runner.prepare deviceEnv deviceAt (some deviceTrainer) deviceFiles .null =
      .ok preparedJob := by
  obtain ⟨hconfig, hroster, hsmall, -⟩ := device_evaluates
  have hvalid : devicePayload.validate deviceEnv.hashes = .ok () :=
    LoraDeltaPayload.validate_new _ _ hconfig
  have hunmarked : ¬ (deviceFiles (deviceAt.marker devicePayload.roundId)).isOk := by
    rw [deviceFiles_marker]
    decide
  have hstaged : ∀ what path file, deviceFiles path = .ok file →
      Runner.verifyFile deviceEnv deviceFiles what path (Tree.residueHashes.sha256 file) =
        .ok () := by
    intro what path file hpath
    unfold Runner.verifyFile
    rw [bind_of_ok (mapError_eq_ok.mpr hpath)]
    exact if_neg (not_not_intro rfl)
  unfold Runner.prepare
  -- the checks in the order in which the device makes them
  refine (bind_of_ok (okOr_eq_ok.mpr rfl)).trans ?_
  refine (bind_of_ok (mapError_eq_ok.mpr hvalid)).trans ?_
  refine (if_neg (not_not_intro hroster)).trans ?_
  refine (bind_of_ok consented_device).trans ?_
  refine (if_neg (by decide)).trans ?_
  refine (if_neg hunmarked).trans ?_
  refine (bind_of_ok (okOr_eq_ok.mpr rfl)).trans ?_
  refine (bind_of_ok (hstaged _ _ _ deviceFiles_model)).trans ?_
  refine (bind_of_ok (hstaged _ _ _ deviceFiles_adapter)).trans ?_
  refine (bind_of_ok (mapError_eq_ok.mpr deviceFiles_data)).trans ?_
  refine (if_neg (not_lt_of_ge hsmall)).trans ?_
  exact (bind_of_ok (mapError_eq_ok.mpr verifyDataset_device)).trans rfl

def deviceOutput : Runner.LoraRunOutput :=
  outputOf deviceEnv preparedJob startAdapter trainedFile deviceValues deviceRoot
    (List.replicate 65 0) "r"

theorem deltaRoot_device : deltaRoot deviceEnv.hashes deviceValues 2 = .ok deviceRoot := by
  obtain ⟨-, -, -, -, hroot⟩ := device_evaluates
  exact eq_ok_of_isOk hroot FixedBytes.zero

theorem compute_device :
    Delta.compute deviceEnv.ops startAdapter trainedAdapter 4 = .ok deviceValues := by
  obtain ⟨-, -, -, -, hvalues⟩ := adapters_evaluate
  unfold Delta.compute
  rw [startAdapter_canonical, trainedAdapter_canonical]
  exact (if_neg (by decide)).trans hvalues

theorem adapterPath_ne_trained : deviceAt.adapterPath deviceConfig.startAdapterSha256 ≠
    deviceAt.trained devicePayload.roundId :=
  (inStore deviceConfig.startAdapterSha256).2.1.ne (inStore devicePayload.roundId).2.2.2 (by decide)

theorem conclude_device :
    Runner.conclude deviceEnv deviceAt preparedJob trainedFiles = .ok deviceOutput := by
  have hold : trainedFiles (deviceAt.adapterPath deviceConfig.startAdapterSha256) =
      .ok startFile := (Function.update_of_ne adapterPath_ne_trained _ _).trans deviceFiles_adapter
  have hlayout : Delta.manifestBytes trainedAdapter = Delta.manifestBytes startAdapter := by
    unfold Delta.manifestBytes
    rw [startAdapter_canonical, trainedAdapter_canonical]
    rfl
  exact conclude_ok hold (Function.update_self _ _ _) startAdapter_loads trainedAdapter_loads
    (by rw [Delta.manifestHash, Delta.manifestHash, hlayout]) compute_device (by decide)
    deltaRoot_device (fun _ => rfl) rfl

theorem deviceTrainer_train {request : Runner.TrainRequest} (files : Runner.Files)
    (h : request.out ≠ request.startAdapter) :
    deviceTrainer.train request files =
      .ok (Function.update files request.out (.ok trainedFile)) :=
  if_neg h

theorem train_device :
    deviceTrainer.train (Runner.requestOf deviceAt preparedJob) deviceFiles = .ok trainedFiles := by
  exact deviceTrainer_train deviceFiles fun hsame => adapterPath_ne_trained hsame.symm

theorem run_of_parts {env : Runner.RunEnv} {device : Runner.DeviceConfig}
    {trainer : Option Runner.LoraTrainer} {files after : Runner.Files} {job : Json}
    {p : Runner.Prepared} {out : Runner.LoraRunOutput}
    (hprepare : Runner.prepare env device trainer files job = .ok p)
    (htrain : p.trainer.train (Runner.requestOf device p) files = .ok after)
    (hconclude : Runner.conclude env device p after = .ok out) :
    Runner.run env device trainer files job = .ok out := by
  unfold Runner.run
  refine (bind_of_ok (checked_eq_ok.mpr hprepare)).trans ?_
  exact (bind_of_ok (checked_eq_ok.mpr (mapError_eq_ok.mpr htrain))).trans hconclude

theorem run_device :
    Runner.run deviceEnv deviceAt (some deviceTrainer) deviceFiles .null = .ok deviceOutput :=
  run_of_parts prepare_device train_device conclude_device

/-- The aggregator has the device's result and artifact. -/
def deviceRound : RoundEnv where
  hashes := Tree.residueHashes
  payloadOfJson := deviceEnv.payloadOfJson
  resultOfStr := fun _ => some deviceOutput.result
  recoverPoint := fun _ _ _ => some (List.replicate 65 4)
  read := fun _ => some deviceOutput.artifact

def finishedJob : JobRecord :=
  { Uploads.leasedJob with status := .done Uploads.signer 10, result := some "r" }

def finishedState : State :=
  { State.empty Policy.default with jobs := (∅ : BTreeMap JobId JobRecord).insert "a" finishedJob }

theorem single_job {job : JobRecord} {id : JobId} :
    ((∅ : BTreeMap JobId JobRecord).insert "a" job)[id]? = if "a" = id then some job else none := by
  rw [get_insert]
  split
  · rfl
  · simp

/-- One device with one job: the delta is let in at upload while the job is leased, and the
finished job contributes it. -/
theorem honest_delta_counts_one :
    Runner.run deviceEnv deviceAt (some deviceTrainer) deviceFiles .null = .ok deviceOutput ∧
    (∃ request u, uploadFlDelta deviceEnv "a" deviceOutput.artifactSha256 = some request ∧
      authorise deviceRound 1000 Uploads.leasedState 0 request = .ok u ∧
      Uploads.Delivers deviceRound u deviceOutput.artifact) ∧
    ∃ contributions excluded,
      collect false deviceRound deviceConfig 0 startAdapter finishedState =
        .ok (contributions, excluded) ∧
      ∃ c ∈ contributions, c.result.worker = Uploads.signer ∧ c.job = "a" ∧
        c.artifact.encode = deviceOutput.artifact := by
  have hlength : deviceOutput.artifact.length = 192 := by
    unfold deviceOutput outputOf
    rw [Artifact.encode_length]
    rfl
  have hsign : ∀ digest sig, deviceEnv.sign digest = some sig →
      deviceRound.recoverAddress digest sig = some deviceEnv.me := by
    intro digest sig hsig
    obtain rfl := Option.some.inj hsig
    unfold RoundEnv.recoverAddress
    rw [if_neg (by decide)]
    rfl
  have hkept : ∀ request after, deviceTrainer.train request deviceFiles = .ok after →
      after request.startAdapter = deviceFiles request.startAdapter := by
    intro request after hafter
    obtain ⟨hother, hafter⟩ := check_eq_ok.mp hafter
    obtain rfl := Except.ok.inj hafter
    exact Function.update_of_ne (fun h => hother h.symm) _ _
  obtain ⟨hupload, hcollect⟩ := honest_delta_counts deviceEnv deviceRound deviceAt deviceTrainer
    deviceFiles Uploads.leasedJob.spec devicePayload deviceOutput rfl rfl hsign hkept rfl run_device
    (by rw [hlength]; decide)
  obtain ⟨u, hu, -, hdelivers⟩ := hupload 1000 Uploads.leasedState 0 Uploads.leasedJob 10 10 _
    (by rw [hlength]; decide) (single_job.trans (if_pos rfl)) rfl rfl (by decide) rfl
  obtain ⟨⟨⟨contributions, excluded⟩, hcollected⟩, hall⟩ := hcollect "start" startFile startAdapter
    finishedState finishedJob 10 0 startAdapter_loads
    (fun own hown _ => (Except.ok.inj (deviceFiles_adapter.symm.trans hown)).symm)
    (single_job.trans (if_pos rfl)) rfl rfl rfl rfl rfl
  obtain ⟨c, hmem, hme, hwhich⟩ := (hall false contributions excluded hcollected).1
  refine ⟨run_device, ⟨_, u, rfl, hu, hdelivers⟩, contributions, excluded, hcollected, c, hmem, hme, ?_⟩
  rcases hwhich with hown | hearlier
  · exact hown
  · -- there is one job, and so none with a smaller id
    obtain ⟨job, hjob, -⟩ := findSome_offers_iff.mp ((mem_contributions hcollected).mp hmem)
    have hfound := single_job.symm.trans hjob
    split at hfound
    · rename_i hsame
      rw [← hsame] at hearlier
      exact absurd hearlier (lt_irrefl _)
    · cases hfound

end Coordinator
end ComputePool
