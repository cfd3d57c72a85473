import ComputePool.Worker.PipelineChain

/-!
# What a pipeline pays

The accounts of the pipeline's chain model over whole runs.  Each stage of a
request is paid once, at the advance that leaves it and to the worker that owns
it then; what a request has paid is its progress times the share of a stage.
This takes jobs that have stages: a request of a job of none is at its end and
still in flight, and advancing it divides by zero.
-/

namespace ComputePool
namespace Worker
namespace PipelineChain

open RustStd

variable {s s' : State} {op : Op} {id : Nat} {job job' : Job} {request request' : Request}

/-- A request of a job of this spec: how far it is, and what it paid to whom. -/
structure Request.Accounted (request : Request) (spec : PipelineJobSpec) : Prop where
  bounded : request.progress.toNat ≤ spec.stageCount.toNat
  completed : request.state = .completed ↔ request.progress = spec.stageCount
  total : request.totalPaid = request.progress.toNat * spec.stageShare.toNat
  affordable : request.totalPaid ≤ spec.paymentPerRequest.toNat

/-- The accounts of a state, after these payments. -/
structure State.Accounted (s : State) (paid : List Payment) : Prop where
  requests : ∀ id request, s.requests id = some request →
    ∀ job, s.jobs request.jobId = some job → request.Accounted job.spec
  once : (paid.map fun p => (p.request, p.stage)).Nodup
  earned : ∀ id request, s.requests id = some request →
    ∀ job, s.jobs request.jobId = some job → ∀ worker,
      (request.earned worker).toNat =
        paid.countP (fun p => p.request = id ∧ p.worker = worker) * job.spec.stageShare.toNat

/-- What is asked of one operation. -/
structure State.StepAccounted (s : State) (op : Op) (s' : State) : Prop where
  noPanic : s.perform op ≠ .error .panic
  progress : ∀ id request, s.requests id = some request →
    ∃ request', s'.requests id = some request' ∧ request'.jobId = request.jobId ∧
      request.progress.toNat ≤ request'.progress.toNat
  paysOwner : ∀ p, s.payment op = some p → ∃ request job,
    s.requests p.request = some request ∧ s.jobs request.jobId = some job ∧
      request.progress = p.stage ∧ job.stageOwners p.stage = some p.worker

/-- A request is submitted only to a job that has stages. -/
def HasStages (s : State) (op : Op) : Prop :=
  ∀ id requester, op = .submitRequest id requester → ∀ job, s.jobs id = some job →
    job.spec.stageCount ≠ 0

/-- The shares of all stages fit in the payment. -/
theorem share_mul_le {spec : PipelineJobSpec} {n : Nat} (hn : n ≤ spec.stageCount.toNat) :
    n * spec.stageShare.toNat ≤ spec.paymentPerRequest.toNat := by
  have hcount : (BitVec.ofNat 128 spec.stageCount.toNat).toNat = spec.stageCount.toNat := by
    have hlt := spec.stageCount.toNat_lt
    rw [BitVec.toNat_ofNat]
    omega
  have hshare : spec.stageShare.toNat =
      spec.paymentPerRequest.toNat / spec.stageCount.toNat := by
    rw [PipelineJobSpec.stageShare, BitVec.toNat_udiv, hcount]
  calc n * spec.stageShare.toNat
      ≤ spec.stageCount.toNat * spec.stageShare.toNat := Nat.mul_le_mul_right _ hn
    _ = spec.stageCount.toNat * (spec.paymentPerRequest.toNat / spec.stageCount.toNat) := by
        rw [hshare]
    _ ≤ spec.paymentPerRequest.toNat := Nat.mul_div_le _ _

/-- An advance pays one share, to its caller, and keeps the accounts. -/
theorem Request.Accounted.advance {spec : PipelineJobSpec} (h : request.Accounted spec)
    (hflying : request.state = .inFlight) (caller : H160) :
    (advanced request caller spec).Accounted spec ∧
      request.progress.toNat < (advanced request caller spec).progress.toNat ∧
      ∀ worker, ((advanced request caller spec).earned worker).toNat =
        (request.earned worker).toNat + if worker = caller then spec.stageShare.toNat else 0 := by
  -- In flight, the request has not reached the last stage.
  have hbefore : request.progress.toNat < spec.stageCount.toNat := by
    have hne : request.progress ≠ spec.stageCount := by
      intro hlast
      rw [h.completed.mpr hlast] at hflying
      cases hflying
    have hne' : request.progress.toNat ≠ spec.stageCount.toNat :=
      fun heq => hne (UInt32.toNat_inj.mp heq)
    have := h.bounded
    omega
  have hnext : (request.progress + 1).toNat = request.progress.toNat + 1 := by
    have hlt := spec.stageCount.toNat_lt
    rw [UInt32.toNat_add, UInt32.toNat_one]
    omega
  have hpays : (request.progress.toNat + 1) * spec.stageShare.toNat ≤
      spec.paymentPerRequest.toNat := share_mul_le hbefore
  have hfits : (request.paymentEarned.map (·.2.toNat)).sum + spec.stageShare.toNat < 2 ^ 128 := by
    have htotal := h.total
    rw [totalPaid] at htotal
    rw [htotal, ← Nat.succ_mul]
    exact lt_of_le_of_lt hpays spec.paymentPerRequest.isLt
  obtain ⟨hsum, hself, hothers⟩ := credit_spec caller spec.stageShare request.paymentEarned hfits
  have htotal : (advanced request caller spec).totalPaid =
      (request.progress.toNat + 1) * spec.stageShare.toNat := by
    have hold := h.total
    simp only [totalPaid] at hold
    simp only [totalPaid, advanced, hsum, hold]
    rw [Nat.succ_mul]
  refine ⟨⟨?_, ?_, ?_, ?_⟩, ?_, fun worker => ?_⟩
  · simp only [advanced, hnext]
    omega
  · by_cases hlast : request.progress + 1 = spec.stageCount <;> simp [advanced, hlast]
  · rw [htotal]
    simp only [advanced, hnext]
  · rw [htotal]
    exact hpays
  · simp only [advanced, hnext]
    omega
  · by_cases hworker : worker = caller
    · subst hworker
      have hle := earned_le_totalPaid request worker
      simp only [earned, totalPaid] at hle
      simp only [earned, advanced, hself, BitVec.toNat_add, if_true]
      exact Nat.mod_eq_of_lt (by omega)
    · simp only [earned, advanced, hothers worker hworker, if_neg hworker, Nat.add_zero]

/-! ## Steps -/

/-- A request among these jobs and payments: its job exists and has stages, and its
accounts are kept. -/
def Request.Sound (jobs : Nat → Option Job) (paid : List Payment) (id : Nat)
    (request : Request) : Prop :=
  ∃ job, jobs request.jobId = some job ∧ job.spec.stageCount ≠ 0 ∧
    request.Accounted job.spec ∧ ∀ worker, (request.earned worker).toNat =
      paid.countP (fun p => p.request = id ∧ p.worker = worker) * job.spec.stageShare.toNat

/-- What carries the induction: ids ahead of the counters are free, and a paid
stage is behind its request. -/
structure State.Sound (s : State) (paid : List Payment) : Prop where
  requests : ∀ id request, s.requests id = some request → request.Sound s.jobs paid id
  once : (paid.map fun p => (p.request, p.stage)).Nodup
  behind : ∀ p ∈ paid, ∃ request, s.requests p.request = some request ∧
    p.stage.toNat < request.progress.toNat
  freshJobs : ∀ id, s.nextJobId ≤ id → s.jobs id = none
  freshRequests : ∀ id, s.nextRequestId ≤ id → s.requests id = none

theorem sound_new : State.new.Sound [] where
  requests := by
    intro id request h
    cases h
  once := List.nodup_nil
  behind := fun _ h => absurd h List.not_mem_nil
  freshJobs := fun _ _ => rfl
  freshRequests := fun _ _ => rfl

variable {paid : List Payment}

theorem State.Sound.accounted (h : s.Sound paid) : s.Accounted paid where
  requests := by
    intro id request hrequest job hjob
    obtain ⟨job', hjob', -, haccounted, -⟩ := h.requests id request hrequest
    obtain rfl := Option.some.inj (hjob.symm.trans hjob')
    exact haccounted
  once := h.once
  earned := by
    intro id request hrequest job hjob worker
    obtain ⟨job', hjob', -, -, hearned⟩ := h.requests id request hrequest
    obtain rfl := Option.some.inj (hjob.symm.trans hjob')
    exact hearned worker

/-- A step that leaves the requests, and the specs of the jobs that exist. -/
theorem State.Sound.ofJobs (h : s.Sound paid) (hrequests : s'.requests = s.requests)
    (hnext : s'.nextRequestId = s.nextRequestId)
    (hspecs : ∀ id job, s.jobs id = some job → ∃ job', s'.jobs id = some job' ∧ job'.spec = job.spec)
    (hfresh : ∀ id, s'.nextJobId ≤ id → s'.jobs id = none) : s'.Sound paid where
  requests := by
    intro id request hrequest
    rw [hrequests] at hrequest
    obtain ⟨job, hjob, hstages, haccounted, hearned⟩ := h.requests id request hrequest
    obtain ⟨job', hjob', hspec⟩ := hspecs _ job hjob
    exact ⟨job', hjob', hspec ▸ hstages, hspec ▸ haccounted, hspec ▸ hearned⟩
  once := h.once
  behind := by
    rw [hrequests]
    exact h.behind
  freshJobs := hfresh
  freshRequests := by
    rw [hrequests, hnext]
    exact h.freshRequests

theorem State.Sound.createActiveJob (h : s.Sound paid) (job : Job) :
    ({ s with
      nextJobId := s.nextJobId + 1
      jobs := Function.update s.jobs s.nextJobId (some job) } : State).Sound paid := by
  refine h.ofJobs rfl rfl (fun id old hold => ?_) (fun id hid => ?_)
  · have hne : id ≠ s.nextJobId := by
      rintro rfl
      rw [h.freshJobs _ le_rfl] at hold
      cases hold
    exact ⟨old, (Function.update_of_ne hne _ _).trans hold, rfl⟩
  · have hle : s.nextJobId + 1 ≤ id := hid
    exact (Function.update_of_ne (by omega) _ _).trans (h.freshJobs id (by omega))

theorem State.Sound.setStage (h : s.Sound paid) (stage : StageIndex) (owner : Option H160) :
    (s.setStage id stage owner).Sound paid := by
  obtain ⟨hrequests, hnextJob, hnext, hspecs⟩ := s.setStage_spec id stage owner
  refine h.ofJobs hrequests hnext (fun other job hjob => ?_) (fun other hother => ?_)
  · have hspec := hspecs other
    rw [hjob, Option.map_some] at hspec
    exact Option.map_eq_some_iff.mp hspec
  · have hspec := hspecs other
    rw [hnextJob] at hother
    rw [h.freshJobs other hother, Option.map_none] at hspec
    exact Option.map_eq_none_iff.mp hspec

/-- A request that was just submitted has paid nothing. -/
theorem State.Sound.submit (h : s.Sound paid) (requester : H160)
    (hjob : s.jobs id = some job) (hstages : job.spec.stageCount ≠ 0) :
    ({ s with
      nextRequestId := s.nextRequestId + 1
      requests := Function.update s.requests s.nextRequestId
        (some ⟨id, requester, 0, .inFlight, []⟩) } : State).Sound paid := by
  have hfree := h.freshRequests s.nextRequestId le_rfl
  have hold : ∀ p ∈ paid, p.request ≠ s.nextRequestId := by
    intro p hp heq
    obtain ⟨request, hrequest, -⟩ := h.behind p hp
    rw [heq, hfree] at hrequest
    cases hrequest
  constructor
  case requests =>
    intro other request hrequest
    dsimp only at hrequest ⊢
    by_cases hother : other = s.nextRequestId
    · subst hother
      rw [Function.update_self] at hrequest
      obtain rfl := Option.some.inj hrequest
      refine ⟨job, hjob, hstages, ⟨Nat.zero_le _, ?_, ?_, Nat.zero_le _⟩, fun worker => ?_⟩
      · simpa using hstages.symm
      · simp [Request.totalPaid]
      · have hnone : paid.countP (fun p => p.request = s.nextRequestId ∧ p.worker = worker) = 0 := by
          rw [List.countP_eq_zero]
          intro p hp
          simp [hold p hp]
        rw [hnone, Nat.zero_mul]
        rfl
    · rw [Function.update_of_ne hother] at hrequest
      exact h.requests other request hrequest
  case once => exact h.once
  case behind =>
    intro p hp
    dsimp only
    rw [Function.update_of_ne (hold p hp)]
    exact h.behind p hp
  case freshJobs => exact h.freshJobs
  case freshRequests =>
    intro other hother
    have hle : s.nextRequestId + 1 ≤ other := hother
    exact (Function.update_of_ne (by omega) _ _).trans (h.freshRequests other (by omega))

/-- An advance pays the stage it leaves. -/
theorem State.Sound.advance (h : s.Sound paid) {caller : H160}
    (hadvances : s.Advances id caller request job) :
    ({ s with
      requests := Function.update s.requests id
        (some (advanced request caller job.spec)) } : State).Sound
      (paid ++ [⟨id, request.progress, caller⟩]) := by
  obtain ⟨job', hjob', hstages, haccounted, hearned⟩ :=
    h.requests id request hadvances.found
  obtain rfl := Option.some.inj (hadvances.jobFound.symm.trans hjob')
  obtain ⟨hafter, hfurther, hpaid⟩ := haccounted.advance hadvances.flying caller
  constructor
  case requests =>
    intro other request' hrequest'
    dsimp only at hrequest' ⊢
    by_cases hother : other = id
    · subst hother
      rw [Function.update_self] at hrequest'
      obtain rfl := Option.some.inj hrequest'
      refine ⟨job, hadvances.jobFound, hstages, hafter, fun worker => ?_⟩
      rw [hpaid worker, hearned worker, List.countP_append, Nat.add_mul]
      by_cases hworker : worker = caller
      · simp [hworker]
      · simp [hworker, Ne.symm hworker]
    · rw [Function.update_of_ne hother] at hrequest'
      obtain ⟨job', hjob', hstages', haccounted', hearned'⟩ :=
        h.requests other request' hrequest'
      refine ⟨job', hjob', hstages', haccounted', fun worker => ?_⟩
      rw [hearned' worker, List.countP_append]
      simp [Ne.symm hother]
  case once =>
    rw [List.map_append, List.nodup_append]
    refine ⟨h.once, List.nodup_singleton _, ?_⟩
    rintro pair hpair _ hnew rfl
    obtain ⟨p, hp, rfl⟩ := List.mem_map.mp hpair
    obtain ⟨hrequest, hstage⟩ := Prod.mk.inj (List.mem_singleton.mp hnew)
    -- A paid stage is behind the request.
    obtain ⟨request', hrequest', hbehind⟩ := h.behind p hp
    rw [hrequest] at hrequest'
    obtain rfl := Option.some.inj (hadvances.found.symm.trans hrequest')
    rw [hstage] at hbehind
    exact absurd hbehind (lt_irrefl _)
  case behind =>
    intro p hp
    rcases List.mem_append.mp hp with hold | hnew
    · obtain ⟨request', hrequest', hbehind⟩ := h.behind p hold
      by_cases hsame : p.request = id
      · rw [hsame] at hrequest'
        obtain rfl := Option.some.inj (hadvances.found.symm.trans hrequest')
        refine ⟨_, ?_, hbehind.trans hfurther⟩
        rw [hsame]
        exact Function.update_self _ _ _
      · exact ⟨request', (Function.update_of_ne hsame _ _).trans hrequest', hbehind⟩
    · obtain rfl := List.mem_singleton.mp hnew
      exact ⟨_, Function.update_self _ _ _, hfurther⟩
  case freshJobs => exact h.freshJobs
  case freshRequests =>
    intro other hother
    have hfree := h.freshRequests other hother
    have hne : other ≠ id := by
      rintro rfl
      rw [hadvances.found] at hfree
      cases hfree
    exact (Function.update_of_ne hne _ _).trans hfree

/-- A step keeps the accounts, with the payment it makes added. -/
theorem sound_step (hstages : HasStages s op) (h : s.Sound paid) :
    (pipeline.step s op).Sound (paid ++ (s.payment op).toList) := by
  cases op with
  | createActiveJob spec stageOwners hcount =>
      simp only [pipeline, State.perform, State.createActiveJob_eq hcount, State.payment,
        Option.toList_none, List.append_nil]
      exact h.createActiveJob _
  | submitRequest id requester =>
      simp only [pipeline, State.perform, State.payment, Option.toList_none, List.append_nil]
      split
      · rename_i s' hok
        obtain ⟨job, hjob, rfl⟩ := State.submitRequest_ok hok
        exact h.submit requester hjob (hstages id requester rfl job hjob)
      · exact h
  | faultStage id stage =>
      simp only [pipeline, State.perform, State.payment, Option.toList_none, List.append_nil]
      exact h.setStage stage none
  | reassignStage id stage newOwner =>
      simp only [pipeline, State.perform, State.payment, Option.toList_none, List.append_nil]
      exact h.setStage stage (some newOwner)
  | advanceRequest id caller =>
      simp only [pipeline, State.perform, State.payment]
      cases hadvance : s.advanceRequest id caller with
      | error stop =>
          simp only [Option.toList_none, List.append_nil]
          exact h
      | ok s' =>
          obtain ⟨request, job, hadvances, rfl⟩ := State.advanceRequest_ok hadvance
          simp only [hadvances.found, Option.map_some, Option.toList_some]
          exact h.advance hadvances

/-- An advance of a request of a job with stages does not panic. -/
theorem advanceRequest_ne_panic (h : s.Sound paid) (caller : H160) :
    s.advanceRequest id caller ≠ .error .panic := by
  simp only [State.advanceRequest]
  split
  · simp
  · rename_i request hrequest
    obtain ⟨job, hjob, hstages, -, -⟩ := h.requests id request hrequest
    split
    · simp
    · rw [hjob]
      dsimp only
      split
      · simp
      · split
        · simp
        · simp

theorem step_accounted (hstages : HasStages s op) (h : s.Sound paid) :
    s.StepAccounted op (pipeline.step s op) where
  noPanic := by
    cases op with
    | createActiveJob spec stageOwners hcount =>
        rw [State.perform, State.createActiveJob_eq hcount]
        simp
    | submitRequest id requester =>
        simp only [State.perform, State.submitRequest]
        split <;> simp
    | faultStage id stage => simp [State.perform]
    | reassignStage id stage newOwner => simp [State.perform]
    | advanceRequest id caller => exact advanceRequest_ne_panic h caller
  progress := by
    intro id request hrequest
    have hsame : ∃ request', s.requests id = some request' ∧ request'.jobId = request.jobId ∧
        request.progress.toNat ≤ request'.progress.toNat :=
      ⟨request, hrequest, rfl, le_rfl⟩
    cases op with
    | createActiveJob spec stageOwners hcount =>
        simp only [pipeline, State.perform, State.createActiveJob_eq hcount]
        exact hsame
    | submitRequest id' requester =>
        simp only [pipeline, State.perform]
        split
        · rename_i s' hok
          obtain ⟨job, hjob, rfl⟩ := State.submitRequest_ok hok
          have hne : id ≠ s.nextRequestId := by
            rintro rfl
            rw [h.freshRequests _ le_rfl] at hrequest
            cases hrequest
          exact ⟨request, (Function.update_of_ne hne _ _).trans hrequest, rfl, le_rfl⟩
        · exact hsame
    | faultStage id' stage =>
        simp only [pipeline, State.perform, (s.setStage_spec id' stage none).1]
        exact hsame
    | reassignStage id' stage newOwner =>
        simp only [pipeline, State.perform, (s.setStage_spec id' stage (some newOwner)).1]
        exact hsame
    | advanceRequest id' caller =>
        simp only [pipeline, State.perform]
        split
        · rename_i s' hok
          obtain ⟨request', job, hadvances, rfl⟩ := State.advanceRequest_ok hok
          by_cases hid : id = id'
          · subst hid
            obtain rfl := Option.some.inj (hadvances.found.symm.trans hrequest)
            obtain ⟨job', hjob', -, haccounted, -⟩ := h.requests id request' hrequest
            obtain rfl := Option.some.inj (hadvances.jobFound.symm.trans hjob')
            have hfurther := (haccounted.advance hadvances.flying caller).2.1
            exact ⟨_, Function.update_self _ _ _, rfl, hfurther.le⟩
          · exact ⟨request, (Function.update_of_ne hid _ _).trans hrequest, rfl, le_rfl⟩
        · exact hsame
  paysOwner := by
    intro p hp
    cases op with
    | createActiveJob spec stageOwners hcount => simp [State.payment] at hp
    | submitRequest id requester => simp [State.payment] at hp
    | faultStage id stage => simp [State.payment] at hp
    | reassignStage id stage newOwner => simp [State.payment] at hp
    | advanceRequest id caller =>
        simp only [State.payment] at hp
        split at hp
        · rename_i s' hok
          obtain ⟨request, job, hadvances, -⟩ := State.advanceRequest_ok hok
          rw [hadvances.found, Option.map_some] at hp
          obtain rfl := Option.some.inj hp
          exact ⟨request, job, hadvances.found, hadvances.jobFound, rfl, hadvances.owned⟩
        · cases hp

/-! ## Runs -/

theorem payments_concat (s : State) (front : List Op) (op : Op) :
    payments s (front ++ [op]) =
      payments s front ++ ((pipeline.run s front).payment op).toList := by
  induction front generalizing s with
  | nil => simp [payments]
  | cons first front ih =>
      rw [List.cons_append, payments, payments, ih, Machine.run_cons, List.append_assoc]

theorem sound_run (ops : List Op) (hstages : pipeline.Along HasStages State.new ops) :
    (pipeline.run State.new ops).Sound (payments State.new ops) := by
  induction ops using List.reverseRecOn with
  | nil => exact sound_new
  | append_singleton front op ih =>
      obtain ⟨hfront, hop⟩ := Machine.along_concat.mp hstages
      rw [Machine.run_concat, payments_concat]
      exact sound_step hop (ih hfront)

/-- A request of a job of no stages is at its end, and in flight. -/
theorem not_accounted_of_no_stages (hno : ¬ HasStages s op) (paid : List Payment) :
    ¬ (pipeline.step s op).Accounted paid := by
  simp only [HasStages, not_forall, not_not] at hno
  obtain ⟨id, requester, rfl, job, hjob, hzero⟩ := hno
  intro haccounted
  have hstep : pipeline.step s (.submitRequest id requester) =
      { s with
        nextRequestId := s.nextRequestId + 1
        requests := Function.update s.requests s.nextRequestId
          (some ⟨id, requester, 0, .inFlight, []⟩) } := by
    simp [pipeline, State.perform, State.submitRequest, hjob]
  rw [hstep] at haccounted
  have hrequest := haccounted.requests s.nextRequestId _ (Function.update_self _ _ _) job hjob
  have hdone := hrequest.completed.mpr hzero.symm
  cases hdone

/-- **The accounts of a pipeline** are kept along a run, in every state and by
every operation, exactly when no request of the run is submitted to a job of no
stages. -/
theorem accounted_iff (ops : List Op) :
    ((∀ front, front <+: ops →
        (pipeline.run State.new front).Accounted (payments State.new front)) ∧
      ∀ front op, front ++ [op] <+: ops →
        (pipeline.run State.new front).StepAccounted op
          (pipeline.run State.new (front ++ [op]))) ↔
      pipeline.Along HasStages State.new ops := by
  constructor
  · rintro ⟨haccounted, -⟩
    rw [Machine.along_iff_forall_prefix]
    intro front op hfront
    by_contra hno
    have hafter := haccounted (front ++ [op]) hfront
    rw [Machine.run_concat] at hafter
    exact not_accounted_of_no_stages hno _ hafter
  · intro hstages
    refine ⟨fun front hfront => (sound_run front (hstages.of_prefix hfront)).accounted,
      fun front op hfront => ?_⟩
    have hop := Machine.along_iff_forall_prefix.mp hstages front op hfront
    have hbefore := hstages.of_prefix ((List.prefix_append _ _).trans hfront)
    rw [Machine.run_concat]
    exact step_accounted hop (sound_run front hbefore)

/-- A job of no stages is created with no owners, its stage 0 is given to a worker,
and a request is submitted to it. -/
def noStagesRun : List Op :=
  [.createActiveJob ⟨0, 100, 0, default⟩ [] rfl, .reassignStage 0 0 default,
    .submitRequest 0 default]

/-- Advancing the request divides by zero. -/
theorem no_stages_panics :
    ¬ ∀ (ops : List Op) (op : Op), (pipeline.run State.new ops).perform op ≠ .error .panic := by
  intro hnever
  exact hnever noStagesRun (.advanceRequest 0 default) rfl

end PipelineChain
end Worker
end ComputePool
