import ComputePool.Federated.Basic

/-!
# Epoch aggregation

The coordinator of a training epoch drains its inbox until it has accepted as
many step commits as there are pairs of a member and a step (`worker.rs`).
`try_accept` keeps out other epochs, strangers and duplicates, but it does not
compare the step with the number of steps in the epoch.
-/

namespace ComputePool
namespace Worker

open RustStd Federated

/-- A step's commitment envelope. -/
structure StepCommit where
  epoch : UInt32
  step : UInt32
  worker : H160
  commitment : B32
  prevWeights : B32
  deriving DecidableEq

/-- Messages exchanged between workers and coordinator on the mesh. -/
inductive WorkerMessage where
  | stepCommitted (commit : StepCommit)
  | stepAdvance (epoch step : UInt32)
  | epochClose (epoch : UInt32)
  | pipelineActivation (requestId : UInt64) (fromStage toStage : UInt32) (fromWorker : H160)
      (payload : List UInt8)

structure EpochAggregator where
  epoch : UInt32
  members : Finset H160
  seen : Finset (H160 × UInt32)
  accepted : List StepCommit

namespace EpochAggregator

def new (epoch : UInt32) (members : List H160) : EpochAggregator where
  epoch := epoch
  members := members.toFinset
  seen := ∅
  accepted := []

variable (agg : EpochAggregator)

/-- Accept a commit if it is for this epoch, from a member, and the first one
seen for its (worker, step) pair. -/
def tryAccept (commit : StepCommit) : EpochAggregator × Bool :=
  if commit.epoch ≠ agg.epoch then (agg, false)
  else if commit.worker ∉ agg.members then (agg, false)
  else if (commit.worker, commit.step) ∈ agg.seen then (agg, false)
  else
    ({ agg with
        seen := insert (commit.worker, commit.step) agg.seen
        accepted := agg.accepted ++ [commit] }, true)

def len : Nat := agg.accepted.length

/-- What one message of the inbox does. -/
def receive : WorkerMessage → EpochAggregator
  | .stepCommitted commit => (agg.tryAccept commit).1
  | _ => agg

end EpochAggregator

/-- What `transport.recv` under its timeout returns. -/
inductive Received where
  | message (m : WorkerMessage)
  | closed
  | timedOut

/-- How the drain loop stands after an inbox: still waiting, failed, or stopped
with the messages it did not read. -/
inductive Drained where
  | waiting
  | failed
  | complete (agg : EpochAggregator) (unread : List Received)

/-- `while agg.len() < expected_total`. -/
def drain (expectedTotal : Nat) (agg : EpochAggregator) : List Received → Drained
  | [] => if agg.len < expectedTotal then .waiting else .complete agg []
  | r :: rest =>
      if agg.len < expectedTotal then
        match r with
        | .message m => drain expectedTotal (agg.receive m) rest
        | .closed | .timedOut => .failed
      else .complete agg (r :: rest)

/-- The epoch the coordinator `me` aggregates. -/
structure EpochRun where
  epoch : UInt32
  members : List H160
  me : H160
  stepsPerEpoch : UInt32
  /-- What the backend commits to at each of the coordinator's own steps. -/
  commitment : Nat → B32
  prevWeights : Nat → B32

namespace EpochRun

variable (run : EpochRun)

/-- The coordinator's own commits of the epoch. -/
def myCommits : List StepCommit :=
  (List.range run.stepsPerEpoch.toNat).map fun step =>
    ⟨run.epoch, UInt32.ofNat step, run.me, run.commitment step, run.prevWeights step⟩

/-- `worker_count as usize * steps_per_epoch as usize`, where `worker_count` is
`snap.workers.len() as u32`. -/
def expectedTotal : Nat := run.members.length % 2 ^ 32 * run.stepsPerEpoch.toNat

/-- The aggregation of an inbox, after the coordinator's own commits. -/
def aggregate (inbox : List Received) : Drained :=
  drain run.expectedTotal
    (run.myCommits.foldl (fun agg c => (agg.tryAccept c).1)
      (EpochAggregator.new run.epoch run.members)) inbox

/-- A commit of this epoch by a member, for a step the epoch does not have. -/
def Stray (c : StepCommit) : Prop :=
  c.epoch = run.epoch ∧ c.worker ∈ run.members ∧ run.stepsPerEpoch ≤ c.step

instance (c : StepCommit) : Decidable (run.Stray c) :=
  inferInstanceAs (Decidable (_ ∧ _ ∧ _))

/-- No message of the list is a stray commit. -/
def NoStray (inbox : List Received) : Prop :=
  ∀ c, Received.message (.stepCommitted c) ∈ inbox → ¬ run.Stray c

/-- The accepted set is the grid: one commit for each pair of a member and a
step of the epoch, and nothing else. -/
structure Complete (agg : EpochAggregator) : Prop where
  nodup : (agg.accepted.map fun c => (c.worker, c.step)).Nodup
  grid : ∀ worker step, (∃ c ∈ agg.accepted, c.worker = worker ∧ c.step = step) ↔
    worker ∈ run.members ∧ step < run.stepsPerEpoch
  epoch : ∀ c ∈ agg.accepted, c.epoch = run.epoch

end EpochRun

/-! ## What the aggregator keeps -/

/-- The invariant of the aggregator: `seen` is the set of keys of what was
accepted, each accepted once, all of them by members and for the epoch. -/
structure EpochAggregator.Sound (run : EpochRun) (agg : EpochAggregator) : Prop where
  epoch_eq : agg.epoch = run.epoch
  members_eq : agg.members = run.members.toFinset
  seen_iff : ∀ key, key ∈ agg.seen ↔ ∃ c ∈ agg.accepted, (c.worker, c.step) = key
  nodup : (agg.accepted.map fun c => (c.worker, c.step)).Nodup
  accepted_epoch : ∀ c ∈ agg.accepted, c.epoch = run.epoch
  accepted_member : ∀ c ∈ agg.accepted, c.worker ∈ run.members

namespace EpochAggregator

variable {run : EpochRun} {agg : EpochAggregator}

theorem sound_new : (new run.epoch run.members).Sound run where
  epoch_eq := rfl
  members_eq := rfl
  seen_iff := by simp [new]
  nodup := by simp [new]
  accepted_epoch := by simp [new]
  accepted_member := by simp [new]

/-- Either the commit is turned away, or it is the first of its key, by a member
and for the epoch, and is added. -/
theorem tryAccept_cases (h : agg.Sound run) (commit : StepCommit) :
    ((agg.tryAccept commit).1 = agg ∧
        (commit.epoch ≠ run.epoch ∨ commit.worker ∉ run.members ∨
          ∃ c ∈ agg.accepted, c.worker = commit.worker ∧ c.step = commit.step)) ∨
      ((agg.tryAccept commit).1.accepted = agg.accepted ++ [commit] ∧
        (agg.tryAccept commit).1.seen = insert (commit.worker, commit.step) agg.seen ∧
        (agg.tryAccept commit).1.epoch = agg.epoch ∧
        (agg.tryAccept commit).1.members = agg.members ∧
        commit.epoch = run.epoch ∧ commit.worker ∈ run.members ∧
        ∀ c ∈ agg.accepted, ¬ (c.worker = commit.worker ∧ c.step = commit.step)) := by
  unfold tryAccept
  split
  · rename_i hepoch
    exact .inl ⟨rfl, .inl (h.epoch_eq ▸ hepoch)⟩
  · rename_i hepoch
    split
    · rename_i hmember
      rw [h.members_eq, List.mem_toFinset] at hmember
      exact .inl ⟨rfl, .inr (.inl hmember)⟩
    · rename_i hmember
      rw [h.members_eq, List.mem_toFinset, not_not] at hmember
      split
      · rename_i hseen
        obtain ⟨c, hc, hkey⟩ := (h.seen_iff _).mp hseen
        exact .inl ⟨rfl, .inr (.inr ⟨c, hc, Prod.ext_iff.mp hkey⟩)⟩
      · rename_i hseen
        refine .inr ⟨rfl, rfl, rfl, rfl, ?_, hmember, fun c hc hkey => ?_⟩
        · exact (not_not.mp hepoch).trans h.epoch_eq
        · exact hseen ((h.seen_iff _).mpr ⟨c, hc, Prod.ext hkey.1 hkey.2⟩)

theorem Sound.tryAccept (h : agg.Sound run) (commit : StepCommit) :
    (agg.tryAccept commit).1.Sound run := by
  obtain ⟨hsame, -⟩ | ⟨haccepted, hseen, hepoch, hmembers, hcepoch, hcmember, hfirst⟩ :=
    tryAccept_cases h commit
  · rw [hsame]
    exact h
  · constructor
    · exact hepoch.trans h.epoch_eq
    · exact hmembers.trans h.members_eq
    · intro key
      rw [hseen, haccepted, Finset.mem_insert, h.seen_iff]
      simp only [List.mem_append, List.mem_singleton, or_and_right, exists_or, exists_eq_left]
      rw [eq_comm, or_comm]
    · rw [haccepted, List.map_append, List.nodup_append]
      refine ⟨h.nodup, by simp, ?_⟩
      rintro key hkey key' hkey' rfl
      obtain ⟨c, hc, rfl⟩ := List.mem_map.mp hkey
      simp only [List.map_cons, List.map_nil, List.mem_singleton, Prod.mk.injEq] at hkey'
      exact hfirst c hc hkey'
    · intro c hc
      rw [haccepted] at hc
      rcases List.mem_append.mp hc with hc | hc
      · exact h.accepted_epoch c hc
      · exact List.mem_singleton.mp hc ▸ hcepoch
    · intro c hc
      rw [haccepted] at hc
      rcases List.mem_append.mp hc with hc | hc
      · exact h.accepted_member c hc
      · exact List.mem_singleton.mp hc ▸ hcmember

theorem Sound.receive (h : agg.Sound run) (m : WorkerMessage) : (agg.receive m).Sound run := by
  cases m with
  | stepCommitted commit => exact h.tryAccept commit
  | _ => exact h

/-- Accepted commits are never dropped. -/
theorem subset_tryAccept (h : agg.Sound run) (commit : StepCommit) :
    agg.accepted ⊆ (agg.tryAccept commit).1.accepted := by
  obtain ⟨hsame, -⟩ | ⟨haccepted, -⟩ := tryAccept_cases h commit
  · rw [hsame]
    exact List.Subset.refl _
  · rw [haccepted]
    exact List.subset_append_left _ _

/-- A stray commit that is offered ends up accepted, now or earlier. -/
theorem stray_accepted (h : agg.Sound run) {commit : StepCommit} (hstray : run.Stray commit) :
    ∃ c ∈ (agg.tryAccept commit).1.accepted, run.Stray c := by
  obtain ⟨hepoch, hmember, hstep⟩ := hstray
  obtain ⟨hsame, hbad | hbad | ⟨c, hc, -, hsameStep⟩⟩ | ⟨haccepted, -⟩ :=
    tryAccept_cases h commit
  · exact absurd hepoch hbad
  · exact absurd hmember hbad
  · rw [hsame]
    exact ⟨c, hc, h.accepted_epoch c hc, h.accepted_member c hc, hsameStep ▸ hstep⟩
  · rw [haccepted]
    exact ⟨commit, by simp, hepoch, hmember, hstep⟩

/-- A commit that is accepted was there before, or is the one offered. -/
theorem mem_tryAccept (h : agg.Sound run) {commit c : StepCommit}
    (hc : c ∈ (agg.tryAccept commit).1.accepted) : c ∈ agg.accepted ∨ c = commit := by
  obtain ⟨hsame, -⟩ | ⟨haccepted, -⟩ := tryAccept_cases h commit
  · exact .inl (hsame ▸ hc)
  · rw [haccepted] at hc
    simpa using hc

theorem subset_receive (h : agg.Sound run) (m : WorkerMessage) :
    agg.accepted ⊆ (agg.receive m).accepted := by
  cases m with
  | stepCommitted commit => exact subset_tryAccept h commit
  | _ => exact List.Subset.refl _

theorem mem_receive (h : agg.Sound run) {m : WorkerMessage} {c : StepCommit}
    (hc : c ∈ (agg.receive m).accepted) : c ∈ agg.accepted ∨ m = .stepCommitted c := by
  cases m with
  | stepCommitted commit =>
      exact (mem_tryAccept h hc).imp_right fun hsame => congrArg WorkerMessage.stepCommitted hsame.symm
  | _ => exact .inl hc

end EpochAggregator

/-! ## The drain loop -/

namespace EpochRun

variable {run : EpochRun} {agg final : EpochAggregator} {read rest : List Received}
  {expected : Nat}

open EpochAggregator

/-- The loop stops at once when the count is reached. -/
theorem drain_of_le (h : expected ≤ agg.len) (inbox : List Received) :
    drain expected agg inbox = .complete agg inbox := by
  cases inbox with
  | nil => rw [drain, if_neg (not_lt.mpr h)]
  | cons r rest => cases r <;> rw [drain, if_neg (not_lt.mpr h)]

/-- Below the count the loop goes on only past a message. -/
theorem drain_cons_of_lt {r : Received} (h : agg.len < expected)
    (hdrain : drain expected agg (r :: read) = .complete final rest) :
    ∃ m, r = .message m ∧ drain expected (agg.receive m) read = .complete final rest := by
  cases r with
  | message m =>
      rw [drain, if_pos h] at hdrain
      exact ⟨m, rfl, hdrain⟩
  | closed =>
      rw [drain, if_pos h] at hdrain
      cases hdrain
  | timedOut =>
      rw [drain, if_pos h] at hdrain
      cases hdrain

/-- What the loop leaves unread is part of what it was given. -/
theorem drain_unread_le {inbox : List Received}
    (hdrain : drain expected agg inbox = .complete final rest) :
    rest.length ≤ inbox.length := by
  induction inbox generalizing agg with
  | nil =>
      rw [drain] at hdrain
      split at hdrain
      · cases hdrain
      · cases hdrain
        exact le_rfl
  | cons r read ih =>
      obtain hlt | hle := Nat.lt_or_ge agg.len expected
      · obtain ⟨m, -, hnext⟩ := drain_cons_of_lt hlt hdrain
        exact (ih hnext).trans (Nat.le_succ _)
      · rw [drain_of_le hle] at hdrain
        cases hdrain
        exact le_rfl

theorem len_receive_le (h : agg.Sound run) (m : WorkerMessage) :
    agg.len ≤ (agg.receive m).len ∧ (agg.receive m).len ≤ agg.len + 1 := by
  cases m with
  | stepCommitted commit =>
      obtain ⟨hsame, -⟩ | ⟨haccepted, -⟩ := tryAccept_cases h commit
      · simp [receive, hsame]
      · simp [receive, len, haccepted]
  | _ => exact ⟨le_rfl, Nat.le_succ _⟩

/-- What the drain loop has done when it stops after reading `read`: it kept
what it had, added nothing that it did not read, kept a stray commit if it read
one, and counted up to the expected total. -/
theorem drain_spec (h : agg.Sound run)
    (hdrain : drain expected agg (read ++ rest) = .complete final rest) :
    final.Sound run ∧ agg.accepted ⊆ final.accepted ∧
      (∀ c ∈ final.accepted, c ∈ agg.accepted ∨ Received.message (.stepCommitted c) ∈ read) ∧
      (∀ c, Received.message (.stepCommitted c) ∈ read → run.Stray c →
        ∃ c' ∈ final.accepted, run.Stray c') ∧
      final.len = max expected agg.len := by
  induction read generalizing agg with
  | nil =>
      obtain hlt | hle := Nat.lt_or_ge agg.len expected
      · -- the loop cannot stop before it has read something
        cases rest with
        | nil => simp [drain, hlt] at hdrain
        | cons r rest =>
            obtain ⟨m, -, hnext⟩ := drain_cons_of_lt hlt hdrain
            exact absurd (drain_unread_le hnext) (by simp)
      · rw [drain_of_le hle] at hdrain
        cases hdrain
        exact ⟨h, List.Subset.refl _, fun c hc => .inl hc, by simp, (max_eq_right hle).symm⟩
  | cons r read ih =>
      obtain hlt | hle := Nat.lt_or_ge agg.len expected
      · obtain ⟨m, rfl, hnext⟩ := drain_cons_of_lt hlt hdrain
        obtain ⟨hsound, hkept, hadded, hstray, hlen⟩ := ih (h.receive m) hnext
        have hstep := len_receive_le h m
        refine ⟨hsound, List.Subset.trans (subset_receive h m) hkept,
          fun c hc => ?_, fun c hc hbad => ?_, ?_⟩
        · obtain hold | hread := hadded c hc
          · obtain hbefore | rfl := mem_receive h hold
            · exact .inl hbefore
            · exact .inr List.mem_cons_self
          · exact .inr (List.mem_cons_of_mem _ hread)
        · rcases List.mem_cons.mp hc with hfirst | hlater
          · cases hfirst
            obtain ⟨c', hc', hbad'⟩ := stray_accepted h hbad
            exact ⟨c', hkept hc', hbad'⟩
          · exact hstray c hlater hbad
        · rw [hlen]
          omega
      · -- the loop stops before `r`, so it does not leave `rest` alone
        rw [drain_of_le hle] at hdrain
        injection hdrain with _ hunread
        exact absurd (congrArg List.length hunread) (by simp; omega)

/-! ## The coordinator's own commits -/

/-- The steps of an epoch fit their counter. -/
theorem toNat_ofNat_step {i : Nat} (h : i < run.stepsPerEpoch.toNat) :
    (UInt32.ofNat i).toNat = i :=
  UInt32.toNat_ofNat_of_lt' (h.trans run.stepsPerEpoch.toNat_lt)

theorem mem_myCommits {c : StepCommit} (hc : c ∈ run.myCommits) :
    c.epoch = run.epoch ∧ c.worker = run.me ∧ c.step < run.stepsPerEpoch := by
  obtain ⟨i, hi, rfl⟩ := List.mem_map.mp hc
  refine ⟨rfl, rfl, ?_⟩
  have hlt := List.mem_range.mp hi
  rw [UInt32.lt_iff_toNat_lt, toNat_ofNat_step hlt]
  exact hlt

/-- What the own commits leave: a sound aggregator of commits in range, one for
each step. -/
theorem own_spec (hme : run.me ∈ run.members) (commits : List StepCommit)
    (hcommits : ∀ c ∈ commits, c.epoch = run.epoch ∧ c.worker = run.me)
    (hsteps : (commits.map StepCommit.step).Nodup) (h : agg.Sound run)
    (hnew : ∀ c ∈ commits, ∀ c' ∈ agg.accepted, ¬ (c'.worker = c.worker ∧ c'.step = c.step)) :
    (commits.foldl (fun agg c => (agg.tryAccept c).1) agg).Sound run ∧
      (commits.foldl (fun agg c => (agg.tryAccept c).1) agg).accepted =
        agg.accepted ++ commits := by
  induction commits generalizing agg with
  | nil => exact ⟨h, by simp⟩
  | cons c rest ih =>
      rw [List.map_cons, List.nodup_cons] at hsteps
      obtain ⟨hepoch, hworker⟩ := hcommits c List.mem_cons_self
      obtain ⟨-, hbad | hbad | ⟨c', hc', hsame⟩⟩ | ⟨haccepted, -⟩ := tryAccept_cases h c
      · exact absurd hepoch hbad
      · exact absurd (hworker ▸ hme) hbad
      · exact absurd hsame (hnew c List.mem_cons_self c' hc')
      · have hrest : ∀ d ∈ rest, ∀ d' ∈ (agg.tryAccept c).1.accepted,
            ¬ (d'.worker = d.worker ∧ d'.step = d.step) := by
          intro d hd d' hd'
          rw [haccepted] at hd'
          rcases List.mem_append.mp hd' with hold | hlast
          · exact hnew d (List.mem_cons_of_mem _ hd) d' hold
          · rintro ⟨-, hstep⟩
            rw [List.mem_singleton.mp hlast] at hstep
            exact hsteps.1 (List.mem_map.mpr ⟨d, hd, hstep.symm⟩)
        obtain ⟨hsound, hall⟩ := ih (fun d hd => hcommits d (List.mem_cons_of_mem _ hd))
          hsteps.2 (h.tryAccept c) hrest
        refine ⟨hsound, ?_⟩
        rw [List.foldl_cons, hall, haccepted, List.append_assoc]
        rfl

theorem myCommits_steps_nodup : (run.myCommits.map StepCommit.step).Nodup := by
  rw [myCommits, List.map_map]
  refine List.Nodup.map_on ?_ List.nodup_range
  intro i hi j hj hij
  have hsame := congrArg UInt32.toNat hij
  simp only [Function.comp_apply] at hsame
  rwa [toNat_ofNat_step (List.mem_range.mp hi), toNat_ofNat_step (List.mem_range.mp hj)] at hsame

/-! ## Completeness -/

/-- The pairs of a member and a step of the epoch. -/
def grid (run : EpochRun) : Finset (H160 × Nat) :=
  run.members.toFinset ×ˢ Finset.range run.stepsPerEpoch.toNat

/-- The pairs an aggregator has accepted. -/
def covered (agg : EpochAggregator) : Finset (H160 × Nat) :=
  (agg.accepted.map fun c => (c.worker, c.step.toNat)).toFinset

theorem card_grid (hnodup : run.members.Nodup) :
    run.grid.card = run.members.length * run.stepsPerEpoch.toNat := by
  rw [grid, Finset.card_product, List.toFinset_card_of_nodup hnodup, Finset.card_range]

theorem mem_grid {worker : H160} {step : UInt32} :
    (worker, step.toNat) ∈ run.grid ↔ worker ∈ run.members ∧ step < run.stepsPerEpoch := by
  rw [grid, Finset.mem_product, List.mem_toFinset, Finset.mem_range, UInt32.lt_iff_toNat_lt]

theorem mem_covered {worker : H160} {step : UInt32} :
    (worker, step.toNat) ∈ covered agg ↔
      ∃ c ∈ agg.accepted, c.worker = worker ∧ c.step = step := by
  simp only [covered, List.mem_toFinset, List.mem_map, Prod.mk.injEq, UInt32.toNat_inj]

theorem card_covered (h : agg.Sound run) : (covered agg).card = agg.len := by
  have hmap : (agg.accepted.map fun c => (c.worker, c.step.toNat)) =
      (agg.accepted.map fun c => (c.worker, c.step)).map fun key => (key.1, key.2.toNat) := by
    simp
  have hinjective : Function.Injective fun key : H160 × UInt32 => (key.1, key.2.toNat) := by
    intro a b hab
    obtain ⟨hworker, hstep⟩ := Prod.mk.inj hab
    exact Prod.ext hworker (UInt32.toNat_inj.mp hstep)
  have hnodup : (agg.accepted.map fun c => (c.worker, c.step.toNat)).Nodup := by
    rw [hmap]
    exact h.nodup.map hinjective
  rw [covered, List.toFinset_card_of_nodup hnodup, List.length_map]
  rfl

/-- Without strays every accepted pair is on the grid. -/
theorem covered_subset_grid (h : agg.Sound run) (hclean : ∀ c ∈ agg.accepted, ¬ run.Stray c) :
    covered agg ⊆ run.grid := by
  intro key hkey
  obtain ⟨c, hc, rfl⟩ := List.mem_map.mp (List.mem_toFinset.mp hkey)
  have hmember := h.accepted_member c hc
  refine mem_grid.mpr ⟨hmember, ?_⟩
  by_contra hstep
  exact hclean c hc ⟨h.accepted_epoch c hc, hmember, UInt32.not_lt.mp hstep⟩

theorem Complete.covered_eq (hcomplete : run.Complete agg) : covered agg = run.grid := by
  ext ⟨worker, step⟩
  constructor
  · intro hkey
    obtain ⟨c, hc, hsame⟩ := List.mem_map.mp (List.mem_toFinset.mp hkey)
    rw [← hsame, mem_grid]
    exact (hcomplete.grid c.worker c.step).mp ⟨c, hc, rfl, rfl⟩
  · intro hkey
    have hstep : step < run.stepsPerEpoch.toNat :=
      Finset.mem_range.mp (Finset.mem_product.mp hkey).2
    rw [← toNat_ofNat_step hstep] at hkey ⊢
    exact mem_covered.mpr ((hcomplete.grid _ _).mpr (mem_grid.mp hkey))

/-- A sound set of commits is complete exactly when it has no strays and is as
large as the grid: then it fills the grid, being part of it. -/
theorem complete_iff (hnodup : run.members.Nodup) (h : agg.Sound run) :
    run.Complete agg ↔ (∀ c ∈ agg.accepted, ¬ run.Stray c) ∧
      agg.len = run.members.length * run.stepsPerEpoch.toNat := by
  constructor
  · intro hcomplete
    refine ⟨fun c hc hstray => ?_, ?_⟩
    · have hrange := ((hcomplete.grid c.worker c.step).mp ⟨c, hc, rfl, rfl⟩).2
      exact UInt32.not_lt.mpr hstray.2.2 hrange
    · rw [← card_covered h, hcomplete.covered_eq, card_grid hnodup]
  · rintro ⟨hclean, hlen⟩
    have hfull : covered agg = run.grid := by
      refine Finset.eq_of_subset_of_card_le (covered_subset_grid h hclean) ?_
      rw [card_grid hnodup, card_covered h, hlen]
    refine ⟨h.nodup, fun worker step => ?_, h.accepted_epoch⟩
    rw [← mem_covered, hfull, mem_grid]

/-- What the loop starts from: the coordinator's own commits. -/
theorem own_commits (hme : run.me ∈ run.members) :
    (run.myCommits.foldl (fun agg c => (agg.tryAccept c).1)
        (EpochAggregator.new run.epoch run.members)).Sound run ∧
      (run.myCommits.foldl (fun agg c => (agg.tryAccept c).1)
        (EpochAggregator.new run.epoch run.members)).accepted = run.myCommits := by
  refine own_spec hme run.myCommits (fun c hc => ?_) myCommits_steps_nodup sound_new ?_
  · obtain ⟨hepoch, hworker, -⟩ := mem_myCommits hc
    exact ⟨hepoch, hworker⟩
  · simp [EpochAggregator.new]

/-- The count the loop waits for is the size of the grid, unless the number of
members overflows its counter. -/
theorem max_expectedTotal (hme : run.me ∈ run.members) :
    max run.expectedTotal run.stepsPerEpoch.toNat =
        run.members.length * run.stepsPerEpoch.toNat ↔
      run.members.length < 2 ^ 32 ∨ run.stepsPerEpoch = 0 := by
  have hpos : 1 ≤ run.members.length := List.length_pos_of_mem hme
  rw [expectedTotal, ← UInt32.toNat_inj, UInt32.toNat_zero]
  constructor
  · intro hfull
    by_contra hover
    obtain ⟨hlarge, hsteps⟩ := not_or.mp hover
    have hpositive : 0 < run.stepsPerEpoch.toNat := Nat.pos_of_ne_zero hsteps
    have hwrapped : run.members.length % 2 ^ 32 < run.members.length :=
      (Nat.mod_lt _ (by decide)).trans_le (not_lt.mp hlarge)
    have hless := Nat.mul_lt_mul_of_pos_right hwrapped hpositive
    have hmany : 1 < run.members.length := by omega
    have hmore := Nat.mul_lt_mul_of_pos_right hmany hpositive
    omega
  · rintro (hfits | hzero)
    · rw [Nat.mod_eq_of_lt hfits]
      exact max_eq_left (Nat.le_mul_of_pos_left _ hpos)
    · simp [hzero]

/-- When the loop stops after reading `read`, its accepted set is complete if
and only if no message it read was a stray commit (and the number of members fits
the counter it is multiplied from): strays fill places of the count that honest
commits have not reached. -/
theorem aggregate_complete_iff (hnodup : run.members.Nodup) (hme : run.me ∈ run.members)
    (hstop : run.aggregate (read ++ rest) = .complete final rest) :
    run.Complete final ↔
      run.NoStray read ∧ (run.members.length < 2 ^ 32 ∨ run.stepsPerEpoch = 0) := by
  obtain ⟨hsound, hown⟩ := own_commits hme
  obtain ⟨hfinal, -, hadded, hstray, hlen⟩ := drain_spec hsound hstop
  have hownLen : (run.myCommits.foldl (fun agg c => (agg.tryAccept c).1)
      (EpochAggregator.new run.epoch run.members)).len = run.stepsPerEpoch.toNat := by
    rw [len, hown, myCommits, List.length_map, List.length_range]
  have hclean : (∀ c ∈ final.accepted, ¬ run.Stray c) ↔ run.NoStray read := by
    constructor
    · intro hnone c hc hbad
      obtain ⟨c', hc', hbad'⟩ := hstray c hc hbad
      exact hnone c' hc' hbad'
    · intro hnone c hc hbad
      obtain hmine | hread := hadded c hc
      · rw [hown] at hmine
        exact UInt32.not_lt.mpr hbad.2.2 (mem_myCommits hmine).2.2
      · exact hnone c hread hbad
  have hcount : final.len = run.members.length * run.stepsPerEpoch.toNat ↔
      (run.members.length < 2 ^ 32 ∨ run.stepsPerEpoch = 0) := by
    rw [hlen, hownLen, expectedTotal]
    exact max_expectedTotal hme
  rw [complete_iff hnodup hfinal, hclean, hcount]

/-- An epoch of one step, coordinated by the first of two members. -/
def twoMembers : EpochRun where
  epoch := 0
  members := [FixedBytes.ofNat 1, FixedBytes.ofNat 2]
  me := FixedBytes.ofNat 1
  stepsPerEpoch := 1
  commitment := fun _ => FixedBytes.zero
  prevWeights := fun _ => FixedBytes.zero

/-- The second member's commit for a step. -/
def peerCommit (step : UInt32) : Received :=
  .message (.stepCommitted ⟨0, step, FixedBytes.ofNat 2, FixedBytes.zero, FixedBytes.zero⟩)

/-- With the peer's honest commit the epoch is complete. -/
theorem honest_peer_completes :
    ∃ final, twoMembers.aggregate ([peerCommit 0] ++ []) = .complete final [] ∧
      twoMembers.Complete final := by
  refine ⟨_, rfl, ?_⟩
  refine (@aggregate_complete_iff twoMembers _ [peerCommit 0] [] (by decide) (by decide) rfl).mpr
    ⟨?_, by decide⟩
  intro c hc hstray
  cases List.mem_singleton.mp hc
  exact absurd hstray (by decide)

/-- A member that signs step 7 of a one-step epoch makes the loop stop without
its commit for step 0. -/
theorem stray_step_completes_early :
    twoMembers.members.Nodup ∧ twoMembers.me ∈ twoMembers.members ∧
      ∃ final, twoMembers.aggregate [peerCommit 7] = .complete final [] ∧
        ¬ twoMembers.Complete final := by
  refine ⟨by decide, by decide, _, rfl, fun hcomplete => ?_⟩
  obtain ⟨c, hc, hpeer, hstep⟩ := (hcomplete.grid (FixedBytes.ofNat 2) 0).mpr (by decide)
  revert hpeer hstep
  revert c
  decide

end EpochRun
end Worker
end ComputePool
