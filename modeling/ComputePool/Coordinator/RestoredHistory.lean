import ComputePool.Coordinator.Cooldown
import ComputePool.Coordinator.LapseCharge

/-!
# The history of a forgotten worker

A key that left the registry with no-shows keeps them in the penalties table, and
gets them back when it registers again.  Registering may first evict another worker,
whose own history goes into the same table; when the table is full the entry whose
cool-down ends first is dropped for it, and that may be the entry of the key that is
registering.
-/

namespace ComputePool
namespace Coordinator

open RustStd LeaseLedger

namespace State

variable {s : State} {now : Nat}

/-- If the registration of `w` succeeds, `w` has the history that was kept for its
key, and the table does not keep it any longer. -/
def RestoresHistory (s : State) (w : RegisteredWorker) (source : String) (now : Nat) : Prop :=
  ∀ p granted, s.penalties[w.id]? = some p → (s.register w source now).2 = .ok granted →
    (∃ r, (s.register w source now).1.workers[w.id]? = some r ∧ r.noshows = p.noshows ∧
      r.cooldownUntil = p.cooldownUntil) ∧
    (s.register w source now).1.penalties[w.id]? = none

/-- The entry that a full table drops to keep the history of `v`. -/
def penaltyVictim (s : State) (v : H160) : Option H160 :=
  if s.penalties.size ≥ MAX_WORKERS ∧ v ∉ s.penalties then
    (minByKey (fun e => e.2.cooldownUntil) s.penalties.toList).map Prod.fst
  else none

/-- A worker is forgotten with a history to keep. -/
def LeavesHistory (s : State) (v : H160) (now : Nat) : Prop :=
  ∃ r, s.workers[v]? = some r ∧ ¬ (r.noshows = 0 ∧ r.cooldownUntil ≤ now)

/-- The registration evicts a worker with a history, the table is full, and the
entry it drops is the one of the key that is registering. -/
def DropsHistory (s : State) (id : H160) (source : String) (now : Nat) : Prop :=
  ∃ v, s.newVictim id source now = .ok (some v) ∧ s.LeavesHistory v now ∧
    s.penaltyVictim v = some id

/-- What is kept of another key when a worker is forgotten. -/
theorem forgetWorker_penalty_of_ne {v id : H160} (hne : v ≠ id) :
    (s.LeavesHistory v now ∧ s.penaltyVictim v = some id ∧
        (s.forgetWorker v now).penalties[id]? = none) ∨
      (¬ (s.LeavesHistory v now ∧ s.penaltyVictim v = some id) ∧
        (s.forgetWorker v now).penalties[id]? = s.penalties[id]?) := by
  unfold forgetWorker
  cases hknown : s.workers[v]? with
  | none =>
      refine .inr ⟨fun h => ?_, rfl⟩
      have ⟨r, hr, _⟩ := h.1
      rw [hknown] at hr
      cases hr
  | some r =>
      dsimp only
      by_cases hclean : r.noshows = 0 ∧ r.cooldownUntil ≤ now
      · rw [if_pos hclean]
        refine .inr ⟨fun h => ?_, rfl⟩
        have ⟨r', hr', hhistory⟩ := h.1
        rw [hknown] at hr'
        cases hr'
        exact hhistory hclean
      · rw [if_neg hclean]
        have hleaves : s.LeavesHistory v now := ⟨r, hknown, hclean⟩
        dsimp only
        rw [get_insert, if_neg hne]
        by_cases hfull : s.penalties.size ≥ MAX_WORKERS ∧ v ∉ s.penalties
        · have hvictim : s.penaltyVictim v =
              (minByKey (fun e => e.2.cooldownUntil) s.penalties.toList).map Prod.fst := by
            rw [penaltyVictim, if_pos hfull]
          rw [if_pos hfull, hvictim]
          cases minByKey (fun e : H160 × Penalty => e.2.cooldownUntil) s.penalties.toList with
          | none => exact .inr ⟨fun h => (by cases h.2), rfl⟩
          | some oldest =>
              dsimp only [Option.map_some]
              rw [get_erase]
              by_cases hid : oldest.1 = id
              · rw [if_pos hid]
                exact .inl ⟨hleaves, congrArg some hid, rfl⟩
              · rw [if_neg hid]
                exact .inr ⟨fun h => hid (Option.some.inj h.2), rfl⟩
        · have hvictim : s.penaltyVictim v = none := by rw [penaltyVictim, if_neg hfull]
          rw [if_neg hfull, hvictim]
          exact .inr ⟨fun h => (by cases h.2), rfl⟩

/-- An entry that the table may drop is one it has. -/
theorem penaltyVictim_known {v id : H160} (h : s.penaltyVictim v = some id) :
    ∃ p, s.penalties[id]? = some p := by
  unfold penaltyVictim at h
  split at h
  · have ⟨entry, hmin, hid⟩ := Option.map_eq_some_iff.mp h
    exact ⟨entry.2, hid ▸ mem_entries.mp (minByKey_mem hmin)⟩
  · cases h

theorem admitWorker_penalty (w : RegisteredWorker) (source : String) :
    (s.admitWorker w source now).penalties[w.id]? = none := by
  unfold admitWorker
  dsimp only
  rw [get_erase, if_pos rfl]

/-- The new record has the kept history of its key. -/
theorem admitWorker_history (w : RegisteredWorker) (source : String) :
    ((s.admitWorker w source now).workers[w.id]?).map WorkerRecord.history =
      some ((s.penalties[w.id]?).getD Penalty.default) := by
  unfold admitWorker
  dsimp only
  rw [get_insert, if_pos rfl]
  rfl

/-! ## Nothing is kept of a worker without a history -/

/-- Every entry of the table is one. -/
def PenaltiesReal (s : State) : Prop :=
  ∀ (id : H160) (p : Penalty), s.penalties[id]? = some p → p ≠ Penalty.default

theorem forgetWorker_penaltiesReal (h : s.PenaltiesReal) (id : H160) :
    (s.forgetWorker id now).PenaltiesReal := by
  intro a p hget
  rcases forgetWorker_penalty hget with hbefore | ⟨r, -, -, hp, hhistory⟩
  · exact h a p hbefore
  · intro hdefault
    rw [hp] at hdefault
    have hnoshows : r.noshows = 0 := congrArg Penalty.noshows hdefault
    have hcooldown : r.cooldownUntil = 0 := congrArg Penalty.cooldownUntil hdefault
    exact hhistory ⟨hnoshows, hcooldown ▸ Nat.zero_le now⟩

theorem foldl_forgetWorker_penaltiesReal (h : s.PenaltiesReal) (victims : List H160) :
    (victims.foldl (fun s v => s.forgetWorker v now) s).PenaltiesReal := by
  induction victims generalizing s with
  | nil => exact h
  | cons v rest ih => exact ih (forgetWorker_penaltiesReal h v)

theorem register_penaltiesReal (h : s.PenaltiesReal) (w : RegisteredWorker)
    (source : String) : (s.register w source now).1.PenaltiesReal := by
  cases hknown : s.workers[w.id]? with
  | some r =>
      simp only [register, hknown]
      exact h
  | none =>
      have hevicted := @foldl_forgetWorker_penaltiesReal s.markDirty now h
        (s.evictions w source now)
      rcases register_new source now hknown with ⟨hrefused, -⟩ | ⟨hadmitted, -⟩
      · rw [hrefused]
        exact hevicted
      · rw [hadmitted]
        intro id p hget
        unfold admitWorker at hget
        dsimp only at hget
        rw [get_erase] at hget
        split at hget
        · cases hget
        · exact hevicted id p hget

theorem apply_penaltiesReal (env : Env) (h : s.PenaltiesReal) (e : Event) :
    (s.apply env e).PenaltiesReal := by
  rcases apply_histories env s e with
    ⟨w, source, hop⟩ | hsame | ⟨s₀, hbefore, -, -, hafter⟩ |
    ⟨w, job, result, s₀, -, -, -, hp, -, hcredit⟩
  · rw [apply, hop]
    exact register_penaltiesReal h w source
  · rw [PenaltiesReal, hsame.penalties]
    exact h
  · rw [PenaltiesReal, hafter.penalties, expireLeases_penalties, hbefore.penalties]
    exact h
  · rw [hcredit, PenaltiesReal]
    change ∀ (id : H160) (p : Penalty), s₀.penalties[id]? = some p → p ≠ Penalty.default
    rw [hp]
    exact h

/-- The exact condition, in a state within its bounds. -/
theorem restoresHistory_iff (hbound : s.workers.size ≤ MAX_WORKERS) (hreal : s.PenaltiesReal)
    {w : RegisteredWorker} (hnew : s.workers[w.id]? = none) (source : String) :
    s.RestoresHistory w source now ↔ ¬ s.DropsHistory w.id source now := by
  have hregister := register_unknown hbound hnew source now
  cases hnext : s.newVictim w.id source now with
  | error e =>
      -- a refusal restores nothing and drops nothing
      rw [hnext] at hregister
      refine iff_of_true (fun p granted _ hok => ?_) fun ⟨v, hv, _⟩ => ?_
      · rw [hregister] at hok
        cases hok
      · rw [hnext] at hv
        cases hv
  | ok victim =>
      rw [hnext] at hregister
      have hstate : (s.register w source now).1 =
          (s.markDirty.forget? victim now).admitWorker w source now :=
        congrArg Prod.fst hregister
      have hhistory := @admitWorker_history (s.markDirty.forget? victim now) now w source
      rw [← hstate] at hhistory
      have hgone : (s.register w source now).1.penalties[w.id]? = none := by
        rw [hstate]
        exact admitWorker_penalty w source
      have ⟨r, hr, hrecord⟩ := Option.map_eq_some_iff.mp hhistory
      -- what the table keeps of the key when the record is made
      have hkept : (s.DropsHistory w.id source now ∧
            (s.markDirty.forget? victim now).penalties[w.id]? = none) ∨
          (¬ s.DropsHistory w.id source now ∧
            (s.markDirty.forget? victim now).penalties[w.id]? = s.penalties[w.id]?) := by
        cases victim with
        | none =>
            refine .inr ⟨fun ⟨v, hv, _⟩ => ?_, rfl⟩
            rw [hnext] at hv
            cases hv
        | some v =>
            have hne : v ≠ w.id := by
              intro heq
              have ⟨r', hr'⟩ := newVictim_known hnext
              rw [heq, hnew] at hr'
              cases hr'
            have hforget := @forgetWorker_penalty_of_ne s.markDirty now _ _ hne
            rcases hforget with ⟨hleaves, hvictim, hnone⟩ | ⟨hkeeps, hsame⟩
            · exact .inl ⟨⟨v, hnext, hleaves, hvictim⟩, hnone⟩
            · refine .inr ⟨fun ⟨v', hv', hdrops⟩ => ?_, hsame⟩
              rw [hnext] at hv'
              cases hv'
              exact hkeeps hdrops
      rcases hkept with ⟨hdrops, hnone⟩ | ⟨hkeeps, hsame⟩
      · refine iff_of_false (fun hrestores => ?_) (not_not.mpr hdrops)
        have ⟨v, _, _, hvictim⟩ := hdrops
        have ⟨p, hp⟩ := penaltyVictim_known hvictim
        have ⟨⟨r', hr', hnoshows, hcooldown⟩, _⟩ :=
          hrestores p _ hp (congrArg Prod.snd hregister)
        rw [hr] at hr'
        cases hr'
        -- the record starts from nothing, and the entry did not
        rw [hnone, Option.getD_none] at hrecord
        apply hreal w.id p hp
        rw [← hrecord, WorkerRecord.history, hnoshows, hcooldown]
      · refine iff_of_true (fun p granted hp _ => ⟨⟨r, hr, ?_⟩, hgone⟩) hkeeps
        rw [hsame, hp, Option.getD_some] at hrecord
        exact ⟨congrArg Penalty.noshows hrecord, congrArg Penalty.cooldownUntil hrecord⟩

end State

theorem run_penaltiesReal (env : Env) (policy : Policy) (events : List Event) :
    ((machine env).run (World.init policy) events).state.PenaltiesReal := by
  refine Machine.run_invariant (P := fun _ _ => True)
    (fun world : World => world.state.PenaltiesReal)
    (fun world e hinv _ => State.apply_penaltiesReal env hinv e) ?_ ?_
  · intro id p hget
    simp [World.init, State.empty] at hget
  · exact Machine.along_iff_forall_prefix.mpr fun _ _ _ => trivial

/-- **When a registration restores a forgotten worker's history.**  In every state a
run reaches, for every key that is not registered: the new record has the kept
history, and the table lets go of it, unless the registration evicts a worker with a
history into a full table, whose first entry to end is the one of this key. -/
theorem restores_history_iff (env : Env) (policy : Policy) (events : List Event)
    (w : RegisteredWorker) (source : String) (now : Nat)
    (hnew : ((machine env).run (World.init policy) events).state.workers[w.id]? = none) :
    ((machine env).run (World.init policy) events).state.RestoresHistory w source now ↔
      ¬ ((machine env).run (World.init policy) events).state.DropsHistory w.id source now :=
  State.restoresHistory_iff (run_size env policy events) (run_penaltiesReal env policy events)
    hnew source

/-! ## A full table

One machine after another registers from one source, takes a job, lets it lapse and
is evicted by the next, a round every eight days; its no-show stays in the table. -/

/-- When a round begins. -/
def roundTime (n : Nat) : Nat := n * (8 * 86400)

/-- When the cool-down of the round's machine ends. -/
def lapseEnd (n : Nat) : Nat := roundTime n + 1 + 3600

theorem roundTime_lt (n : Nat) : roundTime n < roundTime (n + 1) := by
  unfold roundTime
  omega

def roundJob (n : Nat) : JobSpec := probeJob (String.ofList (List.replicate n 'j')) 1

def round (n : Nat) : List Event :=
  [⟨.register (probeWorker n) "s", roundTime n⟩, ⟨.addJob (roundJob n), roundTime n⟩,
    ⟨.lease (probeWorker n).id, roundTime n⟩, ⟨.expireLeases, roundTime n + 1⟩]

/-- The first `n` rounds. -/
def rounds : Nat → List Event
  | 0 => []
  | n + 1 => rounds n ++ round (n + 1)

theorem roundJob_id_injective {m n : Nat} (h : (roundJob m).id = (roundJob n).id) : m = n := by
  have hlist := String.ofList_injective h
  have hlength := congrArg List.length hlist
  rwa [List.length_replicate, List.length_replicate] at hlength

theorem probeWorker_id_injective {m n : Nat} (hm : m ≤ 4098) (hn : n ≤ 4098)
    (h : (probeWorker m).id = (probeWorker n).id) : m = n := by
  have hbytes : toBE 20 m = toBE 20 n := congrArg Subtype.val h
  exact toBE_injective (by omega) (by omega) hbytes

/-- The state after `n` rounds: every job is back in the pool and kept from the
source, the last machine has one no-show, and so has every earlier one, in the
table. -/
structure After (n : Nat) (s : State) : Prop where
  policy : s.policy = onePerSource
  pending : ∀ (id : JobId) (r : JobRecord), s.jobs[id]? = some r →
    r.status = .pending ∧ "s" ∈ r.failedBySources
  fresh : ∀ i, n < i → s.jobs[(roundJob i).id]? = none
  only : ∀ (a : H160) (r : WorkerRecord), s.workers[a]? = some r →
    0 < n ∧ a = (probeWorker n).id
  last : 0 < n → ∃ r, s.workers[(probeWorker n).id]? = some r ∧ r.source = "s" ∧
    r.noshows = 1 ∧ r.lastSeen = roundTime n ∧ r.cooldownUntil = lapseEnd n
  kept : ∀ i, 0 < i → i < n → s.penalties[(probeWorker i).id]? = some ⟨1, lapseEnd i⟩
  entries : ∀ (a : H160) (p : Penalty), s.penalties[a]? = some p →
    ∃ i, 0 < i ∧ i < n ∧ a = (probeWorker i).id
  size : s.penalties.size = n - 1

namespace State

variable {s : State} {now : Nat}

/-- A sweep that finds nothing lapsed. -/
theorem expireLeases_idle (h : ∀ (id : JobId) (r : JobRecord), s.jobs[id]? = some r →
    r.status.lapsedHolder? now = none) : (s.expireLeases now).1 = s := by
  have hloop : ∀ (entries : List (JobId × JobRecord)) (acc : Sweep),
      (∀ e ∈ entries, e.2.status.lapsedHolder? now = none) →
        entries.foldl (Sweep.visit now) acc = acc := by
    intro entries
    induction entries with
    | nil => exact fun _ _ => rfl
    | cons entry rest ih =>
        intro acc hentries
        rw [List.foldl_cons, Sweep.visit_of_none (hentries entry List.mem_cons_self)]
        exact ih acc fun e he => hentries e (List.mem_cons_of_mem _ he)
  have hsweep : s.sweepJobs now = ⟨s, [], []⟩ :=
    hloop _ _ fun e he => h e.1 e.2 (mem_entries.mp he)
  unfold expireLeases
  rw [hsweep]
  rfl

theorem register_sources (w : RegisteredWorker) (source : String) :
    (s.register w source now).1.sources = s.sources := by
  have hfold : ∀ (victims : List H160) (s : State),
      (victims.foldl (fun s v => s.forgetWorker v now) s).sources = s.sources := by
    intro victims
    induction victims with
    | nil => exact fun _ => rfl
    | cons v rest ih =>
        intro s
        rw [List.foldl_cons, ih, forgetWorker_sources]
  cases hknown : s.workers[w.id]? with
  | some r => simp only [register, hknown]
  | none =>
      rcases register_new source now hknown with ⟨hrefused, -⟩ | ⟨hadmitted, -⟩
      · rw [hrefused, hfold]
        rfl
      · rw [hadmitted]
        exact hfold _ _

/-- Forgetting a worker with no-shows while the table has room. -/
theorem forgetWorker_keeps {id : H160} {r : WorkerRecord} (hget : s.workers[id]? = some r)
    (hnoshows : r.noshows ≠ 0) (hroom : s.penalties.size < MAX_WORKERS) :
    s.forgetWorker id now =
      { s with
        workers := s.workers.erase id
        penalties := s.penalties.insert id r.history } := by
  have hhistory : ¬ (r.noshows = 0 ∧ r.cooldownUntil ≤ now) := fun h => hnoshows h.1
  have hfull : ¬ (s.penalties.size ≥ MAX_WORKERS ∧ id ∉ s.penalties) := by omega
  unfold forgetWorker
  rw [hget]
  simp only [if_neg hhistory, if_neg hfull]
  rfl

/-- The lease of a worker that is not refused. -/
theorem lease_granted {env : Env} {w : H160} {rec_ : WorkerRecord} {id : JobId}
    {r : JobRecord} (hknown : s.workers[w]? = some rec_)
    (hallowed : (s.beforePick w now).leaseRefusal w (sourceGroup rec_.source) now = none)
    (hpick : (s.beforePick w now).pick env w (sourceGroup rec_.source) rec_.capability now =
      some id) (hget : (s.beforePick w now).jobs[id]? = some r) :
    (s.lease env w now).1 =
      { s.beforePick w now with
        jobs := (s.beforePick w now).jobs.insert id
          (r.grant w (s.beforePick w now).policy.leaseWindowSecs now)
        dirty := true } := by
  unfold beforePick at hallowed hpick hget ⊢
  unfold lease
  rw [hknown]
  simp only [hallowed, hpick, hget]

end State

/-- What the lease of a round finds: only the round's own job is open to the
source, and nothing holds its machine back. -/
structure Open (s : State) (w : H160) (spec : JobSpec) (now : Nat) : Prop where
  policy : s.policy = onePerSource
  known : ∃ r, s.workers[w]? = some r ∧ r.capability = .probe ∧ r.source = "s" ∧
    r.cooldownUntil ≤ now
  source : ∀ r, s.sources["s"]? = some r → r.cooldownUntil ≤ now
  jobs : ∀ (id : JobId) (r : JobRecord), s.jobs[id]? = some r → r.status = .pending ∧
    (id ≠ spec.id → "s" ∈ r.failedBySources)
  job : ∃ r, s.jobs[spec.id]? = some r ∧ r.spec = spec ∧ r.failedBy = ∅ ∧
    r.failedBySources = ∅ ∧ r.heldUntil = 0
  spec : spec.requires = .probe ∧ spec.payload = .null

namespace Open

variable {s : State} {w : H160} {spec : JobSpec} {now : Nat}

theorem engage (h : Open s w spec now) : Open (s.engage w now) w spec now := by
  refine ⟨h.policy, ?_, h.source, h.jobs, h.job, h.spec⟩
  have ⟨r, hget, hcapability, hsource, hcooldown⟩ := h.known
  refine ⟨{ r with lastSeen := now, lastEngaged := some now }, ?_, hcapability, hsource,
    hcooldown⟩
  unfold State.engage
  dsimp only
  rw [get_modify, if_pos rfl, hget]
  rfl

theorem beforePick (h : Open s w spec now) : s.beforePick w now = s.engage w now := by
  apply State.expireLeases_idle
  intro id r hget
  rw [(h.jobs id r hget).1]
  rfl

theorem untrusted (h : Open s w spec now) : s.policy.isTrusted w = false := by
  rw [h.policy]
  rfl

theorem leaseRefusal (h : Open s w spec now) : s.leaseRefusal w "s" now = none := by
  have ⟨r, hget, _, _, hcooldown⟩ := h.known
  have hheld : s.heldBy w = 0 := by
    refine List.countP_eq_zero.mpr fun e he => ?_
    rw [(h.jobs e.1 e.2 (mem_entries.mp he)).1]
    exact of_decide_eq_false rfl
  have hgroup : s.heldByGroup "s" = 0 := by
    refine List.countP_eq_zero.mpr fun e he => ?_
    rw [(h.jobs e.1 e.2 (mem_entries.mp he)).1]
    exact Bool.false_ne_true
  have hsource : (s.sources["s"]?).elim 0 SourceRecord.cooldownUntil ≤ now := by
    cases hsrc : s.sources["s"]? with
    | none => exact Nat.zero_le now
    | some src => exact h.source src hsrc
  have hcap : s.policy.maxLeasesPerSource = 4 := by
    rw [h.policy]
    rfl
  unfold State.leaseRefusal
  rw [hget, hheld, hgroup, h.untrusted, hcap]
  simp only [Option.elim_some, gt_iff_lt, not_lt.mpr hcooldown, not_lt.mpr hsource, if_false]
  rfl

/-- The job of the round is the one that is picked. -/
theorem pick (h : Open s w spec now) :
    s.pick plainEnv w "s" .probe now = some spec.id := by
  have ⟨r₀, hget₀, hspec, hfailed, hsources, hheld⟩ := h.job
  have ⟨hrequires, hpayload⟩ := h.spec
  have hround : loraRoundOf plainEnv r₀.spec = .notLora := by
    unfold loraRoundOf
    rw [hspec, hpayload]
    rfl
  have hcap : s.policy.effectiveCapability w .probe = .probe := by
    unfold Policy.effectiveCapability
    rw [h.untrusted, h.policy]
    rfl
  have hoffered : s.offered plainEnv w "s" .probe now r₀ = true := by
    have hpending := (h.jobs _ r₀ hget₀).1
    unfold State.offered State.reservedForVouched
    rw [hround, hpending, hspec, hrequires, hfailed, hsources, hheld, h.untrusted]
    rfl
  have hmem : r₀ ∈ (s.jobs.toList.map Prod.snd).filter
      (s.offered plainEnv w "s" .probe now) := by
    rw [List.mem_filter]
    exact ⟨List.mem_map.mpr ⟨_, mem_entries.mpr hget₀, rfl⟩, hoffered⟩
  unfold State.pick
  rw [hcap]
  dsimp only
  cases hbest : maxBy State.assignmentOrder ((s.jobs.toList.map Prod.snd).filter
      (s.offered plainEnv w "s" .probe now)) with
  | none =>
      cases hlist : (s.jobs.toList.map Prod.snd).filter
          (s.offered plainEnv w "s" .probe now) with
      | nil =>
          rw [hlist] at hmem
          cases hmem
      | cons first rest =>
          rw [hlist] at hbest
          cases hbest
  | some r =>
      -- any other job keeps the source away
      have hpicked := List.mem_filter.mp (maxBy_mem hbest)
      have ⟨⟨id, r'⟩, hentry, hr'⟩ := List.mem_map.mp hpicked.1
      subst hr'
      have hget := mem_entries.mp hentry
      by_cases hid : id = spec.id
      · subst hid
        rw [hget₀] at hget
        cases hget
        rw [Option.map_some, hspec]
      · have haway := (h.jobs id r' hget).2 hid
        have hallowed := hpicked.2
        unfold State.offered at hallowed
        rw [h.untrusted] at hallowed
        simp [haway] at hallowed

/-- The machine of the round leases its job. -/
theorem lease (h : Open s w spec now) : ∃ r, s.jobs[spec.id]? = some r ∧ r.spec = spec ∧
    (s.lease plainEnv w now).1 =
      { s.engage w now with
        jobs := s.jobs.insert spec.id (r.grant w 900 now)
        dirty := true } := by
  have ⟨rec_, hknown, hcapability, hsource, _⟩ := h.known
  have ⟨r, hget, hspec, _⟩ := h.job
  refine ⟨r, hget, hspec, ?_⟩
  have hpolled := h.engage
  have hwindow : (s.engage w now).policy.leaseWindowSecs = 900 := by
    rw [hpolled.policy]
    rfl
  have hgroup : sourceGroup rec_.source = "s" := by
    rw [hsource]
    decide
  rw [@State.lease_granted _ _ _ _ _ spec.id r hknown, h.beforePick, hwindow]
  · rfl
  · rw [h.beforePick, hgroup]
    exact hpolled.leaseRefusal
  · rw [h.beforePick, hgroup, hcapability]
    exact hpolled.pick
  · rw [h.beforePick]
    exact hget

end Open

namespace After

variable {n : Nat} {s : State}

theorem not_holder (h : After n s) (now : Nat) (w : H160) : w ∉ s.leaseholders now := by
  intro hmem
  have ⟨id, r, e, d, hget, hstatus, _⟩ := State.mem_leaseholders.mp hmem
  rw [(h.pending id r hget).1] at hstatus
  cases hstatus

theorem unregistered (h : After n s) (hn : n ≤ 4097) {i : Nat} (hi : i ≤ 4098) (hne : i ≠ n) :
    s.workers[(probeWorker i).id]? = none := by
  cases hget : s.workers[(probeWorker i).id]? with
  | none => rfl
  | some r =>
      have heq := (h.only _ r hget).2
      exact absurd (probeWorker_id_injective hi (by omega) heq) hne

/-- The last machine has been away for eight days, so its slot is the one to be
reclaimed. -/
theorem victim (h : After n s) (hn : 0 < n) {now : Nat} (hnow : roundTime (n + 1) ≤ now)
    (id : H160) : s.newVictim id "s" now = .ok (some (probeWorker n).id) := by
  obtain ⟨r, hget, hsource, _, hseen, _⟩ := h.last hn
  have huntrusted : ∀ a, s.policy.isTrusted a = false := by
    intro a
    rw [h.policy]
    rfl
  have hmem : ((probeWorker n).id, r) ∈ s.fromSource "s" := by
    rw [State.fromSource, List.mem_filter]
    refine ⟨mem_entries.mpr hget, ?_⟩
    rw [hsource, huntrusted]
    rfl
  have hstale : ((probeWorker n).id, r) ∈ s.staleSlots "s" (s.leaseholders now) now := by
    rw [State.staleSlots, List.mem_filter]
    refine ⟨hmem, ?_⟩
    have hfree := h.not_holder now (probeWorker n).id
    have haway : now - r.lastSeen ≥ SOURCE_SLOT_STALE_SECS := by
      rw [hseen]
      unfold roundTime at hnow ⊢
      unfold SOURCE_SLOT_STALE_SECS
      omega
    rw [decide_eq_true haway, decide_eq_true hfree]
    rfl
  have hroom : ¬ s.SourceRoom id "s" := by
    have hpos := List.length_pos_of_mem hmem
    have hcap : s.policy.maxWorkersPerSource = 1 := by
      rw [h.policy]
      rfl
    rw [State.SourceRoom, huntrusted, hcap]
    rintro (hbad | hbad)
    · cases hbad
    · omega
  have hslot : s.slotVictim "s" now = some (probeWorker n).id := by
    cases hvictim : s.slotVictim "s" now with
    | none =>
        rw [State.slotVictim, Option.map_eq_none_iff] at hvictim
        rw [List.argmin_eq_none.mp hvictim] at hstale
        cases hstale
    | some v =>
        obtain ⟨r', hr'⟩ := State.slotVictim_known hvictim
        rw [(h.only v r' hr').2]
  rw [State.newVictim, if_neg hroom, hslot]

/-- The table has room for the last machine. -/
theorem forgotten (h : After n s) (hn : 0 < n) (hle : n ≤ 4096) {now : Nat} :
    ∃ r : WorkerRecord, r.noshows = 1 ∧ r.cooldownUntil = lapseEnd n ∧
      s.markDirty.forgetWorker (probeWorker n).id now =
        { s.markDirty with
          workers := s.workers.erase (probeWorker n).id
          penalties := s.penalties.insert (probeWorker n).id r.history } := by
  have ⟨r, hget, _, hnoshows, _, hcooldown⟩ := h.last hn
  have hroom : s.penalties.size < MAX_WORKERS := by
    have hsize := h.size
    unfold MAX_WORKERS
    omega
  exact ⟨r, hnoshows, hcooldown,
    State.forgetWorker_keeps (s := s.markDirty) hget (by omega) hroom⟩

/-- The state when the machine of the next round has registered. -/
structure Entered (n : Nat) (s s' : State) : Prop where
  only : ∀ (a : H160) (r : WorkerRecord), s'.workers[a]? = some r → a = (probeWorker n).id
  entered : ∃ r, s'.workers[(probeWorker n).id]? = some r ∧ r.capability = .probe ∧
    r.source = "s" ∧ r.noshows = 0 ∧ r.lastSeen = roundTime n ∧ r.cooldownUntil = 0
  kept : ∀ i, 0 < i → i < n → s'.penalties[(probeWorker i).id]? = some ⟨1, lapseEnd i⟩
  entries : ∀ (a : H160) (p : Penalty), s'.penalties[a]? = some p →
    ∃ i, 0 < i ∧ i < n ∧ a = (probeWorker i).id
  size : s'.penalties.size = n - 1

/-- Admission, once nobody is left in the registry. -/
theorem entered_of {s' : State} (hn : n ≤ 4096) (hempty : ∀ a : H160, s'.workers[a]? = none)
    (hkept : ∀ i, 0 < i → i < n + 1 →
      s'.penalties[(probeWorker i).id]? = some ⟨1, lapseEnd i⟩)
    (hentries : ∀ (a : H160) (p : Penalty), s'.penalties[a]? = some p →
      ∃ i, 0 < i ∧ i < n + 1 ∧ a = (probeWorker i).id)
    (hsize : s'.penalties.size = n) :
    Entered (n + 1) s (s'.admitWorker (probeWorker (n + 1)) "s" (roundTime (n + 1))) := by
  have hnew : s'.penalties[(probeWorker (n + 1)).id]? = none := by
    cases hget : s'.penalties[(probeWorker (n + 1)).id]? with
    | none => rfl
    | some p =>
        have ⟨i, hlo, hhi, heq⟩ := hentries _ p hget
        have hsame := probeWorker_id_injective (by omega) (by omega) heq
        omega
  have habsent : (probeWorker (n + 1)).id ∉ s'.penalties := by
    intro hmem
    have ⟨p, hp⟩ := mem_iff_get.mp hmem
    rw [hnew] at hp
    cases hp
  constructor
  · intro a r hget
    unfold State.admitWorker at hget
    dsimp only at hget
    rw [get_insert] at hget
    split at hget
    · rename_i heq
      exact heq.symm
    · rw [hempty] at hget
      cases hget
  · unfold State.admitWorker
    dsimp only
    rw [get_insert, if_pos rfl, hnew]
    exact ⟨_, rfl, rfl, rfl, rfl, rfl, rfl⟩
  · intro i hlo hhi
    unfold State.admitWorker
    dsimp only
    have hne : (probeWorker (n + 1)).id ≠ (probeWorker i).id := by
      intro heq
      have hsame := probeWorker_id_injective (by omega) (by omega) heq
      omega
    rw [get_erase, if_neg hne]
    exact hkept i hlo hhi
  · intro a p hget
    unfold State.admitWorker at hget
    dsimp only at hget
    rw [get_erase] at hget
    split at hget
    · cases hget
    · exact hentries a p hget
  · change (s'.penalties.erase (probeWorker (n + 1)).id).size = n
    have hcontains : ¬ s'.penalties.contains (probeWorker (n + 1)).id = true := fun h =>
      habsent (Std.ExtTreeMap.mem_iff_contains.mpr h)
    rw [Std.ExtTreeMap.size_erase, if_neg hcontains, hsize]

/-- The machine of the next round registers and evicts the last one. -/
theorem register (h : After n s) (hn : n ≤ 4096) (hbound : s.workers.size ≤ MAX_WORKERS) :
    Entered (n + 1) s
      (s.register (probeWorker (n + 1)) "s" (roundTime (n + 1))).1 := by
  have hnew := h.unregistered (i := n + 1) (by omega) (by omega) (by omega)
  rw [State.register_unknown hbound hnew]
  rcases Nat.eq_zero_or_pos n with hzero | hpos
  · -- the first machine finds an empty registry
    subst hzero
    have hempty : ∀ a : H160, s.workers[a]? = none := by
      intro a
      cases hget : s.workers[a]? with
      | none => rfl
      | some r => exact absurd (h.only a r hget).1 (lt_irrefl 0)
    have hslots : s.fromSource "s" = [] := by
      rw [State.fromSource, List.filter_eq_nil_iff]
      intro e he
      have hget := mem_entries.mp he
      rw [hempty] at hget
      cases hget
    have hroom : s.SourceRoom (probeWorker (0 + 1)).id "s" := by
      rw [State.SourceRoom, hslots, h.policy]
      exact .inr (by decide)
    have hlt : s.workers.size < MAX_WORKERS := by
      have hnil : s.workers.toList = [] := by
        rw [List.eq_nil_iff_forall_not_mem]
        intro e he
        have hget := mem_entries.mp he
        rw [hempty] at hget
        cases hget
      have hlength : s.workers.toList.length = s.workers.size := Std.ExtTreeMap.length_toList
      rw [hnil] at hlength
      rw [← hlength]
      decide
    have hvictim : s.newVictim (probeWorker (0 + 1)).id "s" (roundTime (0 + 1)) = .ok none := by
      rw [State.newVictim, if_pos hroom, if_pos hlt]
    rw [hvictim]
    refine entered_of (by omega) hempty (fun i _ _ => by omega) (fun a p hget => ?_) h.size
    obtain ⟨i, _, hhi, _⟩ := h.entries a p hget
    omega
  · rw [h.victim hpos le_rfl]
    obtain ⟨r, hnoshows, hcooldown, hforget⟩ := @After.forgotten _ _ h hpos hn (roundTime (n + 1))
    change Entered (n + 1) s ((s.markDirty.forgetWorker (probeWorker n).id
      (roundTime (n + 1))).admitWorker (probeWorker (n + 1)) "s" (roundTime (n + 1)))
    have habsent : (probeWorker n).id ∉ s.penalties := by
      intro hmem
      obtain ⟨p, hp⟩ := mem_iff_get.mp hmem
      obtain ⟨i, _, hhi, heq⟩ := h.entries _ p hp
      have hsame := probeWorker_id_injective (by omega) (by omega) heq
      omega
    rw [hforget]
    refine entered_of hn (fun a => ?_) (fun i hlo hhi => ?_) (fun a p hget => ?_) ?_
    · rw [get_erase]
      split
      · rfl
      · rename_i hne
        cases hget : s.workers[a]? with
        | none => rfl
        | some r' => exact absurd (h.only a r' hget).2.symm hne
    · rw [get_insert]
      split
      · rename_i heq
        have hsame := probeWorker_id_injective (by omega) (by omega) heq
        have hhistory : r.history = ⟨1, lapseEnd n⟩ := by
          unfold WorkerRecord.history
          rw [hnoshows, hcooldown]
        rw [hhistory, hsame]
      · rename_i hne
        refine h.kept i hlo (Nat.lt_of_le_of_ne (Nat.lt_succ_iff.mp hhi) fun heq => ?_)
        exact hne (by rw [heq])
    · rw [get_insert] at hget
      split at hget
      · rename_i heq
        exact ⟨n, hpos, by omega, heq.symm⟩
      · obtain ⟨i, hlo, hhi, heq⟩ := h.entries a p hget
        exact ⟨i, hlo, by omega, heq⟩
    · have hcontains : ¬ s.penalties.contains (probeWorker n).id = true := fun h =>
        habsent (Std.ExtTreeMap.mem_iff_contains.mpr h)
      have hsize := h.size
      rw [Std.ExtTreeMap.size_insert, if_neg hcontains]
      omega

/-- The round's job is published, leased and left to lapse. -/
theorem lapse {s₁ : State} (h : After n s) (he : Entered (n + 1) s s₁) (hn : n ≤ 4096)
    (hjobs : s₁.jobs = s.jobs) (hpolicy : s₁.policy = onePerSource)
    (hsource : ∀ r, s₁.sources["s"]? = some r → r.cooldownUntil ≤ roundTime (n + 1))
    (hexclusive : Exclusive (((s₁.addJob (roundJob (n + 1))).lease plainEnv
      (probeWorker (n + 1)).id (roundTime (n + 1))).1.ledger)) :
    After (n + 1) (((s₁.addJob (roundJob (n + 1))).lease plainEnv
      (probeWorker (n + 1)).id (roundTime (n + 1))).1.expireLeases
        (roundTime (n + 1) + 1)).1 := by
  obtain ⟨rec_, hknown, hcapability, hfrom, hnoshows, hseen, hcooldown⟩ := he.entered
  have hopen : Open (s₁.addJob (roundJob (n + 1))) (probeWorker (n + 1)).id (roundJob (n + 1))
      (roundTime (n + 1)) := by
    refine ⟨hpolicy, ⟨rec_, hknown, hcapability, hfrom, by omega⟩, hsource, ?_, ?_, rfl, rfl⟩
    · intro id r hget
      unfold State.addJob at hget
      dsimp only at hget
      rw [get_insert, hjobs] at hget
      split at hget
      · rename_i hid
        cases hget
        exact ⟨rfl, fun hne => absurd hid.symm hne⟩
      · have hpending := h.pending id r hget
        exact ⟨hpending.1, fun _ => hpending.2⟩
    · unfold State.addJob
      dsimp only
      rw [get_insert, if_pos rfl]
      exact ⟨_, rfl, rfl, rfl, rfl, rfl⟩
  obtain ⟨r, hget, hspec, hlease⟩ := hopen.lease
  rw [hlease] at hexclusive ⊢
  generalize hleased : ({ (s₁.addJob (roundJob (n + 1))).engage (probeWorker (n + 1)).id
      (roundTime (n + 1)) with
    jobs := (s₁.addJob (roundJob (n + 1))).jobs.insert (roundJob (n + 1)).id
      (r.grant (probeWorker (n + 1)).id 900 (roundTime (n + 1)))
    dirty := true } : State) = leased at hexclusive ⊢
  have hjob : leased.jobs[(roundJob (n + 1)).id]? =
      some (r.grant (probeWorker (n + 1)).id 900 (roundTime (n + 1))) := by
    rw [← hleased, get_insert, if_pos rfl]
  have hother : ∀ id, (roundJob (n + 1)).id ≠ id → leased.jobs[id]? = s.jobs[id]? := by
    intro id hne
    rw [← hleased, get_insert, if_neg hne]
    unfold State.addJob
    dsimp only
    rw [get_insert, if_neg hne, hjobs]
  have hworker : leased.workers[(probeWorker (n + 1)).id]? =
      some { rec_ with
        lastSeen := roundTime (n + 1)
        lastEngaged := some (roundTime (n + 1)) } := by
    rw [← hleased]
    unfold State.engage State.addJob
    dsimp only
    rw [get_modify, if_pos rfl, hknown]
    rfl
  have honly : ∀ (a : H160) (r' : WorkerRecord), leased.workers[a]? = some r' →
      a = (probeWorker (n + 1)).id := by
    intro a r' hr'
    rw [← hleased] at hr'
    unfold State.engage State.addJob at hr'
    dsimp only at hr'
    rw [get_modify] at hr'
    split at hr'
    · rename_i heq
      exact heq.symm
    · exact he.only a r' hr'
  have hpenalties : leased.penalties = s₁.penalties := by rw [← hleased]; rfl
  have hleasedPolicy : leased.policy = onePerSource := by rw [← hleased]; exact hpolicy
  -- the lease lapses a second after it was granted
  have hstatus : (r.grant (probeWorker (n + 1)).id 900 (roundTime (n + 1))).status =
      .leased (probeWorker (n + 1)).id (satAdd (roundTime (n + 1)) 1)
        (satAdd (roundTime (n + 1)) 1) := by
    unfold JobRecord.grant
    rw [hspec]
    rfl
  have hover : satAdd (roundTime (n + 1)) 1 ≤ roundTime (n + 1) + 1 := satAdd_le_add _ _
  have hlapsed : (r.grant (probeWorker (n + 1)).id 900
      (roundTime (n + 1))).status.lapsedHolder? (roundTime (n + 1) + 1) =
        some (probeWorker (n + 1)).id :=
    JobStatus.lapsedHolder?_eq_some.mpr ⟨_, _, hstatus, hover⟩
  have hgroup : leased.lapsedGroup (probeWorker (n + 1)).id = some "s" := by
    unfold State.lapsedGroup
    rw [hworker, hleasedPolicy]
    dsimp only
    rw [hfrom]
    have hself : sourceGroup "s" = "s" := by decide
    rw [hself]
    exact if_neg (Finset.notMem_empty _)
  constructor
  · rw [State.expireLeases_policy, hleasedPolicy]
  · intro id r' hr'
    rw [State.expireLeases_job] at hr'
    by_cases hid : (roundJob (n + 1)).id = id
    · rw [← hid, hjob, Option.map_some, State.swept, hlapsed] at hr'
      dsimp only at hr'
      rw [hgroup] at hr'
      cases hr'
      exact ⟨rfl, Finset.mem_insert_self _ _⟩
    · rw [hother id hid] at hr'
      obtain ⟨r'', hr'', hswept⟩ := Option.map_eq_some_iff.mp hr'
      have hpending := h.pending id r'' hr''
      rw [State.swept, hpending.1] at hswept
      rw [← hswept]
      exact hpending
  · intro i hi
    have hne : (roundJob (n + 1)).id ≠ (roundJob i).id := by
      intro heq
      have hsame := roundJob_id_injective heq
      omega
    rw [State.expireLeases_job, hother _ hne, h.fresh i (by omega)]
    rfl
  · intro a r' hr'
    rw [State.expireLeases_worker] at hr'
    obtain ⟨r'', hr'', _⟩ := Option.map_eq_some_iff.mp hr'
    exact ⟨Nat.succ_pos n, honly a r'' hr''⟩
  · intro _
    rw [State.expireLeases_worker, hworker,
      State.lapsesOf_eq_one hexclusive hjob hstatus hover]
    refine ⟨_, rfl, hfrom, ?_, rfl, ?_⟩
    · change satAdd32 rec_.noshows 1 = 1
      rw [hnoshows]
      rfl
    · change satAdd (roundTime (n + 1) + 1) (noshowBackoff (satAdd32 rec_.noshows 1)) = _
      rw [hnoshows]
      have hbackoff : noshowBackoff (satAdd32 0 1) = 3600 := by decide
      rw [hbackoff, lapseEnd, satAdd]
      have htime : roundTime (n + 1) ≤ 4097 * (8 * 86400) :=
        Nat.mul_le_mul_right _ (by omega)
      unfold u64Max
      omega
  · rw [State.expireLeases_penalties, hpenalties]
    exact he.kept
  · rw [State.expireLeases_penalties, hpenalties]
    exact he.entries
  · rw [State.expireLeases_penalties, hpenalties]
    exact he.size

end After

theorem after_init : After 0 (World.init onePerSource).state := by
  constructor
  · rfl
  · intro id r hget
    simp [World.init, State.empty] at hget
  · intro i _
    simp [World.init, State.empty]
  · intro a r hget
    simp [World.init, State.empty] at hget
  · intro hpos
    exact absurd hpos (lt_irrefl 0)
  · intro i _ hhi
    exact absurd hhi (Nat.not_lt_zero i)
  · intro a p hget
    simp [World.init, State.empty] at hget
  · rfl

/-- What every step of the rounds meets. -/
def Quiet (world : World) (e : Event) : Prop := Admissible world e ∧ ClearsShort world e

/-- The steps of one round. -/
theorem round_quiet {n : Nat} {world : World} (hclock : world.clock ≤ roundTime n)
    (hfresh : world.state.jobs[(roundJob n).id]? = none) :
    (machine plainEnv).Along Quiet world (round n) := by
  refine ⟨⟨⟨hclock, trivial⟩, trivial⟩, ⟨⟨le_rfl, ?_⟩, trivial⟩, ⟨⟨le_rfl, trivial⟩, trivial⟩,
    ⟨⟨Nat.le_succ _, trivial⟩, trivial⟩, trivial⟩
  -- the registration left the jobs alone
  change (roundJob n).id ∉ (world.state.register (probeWorker n) "s" (roundTime n)).1.jobs
  rw [State.register_jobs]
  intro hmem
  have ⟨r, hr⟩ := mem_iff_get.mp hmem
  rw [hfresh] at hr
  cases hr

theorem round_clock (n : Nat) (world : World) :
    ((machine plainEnv).run world (round n)).clock = roundTime n + 1 := rfl

/-- The rounds are a run, and each leaves what it should. -/
theorem rounds_spec {n : Nat} (hn : n ≤ 4097) :
    (machine plainEnv).Along Quiet (World.init onePerSource) (rounds n) ∧
      ((machine plainEnv).run (World.init onePerSource) (rounds n)).clock ≤ roundTime n + 1 ∧
      After n ((machine plainEnv).run (World.init onePerSource) (rounds n)).state := by
  induction n with
  | zero => exact ⟨trivial, Nat.zero_le _, after_init⟩
  | succ n ih =>
      have ⟨halong, hclock, hafter⟩ := ih (by omega)
      have hbound := run_size plainEnv onePerSource (rounds n)
      have hramped := Machine.run_invariant (fun world : World => Ramped world.state world.clock)
        (fun world e hinv hstep => ramped_step plainEnv hstep.1.1 hstep.2 hinv)
        (init_ramped onePerSource) halong
      have hpre : ∀ front, front <+: round (n + 1) →
          (machine plainEnv).Along Quiet ((machine plainEnv).run (World.init onePerSource)
            (rounds n)) front := by
        intro front hfront
        exact Machine.Along.of_prefix (round_quiet (hclock.trans (roundTime_lt n))
          (hafter.fresh _ (Nat.lt_succ_self n))) hfront
      have hround := hpre _ List.prefix_rfl
      refine ⟨Machine.along_append.mpr ⟨halong, hround⟩, ?_, ?_⟩
      · simp only [rounds, Machine.run_append, round_clock, le_refl]
      · rw [rounds, Machine.run_append]
        generalize hworld : (machine plainEnv).run (World.init onePerSource) (rounds n) = world
          at *
        have hentered := hafter.register (by omega) hbound
        refine hafter.lapse hentered (by omega) State.register_jobs
          (State.register_policy.trans hafter.policy) ?_ ?_
        · intro r hget
          change (world.state.register _ _ _).1.sources["s"]? = some r at hget
          rw [State.register_sources] at hget
          have hwithin := hramped.sources "s" r hget
          have hmax : noshowBackoff r.noshows ≤ NOSHOW_BACKOFF_MAX_SECS := min_le_right _ _
          have hsum := satAdd_le_add world.clock (noshowBackoff r.noshows)
          unfold Within at hwithin
          unfold NOSHOW_BACKOFF_MAX_SECS at hmax
          unfold roundTime at hclock ⊢
          omega
        · -- the leases of a run are exclusive, and this is one
          have hleased := hpre [⟨.register (probeWorker (n + 1)) "s", roundTime (n + 1)⟩,
            ⟨.addJob (roundJob (n + 1)), roundTime (n + 1)⟩,
            ⟨.lease (probeWorker (n + 1)).id, roundTime (n + 1)⟩] ⟨[_], rfl⟩
          have hrun := @run_exclusive plainEnv onePerSource
            (rounds n ++ [⟨.register (probeWorker (n + 1)) "s", roundTime (n + 1)⟩,
              ⟨.addJob (roundJob (n + 1)), roundTime (n + 1)⟩,
              ⟨.lease (probeWorker (n + 1)).id, roundTime (n + 1)⟩])
            (Machine.along_append.mpr ⟨halong.mono fun _ _ h => h.1, by
              rw [hworld]
              exact hleased.mono fun _ _ h => h.1⟩)
          rw [Machine.run_append, hworld] at hrun
          exact hrun.2

/-- The entry of the first round's machine is the first to end. -/
theorem After.first_ends {n : Nat} {s : State} (h : After n s) (hn : 1 < n)
    {entry : H160 × Penalty}
    (hmin : minByKey (fun e => e.2.cooldownUntil) s.penalties.toList = some entry) :
    entry.1 = (probeWorker 1).id := by
  have hfirst := h.kept 1 Nat.one_pos hn
  have hget : s.penalties[entry.1]? = some entry.2 := mem_entries.mp (minByKey_mem hmin)
  have ⟨i, hlo, hhi, hid⟩ := h.entries _ _ hget
  have hends : entry.2.cooldownUntil ≤ lapseEnd 1 :=
    List.le_of_mem_argmin (mem_entries.mpr hfirst) hmin
  rw [hid, h.kept i hlo hhi] at hget
  rw [← Option.some.inj hget] at hends
  have hone : i = 1 := by
    change lapseEnd i ≤ lapseEnd 1 at hends
    unfold lapseEnd roundTime at hends
    omega
  rw [hid, hone]

/-- When the table is full, the next registration of the first round's machine drops
the history that it should get back. -/
theorem After.drops {n : Nat} {s : State} (h : After n s) (hn : n = MAX_WORKERS + 1) :
    s.DropsHistory (probeWorker 1).id "s" (roundTime (n + 1)) := by
  unfold MAX_WORKERS at hn
  have ⟨r, hget, _, hnoshows, _⟩ := h.last (by omega)
  have hsize := h.size
  have habsent : (probeWorker n).id ∉ s.penalties := by
    intro hmem
    have ⟨p, hp⟩ := mem_iff_get.mp hmem
    have ⟨i, _, hhi, heq⟩ := h.entries _ p hp
    have hsame := probeWorker_id_injective (by omega) (by omega) heq
    omega
  have hfull : s.penalties.size ≥ MAX_WORKERS ∧ (probeWorker n).id ∉ s.penalties := by
    refine ⟨?_, habsent⟩
    unfold MAX_WORKERS
    omega
  refine ⟨_, h.victim (by omega) le_rfl _, ⟨r, hget, ?_⟩, ?_⟩
  · rintro ⟨hzero, -⟩
    omega
  · rw [State.penaltyVictim, if_pos hfull]
    cases hmin : minByKey (fun e : H160 × Penalty => e.2.cooldownUntil) s.penalties.toList with
    | none =>
        have hnil : s.penalties.toList = [] := List.argmin_eq_none.mp hmin
        have hlength : s.penalties.toList.length = s.penalties.size :=
          Std.ExtTreeMap.length_toList
        rw [hnil, hsize, List.length_nil] at hlength
        omega
    | some entry =>
        rw [Option.map_some, h.first_ends (by omega) hmin]

theorem rounds_restore_elsewhere :
    ((machine plainEnv).run (World.init onePerSource) (rounds 2)).state.RestoresHistory
      (probeWorker 1) "t" (roundTime 3) := by
  refine (restores_history_iff plainEnv onePerSource (rounds 2) (probeWorker 1) "t"
    (roundTime 3) (by decide)).mpr fun ⟨v, hv, _⟩ => ?_
  have hroom : ((machine plainEnv).run (World.init onePerSource) (rounds 2)).state.newVictim
      (probeWorker 1).id "t" (roundTime 3) = .ok none := by rfl
  rw [hroom] at hv
  cases hv

theorem full_table {n : Nat} (hn : n = MAX_WORKERS + 1) :
    (machine plainEnv).Along Admissible (World.init onePerSource) (rounds n) ∧
      ((machine plainEnv).run (World.init onePerSource) (rounds n)).clock ≤ roundTime (n + 1) ∧
      ¬ ((machine plainEnv).run (World.init onePerSource) (rounds n)).state.RestoresHistory
        (probeWorker 1) "s" (roundTime (n + 1)) := by
  have hle : n ≤ 4097 := hn.le
  have ⟨halong, hclock, hafter⟩ := rounds_spec hle
  have hnew := hafter.unregistered hle (i := 1) (by omega) (by unfold MAX_WORKERS at hn; omega)
  refine ⟨halong.mono fun _ _ h => h.1, hclock.trans (roundTime_lt n), ?_⟩
  rw [State.restoresHistory_iff (run_size _ _ _) (run_penaltiesReal _ _ _) hnew, not_not]
  exact hafter.drops hn

/-- One round more than the table has room for, and the first machine comes back to a
record without its no-show. -/
theorem full_table_not_restores :
    (machine plainEnv).Along Admissible (World.init onePerSource) (rounds (MAX_WORKERS + 1)) ∧
      ((machine plainEnv).run (World.init onePerSource) (rounds (MAX_WORKERS + 1))).clock ≤
        roundTime (MAX_WORKERS + 2) ∧
      ¬ ((machine plainEnv).run (World.init onePerSource)
        (rounds (MAX_WORKERS + 1))).state.RestoresHistory (probeWorker 1) "s"
          (roundTime (MAX_WORKERS + 2)) :=
  full_table rfl

end Coordinator
end ComputePool
