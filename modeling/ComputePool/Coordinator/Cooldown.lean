import ComputePool.Coordinator.Histories

/-!
# Cool-downs

Each lapse recomputes the cool-down of the holder and of its source group from the
counter of no-shows.  While no counter is cleared under a long cool-down that still
runs, a cool-down never ends later than the back-off its counter stands for, counted
from now; so a lapse, which counts one more, only moves it forward.
-/

namespace ComputePool
namespace Coordinator

open RustStd LeaseLedger

/-! ## The back-off -/

theorem noshowBackoff_le {m n : Nat} (h : min (m - 1) 20 ≤ min (n - 1) 20) :
    noshowBackoff m ≤ noshowBackoff n := by
  have hpow : 2 ^ min (m - 1) 20 ≤ 2 ^ min (n - 1) 20 := Nat.pow_le_pow_right (by decide) h
  have hproduct : satMul NOSHOW_BACKOFF_BASE_SECS (2 ^ min (m - 1) 20) ≤
      satMul NOSHOW_BACKOFF_BASE_SECS (2 ^ min (n - 1) 20) :=
    min_le_min_right _ (Nat.mul_le_mul_left _ hpow)
  exact min_le_min_right _ hproduct

/-- A counter that saturates has long reached the longest back-off. -/
theorem noshowBackoff_next (n : Nat) : noshowBackoff n ≤ noshowBackoff (satAdd32 n 1) := by
  apply noshowBackoff_le
  unfold satAdd32 u32Max
  omega

/-- A cool-down runs no longer than the back-off its counter stands for. -/
def Within (now noshows cooldown : Nat) : Prop :=
  cooldown ≤ satAdd now (noshowBackoff noshows)

theorem Within.later {now now' noshows cooldown : Nat} (h : Within now noshows cooldown)
    (hle : now ≤ now') : Within now' noshows cooldown :=
  h.trans (satAdd_mono_left _ hle)

/-- The cool-down of one lapse more is no shorter. -/
theorem Within.next {now noshows cooldown : Nat} (h : Within now noshows cooldown) :
    cooldown ≤ satAdd now (noshowBackoff (satAdd32 noshows 1)) :=
  h.trans (satAdd_mono_right _ (noshowBackoff_next noshows))

/-- Every cool-down of the state is within the back-off of its counter. -/
structure Ramped (s : State) (now : Nat) : Prop where
  workers : ∀ (w : H160) (r : WorkerRecord), s.workers[w]? = some r →
    Within now r.noshows r.cooldownUntil
  penalties : ∀ (w : H160) (p : Penalty), s.penalties[w]? = some p →
    Within now p.noshows p.cooldownUntil
  sources : ∀ (g : String) (r : SourceRecord), s.sources[g]? = some r →
    Within now r.noshows r.cooldownUntil

theorem Ramped.later {s : State} {now now' : Nat} (h : Ramped s now) (hle : now ≤ now') :
    Ramped s now' where
  workers w r hget := (h.workers w r hget).later hle
  penalties w p hget := (h.penalties w p hget).later hle
  sources g r hget := (h.sources g r hget).later hle

theorem Ramped.of_same {s s' : State} {now : Nat} (h : Ramped s now)
    (hsame : SameHistories s s') : Ramped s' now where
  workers w r' hget := by
    have ⟨r, hr, hhistory⟩ := hsame.worker_of hget
    have hwithin := h.workers w r hr
    have hnoshows := congrArg Penalty.noshows hhistory
    have hcooldown := congrArg Penalty.cooldownUntil hhistory
    change r.noshows = r'.noshows at hnoshows
    change r.cooldownUntil = r'.cooldownUntil at hcooldown
    rwa [hnoshows, hcooldown] at hwithin
  penalties w p hget := h.penalties w p (hsame.penalties ▸ hget)
  sources g r hget := h.sources g r (hsame.sources ▸ hget)

/-! ## What a sweep does to the workers -/

section Workers

variable {now : Nat}

theorem WorkerRecord.noshow_within (r : WorkerRecord) (now : Nat) :
    Within now (r.noshow now).noshows (r.noshow now).cooldownUntil := le_rfl

/-- However often a worker is charged in one sweep, its cool-down ends no earlier. -/
theorem iterate_noshow_within {r : WorkerRecord} (h : Within now r.noshows r.cooldownUntil)
    (n : Nat) :
    let charged := (fun r : WorkerRecord => r.noshow now)^[n] r
    Within now charged.noshows charged.cooldownUntil ∧
      r.cooldownUntil ≤ charged.cooldownUntil := by
  induction n generalizing r with
  | zero => exact ⟨h, le_rfl⟩
  | succ n ih =>
      have ⟨hwithin, hle⟩ := ih (r.noshow_within now)
      rw [Function.iterate_succ_apply]
      exact ⟨hwithin, h.next.trans hle⟩

end Workers

/-! ## What a sweep does to the source groups -/

/-- One no-show more for a source group. -/
def SourceRecord.charge (r : SourceRecord) (now : Nat) : SourceRecord :=
  ⟨satAdd32 r.noshows 1, satAdd now (noshowBackoff (satAdd32 r.noshows 1)), now⟩

namespace State

variable {s : State} {now : Nat}

/-- The record a full source table drops for a new group. -/
def chargeVictim (s : State) (group : String) (now : Nat) : Option String :=
  if group ∉ s.sources ∧ s.sources.size ≥ MAX_SOURCES then
    (minByKey (fun e => toLex (decide (e.2.cooldownUntil > now), e.2.lastSeen))
      s.sources.toList).map Prod.fst
  else none

/-- A group whose cool-down runs is dropped only when every group's does. -/
theorem chargeVictim_spec {group victim : String}
    (h : s.chargeVictim group now = some victim) :
    group ∉ s.sources ∧ MAX_SOURCES ≤ s.sources.size ∧
      ∃ r, s.sources[victim]? = some r ∧ (now < r.cooldownUntil →
        ∀ (g : String) (r' : SourceRecord), s.sources[g]? = some r' → now < r'.cooldownUntil) := by
  unfold chargeVictim at h
  split at h
  · rename_i hfull
    have ⟨entry, hmin, hkey⟩ := Option.map_eq_some_iff.mp h
    subst hkey
    refine ⟨hfull.1, hfull.2, entry.2, mem_entries.mp (minByKey_mem hmin), ?_⟩
    intro hruns g r' hget
    have hle := List.le_of_mem_argmin (mem_entries.mpr hget) hmin
    by_contra hover
    rw [Prod.Lex.toLex_le_toLex, decide_eq_true hruns, decide_eq_false hover] at hle
    rcases hle with hlt | ⟨heq, -⟩
    · cases hlt
    · cases heq
  · cases h

theorem chargeSource_get (group g : String) (now : Nat) :
    (s.chargeSource group now).sources[g]? =
      if group = g then some (((s.sources[group]?).getD SourceRecord.default).charge now)
      else if s.chargeVictim group now = some g then none
      else s.sources[g]? := by
  unfold chargeSource chargeVictim
  by_cases hfull : group ∉ s.sources ∧ s.sources.size ≥ MAX_SOURCES
  · simp only [if_pos hfull]
    cases hmin : minByKey (fun e : String × SourceRecord =>
        toLex (decide (e.2.cooldownUntil > now), e.2.lastSeen)) s.sources.toList with
    | none =>
        rw [get_insert]
        simp only [Option.map_none, reduceCtorEq, if_false]
        rfl
    | some victim =>
        have hnone : s.sources[group]? = none := Std.ExtTreeMap.getElem?_eq_none hfull.1
        have herased : (s.sources.erase victim.1)[group]? = none := by
          rw [get_erase, hnone, ite_self]
        simp only [get_insert, get_erase, herased, hnone, Option.map_some, Option.some.injEq]
        rfl
  · simp only [if_neg hfull, get_insert, reduceCtorEq, if_false]
    rfl

/-- The groups whose cool-down runs at `now`. -/
def runningGroups (s : State) (now : Nat) : Finset String :=
  keysWhere s.sources fun _ r => decide (now < r.cooldownUntil)

/-- The groups that a sweep at `now` charges: of the unvouched registered holders
of lapsed leases. -/
def chargedGroups (s : State) (now : Nat) : Finset String :=
  (s.jobs.toList.filterMap fun e =>
    (e.2.status.lapsedHolder? now).bind s.lapsedGroup).toFinset

/-- What became of a record that was there before the sweep: its cool-down ends no
earlier, or it was dropped when its cool-down was over. -/
def Kept (sources : BTreeMap String SourceRecord) (g : String) (r : SourceRecord)
    (now : Nat) : Prop :=
  (∃ r', sources[g]? = some r' ∧ r.cooldownUntil ≤ r'.cooldownUntil) ∨
    sources[g]? = none ∧ r.cooldownUntil ≤ now

/-- What holds while the groups are charged: `s` is the state before the sweep and
`charged` has the groups charged so far. -/
structure Charging (s t : State) (charged : Finset String) (now : Nat) : Prop where
  within : ∀ (g : String) (r : SourceRecord), t.sources[g]? = some r →
    Within now r.noshows r.cooldownUntil
  /-- A cool-down that runs ran before, or is of a group that was charged. -/
  running : ∀ (g : String) (r : SourceRecord), t.sources[g]? = some r →
    now < r.cooldownUntil → g ∈ s.runningGroups now ∪ charged
  kept : ∀ (g : String) (r : SourceRecord), s.sources[g]? = some r → Kept t.sources g r now

theorem card_sources (s : State) :
    (keysWhere s.sources fun _ _ => true).card = s.sources.size := by
  have hcount := countP_entries s.sources fun _ _ => true
  have hlength : s.sources.toList.length = s.sources.size := Std.ExtTreeMap.length_toList
  rw [← hcount, List.countP_true, hlength]

/-- While all running groups and all charged ones fit the table, a charge drops no
cool-down that runs. -/
theorem Charging.victim_over {s t : State} {charged all : Finset String} {group victim : String}
    (h : Charging s t charged now) (hcharged : charged ⊆ all) (hgroup : group ∈ all)
    (hroom : (s.runningGroups now ∪ all).card ≤ MAX_SOURCES)
    (hvictim : t.chargeVictim group now = some victim) :
    ∃ r, t.sources[victim]? = some r ∧ r.cooldownUntil ≤ now := by
  have ⟨habsent, hfull, r, hget, hruns⟩ := chargeVictim_spec hvictim
  refine ⟨r, hget, ?_⟩
  by_contra hover
  have hall := hruns (not_le.mp hover)
  -- otherwise the whole table runs, and the new group is one too many
  have hsubset : insert group (keysWhere t.sources fun _ _ => true) ⊆
      s.runningGroups now ∪ all := by
    intro g hg
    rcases Finset.mem_insert.mp hg with heq | hmem
    · rw [heq]
      exact Finset.mem_union_right _ hgroup
    · have ⟨r', hget', _⟩ := mem_keysWhere.mp hmem
      have hrunning := h.running g r' hget' (hall g r' hget')
      exact Finset.union_subset_union_right hcharged hrunning
  have hnew : group ∉ keysWhere t.sources fun _ _ => true := by
    intro hmem
    have ⟨r', hget', _⟩ := mem_keysWhere.mp hmem
    exact habsent (mem_iff_get.mpr ⟨r', hget'⟩)
  have hcard := Finset.card_le_card hsubset
  rw [Finset.card_insert_of_notMem hnew, card_sources] at hcard
  omega

/-- A charge leaves every group within its back-off. -/
theorem chargeSource_within {t : State} (h : ∀ (g : String) (r : SourceRecord),
      t.sources[g]? = some r → Within now r.noshows r.cooldownUntil) (group : String) :
    ∀ (g : String) (r : SourceRecord), (t.chargeSource group now).sources[g]? = some r →
      Within now r.noshows r.cooldownUntil := by
  intro g r hget
  rw [chargeSource_get] at hget
  split at hget
  · cases hget
    exact le_rfl
  · split at hget
    · cases hget
    · exact h g r hget

/-- One charge. -/
theorem Charging.charge {s t : State} {charged all : Finset String} {group : String}
    (h : Charging s t charged now) (hbefore : ∀ (g : String) (r : SourceRecord),
      s.sources[g]? = some r → Within now r.noshows r.cooldownUntil)
    (hcharged : charged ⊆ all) (hgroup : group ∈ all)
    (hroom : (s.runningGroups now ∪ all).card ≤ MAX_SOURCES) :
    Charging s (t.chargeSource group now) (insert group charged) now := by
  have hsource := fun g => chargeSource_get (s := t) group g now
  refine ⟨chargeSource_within h.within group, ?_, ?_⟩
  · intro g r hget hruns
    rw [hsource] at hget
    split at hget
    · rename_i heq
      rw [← heq]
      exact Finset.mem_union_right _ (Finset.mem_insert_self _ _)
    · split at hget
      · cases hget
      · exact Finset.union_subset_union_right (Finset.subset_insert _ _)
          (h.running g r hget hruns)
  · intro g r hget
    unfold Kept
    rw [hsource]
    have hkept := h.kept g r hget
    split
    · rename_i heq
      subst heq
      refine .inl ⟨_, rfl, ?_⟩
      rcases hkept with ⟨r', hget', hle⟩ | ⟨hnone, hover⟩
      · rw [hget', Option.getD_some]
        exact hle.trans (h.within group r' hget').next
      · -- a record dropped earlier in the sweep and charged anew
        have hwithin := hbefore group r hget
        have hmax : r.cooldownUntil ≤ u64Max := hwithin.trans (satAdd_le_max _ _)
        rw [hnone, Option.getD_none]
        change r.cooldownUntil ≤ satAdd now _
        unfold satAdd
        omega
    · split
      · rename_i hvictim
        have ⟨r', hget', hover⟩ := h.victim_over hcharged hgroup hroom hvictim
        refine .inr ⟨rfl, ?_⟩
        rcases hkept with ⟨r'', hget'', hle⟩ | ⟨-, hover'⟩
        · rw [hget'] at hget''
          cases hget''
          omega
        · exact hover'
      · exact hkept

/-- All the charges of a sweep. -/
theorem Charging.foldl {s t : State} {charged all : Finset String} {groups : List String}
    (h : Charging s t charged now) (hbefore : ∀ (g : String) (r : SourceRecord),
      s.sources[g]? = some r → Within now r.noshows r.cooldownUntil)
    (hcharged : charged ⊆ all) (hgroups : ∀ g ∈ groups, g ∈ all)
    (hroom : (s.runningGroups now ∪ all).card ≤ MAX_SOURCES) :
    ∃ charged', Charging s (groups.foldl (fun s g => s.chargeSource g now) t) charged' now := by
  induction groups generalizing t charged with
  | nil => exact ⟨charged, h⟩
  | cons g rest ih =>
      have hg := hgroups g List.mem_cons_self
      have hstep := h.charge hbefore hcharged hg hroom
      exact ih hstep (Finset.insert_subset hg hcharged)
        fun g' hg' => hgroups g' (List.mem_cons_of_mem _ hg')

end State

/-! ## The sweep -/

/-- No cool-down of the first state ends earlier in the second. -/
structure CooldownsKept (s s' : State) (now : Nat) : Prop where
  workers : ∀ (w : H160) (r : WorkerRecord), s.workers[w]? = some r →
    ∃ r', s'.workers[w]? = some r' ∧ r.cooldownUntil ≤ r'.cooldownUntil
  penalties : ∀ (w : H160) (p : Penalty), s.penalties[w]? = some p →
    ∃ p', s'.penalties[w]? = some p' ∧ p.cooldownUntil ≤ p'.cooldownUntil
  /-- A source record that the table drops for another is one whose cool-down is
  over. -/
  sources : ∀ (g : String) (r : SourceRecord), s.sources[g]? = some r →
    State.Kept s'.sources g r now

namespace State

variable {s : State} {now : Nat}

theorem expireLeases_sources (s : State) (now : Nat) :
    (s.expireLeases now).1.sources =
      ((s.sweepJobs now).lapsedGroups.foldl (fun s g => s.chargeSource g now)
        (s.sweepJobs now).state).sources := rfl

theorem sweepJobs_sources (s : State) (now : Nat) :
    (s.sweepJobs now).state.sources = s.sources := Sweep.foldl_sources

theorem expireLeases_kept (h : Ramped s now)
    (hroom : (s.runningGroups now ∪ s.chargedGroups now).card ≤ MAX_SOURCES) :
    CooldownsKept s (s.expireLeases now).1 now := by
  constructor
  · intro w r hget
    have hcharged := iterate_noshow_within (h.workers w r hget) (s.lapsesOf now w)
    refine ⟨_, ?_, hcharged.2⟩
    rw [expireLeases_worker, hget, Option.map_some]
  · intro w p hget
    rw [expireLeases_penalties]
    exact ⟨p, hget, le_rfl⟩
  · have hstart : Charging s (s.sweepJobs now).state ∅ now := by
      constructor
      · rw [sweepJobs_sources]
        exact h.sources
      · intro g r hget hruns
        rw [sweepJobs_sources] at hget
        have hrunning : g ∈ s.runningGroups now :=
          mem_keysWhere.mpr ⟨r, hget, decide_eq_true hruns⟩
        exact Finset.mem_union_left _ hrunning
      · intro g r hget
        rw [sweepJobs_sources]
        exact .inl ⟨r, hget, le_rfl⟩
    have hgroups : ∀ g ∈ (s.sweepJobs now).lapsedGroups, g ∈ s.chargedGroups now := by
      rw [sweepJobs_groups]
      exact fun g hg => List.mem_toFinset.mpr hg
    have ⟨charged, hend⟩ := hstart.foldl h.sources (Finset.empty_subset _) hgroups hroom
    rw [expireLeases_sources]
    exact hend.kept

theorem foldl_chargeSource_within {t : State} (groups : List String)
    (h : ∀ (g : String) (r : SourceRecord), t.sources[g]? = some r →
      Within now r.noshows r.cooldownUntil) :
    ∀ (g : String) (r : SourceRecord),
      (groups.foldl (fun s g => s.chargeSource g now) t).sources[g]? = some r →
        Within now r.noshows r.cooldownUntil := by
  induction groups generalizing t with
  | nil => exact h
  | cons g rest ih => exact ih (chargeSource_within h g)

theorem expireLeases_ramped (h : Ramped s now) : Ramped (s.expireLeases now).1 now := by
  constructor
  · intro w r' hget
    rw [expireLeases_worker, Option.map_eq_some_iff] at hget
    have ⟨r, hr, hcharged⟩ := hget
    rw [← hcharged]
    exact (iterate_noshow_within (h.workers w r hr) _).1
  · rw [expireLeases_penalties]
    exact h.penalties
  · rw [expireLeases_sources]
    apply foldl_chargeSource_within
    rw [sweepJobs_sources]
    exact h.sources

/-! ## The other operations -/

/-- A history in the penalties after a worker is forgotten was there before, or is
the worker's. -/
theorem forgetWorker_penalty {id a : H160} {p : Penalty}
    (hget : (s.forgetWorker id now).penalties[a]? = some p) :
    s.penalties[a]? = some p ∨ ∃ r, s.workers[id]? = some r ∧ a = id ∧ p = r.history ∧
      ¬ (r.noshows = 0 ∧ r.cooldownUntil ≤ now) := by
  unfold forgetWorker at hget
  cases hknown : s.workers[id]? with
  | none =>
      rw [hknown] at hget
      exact .inl hget
  | some r =>
      rw [hknown] at hget
      dsimp only at hget
      split at hget
      · exact .inl hget
      · rename_i hhistory
        rw [get_insert] at hget
        split at hget
        · rename_i heq
          cases hget
          exact .inr ⟨r, rfl, heq.symm, rfl, hhistory⟩
        · split at hget
          · split at hget
            · rw [get_erase] at hget
              split at hget
              · cases hget
              · exact .inl hget
            · exact .inl hget
          · exact .inl hget

theorem forgetWorker_sources (id : H160) : (s.forgetWorker id now).sources = s.sources := by
  rcases forgetWorker_spec (s := s) id now with ⟨_, h | ⟨-, h⟩⟩
  · rw [h]
  · rw [h]

theorem forgetWorker_ramped (h : Ramped s now) (id : H160) :
    Ramped (s.forgetWorker id now) now := by
  constructor
  · intro w r hget
    rw [forgetWorker_worker] at hget
    split at hget
    · cases hget
    · exact h.workers w r hget
  · intro w p hget
    rcases forgetWorker_penalty hget with hbefore | ⟨r, hr, -, hp, -⟩
    · exact h.penalties w p hbefore
    · rw [hp]
      exact h.workers id r hr
  · rw [forgetWorker_sources]
    exact h.sources

theorem foldl_forgetWorker_ramped (h : Ramped s now) (victims : List H160) :
    Ramped (victims.foldl (fun s v => s.forgetWorker v now) s) now := by
  induction victims generalizing s with
  | nil => exact h
  | cons v rest ih => exact ih (forgetWorker_ramped h v)

/-- A new record takes over the kept history, or starts with none. -/
theorem admitWorker_ramped (h : Ramped s now) (w : RegisteredWorker) (source : String) :
    Ramped (s.admitWorker w source now) now := by
  constructor
  · intro id r hget
    unfold admitWorker at hget
    dsimp only at hget
    rw [get_insert] at hget
    split at hget
    · cases hget
      cases hpenalty : s.penalties[w.id]? with
      | none => exact Nat.zero_le _
      | some p => exact h.penalties w.id p hpenalty
    · exact h.workers id r hget
  · intro id p hget
    unfold admitWorker at hget
    dsimp only at hget
    rw [get_erase] at hget
    split at hget
    · cases hget
    · exact h.penalties id p hget
  · exact h.sources

theorem register_ramped (h : Ramped s now) (w : RegisteredWorker) (source : String) :
    Ramped (s.register w source now).1 now := by
  cases hknown : s.workers[w.id]? with
  | some r =>
      apply h.of_same
      simp only [register, hknown]
      exact SameHistories.of_modify rfl (fun _ => rfl) rfl rfl
  | none =>
      have hmarked : Ramped s.markDirty now := ⟨h.workers, h.penalties, h.sources⟩
      have hevicted := foldl_forgetWorker_ramped hmarked (s.evictions w source now)
      rcases register_new source now hknown with ⟨hrefused, -⟩ | ⟨hadmitted, -⟩
      · rw [hrefused]
        exact hevicted
      · rw [hadmitted]
        exact admitWorker_ramped hevicted w source

/-- The later of the two cool-downs whose counters a vouched delivery clears: the
worker's and its source group's. -/
def clearedCooldown (s : State) (w : H160) : Nat :=
  match s.workers[w]? with
  | none => 0
  | some r => max r.cooldownUntil
      ((s.sources[sourceGroup r.source]?).elim 0 SourceRecord.cooldownUntil)

theorem clearedCooldown_of_known {w : H160} {r : WorkerRecord} (h : s.workers[w]? = some r) :
    s.clearedCooldown w = max r.cooldownUntil
      ((s.sources[sourceGroup r.source]?).elim 0 SourceRecord.cooldownUntil) := by
  rw [clearedCooldown, h]

theorem credit_ramped (h : Ramped s now) (w : H160) (trusted : Bool)
    (hclear : trusted = true → s.clearedCooldown w ≤ satAdd now NOSHOW_BACKOFF_BASE_SECS) :
    Ramped (s.credit w trusted now) now := by
  -- a cleared counter still stands for the shortest back-off
  have hcleared : ∀ cooldown, trusted = true → cooldown ≤ s.clearedCooldown w →
      Within now 0 cooldown := by
    intro cooldown htrusted hle
    exact hle.trans (hclear htrusted)
  constructor
  · intro id r' hget
    unfold credit at hget
    dsimp only at hget
    rw [get_modify] at hget
    split at hget
    · rename_i heq
      subst heq
      have ⟨r, hr, hdelivered⟩ := Option.map_eq_some_iff.mp hget
      rw [← hdelivered]
      cases trusted with
      | false => exact h.workers w r hr
      | true =>
          apply hcleared _ rfl
          rw [clearedCooldown_of_known hr]
          exact le_max_left _ _
    · exact h.workers id r' hget
  · exact h.penalties
  · intro g r' hget
    unfold credit at hget
    dsimp only at hget
    cases hknown : s.workers[w]? with
    | none =>
        rw [hknown] at hget
        exact h.sources g r' hget
    | some r =>
        rw [hknown] at hget
        dsimp only [Option.map_some] at hget
        cases trusted with
        | false => exact h.sources g r' hget
        | true =>
            rw [if_pos rfl, get_modify] at hget
            split at hget
            · rename_i heq
              have ⟨src, hsrc, hreset⟩ := Option.map_eq_some_iff.mp hget
              rw [← hreset]
              apply hcleared _ rfl
              rw [clearedCooldown_of_known hknown, heq, hsrc]
              exact le_max_right _ _
            · exact h.sources g r' hget

end State

/-- The step clears no counter whose cool-down has more than the shortest back-off
left to run: a vouched worker that delivers a live lease is not held back longer,
and neither is its source group. -/
def ClearsShort (world : World) (e : Event) : Prop :=
  match e.op with
  | .submit w job _ =>
      world.state.policy.isTrusted w = true →
        ((world.state.jobs[job]?).bind fun r => r.status.liveHolder? e.now) = some w →
          world.state.clearedCooldown w ≤ satAdd e.now NOSHOW_BACKOFF_BASE_SECS
  | _ => True

instance {world : World} {e : Event} : Decidable (ClearsShort world e) :=
  match h : e.op with
  | .submit w job result =>
      decidable_of_iff (world.state.policy.isTrusted w = true →
        ((world.state.jobs[job]?).bind fun r => r.status.liveHolder? e.now) = some w →
          world.state.clearedCooldown w ≤ satAdd e.now NOSHOW_BACKOFF_BASE_SECS)
        (by simp [ClearsShort, h])
  | .addJob _ | .register _ _ | .lease _ | .renew _ _ | .expireLeases
  | .revokeOutOfPolicy | .graceLiveLeases | .restart _ =>
      .isTrue (by simp [ClearsShort, h])

/-- The clock does not go back. -/
def Forward (world : World) (e : Event) : Prop := world.clock ≤ e.now

instance {world : World} {e : Event} : Decidable (Forward world e) :=
  inferInstanceAs (Decidable (_ ≤ _))

theorem ramped_step (env : Env) {world : World} {e : Event} (hforward : Forward world e)
    (hclear : ClearsShort world e) (h : Ramped world.state world.clock) :
    Ramped ((machine env).step world e).state ((machine env).step world e).clock := by
  have hnow := h.later hforward
  change Ramped (world.state.apply env e) e.now
  rcases State.apply_histories env world.state e with
    ⟨w, source, hop⟩ | hsame | ⟨s₀, hbefore, -, -, hafter⟩ |
    ⟨w, job, result, s₀, hop, ⟨r, x, d, hget, hstatus, hlive⟩, hw, hp, hs, hcredit⟩
  · rw [State.apply, hop]
    exact State.register_ramped hnow w source
  · exact hnow.of_same hsame
  · exact (State.expireLeases_ramped (hnow.of_same hbefore)).of_same hafter
  · rw [hcredit]
    have hsame : SameHistories world.state s₀ := SameHistories.of_eq hw hp hs
    refine State.credit_ramped (hnow.of_same hsame) w _ fun htrusted => ?_
    unfold ClearsShort at hclear
    rw [hop] at hclear
    have hshort := hclear htrusted (by simp [hget, hstatus, JobStatus.liveHolder?, hlive])
    rw [State.clearedCooldown] at hshort ⊢
    rwa [hw, hs]

theorem init_ramped (policy : Policy) :
    Ramped (World.init policy).state (World.init policy).clock := by
  constructor
  · intro w r hget
    simp [World.init, State.empty] at hget
  · intro w p hget
    simp [World.init, State.empty] at hget
  · intro g r hget
    simp [World.init, State.empty] at hget

/-- **When a lapse never shortens a cool-down.**  In a run whose clock does not go
back and whose submissions clear no counter under a long cool-down, a sweep from any
state reached, at any later time, ends no cool-down earlier, as long as the groups
that cool down and the groups it charges fit the source table. -/
theorem cooldowns_kept (env : Env) (policy : Policy) (events : List Event)
    (hrun : (machine env).Along Forward (World.init policy) events)
    (hclear : (machine env).Along ClearsShort (World.init policy) events) (now : Nat)
    (hnow : ((machine env).run (World.init policy) events).clock ≤ now)
    (hroom : (((machine env).run (World.init policy) events).state.runningGroups now ∪
      ((machine env).run (World.init policy) events).state.chargedGroups now).card ≤
        MAX_SOURCES) :
    CooldownsKept ((machine env).run (World.init policy) events).state
      (((machine env).run (World.init policy) events).state.expireLeases now).1 now := by
  have hramped := Machine.run_invariant (fun world : World => Ramped world.state world.clock)
    (fun world e hinv hstep => ramped_step env hstep.1 hstep.2 hinv) (init_ramped policy)
    (hrun.and hclear)
  exact State.expireLeases_kept (hramped.later hnow) hroom

/-- One vouched worker. -/
def oneVouched : Policy := { Policy.default with trustedH01 := {(probeWorker 4).id} }

/-- Three unvouched machines of one network and a vouched one hold leases; two of
them lapse, the vouched one delivers, and the third is about to lapse. -/
def clearedRun : List Event :=
  [⟨.addJob (probeJob "a" 100), 1⟩, ⟨.addJob (probeJob "b" 100), 1⟩,
    ⟨.addJob (probeJob "d" 800), 1⟩, ⟨.addJob (probeJob "t" 900), 1⟩,
    ⟨.register (probeWorker 1) "s", 1⟩, ⟨.register (probeWorker 2) "s", 1⟩,
    ⟨.register (probeWorker 3) "s", 1⟩, ⟨.register (probeWorker 4) "s", 1⟩,
    ⟨.lease (probeWorker 1).id, 1⟩, ⟨.lease (probeWorker 2).id, 1⟩,
    ⟨.lease (probeWorker 3).id, 1⟩, ⟨.lease (probeWorker 4).id, 1⟩,
    ⟨.expireLeases, 200⟩]

theorem clearedRun_cooldowns_kept :
    CooldownsKept ((machine plainEnv).run (World.init oneVouched) clearedRun).state
      (((machine plainEnv).run (World.init oneVouched) clearedRun).state.expireLeases 850).1 850 :=
  cooldowns_kept plainEnv oneVouched clearedRun (by decide) (by decide) 850 (by decide)
    (by decide)

/-- After the delivery the network's counter starts again from one, and the third
lapse cuts its cool-down from 7400 to 4450. -/
theorem clearedRun_cooldown_shortened :
    (machine plainEnv).Along Admissible (World.init oneVouched)
        (clearedRun ++ [⟨.submit (probeWorker 4).id "t" "ok", 300⟩]) ∧
      ¬ CooldownsKept ((machine plainEnv).run (World.init oneVouched)
          (clearedRun ++ [⟨.submit (probeWorker 4).id "t" "ok", 300⟩])).state
        (((machine plainEnv).run (World.init oneVouched)
          (clearedRun ++ [⟨.submit (probeWorker 4).id "t" "ok", 300⟩])).state.expireLeases
            850).1 850 := by
  refine ⟨by decide, fun h => ?_⟩
  have hbefore : ((machine plainEnv).run (World.init oneVouched)
      (clearedRun ++ [⟨.submit (probeWorker 4).id "t" "ok", 300⟩])).state.sources["s"]? =
        some ⟨0, 7400, 200⟩ := by decide
  have hafter : (((machine plainEnv).run (World.init oneVouched)
      (clearedRun ++ [⟨.submit (probeWorker 4).id "t" "ok", 300⟩])).state.expireLeases
        850).1.sources["s"]? = some ⟨1, 4450, 850⟩ := by decide
  rcases h.sources "s" _ hbefore with ⟨r', hget, hle⟩ | ⟨hnone, -⟩
  · rw [hafter] at hget
    cases hget
    revert hle
    decide
  · rw [hafter] at hnone
    cases hnone

end Coordinator
end ComputePool
