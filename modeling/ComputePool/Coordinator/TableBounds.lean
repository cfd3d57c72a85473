import ComputePool.Coordinator.Histories
import ComputePool.Coordinator.LapseCharge

/-!
# The bounded tables

The registry, the kept penalties and the source table are bounded, and an insertion
into a full table evicts.  A slot that is reclaimed makes room in its source, a
registry that is full forgets one worker for each it admits, and what is forgotten is
never a vouched worker or one that holds a live lease.
-/

namespace ComputePool
namespace Coordinator

open RustStd

/-! ## One insertion into a full table -/

section

variable {α β γ : Type} [LinearOrder α] [LinearOrder γ] {m dropped : BTreeMap α β} {cap : Nat}

/-- An entry goes into a table that has room or the key, or that loses an entry first. -/
theorem size_insert_bounded (hbound : m.size ≤ cap) {k : α} (v : β)
    (h : dropped = m ∧ (k ∈ m ∨ m.size < cap) ∨ ∃ e ∈ m.toList, dropped = m.erase e.1) :
    (dropped.insert k v).size ≤ cap := by
  have hle : (dropped.insert k v).size ≤ dropped.size + 1 := Std.ExtTreeMap.size_insert_le
  rcases h with ⟨hsame, hk | hroom⟩ | ⟨e, hmem, herase⟩
  · have hsize : (m.insert k v).size = m.size := by
      rw [Std.ExtTreeMap.size_insert, if_pos (Std.ExtTreeMap.mem_iff_contains.mp hk)]
    rw [hsame, hsize]
    exact hbound
  · rw [hsame] at hle ⊢
    omega
  · have hin : e.1 ∈ m := mem_iff_get.mpr ⟨_, mem_entries.mp hmem⟩
    have hpos : 0 < m.toList.length := List.length_pos_of_mem hmem
    have hlength : m.toList.length = m.size := Std.ExtTreeMap.length_toList
    have hsize : (m.erase e.1).size = m.size - 1 := by
      rw [Std.ExtTreeMap.size_erase, if_pos (Std.ExtTreeMap.mem_iff_contains.mp hin)]
    rw [herase, hsize] at hle
    rw [herase]
    omega

/-- A full table has a least entry. -/
theorem minByKey_of_full (hcap : 0 < cap) (hfull : cap ≤ m.size) (key : α × β → γ) :
    ∃ e ∈ m.toList, minByKey key m.toList = some e := by
  cases hleast : minByKey key m.toList with
  | some e => exact ⟨e, minByKey_mem hleast, rfl⟩
  | none =>
      have hlength : m.toList.length = m.size := Std.ExtTreeMap.length_toList
      rw [List.argmin_eq_none.mp hleast, List.length_nil] at hlength
      omega

end

namespace State

variable {s : State} {now : Nat}

theorem chargeSource_bounded (h : s.sources.size ≤ MAX_SOURCES) (group : String) (now : Nat) :
    (s.chargeSource group now).sources.size ≤ MAX_SOURCES := by
  unfold chargeSource
  dsimp only
  apply size_insert_bounded h
  by_cases hfull : group ∉ s.sources ∧ s.sources.size ≥ MAX_SOURCES
  · have ⟨e, hmem, hleast⟩ := minByKey_of_full (by decide) hfull.2
      fun e => toLex (decide (e.2.cooldownUntil > now), e.2.lastSeen)
    rw [if_pos hfull, hleast]
    exact .inr ⟨e, hmem, rfl⟩
  · rw [if_neg hfull]
    refine .inl ⟨rfl, ?_⟩
    by_contra hno
    have ⟨hout, hsize⟩ := not_or.mp hno
    exact hfull ⟨hout, not_lt.mp hsize⟩

theorem expireLeases_sources_size (h : s.sources.size ≤ MAX_SOURCES) (now : Nat) :
    (s.expireLeases now).1.sources.size ≤ MAX_SOURCES := by
  have hcharge : ∀ (groups : List String) (t : State), t.sources.size ≤ MAX_SOURCES →
      (groups.foldl (fun s g => s.chargeSource g now) t).sources.size ≤ MAX_SOURCES := by
    intro groups
    induction groups with
    | nil => exact fun _ ht => ht
    | cons g rest ih => exact fun t ht => ih _ (chargeSource_bounded ht g now)
  apply hcharge
  have hsources : (s.sweepJobs now).state.sources = s.sources := Sweep.foldl_sources
  rw [hsources]
  exact h

/-! ## What forgetting a worker does to the penalties -/

theorem forgetWorker_penalties_size (h : s.penalties.size ≤ MAX_WORKERS) (id : H160) (now : Nat) :
    (s.forgetWorker id now).penalties.size ≤ MAX_WORKERS := by
  unfold forgetWorker
  cases s.workers[id]? with
  | none => exact h
  | some r =>
      dsimp only
      split
      · exact h
      · apply size_insert_bounded h
        by_cases hfull : s.penalties.size ≥ MAX_WORKERS ∧ id ∉ s.penalties
        · have ⟨e, hmem, hleast⟩ := minByKey_of_full (by decide) hfull.1
            fun e => e.2.cooldownUntil
          rw [if_pos hfull, hleast]
          exact .inr ⟨e, hmem, rfl⟩
        · rw [if_neg hfull]
          refine .inl ⟨rfl, ?_⟩
          by_contra hno
          have ⟨hout, hsize⟩ := not_or.mp hno
          exact hfull ⟨not_lt.mp hsize, hout⟩

theorem forgetWorker_penalty_none {id a : H160} (hne : id ≠ a) (h : s.penalties[a]? = none)
    (now : Nat) : (s.forgetWorker id now).penalties[a]? = none := by
  unfold forgetWorker
  cases s.workers[id]? with
  | none => exact h
  | some r =>
      dsimp only
      split
      · exact h
      · dsimp only
        rw [get_insert, if_neg hne]
        split
        · split
          · rw [get_erase, h]
            exact ite_self _
          · exact h
        · exact h

/-! ## The unvouched workers of a source -/

/-- The keys that `fromSource` lists. -/
def unvouchedFrom (s : State) (source : String) : Finset H160 :=
  ((s.fromSource source).map Prod.fst).toFinset

theorem mem_unvouchedFrom {id : H160} {source : String} :
    id ∈ s.unvouchedFrom source ↔
      s.ledger.roster id = some source ∧ s.policy.isTrusted id = false := by
  unfold unvouchedFrom fromSource
  rw [roster_iff, List.mem_toFinset, List.mem_map]
  constructor
  · rintro ⟨⟨k, r⟩, hmem, rfl⟩
    rw [List.mem_filter, mem_entries, Bool.and_eq_true, beq_iff_eq, Bool.not_eq_true'] at hmem
    exact ⟨⟨r, hmem.1, hmem.2.1⟩, hmem.2.2⟩
  · rintro ⟨⟨r, hget, hsource⟩, htrust⟩
    refine ⟨(id, r), ?_, rfl⟩
    rw [List.mem_filter, mem_entries, Bool.and_eq_true, beq_iff_eq, Bool.not_eq_true']
    exact ⟨hget, hsource, htrust⟩

theorem card_unvouchedFrom (s : State) (source : String) :
    (s.unvouchedFrom source).card = (s.fromSource source).length := by
  have hnodup : ((s.fromSource source).map Prod.fst).Nodup :=
    (entries_keys_nodup s.workers).sublist (List.filter_sublist.map _)
  unfold unvouchedFrom
  rw [List.toFinset_card_of_nodup hnodup, List.length_map]

/-- Where the roster and the policy are the same, so are the slots taken. -/
theorem fromSource_length_of_roster {s' : State} (hroster : s'.ledger.roster = s.ledger.roster)
    (hpolicy : s'.policy = s.policy) (source : String) :
    (s'.fromSource source).length = (s.fromSource source).length := by
  rw [← card_unvouchedFrom, ← card_unvouchedFrom]
  congr 1
  ext id
  rw [mem_unvouchedFrom, mem_unvouchedFrom, hroster, hpolicy]

/-- No operation but a registration changes the roster. -/
theorem apply_roster (env : Env) (s : State) (e : Event) :
    (∃ w source, e.op = .register w source) ∨
      (s.apply env e).ledger.roster = s.ledger.roster := by
  have hworkers : ∀ t : State, t.workers = s.workers → t.ledger.roster = s.ledger.roster := by
    intro t ht
    unfold State.ledger
    dsimp only
    rw [ht]
  have ⟨op, now⟩ := e
  cases op with
  | addJob spec => exact .inr rfl
  | register w source => exact .inl ⟨w, source, rfl⟩
  | lease worker =>
      right
      change (s.lease env worker now).1.ledger.roster = _
      have hbefore : (s.beforePick worker now).ledger.roster = s.ledger.roster := by
        unfold beforePick
        rw [expireLeases_roster, engage_ledger]
      rcases lease_cases (s := s) env worker now with
        ⟨_, hsame⟩ | ⟨r, _, hpolled | ⟨id, j, _, _, _, hgrant⟩⟩
      · rw [hsame]
      · rw [hpolled, hbefore]
      · rw [hgrant]
        exact hbefore
  | renew worker job =>
      right
      change (s.renew worker job now).1.ledger.roster = _
      rcases renew_cases (s := s) worker job now with
        hsame | ⟨r, x, d, _, _, _, ⟨_, hrevoked⟩ | ⟨dirty, hextended⟩⟩
      · rw [hsame]
      · rw [hrevoked]
        exact hworkers _ (revokeLease_workers job)
      · rw [hextended]
        exact funext (ledger_modify_workers fun _ => rfl)
  | submit worker job result =>
      right
      change (s.submit worker job result now).1.ledger.roster = _
      rcases submit_cases (s := s) worker job result now with
        hsame | ⟨r, x, d, _, _, _, ⟨_, hrevoked⟩ | ⟨_, hdone⟩⟩
      · rw [hsame]
      · rw [hrevoked]
        exact hworkers _ (revokeLease_workers job)
      · rw [hdone, credit_ledger]
        rfl
  | expireLeases => exact .inr (expireLeases_roster now)
  | revokeOutOfPolicy => exact .inr (hworkers _ (foldl_revokeLease_frame s.outOfPolicy).1)
  | graceLiveLeases => exact .inr rfl
  | restart policy =>
      right
      change (s.restart policy now).ledger.roster = _
      unfold restart openWith
      dsimp only
      rw [takeDirty_ledger]
      exact hworkers _ (foldl_revokeLease_frame _).1

/-! ## A registration -/

/-- What a registration makes of the slots: those of before but for the victim, and one
for a new key that is not vouched. -/
theorem mem_unvouchedFrom_registered {victim : Option H160} {w : RegisteredWorker}
    {source source' : String} {id : H160}
    (h : id ∈ ((s.forget? victim now).admitWorker w source now).unvouchedFrom source') :
    (id = w.id ∧ source = source' ∧ s.policy.isTrusted w.id = false) ∨
      id ∈ s.unvouchedFrom source' ∧ victim ≠ some id := by
  rw [mem_unvouchedFrom, roster_iff] at h
  have ⟨⟨r, hget, hsource⟩, htrust⟩ := h
  have hpolicy : ((s.forget? victim now).admitWorker w source now).policy = s.policy := by
    cases victim with
    | none => rfl
    | some v => exact forgetWorker_policy v
  rw [hpolicy] at htrust
  unfold admitWorker at hget
  dsimp only at hget
  rw [get_insert] at hget
  split at hget
  · rename_i hid
    cases hget
    rw [← hid] at htrust
    exact .inl ⟨hid.symm, hsource, htrust⟩
  · right
    rw [mem_unvouchedFrom, roster_iff]
    cases victim with
    | none => exact ⟨⟨⟨r, hget, hsource⟩, htrust⟩, nofun⟩
    | some v =>
        change (s.forgetWorker v now).workers[id]? = some r at hget
        rw [forgetWorker_worker] at hget
        split at hget
        · cases hget
        · rename_i hne
          exact ⟨⟨⟨r, hget, hsource⟩, htrust⟩, fun hv => hne (Option.some.inj hv)⟩

/-- The victim that makes room in a source takes one of its slots. -/
theorem newVictim_slot {id : H160} {source : String} {victim : Option H160}
    (h : s.newVictim id source now = .ok victim) (hroom : ¬ s.SourceRoom id source) :
    ∃ v ∈ s.unvouchedFrom source, victim = some v := by
  unfold newVictim at h
  rw [if_neg hroom] at h
  cases hslot : s.slotVictim source now with
  | none =>
      rw [hslot] at h
      cases h
  | some v =>
      rw [hslot] at h
      cases h
      refine ⟨v, ?_, rfl⟩
      have ⟨e, he, hv⟩ := Option.map_eq_some_iff.mp hslot
      have hmem := List.mem_of_mem_filter (minByKey_mem he)
      unfold unvouchedFrom
      rw [List.mem_toFinset, List.mem_map]
      exact ⟨e, hmem, hv⟩

/-- A registration leaves every source within its slots. -/
theorem registered_slots {id : H160} {victim : Option H160} {w : RegisteredWorker}
    {source : String} (hid : w.id = id) (h : s.newVictim id source now = .ok victim)
    (hslots : ∀ source', (s.fromSource source').length ≤ s.policy.maxWorkersPerSource)
    (source' : String) :
    (((s.forget? victim now).admitWorker w source now).fromSource source').length ≤
      s.policy.maxWorkersPerSource := by
  subst hid
  rw [← card_unvouchedFrom]
  have hbefore := hslots source'
  rw [← card_unvouchedFrom] at hbefore
  by_cases hsame : source = source' ∧ s.policy.isTrusted w.id = false
  · have ⟨hsource, htrust⟩ := hsame
    subst hsource
    by_cases hroom : s.SourceRoom w.id source
    · -- there was a slot to take
      have hless : (s.fromSource source).length < s.policy.maxWorkersPerSource := by
        rcases hroom with htrusted | hless
        · rw [htrust] at htrusted
          cases htrusted
        · exact hless
      rw [← card_unvouchedFrom] at hless
      have hsub : ((s.forget? victim now).admitWorker w source now).unvouchedFrom source ⊆
          insert w.id (s.unvouchedFrom source) := by
        intro a ha
        rcases mem_unvouchedFrom_registered ha with ⟨hnew, _⟩ | ⟨hold, _⟩
        · exact Finset.mem_insert.mpr (.inl hnew)
        · exact Finset.mem_insert_of_mem hold
      have hcard := (Finset.card_le_card hsub).trans (Finset.card_insert_le _ _)
      omega
    · -- a slot was reclaimed
      have ⟨v, hv, hvictim⟩ := newVictim_slot h hroom
      have hsub : ((s.forget? victim now).admitWorker w source now).unvouchedFrom source ⊆
          insert w.id ((s.unvouchedFrom source).erase v) := by
        intro a ha
        rcases mem_unvouchedFrom_registered ha with ⟨hnew, _⟩ | ⟨hold, hother⟩
        · exact Finset.mem_insert.mpr (.inl hnew)
        · apply Finset.mem_insert_of_mem
          rw [Finset.mem_erase]
          refine ⟨fun hav => hother ?_, hold⟩
          rw [hvictim, hav]
      have hcard := (Finset.card_le_card hsub).trans (Finset.card_insert_le _ _)
      have hpos := Finset.card_pos.mpr ⟨v, hv⟩
      rw [Finset.card_erase_of_mem hv] at hcard
      omega
  · refine (Finset.card_le_card fun a ha => ?_).trans hbefore
    rcases mem_unvouchedFrom_registered ha with ⟨_, hnew⟩ | ⟨hold, _⟩
    · exact absurd hnew hsame
    · exact hold

/-! ## Who is never forgotten -/

theorem newVictim_not_holder {id v : H160} {source : String}
    (h : s.newVictim id source now = .ok (some v)) :
    v ∉ s.leaseholders now ∧ s.policy.isTrusted v = false := by
  unfold newVictim at h
  split at h
  · split at h
    · cases h
    · cases hvictim : s.registryVictim now with
      | none =>
          rw [hvictim] at h
          cases h
      | some v' =>
          rw [hvictim] at h
          cases h
          exact registryVictim_not_holder hvictim
  · cases hvictim : s.slotVictim source now with
    | none =>
        rw [hvictim] at h
        cases h
    | some v' =>
        rw [hvictim] at h
        cases h
        exact slotVictim_not_holder hvictim

/-- Vouched, or in the middle of a job. -/
def Protected (s : State) (id : H160) (now : Nat) : Prop :=
  s.policy.isTrusted id = true ∨ id ∈ s.leaseholders now

theorem register_keeps (hbound : s.workers.size ≤ MAX_WORKERS) {id : H160} {r : WorkerRecord}
    (hget : s.workers[id]? = some r) (hprotected : s.Protected id now) (w : RegisteredWorker)
    (source : String) : ∃ r', (s.register w source now).1.workers[id]? = some r' := by
  cases hknown : s.workers[w.id]? with
  | some known =>
      have hledger := @register_known_ledger s now w source _ hknown
      have hroster := roster_iff.mpr ⟨r, hget, rfl⟩
      rw [← hledger] at hroster
      have ⟨r', hget', _⟩ := roster_iff.mp hroster
      exact ⟨r', hget'⟩
  | none =>
      rw [register_unknown hbound hknown]
      cases hvictim : s.newVictim w.id source now with
      | error e => exact ⟨r, hget⟩
      | ok victim =>
          have hkept : (s.markDirty.forget? victim now).workers[id]? = some r := by
            cases victim with
            | none => exact hget
            | some v =>
                have ⟨hholder, htrust⟩ := newVictim_not_holder hvictim
                have hne : v ≠ id := by
                  rintro rfl
                  rcases hprotected with htrusted | hlive
                  · rw [htrust] at htrusted
                    cases htrusted
                  · exact hholder hlive
                change (s.markDirty.forgetWorker v now).workers[id]? = some r
                rw [forgetWorker_worker, if_neg hne]
                exact hget
          dsimp only
          unfold admitWorker
          dsimp only
          rw [get_insert, hkept]
          split
          · exact ⟨_, rfl⟩
          · exact ⟨_, rfl⟩

/-- No operation removes a worker that is protected at that moment. -/
theorem apply_keeps (env : Env) (hbound : s.workers.size ≤ MAX_WORKERS) {e : Event} {id : H160}
    {r : WorkerRecord} (hget : s.workers[id]? = some r) (hprotected : s.Protected id e.now) :
    ∃ r', (s.apply env e).workers[id]? = some r' := by
  rcases apply_roster env s e with ⟨w, source, hop⟩ | hroster
  · unfold apply
    rw [hop]
    exact register_keeps hbound hget hprotected w source
  · have hbefore := roster_iff.mpr ⟨r, hget, rfl⟩
    rw [← hroster] at hbefore
    have ⟨r', hget', _⟩ := roster_iff.mp hbefore
    exact ⟨r', hget'⟩

end State

/-! ## Every run -/

/-- The three tables within their bounds, no key in two of them, and every source
within its slots. -/
structure Tables (s : State) : Prop where
  workers_le : s.workers.size ≤ MAX_WORKERS
  penalties_le : s.penalties.size ≤ MAX_WORKERS
  sources_le : s.sources.size ≤ MAX_SOURCES
  apart : ∀ (id : H160) r, s.workers[id]? = some r → s.penalties[id]? = none
  slots_le : ∀ source, (s.fromSource source).length ≤ s.policy.maxWorkersPerSource

namespace Tables

variable {s : State} {now : Nat}

theorem empty (policy : Policy) : Tables (State.empty policy) where
  workers_le := Nat.zero_le _
  penalties_le := Nat.zero_le _
  sources_le := Nat.zero_le _
  apart id r h := by simp [State.empty] at h
  slots_le source := Nat.zero_le _

/-- A step that leaves roster, penalties and policy alone. -/
theorem of_same {s' : State} (h : Tables s) (hsize : s'.workers.size = s.workers.size)
    (hroster : s'.ledger.roster = s.ledger.roster) (hpenalties : s'.penalties = s.penalties)
    (hpolicy : s'.policy = s.policy) (hsources : s'.sources.size ≤ MAX_SOURCES) : Tables s' where
  workers_le := hsize ▸ h.workers_le
  penalties_le := hpenalties ▸ h.penalties_le
  sources_le := hsources
  apart id r hget := by
    have hroster' := roster_iff.mpr ⟨r, hget, rfl⟩
    rw [hroster] at hroster'
    have ⟨before, hbefore, _⟩ := roster_iff.mp hroster'
    rw [hpenalties]
    exact h.apart id before hbefore
  slots_le source := by
    rw [State.fromSource_length_of_roster hroster hpolicy, hpolicy]
    exact h.slots_le source

/-- Forgetting a worker leaves the penalties within their bound and apart from the
registry. -/
theorem forget? (h : Tables s) (victim : Option H160) (now : Nat) :
    (s.forget? victim now).penalties.size ≤ MAX_WORKERS ∧
      (s.forget? victim now).sources = s.sources ∧
      ∀ (id : H160) r, (s.forget? victim now).workers[id]? = some r →
        (s.forget? victim now).penalties[id]? = none := by
  cases victim with
  | none => exact ⟨h.penalties_le, rfl, h.apart⟩
  | some v =>
      change (s.forgetWorker v now).penalties.size ≤ MAX_WORKERS ∧
        (s.forgetWorker v now).sources = s.sources ∧
        ∀ (id : H160) r, (s.forgetWorker v now).workers[id]? = some r →
          (s.forgetWorker v now).penalties[id]? = none
      refine ⟨State.forgetWorker_penalties_size h.penalties_le v now, ?_, fun id r hget => ?_⟩
      · rcases State.forgetWorker_spec (s := s) v now with ⟨_, hforget | ⟨_, hforget⟩⟩
        · rw [hforget]
        · rw [hforget]
      · rw [State.forgetWorker_worker] at hget
        split at hget
        · cases hget
        · rename_i hne
          exact State.forgetWorker_penalty_none hne (h.apart id r hget) now

theorem register (h : Tables s) (w : RegisteredWorker) (source : String) (now : Nat) :
    Tables (s.register w source now).1 := by
  have hsize := State.register_size h.workers_le w source now
  cases hknown : s.workers[w.id]? with
  | some r =>
      have hledger := @State.register_known_ledger s now w source _ hknown
      simp only [State.register, hknown] at hledger ⊢
      exact h.of_same Std.ExtTreeMap.size_modify (congrArg _ hledger) rfl rfl h.sources_le
  | none =>
      have hpolicy := @State.register_policy s w source now
      have hdirty : Tables s.markDirty := h.of_same rfl rfl rfl rfl h.sources_le
      rw [State.register_unknown h.workers_le hknown] at hsize hpolicy ⊢
      cases hvictim : s.newVictim w.id source now with
      | error e => exact hdirty
      | ok victim =>
          rw [hvictim] at hsize hpolicy
          dsimp only at hsize hpolicy ⊢
          obtain ⟨hpenalties, hsources, hapart⟩ := hdirty.forget? victim now
          have hvictim' : s.markDirty.newVictim w.id source now = .ok victim := hvictim
          refine ⟨hsize, ?_, ?_, ?_, ?_⟩
          · exact Std.ExtTreeMap.size_erase_le.trans hpenalties
          · change (s.markDirty.forget? victim now).sources.size ≤ MAX_SOURCES
            rw [hsources]
            exact h.sources_le
          · intro a r hget
            unfold State.admitWorker at hget ⊢
            dsimp only at hget ⊢
            rw [get_insert] at hget
            rw [get_erase]
            split at hget
            · rename_i hid
              rw [if_pos hid]
            · rename_i hne
              rw [if_neg hne]
              exact hapart a r hget
          · intro source'
            rw [hpolicy]
            exact State.registered_slots rfl hvictim' hdirty.slots_le source'

/-- Every operation under one policy keeps the tables. -/
theorem apply (env : Env) (h : Tables s) {e : Event} (hfixed : e.op.KeepsPolicy s.policy) :
    Tables (s.apply env e) := by
  have hpolicy : (s.apply env e).policy = s.policy := State.apply_policy rfl hfixed
  have hsize := State.apply_size env h.workers_le e
  rcases State.apply_roster env s e with ⟨w, source, hop⟩ | hroster
  · unfold State.apply
    rw [hop]
    exact h.register w source e.now
  · rcases State.apply_histories env s e with
      ⟨w, source, hop⟩ | hsame | ⟨s₀, hbefore, _, _, hafter⟩ | ⟨w, job, result, s₀, _, _, hw, hp, hs, hcredit⟩
    · unfold State.apply
      rw [hop]
      exact h.register w source e.now
    · exact h.of_same hsame.size hroster hsame.penalties hpolicy (hsame.sources ▸ h.sources_le)
    · have hsources : (s.apply env e).sources.size ≤ MAX_SOURCES := by
        rw [hafter.sources]
        apply State.expireLeases_sources_size
        rw [hbefore.sources]
        exact h.sources_le
      refine h.of_same ?_ hroster ?_ hpolicy hsources
      · rw [hafter.size, State.expireLeases_size, hbefore.size]
      · rw [hafter.penalties, State.expireLeases_penalties, hbefore.penalties]
    · refine h.of_same ?_ hroster ?_ hpolicy ?_
      · rw [hcredit, State.credit]
        dsimp only
        rw [Std.ExtTreeMap.size_modify, hw]
      · rw [hcredit]
        exact hp
      · rw [hcredit, State.credit]
        dsimp only
        have hle := h.sources_le
        rw [← hs] at hle
        split
        · split
          · rw [Std.ExtTreeMap.size_modify]
            exact hle
          · exact hle
        · exact hle

end Tables

/-- The state that `events` leave, from an empty store. -/
abbrev stateAfter (env : Env) (policy : Policy) (events : List Event) : State :=
  ((machine env).run (World.init policy) events).state

theorem tables_run (env : Env) (policy : Policy) {events : List Event}
    (hfixed : ∀ e ∈ events, e.op.KeepsPolicy policy) :
    (stateAfter env policy events).policy = policy ∧ Tables (stateAfter env policy events) := by
  induction events using List.reverseRecOn with
  | nil => exact ⟨rfl, Tables.empty policy⟩
  | append_singleton front e ih =>
      have ⟨hpolicy, htables⟩ := ih fun e he => hfixed e (List.mem_append_left _ he)
      have he := hfixed e (List.mem_append_right _ (List.mem_singleton_self e))
      have hstep : stateAfter env policy (front ++ [e]) =
          (stateAfter env policy front).apply env e := by
        unfold stateAfter
        rw [Machine.run_append]
        rfl
      rw [hstep]
      refine ⟨State.apply_policy hpolicy he, htables.apply env ?_⟩
      rw [hpolicy]
      exact he

/-- In every run from an empty store under one policy, the three tables keep their
bounds, no key is both registered and penalised, no source holds more slots than the
policy allows, and no step removes a worker that is vouched or holds a live lease when
it is made. -/
theorem tables_bounded (env : Env) (policy : Policy) (events : List Event)
    (hfixed : ∀ e ∈ events, e.op.KeepsPolicy policy) :
    Tables (stateAfter env policy events) ∧
      ∀ front e, front ++ [e] <+: events → ∀ (id : H160) r,
        (stateAfter env policy front).workers[id]? = some r →
          (stateAfter env policy front).Protected id e.now →
            ∃ r', (stateAfter env policy (front ++ [e])).workers[id]? = some r' := by
  refine ⟨(tables_run env policy hfixed).2, fun front e hpre id r hget hprotected => ?_⟩
  have hfront : ∀ e ∈ front, e.op.KeepsPolicy policy := fun e' he' =>
    hfixed e' (hpre.subset (List.mem_append_left _ he'))
  have hbound := (tables_run env policy hfront).2.workers_le
  unfold stateAfter
  rw [Machine.run_append]
  exact State.apply_keeps env hbound hget hprotected

/-- Two workers of one source; after a day the first leases a job. -/
def silentDay : List Event :=
  [⟨.addJob (probeJob "j" 3600), 10⟩, ⟨.register (probeWorker 1) "a", 10⟩,
    ⟨.register (probeWorker 2) "a", 20⟩, ⟨.lease (probeWorker 1).id, 86500⟩]

def twoPerSource : Policy := { Policy.default with maxWorkersPerSource := 2 }

/-- A third worker of the source takes the slot of the second; the first, on its lease,
stays. -/
theorem tables_bounded_two :
    let events := silentDay ++ [⟨.register (probeWorker 3) "a", 87000⟩]
    Tables (stateAfter plainEnv twoPerSource events) ∧
      (probeWorker 2).id ∉ (stateAfter plainEnv twoPerSource events).workers ∧
      (probeWorker 3).id ∈ (stateAfter plainEnv twoPerSource events).workers ∧
      ∃ r, (stateAfter plainEnv twoPerSource events).workers[(probeWorker 1).id]? = some r := by
  intro events
  have hfixed : ∀ e ∈ events, e.op.KeepsPolicy twoPerSource := by decide
  obtain ⟨htables, hkept⟩ := tables_bounded plainEnv twoPerSource events hfixed
  obtain ⟨hsome, hlease⟩ :
      ((stateAfter plainEnv twoPerSource silentDay).workers[(probeWorker 1).id]?).isSome ∧
        (probeWorker 1).id ∈ (stateAfter plainEnv twoPerSource silentDay).leaseholders 87000 := by
    decide
  obtain ⟨r, hget⟩ := Option.isSome_iff_exists.mp hsome
  -- the last step takes a slot of the source; the lease protects the first worker in it
  exact ⟨htables, by decide, by decide,
    hkept silentDay ⟨.register (probeWorker 3) "a", 87000⟩ (List.prefix_refl _) _ r hget
      (.inr hlease)⟩

end Coordinator
end ComputePool
