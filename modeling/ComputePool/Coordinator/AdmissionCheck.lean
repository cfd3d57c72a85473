import ComputePool.Coordinator.Histories
import ComputePool.Coordinator.LapseCharge

/-!
# The check before a registration

`admits_new` repeats the decision of `register` without acting on it, so that the
API can ask before it spends the budget for new identities.  It knows the limit of
the source and not the bound of the registry, and a refused registration has
already marked the state.
-/

namespace ComputePool
namespace Coordinator

open RustStd LeaseLedger

namespace State

variable {s : State} {now : Nat}

/-- The check and the registration agree on a new key, and a refusal changes
nothing. -/
structure AdmissionAgrees (s : State) (w : RegisteredWorker) (source : String)
    (now : Nat) : Prop where
  agree : s.admitsNew w.id source now = .ok () ↔
    ∃ granted, (s.register w source now).2 = .ok granted
  unchanged : ∀ e, (s.register w source now).2 = .error e → (s.register w source now).1 = s

/-- A slot of the source can be reclaimed. -/
def SlotReclaimable (s : State) (source : String) (now : Nat) : Prop :=
  s.staleSlots source (s.leaseholders now) now ≠ []

/-- The registry is below its bound, or a worker can be evicted. -/
def RegistryRoom (s : State) (now : Nat) : Prop :=
  s.workers.size < MAX_WORKERS ∨ s.evictable (s.leaseholders now) ≠ []

/-- What the state must offer: with room in the source, room in the registry;
without, a slot to reclaim, or nothing left to mark. -/
def CheckHolds (s : State) (id : H160) (source : String) (now : Nat) : Prop :=
  if s.SourceRoom id source then s.RegistryRoom now
  else s.SlotReclaimable source now ∨ s.dirty = true

instance {s : State} {id : H160} {source : String} {now : Nat} :
    Decidable (s.CheckHolds id source now) :=
  inferInstanceAs (Decidable
    (if s.SourceRoom id source then
      s.workers.size < MAX_WORKERS ∨ s.evictable (s.leaseholders now) ≠ []
    else s.staleSlots source (s.leaseholders now) now ≠ [] ∨ s.dirty = true))

theorem slotVictim_eq_none {source : String} :
    s.slotVictim source now = none ↔ ¬ s.SlotReclaimable source now := by
  rw [slotVictim, Option.map_eq_none_iff, SlotReclaimable, not_not]
  exact List.argmin_eq_none

theorem registryVictim_eq_none (hfull : ¬ s.workers.size < MAX_WORKERS) :
    s.registryVictim now = none ↔ ¬ s.RegistryRoom now := by
  rw [registryVictim, if_pos (not_lt.mp hfull), Option.map_eq_none_iff, RegistryRoom,
    not_or, not_not]
  constructor
  · exact fun hnone => ⟨hfull, List.argmin_eq_none.mp hnone⟩
  · exact fun hroom => List.argmin_eq_none.mpr hroom.2

theorem admitsNew_eq (id : H160) (source : String) :
    s.admitsNew id source now = .ok () ↔
      s.SourceRoom id source ∨ s.SlotReclaimable source now := by
  unfold admitsNew
  by_cases htrusted : s.policy.isTrusted id = true
  · rw [if_pos htrusted]
    exact iff_of_true rfl (.inl (.inl htrusted))
  · rw [if_neg htrusted]
    by_cases hroom : (s.fromSource source).length < s.policy.maxWorkersPerSource
    · rw [if_pos hroom]
      exact iff_of_true rfl (.inl (.inr hroom))
    · rw [if_neg hroom]
      have hnone : ¬ s.SourceRoom id source := not_or.mpr ⟨htrusted, hroom⟩
      cases hslots : s.staleSlots source (s.leaseholders now) now with
      | nil =>
          refine iff_of_false (fun h => by cases h) (not_or.mpr ⟨hnone, ?_⟩)
          rw [SlotReclaimable, not_not]
          exact hslots
      | cons slot rest =>
          refine iff_of_true rfl (.inr ?_)
          rw [SlotReclaimable, hslots]
          exact List.cons_ne_nil slot rest

theorem newVictim_ok (id : H160) (source : String) :
    (∃ victim, s.newVictim id source now = .ok victim) ↔
      if s.SourceRoom id source then s.RegistryRoom now else s.SlotReclaimable source now := by
  unfold newVictim
  by_cases hroom : s.SourceRoom id source
  · rw [if_pos hroom, if_pos hroom]
    by_cases hfull : s.workers.size < MAX_WORKERS
    · rw [if_pos hfull]
      exact iff_of_true ⟨none, rfl⟩ (.inl hfull)
    · rw [if_neg hfull]
      have hnone := @registryVictim_eq_none _ now hfull
      cases hvictim : s.registryVictim now with
      | none => exact iff_of_false (fun ⟨_, h⟩ => by cases h) (hnone.mp hvictim)
      | some v =>
          refine iff_of_true ⟨some v, rfl⟩ (not_not.mp fun h => ?_)
          rw [hnone.mpr h] at hvictim
          cases hvictim
  · rw [if_neg hroom, if_neg hroom]
    cases hvictim : s.slotVictim source now with
    | none => exact iff_of_false (fun ⟨_, h⟩ => by cases h) (slotVictim_eq_none.mp hvictim)
    | some v =>
        refine iff_of_true ⟨some v, rfl⟩ (not_not.mp fun h => ?_)
        rw [slotVictim_eq_none.mpr h] at hvictim
        cases hvictim

theorem markDirty_eq_iff : s.markDirty = s ↔ s.dirty = true := by
  constructor
  · intro h
    exact (congrArg State.dirty h).symm
  · intro h
    cases s
    cases h
    rfl

/-- The exact condition, in a state whose registry is within its bound. -/
theorem admissionAgrees_iff (hbound : s.workers.size ≤ MAX_WORKERS) {w : RegisteredWorker}
    (hnew : s.workers[w.id]? = none) (source : String) :
    s.AdmissionAgrees w source now ↔ s.CheckHolds w.id source now := by
  have hregister := register_unknown hbound hnew source now
  have hvictim := @newVictim_ok s now w.id source
  have hcheck := @admitsNew_eq s now w.id source
  cases hnext : s.newVictim w.id source now with
  | ok victim =>
      -- admitted: there is nothing to leave unchanged
      rw [hnext] at hregister
      have hroom := hvictim.mp ⟨victim, hnext⟩
      refine iff_of_true ⟨iff_of_true ?_ ⟨_, congrArg Prod.snd hregister⟩, ?_⟩ ?_
      · rw [hcheck]
        split at hroom
        · rename_i hsource
          exact .inl hsource
        · exact .inr hroom
      · intro e herr
        rw [hregister] at herr
        cases herr
      · unfold CheckHolds
        split at hroom
        · rename_i hsource
          rw [if_pos hsource]
          exact hroom
        · rename_i hsource
          rw [if_neg hsource]
          exact .inl hroom
  | error e =>
      rw [hnext] at hregister
      have hnone := mt hvictim.mpr fun ⟨victim, h⟩ => by
        rw [hnext] at h
        cases h
      have hrefused : ¬ ∃ granted, (s.register w source now).2 = .ok granted := by
        rintro ⟨granted, h⟩
        rw [hregister] at h
        cases h
      have hmarked : (s.register w source now).1 = s.markDirty := congrArg Prod.fst hregister
      unfold CheckHolds
      by_cases hsource : s.SourceRoom w.id source
      · -- the check lets the key through, and the registry turns it away
        rw [if_pos hsource] at hnone ⊢
        refine iff_of_false (fun h => ?_) hnone
        exact hrefused (h.agree.mp (hcheck.mpr (.inl hsource)))
      · rw [if_neg hsource] at hnone ⊢
        have hagree : ¬ s.admitsNew w.id source now = .ok () := by
          rw [hcheck]
          exact not_or.mpr ⟨hsource, hnone⟩
        constructor
        · intro h
          have hsame := h.unchanged e (congrArg Prod.snd hregister)
          rw [hmarked] at hsame
          exact .inr (markDirty_eq_iff.mp hsame)
        · intro h
          refine ⟨iff_of_false hagree hrefused, fun _ _ => ?_⟩
          rw [hmarked]
          exact markDirty_eq_iff.mpr (h.resolve_left hnone)

end State

/-- **When the check agrees with the registration.**  In every state a run reaches,
for every key that is not registered: `admits_new` and `register` give the same
answer, and a refusal changes nothing, exactly when the source has room and so has
the registry, or the source is full and has a slot to reclaim, or the source is
full and the state was to be saved anyway. -/
theorem admission_check_iff (env : Env) (policy : Policy) (events : List Event)
    (w : RegisteredWorker) (source : String) (now : Nat)
    (hnew : ((machine env).run (World.init policy) events).state.workers[w.id]? = none) :
    ((machine env).run (World.init policy) events).state.AdmissionAgrees w source now ↔
      ((machine env).run (World.init policy) events).state.CheckHolds w.id source now :=
  State.admissionAgrees_iff (run_size env policy events) hnew source

/-- One identity registers, and the state is saved and reopened. -/
def savedRun : List Event :=
  [⟨.register (probeWorker 1) "s", 5⟩, ⟨.restart onePerSource, 6⟩]

theorem savedRun_agrees_elsewhere :
    ((machine plainEnv).run (World.init onePerSource) savedRun).state.AdmissionAgrees
      (probeWorker 2) "t" 7 :=
  (admission_check_iff plainEnv onePerSource savedRun (probeWorker 2) "t" 7
    (by decide)).mpr (by decide)

/-- A second identity from the same source is refused, and leaves a state that
needs saving. -/
theorem savedRun_not_agrees :
    (machine plainEnv).Along Admissible (World.init onePerSource) savedRun ∧
      ((machine plainEnv).run (World.init onePerSource) savedRun).state.workers[
        (probeWorker 2).id]? = none ∧
      ¬ ((machine plainEnv).run (World.init onePerSource) savedRun).state.AdmissionAgrees
        (probeWorker 2) "s" 7 := by
  refine ⟨by decide, by decide, fun h => ?_⟩
  have hclean : ((machine plainEnv).run (World.init onePerSource) savedRun).state.dirty =
      false := by decide
  have hdirty : (((machine plainEnv).run (World.init onePerSource) savedRun).state.register
      (probeWorker 2) "s" 7).1.dirty = true := by decide
  have hrefused : (((machine plainEnv).run (World.init onePerSource) savedRun).state.register
      (probeWorker 2) "s" 7).2 = .error .sourceFull := by decide
  rw [h.unchanged _ hrefused, hclean] at hdirty
  cases hdirty

end Coordinator
end ComputePool
