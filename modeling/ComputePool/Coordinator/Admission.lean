import ComputePool.Coordinator.State
import ComputePool.Rust.Collections

/-!
# Per-signer admission

`admission.rs`: single use, a rate limit and a quota for each signer of
timestamp-bound requests.  Used timestamps are indexed oldest first, and those
that have left the freshness window are forgotten at the start of every
admission.  Times are unix nanoseconds.
-/

namespace ComputePool
namespace Coordinator

open RustStd

/-- `LEASE_FRESHNESS_NANOS`: a request is usable only inside this window. -/
def LEASE_FRESHNESS_NANOS : Nat := 120 * 1000000000
/-- How long a used timestamp is remembered. -/
def WINDOW_PAST_NANOS : Nat := LEASE_FRESHNESS_NANOS
/-- How far ahead of the coordinator clock a request may be dated. -/
def MAX_FUTURE_SKEW_NANOS : Nat := 30 * 1000000000
def PER_KEY_BURST : Nat := 10
def PER_KEY_REFILL_NANOS : Nat := 2 * 1000000000
def PER_KEY_QUOTA : Nat := 160

/-- Why a request was refused. -/
inductive Refused where
  | replay
  | tooFast (retryAfterSecs : Nat)
  | overQuota (retryAfterSecs : Nat)
  deriving DecidableEq

structure KeyState where
  seen : BTreeSet Nat
  tokens : Nat
  lastRefill : Nat

structure Admission where
  /-- A `HashMap`, which is only looked up by key. -/
  perKey : BTreeMap H160 KeyState
  /-- (timestamp, signer) of every remembered request, oldest first. -/
  index : BTreeSet (Nat ×ₗ H160)

/-- `Admission::default()`. -/
def Admission.empty : Admission := ⟨∅, ∅⟩

def ceilSecs (nanos : Nat) : Nat := max ((nanos + 999999999) / 1000000000) 1

namespace Admission

/-- Forget one timestamp, and its key when nothing is left to remember. -/
def forget (a : Admission) (ts : Nat) (who : H160) : Admission :=
  { perKey :=
      match a.perKey[who]? with
      | none => a.perKey
      | some k =>
          let seen := k.seen.erase ts
          if seen.isEmpty then a.perKey.erase who
          else a.perKey.insert who { k with seen := seen }
    index := a.index.erase (toLex (ts, who)) }

/-- Forget timestamps that have left the window, oldest first, stopping at the
first one still inside it. -/
def prune (a : Admission) (nowNanos : Nat) : Admission :=
  let cutoff := nowNanos - WINDOW_PAST_NANOS
  (a.index.toList.takeWhile fun e => decide ((ofLex e).1 < cutoff)).foldl
    (fun a e => a.forget (ofLex e).1 (ofLex e).2) a

end Admission

/-- The tokens a key has earned up to `nowNanos`. -/
def KeyState.refill (key : KeyState) (nowNanos : Nat) : KeyState :=
  let earned := (nowNanos - key.lastRefill) / PER_KEY_REFILL_NANOS
  if earned > 0 then
    { key with
      tokens := min (satAdd key.tokens earned) PER_KEY_BURST
      lastRefill := satAdd key.lastRefill (satMul earned PER_KEY_REFILL_NANOS) }
  else key

namespace Admission

/-- Admit `(who, timestamp)` at `nowNanos`, recording it if admitted. -/
def admitRequest (a : Admission) (who : H160) (timestamp nowNanos : Nat) :
    Admission × Except Refused Unit :=
  let a := a.prune nowNanos
  let key := (a.perKey[who]?).getD ⟨∅, PER_KEY_BURST, nowNanos⟩
  if timestamp ∈ key.seen then ({ a with perKey := a.perKey.insert who key }, .error .replay)
  else
    let key := key.refill nowNanos
    if key.tokens = 0 then
      let next := satAdd key.lastRefill PER_KEY_REFILL_NANOS
      ({ a with perKey := a.perKey.insert who key },
        .error (.tooFast (ceilSecs (next - nowNanos))))
    else if key.seen.size ≥ PER_KEY_QUOTA then
      let oldest := (key.seen.toList.head?).getD nowNanos
      let freesAt := satAdd oldest WINDOW_PAST_NANOS
      ({ a with perKey := a.perKey.insert who key },
        .error (.overQuota (ceilSecs (freesAt - nowNanos))))
    else
      let key := { key with tokens := key.tokens - 1, seen := key.seen.insert timestamp }
      ({ perKey := a.perKey.insert who key
         index := a.index.insert (toLex (timestamp, who)) }, .ok ())

/-- The admission remembers that `who` used `ts`. -/
def Remembers (a : Admission) (who : H160) (ts : Nat) : Prop :=
  ∃ key, a.perKey[who]? = some key ∧ ts ∈ key.seen

variable {a : Admission} {who : H160} {ts : Nat}

/-- Forgetting one timestamp forgets no other. -/
theorem Remembers.forget (h : a.Remembers who ts) {ts' : Nat} {who' : H160} (hne : ts' ≠ ts) :
    (a.forget ts' who').Remembers who ts := by
  obtain ⟨key, hget, hseen⟩ := h
  unfold Remembers Admission.forget
  cases hget' : a.perKey[who']? with
  | none => exact ⟨key, hget, hseen⟩
  | some key' =>
      by_cases hwho : who' = who
      · subst hwho
        obtain rfl : key' = key := Option.some.inj (hget'.symm.trans hget)
        have hkept : ts ∈ key'.seen.erase ts' := by
          rw [Std.ExtTreeSet.mem_erase]
          exact ⟨by simpa using hne, hseen⟩
        have hnonempty : (key'.seen.erase ts').isEmpty = false := by
          rw [Std.ExtTreeSet.isEmpty_eq_false_iff]
          intro hempty
          rw [hempty] at hkept
          exact Std.ExtTreeSet.not_mem_empty hkept
        simp only [hnonempty, Bool.false_eq_true, if_false]
        exact ⟨{ key' with seen := key'.seen.erase ts' }, by simp, hkept⟩
      · dsimp only
        split
        · exact ⟨key, by rw [get_erase, if_neg hwho]; exact hget, hseen⟩
        · exact ⟨key, by rw [get_insert, if_neg hwho]; exact hget, hseen⟩

theorem Remembers.foldl_forget {old : List (Nat ×ₗ H160)} (h : a.Remembers who ts)
    (hold : ∀ e ∈ old, (ofLex e).1 ≠ ts) :
    (old.foldl (fun a e => a.forget (ofLex e).1 (ofLex e).2) a).Remembers who ts := by
  induction old generalizing a with
  | nil => exact h
  | cons e rest ih =>
      exact ih (h.forget (hold e List.mem_cons_self)) fun e' he' =>
        hold e' (List.mem_cons_of_mem _ he')

/-- Pruning keeps every timestamp that is still in the window. -/
theorem Remembers.prune (h : a.Remembers who ts) {nowNanos : Nat}
    (hwindow : nowNanos ≤ ts + WINDOW_PAST_NANOS) : (a.prune nowNanos).Remembers who ts := by
  refine h.foldl_forget fun e he => ?_
  have hlt := List.mem_takeWhile_imp he
  rw [decide_eq_true_eq] at hlt
  omega

/-- An admission keeps what is in the window, whatever it decides. -/
theorem Remembers.admitRequest (h : a.Remembers who ts) {who' : H160} {ts' nowNanos : Nat}
    (hwindow : nowNanos ≤ ts + WINDOW_PAST_NANOS) :
    (a.admitRequest who' ts' nowNanos).1.Remembers who ts := by
  obtain ⟨key, hget, hseen⟩ := h.prune hwindow
  -- Whatever is stored for `who'`, it contains what was seen of `who'` before.
  have hstore : ∀ (key' : KeyState) (index : BTreeSet (Nat ×ₗ H160)),
      (who' = who → ts ∈ key'.seen) →
      Remembers ⟨(a.prune nowNanos).perKey.insert who' key', index⟩ who ts := by
    intro key' index hkey'
    by_cases hwho : who' = who
    · exact ⟨key', by simp [hwho], hkey' hwho⟩
    · exact ⟨key, by rw [get_insert, if_neg hwho]; exact hget, hseen⟩
  have hsame : who' = who →
      ts ∈ (((a.prune nowNanos).perKey[who']?).getD ⟨∅, PER_KEY_BURST, nowNanos⟩).seen := by
    rintro rfl
    rw [hget]
    exact hseen
  have hrefill : ∀ k : KeyState, (k.refill nowNanos).seen = k.seen := by
    intro k
    unfold KeyState.refill
    dsimp only
    split <;> rfl
  unfold Admission.admitRequest
  dsimp only
  split
  · exact hstore _ _ hsame
  · split
    · exact hstore _ _ fun hwho => (hrefill _).symm ▸ hsame hwho
    · split
      · exact hstore _ _ fun hwho => (hrefill _).symm ▸ hsame hwho
      · refine hstore _ _ fun hwho => ?_
        rw [Std.ExtTreeSet.mem_insert]
        exact .inr ((hrefill _).symm ▸ hsame hwho)

/-- What is admitted is remembered. -/
theorem admitRequest_remembers {nowNanos : Nat} (h : (a.admitRequest who ts nowNanos).2 = .ok ()) :
    (a.admitRequest who ts nowNanos).1.Remembers who ts := by
  unfold admitRequest at h ⊢
  dsimp only at h ⊢
  split at h
  · cases h
  · rename_i hfresh
    rw [if_neg hfresh]
    split at h
    · cases h
    · rename_i htokens
      rw [if_neg htokens]
      split at h
      · cases h
      · rename_i hquota
        rw [if_neg hquota]
        exact ⟨_, by rw [get_insert, if_pos rfl], Std.ExtTreeSet.mem_insert_self⟩

/-- What is remembered, and still in the window, is not admitted. -/
theorem not_admit_of_remembers (h : a.Remembers who ts) {nowNanos : Nat}
    (hwindow : nowNanos ≤ ts + WINDOW_PAST_NANOS) :
    (a.admitRequest who ts nowNanos).2 = .error .replay := by
  obtain ⟨key, hget, hseen⟩ := h.prune hwindow
  simp [admitRequest, hget, hseen]

end Admission
end Coordinator
end ComputePool
