import ComputePool.Coordinator.Admission
import ComputePool.Lib.Views

/-!
# What a key sees of the admission

The admission keeps one index for all keys and prunes it on every call, so a call
of one key can drop the record of another.  What it drops is what the other key's
next call would drop first; so a key gets the same answers whatever other keys do.
-/

namespace ComputePool
namespace Coordinator

open RustStd

/-- A call of `Admission::admit`. -/
structure Call where
  who : H160
  timestamp : UInt64
  now : UInt64

def admission : Machine Admission Call where
  step a call := (a.admitRequest call.who call.timestamp.toNat call.now.toNat).1

/-- What a call is answered. -/
def answerOf (a : Admission) (call : Call) : Except Refused Unit :=
  (a.admitRequest call.who call.timestamp.toNat call.now.toNat).2

/-- The clock does not go back. -/
def Call.Before (first later : Call) : Prop := first.now.toNat ≤ later.now.toNat

instance (first later : Call) : Decidable (first.Before later) :=
  inferInstanceAs (Decidable (_ ≤ _))

/-! ## One record -/

/-- A record without the timestamps that satisfy `old`; none if nothing is left to
remember. -/
def dropWhere (old : Nat → Bool) (record : Option KeyState) : Option KeyState :=
  record.bind fun key =>
    let seen := key.seen.filter fun ts => !old ts
    if seen.isEmpty then none else some { key with seen := seen }

/-- A record as pruning at `now` leaves it. -/
def pruneKey (now : Nat) (record : Option KeyState) : Option KeyState :=
  dropWhere (fun ts => decide (ts < now - WINDOW_PAST_NANOS)) record

/-- What `admit` makes of a key's own record. -/
def admitKey (record : Option KeyState) (timestamp now : Nat) : KeyState × Except Refused Unit :=
  let key := (pruneKey now record).getD ⟨∅, PER_KEY_BURST, now⟩
  if timestamp ∈ key.seen then (key, .error .replay)
  else
    let key := key.refill now
    if key.tokens = 0 then
      let next := satAdd key.lastRefill PER_KEY_REFILL_NANOS
      (key, .error (.tooFast (ceilSecs (next - now))))
    else if key.seen.size ≥ PER_KEY_QUOTA then
      let oldest := (key.seen.toList.head?).getD now
      let freesAt := satAdd oldest WINDOW_PAST_NANOS
      (key, .error (.overQuota (ceilSecs (freesAt - now))))
    else
      ({ key with tokens := key.tokens - 1, seen := key.seen.insert timestamp }, .ok ())

variable {p q : Nat → Bool} {record : Option KeyState}

theorem dropWhere_some {key : KeyState} :
    dropWhere p (some key) = if (key.seen.filter fun ts => !p ts).isEmpty then none
      else some { key with seen := key.seen.filter fun ts => !p ts } := rfl

/-- Which of the timestamps that are not remembered would be dropped does not
matter. -/
theorem dropWhere_congr (h : ∀ key, record = some key → ∀ ts ∈ key.seen, p ts = q ts) :
    dropWhere p record = dropWhere q record := by
  cases record with
  | none => rfl
  | some key =>
      have hsame : (key.seen.filter fun ts => !p ts) = key.seen.filter fun ts => !q ts := by
        apply Std.ExtTreeSet.ext_mem
        intro ts
        rw [mem_set_filter, mem_set_filter]
        apply and_congr_right
        intro hts
        rw [h key rfl ts hts]
      rw [dropWhere_some, dropWhere_some, hsame]

theorem dropWhere_dropWhere (p q : Nat → Bool) (record : Option KeyState) :
    dropWhere p (dropWhere q record) = dropWhere (fun ts => p ts || q ts) record := by
  cases record with
  | none => rfl
  | some key =>
      have htwice : ((key.seen.filter fun ts => !q ts).filter fun ts => !p ts) =
          key.seen.filter fun ts => !(p ts || q ts) := by
        apply Std.ExtTreeSet.ext_mem
        intro ts
        simp only [mem_set_filter, Bool.not_or, Bool.and_eq_true]
        tauto
      rw [dropWhere_some]
      by_cases hempty : (key.seen.filter fun ts => !q ts).isEmpty
      · have hnone : (key.seen.filter fun ts => !(p ts || q ts)).isEmpty := by
          rw [Std.ExtTreeSet.isEmpty_iff] at hempty ⊢
          rw [← htwice, hempty]
          rfl
        rw [if_pos hempty, dropWhere_some, if_pos hnone]
        rfl
      · rw [if_neg hempty, dropWhere_some, dropWhere_some]
        dsimp only
        rw [htwice]

/-- A record that remembers something is not dropped for nothing. -/
theorem dropWhere_false (h : ∀ key, record = some key → ∃ ts, ts ∈ key.seen) :
    dropWhere (fun _ => false) record = record := by
  cases record with
  | none => rfl
  | some key =>
      have hall : (key.seen.filter fun _ => !false) = key.seen := by
        apply Std.ExtTreeSet.ext_mem
        intro ts
        simp
      have hfull : key.seen.isEmpty = false := set_nonempty_iff.mpr (h key rfl)
      rw [dropWhere_some, hall, hfull]
      rfl

/-- Pruning early changes nothing for later. -/
theorem pruneKey_pruneKey {now now' : Nat} (h : now ≤ now') (record : Option KeyState) :
    pruneKey now' (pruneKey now record) = pruneKey now' record := by
  rw [pruneKey, pruneKey, dropWhere_dropWhere]
  apply dropWhere_congr
  intro key _ ts _
  rw [Bool.eq_iff_iff, Bool.or_eq_true, decide_eq_true_eq, decide_eq_true_eq]
  omega

theorem mem_pruneKey {now : Nat} {key : KeyState} (h : pruneKey now record = some key) :
    ∃ old, record = some old ∧ key.tokens = old.tokens ∧ key.lastRefill = old.lastRefill ∧
      (∃ ts, ts ∈ key.seen) ∧ ∀ ts, ts ∈ key.seen ↔ ts ∈ old.seen ∧ now - WINDOW_PAST_NANOS ≤ ts := by
  cases record with
  | none => cases h
  | some old =>
      rw [pruneKey, dropWhere_some] at h
      split at h
      · cases h
      · rename_i hfull
        cases h
        refine ⟨old, rfl, rfl, rfl, set_nonempty_iff.mp (by simpa using hfull), fun ts => ?_⟩
        dsimp only
        rw [mem_set_filter]
        simp

/-- What is admitted, or refused, leaves something remembered. -/
theorem admitKey_nonempty (record : Option KeyState) (timestamp now : Nat) :
    ∃ ts, ts ∈ (admitKey record timestamp now).1.seen := by
  have hrefill : ∀ k : KeyState, (k.refill now).seen = k.seen := by
    intro k
    unfold KeyState.refill
    dsimp only
    split <;> rfl
  cases hpruned : pruneKey now record with
  | none =>
      -- a new record has its whole burst, so the call is admitted
      have hfresh : KeyState.refill ⟨∅, PER_KEY_BURST, now⟩ now = ⟨∅, PER_KEY_BURST, now⟩ := by
        simp [KeyState.refill]
      have hburst : ¬ PER_KEY_BURST = 0 := by decide
      refine ⟨timestamp, ?_⟩
      simp [admitKey, hpruned, hfresh, hburst, PER_KEY_QUOTA]
  | some key =>
      have ⟨ts, hts⟩ : ∃ ts, ts ∈ key.seen := by
        have ⟨_, _, _, _, hsome, _⟩ := mem_pruneKey hpruned
        exact hsome
      refine ⟨ts, ?_⟩
      unfold admitKey
      rw [hpruned, Option.getD_some]
      dsimp only
      split
      · exact hts
      · split
        · rwa [hrefill]
        · split
          · rwa [hrefill]
          · rw [Std.ExtTreeSet.mem_insert, hrefill]
            exact .inr hts

/-! ## All records -/

namespace Admission

/-- Every record remembers something, and the index holds what the records do. -/
structure Consistent (a : Admission) : Prop where
  nonempty : ∀ (who : H160) key, a.perKey[who]? = some key → ∃ ts, ts ∈ key.seen
  indexed : ∀ ts who, toLex (ts, who) ∈ a.index ↔ a.Remembers who ts

variable {a : Admission}

theorem empty_consistent : Admission.empty.Consistent where
  nonempty who key h := by
    simp [Admission.empty] at h
  indexed ts who := by
    constructor
    · intro h
      exact absurd h Std.ExtTreeSet.not_mem_empty
    · rintro ⟨key, hget, -⟩
      simp [Admission.empty] at hget

theorem forget_view (ts : Nat) (who k : H160) :
    (a.forget ts who).perKey[k]? =
      if who = k then dropWhere (fun t => t == ts) (a.perKey[k]?) else a.perKey[k]? := by
  cases hget : a.perKey[who]? with
  | none =>
      have hsame : (a.forget ts who).perKey = a.perKey := by simp [forget, hget]
      rw [hsame]
      split
      · rename_i hwho
        rw [← hwho, hget]
        rfl
      · rfl
  | some key =>
      have herase : key.seen.erase ts = key.seen.filter fun t => !(t == ts) := by
        apply Std.ExtTreeSet.ext_mem
        intro t
        rw [Std.ExtTreeSet.mem_erase, mem_set_filter, ne_eq, compare_eq_iff_eq, and_comm,
          Bool.not_eq_true', beq_eq_false_iff_ne, ne_eq, eq_comm]
      have hperKey : (a.forget ts who).perKey =
          if (key.seen.erase ts).isEmpty then a.perKey.erase who
          else a.perKey.insert who { key with seen := key.seen.erase ts } := by
        simp [forget, hget]
      rw [hperKey]
      by_cases hwho : who = k
      · subst hwho
        rw [if_pos rfl, hget, dropWhere_some, ← herase]
        split
        · rw [get_erase, if_pos rfl]
        · rw [get_insert, if_pos rfl]
      · rw [if_neg hwho]
        split
        · rw [get_erase, if_neg hwho]
        · rw [get_insert, if_neg hwho]

/-- Each record loses the timestamps that are forgotten of its key. -/
theorem foldl_forget_view (old : List (Nat ×ₗ H160))
    (hfull : ∀ (who : H160) key, a.perKey[who]? = some key → ∃ ts, ts ∈ key.seen) (k : H160) :
    (old.foldl (fun a e => a.forget (ofLex e).1 (ofLex e).2) a).perKey[k]? =
      dropWhere (fun ts => decide (toLex (ts, k) ∈ old)) (a.perKey[k]?) := by
  induction old generalizing a with
  | nil =>
      rw [List.foldl_nil]
      have hnone : dropWhere (fun ts => decide (toLex (ts, k) ∈ ([] : List (Nat ×ₗ H160))))
          (a.perKey[k]?) = dropWhere (fun _ => false) (a.perKey[k]?) :=
        dropWhere_congr fun _ _ _ _ => decide_eq_false List.not_mem_nil
      rw [hnone, dropWhere_false (hfull k)]
  | cons e rest ih =>
      have hfull' : ∀ (who : H160) key,
          (a.forget (ofLex e).1 (ofLex e).2).perKey[who]? = some key → ∃ ts, ts ∈ key.seen := by
        intro who key hget
        rw [forget_view] at hget
        split at hget
        · cases hrec : a.perKey[who]? with
          | none =>
              rw [hrec] at hget
              cases hget
          | some key' =>
              rw [hrec, dropWhere_some] at hget
              split at hget
              · cases hget
              · rename_i hsome
                cases hget
                exact set_nonempty_iff.mp (by simpa using hsome)
        · exact hfull who key hget
      rw [List.foldl_cons, ih hfull', forget_view]
      by_cases hwho : (ofLex e).2 = k
      · rw [if_pos hwho, dropWhere_dropWhere]
        apply dropWhere_congr
        intro key _ ts _
        have hsame : (ts == (ofLex e).1) = decide (toLex (ts, k) = e) := by
          rw [Bool.eq_iff_iff, beq_iff_eq, decide_eq_true_eq]
          constructor
          · rintro rfl
            rw [← hwho]
            rfl
          · rintro rfl
            rfl
        rw [hsame, ← Bool.decide_or]
        simp only [List.mem_cons, or_comm]
      · rw [if_neg hwho]
        apply dropWhere_congr
        intro key _ ts _
        have hne : toLex (ts, k) ≠ e := by
          rintro rfl
          exact hwho rfl
        simp [hne]

theorem foldl_forget_index (old : List (Nat ×ₗ H160)) (x : Nat ×ₗ H160) :
    x ∈ (old.foldl (fun a e => a.forget (ofLex e).1 (ofLex e).2) a).index ↔
      x ∈ a.index ∧ x ∉ old := by
  induction old generalizing a with
  | nil => simp
  | cons e rest ih =>
      rw [List.foldl_cons, ih]
      have herase : x ∈ (a.forget (ofLex e).1 (ofLex e).2).index ↔ e ≠ x ∧ x ∈ a.index := by
        show x ∈ a.index.erase e ↔ _
        rw [Std.ExtTreeSet.mem_erase, ne_eq, compare_eq_iff_eq]
      rw [herase, List.mem_cons]
      constructor
      · rintro ⟨⟨hne, hmem⟩, hrest⟩
        exact ⟨hmem, fun h => h.elim (fun h => hne h.symm) hrest⟩
      · rintro ⟨hmem, hout⟩
        exact ⟨⟨fun h => hout (.inl h.symm), hmem⟩, fun h => hout (.inr h)⟩

/-- The entries a prune at `now` forgets: the index is in the order of the
timestamps, so they are all those behind the window. -/
theorem mem_expired {now : Nat} {e : Nat ×ₗ H160} :
    e ∈ a.index.toList.takeWhile (fun e => decide ((ofLex e).1 < now - WINDOW_PAST_NANOS)) ↔
      e ∈ a.index ∧ (ofLex e).1 < now - WINDOW_PAST_NANOS := by
  rw [← mem_elements]
  have hsorted := elements_ascending a.index
  generalize a.index.toList = entries at hsorted
  induction entries with
  | nil => simp
  | cons first rest ih =>
      rw [List.pairwise_cons] at hsorted
      have hrest := ih hsorted.2
      by_cases hold : (ofLex first).1 < now - WINDOW_PAST_NANOS
      · rw [List.takeWhile_cons_of_pos (by simpa using hold), List.mem_cons, List.mem_cons]
        constructor
        · rintro (rfl | hlater)
          · exact ⟨.inl rfl, hold⟩
          · exact ⟨.inr (hrest.mp hlater).1, (hrest.mp hlater).2⟩
        · rintro ⟨rfl | hmem, hlt⟩
          · exact .inl rfl
          · exact .inr (hrest.mpr ⟨hmem, hlt⟩)
      · rw [List.takeWhile_cons_of_neg (by simpa using hold)]
        constructor
        · intro h
          cases h
        · rintro ⟨hmem, hlt⟩
          rcases List.mem_cons.mp hmem with rfl | hlater
          · exact absurd hlt hold
          · have hle : (ofLex first).1 ≤ (ofLex e).1 :=
              (Prod.Lex.lt_iff'.mp (hsorted.1 e hlater)).1
            omega

/-- Pruning reaches a key's record as if the key had pruned alone. -/
theorem prune_view (h : a.Consistent) (now : Nat) (k : H160) :
    (a.prune now).perKey[k]? = pruneKey now (a.perKey[k]?) := by
  unfold prune
  dsimp only
  rw [foldl_forget_view _ h.nonempty]
  apply dropWhere_congr
  intro key hget ts hts
  rw [Bool.eq_iff_iff, decide_eq_true_eq, decide_eq_true_eq, mem_expired, h.indexed]
  exact ⟨fun hold => hold.2, fun hold => ⟨⟨key, hget, hts⟩, hold⟩⟩

theorem Consistent.prune (h : a.Consistent) (now : Nat) : (a.prune now).Consistent where
  nonempty who key hget := by
    rw [prune_view h] at hget
    have ⟨_, _, _, _, hsome, _⟩ := mem_pruneKey hget
    exact hsome
  indexed ts who := by
    have hindex : toLex (ts, who) ∈ (a.prune now).index ↔
        a.Remembers who ts ∧ now - WINDOW_PAST_NANOS ≤ ts := by
      unfold Admission.prune
      dsimp only
      rw [foldl_forget_index, mem_expired, h.indexed]
      simp only [ofLex_toLex, not_and, not_lt]
      exact ⟨fun ⟨hmem, hnew⟩ => ⟨hmem, hnew hmem⟩, fun ⟨hmem, hnew⟩ => ⟨hmem, fun _ => hnew⟩⟩
    rw [hindex, Remembers, Remembers, prune_view h]
    constructor
    · rintro ⟨⟨key, hget, hts⟩, hnew⟩
      have hkept : ts ∈ key.seen.filter fun t => !decide (t < now - WINDOW_PAST_NANOS) := by
        rw [mem_set_filter]
        exact ⟨hts, by simpa using hnew⟩
      refine ⟨{ key with seen := key.seen.filter fun t => !decide (t < now - WINDOW_PAST_NANOS) },
        ?_, hkept⟩
      rw [hget, pruneKey, dropWhere_some, set_nonempty_iff.mpr ⟨ts, hkept⟩]
      rfl
    · rintro ⟨key, hget, hts⟩
      have ⟨old, hold, _, _, _, hmem⟩ := mem_pruneKey hget
      exact ⟨⟨old, hold, ((hmem ts).mp hts).1⟩, ((hmem ts).mp hts).2⟩

/-- An admission is what `admitKey` makes of the key's own record. -/
theorem admitRequest_eq (h : a.Consistent) (who : H160) (ts now : Nat) :
    let own := admitKey (a.perKey[who]?) ts now
    a.admitRequest who ts now =
      ({ perKey := (a.prune now).perKey.insert who own.1
         index := if own.2 = .ok () then (a.prune now).index.insert (toLex (ts, who))
           else (a.prune now).index }, own.2) := by
  unfold admitRequest admitKey
  dsimp only
  rw [prune_view h]
  split
  · rfl
  · split
    · rfl
    · split
      · rfl
      · rfl

/-- What `admitKey` remembers: what pruning left, and the timestamp if it was
admitted. -/
theorem mem_admitKey (record : Option KeyState) (ts now t : Nat) :
    t ∈ (admitKey record ts now).1.seen ↔
      (∃ key, pruneKey now record = some key ∧ t ∈ key.seen) ∨
        (t = ts ∧ (admitKey record ts now).2 = .ok ()) := by
  have hrefill : ∀ k : KeyState, (k.refill now).seen = k.seen := by
    intro k
    unfold KeyState.refill
    dsimp only
    split <;> rfl
  have hpruned : t ∈ ((pruneKey now record).getD ⟨∅, PER_KEY_BURST, now⟩).seen ↔
      ∃ key, pruneKey now record = some key ∧ t ∈ key.seen := by
    cases pruneKey now record with
    | none =>
        constructor
        · intro h
          exact absurd h Std.ExtTreeSet.not_mem_empty
        · rintro ⟨key, hkey, -⟩
          cases hkey
    | some key => simp
  rw [← hpruned]
  unfold admitKey
  dsimp only
  split
  · simp
  · split
    · simp [hrefill]
    · split
      · simp [hrefill]
      · dsimp only
        rw [Std.ExtTreeSet.mem_insert, hrefill, compare_eq_iff_eq, or_comm, eq_comm]
        simp

theorem Consistent.admitRequest (h : a.Consistent) (who : H160) (ts now : Nat) :
    (a.admitRequest who ts now).1.Consistent := by
  have hpruned := h.prune now
  rw [admitRequest_eq h]
  constructor
  · intro who' key hget
    dsimp only at hget
    rw [get_insert] at hget
    split at hget
    · cases hget
      exact admitKey_nonempty _ _ _
    · exact hpruned.nonempty who' key hget
  · intro t who'
    have hindex : toLex (t, who') ∈ (if (admitKey (a.perKey[who]?) ts now).2 = .ok () then
          (a.prune now).index.insert (toLex (ts, who)) else (a.prune now).index) ↔
        (a.prune now).Remembers who' t ∨
          (who' = who ∧ t = ts ∧ (admitKey (a.perKey[who]?) ts now).2 = .ok ()) := by
      rw [← hpruned.indexed]
      split
      · rename_i hok
        rw [Std.ExtTreeSet.mem_insert, compare_eq_iff_eq, toLex_inj, Prod.mk.injEq, or_comm,
          eq_comm, eq_comm (a := who)]
        simp [hok, and_comm]
      · rename_i hno
        simp [hno]
    dsimp only
    rw [hindex, Remembers, Remembers]
    dsimp only
    rw [get_insert]
    by_cases hwho : who = who'
    · subst hwho
      simp only [if_true, Option.some.injEq, exists_eq_left', true_and, mem_admitKey,
        prune_view h]
    · rw [if_neg hwho]
      simp [Ne.symm hwho]

end Admission

/-! ## The views -/

/-- Each key's view of the admission is its own record. -/
def keyViews : Machine.Views Call H160 (Option KeyState) (Except Refused Unit) where
  owner := Call.who
  act call record := some (admitKey record call.timestamp.toNat call.now.toNat).1
  reply call record := (admitKey record call.timestamp.toNat call.now.toNat).2
  pass call record := pruneKey call.now.toNat record

theorem admitKey_pruneKey {now now' : Nat} (h : now ≤ now') (record : Option KeyState) (ts : Nat) :
    admitKey (pruneKey now record) ts now' = admitKey record ts now' := by
  unfold admitKey
  rw [pruneKey_pruneKey h]

theorem admission_separates :
    Machine.Separates admission answerOf keyViews (fun a (k : H160) => a.perKey[k]?)
      Admission.Consistent Call.Before where
  inv a call h := h.admitRequest _ _ _
  own a call h := by
    show (a.admitRequest _ _ _).1.perKey[call.who]? = _
    rw [Admission.admitRequest_eq h]
    dsimp only
    rw [get_insert, if_pos rfl]
    rfl
  reply a call h := by
    rw [answerOf, Admission.admitRequest_eq h]
    rfl
  other a call k h hne := by
    show (a.admitRequest _ _ _).1.perKey[k]? = _
    rw [Admission.admitRequest_eq h]
    dsimp only
    rw [get_insert, if_neg (show call.who ≠ k from hne), Admission.prune_view h]
    rfl
  act_pass call later record h := by
    show some (admitKey (pruneKey _ record) _ _).1 = _
    rw [admitKey_pruneKey h]
    rfl
  reply_pass call later record h := by
    show (admitKey (pruneKey _ record) _ _).2 = _
    rw [admitKey_pruneKey h]
    rfl

/-- The answers of a run of calls, from an admission that remembers nothing. -/
def answersOf (calls : List Call) : List (Call × Except Refused Unit) :=
  admission.answers answerOf Admission.empty calls

/-- The calls of other keys make no difference to the answers a key gets. -/
theorem admission_noninterference (k : H160) {calls : List Call}
    (hclock : calls.Pairwise Call.Before) :
    (answersOf calls).filter (fun a => a.1.who = k) =
      answersOf (calls.filter fun call => call.who = k) :=
  admission_separates.answers_eq k Admission.empty_consistent hclock

/-- A copy is refused to its key, whatever another key does in between. -/
theorem admission_noninterference_copy :
    let first : Call := ⟨FixedBytes.ofNat 1, 100000000000, 100000000000⟩
    let other : Call := ⟨FixedBytes.ofNat 2, 300000000000, 300000000000⟩
    let copy : Call := ⟨FixedBytes.ofNat 1, 100000000000, 300000000001⟩
    (answersOf [first, other, copy]).filter (fun a => a.1.who = FixedBytes.ofNat 1) =
      answersOf ([first, other, copy].filter fun call => call.who = FixedBytes.ofNat 1) :=
  admission_noninterference (FixedBytes.ofNat 1) (by decide)

end Coordinator
end ComputePool
