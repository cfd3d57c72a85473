import Mathlib

/-!
# A bounded memory of keys

A filter that lets a key pass when it does not remember it, and then remembers it
in place of the oldest one once it holds `cap` keys.  It remembers exactly the last
`cap` keys that passed.  So a key passes twice only with `cap` others between, and
no key passes twice exactly when every repeated key comes back within the last
`cap` distinct ones.
-/

namespace RecentKeys

/-- The last `cap` of a list. -/
def recent {κ : Type*} (cap : Nat) (keys : List κ) : List κ := keys.drop (keys.length - cap)

theorem mem_of_mem_recent {κ : Type*} {cap : Nat} {keys : List κ} {key : κ}
    (h : key ∈ recent cap keys) : key ∈ keys :=
  List.mem_of_mem_drop h

variable {κ : Type*} [DecidableEq κ]

/-- What the memory holds, oldest first, after it was shown one more key. -/
def remember (cap : Nat) (window : List κ) (key : κ) : List κ :=
  if key ∈ window then window else window.drop (window.length + 1 - cap) ++ [key]

/-- The memory after a stream of keys. -/
def feed (cap : Nat) (window keys : List κ) : List κ := keys.foldl (remember cap) window

/-- The keys of a stream that pass. -/
def fresh (cap : Nat) : List κ → List κ → List κ
  | _, [] => []
  | window, key :: rest =>
      if key ∈ window then fresh cap window rest
      else key :: fresh cap (remember cap window key) rest

/-- A key that comes back does so within the last `cap` distinct keys. -/
def Within (cap : Nat) (keys : List κ) : Prop :=
  ∀ front key back, keys = front ++ key :: back → key ∈ front → key ∈ recent cap front.eraseDups

variable {cap : Nat} {window keys : List κ} {key : κ}

@[simp] theorem feed_concat :
    feed cap window (keys ++ [key]) = remember cap (feed cap window keys) key := by
  simp [feed]

theorem fresh_append (window front back : List κ) :
    fresh cap window (front ++ back) =
      fresh cap window front ++ fresh cap (feed cap window front) back := by
  induction front generalizing window with
  | nil => rfl
  | cons key rest ih =>
      by_cases hmem : key ∈ window
      · simp [fresh, feed, remember, hmem, ih]
      · simp [fresh, feed, remember, hmem, ih]

@[simp] theorem fresh_concat :
    fresh cap window (keys ++ [key]) =
      fresh cap window keys ++ if key ∈ feed cap window keys then [] else [key] := by
  rw [fresh_append]
  by_cases hmem : key ∈ feed cap window keys <;> simp [fresh, hmem]

/-- The memory holds the last `cap` keys that passed. -/
theorem feed_eq_recent (hcap : 0 < cap) (keys : List κ) :
    feed cap [] keys = recent cap (fresh cap [] keys) := by
  induction keys using List.reverseRecOn with
  | nil => simp [feed, fresh, recent]
  | append_singleton keys key ih =>
      rw [feed_concat, fresh_concat, ih]
      by_cases hmem : key ∈ recent cap (fresh cap [] keys)
      · rw [remember, if_pos hmem, if_pos hmem, List.append_nil]
      · rw [remember, if_neg hmem, if_neg hmem, recent, recent, List.drop_drop,
          List.length_drop, List.length_append, List.length_singleton,
          List.drop_append_of_le_length (by omega)]
        congr 2
        omega

theorem mem_of_mem_fresh (h : key ∈ fresh cap window keys) : key ∈ keys := by
  induction keys generalizing window with
  | nil => exact h
  | cons first rest ih =>
      rw [fresh] at h
      split at h
      · exact List.mem_cons_of_mem _ (ih h)
      · rcases List.mem_cons.mp h with rfl | hrest
        · exact List.mem_cons_self
        · exact List.mem_cons_of_mem _ (ih hrest)

/-- Every key passes at least once. -/
theorem mem_fresh (hcap : 0 < cap) (h : key ∈ keys) : key ∈ fresh cap [] keys := by
  induction keys using List.reverseRecOn with
  | nil => cases h
  | append_singleton keys last ih =>
      rw [fresh_concat, feed_eq_recent hcap]
      rcases List.mem_append.mp h with hfront | hlast
      · exact List.mem_append_left _ (ih hfront)
      · rw [List.mem_singleton.mp hlast]
        by_cases hmem : last ∈ recent cap (fresh cap [] keys)
        · exact List.mem_append_left _ (mem_of_mem_recent hmem)
        · rw [if_neg hmem]
          exact List.mem_append_right _ List.mem_cons_self

theorem eraseDups_concat (keys : List κ) (key : κ) :
    (keys ++ [key]).eraseDups = keys.eraseDups ++ if key ∈ keys then [] else [key] := by
  rw [List.eraseDups_append]
  by_cases hmem : key ∈ keys
  · simp [List.removeAll, hmem]
  · simp [List.removeAll, hmem, List.eraseDups_cons]

theorem eraseDups_of_nodup (h : keys.Nodup) : keys.eraseDups = keys := by
  induction keys using List.reverseRecOn with
  | nil => rfl
  | append_singleton keys key ih =>
      have hout : key ∉ keys := by
        intro hin
        exact (List.nodup_append.mp h).2.2 key hin key (by simp) rfl
      rw [eraseDups_concat, if_neg hout, ih h.of_append_left]

/-- As long as no key passed twice, the keys that passed are the distinct ones in
the order in which they first came. -/
theorem fresh_eq_eraseDups (hcap : 0 < cap) (hnodup : (fresh cap [] keys).Nodup) :
    fresh cap [] keys = keys.eraseDups := by
  induction keys using List.reverseRecOn with
  | nil => rfl
  | append_singleton keys key ih =>
      rw [fresh_concat] at hnodup ⊢
      have hfront := ih hnodup.of_append_left
      rw [eraseDups_concat, hfront]
      congr 1
      by_cases hmem : key ∈ feed cap [] keys
      · rw [feed_eq_recent hcap] at hmem
        have hin : key ∈ keys := mem_of_mem_fresh (mem_of_mem_recent hmem)
        rw [feed_eq_recent hcap, if_pos hmem, if_pos hin]
      · rw [if_neg hmem] at hnodup ⊢
        have hout : key ∉ keys := by
          intro hin
          exact (List.nodup_append.mp hnodup).2.2 key (mem_fresh hcap hin) key (by simp) rfl
        rw [if_neg hout]

theorem within_concat :
    Within cap (keys ++ [key]) ↔
      Within cap keys ∧ (key ∈ keys → key ∈ recent cap keys.eraseDups) := by
  constructor
  · intro h
    refine ⟨fun front k back hsplit hmem => ?_, fun hmem => h keys key [] rfl hmem⟩
    exact h front k (back ++ [key]) (by simp [hsplit]) hmem
  · rintro ⟨hfront, hlast⟩ front k back hsplit hmem
    rcases List.eq_nil_or_concat back with rfl | ⟨back', last, rfl⟩
    · obtain ⟨rfl, hsame⟩ := List.append_inj' hsplit rfl
      cases hsame
      exact hlast hmem
    · rw [List.concat_eq_append, ← List.cons_append, ← List.append_assoc] at hsplit
      exact hfront front k back' (List.append_inj' hsplit rfl).1 hmem

/-- No key passes twice exactly when every key that comes back is still
remembered. -/
theorem fresh_nodup_iff (hcap : 0 < cap) (keys : List κ) :
    (fresh cap [] keys).Nodup ↔ Within cap keys := by
  induction keys using List.reverseRecOn with
  | nil => simp [fresh, Within]
  | append_singleton keys key ih =>
      rw [within_concat, ← ih, fresh_concat, feed_eq_recent hcap]
      constructor
      · intro hnodup
        have hfront := hnodup.of_append_left
        refine ⟨hfront, fun hin => ?_⟩
        rw [← fresh_eq_eraseDups hcap hfront]
        by_contra hmem
        rw [if_neg hmem] at hnodup
        exact (List.nodup_append.mp hnodup).2.2 key (mem_fresh hcap hin) key (by simp) rfl
      · rintro ⟨hfront, hin⟩
        rw [← fresh_eq_eraseDups hcap hfront] at hin
        by_cases hmem : key ∈ recent cap (fresh cap [] keys)
        · rw [if_pos hmem, List.append_nil]
          exact hfront
        · rw [if_neg hmem]
          apply hfront.append (List.nodup_singleton key)
          rw [List.disjoint_singleton]
          exact fun hpassed => hmem (hin (mem_of_mem_fresh hpassed))

/-- More distinct keys than are remembered, shown twice: the oldest of them passes
twice. -/
theorem not_within_of_overflow {back : List κ} (hnodup : (key :: keys).Nodup)
    (hlong : cap ≤ keys.length) : ¬ Within cap ((key :: keys) ++ key :: back) := by
  intro h
  have hrecent := h (key :: keys) key back rfl List.mem_cons_self
  rw [eraseDups_of_nodup hnodup, recent, List.length_cons] at hrecent
  have hsteps : keys.length + 1 - cap = keys.length - cap + 1 := by omega
  rw [hsteps, List.drop_succ_cons] at hrecent
  exact (List.nodup_cons.mp hnodup).1 (List.mem_of_mem_drop hrecent)

theorem remember_nodup (h : window.Nodup) : (remember cap window key).Nodup := by
  by_cases hmem : key ∈ window
  · rwa [remember, if_pos hmem]
  · rw [remember, if_neg hmem]
    apply (h.sublist (List.drop_sublist _ _)).append (List.nodup_singleton key)
    rw [List.disjoint_singleton]
    exact fun hold => hmem (List.mem_of_mem_drop hold)

theorem feed_nodup (cap : Nat) (keys : List κ) : (feed cap [] keys).Nodup := by
  induction keys using List.reverseRecOn with
  | nil => exact List.nodup_nil
  | append_singleton keys key ih =>
      rw [feed_concat]
      exact remember_nodup ih

/-- Distinct keys all pass. -/
theorem fresh_of_nodup (hcap : 0 < cap) (h : keys.Nodup) : fresh cap [] keys = keys := by
  have hwithin : Within cap keys := by
    intro front k back hsplit hmem
    rw [hsplit] at h
    exact absurd rfl ((List.nodup_append.mp h).2.2 k hmem k List.mem_cons_self)
  rw [fresh_eq_eraseDups hcap ((fresh_nodup_iff hcap keys).mpr hwithin), eraseDups_of_nodup h]

/-- The oldest of more distinct keys than are remembered is forgotten. -/
theorem not_mem_feed_of_overflow (hcap : 0 < cap) (hnodup : (key :: keys).Nodup)
    (hlong : cap ≤ keys.length) : key ∉ feed cap [] (key :: keys) := by
  rw [feed_eq_recent hcap, fresh_of_nodup hcap hnodup, recent, List.length_cons]
  have hsteps : keys.length + 1 - cap = keys.length - cap + 1 := by omega
  rw [hsteps, List.drop_succ_cons]
  exact fun hmem => (List.nodup_cons.mp hnodup).1 (List.mem_of_mem_drop hmem)

/-- A key that passed and would pass again: by then the memory is full of keys that
were shown in between. -/
theorem feed_between (hcap : 0 < cap) {front mid : List κ} (hfirst : key ∉ feed cap [] front)
    (hagain : key ∉ feed cap [] (front ++ key :: mid)) :
    (feed cap [] (front ++ key :: mid)).length = cap ∧
      ∀ k ∈ feed cap [] (front ++ key :: mid), k ∈ mid := by
  have hsplit : fresh cap [] (front ++ key :: mid) = fresh cap [] front ++
      key :: fresh cap (remember cap (feed cap [] front) key) mid := by
    rw [fresh_append, fresh, if_neg hfirst]
  rw [feed_eq_recent hcap, hsplit] at hagain ⊢
  have hpassed : ∀ k ∈ fresh cap (remember cap (feed cap [] front) key) mid, k ∈ mid :=
    fun k hk => mem_of_mem_fresh hk
  generalize fresh cap [] front = old at hagain ⊢
  generalize fresh cap (remember cap (feed cap [] front) key) mid = between at hagain hpassed ⊢
  have hlong : cap ≤ between.length := by
    by_contra hshort
    apply hagain
    have hbound : (old ++ key :: between).length - cap ≤ old.length := by
      rw [List.length_append, List.length_cons]
      omega
    rw [recent, List.drop_append_of_le_length hbound]
    exact List.mem_append_right _ List.mem_cons_self
  have hrecent : recent cap (old ++ key :: between) = between.drop (between.length - cap) := by
    have hsteps : (old ++ key :: between).length - cap =
        (old ++ [key]).length + (between.length - cap) := by
      simp only [List.length_append, List.length_cons, List.length_nil]
      omega
    rw [recent, hsteps, List.append_cons old key between, List.drop_length_add_append]
  rw [hrecent]
  constructor
  · rw [List.length_drop]
    omega
  · intro k hk
    exact hpassed k (List.mem_of_mem_drop hk)

end RecentKeys
