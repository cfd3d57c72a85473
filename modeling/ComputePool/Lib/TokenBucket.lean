import Mathlib

/-!
# Token buckets

A bucket holds tokens and the time it was last refilled to; it earns one token for
each full refill interval.  Its budget up to some time is what it holds and what it
will have earned by then.  Refilling does not enlarge the budget, and a bucket that
was just refilled has at most one token beyond its size and the time that is left.

What a bucket has let through is stamped, at most a fixed skew ahead of the time it was
let through.  The stamps from some point on are covered by the size of the bucket and
what it has earned since.
-/

namespace TokenBucket

/-- What a bucket can still spend up to `t`. -/
def budget (interval t tokens last : Nat) : Nat := tokens + (t - last) / interval

variable {interval t tokens tokens' last now burst : Nat}

/-- Moving the time of the last refill forward by what was earned. -/
theorem budget_refill (hpast : last ≤ now) (hend : now ≤ t)
    (htokens : tokens' ≤ tokens + (now - last) / interval) :
    budget interval t tokens' (last + (now - last) / interval * interval) ≤
      budget interval t tokens last := by
  have hearned : (now - last) / interval ≤ (t - last) / interval :=
    Nat.div_le_div_right (by omega)
  have hrest : (t - (last + (now - last) / interval * interval)) / interval =
      (t - last) / interval - (now - last) / interval := by
    rw [← Nat.sub_sub, Nat.mul_comm, Nat.sub_mul_div]
  unfold budget
  rw [hrest]
  omega

theorem budget_refilled_le (hpos : 0 < interval) (hpast : last ≤ now) (hend : now ≤ t)
    (htokens : tokens ≤ burst) :
    budget interval t tokens (last + (now - last) / interval * interval) ≤
      burst + (t - now) / interval + 1 := by
  have hremainder := Nat.mod_lt (now - last) hpos
  have hsplit := Nat.div_add_mod' (now - last) interval
  have hleft : t - (last + (now - last) / interval * interval) ≤ (t - now) + interval := by
    omega
  have hdiv := Nat.div_le_div_right (c := interval) hleft
  rw [Nat.add_div_right _ hpos] at hdiv
  unfold budget
  omega

/-- A bucket that would be full by now is worth a new one. -/
theorem budget_renew (hpast : last ≤ now) (hend : now ≤ t)
    (hfull : burst ≤ tokens + (now - last) / interval) :
    budget interval t burst now ≤ budget interval t tokens last := by
  have hsum : (now - last) / interval + (t - now) / interval ≤ (t - last) / interval := by
    have h := @Nat.div_add_div_le_add_div (now - last) (t - now) interval
    have hwhole : now - last + (t - now) = t - last := by omega
    rwa [hwhole] at h
  unfold budget
  omega

/-! ## Stamps -/

section Stamps

variable {skew : Nat} {stamps stamps' : Finset Nat}

/-- What a bucket has earned between the point `z` of the stamps and its last refill,
rounded up. -/
def since (interval skew last z : Nat) : Nat := (last + skew + 1 - z + interval - 1) / interval

structure Covers (interval skew burst : Nat) (stamps : Finset Nat) (tokens last : Nat) : Prop where
  spent : ∀ z, (stamps.filter fun s => z ≤ s).card + tokens ≤ burst + since interval skew last z
  recent : ∀ s ∈ stamps, s < last + interval + skew

theorem covers_new (htokens : tokens ≤ burst) : Covers interval skew burst ∅ tokens last where
  spent z := by
    rw [Finset.filter_empty, Finset.card_empty]
    omega
  recent s hs := absurd hs (Finset.notMem_empty s)

theorem Covers.subset (h : Covers interval skew burst stamps tokens last) (hsub : stamps' ⊆ stamps) :
    Covers interval skew burst stamps' tokens last where
  spent z := by
    have hcard := Finset.card_le_card (Finset.filter_subset_filter (fun s => z ≤ s) hsub)
    have hspent := h.spent z
    omega
  recent s hs := h.recent s (hsub hs)

/-- Moving the last refill forward earns for every point that a stamp can reach. -/
theorem since_refill (hpos : 0 < interval) {earned z : Nat} (hz : z < last + interval + skew) :
    since interval skew last z + earned ≤ since interval skew (last + earned * interval) z := by
  unfold since
  rcases Nat.le_or_ge z (last + skew + 1) with hbefore | hafter
  · have hsplit : last + earned * interval + skew + 1 - z + interval - 1 =
        last + skew + 1 - z + interval - 1 + earned * interval := by omega
    rw [hsplit, Nat.add_mul_div_right _ _ hpos]
  · -- nothing was earned since, and each refill from here on counts
    have hnone : (last + skew + 1 - z + interval - 1) / interval = 0 :=
      Nat.div_eq_of_lt (by omega)
    rw [hnone, Nat.zero_add, Nat.le_div_iff_mul_le hpos]
    omega

theorem Covers.refill (hpos : 0 < interval) (h : Covers interval skew burst stamps tokens last)
    {earned : Nat} (htokens : tokens' ≤ tokens + earned) (hburst : tokens' ≤ burst) :
    Covers interval skew burst stamps tokens' (last + earned * interval) where
  spent z := by
    rcases Nat.lt_or_ge z (last + interval + skew) with hz | hz
    · have hspent := h.spent z
      have hearned := @since_refill _ _ _ hpos earned _ hz
      omega
    · -- no stamp is that late
      have hnone : stamps.filter (fun s => z ≤ s) = ∅ := by
        apply Finset.filter_eq_empty_iff.mpr
        intro s hs
        have hlate := h.recent s hs
        omega
      rw [hnone, Finset.card_empty]
      omega
  recent s hs := by
    have hlate := h.recent s hs
    have hforward : 0 ≤ earned * interval := Nat.zero_le _
    omega

/-- One more is let through and stamped. -/
theorem Covers.take (h : Covers interval skew burst stamps tokens last) {s : Nat}
    (hskew : s ≤ now + skew) (hnow : now < last + interval) (htoken : tokens' + 1 = tokens) :
    Covers interval skew burst (insert s stamps) tokens' last where
  spent z := by
    have hspent := h.spent z
    have hinsert : ((insert s stamps).filter fun t => z ≤ t).card ≤
        (stamps.filter fun t => z ≤ t).card + 1 := by
      rw [Finset.filter_insert]
      split
      · exact Finset.card_insert_le _ _
      · exact Nat.le_succ _
    omega
  recent t ht := by
    rcases Finset.mem_insert.mp ht with rfl | hold
    · omega
    · exact h.recent t hold

/-- The stamps of a window are covered by what is earned in it. -/
theorem Covers.card_le (h : Covers interval skew burst stamps tokens last) {z : Nat}
    (hfrom : ∀ s ∈ stamps, z ≤ s) : stamps.card + tokens ≤ burst + since interval skew last z := by
  have hspent := h.spent z
  rwa [Finset.filter_true_of_mem hfrom] at hspent

end Stamps

end TokenBucket
