import Mathlib

/-!
# Arcs on a circle

Positions `0 .. total - 1` in a circle, and the arc of a number of positions from a
start on.  Two arcs of one length are disjoint exactly when each start is at least
that length behind the other.
-/

namespace Arc

/-- How far `b` is after `a`, around the circle. -/
def gap (total a b : Nat) : Nat := (b + (total - a)) % total

/-- The arc of `want` positions from `start` on. -/
def arc (total start want : Nat) : List Nat :=
  (List.range want).map fun i => (start + i) % total

variable {total a b want : Nat}

theorem gap_of_le (h : a ≤ b) (hb : b < total) : gap total a b = b - a := by
  have hsum : b + (total - a) = b - a + total := by omega
  unfold gap
  rw [hsum, Nat.add_mod_right, Nat.mod_eq_of_lt (by omega)]

theorem gap_of_lt (h : b < a) (ha : a ≤ total) : gap total a b = b + (total - a) := by
  unfold gap
  exact Nat.mod_eq_of_lt (by omega)

theorem gap_self (ha : a < total) : gap total a a = 0 := by
  rw [gap_of_le le_rfl ha]
  exact Nat.sub_self a

theorem gap_lt (htotal : 0 < total) : gap total a b < total := Nat.mod_lt _ htotal

/-- On the circle only the distance counts. -/
theorem gap_mod (htotal : 0 < total) {x y : Nat} (h : x ≤ y) :
    gap total (x % total) (y % total) = (y - x) % total := by
  have hlt := Nat.mod_lt x htotal
  have hleft : y % total + (total - x % total) + x % total = y % total + total := by omega
  have hmod : gap total (x % total) (y % total) + x % total ≡ (y - x) + x % total [MOD total] :=
    calc gap total (x % total) (y % total) + x % total
        ≡ y % total + (total - x % total) + x % total [MOD total] :=
          (Nat.mod_modEq _ _).add_right _
      _ = y % total + total := hleft
      _ ≡ y % total [MOD total] := Nat.add_modEq_right
      _ ≡ y [MOD total] := Nat.mod_modEq _ _
      _ = (y - x) + x := by omega
      _ ≡ (y - x) + x % total [MOD total] := (Nat.mod_modEq x total).symm.add_left _
  have hcancel : gap total (x % total) (y % total) ≡ y - x [MOD total] :=
    hmod.add_right_cancel' _
  rw [← Nat.mod_eq_of_lt (gap_lt htotal)]
  exact hcancel

/-- The way back is what is left of the circle. -/
theorem le_gap_swap (ha : a < total) (hb : b < total) :
    want ≤ gap total a b ∧ want ≤ gap total b a ↔
      want ≤ gap total a b ∧ gap total a b + want ≤ total := by
  rcases Nat.lt_trichotomy a b with hlt | heq | hlt
  · rw [gap_of_le hlt.le hb, gap_of_lt hlt hb.le]
    omega
  · subst heq
    rw [gap_self ha]
    omega
  · rw [gap_of_lt hlt ha.le, gap_of_le hlt.le ha]
    omega

/-- Starts at the multiples of `k`, shifted alike, are `want` apart exactly where the
multiples are. -/
theorem gaps_iff_multiples {k shift bound n : Nat} (htotal : 0 < total)
    (hbound : n * k + shift < bound) :
    (∀ a < n, ∀ b < n, a ≠ b →
      want ≤ gap total ((a * k + shift) % bound % total) ((b * k + shift) % bound % total)) ↔
    ∀ d, 0 < d → d < n → want ≤ d * k % total ∧ d * k % total + want ≤ total := by
  have hgap : ∀ a b, a < b → b < n →
      gap total ((a * k + shift) % bound % total) ((b * k + shift) % bound % total) =
        (b - a) * k % total := by
    intro a b hlt hb
    have hab : a * k ≤ b * k := Nat.mul_le_mul_right k hlt.le
    have hbn : b * k ≤ n * k := Nat.mul_le_mul_right k hb.le
    have hsub : b * k + shift - (a * k + shift) = (b - a) * k := by
      rw [Nat.add_sub_add_right, Nat.sub_mul]
    rw [Nat.mod_eq_of_lt (by omega : a * k + shift < bound),
      Nat.mod_eq_of_lt (by omega : b * k + shift < bound), gap_mod htotal (by omega), hsub]
  constructor
  · intro h d hd hlt
    have hboth := (le_gap_swap (Nat.mod_lt _ htotal) (Nat.mod_lt _ htotal)).mp
      ⟨h 0 (by omega) d hlt (by omega), h d hlt 0 (by omega) (by omega)⟩
    rwa [hgap 0 d hd hlt, Nat.sub_zero] at hboth
  · intro h a ha b hb hne
    rcases Nat.lt_or_gt_of_ne hne with hlt | hgt
    · rw [hgap a b hlt hb]
      exact (h (b - a) (by omega) (by omega)).1
    · have hmultiple := h (a - b) (by omega) (by omega)
      rw [← hgap b a hgt ha] at hmultiple
      exact ((le_gap_swap (Nat.mod_lt _ htotal) (Nat.mod_lt _ htotal)).mpr hmultiple).2

theorem mem_arc (ha : a < total) (hwant : want ≤ total) {p : Nat} :
    p ∈ arc total a want ↔ p < total ∧ gap total a p < want := by
  unfold arc
  rw [List.mem_map]
  constructor
  · rintro ⟨i, hi, hp⟩
    rw [List.mem_range] at hi
    have hlt : p < total := hp ▸ Nat.mod_lt _ (by omega)
    refine ⟨hlt, ?_⟩
    -- the arc goes past the end of the circle at most once
    by_cases hwrap : a + i < total
    · rw [Nat.mod_eq_of_lt hwrap] at hp
      rw [gap_of_le (by omega) hlt]
      omega
    · rw [Nat.mod_eq_sub_mod (by omega), Nat.mod_eq_of_lt (by omega)] at hp
      rw [gap_of_lt (by omega) ha.le]
      omega
  · rintro ⟨hp, hgap⟩
    refine ⟨gap total a p, List.mem_range.mpr hgap, ?_⟩
    by_cases hle : a ≤ p
    · rw [gap_of_le hle hp, Nat.add_sub_cancel' hle]
      exact Nat.mod_eq_of_lt hp
    · have hsum : a + (p + (total - a)) = p + total := by omega
      rw [gap_of_lt (by omega) ha.le, hsum, Nat.add_mod_right]
      exact Nat.mod_eq_of_lt hp

/-- Two arcs of one length are disjoint when each start is outside the other arc. -/
theorem disjoint_iff (ha : a < total) (hb : b < total) (hwant : want ≤ total) :
    List.Disjoint (arc total a want) (arc total b want) ↔
      want ≤ gap total a b ∧ want ≤ gap total b a := by
  constructor
  · intro h
    rcases Nat.eq_zero_or_pos want with hzero | hpos
    · rw [hzero]
      exact ⟨Nat.zero_le _, Nat.zero_le _⟩
    · have hself : ∀ {p : Nat}, p < total → p ∈ arc total p want := fun hp =>
        (mem_arc hp hwant).mpr ⟨hp, by rwa [gap_self hp]⟩
      constructor
      · by_contra hlt
        exact h ((mem_arc ha hwant).mpr ⟨hb, by omega⟩) (hself hb)
      · by_contra hlt
        exact h (hself ha) ((mem_arc hb hwant).mpr ⟨ha, by omega⟩)
  · rintro ⟨hab, hba⟩ p hpa hpb
    have ⟨hp, hga⟩ := (mem_arc ha hwant).mp hpa
    have ⟨_, hgb⟩ := (mem_arc hb hwant).mp hpb
    -- of the two starts, one lies between the other and the common position
    rcases Nat.lt_trichotomy a b with hlt | heq | hlt
    · rw [gap_of_le hlt.le hb] at hab
      rw [gap_of_lt hlt hb.le] at hba
      by_cases hpb : b ≤ p
      · rw [gap_of_le (by omega) hp] at hga
        omega
      · rw [gap_of_lt (by omega) hb.le] at hgb
        by_cases hpa : a ≤ p
        · rw [gap_of_le hpa hp] at hga
          omega
        · rw [gap_of_lt (by omega) ha.le] at hga
          omega
    · subst heq
      rw [gap_self ha] at hab
      omega
    · rw [gap_of_lt hlt ha.le] at hab
      rw [gap_of_le hlt.le ha] at hba
      by_cases hpa : a ≤ p
      · rw [gap_of_le (by omega) hp] at hgb
        omega
      · rw [gap_of_lt (by omega) ha.le] at hga
        by_cases hpb : b ≤ p
        · rw [gap_of_le hpb hp] at hgb
          omega
        · rw [gap_of_lt (by omega) hb.le] at hgb
          omega

theorem arc_nodup (hwant : want ≤ total) : (arc total a want).Nodup := by
  unfold arc
  refine List.Nodup.map_on (fun i hi j hj hsame => ?_) List.nodup_range
  rw [List.mem_range] at hi hj
  have hcancel : i ≡ j [MOD total] := Nat.ModEq.add_left_cancel' a hsame
  exact hcancel.eq_of_lt_of_lt (by omega) (by omega)

/-- Some multiple of `k` is the greatest common divisor, around the circle. -/
theorem exists_multiple_gcd (k : Nat) (htotal : 0 < total) :
    ∃ m, m * k ≡ k.gcd total [MOD total] := by
  rcases (Nat.gcd_le_right k htotal).lt_or_eq with hlt | heq
  · have ⟨m, _, hm⟩ := Nat.exists_mul_mod_eq_gcd hlt
    refine ⟨m, ?_⟩
    rw [Nat.mul_comm]
    exact hm.trans (Nat.mod_eq_of_lt hlt).symm
  · refine ⟨0, ?_⟩
    rw [heq, Nat.zero_mul]
    exact (Nat.mod_self total).symm

/-- Arcs that start a fixed stride after each other cover the circle, if they are no
shorter than the greatest common divisor of the stride and the circle. -/
theorem arcs_cover {k start p : Nat} (hp : p < total) (hwide : k.gcd total ≤ want) :
    ∃ n < total, p ∈ arc total ((start + n * k) % total) want := by
  have htotal : 0 < total := by omega
  have hpos : 0 < k.gcd total := Nat.gcd_pos_of_pos_right k htotal
  have ⟨m, hm⟩ := exists_multiple_gcd k htotal
  have hlt := Nat.mod_lt start htotal
  -- walk to the last multiple of the divisor before `p`
  let far := gap total (start % total) p
  have hfar : start + far ≡ p [MOD total] :=
    calc start + far
        ≡ start % total + (p + (total - start % total)) [MOD total] :=
          (Nat.mod_modEq start total).symm.add (Nat.mod_modEq _ _)
      _ = p + total := by omega
      _ ≡ p [MOD total] := Nat.add_modEq_right
  have hwalk : m * (far / k.gcd total) % total * k ≡ far / k.gcd total * k.gcd total [MOD total] :=
    calc m * (far / k.gcd total) % total * k
        ≡ m * (far / k.gcd total) * k [MOD total] := (Nat.mod_modEq _ _).mul_right k
      _ = far / k.gcd total * (m * k) := by ring
      _ ≡ far / k.gcd total * k.gcd total [MOD total] := hm.mul_left _
  refine ⟨m * (far / k.gcd total) % total, Nat.mod_lt _ htotal, ?_⟩
  unfold arc
  refine List.mem_map.mpr ⟨far % k.gcd total,
    List.mem_range.mpr ((Nat.mod_lt far hpos).trans_le hwide), ?_⟩
  have hreach : (start + m * (far / k.gcd total) % total * k) % total + far % k.gcd total ≡
      p [MOD total] :=
    calc (start + m * (far / k.gcd total) % total * k) % total + far % k.gcd total
        ≡ start + m * (far / k.gcd total) % total * k + far % k.gcd total [MOD total] :=
          (Nat.mod_modEq _ _).add_right _
      _ ≡ start + far / k.gcd total * k.gcd total + far % k.gcd total [MOD total] :=
          (hwalk.add_left start).add_right _
      _ = start + far := by
          rw [Nat.add_assoc, Nat.div_add_mod']
      _ ≡ p [MOD total] := hfar
  exact Eq.trans hreach (Nat.mod_eq_of_lt hp)

end Arc
