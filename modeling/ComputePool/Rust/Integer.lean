import Mathlib

/-!
# Saturating machine integers

Unsigned machine integers are natural numbers here.  An operation which the
modelled code performs with `saturating_add` or `saturating_mul` is clamped at
the type's maximum; `saturating_sub` is truncated subtraction of `Nat` itself.
Plain `+=` on a `u32` wraps, as it does in a release build.
-/

namespace RustStd

/-- `u32::MAX`. -/
def u32Max : Nat := 2 ^ 32 - 1

/-- `u64::MAX`. -/
def u64Max : Nat := 2 ^ 64 - 1

/-- `u32::saturating_add`. -/
def satAdd32 (a b : Nat) : Nat := min (a + b) u32Max

/-- `u64::saturating_add`. -/
def satAdd (a b : Nat) : Nat := min (a + b) u64Max

/-- `u64::saturating_mul`. -/
def satMul (a b : Nat) : Nat := min (a * b) u64Max

/-- `u64::abs_diff`. -/
def absDiff (a b : Nat) : Nat := (a - b) + (b - a)

/-- `u32` addition as compiled without overflow checks. -/
def wrapAdd32 (a b : Nat) : Nat := (a + b) % 2 ^ 32

/-- `wrapping_add` on 64 bits. -/
def wrapAdd64 (a b : Nat) : Nat := (a + b) % 2 ^ 64

/-- `wrapping_mul` on 64 bits. -/
def wrapMul64 (a b : Nat) : Nat := (a * b) % 2 ^ 64

/-- `u128::saturating_sub`. -/
def satSub128 (a b : BitVec 128) : BitVec 128 := if b ≤ a then a - b else 0

theorem satSub128_toNat (a b : BitVec 128) : (satSub128 a b).toNat = a.toNat - b.toNat := by
  unfold satSub128
  split
  · rename_i h
    exact BitVec.toNat_sub_of_le h
  · rename_i h
    have hlt : a.toNat < b.toNat := by simpa [BitVec.le_def] using h
    simp
    omega

theorem satAdd_le_add (a b : Nat) : satAdd a b ≤ a + b :=
  Nat.min_le_left _ _

theorem satAdd_le_max (a b : Nat) : satAdd a b ≤ u64Max :=
  Nat.min_le_right _ _

theorem satAdd_mono_right (a : Nat) {b c : Nat} (h : b ≤ c) :
    satAdd a b ≤ satAdd a c := by
  unfold satAdd
  omega

theorem satAdd_mono_left (b : Nat) {a c : Nat} (h : a ≤ c) :
    satAdd a b ≤ satAdd c b := by
  unfold satAdd
  omega

theorem absDiff_le_iff {a b w : Nat} :
    absDiff a b ≤ w ↔ a ≤ b + w ∧ b ≤ a + w := by
  unfold absDiff
  omega

end RustStd
