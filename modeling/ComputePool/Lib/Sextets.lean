import Mathlib

/-!
# Groups of six bits

Three bytes are four groups of six bits; one or two bytes at the end of a string are
two or three groups, whose last bits are not used.  `pack` forgets those bits, and so
different sequences of groups stand for one byte string unless they are `Tight`.
-/

namespace Sextets

/-- The groups of a byte string; unused bits are zero. -/
def unpack : List UInt8 → List Nat
  | a :: b :: c :: rest =>
      a.toNat / 4 :: (a.toNat % 4 * 16 + b.toNat / 16) :: (b.toNat % 16 * 4 + c.toNat / 64) ::
        c.toNat % 64 :: unpack rest
  | [a, b] => [a.toNat / 4, a.toNat % 4 * 16 + b.toNat / 16, b.toNat % 16 * 4]
  | [a] => [a.toNat / 4, a.toNat % 4 * 16]
  | [] => []

/-- The bytes of a sequence of groups. -/
def pack : List Nat → List UInt8
  | p :: q :: r :: s :: rest =>
      UInt8.ofNat (p * 4 + q / 16) :: UInt8.ofNat (q % 16 * 16 + r / 4) ::
        UInt8.ofNat (r % 4 * 64 + s) :: pack rest
  | [p, q, r] => [UInt8.ofNat (p * 4 + q / 16), UInt8.ofNat (q % 16 * 16 + r / 4)]
  | [p, q] => [UInt8.ofNat (p * 4 + q / 16)]
  | _ => []

/-- No group is left alone, and the unused bits are zero. -/
def Tight : List Nat → Prop
  | _ :: _ :: _ :: _ :: rest => Tight rest
  | [_, _, r] => r % 4 = 0
  | [_, q] => q % 16 = 0
  | [_] => False
  | [] => True

instance decidableTight : DecidablePred Tight
  | _ :: _ :: _ :: _ :: rest => decidableTight rest
  | [_, _, r] => inferInstanceAs (Decidable (r % 4 = 0))
  | [_, q] => inferInstanceAs (Decidable (q % 16 = 0))
  | [_] => inferInstanceAs (Decidable False)
  | [] => inferInstanceAs (Decidable True)

theorem Tight.length : ∀ {vs : List Nat}, Tight vs → vs.length % 4 ≠ 1
  | _ :: _ :: _ :: _ :: rest, h => by
      have hrest := Tight.length (show Tight rest from h)
      simp only [List.length_cons]
      omega
  | [_, _, _], _ => by simp
  | [_, _], _ => by simp
  | [_], h => h.elim
  | [], _ => by simp

theorem unpack_lt {bytes : List UInt8} : ∀ v ∈ unpack bytes, v < 64 := by
  induction bytes using unpack.induct with
  | case1 a b c rest ih =>
      have ha := a.toNat_lt
      have hb := b.toNat_lt
      have hc := c.toNat_lt
      simp only [unpack, List.forall_mem_cons]
      exact ⟨by omega, by omega, by omega, by omega, ih⟩
  | case2 a b =>
      have ha := a.toNat_lt
      have hb := b.toNat_lt
      simp only [unpack, List.forall_mem_cons, List.not_mem_nil, false_implies, implies_true]
      exact ⟨by omega, by omega, by omega, trivial⟩
  | case3 a =>
      have ha := a.toNat_lt
      simp only [unpack, List.forall_mem_cons, List.not_mem_nil, false_implies, implies_true]
      exact ⟨by omega, by omega, trivial⟩
  | case4 => simp [unpack]

theorem unpack_tight (bytes : List UInt8) : Tight (unpack bytes) := by
  induction bytes using unpack.induct with
  | case1 a b c rest ih => exact ih
  | case2 a b =>
      show b.toNat % 16 * 4 % 4 = 0
      omega
  | case3 a =>
      show a.toNat % 4 * 16 % 16 = 0
      omega
  | case4 => trivial

/-- A byte is put together again from two of its parts. -/
theorem ofNat_eq {b : UInt8} {n : Nat} (h : n = b.toNat) : UInt8.ofNat n = b := by
  rw [h]
  exact UInt8.ofNat_toNat

theorem pack_unpack (bytes : List UInt8) : pack (unpack bytes) = bytes := by
  induction bytes using unpack.induct with
  | case1 a b c rest ih =>
      have hb := b.toNat_lt
      have hc := c.toNat_lt
      rw [unpack, pack, ih, @ofNat_eq a _ (by omega), @ofNat_eq b _ (by omega),
        @ofNat_eq c _ (by omega)]
  | case2 a b =>
      have hb := b.toNat_lt
      rw [unpack, pack, @ofNat_eq a _ (by omega), @ofNat_eq b _ (by omega)]
  | case3 a => rw [unpack, pack, @ofNat_eq a _ (by omega)]
  | case4 => rfl

theorem toNat_ofNat_lt {n : Nat} (h : n < 256) : (UInt8.ofNat n).toNat = n :=
  Nat.mod_eq_of_lt h

/-- Tight groups are those of the bytes they stand for. -/
theorem unpack_pack {vs : List Nat} (hsmall : ∀ v ∈ vs, v < 64) (htight : Tight vs) :
    unpack (pack vs) = vs := by
  induction vs using pack.induct with
  | case1 p q r s rest ih =>
      simp only [List.forall_mem_cons] at hsmall
      obtain ⟨hp, hq, hr, hs, hrest⟩ := hsmall
      rw [pack, unpack, ih hrest htight, toNat_ofNat_lt (by omega), toNat_ofNat_lt (by omega),
        toNat_ofNat_lt (by omega)]
      congr 1
      · omega
      congr 1
      · omega
      congr 1
      · omega
      congr 1
      omega
  | case2 p q r =>
      simp only [List.forall_mem_cons] at hsmall
      obtain ⟨hp, hq, hr, _⟩ := hsmall
      have hzero : r % 4 = 0 := htight
      rw [pack, unpack, toNat_ofNat_lt (by omega), toNat_ofNat_lt (by omega)]
      congr 1
      · omega
      congr 1
      · omega
      congr 1
      omega
  | case3 p q =>
      simp only [List.forall_mem_cons] at hsmall
      obtain ⟨hp, hq, _⟩ := hsmall
      have hzero : q % 16 = 0 := htight
      rw [pack, unpack, toNat_ofNat_lt (by omega)]
      congr 1
      · omega
      congr 1
      omega
  | case4 vs hfour hthree htwo =>
      cases vs with
      | nil => rfl
      | cons p rest =>
          cases rest with
          | nil => exact htight.elim
          | cons q rest =>
              cases rest with
              | nil => exact (htwo p q rfl).elim
              | cons r rest =>
                  cases rest with
                  | nil => exact (hthree p q r rfl).elim
                  | cons s rest => exact (hfour p q r s rest rfl).elim

end Sextets
