import Mathlib

/-!
# Byte strings

Big-endian and little-endian encodings of machine integers, and the fixed-size
byte arrays `[u8; N]`.  A fixed-size array is a subtype, so a value of the wrong
length cannot be built; it is ordered as Rust orders `[u8; N]`, which for equal
lengths is the order of the big-endian values.
-/

namespace RustStd

/-- The number a byte string denotes in big-endian order. -/
def beNat : List UInt8 → Nat
  | [] => 0
  | b :: rest => b.toNat * 256 ^ rest.length + beNat rest

/-- The `len` low-order bytes of `n`, most significant first. -/
def toBE : Nat → Nat → List UInt8
  | 0, _ => []
  | len + 1, n => UInt8.ofNat (n / 256 ^ len) :: toBE len n

/-- The `len` low-order bytes of `n`, least significant first. -/
def toLE (len n : Nat) : List UInt8 := (toBE len n).reverse

/-- The number a byte string denotes in little-endian order. -/
def leNat (bytes : List UInt8) : Nat := beNat bytes.reverse

@[simp] theorem toBE_length (len n : Nat) : (toBE len n).length = len := by
  induction len with
  | zero => rfl
  | succ len ih => simp [toBE, ih]

@[simp] theorem toLE_length (len n : Nat) : (toLE len n).length = len := by
  simp [toLE]

theorem beNat_lt (bytes : List UInt8) : beNat bytes < 256 ^ bytes.length := by
  induction bytes with
  | nil => simp [beNat]
  | cons b rest ih =>
      have hb : b.toNat < 256 := b.toNat_lt
      have hmul : (b.toNat + 1) * 256 ^ rest.length ≤ 256 * 256 ^ rest.length :=
        Nat.mul_le_mul_right _ hb
      rw [List.length_cons, Nat.pow_succ, Nat.mul_comm (256 ^ rest.length)]
      simp only [beNat]
      linarith

theorem beNat_toBE_mod (len n : Nat) : beNat (toBE len n) = n % 256 ^ len := by
  induction len with
  | zero => simp [toBE, beNat, Nat.mod_one]
  | succ len ih =>
      have hbyte : (UInt8.ofNat (n / 256 ^ len)).toNat = n / 256 ^ len % 256 :=
        UInt8.toNat_ofNat'
      simp only [toBE, beNat, toBE_length, ih, hbyte]
      rw [Nat.pow_succ 256 len, Nat.mod_mul, Nat.mul_comm (256 ^ len)]
      omega

/-- Encoding and decoding a value that fits its width. -/
theorem beNat_toBE {len n : Nat} (h : n < 256 ^ len) : beNat (toBE len n) = n := by
  rw [beNat_toBE_mod, Nat.mod_eq_of_lt h]

theorem beNat_append (front back : List UInt8) :
    beNat (front ++ back) = beNat front * 256 ^ back.length + beNat back := by
  induction front with
  | nil => simp [beNat]
  | cons b rest ih =>
      simp only [List.cons_append, beNat, ih, List.length_append, Nat.pow_add]
      ring

theorem beNat_injective {a b : List UInt8} (hlen : a.length = b.length)
    (h : beNat a = beNat b) : a = b := by
  induction a generalizing b with
  | nil => exact (List.length_eq_zero_iff.mp hlen.symm).symm
  | cons x xs ih =>
      cases b with
      | nil => simp at hlen
      | cons y ys =>
          have htail : xs.length = ys.length := by simpa using hlen
          simp only [beNat, htail] at h
          have hxs := beNat_lt xs
          have hys := beNat_lt ys
          rw [htail] at hxs
          have hpos : 0 < 256 ^ ys.length := Nat.pow_pos (by decide)
          have hhead : x.toNat = y.toNat := by
            have := congrArg (· / 256 ^ ys.length) h
            simpa [Nat.mul_add_div hpos, Nat.mul_comm _ (256 ^ ys.length),
              Nat.div_eq_of_lt hxs, Nat.div_eq_of_lt hys] using this
          have hrest : beNat xs = beNat ys := by
            rw [hhead] at h
            exact Nat.add_left_cancel h
          rw [UInt8.toNat_inj.mp hhead, ih htail hrest]

/-- A byte string is the encoding of the number it denotes. -/
theorem toBE_beNat (bytes : List UInt8) : toBE bytes.length (beNat bytes) = bytes := by
  apply beNat_injective (toBE_length _ _)
  exact beNat_toBE (beNat_lt bytes)

theorem leNat_toLE {len n : Nat} (h : n < 256 ^ len) : leNat (toLE len n) = n := by
  simp [leNat, toLE, beNat_toBE h]

theorem toBE_injective {len a b : Nat} (ha : a < 256 ^ len) (hb : b < 256 ^ len)
    (h : toBE len a = toBE len b) : a = b := by
  have := congrArg beNat h
  rwa [beNat_toBE ha, beNat_toBE hb] at this

/-- `[u8; n]`. -/
def FixedBytes (n : Nat) : Type := { bytes : List UInt8 // bytes.length = n }

namespace FixedBytes

variable {n : Nat}

/-- The array as a byte slice. -/
def toBytes (a : FixedBytes n) : List UInt8 := a.1

/-- The big-endian value of the array. -/
def toNat (a : FixedBytes n) : Nat := beNat a.1

/-- The array whose big-endian value is `v` modulo `256 ^ n`
(`H160::from_low_u64_be` for a `v` below `2^64`). -/
def ofNat (v : Nat) : FixedBytes n := ⟨toBE n v, toBE_length n v⟩

/-- `[0u8; n]`. -/
def zero : FixedBytes n := ⟨List.replicate n 0, List.length_replicate⟩

@[simp] theorem toBytes_length (a : FixedBytes n) : a.toBytes.length = n := a.2

theorem toNat_injective : Function.Injective (toNat (n := n)) := by
  intro a b h
  exact Subtype.ext (beNat_injective (a.2.trans b.2.symm) h)

theorem toBytes_injective : Function.Injective (toBytes (n := n)) :=
  fun _ _ h => Subtype.ext h

instance : LinearOrder (FixedBytes n) := LinearOrder.lift' toNat toNat_injective

instance : Inhabited (FixedBytes n) := ⟨zero⟩

end FixedBytes

end RustStd
