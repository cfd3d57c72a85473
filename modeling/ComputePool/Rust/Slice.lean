import ComputePool.Rust.Bytes
import ComputePool.Rust.Result

/-!
# Reading fixed layouts

The slice operations of a decoder that reads its fields at fixed offsets.  Each
of them panics out of range, so that a decoder which never panics on any input
has checked every offset it uses.  `cut` splits a byte string at consecutive
widths; it is how a layout and the offsets of its fields are compared.
-/

namespace RustStd

variable {ε : Type} {α : Type}

/-- `isize::MAX`: no slice is longer. -/
def isizeMax : Nat := 2 ^ 63 - 1

/-- `items[i]`, which panics out of range. -/
def indexAt (items : List α) (i : Nat) : Checked ε α :=
  match items[i]? with
  | some a => .ok a
  | none => .error .panic

/-- `copy_from_slice` into a `[u8; n]` from the `n` bytes at offset `o`. -/
def arrayAt (n : Nat) (bytes : List UInt8) (o : Nat) : Checked ε (FixedBytes n) :=
  if h : ((bytes.drop o).take n).length = n then .ok ⟨(bytes.drop o).take n, h⟩
  else .error .panic

/-- `usize` addition on a 64-bit target: a build with overflow checks panics, one
without them wraps. -/
def addUsize (overflowChecks : Bool) (a b : Nat) : Checked ε Nat :=
  if a + b < 2 ^ 64 then .ok (a + b)
  else if overflowChecks then .error .panic else .ok ((a + b) % 2 ^ 64)

theorem addUsize_of_lt {checks : Bool} {a b : Nat} (h : a + b < 2 ^ 64) :
    (addUsize checks a b : Checked ε Nat) = .ok (a + b) := by
  rw [addUsize, if_pos h]

/-- `u64::checked_mul`. -/
def checkedMul (a b : Nat) : Option Nat := if a * b ≤ 2 ^ 64 - 1 then some (a * b) else none

theorem slice_of_le {items : List α} {a b : Nat} (hab : a ≤ b) (hb : b ≤ items.length) :
    (slice items a b : Checked ε (List α)) = .ok ((items.drop a).take (b - a)) := by
  rw [slice, if_pos ⟨hab, hb⟩]

theorem indexAt_ok {items : List α} {i : Nat} {a : α} (h : items[i]? = some a) :
    (indexAt items i : Checked ε α) = .ok a := by
  rw [indexAt, h]

theorem arrayAt_of_take {n o : Nat} {bytes : List UInt8} {a : FixedBytes n}
    (h : (bytes.drop o).take n = a.toBytes) : (arrayAt n bytes o : Checked ε _) = .ok a := by
  have hlength : ((bytes.drop o).take n).length = n := by rw [h, FixedBytes.toBytes_length]
  rw [arrayAt, dif_pos hlength]
  exact congrArg Except.ok (Subtype.ext h)

theorem arrayAt_toBytes {n o : Nat} {bytes : List UInt8} {a : FixedBytes n}
    (h : (arrayAt n bytes o : Checked ε _) = .ok a) : (bytes.drop o).take n = a.toBytes := by
  unfold arrayAt at h
  split at h
  · cases h
    rfl
  · cases h

theorem arrayAt_ok {n o : Nat} (bytes : List UInt8) (h : o + n ≤ bytes.length) :
    ∃ a : FixedBytes n, (arrayAt n bytes o : Checked ε _) = .ok a := by
  have hlength : ((bytes.drop o).take n).length = n := by
    rw [List.length_take, List.length_drop]
    omega
  exact ⟨⟨_, hlength⟩, by rw [arrayAt, dif_pos hlength]⟩

theorem returns_arrayAt {n o : Nat} {bytes : List UInt8} (h : o + n ≤ bytes.length) :
    Returns (arrayAt n bytes o : Checked ε _) := by
  have ⟨a, ha⟩ := arrayAt_ok (ε := ε) bytes h
  rw [ha]
  exact returns_ok a

theorem returns_indexAt {items : List α} {i : Nat} (h : i < items.length) :
    Returns (indexAt items i : Checked ε α) := by
  rw [indexAt_ok (List.getElem?_eq_getElem h)]
  exact returns_ok _

/-- An index panics exactly when it is out of range. -/
theorem returns_indexAt_bind {β : Type} {items : List α} {i : Nat} {next : α → Checked ε β} :
    Returns (indexAt items i >>= next) ↔ ∃ a, items[i]? = some a ∧ Returns (next a) := by
  cases h : items[i]? with
  | none =>
      have hpanic : (indexAt items i >>= next) = .error .panic := by
        rw [indexAt, h]
        rfl
      rw [hpanic]
      exact iff_of_false (fun hret => hret rfl) fun ⟨a, ha, _⟩ => by cases ha
  | some a =>
      rw [bind_of_ok (indexAt_ok h)]
      exact ⟨fun hret => ⟨a, rfl, hret⟩, fun ⟨b, hb, hret⟩ => by
        cases hb
        exact hret⟩

/-- A part of a concatenation, cut out at its own offset. -/
theorem take_drop_flatten {parts : List (List α)} {part : List α} (i : Nat)
    (h : parts[i]? = some part) {o : Nat} (ho : ((parts.take i).map List.length).sum = o) :
    (parts.flatten.drop o).take part.length = part := by
  have hin := (List.getElem?_eq_some_iff.mp h).1
  have hsplit : parts = parts.take i ++ part :: parts.drop (i + 1) := by
    have hdrop := List.drop_eq_getElem_cons hin
    rw [(List.getElem?_eq_some_iff.mp h).2] at hdrop
    rw [← hdrop, List.take_append_drop]
  have hflat : parts.flatten = (parts.take i).flatten ++ (part ++ (parts.drop (i + 1)).flatten) := by
    conv_lhs => rw [hsplit]
    rw [List.flatten_append, List.flatten_cons]
  have hfront : (parts.take i).flatten.length = o := by rw [List.length_flatten, ho]
  rw [hflat, ← hfront, List.drop_left, List.take_left]

/-- Consecutive pieces of the given widths, then what is left. -/
def cut : List Nat → List α → List (List α)
  | [], items => [items]
  | width :: widths, items => items.take width :: cut widths (items.drop width)

theorem flatten_cut (widths : List Nat) (items : List α) : (cut widths items).flatten = items := by
  induction widths generalizing items with
  | nil => simp [cut]
  | cons width widths ih => rw [cut, List.flatten_cons, ih, List.take_append_drop]

theorem take_one_drop {items : List α} {i : Nat} {a : α} :
    (items.drop i).take 1 = [a] ↔ items[i]? = some a := by
  rw [List.take_one, List.head?_drop, Option.toList_eq_singleton_iff]

end RustStd
