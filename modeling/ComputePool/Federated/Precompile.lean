import ComputePool.Federated.Basic
import ComputePool.Federated.GgufFile

/-!
# The call to the aggregation precompile

How `fl_round.rs` frames `f(bytes)` and reads a single `bytes` return value.  The
words of a return are the node's: an offset and a length of 256 bits, which need not
fit the machine and need not lie inside the data.
-/

namespace ComputePool
namespace Federated

open RustStd

/-- `keccak256(signature)[..4]`. -/
def selector (H : Hashes) (sig : String) : List UInt8 := (keccak H [utf8 sig]).toBytes.take 4

/-- ABI-encode `f(bytes)`. -/
def encodeBytesCall (H : Hashes) (sig : String) (data : List UInt8) : List UInt8 :=
  Gguf.resize (selector H sig ++ toBE 32 0x20 ++ (List.replicate 24 0 ++ toBE 8 data.length) ++ data)
    (4 + 64 + (data.length + 31) / 32 * 32)

/-- `items.get(a..b)`. -/
def getRange (items : List UInt8) (a b : Nat) : Option (List UInt8) :=
  if a ≤ b ∧ b ≤ items.length then some ((items.drop a).take (b - a)) else none

/-- The closure `word` of `decode_bytes_return`: the 32 bytes at `i` as a `u64`. -/
def wordAt (ret : List UInt8) (i : Nat) : Checked String Nat := do
  let stop ← checked (okOr (Gguf.checkedAdd i 32) "ABI offset out of range")
  let w ← checked (okOr (getRange ret i stop) "return data too short")
  let high ← slice w 0 24
  if high.any (· != 0) then .error (.err "ABI word out of range")
  else
    let b ← arrayAt 8 w 24
    .ok b.toNat

/-- Decode a single `bytes` return value. -/
def decodeBytesReturn (ret : List UInt8) : Checked String (List UInt8) := do
  let off ← wordAt ret 0
  let len ← wordAt ret off
  let start ← checked (okOr (Gguf.checkedAdd off 32) "ABI offset out of range")
  let stop ← checked (okOr (Gguf.checkedAdd start len) "ABI length out of range")
  checked (okOr (getRange ret start stop) "return data shorter than its length")

/-! ## Whatever the node returns -/

theorem getRange_some {items piece : List UInt8} {a b : Nat} (h : getRange items a b = some piece) :
    a ≤ b ∧ b ≤ items.length ∧ piece = (items.drop a).take (b - a) := by
  unfold getRange at h
  split at h
  · rename_i hin
    cases h
    exact ⟨hin.1, hin.2, rfl⟩
  · cases h

theorem checkedAdd_eq_some {a b n : Nat} (h : Gguf.checkedAdd a b = some n) :
    n = a + b ∧ n < 2 ^ 64 := by
  unfold Gguf.checkedAdd at h
  split at h
  · cases h
    omega
  · cases h

/-- A word is 32 bytes long, so that its two parts are there. -/
theorem wordAt_returns (ret : List UInt8) (i : Nat) : Returns (wordAt ret i) := by
  apply Returns.bind (returns_checked _)
  intro stop hstop
  apply Returns.bind (returns_checked _)
  intro w hw
  rw [checked_eq_ok, okOr_eq_ok] at hstop hw
  have ⟨hle, hin, hpiece⟩ := getRange_some hw
  have ⟨hsum, _⟩ := checkedAdd_eq_some hstop
  have hlength : w.length = 32 := by
    rw [hpiece, List.length_take, List.length_drop]
    omega
  apply Returns.bind (returns_slice (Nat.zero_le _) (by omega))
  intro high _
  apply returns_ite
  · exact fun _ => returns_error _
  · intro _
    apply Returns.bind (returns_arrayAt (by omega))
    intro b _
    exact returns_ok _

/-- The decoder returns, and what it returns is a part of what it was given, at sums
that fit a machine word. -/
theorem decodeBytesReturn_spec (ret : List UInt8) :
    Returns (decodeBytesReturn ret) ∧
      ∀ out, decodeBytesReturn ret = .ok out →
        ∃ start, start + out.length < 2 ^ 64 ∧ start + out.length ≤ ret.length ∧
          out = (ret.drop start).take out.length := by
  constructor
  · apply Returns.bind (wordAt_returns ret 0)
    intro off _
    apply Returns.bind (wordAt_returns ret off)
    intro len _
    apply Returns.bind (returns_checked _)
    intro start _
    apply Returns.bind (returns_checked _)
    intro stop _
    exact returns_checked _
  · intro out h
    unfold decodeBytesReturn at h
    rw [bind_eq_ok] at h
    have ⟨off, _, h⟩ := h
    rw [bind_eq_ok] at h
    have ⟨len, _, h⟩ := h
    rw [bind_eq_ok] at h
    have ⟨start, _, h⟩ := h
    rw [bind_eq_ok] at h
    have ⟨stop, hstop, h⟩ := h
    rw [checked_eq_ok, okOr_eq_ok] at hstop h
    have ⟨hsum, hfits⟩ := checkedAdd_eq_some hstop
    have ⟨_, hin, hpiece⟩ := getRange_some h
    have hlength : out.length = stop - start := by
      rw [hpiece, List.length_take, List.length_drop]
      omega
    refine ⟨start, by omega, by omega, ?_⟩
    rw [hlength]
    exact hpiece

/-! ## The call read back -/

theorem checkedAdd_of_lt {a b : Nat} (h : a + b < 2 ^ 64) : Gguf.checkedAdd a b = some (a + b) :=
  if_pos (by omega)

theorem getRange_of_le {items : List UInt8} {a b : Nat} (hab : a ≤ b) (hb : b ≤ items.length) :
    getRange items a b = some ((items.drop a).take (b - a)) :=
  if_pos ⟨hab, hb⟩

/-- A word of 24 zero bytes and a number is read as the number. -/
theorem wordAt_eq {ret : List UInt8} {i v : Nat} (hin : i + 32 ≤ ret.length)
    (hfits : i + 32 < 2 ^ 64) (hv : v < 2 ^ 64)
    (hword : (ret.drop i).take 32 = List.replicate 24 0 ++ toBE 8 v) : wordAt ret i = .ok v := by
  have hsub : i + 32 - i = 32 := by omega
  have hhigh : (slice (List.replicate 24 (0 : UInt8) ++ toBE 8 v) 0 24 : Checked String _) =
      .ok (List.replicate 24 0) := by
    rw [slice_of_le (Nat.zero_le _) (by simp)]
    simp
  have hlow : (arrayAt 8 (List.replicate 24 (0 : UInt8) ++ toBE 8 v) 24 : Checked String _) =
      .ok (FixedBytes.ofNat v) := by
    apply arrayAt_of_take
    rw [List.drop_left' List.length_replicate, List.take_of_length_le (toBE_length 8 v).le]
    rfl
  have hzero : ¬ ((List.replicate 24 (0 : UInt8)).any (· != 0)) = true := by decide
  unfold wordAt
  rw [checkedAdd_of_lt hfits, bind_of_ok (checked_okOr_some (i + 32)),
    getRange_of_le (Nat.le_add_right i 32) hin, hsub, hword, bind_of_ok (checked_okOr_some _),
    bind_of_ok hhigh, if_neg hzero, bind_of_ok hlow]
  exact congrArg Except.ok (beNat_toBE hv)

theorem selector_length (H : Hashes) (sig : String) : (selector H sig).length = 4 := by
  unfold selector
  rw [List.length_take, FixedBytes.toBytes_length]
  rfl

/-- The parts of a call behind its selector. -/
theorem encodeBytesCall_drop (H : Hashes) (sig : String) (data : List UInt8) :
    (encodeBytesCall H sig data).drop 4 =
      [List.replicate 24 0 ++ toBE 8 0x20, List.replicate 24 0 ++ toBE 8 data.length, data,
        List.replicate ((data.length + 31) / 32 * 32 - data.length) 0].flatten := by
  have hlength : (selector H sig ++ toBE 32 0x20 ++ (List.replicate 24 0 ++ toBE 8 data.length) ++
      data).length = 4 + 64 + data.length := by
    simp only [List.length_append, selector_length, toBE_length, List.length_replicate]
  have hpad : 4 + 64 + (data.length + 31) / 32 * 32 - (4 + 64 + data.length) =
      (data.length + 31) / 32 * 32 - data.length := by
    omega
  have hword : toBE 32 0x20 = List.replicate 24 0 ++ toBE 8 0x20 := by decide
  unfold encodeBytesCall
  rw [Gguf.resize_of_le (by omega), hlength, hpad, hword]
  simp only [List.append_assoc, List.flatten_cons, List.flatten_nil, List.append_nil]
  exact List.drop_left' (selector_length H sig)

theorem decodeBytesReturn_encode (H : Hashes) (sig : String) {data : List UInt8}
    (hdata : data.length ≤ isizeMax) :
    decodeBytesReturn ((encodeBytesCall H sig data).drop 4) = .ok data := by
  have hmax : isizeMax = 2 ^ 63 - 1 := rfl
  rw [encodeBytesCall_drop]
  let parts := [List.replicate 24 0 ++ toBE 8 0x20, List.replicate 24 0 ++ toBE 8 data.length, data,
    List.replicate ((data.length + 31) / 32 * 32 - data.length) 0]
  have hlength : 64 + data.length ≤ parts.flatten.length := by
    simp only [parts, List.length_flatten, List.map_cons, List.map_nil, List.sum_cons,
      List.sum_nil, List.length_append, List.length_replicate, toBE_length]
    omega
  have hfirst : (parts.flatten.drop 0).take 32 = List.replicate 24 0 ++ toBE 8 0x20 := by
    have hcut := @take_drop_flatten _ parts _ 0 rfl _ rfl
    rwa [List.length_append, List.length_replicate, toBE_length] at hcut
  have hsecond : (parts.flatten.drop 0x20).take 32 = List.replicate 24 0 ++ toBE 8 data.length := by
    have hcut := @take_drop_flatten _ parts _ 1 rfl 0x20 (by simp [parts])
    rwa [List.length_append, List.length_replicate, toBE_length] at hcut
  have hbytes : (parts.flatten.drop 64).take data.length = data :=
    take_drop_flatten 2 rfl (by simp [parts])
  have hoffset : wordAt parts.flatten 0 = .ok 0x20 :=
    wordAt_eq (by omega) (by omega) (by omega) hfirst
  have hcount : wordAt parts.flatten 0x20 = .ok data.length :=
    wordAt_eq (by omega) (by omega) (by omega) hsecond
  have hsub : 64 + data.length - 64 = data.length := by omega
  unfold decodeBytesReturn
  rw [bind_of_ok hoffset, bind_of_ok hcount, checkedAdd_of_lt (by omega),
    bind_of_ok (checked_okOr_some _), checkedAdd_of_lt (by omega),
    bind_of_ok (checked_okOr_some _), getRange_of_le (Nat.le_add_right 64 _) hlength, hsub, hbytes,
    checked_okOr_some]

/-- **Framing of the precompile call.**  What is framed is read back; and whatever a
node returns, the decoder returns an error or a copy of a part of it, without a panic
and without an overflow.  A byte slice is never longer than `isize::MAX`. -/
theorem call_framing (H : Hashes) (sig : String) (data : List UInt8)
    (hdata : data.length ≤ isizeMax) (ret : List UInt8) :
    decodeBytesReturn ((encodeBytesCall H sig data).drop 4) = .ok data ∧
      Returns (decodeBytesReturn ret) ∧
      ∀ out, decodeBytesReturn ret = .ok out →
        ∃ start, start + out.length < 2 ^ 64 ∧ start + out.length ≤ ret.length ∧
          out = (ret.drop start).take out.length :=
  ⟨decodeBytesReturn_encode H sig hdata, decodeBytesReturn_spec ret⟩

theorem call_framing_three_bytes :
    let H : Hashes := ⟨fun _ => FixedBytes.zero, fun _ => FixedBytes.zero⟩
    decodeBytesReturn ((encodeBytesCall H "belnapAggregate(bytes)" [1, 2, 3]).drop 4) =
        .ok [1, 2, 3] ∧
      Returns (decodeBytesReturn (List.replicate 64 0xff)) :=
  let H : Hashes := ⟨fun _ => FixedBytes.zero, fun _ => FixedBytes.zero⟩
  have hframed := call_framing H "belnapAggregate(bytes)" [1, 2, 3] (by decide)
    (List.replicate 64 0xff)
  ⟨hframed.1, hframed.2.1⟩

end Federated
end ComputePool
