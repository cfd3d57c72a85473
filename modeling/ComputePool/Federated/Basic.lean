import ComputePool.Rust.Text

/-!
# Words, addresses and hashes

The shared vocabulary of the federated LoRA rounds (`fl/mod.rs`).  The two hash
functions come from third-party crates and are parameters; every digest in the
modelled code is one of them applied to a concatenation of byte strings.
-/

namespace ComputePool

open RustStd

/-- A 20-byte EVM address, `ethereum_types::H160`. -/
abbrev H160 := FixedBytes 20

-- Stated at the type itself: maps and memberships keyed by an address then carry
-- a constant instead of a proof of their own.
instance : Std.TransCmp (compare : H160 → H160 → Ordering) := inferInstance

instance : LawfulBEq H160 := inferInstance

namespace Federated

/-- A 32-byte word: round ids, roots, digests. -/
abbrev B32 := FixedBytes 32

instance : LawfulBEq B32 := inferInstance

/-- A 20-byte EVM address (`[u8; 20]`; `H160::to_fixed_bytes` is the identity). -/
abbrev Addr := FixedBytes 20

/-- The hash functions of the `sha3` and `sha2` crates. -/
structure Hashes where
  keccak256 : List UInt8 → B32
  sha256 : List UInt8 → B32

/-- `keccak256` over the concatenation of `parts`. -/
def keccak (H : Hashes) (parts : List (List UInt8)) : B32 := H.keccak256 parts.flatten

/-- `0x`-prefixed lowercase hex. -/
def hex0x (bytes : List UInt8) : String := String.ofList ('0' :: 'x' :: hexChars bytes)

/-- Parse a fixed-size hex value with or without `0x`. -/
def parseHex (n : Nat) (s : String) : Option (FixedBytes n) :=
  let h := trim s.toList
  let h := (stripPrefix ['0', 'x'] h).getD h
  match hexDecode h with
  | none => none
  | some v => if hlen : v.length = n then some ⟨v, hlen⟩ else none

theorem hex0x_not_whiteSpace {bytes : List UInt8} {c : Char}
    (h : c ∈ (hex0x bytes).toList) : isWhiteSpace c = false := by
  rw [hex0x, String.toList_ofList] at h
  simp only [List.mem_cons] at h
  rcases h with rfl | rfl | h
  · decide
  · decide
  · obtain ⟨n, hn, rfl⟩ := hexDigit_mem h
    exact hexDigit_not_whiteSpace n hn

/-- What `hex0x` writes, `parse_hex` reads back. -/
theorem parseHex_hex0x {n : Nat} (a : FixedBytes n) :
    parseHex n (hex0x a.toBytes) = some a := by
  have htrim : trim (hex0x a.toBytes).toList = (hex0x a.toBytes).toList :=
    trim_of_no_whiteSpace fun _ => hex0x_not_whiteSpace
  have hstrip : stripPrefix ['0', 'x'] (hex0x a.toBytes).toList = some (hexChars a.toBytes) := by
    rw [hex0x, String.toList_ofList]
    exact stripPrefix_append ['0', 'x'] (hexChars a.toBytes)
  unfold parseHex
  simp only [htrim, hstrip, Option.getD_some, hexDecode_hexChars]
  rw [dif_pos a.toBytes_length]
  rfl

end Federated
end ComputePool
