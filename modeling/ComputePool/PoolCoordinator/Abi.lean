import ComputePool.Federated.Basic
import ComputePool.Rust.Integer
import ComputePool.Rust.Json
import ComputePool.Rust.Result

/-!
# Contract calls on the wire

The numbers and words of the JSON-RPC replies and of the ABI, as the helpers at
the end of `http_chain.rs` read and write them.  A `U256` is a natural number
below `2 ^ 256`, and `usize` has 64 bits.
-/

namespace ComputePool
namespace PoolCoordinator

open RustStd Federated

/-- A 32-byte hash, `ethereum_types::H256`. -/
abbrev H256 := B32

def u256Max : Nat := 2 ^ 256 - 1

/-- `std::num::ParseIntError`. -/
inductive ParseIntError where
  | invalidDigit
  | posOverflow
  | empty
  deriving DecidableEq

/-- Why a hexadecimal quantity was not read. -/
inductive HexError where
  | parseInt (e : ParseIntError)
  | u256
  deriving DecidableEq

/-- `CoordinatorError::Chain`; each constructor is one message of the source, with
the values it prints. -/
inductive ChainError where
  /-- `{method} transport: {e}` -/
  | transport (method cause : String)
  /-- `{method} decode: {e}` -/
  | decode (method cause : String)
  /-- `{method} rpc error: {err}` -/
  | rpc (method : String) (err : Json)
  /-- `{method} missing result` -/
  | missingResult (method : String)
  /-- `eth_call result not a string`, `eth_getTransactionCount not a string`,
  `eth_gasPrice not a string` -/
  | notString (what : String)
  /-- `eth_call bad hex: {e}` -/
  | badHex
  /-- `nonce decode: {e}`, `gas price decode: {e}` -/
  | quantity (what : String) (e : HexError)
  /-- `coordinatorFor return too short: {n} bytes`, and the same for `address[]`
  and `PoolMember` -/
  | tooShort (what : String) (len : Nat)
  /-- `length/offset word {v} exceeds usize::MAX (hostile/garbled RPC word)` -/
  | usizeRange (v : Nat)
  /-- `address[] length {len} overflows buffer arithmetic` -/
  | addressOverflow (len : Nat)
  /-- `address[] truncated: len={len} need {expected} bytes have {have}` -/
  | addressTruncated (len expected have_ : Nat)
  /-- `tx {hash} reverted` -/
  | reverted (txHash : H256)

/-! ## Quantities -/

/-- The digit loop of `from_str_radix(_, 16)` for an unsigned type with `bound`
values. -/
def parseHexDigits (bound : Nat) : Nat → List Char → Except ParseIntError Nat
  | acc, [] => .ok acc
  | acc, c :: rest =>
      match hexValue c with
      | none => .error .invalidDigit
      | some digit =>
          if acc * 16 + digit < bound then parseHexDigits bound (acc * 16 + digit) rest
          else .error .posOverflow

/-- `u64::from_str_radix(_, 16)`: a leading plus sign is allowed. -/
def u64FromHex : List Char → Except ParseIntError Nat
  | [] => .error .empty
  | ['+'] => .error .invalidDigit
  | '+' :: digits => parseHexDigits (2 ^ 64) 0 digits
  | digits => parseHexDigits (2 ^ 64) 0 digits

def parseHexU64 (s : String) : Except HexError Nat :=
  let trimmed := trimStart0x s.toList
  if trimmed.isEmpty then .ok 0
  else
    match u64FromHex trimmed with
    | .ok n => .ok n
    | .error e => .error (.parseInt e)

/-- `U256::from_str_radix(_, 16)`: at most 64 digits and nothing else. -/
def u256FromHex (digits : List Char) : Option Nat :=
  if digits.length ≤ 64 then (parseHexDigits (2 ^ 256) 0 digits).toOption else none

def parseHexU256 (s : String) : Except HexError Nat :=
  let trimmed := trimStart0x s.toList
  if trimmed.isEmpty then .ok 0
  else
    match u256FromHex trimmed with
    | some n => .ok n
    | none => .error .u256

/-! ## Words -/

def u256Word (v : Nat) : List UInt8 := toBE 32 v

def padAddressLeft (addr : H160) : List UInt8 := List.replicate 12 0 ++ addr.toBytes

/-- `H160::from_slice`, which panics on any other length. -/
def addressFromSlice (bytes : List UInt8) : Checked ChainError H160 :=
  if h : bytes.length = 20 then .ok ⟨bytes, h⟩ else .error .panic

def u256ToUsize (v : Nat) : Checked ChainError Nat :=
  if v > u64Max then .error (.err (.usizeRange v)) else .ok v

/-- `len.checked_mul(32).and_then(|n| n.checked_add(64))`. -/
def addressArrayBytes (len : Nat) : Option Nat :=
  if len * 32 > u64Max then none
  else if len * 32 + 64 > u64Max then none
  else some (len * 32 + 64)

/-- The address in the `i`-th word of an `address[]` return. -/
def addressWord (bytes : List UInt8) (i : Nat) : Checked ChainError H160 := do
  let start := 64 + i * 32
  let word ← slice bytes start (start + 32)
  let tail ← slice word 12 32
  addressFromSlice tail

def decodeAddressArray (bytes : List UInt8) : Checked ChainError (List H160) := do
  if bytes.length < 64 then .error (.err (.tooShort "address[]" bytes.length))
  let lenWord ← slice bytes 32 64
  let len ← u256ToUsize (beNat lenWord)
  let expected ← checked (okOr (addressArrayBytes len) (.addressOverflow len))
  if bytes.length < expected then
    .error (.err (.addressTruncated len expected bytes.length))
  (List.range len).mapM (addressWord bytes)

/-- `gpuCount`, clamped to a `u32`, and `active`. -/
def decodeMemberStruct (bytes : List UInt8) : Checked ChainError (Nat × Bool) := do
  if bytes.length < 160 then .error (.err (.tooShort "PoolMember" bytes.length))
  let gpuWord ← slice bytes 0 32
  let activeByte ← slice bytes 159 160
  .ok (min (beNat gpuWord) u32Max, activeByte != [0])

end PoolCoordinator
end ComputePool
