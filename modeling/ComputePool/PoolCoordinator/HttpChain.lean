import ComputePool.Lib.Polling
import ComputePool.PoolCoordinator.Abi

/-!
# The chain over HTTP

`HttpChainAdapter` of `http_chain.rs` as programs over the wire: a JSON-RPC
request, a sleep between two polls, and the POST to a provider are the calls.
The wallet is a parameter: whatever bytes it signs, those are sent and hashed.
Times are in nanoseconds.
-/

namespace ComputePool
namespace PoolCoordinator

open RustStd Federated Interaction

/-- `CoordinatorError::ProviderFailed`, one constructor for each message. -/
inductive ProviderError where
  /-- `transport: {e}` -/
  | transport (cause : String)
  /-- `HTTP {status} from {endpoint}` -/
  | http (status : Nat) (endpoint : String)
  /-- `decode: {e}` -/
  | decode (cause : String)
  /-- `provider returned empty output (refusing to complete unperformed work)` -/
  | emptyOutput

/-- `CoordinatorError::RejectedEvent`, with the values its message prints. -/
inductive Rejection where
  /-- `job {job} payment_grains {payment} below floor {floor}` -/
  | payment (job payment floor : Nat)
  /-- `job {job} prompt {len} bytes exceeds cap {cap}` -/
  | prompt (job len cap : Nat)
  /-- `job {job} max_tokens {tokens} exceeds cap {cap}` -/
  | maxTokens (job tokens cap : Nat)

inductive CoordinatorError where
  | notCoordinator
  | chain (e : ChainError)
  | providerFailed (e : ProviderError)
  | noMembers (pool : Nat)
  | unknownMemberEndpoint (member : H160)
  | rejectedEvent (e : Rejection)
  | internal (cause : String)

/-- The request body the coordinator POSTs to a pool member. -/
structure PoolInferRequest where
  model : String
  prompt : String
  maxTokens : Nat
  jobId : Nat
  deriving DecidableEq

structure PoolInferResponse where
  output : String
  inputTokens : Option Nat
  outputTokens : Option Nat

/-! ## The wire -/

inductive WireCall where
  /-- POST of a JSON-RPC request to the node -/
  | rpc (method : String) (params : Json)
  | sleep (nanos : Nat)
  /-- building a client that does not follow redirects -/
  | buildClient
  /-- POST of a prompt to a provider -/
  | post (endpoint : String) (body : PoolInferRequest) (timeoutSecs : Nat)

/-- What comes back for a JSON-RPC request. -/
inductive RpcReply where
  | transport (cause : String)
  | notJson (cause : String)
  | value (v : Json)

/-- What comes back from a provider: its status, and its body decoded. -/
inductive PostReply where
  | transport (cause : String)
  | response (status : Nat) (body : Except String PoolInferResponse)

abbrev Wire : Signature where
  Call := WireCall
  Answer
    | .rpc _ _ => RpcReply
    | .sleep _ => Unit
    | .buildClient => Except String Unit
    | .post _ _ _ => PostReply
  cost
    | .sleep nanos => nanos
    | _ => 0

/-- A program of the adapter. -/
abbrev Chain (α : Type) := Fallible Wire (Stop CoordinatorError) α

/-- `return Err(CoordinatorError::Chain(..))`. -/
def chainError (e : ChainError) : Stop CoordinatorError := .err (.chain e)

/-- `?` on a helper of the ABI. -/
def ofChecked {α : Type} (r : Checked ChainError α) : Chain α :=
  .ofExcept (r.mapError fun
    | .panic => .panic
    | .err e => chainError e)

/-- `?` on a helper that cannot panic. -/
def ofResult {α : Type} (r : Except ChainError α) : Chain α := .ofExcept (r.mapError chainError)

/-- The `result` field of a reply. -/
def rpcResult (method : String) : RpcReply → Except ChainError Json
  | .transport cause => .error (.transport method cause)
  | .notJson cause => .error (.decode method cause)
  | .value v =>
      match (v.get "error").filter fun e => !e.isNull with
      | some e => .error (.rpc method e)
      | none => okOr (v.get "result") (.missingResult method)

def rpc (method : String) (params : Json) : Chain Json := do
  let reply ← Fallible.ask (I := Wire) (.rpc method params)
  ofResult (rpcResult method reply)

/-! ## The wallet -/

/-- An EIP-1559 transaction. -/
structure Eip1559Tx where
  chainId : Nat
  nonce : Nat
  maxPriorityFeePerGas : Nat
  maxFeePerGas : Nat
  gasLimit : Nat
  to_ : H160
  value : Nat
  data : List UInt8

/-- `Wallet`: an address, and the signed bytes of a transaction. -/
structure Wallet where
  address : H160
  signEip1559 : Eip1559Tx → Except CoordinatorError (List UInt8)

def txHashOfSigned (H : Hashes) (signed : List UInt8) : H256 := keccak H [signed]

/-! ## The adapter -/

def WRITE_GAS_LIMIT : Nat := 200000

def DEFAULT_PRIORITY_FEE_WEI : Nat := 1000000000

/-- 30 s -/
def RECEIPT_WAIT_TIMEOUT : Nat := 30000000000

/-- 250 ms -/
def RECEIPT_POLL_INITIAL : Nat := 250000000

/-- 500 ms -/
def RECEIPT_POLL_MAX : Nat := 500000000

structure HttpChainAdapter where
  hashes : Hashes
  chainId : Nat
  poolContract : H160
  wallet : Wallet

/-- The first four bytes of the hash of a signature. -/
def selector (H : Hashes) (sig : String) : List UInt8 :=
  (keccak H [sig.toUTF8.toList]).toBytes.take 4

/-- `PoolMemberInfo`. -/
structure PoolMemberInfo where
  address : H160
  gpuCount : Nat
  active : Bool

/-- `RecordDispatchOutcome::Confirmed`. -/
structure Confirmed where
  txHash : H256
  blockNumber : Nat

/-- What a non-null receipt says: its block number, unless its status is zero. -/
def receiptBlock (txHash : H256) (receipt : Json) : Except ChainError (Option Nat) :=
  let status := ((receipt.get "status").bind Json.asStr).getD "0x1"
  if (parseHexU64 status).toOption.getD 1 = 0 then .error (.reverted txHash)
  else .ok (((receipt.get "blockNumber").bind Json.asStr).bind fun s => (parseHexU64 s).toOption)

/-- The status of a receipt: a string that reads as a number. -/
def statusOf (receipt : Json) : Option Nat :=
  ((receipt.get "status").bind Json.asStr).bind fun s => (parseHexU64 s).toOption

theorem statusOf_of_receiptBlock_ok {txHash : H256} {receipt : Json} {block : Option Nat}
    (h : receiptBlock txHash receipt = .ok block) : statusOf receipt ≠ some 0 := by
  intro hzero
  obtain ⟨s, hs, hparse⟩ := Option.bind_eq_some_iff.mp hzero
  rw [receiptBlock, hs] at h
  simp [hparse] at h

theorem statusOf_of_receiptBlock_error {txHash : H256} {receipt : Json} {e : ChainError}
    (h : receiptBlock txHash receipt = .error e) : statusOf receipt = some 0 := by
  -- a missing or unreadable status counts as one
  have hdefault : (parseHexU64 "0x1").toOption.getD 1 ≠ 0 := by decide
  unfold receiptBlock at h
  unfold statusOf
  cases hstatus : (receipt.get "status").bind Json.asStr with
  | none =>
      rw [hstatus, Option.getD_none, if_neg hdefault] at h
      cases h
  | some s =>
      rw [hstatus, Option.getD_some] at h
      cases hparse : parseHexU64 s with
      | error _ => simp [hparse, Except.toOption] at h
      | ok n =>
          by_cases hn : n = 0
          · simp [hn, hparse, Except.toOption]
          · simp [hn, hparse, Except.toOption] at h

/-- The method whose reply is a receipt. -/
def receiptMethod : String := "eth_getTransactionReceipt"

/-- One round of the poll: what a receipt says, if there is one. -/
def receiptAttempt (txHash : H256) : Chain (Option (Option Nat)) := do
  let result ← rpc receiptMethod (.array [.string (hex0x txHash.toBytes)])
  if result.isNull then pure none
  else
    let block ← ofResult (receiptBlock txHash result)
    pure (some block)

/-- `tokio::time::sleep` -/
def pause (delay : Nat) : Chain Unit := Fallible.ask (I := Wire) (.sleep delay)

namespace HttpChainAdapter

variable (a : HttpChainAdapter)

def ethCall (data : List UInt8) : Chain (List UInt8) := do
  let call := Json.object
    [("to", .string (hex0x a.poolContract.toBytes)), ("data", .string (hex0x data))]
  let result ← rpc "eth_call" (.array [call, .string "latest"])
  let text ← ofResult (okOr result.asStr (.notString "eth_call result"))
  ofResult (okOr (hexDecode (trimStart0x text.toList)) .badHex)

def fetchNonce : Chain Nat := do
  let addr := hex0x a.wallet.address.toBytes
  let result ← rpc "eth_getTransactionCount" (.array [.string addr, .string "pending"])
  let text ← ofResult (okOr result.asStr (.notString "eth_getTransactionCount"))
  ofResult ((parseHexU64 text).mapError (.quantity "nonce"))

/-- `fetch_gas_price` reads nothing of the adapter but its endpoint. -/
def fetchGasPrice : Chain Nat := do
  let result ← rpc "eth_gasPrice" (.array [])
  let text ← ofResult (okOr result.asStr (.notString "eth_gasPrice"))
  ofResult ((parseHexU256 text).mapError (.quantity "gas price"))

/-- When the time is up there is no block. -/
def waitForReceipt (txHash : H256) : Chain (Option Nat) := do
  let instant ← Fallible.now
  let found ← Fallible.poll (receiptAttempt txHash) pause (instant + RECEIPT_WAIT_TIMEOUT)
    RECEIPT_POLL_MAX RECEIPT_WAIT_TIMEOUT RECEIPT_POLL_INITIAL
  pure found.join

/-- The transaction of a write. -/
def writeTx (calldata : List UInt8) (nonce gasPrice : Nat) : Eip1559Tx where
  chainId := a.chainId
  nonce := nonce
  maxPriorityFeePerGas := DEFAULT_PRIORITY_FEE_WEI
  maxFeePerGas := min (min (gasPrice * 2) u256Max + DEFAULT_PRIORITY_FEE_WEI) u256Max
  gasLimit := WRITE_GAS_LIMIT
  to_ := a.poolContract
  value := 0
  data := calldata

def sendWrite (calldata : List UInt8) : Chain (H256 × Option Nat) := do
  let nonce ← a.fetchNonce
  let gasPrice ← fetchGasPrice
  let signed ← .ofExcept ((a.wallet.signEip1559 (a.writeTx calldata nonce gasPrice)).mapError
    Stop.err)
  let txHash := txHashOfSigned a.hashes signed
  let _ ← rpc "eth_sendRawTransaction" (.array [.string (hex0x signed)])
  let blockNumber ← waitForReceipt txHash
  pure (txHash, blockNumber)

def coordinatorFor (poolId epoch : Nat) : Chain H160 := do
  let data := selector a.hashes "coordinatorFor(uint256,uint256)" ++ u256Word poolId ++
    u256Word epoch
  let ret ← a.ethCall data
  if ret.length < 32 then .fail (chainError (.tooShort "coordinatorFor" ret.length))
  else
    ofChecked do
      let tail ← slice ret 12 32
      addressFromSlice tail

/-- The `getMember` read of one address. -/
def poolMember (poolId : Nat) (addr : H160) : Chain PoolMemberInfo := do
  let call := selector a.hashes "getMember(uint256,address)" ++ u256Word poolId ++
    padAddressLeft addr
  let ret ← a.ethCall call
  let (gpuCount, active) ← ofChecked (decodeMemberStruct ret)
  pure ⟨addr, gpuCount, active⟩

def poolMembers (poolId : Nat) : Chain (List PoolMemberInfo) := do
  let data := selector a.hashes "getPoolMembers(uint256)" ++ u256Word poolId
  let ret ← a.ethCall data
  let addrs ← ofChecked (decodeAddressArray ret)
  addrs.foldr (fun addr rest => do
    let first ← a.poolMember poolId addr
    let others ← rest
    pure (first :: others)) (pure [])

/-- The calldata of one of the three writes. -/
def writeData (sig : String) (jobId : Nat) : List UInt8 :=
  selector a.hashes sig ++ u256Word jobId

def recordDispatchData (jobId : Nat) : List UInt8 := a.writeData "recordDispatch(uint256)" jobId

def recordDispatch (jobId : Nat) (_member : H160) : Chain Confirmed := do
  let (txHash, blockNumber) ← a.sendWrite (a.recordDispatchData jobId)
  pure ⟨txHash, blockNumber.getD 0⟩

def completeJob (jobId : Nat) : Chain H256 := do
  let (txHash, _) ← a.sendWrite (a.writeData "completeJob(uint256)" jobId)
  pure txHash

def failJob (jobId : Nat) : Chain H256 := do
  let (txHash, _) ← a.sendWrite (a.writeData "failJob(uint256)" jobId)
  pure txHash

end HttpChainAdapter
end PoolCoordinator
end ComputePool
