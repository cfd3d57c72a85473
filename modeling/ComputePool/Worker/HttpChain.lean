import ComputePool.Lib.Polling
import ComputePool.PoolCoordinator.HttpChain
import ComputePool.Worker.PipelineChain

/-!
# The worker's clients over HTTP

The writes of `http_chain_training.rs` and `http_chain_pipeline.rs` as programs
over the wire.  The two files and the coordinator's `http_chain.rs` are kept
structurally similar: the quantities, the words of the ABI, the reading of a reply
and of a receipt are the same code three times, and are taken from the
coordinator's adapter.  The two clients differ in their gas limit and in their
writes.
-/

namespace ComputePool
namespace Worker
namespace HttpChain

open RustStd Federated Interaction
open PoolCoordinator (H256 ChainError Eip1559Tx RpcReply rpcResult receiptBlock receiptMethod
  parseHexU64 parseHexU256 u256Word u256Max padAddressLeft addressFromSlice
  txHashOfSigned DEFAULT_PRIORITY_FEE_WEI RECEIPT_WAIT_TIMEOUT RECEIPT_POLL_INITIAL
  RECEIPT_POLL_MAX)

/-- `ChainError` and `PipelineChainError` as the clients return them, one
constructor for each text. -/
inductive ClientError where
  /-- the texts the coordinator's adapter has too -/
  | node (e : ChainError)
  /-- `sign: {e}` -/
  | sign (cause : String)
  /-- `UnknownRequest` -/
  | unknownRequest (request : Nat)
  /-- `requests return too short: {n} bytes (expected 160)` -/
  | tooShort (len : Nat)
  /-- `jobId out of u64 range: {v}` -/
  | jobIdRange (v : Nat)
  /-- `u32 value out of range: {v}` -/
  | u32Range (v : Nat)
  /-- `unknown RequestState discriminant: {b}` -/
  | unknownState (discriminant : UInt8)

/-! ## The node -/

inductive NodeCall where
  /-- POST of a JSON-RPC request -/
  | rpc (method : String) (params : Json)
  | sleep (nanos : Nat)

abbrev Node : Signature where
  Call := NodeCall
  Answer
    | .rpc _ _ => RpcReply
    | .sleep _ => Unit
  cost
    | .sleep nanos => nanos
    | .rpc _ _ => 0

/-- A program of a client. -/
abbrev Client (α : Type) := Fallible Node (Stop ClientError) α

/-- `?` on a step that reads what the node said. -/
def ofResult {α : Type} (r : Except ChainError α) : Client α :=
  .ofExcept (r.mapError fun e => .err (.node e))

def rpc (method : String) (params : Json) : Client Json := do
  let reply ← Fallible.ask (I := Node) (.rpc method params)
  ofResult (rpcResult method reply)

/-- `Wallet`: an address, and the signed bytes of a transaction. -/
structure Wallet where
  address : H160
  signEip1559 : Eip1559Tx → Except String (List UInt8)

/-- `HttpChainClient` and `HttpPipelineChainClient`. -/
structure HttpClient where
  hashes : Hashes
  chainId : Nat
  contractAddr : H160
  wallet : Wallet

/-- `WRITE_GAS_LIMIT` of the training client. -/
def TRAINING_GAS_LIMIT : Nat := 3000000

/-- `WRITE_GAS_LIMIT` of the pipeline client. -/
def PIPELINE_GAS_LIMIT : Nat := 500000

/-- One round of the receipt loop: nothing if the node has no receipt yet. -/
def receiptAttempt (txHash : H256) : Client (Option (Option Nat)) := do
  let result ← rpc receiptMethod (.array [.string (hex0x txHash.toBytes)])
  if result.isNull then pure none
  else
    let block ← ofResult (receiptBlock txHash result)
    pure (some block)

def pause (delay : Nat) : Client Unit := Fallible.ask (I := Node) (.sleep delay)

/-- `wait_for_receipt`.  When its time is up it warns and returns no block. -/
def waitForReceipt (txHash : H256) : Client (Option Nat) := do
  let instant ← Fallible.now
  let found ← Fallible.poll (receiptAttempt txHash) pause (instant + RECEIPT_WAIT_TIMEOUT)
    RECEIPT_POLL_MAX RECEIPT_WAIT_TIMEOUT RECEIPT_POLL_INITIAL
  pure found.join

namespace HttpClient

variable (c : HttpClient)

def ethCall (data : List UInt8) : Client (List UInt8) := do
  let call := Json.object
    [("to", .string (hex0x c.contractAddr.toBytes)), ("data", .string (hex0x data))]
  let result ← rpc "eth_call" (.array [call, .string "latest"])
  let text ← ofResult (okOr result.asStr (.notString "eth_call result"))
  ofResult (okOr (hexDecode (trimStart0x text.toList)) .badHex)

def fetchNonce : Client Nat := do
  let addr := hex0x c.wallet.address.toBytes
  let result ← rpc "eth_getTransactionCount" (.array [.string addr, .string "pending"])
  let text ← ofResult (okOr result.asStr (.notString "eth_getTransactionCount"))
  ofResult ((parseHexU64 text).mapError (.quantity "nonce"))

/-- `fetch_gas_price` reads nothing of the client but its endpoint. -/
def fetchGasPrice : Client Nat := do
  let result ← rpc "eth_gasPrice" (.array [])
  let text ← ofResult (okOr result.asStr (.notString "eth_gasPrice"))
  ofResult ((parseHexU256 text).mapError (.quantity "gas price"))

/-- The transaction of a write. -/
def writeTx (gasLimit : Nat) (calldata : List UInt8) (value nonce gasPrice : Nat) :
    Eip1559Tx where
  chainId := c.chainId
  nonce := nonce
  maxPriorityFeePerGas := DEFAULT_PRIORITY_FEE_WEI
  maxFeePerGas := min (min (gasPrice * 2) u256Max + DEFAULT_PRIORITY_FEE_WEI) u256Max
  gasLimit := gasLimit
  to_ := c.contractAddr
  value := value
  data := calldata

/-- `send_write` of both clients. -/
def sendWrite (gasLimit : Nat) (calldata : List UInt8) (value : Nat) : Client H256 := do
  let nonce ← c.fetchNonce
  let gasPrice ← fetchGasPrice
  let signed ← Fallible.ofExcept
    ((c.wallet.signEip1559 (c.writeTx gasLimit calldata value nonce gasPrice)).mapError
      fun cause => .err (.sign cause))
  let txHash := txHashOfSigned c.hashes signed
  let _ ← rpc "eth_sendRawTransaction" (.array [.string (hex0x signed)])
  let _ ← waitForReceipt txHash
  pure txHash

/-! ## The writes of the training client -/

def joinData (jobId : Nat) : List UInt8 :=
  PoolCoordinator.selector c.hashes "joinTrainingJob(uint256)" ++ u256Word jobId

def joinTrainingJob (jobId : Nat) (_sender : H160) (stake : Nat) : Client Unit := do
  let _ ← c.sendWrite TRAINING_GAS_LIMIT (c.joinData jobId) stake
  pure ()

def closeRecruitmentData (jobId : Nat) (coordinator : H160) : List UInt8 :=
  PoolCoordinator.selector c.hashes "closeRecruitment(uint256,address)" ++ u256Word jobId ++
    padAddressLeft coordinator

def closeRecruitment (jobId : Nat) (coordinator : H160) : Client Unit := do
  let _ ← c.sendWrite TRAINING_GAS_LIMIT (c.closeRecruitmentData jobId coordinator) 0
  pure ()

def commitEpochData (jobId epoch : Nat) (root : B32) : List UInt8 :=
  PoolCoordinator.selector c.hashes "commitEpoch(uint256,uint32,bytes32)" ++ u256Word jobId ++ u256Word epoch ++
    root.toBytes

def commitEpoch (jobId : Nat) (_sender : H160) (epoch : Nat) (root : B32) : Client Unit := do
  let _ ← c.sendWrite TRAINING_GAS_LIMIT (c.commitEpochData jobId epoch root) 0
  pure ()

def finalizeData (jobId : Nat) : List UInt8 :=
  PoolCoordinator.selector c.hashes "finalizeTrainingJob(uint256)" ++ u256Word jobId

def finalize (jobId : Nat) : Client Unit := do
  let _ ← c.sendWrite TRAINING_GAS_LIMIT (c.finalizeData jobId) 0
  pure ()

def reassignCoordinatorData (jobId : Nat) (newCoordinator : H160) : List UInt8 :=
  PoolCoordinator.selector c.hashes "reassignCoordinator(uint256,address)" ++ u256Word jobId ++
    padAddressLeft newCoordinator

def reassignCoordinator (jobId : Nat) (_caller newCoordinator : H160) : Client Unit := do
  let _ ← c.sendWrite TRAINING_GAS_LIMIT (c.reassignCoordinatorData jobId newCoordinator) 0
  pure ()

def expireStalledTrainingData (jobId : Nat) : List UInt8 :=
  PoolCoordinator.selector c.hashes "expireStalledTraining(uint256)" ++ u256Word jobId

def expireStalledTraining (jobId : Nat) (_caller : H160) : Client Unit := do
  let _ ← c.sendWrite TRAINING_GAS_LIMIT (c.expireStalledTrainingData jobId) 0
  pure ()

end HttpClient

/-! ## The write of the pipeline client -/

/-- `PipelineRequestSnapshot`. -/
structure PipelineRequestSnapshot where
  requestId : Nat
  jobId : Nat
  requester : H160
  progress : Nat
  state : PipelineChain.RequestState

/-- `u32_from_word`, of a word that is 32 bytes long. -/
def u32FromWord (word : List UInt8) : Except ClientError Nat :=
  if beNat word > u32Max then .error (.u32Range (beNat word)) else .ok (beNat word)

def requestStateFromByte (b : UInt8) : Except ClientError PipelineChain.RequestState :=
  if b = 0 ∨ b = 1 then .ok .inFlight
  else if b = 2 then .ok .completed
  else if b = 3 then .ok .failed
  else .error (.unknownState b)

/-- `H160::from_slice`. -/
def requesterOf (tail : List UInt8) : Checked ClientError H160 :=
  (addressFromSlice tail).mapError fun _ => .panic

/-- The return of the getter `requests(uint256)`: five words, of which the last is
not read. -/
def decodeRequest (requestId : Nat) (ret : List UInt8) :
    Checked ClientError PipelineRequestSnapshot :=
  if ret.length < 160 then .error (.err (.tooShort ret.length))
  else do
    let jobWord ← slice ret 0 32
    let requesterTail ← slice ret 44 64
    let requester ← requesterOf requesterTail
    if requester = FixedBytes.zero ∧ beNat jobWord = 0 then
      .error (.err (.unknownRequest requestId))
    else if beNat jobWord > u64Max then .error (.err (.jobIdRange (beNat jobWord)))
    else do
      let progressWord ← slice ret 64 96
      let progress ← checked (u32FromWord progressWord)
      let stateByte ← slice ret 127 128
      let state ← checked (requestStateFromByte (stateByte.headD 0))
      .ok ⟨requestId, beNat jobWord, requester, progress, state⟩

namespace HttpClient

variable (c : HttpClient)

def requestSnapshot (requestId : Nat) : Client PipelineRequestSnapshot := do
  let ret ← c.ethCall (PoolCoordinator.selector c.hashes "requests(uint256)" ++ u256Word requestId)
  Fallible.ofExcept (decodeRequest requestId ret)

def advanceRequestData (requestId : Nat) : List UInt8 :=
  PoolCoordinator.selector c.hashes "advanceRequest(uint256)" ++ u256Word requestId

def advanceRequest (requestId : Nat) (_caller : H160) : Client PipelineChain.RequestState := do
  let _ ← c.sendWrite PIPELINE_GAS_LIMIT (c.advanceRequestData requestId) 0
  let snap ← c.requestSnapshot requestId
  pure snap.state

end HttpClient

/-! ## All writes -/

/-- A write with its arguments; those a client ignores are the last. -/
inductive Write where
  | join (jobId stake : Nat) (sender : H160)
  | closeRecruitment (jobId : Nat) (coordinator : H160)
  | commitEpoch (jobId epoch : Nat) (root : B32) (sender : H160)
  | finalize (jobId : Nat)
  | reassign (jobId : Nat) (newCoordinator caller : H160)
  | expire (jobId : Nat) (caller : H160)
  | advanceRequest (requestId : Nat) (caller : H160)

namespace Write

/-- What a write returns in `Ok`. -/
def Answer : Write → Type
  | .advanceRequest _ _ => PipelineChain.RequestState
  | _ => Unit

def program (c : HttpClient) : (w : Write) → Client w.Answer
  | .join jobId stake sender => c.joinTrainingJob jobId sender stake
  | .closeRecruitment jobId coordinator => c.closeRecruitment jobId coordinator
  | .commitEpoch jobId epoch root sender => c.commitEpoch jobId sender epoch root
  | .finalize jobId => c.finalize jobId
  | .reassign jobId newCoordinator caller => c.reassignCoordinator jobId caller newCoordinator
  | .expire jobId caller => c.expireStalledTraining jobId caller
  | .advanceRequest requestId caller => c.advanceRequest requestId caller

/-- The transaction a write asks to be signed, for a nonce and a gas price. -/
def tx (c : HttpClient) : Write → Nat → Nat → Eip1559Tx
  | .join jobId stake _ => c.writeTx TRAINING_GAS_LIMIT (c.joinData jobId) stake
  | .closeRecruitment jobId coordinator =>
      c.writeTx TRAINING_GAS_LIMIT (c.closeRecruitmentData jobId coordinator) 0
  | .commitEpoch jobId epoch root _ =>
      c.writeTx TRAINING_GAS_LIMIT (c.commitEpochData jobId epoch root) 0
  | .finalize jobId => c.writeTx TRAINING_GAS_LIMIT (c.finalizeData jobId) 0
  | .reassign jobId newCoordinator _ =>
      c.writeTx TRAINING_GAS_LIMIT (c.reassignCoordinatorData jobId newCoordinator) 0
  | .expire jobId _ => c.writeTx TRAINING_GAS_LIMIT (c.expireStalledTrainingData jobId) 0
  | .advanceRequest requestId _ => c.writeTx PIPELINE_GAS_LIMIT (c.advanceRequestData requestId) 0

end Write

/-- The outcome of a write begun after the exchanges `h`, and the exchanges it
adds. -/
def performed (c : HttpClient) (env : Env Node) (h : History Node) (w : Write) :
    Except (Stop ClientError) w.Answer × History Node :=
  (w.program c).run env h

end HttpChain
end Worker
end ComputePool
