import ComputePool.Lib.Machine
import ComputePool.PoolCoordinator.HandleEvent

/-!
# The event loop

The loop of `main.rs`: each tick reads the latest block, polls the logs of a range
that reaches back behind the last tick, and dispatches every event whose
`(tx_hash, log_index)` is not remembered.  What the node answers in a tick is an
input of it; nothing relates the answers of two ticks.
-/

namespace ComputePool
namespace PoolCoordinator

open RustStd Federated

/-! ## Logs -/

/-- `CoordinatorError::Chain` for a log or a job that does not decode, one
constructor for each message. -/
inductive EventError where
  /-- the messages every read of the adapter has -/
  | node (e : ChainError)
  /-- `eth_getLogs not array` -/
  | notArray
  /-- `log missing topics`, `log missing address`, `log missing data` -/
  | missing (field : String)
  /-- `log has {n} topics, expected 4` -/
  | topicCount (n : Nat)
  /-- `topic0 not a string` -/
  | topic0
  /-- `log topic0 {topic0} is not ComputeRequested ({sig})` -/
  | signature (topic0 sig : String)
  /-- `log address hex: {e}`, `log data hex: {e}`, `topic hex: {e}`, `address topic hex: {e}` -/
  | badHex (what : String)
  /-- `log emitted by {address}, expected pool contract {contract}` -/
  | emitter (address : String) (contract : H160)
  /-- `topic missing` -/
  | topicMissing
  /-- `topic has {n} hex chars, expected 64`, `address topic has {n} hex chars, expected 64` -/
  | topicLength (what : String) (n : Nat)
  /-- `value {v} exceeds u64::MAX (hostile/garbled RPC word)` -/
  | u64Range (v : Nat)
  /-- `log data too short: {n}` -/
  | dataShort (n : Nat)
  /-- `log missing/malformed transactionHash`, and so for `logIndex` and `blockNumber` -/
  | malformed (field : String)

/-- `selector_full`: the whole hash of a signature. -/
def selectorFull (H : Hashes) (sig : String) : H256 := keccak H [sig.toUTF8.toList]

def eventSigHex (H : Hashes) : String :=
  hex0x (selectorFull H "ComputeRequested(uint256,uint256,address,uint256)").toBytes

/-- `str::eq_ignore_ascii_case`. -/
def eqIgnoreAsciiCase (s t : String) : Bool :=
  s.toList.map Char.toLower == t.toList.map Char.toLower

/-- The bytes of a topic. -/
def topicBytes (what : String) (topic : Option String) : Except EventError (List UInt8) := do
  let s ← okOr topic .topicMissing
  let stripped := trimStart0x s.toList
  let width := (String.ofList stripped).utf8ByteSize
  if width ≠ 64 then .error (.topicLength what width)
  else okOr (hexDecode stripped) (.badHex what)

def topicAsU64 (topic : Option String) : Except EventError Nat := do
  let bytes ← topicBytes "topic" topic
  if beNat bytes > u64Max then .error (.u64Range (beNat bytes)) else .ok (beNat bytes)

/-- The last twenty of the 32 bytes of an address topic. -/
def topicAsAddress (topic : Option String) : Except EventError H160 := do
  let bytes ← topicBytes "address topic" topic
  .ok (FixedBytes.ofNat (beNat (bytes.drop 12)))

/-- A log of `ComputeRequested`, before its index is cut to 32 bits. -/
structure Log where
  poolId : Nat
  jobId : Nat
  requester : H160
  payment : Nat
  txHash : H256
  logIndex : Nat
  blockNumber : Nat

def decodeTxHash (entry : Json) : Option H256 :=
  ((entry.get "transactionHash").bind Json.asStr).bind fun s =>
    (hexDecode (trimStart0x s.toList)).bind fun bytes =>
      if h : bytes.length = 32 then some ⟨bytes, h⟩ else none

def decodeQuantity (field : String) (entry : Json) : Except EventError Nat :=
  okOr (((entry.get field).bind Json.asStr).bind fun s => (parseHexU64 s).toOption)
    (.malformed field)

/-- One turn of the loop of `poll_compute_requested`, up to the read of the job. -/
def decodeLog (a : HttpChainAdapter) (entry : Json) : Except EventError Log := do
  let topics ← okOr ((entry.get "topics").bind Json.asArray) (.missing "topics")
  if topics.length < 4 then .error (.topicCount topics.length)
  else
    let topic0 ← okOr (topics[0]?.bind Json.asStr) .topic0
    if !eqIgnoreAsciiCase topic0 (eventSigHex a.hashes) then
      .error (.signature topic0 (eventSigHex a.hashes))
    else
      let logAddress ← okOr ((entry.get "address").bind Json.asStr) (.missing "address")
      let addressBytes ← okOr (hexDecode (trimStart0x logAddress.toList)) (.badHex "log address")
      if addressBytes ≠ a.poolContract.toBytes then .error (.emitter logAddress a.poolContract)
      else
        let poolId ← topicAsU64 (topics[1]?.bind Json.asStr)
        let jobId ← topicAsU64 (topics[2]?.bind Json.asStr)
        let requester ← topicAsAddress (topics[3]?.bind Json.asStr)
        let text ← okOr ((entry.get "data").bind Json.asStr) (.missing "data")
        let data ← okOr (hexDecode (trimStart0x text.toList)) (.badHex "log data")
        if data.length < 32 then .error (.dataShort data.length)
        else
          let txHash ← okOr (decodeTxHash entry) (.malformed "transactionHash")
          let logIndex ← decodeQuantity "logIndex" entry
          let blockNumber ← decodeQuantity "blockNumber" entry
          .ok ⟨poolId, jobId, requester, beNat (data.take 32), txHash, logIndex, blockNumber⟩

/-! ## Jobs -/

/-- Why the spec of a job was not read. -/
inductive JobSpecError where
  | node (e : ChainError)
  /-- `PoolJob return too short: {n} bytes`, `PoolJobSpec too short: {n} bytes` -/
  | tooShort (what : String) (n : Nat)
  /-- `offset word at {pos} out of range (buf={n})` -/
  | offsetWord (pos n : Nat)
  /-- `length/offset word {v} exceeds usize::MAX (hostile/garbled RPC word)` -/
  | usizeRange (v : Nat)
  /-- `dynamic bytes offset {offset} overflow`, `dynamic bytes len {len} overflow` -/
  | overflow (v : Nat)
  /-- `dynamic bytes length word at {offset} out of range (buf={n})` -/
  | lengthWord (offset n : Nat)
  /-- `dynamic bytes data truncated: len={len} buf={n}` -/
  | truncated (len n : Nat)

def wordAt (buf : List UInt8) (pos : Nat) : Nat := beNat ((buf.drop pos).take 32)

def usizeWord (v : Nat) : Except JobSpecError Nat :=
  if v > u64Max then .error (.usizeRange v) else .ok v

/-- `decode_dynamic_bytes_at_offset`.  Every slice it takes is in range. -/
def decodeDynamicBytesAtOffset (buf : List UInt8) (pos : Nat) :
    Except JobSpecError (List UInt8) := do
  if buf.length < pos + 32 then .error (.offsetWord pos buf.length)
  else
    let offset ← usizeWord (wordAt buf pos)
    if offset + 32 > u64Max then .error (.overflow offset)
    else if buf.length < offset + 32 then .error (.lengthWord offset buf.length)
    else
      let len ← usizeWord (wordAt buf offset)
      if offset + 32 + len > u64Max then .error (.overflow len)
      else if buf.length < offset + 32 + len then .error (.truncated len buf.length)
      else .ok ((buf.drop (offset + 32)).take len)

def DEFAULT_MAX_TOKENS : Nat := 1000

/-- The decoding half of `fetch_job_spec`: the bytes of the prompt, and the token
limit. -/
def decodeJobSpec (ret : List UInt8) : Except JobSpecError (List UInt8 × Nat) := do
  if ret.length < 256 then .error (.tooShort "PoolJob return" ret.length)
  else
    let spec ← decodeDynamicBytesAtOffset ret 64
    if spec.isEmpty then .ok ([], DEFAULT_MAX_TOKENS)
    else if spec.length < 224 then .error (.tooShort "PoolJobSpec" spec.length)
    else
      let word := wordAt spec 128
      let maxTokens := if word > u32Max then u32Max else if word = 0 then DEFAULT_MAX_TOKENS
        else word
      let input ← decodeDynamicBytesAtOffset spec 96
      .ok (input, maxTokens)

/-- The reply to an `eth_call`, read to bytes. -/
def ethCallResult (reply : RpcReply) : Except ChainError (List UInt8) := do
  let result ← rpcResult "eth_call" reply
  let text ← okOr result.asStr (.notString "eth_call result")
  okOr (hexDecode (trimStart0x text.toList)) .badHex

def fetchJobSpec (reply : RpcReply) : Except JobSpecError (List UInt8 × Nat) := do
  let ret ← (ethCallResult reply).mapError .node
  decodeJobSpec ret

/-! ## Prompts -/

def isContinuation (b : UInt8) : Bool := 0x80 ≤ b && b ≤ 0xBF

/-- The bytes which may follow the first byte of a sequence. -/
def isSecond (first b : UInt8) : Bool :=
  if first = 0xE0 then 0xA0 ≤ b && b ≤ 0xBF
  else if first = 0xED then 0x80 ≤ b && b ≤ 0x9F
  else if first = 0xF0 then 0x90 ≤ b && b ≤ 0xBF
  else if first = 0xF4 then 0x80 ≤ b && b ≤ 0x8F
  else isContinuation b

/-- How many bytes a sequence with this first byte has; none starts with a byte of
width zero. -/
def utf8Width (first : UInt8) : Nat :=
  if first < 0x80 then 1
  else if 0xC2 ≤ first && first ≤ 0xDF then 2
  else if 0xE0 ≤ first && first ≤ 0xEF then 3
  else if 0xF0 ≤ first && first ≤ 0xF4 then 4
  else 0

/-- How many of the bytes after `first` continue its sequence. -/
def continued (first : UInt8) : List UInt8 → Nat
  | [] => 0
  | second :: rest =>
      if isSecond first second then
        1 + ((rest.take (utf8Width first - 2)).takeWhile isContinuation).length
      else 0

/-- `String::from_utf8_lossy`: every longest prefix of a sequence that breaks off
becomes one replacement character.  `fuel` bounds the number of sequences. -/
def fromUtf8Lossy : (fuel : Nat) → List UInt8 → String
  | 0, _ => ""
  | _, [] => ""
  | fuel + 1, first :: rest =>
      let width := utf8Width first
      if width = 1 then String.singleton (Char.ofNat first.toNat) ++ fromUtf8Lossy fuel rest
      else if width = 0 then "\uFFFD" ++ fromUtf8Lossy fuel rest
      else
        let more := continued first rest
        let here := if 1 + more = width then (fromUtf8 (first :: rest.take more)).getD ""
          else "\uFFFD"
        here ++ fromUtf8Lossy fuel (rest.drop more)

def promptOf (bytes : List UInt8) : String := fromUtf8Lossy bytes.length bytes

/-! ## The poll -/

/-- `ComputeRequestedEvent` with its requester and log position. -/
structure PolledEvent extends ComputeRequestedEvent where
  requester : H160
  txHash : H256
  logIndex : UInt32

/-- What the node answers during a tick: to `eth_blockNumber`, to `eth_getLogs` for
a range of blocks, and to the `getJob` call for the `i`-th log. -/
structure NodeAnswers where
  latestBlock : RpcReply
  logs : (fromBlock toBlock : Nat) → RpcReply
  job : (i jobId : Nat) → RpcReply

/-- The event of a log.  When its job cannot be read it gets an empty prompt and the
default limit. -/
def eventOf (log : Log) (job : RpcReply) : PolledEvent :=
  let spec := ((fetchJobSpec job).toOption).getD ([], DEFAULT_MAX_TOKENS)
  { poolId := log.poolId
    jobId := log.jobId
    paymentGrains := log.payment
    prompt := promptOf spec.1
    maxTokens := spec.2
    blockNumber := log.blockNumber
    requester := log.requester
    txHash := log.txHash
    logIndex := UInt32.ofNat log.logIndex }

/-- The logs of a poll's reply: one that does not decode fails the whole poll. -/
def decodeLogs (a : HttpChainAdapter) (reply : RpcReply) : Except EventError (List Log) := do
  let result ← (rpcResult "eth_getLogs" reply).mapError .node
  let entries ← okOr result.asArray .notArray
  entries.mapM (decodeLog a)

def pollComputeRequested (a : HttpChainAdapter) (node : NodeAnswers) (fromBlock toBlock : Nat) : Except EventError (List PolledEvent) := do
  let logs ← decodeLogs a (node.logs fromBlock toBlock)
  .ok (logs.zipIdx.map fun (log, i) => eventOf log (node.job i log.jobId))

def latestBlock (node : NodeAnswers) : Except EventError Nat := do
  let result ← (rpcResult "eth_blockNumber" node.latestBlock).mapError .node
  let text ← okOr result.asStr (.node (.notString "eth_blockNumber"))
  ((parseHexU64 text).mapError fun e => .node (.quantity "blockNumber" e))

/-! ## The loop -/

abbrev EventKey := H256 × UInt32

def PolledEvent.key (event : PolledEvent) : EventKey := (event.txHash, event.logIndex)

def SEEN_EVENTS_CAP : Nat := 10000

structure SeenEvents where
  set : Finset EventKey
  order : List EventKey
  cap : Nat

namespace SeenEvents

def withCap (cap : Nat) : SeenEvents := ⟨∅, [], cap⟩

/-- The eviction loop of `insert`. -/
def evict (cap : Nat) : Finset EventKey → List EventKey → Finset EventKey × List EventKey
  | set, [] => (set, [])
  | set, oldest :: rest =>
      if set.card ≥ cap then evict cap (set.erase oldest) rest else (set, oldest :: rest)

/-- `insert`: the set afterwards, and whether the key was new. -/
def insert (seen : SeenEvents) (key : EventKey) : SeenEvents × Bool :=
  if key ∈ seen.set then (seen, false)
  else
    let (set, order) := evict seen.cap seen.set seen.order
    (⟨Insert.insert key set, order ++ [key], seen.cap⟩, true)

end SeenEvents

/-- The dispatch loop of a tick: the events for which `handle_event` is spawned. -/
def dispatch (seen : SeenEvents) : List PolledEvent → SeenEvents × List PolledEvent
  | [] => (seen, [])
  | event :: rest =>
      let (seen', new) := seen.insert event.key
      let (final, later) := dispatch seen' rest
      (final, if new then event :: later else later)

structure EventLoop where
  lastBlock : Nat
  seen : SeenEvents

/-- What a tick returned: the new last block, and what it dispatched. -/
structure Ticked where
  next : EventLoop
  dispatched : List PolledEvent

/-- The range a tick polls, if it polls one. -/
def pollRange (buffer lastBlock latest : Nat) : Option (Nat × Nat) :=
  if latest ≤ lastBlock then none else some (max (lastBlock - buffer) 1, latest)

def tick (a : HttpChainAdapter) (buffer : Nat) (loop : EventLoop)
    (node : NodeAnswers) : Except EventError Ticked := do
  let latest ← latestBlock node
  match pollRange buffer loop.lastBlock latest with
  | none => .ok ⟨loop, []⟩
  | some (fromBlock, toBlock) => do
      let events ← pollComputeRequested a node fromBlock toBlock
      let (seen, dispatched) := dispatch loop.seen events
      .ok ⟨⟨latest, seen⟩, dispatched⟩

/-- A run of the daemon: where the loop stands, and all it dispatched. -/
structure Daemon where
  loop : EventLoop
  dispatched : List PolledEvent

def Daemon.start (startingBlock : Nat) : Daemon where
  loop := ⟨startingBlock, .withCap SEEN_EVENTS_CAP⟩
  dispatched := []

/-- A tick that fails leaves everything as it was and is tried again. -/
def daemon (a : HttpChainAdapter) (buffer : Nat) :
    Machine Daemon NodeAnswers where
  step d node :=
    match tick a buffer d.loop node with
    | .ok t => ⟨t.next, d.dispatched ++ t.dispatched⟩
    | .error _ => d

end PoolCoordinator
end ComputePool
