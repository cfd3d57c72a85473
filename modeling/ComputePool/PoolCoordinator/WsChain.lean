import ComputePool.PoolCoordinator.Dispatch

/-!
# The websocket decoder

`decode_compute_requested` of `ws_chain.rs` reads the same log as the poller, with
helpers of its own.  They agree on everything but a quantity without digits, which
the poller reads as zero and the subscription rejects.
-/

namespace ComputePool
namespace PoolCoordinator

open RustStd Federated

/-- `CoordinatorError::Chain` for a log that does not decode, one constructor for each
message. -/
inductive WsLogError where
  /-- `log missing topics`, `log missing address`, `log missing data` -/
  | missing (field : String)
  /-- `log has {n} topics, expected 4` -/
  | topicCount (n : Nat)
  /-- `topic0 not a string` -/
  | topic0
  /-- `log topic0 {topic0} is not ComputeRequested ({sig})` -/
  | signature (topic0 sig : String)
  /-- `log address hex: {e}`, `log data hex: {e}`, `topic hex: {e}`, `addr topic hex: {e}` -/
  | badHex (what : String)
  /-- `log emitted by {address}, expected pool contract {contract}` -/
  | emitter (address : String) (contract : H160)
  /-- `topic missing` -/
  | topicMissing
  /-- `topic wrong length: {n}`, `address topic wrong length: {n}` -/
  | topicLength (what : String) (n : Nat)
  /-- `topic value {v} exceeds u64::MAX (hostile/garbled event)` -/
  | u64Range (v : Nat)
  /-- `log data too short: {n}` -/
  | dataShort (n : Nat)
  /-- `log missing/malformed transactionHash`, and so for `logIndex` and `blockNumber` -/
  | malformed (field : String)

def topicU64 (topic : Option String) : Except WsLogError Nat := do
  let s ← okOr topic .topicMissing
  let stripped := trimStart0x s.toList
  let width := (String.ofList stripped).utf8ByteSize
  if width ≠ 64 then .error (.topicLength "topic" width)
  else
    let bytes ← okOr (hexDecode stripped) (.badHex "topic")
    if beNat bytes > u64Max then .error (.u64Range (beNat bytes)) else .ok (beNat bytes)

def topicAddress (topic : Option String) : Except WsLogError H160 := do
  let s ← okOr topic .topicMissing
  let stripped := trimStart0x s.toList
  let width := (String.ofList stripped).utf8ByteSize
  if width ≠ 64 then .error (.topicLength "address topic" width)
  else
    let bytes ← okOr (hexDecode stripped) (.badHex "addr topic")
    .ok (FixedBytes.ofNat (beNat (bytes.drop 12)))

/-- `u64::from_str_radix` of what follows the prefixes. -/
def wsQuantity (field : String) (log : Json) : Except WsLogError Nat :=
  okOr (((log.get field).bind Json.asStr).bind fun s => (u64FromHex (trimStart0x s.toList)).toOption)
    (.malformed field)

/-- `decode_compute_requested`.  The subscription does not read the job, so the prompt
is empty and the limit is the default. -/
def decodeComputeRequested (H : Hashes) (log : Json) (expectedContract : H160) :
    Except WsLogError PolledEvent := do
  let topics ← okOr ((log.get "topics").bind Json.asArray) (.missing "topics")
  if topics.length < 4 then .error (.topicCount topics.length)
  else
    let topic0 ← okOr (topics[0]?.bind Json.asStr) .topic0
    if !eqIgnoreAsciiCase topic0 (eventSigHex H) then .error (.signature topic0 (eventSigHex H))
    else
      let logAddress ← okOr ((log.get "address").bind Json.asStr) (.missing "address")
      let addressBytes ← okOr (hexDecode (trimStart0x logAddress.toList)) (.badHex "log address")
      if addressBytes ≠ expectedContract.toBytes then .error (.emitter logAddress expectedContract)
      else
        let poolId ← topicU64 (topics[1]?.bind Json.asStr)
        let jobId ← topicU64 (topics[2]?.bind Json.asStr)
        let requester ← topicAddress (topics[3]?.bind Json.asStr)
        let text ← okOr ((log.get "data").bind Json.asStr) (.missing "data")
        let data ← okOr (hexDecode (trimStart0x text.toList)) (.badHex "log data")
        if data.length < 32 then .error (.dataShort data.length)
        else
          let txHash ← okOr (decodeTxHash log) (.malformed "transactionHash")
          let logIndex ← wsQuantity "logIndex" log
          let blockNumber ← wsQuantity "blockNumber" log
          .ok
            { poolId := poolId
              jobId := jobId
              paymentGrains := beNat (data.take 32)
              prompt := ""
              maxTokens := 1000
              blockNumber := blockNumber
              requester := requester
              txHash := txHash
              logIndex := UInt32.ofNat logIndex }

/-! ## What the two decoders make of a log -/

/-- What an event says of its log. -/
structure LogFields where
  poolId : Nat
  jobId : Nat
  requester : H160
  payment : Nat
  txHash : H256
  logIndex : UInt32
  blockNumber : Nat
  deriving DecidableEq

def PolledEvent.fields (event : PolledEvent) : LogFields :=
  ⟨event.poolId, event.jobId, event.requester, event.paymentGrains, event.txHash, event.logIndex,
    event.blockNumber⟩

/-- The two decoders reject the log or read the same from it, whatever the poller
learns of the job. -/
def DecodersAgree (a : HttpChainAdapter) (log : Json) : Prop :=
  ∀ job, (decodeLog a log).toOption.map (fun l => (eventOf l job).fields) =
    (decodeComputeRequested a.hashes log a.poolContract).toOption.map PolledEvent.fields

/-- The field is a string with nothing after its `0x` prefixes. -/
def NoDigits (field : String) (log : Json) : Prop :=
  ∃ s, (log.get field).bind Json.asStr = some s ∧ trimStart0x s.toList = []

/-- What precedes the quantities: pool, job, requester, payment and transaction, of a
log of the event from the contract. -/
def readHead (a : HttpChainAdapter) (log : Json) : Option (Nat × Nat × H160 × Nat × H256) := do
  let topics ← (log.get "topics").bind Json.asArray
  if topics.length < 4 then none
  else
    let topic0 ← topics[0]?.bind Json.asStr
    if !eqIgnoreAsciiCase topic0 (eventSigHex a.hashes) then none
    else
      let logAddress ← (log.get "address").bind Json.asStr
      let addressBytes ← hexDecode (trimStart0x logAddress.toList)
      if addressBytes ≠ a.poolContract.toBytes then none
      else
        let poolId ← (topicAsU64 (topics[1]?.bind Json.asStr)).toOption
        let jobId ← (topicAsU64 (topics[2]?.bind Json.asStr)).toOption
        let requester ← (topicAsAddress (topics[3]?.bind Json.asStr)).toOption
        let text ← (log.get "data").bind Json.asStr
        let data ← hexDecode (trimStart0x text.toList)
        if data.length < 32 then none
        else
          let txHash ← decodeTxHash log
          some (poolId, jobId, requester, beNat (data.take 32), txHash)

/-- The quantity as the poller reads it. -/
def readQuantity (field : String) (log : Json) : Option Nat :=
  ((log.get field).bind Json.asStr).bind fun s => (parseHexU64 s).toOption

section ToOption

variable {ε α β γ : Type}

theorem toOption_bind (x : Except ε α) (f : α → Except ε β) :
    (x >>= f).toOption = x.toOption.bind fun a => (f a).toOption := by
  cases x with
  | error e => rfl
  | ok a => rfl

theorem toOption_okOr (o : Option α) (e : ε) : (okOr o e).toOption = o := by
  cases o with
  | none => rfl
  | some a => rfl

/-- A part of a decoder and what it reads, and the rest of both. -/
theorem toOption_step {x : Except ε α} {o : Option α} {f : α → Except ε β} {g : α → Option γ}
    {k : γ → Option β} (hpart : x.toOption = o) (hrest : ∀ a, (f a).toOption = (g a).bind k) :
    (x >>= f).toOption = (o >>= g).bind k := by
  rw [toOption_bind, hpart, Option.bind_eq_bind, Option.bind_assoc]
  exact congrArg o.bind (funext hrest)

theorem toOption_check {c : Prop} [Decidable c] {e : ε} {x : Except ε β} {o : Option γ}
    {k : γ → Option β} (hrest : x.toOption = o.bind k) :
    (if c then .error e else x).toOption = (if c then none else o).bind k := by
  by_cases h : c
  · rw [if_pos h, if_pos h]
    rfl
  · rw [if_neg h, if_neg h]
    exact hrest

end ToOption

/-- The helpers of the two decoders read the same from a topic. -/
theorem topicU64_eq (topic : Option String) :
    (topicU64 topic).toOption = (topicAsU64 topic).toOption := by
  rw [topicAsU64, topicBytes, bind_assoc, topicU64, toOption_bind, toOption_bind, toOption_okOr,
    toOption_okOr]
  congr 1
  funext s
  by_cases hwidth : (String.ofList (trimStart0x s.toList)).utf8ByteSize ≠ 64
  · simp only [if_pos hwidth]
    rfl
  · simp only [if_neg hwidth]
    cases hexDecode (trimStart0x s.toList) with
    | none => rfl
    | some bytes =>
        by_cases hrange : beNat bytes > u64Max
        · simp [okOr, bind, Except.bind, if_pos hrange, Except.toOption]
        · simp [okOr, bind, Except.bind, if_neg hrange, Except.toOption]

theorem topicAddress_eq (topic : Option String) :
    (topicAddress topic).toOption = (topicAsAddress topic).toOption := by
  rw [topicAsAddress, topicBytes, bind_assoc, topicAddress, toOption_bind, toOption_bind,
    toOption_okOr, toOption_okOr]
  congr 1
  funext s
  by_cases hwidth : (String.ofList (trimStart0x s.toList)).utf8ByteSize ≠ 64
  · simp only [if_pos hwidth]
    rfl
  · simp only [if_neg hwidth]
    cases hexDecode (trimStart0x s.toList) with
    | none => rfl
    | some bytes => rfl

theorem decodeLog_toOption (a : HttpChainAdapter) (log : Json) :
    (decodeLog a log).toOption =
      (readHead a log).bind fun (poolId, jobId, requester, payment, txHash) =>
        (readQuantity "logIndex" log).bind fun logIndex =>
          (readQuantity "blockNumber" log).bind fun blockNumber =>
            some ⟨poolId, jobId, requester, payment, txHash, logIndex, blockNumber⟩ := by
  refine toOption_step (toOption_okOr _ _) fun topics => toOption_check ?_
  refine toOption_step (toOption_okOr _ _) fun topic0 => toOption_check ?_
  refine toOption_step (toOption_okOr _ _) fun address => ?_
  refine toOption_step (toOption_okOr _ _) fun addressBytes => toOption_check ?_
  refine toOption_step rfl fun poolId => toOption_step rfl fun jobId => ?_
  refine toOption_step rfl fun requester => toOption_step (toOption_okOr _ _) fun text => ?_
  refine toOption_step (toOption_okOr _ _) fun data => toOption_check ?_
  refine toOption_step (toOption_okOr _ _) fun txHash => ?_
  rw [Option.bind_some, toOption_bind]
  refine congrArg₂ Option.bind (toOption_okOr _ _) (funext fun logIndex => ?_)
  rw [toOption_bind]
  exact congrArg₂ Option.bind (toOption_okOr _ _) rfl

theorem decodeComputeRequested_toOption (a : HttpChainAdapter) (log : Json) :
    (decodeComputeRequested a.hashes log a.poolContract).toOption =
      (readHead a log).bind fun (poolId, jobId, requester, payment, txHash) =>
        (wsQuantity "logIndex" log).toOption.bind fun logIndex =>
          (wsQuantity "blockNumber" log).toOption.bind fun blockNumber =>
            some ⟨⟨poolId, jobId, payment, "", 1000, blockNumber⟩, requester, txHash,
              UInt32.ofNat logIndex⟩ := by
  refine toOption_step (toOption_okOr _ _) fun topics => toOption_check ?_
  refine toOption_step (toOption_okOr _ _) fun topic0 => toOption_check ?_
  refine toOption_step (toOption_okOr _ _) fun address => ?_
  refine toOption_step (toOption_okOr _ _) fun addressBytes => toOption_check ?_
  refine toOption_step (topicU64_eq _) fun poolId => toOption_step (topicU64_eq _) fun jobId => ?_
  refine toOption_step (topicAddress_eq _) fun requester => ?_
  refine toOption_step (toOption_okOr _ _) fun text => ?_
  refine toOption_step (toOption_okOr _ _) fun data => toOption_check ?_
  refine toOption_step (toOption_okOr _ _) fun txHash => ?_
  rw [Option.bind_some, toOption_bind]
  refine congrArg _ (funext fun logIndex => ?_)
  rw [toOption_bind]
  rfl

/-! ## Quantities -/

theorem wsQuantity_toOption (field : String) (log : Json) :
    (wsQuantity field log).toOption =
      ((log.get field).bind Json.asStr).bind fun s =>
        (u64FromHex (trimStart0x s.toList)).toOption :=
  toOption_okOr _ _

/-- Without digits the poller reads zero, and the subscription nothing. -/
theorem quantity_of_noDigits {field : String} {log : Json} (h : NoDigits field log) :
    readQuantity field log = some 0 ∧ (wsQuantity field log).toOption = none := by
  have ⟨s, hs, hempty⟩ := h
  constructor
  · rw [readQuantity, hs, Option.bind_some, parseHexU64, hempty]
    rfl
  · rw [wsQuantity_toOption, hs, Option.bind_some, hempty]
    rfl

/-- With digits both read the same. -/
theorem quantity_of_digits {field : String} {log : Json} (h : ¬ NoDigits field log) :
    (wsQuantity field log).toOption = readQuantity field log := by
  rw [wsQuantity_toOption, readQuantity]
  cases hs : (log.get field).bind Json.asStr with
  | none => rfl
  | some s =>
      have hdigits : ¬ (trimStart0x s.toList).isEmpty := by
        rw [List.isEmpty_iff]
        exact fun hempty => h ⟨s, hs, hempty⟩
      rw [Option.bind_some, Option.bind_some, parseHexU64, if_neg hdigits]
      cases u64FromHex (trimStart0x s.toList) with
      | error e => rfl
      | ok n => rfl

/-- A log that both would read but for a quantity without digits. -/
theorem not_agree_of_noDigits {a : HttpChainAdapter} {log : Json}
    (h : NoDigits "logIndex" log ∨ NoDigits "blockNumber" log) (hhead : readHead a log ≠ none)
    (hindex : readQuantity "logIndex" log ≠ none)
    (hblock : readQuantity "blockNumber" log ≠ none) : ¬ DecodersAgree a log := by
  intro hagree
  have hboth := hagree (.transport "")
  have ⟨⟨poolId, jobId, requester, payment, txHash⟩, hhead⟩ :=
    Option.ne_none_iff_exists'.mp hhead
  have ⟨logIndex, hindex⟩ := Option.ne_none_iff_exists'.mp hindex
  have ⟨blockNumber, hblock⟩ := Option.ne_none_iff_exists'.mp hblock
  rw [decodeLog_toOption, decodeComputeRequested_toOption, hhead, hindex, hblock] at hboth
  dsimp only [Option.bind_some] at hboth
  rcases h with hnone | hnone
  · rw [(quantity_of_noDigits hnone).2] at hboth
    cases hboth
  · rw [(quantity_of_noDigits hnone).2] at hboth
    cases hquantity : (wsQuantity "logIndex" log).toOption with
    | none =>
        rw [hquantity] at hboth
        cases hboth
    | some n =>
        rw [hquantity] at hboth
        cases hboth

/-- The decoders agree on a log exactly when both its quantities have digits, or it is
malformed elsewhere. -/
theorem decoders_agree_iff (a : HttpChainAdapter) (log : Json) :
    DecodersAgree a log ↔
      (¬ NoDigits "logIndex" log ∧ ¬ NoDigits "blockNumber" log) ∨ readHead a log = none ∨
        readQuantity "logIndex" log = none ∨ readQuantity "blockNumber" log = none := by
  constructor
  · intro hagree
    by_contra hcond
    rw [not_or, not_and_or, not_not, not_not, not_or, not_or] at hcond
    exact not_agree_of_noDigits hcond.1 hcond.2.1 hcond.2.2.1 hcond.2.2.2 hagree
  · intro hcond job
    rw [decodeLog_toOption, decodeComputeRequested_toOption]
    cases hhead : readHead a log with
    | none => rfl
    | some head =>
        -- the quantities the two read differ only where there are no digits
        have hindex : NoDigits "logIndex" log ∨
            (wsQuantity "logIndex" log).toOption = readQuantity "logIndex" log := by
          by_cases h : NoDigits "logIndex" log
          · exact .inl h
          · exact .inr (quantity_of_digits h)
        have hblock : NoDigits "blockNumber" log ∨
            (wsQuantity "blockNumber" log).toOption = readQuantity "blockNumber" log := by
          by_cases h : NoDigits "blockNumber" log
          · exact .inl h
          · exact .inr (quantity_of_digits h)
        rw [Option.bind_some, Option.bind_some]
        rcases hcond with ⟨hdigits, hdigits'⟩ | hnone | hnone | hnone
        · rw [hindex.resolve_left hdigits, hblock.resolve_left hdigits']
          cases readQuantity "logIndex" log with
          | none => rfl
          | some logIndex =>
              cases readQuantity "blockNumber" log with
              | none => rfl
              | some blockNumber => rfl
        · rw [hhead] at hnone
          cases hnone
        · have hdigits : ¬ NoDigits "logIndex" log := fun h => by
            rw [(quantity_of_noDigits h).1] at hnone
            cases hnone
          rw [hindex.resolve_left hdigits, hnone]
          rfl
        · have hdigits : ¬ NoDigits "blockNumber" log := fun h => by
            rw [(quantity_of_noDigits h).1] at hnone
            cases hnone
          rw [hblock.resolve_left hdigits, hnone]
          cases readQuantity "logIndex" log with
          | none =>
              cases (wsQuantity "logIndex" log).toOption with
              | none => rfl
              | some n => rfl
          | some logIndex =>
              cases (wsQuantity "logIndex" log).toOption with
              | none => rfl
              | some n => rfl

/-- A well-formed log, but for the digits of its index. -/
def noIndexEntry : Json :=
  .object
    [("topics", .array (List.replicate 4 (.string (hex0x (FixedBytes.zero : H256).toBytes)))),
      ("address", .string (hex0x (FixedBytes.ofNat 7 : H160).toBytes)),
      ("data", .string (hex0x (u256Word 0))),
      ("transactionHash", .string (hex0x (FixedBytes.ofNat 1 : H256).toBytes)),
      ("logIndex", .string "0x"), ("blockNumber", .string "0x1")]

theorem not_agree_noIndexEntry : ¬ DecodersAgree floodAdapter noIndexEntry := by
  have hindex : NoDigits "logIndex" noIndexEntry := ⟨"0x", rfl, by decide⟩
  have hhead : readHead floodAdapter noIndexEntry = readHead floodAdapter (floodEntry 1) := rfl
  apply not_agree_of_noDigits (.inl hindex)
  · intro hnone
    have hdecoded := decodeLog_toOption floodAdapter (floodEntry 1)
    rw [decodeLog_floodEntry, ← hhead, hnone] at hdecoded
    cases hdecoded
  · rw [(quantity_of_noDigits hindex).1]
    exact Option.some_ne_none 0
  · decide

end PoolCoordinator
end ComputePool
