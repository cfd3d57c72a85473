import ComputePool.Federated.Tree
import ComputePool.Lib.Forgetting
import ComputePool.Lib.Machine
import ComputePool.PoolCoordinator.Abi
import ComputePool.Rust.Json

/-!
# Observing events

The polling loop of the worker's daemon: each tick reads the latest block, polls the
logs of a range that reaches back behind the last tick, and dispatches every log whose
`(tx_hash, log_index)` is not in a bounded set.  What the node answers in a tick, and
the order in which the hash set is iterated when half of it is dropped, are inputs.
-/

namespace ComputePool
namespace Worker
namespace Events

open RustStd Federated Forgetting
open PoolCoordinator (H256 u64FromHex)

/-! ## Logs -/

/-- Raw log envelope returned by `eth_getLogs`. -/
structure RawLog where
  address : H160
  topics : List H256
  data : List UInt8
  blockNumber : Nat
  txHash : H256
  logIndex : UInt32

/-- The `(tx_hash, log_index)` key. -/
abbrev Key := H256 × UInt32

def RawLog.dedupKey (log : RawLog) : Key := (log.txHash, log.logIndex)

/-- The bytes of a hexadecimal field. -/
def hexField (entry : Json) (field : String) : Option (List UInt8) :=
  ((entry.get field).bind Json.asStr).bind fun s => hexDecode (trimStart0x s.toList)

/-- The bytes of a field, if there are as many as its type has. -/
def fixedField (n : Nat) (entry : Json) (field : String) : Option (FixedBytes n) :=
  (hexField entry field).bind fun bytes => if h : bytes.length = n then some ⟨bytes, h⟩ else none

/-- The number in a field. -/
def quantityField (entry : Json) (field : String) : Option Nat :=
  ((entry.get field).bind Json.asStr).bind fun s => (u64FromHex (trimStart0x s.toList)).toOption

/-- One topic of a log. -/
def decodeTopic (topic : Json) : Option H256 :=
  topic.asStr.bind fun s => (hexDecode (trimStart0x s.toList)).bind fun bytes =>
    if h : bytes.length = 32 then some ⟨bytes, h⟩ else none

/-- `decode_log_entry`: only the topics have to be there and well formed; every other
field that is not has a default. -/
def decodeLogEntry (entry : Json) : Option RawLog :=
  ((entry.get "topics").bind Json.asArray).bind fun topicsRaw =>
    (topicsRaw.mapM decodeTopic).bind fun topics =>
      some {
        address := (fixedField 20 entry "address").getD FixedBytes.zero
        topics := topics
        data := (hexField entry "data").getD []
        blockNumber := (quantityField entry "blockNumber").getD 0
        txHash := (fixedField 32 entry "transactionHash").getD FixedBytes.zero
        logIndex := UInt32.ofNat ((quantityField entry "logIndex").getD 0) }

/-- The events that are classified. -/
inductive EventKind where
  | trainingJobOpened
  | workerJoined
  | recruitmentClosed
  | coordinatorReassigned
  | epochCommitted
  | epochPaymentReleased
  | challengeOpened
  | challengeVoted
  | challengeResolved
  | workerStakeReturned
  | trainingJobCompleted
  | trainingJobAborted
  | pipelineJobCreated
  | stageAssigned
  | pipelineJobActivated
  | pipelineRequestSubmitted
  | stageServed
  | pipelineRequestCompleted
  | pipelineRequestFailed
  | stageFaulted
  | stageReassigned
  | pipelineJobDraining
  | pipelineJobTerminated
  | unknown
  deriving DecidableEq

/-- The signatures of the two contracts' events. -/
def candidates : List (EventKind × String) :=
  [(.trainingJobOpened, "TrainingJobOpened(uint256,address,bytes32,bytes32,uint32,uint32)"),
    (.workerJoined, "WorkerJoined(uint256,address,uint128)"),
    (.recruitmentClosed, "RecruitmentClosed(uint256,uint32,address)"),
    (.coordinatorReassigned, "CoordinatorReassigned(uint256,address,address,uint128)"),
    (.epochCommitted, "EpochCommitted(uint256,uint32,bytes32)"),
    (.epochPaymentReleased, "EpochPaymentReleased(uint256,uint32,address,uint128)"),
    (.challengeOpened, "ChallengeOpened(uint256,uint32,uint32,address,address,uint128)"),
    (.challengeVoted, "ChallengeVoted(uint256,uint32,uint32,address,address,bool)"),
    (.challengeResolved, "ChallengeResolved(uint256,uint32,uint32,address,bool,uint128)"),
    (.workerStakeReturned, "WorkerStakeReturned(uint256,address,uint128)"),
    (.trainingJobCompleted, "TrainingJobCompleted(uint256,bytes32)"),
    (.trainingJobAborted, "TrainingJobAborted(uint256,string)"),
    (.pipelineJobCreated, "PipelineJobCreated(uint256,address,uint32,bytes32)"),
    (.stageAssigned, "StageAssigned(uint256,uint32,address,uint128)"),
    (.pipelineJobActivated, "JobActivated(uint256)"),
    (.pipelineRequestSubmitted, "PipelineRequestSubmitted(uint256,uint256,address,uint128)"),
    (.stageServed, "StageServed(uint256,uint32,address,uint128)"),
    (.pipelineRequestCompleted, "PipelineRequestCompleted(uint256)"),
    (.pipelineRequestFailed, "PipelineRequestFailed(uint256,uint128)"),
    (.stageFaulted, "StageFaulted(uint256,uint32,address)"),
    (.stageReassigned, "StageReassigned(uint256,uint32,address,address)"),
    (.pipelineJobDraining, "JobDraining(uint256)"),
    (.pipelineJobTerminated, "JobTerminated(uint256)")]

/-- Classify a log by its first topic. -/
def classify (H : Hashes) (topic0 : H256) : EventKind :=
  ((candidates.find? fun c => keccak H [utf8 c.2] == topic0).map Prod.fst).getD .unknown

/-- An event is classified by its own signature, where no two signatures collide. -/
theorem classify_signature (H : Hashes) {c : EventKind × String} (hc : c ∈ candidates)
    (hfree : ∀ d ∈ candidates, keccak H [utf8 d.2] = keccak H [utf8 c.2] → d = c) :
    classify H (keccak H [utf8 c.2]) = c.1 := by
  have hfound : (candidates.find? fun d => keccak H [utf8 d.2] == keccak H [utf8 c.2]).isSome :=
    List.find?_isSome.mpr ⟨c, hc, beq_self_eq_true _⟩
  obtain ⟨d, hd⟩ := Option.isSome_iff_exists.mp hfound
  have hmatch := List.find?_some hd
  have hsame := hfree d (List.mem_of_find?_eq_some hd) (eq_of_beq hmatch)
  unfold classify
  rw [hd, hsame]
  rfl

/-! ## The daemon -/

def SEEN_EVENTS_CAP : Nat := 10000

/-- The order in which a `HashSet` is iterated: each element once, in no order of its
own. -/
structure HashOrder where
  iter : Finset Key → List Key
  nodup : ∀ s, (iter s).Nodup
  mem : ∀ s key, key ∈ iter s ↔ key ∈ s

/-- A log that was dispatched, with the object it was decoded from. -/
structure Dispatched where
  object : Json
  log : RawLog
  event : EventKind

/-- The variables of the loop, and what it has dispatched. -/
structure Daemon where
  lastBlock : Nat
  seen : Finset Key
  dispatched : List Dispatched

/-- The daemon before its first tick. -/
def Daemon.start (lastBlock : Nat) : Daemon := ⟨lastBlock, ∅, []⟩

/-- What the node answers in a tick, the logs by the first and the last block of their
range and `none` for a call that fails, and the order of the hash set. -/
structure Tick where
  latest : Option Nat
  logs : Nat → Nat → Option (List Json)
  order : HashOrder

/-- `poll_raw_logs`: the entries that decode, each with its object. -/
def decoded (entries : List Json) : List (Json × RawLog) :=
  entries.filterMap fun e => (decodeLogEntry e).map fun log => (e, log)

/-- The keys that are dropped when the set is at its cap: the first half of its
iteration. -/
def dropped (order : HashOrder) (seen : Finset Key) : Finset Key :=
  if seen.card ≥ SEEN_EVENTS_CAP then ((order.iter seen).take (seen.card / 2)).toFinset else ∅

/-- The loop of `dispatch_logs`. -/
def dispatchLoop (H : Hashes) : List (Json × RawLog) → Finset Key → Finset Key × List Dispatched
  | [], seen => (seen, [])
  | (object, log) :: rest, seen =>
      if log.dedupKey ∈ seen then dispatchLoop H rest seen
      else
        let kind := (log.topics.head?.map (classify H)).getD .unknown
        let (seen, more) := dispatchLoop H rest (insert log.dedupKey seen)
        (seen, ⟨object, log, kind⟩ :: more)

/-- The latest block and the logs of a tick that gets as far as polling them. -/
def polled (buffer : Nat) (d : Daemon) (tick : Tick) : Option (Nat × List Json) :=
  tick.latest.bind fun latest =>
    if latest ≤ d.lastBlock then none
    else (tick.logs (max (d.lastBlock - buffer) 1) latest).map fun entries => (latest, entries)

/-- `training_tick` and `pipeline_tick`. -/
def step (H : Hashes) (buffer : Nat) (d : Daemon) (tick : Tick) : Daemon :=
  match polled buffer d tick with
  | none => d
  | some (latest, entries) =>
      let (seen, more) := dispatchLoop H (decoded entries) (d.seen \ dropped tick.order d.seen)
      ⟨latest, seen, d.dispatched ++ more⟩

def machine (H : Hashes) (buffer : Nat) : Machine Daemon Tick := ⟨step H buffer⟩

/-- The log objects that the node returns in a run and that decode. -/
def accepted (H : Hashes) (buffer : Nat) : Daemon → List Tick → List (Json × RawLog)
  | _, [] => []
  | d, tick :: rest =>
      ((polled buffer d tick).elim [] fun r => decoded r.2) ++
        accepted H buffer (step H buffer d tick) rest

/-! ## What the set lets through -/

/-- The keys of some logs. -/
def keysOf (logs : List (Json × RawLog)) : List Key := logs.map fun e => e.2.dedupKey

/-- The operations of one tick on the set. -/
def tickOps (buffer : Nat) (d : Daemon) (tick : Tick) : List (Op Key) :=
  (polled buffer d tick).elim [] fun r =>
    .forget (dropped tick.order d.seen) :: (keysOf (decoded r.2)).map .offer

/-- The operations of a run on the set. -/
def runOps (H : Hashes) (buffer : Nat) : Daemon → List Tick → List (Op Key)
  | _, [] => []
  | d, tick :: rest => tickOps buffer d tick ++ runOps H buffer (step H buffer d tick) rest

/-- The key of a dispatched log. -/
def Dispatched.key (o : Dispatched) : Key := o.log.dedupKey

variable {H : Hashes} {buffer : Nat} {d : Daemon} {ticks : List Tick}

theorem dispatchLoop_spec (logs : List (Json × RawLog)) (seen : Finset Key) :
    (dispatchLoop H logs seen).1 = memory seen ((keysOf logs).map .offer) ∧
      (dispatchLoop H logs seen).2.map Dispatched.key =
        passed seen ((keysOf logs).map .offer) ∧
      ∀ o ∈ (dispatchLoop H logs seen).2, (o.object, o.log) ∈ logs := by
  induction logs generalizing seen with
  | nil => exact ⟨rfl, rfl, nofun⟩
  | cons e rest ih =>
      obtain ⟨object, log⟩ := e
      rw [dispatchLoop, keysOf, List.map_cons, List.map_cons, memory_cons, passed]
      by_cases hmem : log.dedupKey ∈ seen
      · rw [if_pos hmem, if_pos hmem, remember, Finset.insert_eq_of_mem hmem]
        obtain ⟨hmemory, hpassed, hin⟩ := ih seen
        exact ⟨hmemory, hpassed, fun o ho => List.mem_cons_of_mem _ (hin o ho)⟩
      · rw [if_neg hmem, if_neg hmem]
        obtain ⟨hmemory, hpassed, hin⟩ := ih (insert log.dedupKey seen)
        refine ⟨hmemory, congrArg (log.dedupKey :: ·) hpassed, fun o ho => ?_⟩
        rcases List.mem_cons.mp ho with rfl | ho
        · exact List.mem_cons_self
        · exact List.mem_cons_of_mem _ (hin o ho)

/-- One tick, as operations on the set. -/
theorem step_spec (tick : Tick) :
    (step H buffer d tick).seen = memory d.seen (tickOps buffer d tick) ∧
      ∃ more, (step H buffer d tick).dispatched = d.dispatched ++ more ∧
        more.map Dispatched.key = passed d.seen (tickOps buffer d tick) ∧
        ∀ o ∈ more, (o.object, o.log) ∈
          (polled buffer d tick).elim [] fun r => decoded r.2 := by
  unfold step tickOps
  cases polled buffer d tick with
  | none => exact ⟨rfl, [], (List.append_nil _).symm, rfl, nofun⟩
  | some r =>
      obtain ⟨latest, entries⟩ := r
      obtain ⟨hmemory, hpassed, hin⟩ :=
        @dispatchLoop_spec H (decoded entries) (d.seen \ dropped tick.order d.seen)
      exact ⟨hmemory, _, rfl, hpassed, hin⟩

/-- A run, as operations on the set. -/
theorem run_spec (d : Daemon) (ticks : List Tick) :
    ∃ more, ((machine H buffer).run d ticks).dispatched = d.dispatched ++ more ∧
      more.map Dispatched.key = passed d.seen (runOps H buffer d ticks) ∧
      ∀ o ∈ more, (o.object, o.log) ∈ accepted H buffer d ticks := by
  induction ticks generalizing d with
  | nil => exact ⟨[], (List.append_nil _).symm, rfl, nofun⟩
  | cons tick rest ih =>
      obtain ⟨hseen, first, hfirst, hkeys, hin⟩ := @step_spec H buffer d tick
      obtain ⟨later, hlater, hkeys', hin'⟩ := ih (step H buffer d tick)
      refine ⟨first ++ later, ?_, ?_, ?_⟩
      · rw [Machine.run_cons, ← List.append_assoc, ← hfirst]
        exact hlater
      · rw [List.map_append, hkeys, hkeys', hseen, runOps, passed_append]
      · intro o ho
        rw [accepted, List.mem_append]
        rcases List.mem_append.mp ho with ho | ho
        · exact .inl (hin o ho)
        · exact .inr (hin' o ho)

/-- The keys that are shown to the set are those of the accepted logs. -/
theorem offered_runOps (d : Daemon) (ticks : List Tick) :
    offered (runOps H buffer d ticks) = keysOf (accepted H buffer d ticks) := by
  induction ticks generalizing d with
  | nil => rfl
  | cons tick rest ih =>
      rw [runOps, accepted, keysOf, List.map_append]
      unfold tickOps
      cases polled buffer d tick with
      | none => exact ih (step H buffer d tick)
      | some r =>
          show offered ((keysOf (decoded r.2)).map .offer ++ _) = _
          rw [offered_offers, ih]
          rfl

theorem dropped_subset (order : HashOrder) (seen : Finset Key) : dropped order seen ⊆ seen := by
  unfold dropped
  split
  · intro key hkey
    exact (order.mem seen key).mp (List.mem_of_mem_take (List.mem_toFinset.mp hkey))
  · exact Finset.empty_subset _

/-! ## Exactly once -/

/-- A list has no duplicates if each member has exactly one place. -/
theorem nodup_iff_places {α : Type} {l : List α} :
    l.Nodup ↔ ∀ a ∈ l, ∃! i : Nat, l[i]? = some a := by
  constructor
  · intro h a ha
    obtain ⟨i, hi, rfl⟩ := List.mem_iff_getElem.mp ha
    refine ⟨i, List.getElem?_eq_getElem hi, fun j hj => ?_⟩
    obtain ⟨hlt, hsame⟩ := List.getElem?_eq_some_iff.mp hj
    exact (h.getElem_inj_iff).mp hsame
  · intro h
    rw [List.nodup_iff_injective_getElem]
    intro i j hsame
    obtain ⟨k, -, hunique⟩ := h _ (List.getElem_mem j.2)
    have hi := hunique i ((List.getElem?_eq_getElem i.2).trans (congrArg some hsame))
    have hj := hunique j (List.getElem?_eq_getElem j.2)
    exact Fin.ext (hi.trans hj.symm)

section Once

variable {ι : Type} (ident : Json → ι)

/-- Every log the node returns is dispatched exactly once in the run. -/
def ExactlyOnce (H : Hashes) (buffer : Nat) (d : Daemon) (ticks : List Tick) : Prop :=
  ∀ e ∈ accepted H buffer d ticks,
    ∃! i : Nat, ∃ o : Dispatched, ((machine H buffer).run d ticks).dispatched[i]? = some o ∧
      ident o.object = ident e.1

/-- Among the accepted log objects of the run, two have one key exactly if they are one
log. -/
def KeysTellLogs (H : Hashes) (buffer : Nat) (d : Daemon) (ticks : List Tick) : Prop :=
  ∀ e ∈ accepted H buffer d ticks, ∀ e' ∈ accepted H buffer d ticks,
    e.2.dedupKey = e'.2.dedupKey ↔ ident e.1 = ident e'.1

end Once

/-- The keys a tick drops: half of the set when it is at its cap. -/
def dropsIn (buffer : Nat) (d : Daemon) (tick : Tick) : Finset Key :=
  (polled buffer d tick).elim ∅ fun _ => dropped tick.order d.seen

/-- Whenever the set is at its cap, no key in the half that is dropped is that of a log
the node returns in that tick or later. -/
def DropsNoneAgain (H : Hashes) (buffer : Nat) (d : Daemon) (ticks : List Tick) : Prop :=
  ∀ front tick back, ticks = front ++ tick :: back →
    ∀ key ∈ dropsIn buffer ((machine H buffer).run d front) tick,
      ∀ e ∈ accepted H buffer ((machine H buffer).run d front) (tick :: back),
        e.2.dedupKey ≠ key

theorem dropsNoneAgain_cons {tick : Tick} {rest : List Tick} :
    DropsNoneAgain H buffer d (tick :: rest) ↔
      (∀ key ∈ dropsIn buffer d tick, key ∉ keysOf (accepted H buffer d (tick :: rest))) ∧
        DropsNoneAgain H buffer (step H buffer d tick) rest := by
  constructor
  · intro h
    refine ⟨fun key hkey hin => ?_, fun front tick' back hrest => ?_⟩
    · obtain ⟨e, he, rfl⟩ := List.mem_map.mp hin
      exact h [] tick rest rfl _ hkey e he rfl
    · exact h (tick :: front) tick' back (by rw [hrest]; rfl)
  · rintro ⟨hfirst, hrest⟩ front tick' back hsplit key hkey e he
    cases front with
    | nil =>
        cases hsplit
        rintro rfl
        exact hfirst _ hkey (List.mem_map_of_mem he)
    | cons first front =>
        obtain ⟨rfl, htail⟩ := List.cons.inj hsplit
        exact hrest front tick' back htail key hkey e he

/-- The condition on the run, as one on the operations. -/
theorem settled_iff (d : Daemon) (ticks : List Tick) :
    Settled d.seen (runOps H buffer d ticks) ↔ DropsNoneAgain H buffer d ticks := by
  induction ticks generalizing d with
  | nil => simp [Settled, runOps, DropsNoneAgain]
  | cons tick rest ih =>
      rw [dropsNoneAgain_cons, ← ih, ← offered_runOps]
      have hseen := (@step_spec H buffer d tick).1
      rw [hseen, runOps]
      unfold dropsIn tickOps
      cases polled buffer d tick with
      | none => simp [memory]
      | some r =>
          show Settled d.seen (.forget _ :: ((keysOf (decoded r.2)).map .offer ++ _)) ↔ _
          rw [settled_cons_forget, settled_offers]
          constructor
          · rintro ⟨hgone, hrest⟩
            exact ⟨fun key hkey => hgone key hkey (dropped_subset _ _ hkey), hrest⟩
          · rintro ⟨hgone, hrest⟩
            exact ⟨fun key hkey _ => hgone key hkey, hrest⟩

/-- Where the keys tell the logs, what is dispatched exactly once is what the set lets
through exactly once. -/
theorem exactlyOnce_iff_settled {ι : Type} {ident : Json → ι} {start : Nat} {ticks : List Tick}
    (hkeys : KeysTellLogs ident H buffer (.start start) ticks) :
    ExactlyOnce ident H buffer (.start start) ticks ↔
      Settled ∅ (runOps H buffer (.start start) ticks) := by
  obtain ⟨more, hmore, hpassed, hin⟩ := @run_spec H buffer (.start start) ticks
  have hempty : (Daemon.start start).dispatched = [] := rfl
  rw [hempty, List.nil_append] at hmore
  have hnodup := passed_nodup_iff (runOps H buffer (.start start) ticks)
  refine Iff.trans ?_ hnodup
  rw [show passed ∅ _ = _ from hpassed.symm, ExactlyOnce, hmore]
  -- a place in the dispatched list holds the log iff it holds its key
  have hplace : ∀ e ∈ accepted H buffer (.start start) ticks, ∀ i : Nat,
      (∃ o : Dispatched, more[i]? = some o ∧ ident o.object = ident e.1) ↔
        (more.map Dispatched.key)[i]? = some e.2.dedupKey := by
    intro e he i
    rw [List.getElem?_map]
    cases ho : more[i]? with
    | none => simp
    | some o =>
        have hsame := hkeys _ (hin o (List.mem_of_getElem? ho)) e he
        simp only [Option.some.injEq, Option.map_some]
        constructor
        · rintro ⟨_, rfl, hident⟩
          exact hsame.mpr hident
        · exact fun hkey => ⟨o, rfl, hsame.mp hkey⟩
  rw [nodup_iff_places]
  constructor
  · intro honce key hkey
    obtain ⟨o, ho, rfl⟩ := List.mem_map.mp hkey
    obtain ⟨i, hi, hunique⟩ := honce _ (hin o ho)
    exact ⟨i, (hplace _ (hin o ho) i).mp hi, fun j hj =>
      hunique j ((hplace _ (hin o ho) j).mpr hj)⟩
  · intro honce e he
    have hshown : e.2.dedupKey ∈ offered (runOps H buffer (.start start) ticks) := by
      rw [offered_runOps]
      exact List.mem_map_of_mem he
    have hkey := passed_of_offered hshown (Finset.notMem_empty _)
    rw [show passed ∅ _ = _ from hpassed.symm] at hkey
    obtain ⟨i, hi, hunique⟩ := honce _ hkey
    exact ⟨i, (hplace e he i).mpr hi, fun j hj => hunique j ((hplace e he j).mp hj)⟩

/-- **Event observation.**  Where the keys tell the logs, every log is dispatched exactly
once in a run exactly if no tick drops the key of a log that is returned again. -/
theorem exactly_once_iff {ι : Type} (ident : Json → ι) (H : Hashes) (buffer start : Nat)
    (ticks : List Tick) (hkeys : KeysTellLogs ident H buffer (.start start) ticks) :
    ExactlyOnce ident H buffer (.start start) ticks ↔
      DropsNoneAgain H buffer (.start start) ticks :=
  (exactlyOnce_iff_settled hkeys).trans (settled_iff (.start start) ticks)

/-! ## Logs with the identity a node gives them -/

/-- The transaction hash has its 32 bytes, and the log index its 32 bits. -/
structure Identified (entry : Json) : Prop where
  txHash : (fixedField 32 entry "transactionHash").isSome = true
  logIndex : ∃ n < 2 ^ 32, quantityField entry "logIndex" = some n

/-- Two objects with the same transaction hash and log index are one object. -/
def DistinctIds (entries : List Json) : Prop :=
  ∀ a ∈ entries, ∀ b ∈ entries,
    fixedField 32 a "transactionHash" = fixedField 32 b "transactionHash" →
      quantityField a "logIndex" = quantityField b "logIndex" → a = b

theorem mem_accepted {d : Daemon} {ticks : List Tick} {e : Json × RawLog}
    (h : e ∈ accepted H buffer d ticks) : decodeLogEntry e.1 = some e.2 := by
  induction ticks generalizing d with
  | nil => cases h
  | cons tick rest ih =>
      rw [accepted, List.mem_append] at h
      rcases h with h | h
      · cases hpolled : polled buffer d tick with
        | none =>
            rw [hpolled] at h
            cases h
        | some r =>
            rw [hpolled] at h
            obtain ⟨entry, -, hentry⟩ := List.mem_filterMap.mp h
            obtain ⟨log, hlog, rfl⟩ := Option.map_eq_some_iff.mp hentry
            exact hlog
      · exact ih h

/-- The key of a log is made of the two fields of its object. -/
theorem dedupKey_eq {entry : Json} {log : RawLog} (h : decodeLogEntry entry = some log) :
    log.dedupKey = ((fixedField 32 entry "transactionHash").getD FixedBytes.zero,
      UInt32.ofNat ((quantityField entry "logIndex").getD 0)) := by
  obtain ⟨topicsRaw, -, h⟩ := Option.bind_eq_some_iff.mp h
  obtain ⟨topics, -, h⟩ := Option.bind_eq_some_iff.mp h
  cases h
  rfl

/-- Objects that have their fields, no two the same, are told by their keys. -/
theorem keysTellLogs_of_identified {d : Daemon} {ticks : List Tick}
    (hfields : ∀ e ∈ accepted H buffer d ticks, Identified e.1)
    (hdistinct : DistinctIds ((accepted H buffer d ticks).map Prod.fst)) :
    KeysTellLogs id H buffer d ticks := by
  intro e he e' he'
  rw [dedupKey_eq (mem_accepted he), dedupKey_eq (mem_accepted he')]
  obtain ⟨hash, hhash⟩ := Option.isSome_iff_exists.mp (hfields e he).txHash
  obtain ⟨hash', hhash'⟩ := Option.isSome_iff_exists.mp (hfields e' he').txHash
  obtain ⟨n, hn, hindex⟩ := (hfields e he).logIndex
  obtain ⟨n', hn', hindex'⟩ := (hfields e' he').logIndex
  -- neither field takes its default, and no index is cut to 32 bits
  constructor
  · intro hkey
    rw [hhash, hhash', hindex, hindex', Prod.mk.injEq] at hkey
    have hsame : n = n' := by
      have hindices := congrArg UInt32.toNat hkey.2
      rwa [Option.getD_some, Option.getD_some, UInt32.toNat_ofNat_of_lt' hn,
        UInt32.toNat_ofNat_of_lt' hn'] at hindices
    apply hdistinct e.1 (List.mem_map_of_mem he) e'.1 (List.mem_map_of_mem he')
    · rw [hhash, hhash']
      exact congrArg some hkey.1
    · rw [hindex, hindex', hsame]
  · intro hsame
    rw [show e.1 = e'.1 from hsame]

/-- The log objects of a node that gives every log its own transaction hash and index. -/
theorem identified_once_iff {start : Nat} {ticks : List Tick}
    (hfields : ∀ e ∈ accepted H buffer (.start start) ticks, Identified e.1)
    (hdistinct : DistinctIds ((accepted H buffer (.start start) ticks).map Prod.fst)) :
    ExactlyOnce id H buffer (.start start) ticks ↔ DropsNoneAgain H buffer (.start start) ticks :=
  (exactlyOnce_iff_settled (keysTellLogs_of_identified hfields hdistinct)).trans
    (settled_iff (.start start) ticks)

/-- A log object with its topics and data only. -/
def bare (data : String) : Json := .object [("topics", .array []), ("data", .string data)]

/-- A tick in which the node returns some objects, at block 1. -/
noncomputable def oneTick (entries : List Json) : Tick :=
  ⟨some 1, fun _ _ => some entries, ⟨Finset.toList, Finset.nodup_toList, fun _ _ => Finset.mem_toList⟩⟩

/-- An object without transaction hash and log index has the key of the zeros. -/
theorem decode_bare (data : String) : decodeLogEntry (bare data) =
    some ⟨FixedBytes.zero, [], (hexDecode (trimStart0x data.toList)).getD [], 0, FixedBytes.zero,
      0⟩ := rfl

theorem accepted_oneTick (H : Hashes) (entries : List Json) :
    accepted H 12 (.start 0) [oneTick entries] = decoded entries := by
  show decoded entries ++ [] = _
  rw [List.append_nil]

theorem dropsNoneAgain_oneTick (H : Hashes) (entries : List Json) :
    DropsNoneAgain H 12 (.start 0) [oneTick entries] := by
  rw [dropsNoneAgain_cons]
  refine ⟨fun key hkey => ?_, fun front tick back hsplit => ?_⟩
  · exact absurd hkey (Finset.notMem_empty key)
  · exact absurd hsplit (by simp)

/-- A log returned twice in one tick is dispatched once. -/
theorem exactly_once_iff_twice :
    KeysTellLogs id Tree.residueHashes 12 (.start 0) [oneTick [bare "0x01", bare "0x01"]] ∧
      ExactlyOnce id Tree.residueHashes 12 (.start 0) [oneTick [bare "0x01", bare "0x01"]] := by
  have hkeys : KeysTellLogs id Tree.residueHashes 12 (.start 0)
      [oneTick [bare "0x01", bare "0x01"]] := by
    unfold KeysTellLogs
    rw [accepted_oneTick]
    intro e he e' he'
    simp only [decoded, List.filterMap_cons, decode_bare, Option.map_some, List.filterMap_nil,
      List.mem_cons, List.not_mem_nil, or_false, or_self] at he he'
    subst he he'
    simp
  exact ⟨hkeys, (exactly_once_iff id Tree.residueHashes 12 0 _ hkeys).mpr
    (dropsNoneAgain_oneTick _ _)⟩

/-- Of two logs without transaction hash and log index only the first is dispatched. -/
theorem second_bare_log_suppressed :
    (∃ log, decodeLogEntry (bare "0x02") = some log) ∧
      ¬ ExactlyOnce id Tree.residueHashes 12 (.start 0) [oneTick [bare "0x01", bare "0x02"]] := by
  refine ⟨⟨_, decode_bare _⟩, fun honce => ?_⟩
  have hdecoded : decoded [bare "0x01", bare "0x02"] =
      [(bare "0x01", ⟨FixedBytes.zero, [], (hexDecode (trimStart0x "0x01".toList)).getD [], 0,
          FixedBytes.zero, 0⟩),
        (bare "0x02", ⟨FixedBytes.zero, [], (hexDecode (trimStart0x "0x02".toList)).getD [], 0,
          FixedBytes.zero, 0⟩)] := rfl
  have hdispatched : ((machine Tree.residueHashes 12).run (.start 0)
      [oneTick [bare "0x01", bare "0x02"]]).dispatched.map Dispatched.object = [bare "0x01"] := by
    show (dispatchLoop Tree.residueHashes (decoded [bare "0x01", bare "0x02"])
      (∅ \ ∅)).2.map Dispatched.object = _
    rw [hdecoded]
    simp [dispatchLoop, RawLog.dedupKey]
  obtain ⟨i, ⟨o, ho, hobject⟩, -⟩ := honce (bare "0x02", _) (by
    rw [accepted_oneTick, hdecoded]
    exact List.mem_cons_of_mem _ List.mem_cons_self)
  have hin : o.object ∈ [bare "0x01"] := by
    rw [← hdispatched]
    exact List.mem_map_of_mem (List.mem_of_getElem? ho)
  have hsame : bare "0x02" = bare "0x01" := by
    rw [← List.mem_singleton.mp hin]
    exact hobject.symm
  simp [bare] at hsame

end Events
end Worker
end ComputePool
