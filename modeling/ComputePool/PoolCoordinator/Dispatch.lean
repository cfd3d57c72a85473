import ComputePool.Lib.RecentKeys
import ComputePool.PoolCoordinator.Events

/-!
# What is dispatched

Every log of a poll that succeeds is dispatched, and none twice as long as a
log that comes back is among the last `SEEN_EVENTS_CAP` distinct ones: the set of
seen events is a bounded memory, and the re-scanned range may hold more events than
it remembers.  One log that does not decode fails the poll of its range, and the others wait
for a poll that succeeds.  The index of a log is cut to 32 bits on its way, which is the
only way an event is passed on as another than it is.
-/

namespace ComputePool
namespace PoolCoordinator

open RustStd Federated

/-! ## The seen set -/

/-- The set and the queue hold the same keys, each once. -/
structure SeenEvents.Sound (seen : SeenEvents) : Prop where
  nodup : seen.order.Nodup
  same : seen.set = seen.order.toFinset

namespace SeenEvents

theorem sound_withCap (cap : Nat) : (withCap cap).Sound := ⟨List.nodup_nil, rfl⟩

/-- The eviction loop drops what is too many from the front of the queue, and the
same keys from the set. -/
theorem evict_eq (cap : Nat) {order : List EventKey} (hnodup : order.Nodup) :
    evict cap order.toFinset order =
      ((order.drop (order.length + 1 - cap)).toFinset, order.drop (order.length + 1 - cap)) := by
  induction order with
  | nil => simp [evict]
  | cons oldest rest ih =>
      have hcard : (oldest :: rest).toFinset.card = rest.length + 1 := by
        rw [List.toFinset_card_of_nodup hnodup, List.length_cons]
      have hout : oldest ∉ rest := (List.nodup_cons.mp hnodup).1
      rw [evict, hcard, List.length_cons]
      by_cases hfull : rest.length + 1 ≥ cap
      · have herase : (oldest :: rest).toFinset.erase oldest = rest.toFinset := by
          rw [List.toFinset_cons, Finset.erase_insert (by simpa using hout)]
        have hsteps : rest.length + 1 + 1 - cap = rest.length + 1 - cap + 1 := by omega
        rw [if_pos hfull, herase, ih (List.nodup_cons.mp hnodup).2, hsteps, List.drop_succ_cons]
      · have hsteps : rest.length + 1 + 1 - cap = 0 := by omega
        rw [if_neg hfull, hsteps, List.drop_zero]

/-- `insert` is the bounded memory of the keys it was given. -/
theorem insert_spec {seen : SeenEvents} (h : seen.Sound) (key : EventKey) :
    (seen.insert key).1.Sound ∧ (seen.insert key).1.cap = seen.cap ∧
      (seen.insert key).1.order = RecentKeys.remember seen.cap seen.order key ∧
      (seen.insert key).2 = decide (key ∉ seen.order) := by
  have hmem : key ∈ seen.set ↔ key ∈ seen.order := by rw [h.same, List.mem_toFinset]
  unfold insert RecentKeys.remember
  by_cases hin : key ∈ seen.order
  · rw [if_pos (hmem.mpr hin), if_pos hin]
    exact ⟨h, rfl, rfl, by simp [hin]⟩
  · rw [if_neg (mt hmem.mp hin), if_neg hin, h.same, evict_eq seen.cap h.nodup]
    have hout : key ∉ seen.order.drop (seen.order.length + 1 - seen.cap) :=
      fun hdrop => hin (List.mem_of_mem_drop hdrop)
    refine ⟨⟨?_, ?_⟩, rfl, rfl, by simp [hin]⟩
    · apply List.Nodup.append (h.nodup.sublist (List.drop_sublist _ _)) (List.nodup_singleton key)
      rw [List.disjoint_singleton]
      exact hout
    · ext k
      simp

end SeenEvents

/-- The dispatch loop passes the fresh keys, and leaves the memory of all. -/
theorem dispatch_spec (events : List PolledEvent) : ∀ {seen : SeenEvents}, seen.Sound →
    (dispatch seen events).1.Sound ∧ (dispatch seen events).1.cap = seen.cap ∧
      (dispatch seen events).1.order =
        RecentKeys.feed seen.cap seen.order (events.map PolledEvent.key) ∧
      (dispatch seen events).2.map PolledEvent.key =
        RecentKeys.fresh seen.cap seen.order (events.map PolledEvent.key) := by
  induction events with
  | nil => exact fun h => ⟨h, rfl, rfl, rfl⟩
  | cons event rest ih =>
      intro seen h
      obtain ⟨hsound, hcap, horder, hnew⟩ := SeenEvents.insert_spec h event.key
      obtain ⟨hsound', hcap', horder', hpassed⟩ := ih hsound
      rw [hcap, horder] at horder' hpassed
      refine ⟨hsound', hcap'.trans hcap, horder', ?_⟩
      rw [List.map_cons, RecentKeys.fresh, dispatch]
      by_cases hin : event.key ∈ seen.order
      · have hstay : RecentKeys.remember seen.cap seen.order event.key = seen.order := if_pos hin
        rw [hstay] at hpassed
        simpa [hnew, hin] using hpassed
      · simpa [hnew, hin] using hpassed

/-! ## What a tick scans -/

/-- Where a log is: the key of its event. -/
def Log.key (log : Log) : EventKey := (log.txHash, UInt32.ofNat log.logIndex)

/-- The logs of the range a tick polls; none if it polls no range. -/
def scan (a : HttpChainAdapter) (buffer : Nat) (loop : EventLoop) (node : NodeAnswers) :
    Except EventError (List Log) := do
  let latest ← latestBlock node
  match pollRange buffer loop.lastBlock latest with
  | none => .ok []
  | some (fromBlock, toBlock) => decodeLogs a (node.logs fromBlock toBlock)

/-- The logs a run of the daemon scans: a tick that fails is no scan. -/
def scannedLogs (a : HttpChainAdapter) (buffer : Nat) : Daemon → List NodeAnswers → List Log
  | _, [] => []
  | d, node :: rest =>
      (scan a buffer d.loop node).toOption.getD [] ++
        scannedLogs a buffer ((daemon a buffer).step d node) rest

/-- The node returned this log for the range that a tick polls. -/
def ReturnedLog (a : HttpChainAdapter) (buffer : Nat) (loop : EventLoop) (node : NodeAnswers)
    (log : Log) : Prop :=
  ∃ latest fromBlock toBlock entries entry,
    latestBlock node = .ok latest ∧
      pollRange buffer loop.lastBlock latest = some (fromBlock, toBlock) ∧
      rpcResult "eth_getLogs" (node.logs fromBlock toBlock) = .ok (.array entries) ∧
      entry ∈ entries ∧ decodeLog a entry = .ok log

/-- Every event is passed on once: none twice, every decodable log of a polled range, also
where the poll fails, and the seen set keeps its shape, in the midst of a tick too. -/
structure DispatchesOnce (a : HttpChainAdapter) (buffer startingBlock : Nat)
    (nodes : List NodeAnswers) : Prop where
  atMostOnce : (((daemon a buffer).run (.start startingBlock) nodes).dispatched.map
    PolledEvent.key).Nodup
  complete : ∀ front node back log, nodes = front ++ node :: back →
    ReturnedLog a buffer ((daemon a buffer).run (.start startingBlock) front).loop node log →
    ∃ event ∈ ((daemon a buffer).run (.start startingBlock) nodes).dispatched,
      event.txHash = log.txHash ∧ event.logIndex.toNat = log.logIndex
  seenSound : ∀ front, front <+: nodes → ∀ events,
    (dispatch ((daemon a buffer).run (.start startingBlock) front).loop.seen events).1.Sound

/-- The decodable logs of a poll that fails come back in a tick that succeeds. -/
def ComesBack (a : HttpChainAdapter) (buffer startingBlock : Nat) (nodes : List NodeAnswers) : Prop :=
  ∀ front node back log e, nodes = front ++ node :: back →
    tick a buffer ((daemon a buffer).run (.start startingBlock) front).loop node = .error e →
    ReturnedLog a buffer ((daemon a buffer).run (.start startingBlock) front).loop node log →
    ∃ log' ∈ scannedLogs a buffer (.start startingBlock) nodes,
      log'.txHash = log.txHash ∧ log'.logIndex = log.logIndex

variable {a : HttpChainAdapter} {buffer : Nat}

theorem mapM_ok_mem {entries : List Json} {logs : List Log}
    (h : entries.mapM (decodeLog a) = .ok logs) {log : Log} :
    log ∈ logs ↔ ∃ entry ∈ entries, decodeLog a entry = .ok log := by
  induction entries generalizing logs with
  | nil =>
      cases h
      simp
  | cons entry rest ih =>
      rw [List.mapM_cons] at h
      obtain ⟨first, hfirst, h⟩ := bind_eq_ok.mp h
      obtain ⟨others, hothers, h⟩ := bind_eq_ok.mp h
      cases h
      simp only [List.mem_cons, ih hothers, exists_eq_or_imp, hfirst, Except.ok.injEq]
      exact or_congr_left eq_comm

theorem pollComputeRequested_eq {node : NodeAnswers} {fromBlock toBlock : Nat} :
    (∃ e, pollComputeRequested a node fromBlock toBlock = .error e ∧
      decodeLogs a (node.logs fromBlock toBlock) = .error e) ∨
    ∃ events logs, pollComputeRequested a node fromBlock toBlock = .ok events ∧
      decodeLogs a (node.logs fromBlock toBlock) = .ok logs ∧
      events.map PolledEvent.key = logs.map Log.key := by
  unfold pollComputeRequested
  cases hlogs : decodeLogs a (node.logs fromBlock toBlock) with
  | error e => exact .inl ⟨e, rfl, rfl⟩
  | ok logs =>
      refine .inr ⟨_, logs, rfl, rfl, ?_⟩
      rw [List.map_map]
      have hkey : ∀ (log : Log) (i : Nat), (eventOf log (node.job i log.jobId)).key = log.key :=
        fun _ _ => rfl
      calc _ = logs.zipIdx.map fun p => p.1.key := List.map_congr_left fun p _ => hkey p.1 p.2
        _ = (logs.zipIdx.map Prod.fst).map Log.key := by
          rw [List.map_map]
          rfl
        _ = logs.map Log.key := by rw [List.zipIdx_map_fst]

/-- A tick fails as its scan does, and otherwise dispatches what it scanned. -/
theorem tick_cases (loop : EventLoop) (node : NodeAnswers) :
    (∃ e, tick a buffer loop node = .error e ∧ scan a buffer loop node = .error e) ∨
    ∃ t logs events, tick a buffer loop node = .ok t ∧ scan a buffer loop node = .ok logs ∧
      events.map PolledEvent.key = logs.map Log.key ∧
      t.next.seen = (dispatch loop.seen events).1 ∧
      t.dispatched = (dispatch loop.seen events).2 := by
  unfold tick scan
  cases hlatest : latestBlock node with
  | error e => exact .inl ⟨e, rfl, rfl⟩
  | ok latest =>
      cases hrange : pollRange buffer loop.lastBlock latest with
      | none =>
          refine .inr ⟨⟨loop, []⟩, [], [], ?_, ?_, rfl, rfl, rfl⟩
          · simp only [bind, Except.bind, hrange]
          · simp only [bind, Except.bind, hrange]
      | some range =>
          simp only [bind, Except.bind, hrange]
          rcases @pollComputeRequested_eq a node range.1 range.2 with
            ⟨e, hpoll, hlogs⟩ | ⟨events, logs, hpoll, hlogs, hkeys⟩
          · rw [hpoll, hlogs]
            exact .inl ⟨e, rfl, rfl⟩
          · rw [hpoll, hlogs]
            exact .inr ⟨_, logs, events, rfl, rfl, hkeys, rfl, rfl⟩

/-! ## What a run dispatches -/

theorem scannedLogs_concat (d : Daemon) (front : List NodeAnswers) (node : NodeAnswers) :
    scannedLogs a buffer d (front ++ [node]) =
      scannedLogs a buffer d front ++
        (scan a buffer ((daemon a buffer).run d front).loop node).toOption.getD [] := by
  induction front generalizing d with
  | nil => simp [scannedLogs]
  | cons first rest ih =>
      rw [List.cons_append, scannedLogs, scannedLogs, ih, List.append_assoc]
      rfl

/-- The invariant of a run: the seen set is sound, and it and the dispatched events
are those of a bounded memory fed with the scanned logs. -/
structure Tracks (d : Daemon) (keys : List EventKey) : Prop where
  sound : d.loop.seen.Sound
  cap : d.loop.seen.cap = SEEN_EVENTS_CAP
  order : d.loop.seen.order = RecentKeys.feed SEEN_EVENTS_CAP [] keys
  dispatched : d.dispatched.map PolledEvent.key = RecentKeys.fresh SEEN_EVENTS_CAP [] keys

theorem Tracks.step {d : Daemon} {keys : List EventKey} (h : Tracks d keys) (node : NodeAnswers) :
    Tracks ((daemon a buffer).step d node)
      (keys ++ ((scan a buffer d.loop node).toOption.getD []).map Log.key) := by
  unfold daemon
  dsimp only
  rcases @tick_cases a buffer d.loop node with
    ⟨e, htick, hscan⟩ | ⟨t, logs, events, htick, hscan, hkeys, hseen, hdispatched⟩
  · rw [htick, hscan]
    simpa [Except.toOption] using h
  · rw [htick, hscan]
    obtain ⟨hsound, hcap, horder, hpassed⟩ := dispatch_spec events h.sound
    rw [h.cap, h.order, hkeys] at horder hpassed
    refine ⟨?_, ?_, ?_, ?_⟩
    · exact hseen ▸ hsound
    · exact hseen ▸ hcap.trans h.cap
    · dsimp only
      rw [hseen, horder]
      exact (List.foldl_append ..).symm
    · dsimp only
      rw [List.map_append, hdispatched, hpassed, h.dispatched]
      exact (RecentKeys.fresh_append _ _ _).symm

theorem tracks_run (startingBlock : Nat) (nodes : List NodeAnswers) :
    Tracks ((daemon a buffer).run (.start startingBlock) nodes)
      ((scannedLogs a buffer (.start startingBlock) nodes).map Log.key) := by
  induction nodes using List.reverseRecOn with
  | nil => exact ⟨SeenEvents.sound_withCap _, rfl, rfl, rfl⟩
  | append_singleton front node ih =>
      rw [Machine.run_concat, scannedLogs_concat, List.map_append]
      exact ih.step node

/-- The logs a scan finds are those the node returned for the range. -/
theorem mem_scan_iff {loop : EventLoop} {node : NodeAnswers} {logs : List Log} {log : Log}
    (h : scan a buffer loop node = .ok logs) :
    log ∈ logs ↔ ReturnedLog a buffer loop node log := by
  unfold scan at h
  obtain ⟨latest, hlatest, h⟩ := bind_eq_ok.mp h
  unfold ReturnedLog
  cases hrange : pollRange buffer loop.lastBlock latest with
  | none =>
      simp only [hrange] at h
      cases h
      simp [hlatest, hrange]
  | some range =>
      simp only [hrange] at h
      unfold decodeLogs at h
      obtain ⟨result, hresult, h⟩ := bind_eq_ok.mp h
      obtain ⟨entries, hentries, h⟩ := bind_eq_ok.mp h
      have harray : result = .array entries := by
        cases result <;> cases okOr_eq_ok.mp hentries
        rfl
      have hreply : rpcResult "eth_getLogs" (node.logs range.1 range.2) = .ok (.array entries) := by
        cases hcase : rpcResult "eth_getLogs" (node.logs range.1 range.2) with
        | error e =>
            rw [hcase] at hresult
            cases hresult
        | ok v =>
            rw [hcase] at hresult
            cases hresult
            rw [harray]
      rw [mapM_ok_mem h]
      constructor
      · rintro ⟨entry, hmem, hdecode⟩
        exact ⟨latest, range.1, range.2, entries, entry, hlatest, hrange, hreply, hmem, hdecode⟩
      · rintro ⟨latest', fromBlock, toBlock, entries', entry, hlatest', hrange', hreply', hmem, hdecode⟩
        rw [hlatest] at hlatest'
        cases hlatest'
        rw [hrange] at hrange'
        cases hrange'
        rw [hreply] at hreply'
        cases hreply'
        exact ⟨entry, hmem, hdecode⟩

theorem mem_scannedLogs {d : Daemon} {nodes : List NodeAnswers} {log : Log} :
    log ∈ scannedLogs a buffer d nodes ↔ ∃ front node back t, nodes = front ++ node :: back ∧
      tick a buffer ((daemon a buffer).run d front).loop node = .ok t ∧
      ReturnedLog a buffer ((daemon a buffer).run d front).loop node log := by
  induction nodes generalizing d with
  | nil => simp [scannedLogs]
  | cons node rest ih =>
      rw [scannedLogs, List.mem_append, ih]
      constructor
      · rintro (hhere | ⟨front, later, back, t, rfl, htick, hreturned⟩)
        · rcases @tick_cases a buffer d.loop node with
            ⟨e, -, hscan⟩ | ⟨t, logs, events, htick, hscan, -⟩
          · rw [hscan] at hhere
            cases hhere
          · rw [hscan] at hhere
            exact ⟨[], node, rest, t, rfl, htick, (mem_scan_iff hscan).mp hhere⟩
        · exact ⟨node :: front, later, back, t, rfl, htick, hreturned⟩
      · rintro ⟨front, later, back, t, hsplit, htick, hreturned⟩
        cases front with
        | nil =>
            cases hsplit
            rcases @tick_cases a buffer d.loop node with
              ⟨e, hfailed, -⟩ | ⟨t', logs, events, -, hscan, -⟩
            · rw [Machine.run_nil, hfailed] at htick
              cases htick
            · rw [hscan]
              exact .inl ((mem_scan_iff hscan).mpr hreturned)
        | cons first front =>
            cases hsplit
            exact .inr ⟨front, later, back, t, rfl, htick, hreturned⟩

/-- What was dispatched was scanned, and what was scanned was dispatched. -/
theorem mem_dispatched_keys {startingBlock : Nat} {nodes : List NodeAnswers} {key : EventKey} :
    (∃ event ∈ ((daemon a buffer).run (.start startingBlock) nodes).dispatched, event.key = key) ↔
      ∃ log ∈ scannedLogs a buffer (.start startingBlock) nodes, log.key = key := by
  rw [← List.mem_map, ← List.mem_map, (tracks_run startingBlock nodes).dispatched]
  exact ⟨RecentKeys.mem_of_mem_fresh, RecentKeys.mem_fresh (by decide)⟩

theorem event_key_iff {event : PolledEvent} {log : Log} (hfits : log.logIndex < 2 ^ 32) :
    event.key = log.key ↔ event.txHash = log.txHash ∧ event.logIndex.toNat = log.logIndex := by
  rw [PolledEvent.key, Log.key, Prod.mk.injEq, ← UInt32.toNat_inj, UInt32.toNat_ofNat',
    Nat.mod_eq_of_lt hfits]

/-- In every run, against every node, every event is passed on once exactly when
every log that comes back is among the last `SEEN_EVENTS_CAP` distinct ones, no
index of a log is cut, and the decodable logs of a failed poll are found again. -/
theorem dispatches_once_iff (a : HttpChainAdapter) (buffer startingBlock : Nat)
    (nodes : List NodeAnswers) :
    DispatchesOnce a buffer startingBlock nodes ↔
      RecentKeys.Within SEEN_EVENTS_CAP
        ((scannedLogs a buffer (.start startingBlock) nodes).map Log.key) ∧
      (∀ log ∈ scannedLogs a buffer (.start startingBlock) nodes, log.logIndex < 2 ^ 32) ∧
      ComesBack a buffer startingBlock nodes := by
  have hcap : 0 < SEEN_EVENTS_CAP := by decide
  have htracks := @tracks_run a buffer startingBlock nodes
  constructor
  · intro h
    have hfits : ∀ log ∈ scannedLogs a buffer (.start startingBlock) nodes, log.logIndex < 2 ^ 32 := by
      intro log hlog
      obtain ⟨front, node, back, t, hsplit, -, hreturned⟩ := mem_scannedLogs.mp hlog
      obtain ⟨event, -, -, hindex⟩ := h.complete front node back log hsplit hreturned
      rw [← hindex]
      exact event.logIndex.toNat_lt
    refine ⟨?_, hfits, fun front node back log e hsplit _ hreturned => ?_⟩
    · rw [← RecentKeys.fresh_nodup_iff hcap, ← htracks.dispatched]
      exact h.atMostOnce
    · obtain ⟨event, hevent, htx, hindex⟩ := h.complete front node back log hsplit hreturned
      obtain ⟨log', hlog', hkey⟩ := mem_dispatched_keys.mp ⟨event, hevent, rfl⟩
      obtain ⟨htx', hindex'⟩ := (event_key_iff (hfits log' hlog')).mp hkey.symm
      exact ⟨log', hlog', htx'.symm.trans htx, hindex'.symm.trans hindex⟩
  · rintro ⟨hwithin, hfits, hback⟩
    refine ⟨?_, fun front node back log hsplit hreturned => ?_, fun front _ events => ?_⟩
    · rw [htracks.dispatched, RecentKeys.fresh_nodup_iff hcap]
      exact hwithin
    · -- a poll that succeeds is a scan; one that fails has its logs in a later scan
      obtain ⟨log', hlog', htx, hindex⟩ : ∃ log' ∈ scannedLogs a buffer (.start startingBlock) nodes,
          log'.txHash = log.txHash ∧ log'.logIndex = log.logIndex := by
        cases htick : tick a buffer ((daemon a buffer).run (.start startingBlock) front).loop node with
        | ok t =>
            exact ⟨log, mem_scannedLogs.mpr ⟨front, node, back, t, hsplit, htick, hreturned⟩, rfl, rfl⟩
        | error e => exact hback front node back log e hsplit htick hreturned
      obtain ⟨event, hevent, hkey⟩ := mem_dispatched_keys.mpr ⟨log', hlog', rfl⟩
      obtain ⟨htx', hindex'⟩ := (event_key_iff (hfits log' hlog')).mp hkey
      exact ⟨event, hevent, htx'.trans htx, hindex'.trans hindex⟩
    · exact (dispatch_spec events (tracks_run startingBlock front).sound).1

/-! ## A range with more events than are remembered -/

theorem hexDecode_hex0x (bytes : List UInt8) :
    hexDecode (trimStart0x (hex0x bytes).toList) = some bytes := by
  have hstrip : trimStart0x ('0' :: 'x' :: hexChars bytes) = trimStart0x (hexChars bytes) := rfl
  rw [hex0x, String.toList_ofList, hstrip, trimStart0x_hexChars, hexDecode_hexChars]

def floodAdapter : HttpChainAdapter where
  hashes := ⟨fun _ => FixedBytes.zero, fun _ => FixedBytes.zero⟩
  chainId := 40204
  poolContract := FixedBytes.ofNat 7
  wallet := ⟨FixedBytes.zero, fun _ => .ok []⟩

/-- The `i`-th log of the flood; its transaction has the hash `i`. -/
def floodEntry (i : Nat) : Json :=
  .object
    [("topics", .array (List.replicate 4 (.string (hex0x (FixedBytes.zero : H256).toBytes)))),
      ("address", .string (hex0x (FixedBytes.ofNat 7 : H160).toBytes)),
      ("data", .string (hex0x (u256Word 0))),
      ("transactionHash", .string (hex0x (FixedBytes.ofNat i : H256).toBytes)),
      ("logIndex", .string "0x0"), ("blockNumber", .string "0x1")]

def floodLog (i : Nat) : Log := ⟨0, 0, FixedBytes.ofNat 0, 0, FixedBytes.ofNat i, 0, 1⟩

theorem decodeTxHash_floodEntry (i : Nat) :
    decodeTxHash (floodEntry i) = some (FixedBytes.ofNat i) := by
  have hget : ((floodEntry i).get "transactionHash").bind Json.asStr =
      some (hex0x (FixedBytes.ofNat i : H256).toBytes) := rfl
  rw [decodeTxHash, hget, Option.bind_some, hexDecode_hex0x, Option.bind_some,
    dif_pos (FixedBytes.toBytes_length _)]
  rfl

/-- A log whose fields are all well formed decodes. -/
theorem decodeLog_eq_ok {entry : Json} {sig pool job requester address text : String}
    {poolId jobId logIndex blockNumber : Nat} {who : H160} {data : List UInt8} {txHash : H256}
    (htopics : (entry.get "topics").bind Json.asArray =
      some [.string sig, .string pool, .string job, .string requester])
    (hsig : eqIgnoreAsciiCase sig (eventSigHex a.hashes) = true)
    (haddress : (entry.get "address").bind Json.asStr = some address)
    (hemitter : hexDecode (trimStart0x address.toList) = some a.poolContract.toBytes)
    (hpool : topicAsU64 (some pool) = .ok poolId) (hjob : topicAsU64 (some job) = .ok jobId)
    (hwho : topicAsAddress (some requester) = .ok who)
    (htext : (entry.get "data").bind Json.asStr = some text)
    (hdata : hexDecode (trimStart0x text.toList) = some data) (hlong : ¬ data.length < 32)
    (htx : decodeTxHash entry = some txHash)
    (hindex : decodeQuantity "logIndex" entry = .ok logIndex)
    (hblock : decodeQuantity "blockNumber" entry = .ok blockNumber) :
    decodeLog a entry =
      .ok ⟨poolId, jobId, who, beNat (data.take 32), txHash, logIndex, blockNumber⟩ := by
  have hstr : ∀ s : String, (Json.string s).asStr = some s := fun _ => rfl
  simp [decodeLog, bind, Except.bind, htopics, hstr, hsig, haddress, hemitter, hpool, hjob, hwho, htext,
    hdata, hlong, htx, hindex, hblock]

theorem eq_ok_of_toOption {ε α : Type} {r : Except ε α} {x : α} (h : r.toOption = some x) :
    r = .ok x := by
  cases r with
  | error e => cases h
  | ok y => exact congrArg Except.ok (Option.some.inj h)

theorem decodeLog_floodEntry (i : Nat) :
    decodeLog floodAdapter (floodEntry i) = .ok (floodLog i) := by
  have hsig : eqIgnoreAsciiCase (hex0x (FixedBytes.zero : H256).toBytes)
      (eventSigHex floodAdapter.hashes) = true := by
    have hsame : eventSigHex floodAdapter.hashes = hex0x (FixedBytes.zero : H256).toBytes := rfl
    rw [eqIgnoreAsciiCase, hsame, beq_self_eq_true]
  have hindex : decodeQuantity "logIndex" (floodEntry i) = .ok 0 := rfl
  have hblock : decodeQuantity "blockNumber" (floodEntry i) = .ok 1 := rfl
  have hword : topicAsU64 (some (hex0x (FixedBytes.zero : H256).toBytes)) = .ok 0 :=
    eq_ok_of_toOption (by decide +kernel)
  have hwho : topicAsAddress (some (hex0x (FixedBytes.zero : H256).toBytes)) =
      .ok (FixedBytes.ofNat 0) := eq_ok_of_toOption (by decide +kernel)
  have hemitter := hexDecode_hex0x floodAdapter.poolContract.toBytes
  have hdecoded := @decodeLog_eq_ok floodAdapter (floodEntry i) _ _ _ _ _ _ _ _ _ _ _ _ _ rfl hsig rfl hemitter
    hword hword hwho rfl (hexDecode_hex0x _) (by decide) (decodeTxHash_floodEntry i) hindex hblock
  exact hdecoded

/-- A node at block `latest` that returns these logs for every range. -/
def rangeNode (entries : List Json) (latest : String) : NodeAnswers where
  latestBlock := .value (.object [("result", .string latest)])
  logs _ _ := .value (.object [("result", .array entries)])
  job _ _ := .transport "connection refused"

/-- One log more than are remembered. -/
def floodEntries : List Json := (List.range (SEEN_EVENTS_CAP + 1)).map floodEntry

def floodLogs : List Log := (List.range (SEEN_EVENTS_CAP + 1)).map floodLog

theorem mapM_floodEntries : floodEntries.mapM (decodeLog floodAdapter) = .ok floodLogs := by
  have hall : ∀ items : List Nat,
      (items.map floodEntry).mapM (decodeLog floodAdapter) = .ok (items.map floodLog) := by
    intro items
    induction items with
    | nil => rfl
    | cons i rest ih =>
        rw [List.map_cons, List.mapM_cons, decodeLog_floodEntry, ih]
        rfl
  exact hall _

/-- Two blocks after another, of which the second re-scans the first. -/
theorem scannedLogs_twice {entries : List Json} {logs : List Log}
    (h : entries.mapM (decodeLog floodAdapter) = .ok logs) :
    scannedLogs floodAdapter 12 (.start 0) [rangeNode entries "0x1", rangeNode entries "0x2"] =
      logs ++ logs := by
  have hdecode : ∀ latest fromBlock toBlock,
      decodeLogs floodAdapter ((rangeNode entries latest).logs fromBlock toBlock) = .ok logs :=
    fun _ _ _ => h
  have hfirst : latestBlock (rangeNode entries "0x1") = .ok 1 := rfl
  have hsecond : latestBlock (rangeNode entries "0x2") = .ok 2 := rfl
  have hscan : ∀ loop latest n range, latestBlock (rangeNode entries latest) = .ok n →
      pollRange 12 loop.lastBlock n = some range →
      scan floodAdapter 12 loop (rangeNode entries latest) = .ok logs := by
    intro loop latest n range hlatest hrange
    simp only [scan, bind, Except.bind, hlatest, hrange, hdecode]
  have hstep : ((daemon floodAdapter 12).step (.start 0) (rangeNode entries "0x1")).loop.lastBlock
      = 1 := by
    have hrange : pollRange 12 (Daemon.start 0).loop.lastBlock 1 = some (1, 1) := rfl
    simp only [daemon, tick, pollComputeRequested, bind, Except.bind, hfirst, hrange, hdecode]
  rw [scannedLogs, hscan _ _ 1 (1, 1) hfirst rfl, scannedLogs,
    hscan _ _ 2 (1, 2) hsecond (by rw [hstep]; rfl)]
  simp [scannedLogs, Except.toOption]

theorem floodLogs_keys :
    ∃ key keys, floodLogs.map Log.key = key :: keys ∧ (key :: keys).Nodup ∧
      SEEN_EVENTS_CAP ≤ keys.length := by
  have hnodup : (floodLogs.map Log.key).Nodup := by
    rw [floodLogs, List.map_map]
    apply List.Nodup.map_on _ List.nodup_range
    intro i hi j hj hsame
    have hbytes : toBE 32 i = toBE 32 j := congrArg (fun k => k.1.1) hsame
    have hbound : SEEN_EVENTS_CAP + 1 ≤ 256 ^ 32 := by decide
    exact toBE_injective ((List.mem_range.mp hi).trans_le hbound)
      ((List.mem_range.mp hj).trans_le hbound) hbytes
  have hlength : (floodLogs.map Log.key).length = SEEN_EVENTS_CAP + 1 := by
    rw [floodLogs, List.length_map, List.length_map, List.length_range]
  cases hkeys : floodLogs.map Log.key with
  | nil =>
      rw [hkeys] at hlength
      cases hlength
  | cons key keys =>
      rw [hkeys] at hnodup hlength
      refine ⟨key, keys, rfl, hnodup, ?_⟩
      rw [List.length_cons] at hlength
      omega

/-- The range is scanned again with the next block, and its first event is
dispatched a second time. -/
theorem rescan_dispatches_twice :
    ¬ ∀ (a : HttpChainAdapter) (buffer startingBlock : Nat) (nodes : List NodeAnswers),
      DispatchesOnce a buffer startingBlock nodes := by
  intro hall
  have honce := (hall floodAdapter 12 0
    [rangeNode floodEntries "0x1", rangeNode floodEntries "0x2"]).atMostOnce
  obtain ⟨key, keys, hkeys, hnodup, hlong⟩ := floodLogs_keys
  rw [(tracks_run 0 _).dispatched, RecentKeys.fresh_nodup_iff (by decide),
    scannedLogs_twice mapM_floodEntries, List.map_append, hkeys] at honce
  exact RecentKeys.not_within_of_overflow hnodup hlong honce

end PoolCoordinator
end ComputePool
