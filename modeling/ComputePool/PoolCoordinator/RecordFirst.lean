import ComputePool.PoolCoordinator.HandleEvent

/-!
# Record before prompt

In every run of `handle_event` the effects come in one order, and the prompt is
sent only after `recordDispatch` returned.  What that return is worth depends on
the receipt: `wait_for_receipt` also returns when its time is up, and takes a
receipt whose status it cannot read for a success.
-/

namespace ComputePool
namespace PoolCoordinator

open RustStd Federated Interaction

/-! ## What a run shows -/

/-- The effects that are ordered; reading the members and building the client are
steps on the way. -/
inductive Label where
  | election
  | record
  | prompt
  | completion
  | failure
  deriving DecidableEq

def EffectCall.label : EffectCall → Option Label
  | .coordinatorFor _ _ => some .election
  | .poolMembers _ => none
  | .recordDispatch _ _ => some .record
  | .buildClient => none
  | .poolInfer _ _ _ => some .prompt
  | .completeJob _ => some .completion
  | .failJob _ => some .failure

def labels (h : History Effect) : List Label := h.filterMap fun x => x.call.label

/-- The call speaks of this event. -/
def EffectCall.Concerns (event : ComputeRequestedEvent) : EffectCall → Prop
  | .coordinatorFor poolId epoch => poolId = event.poolId ∧ epoch = epochOf event.blockNumber
  | .poolMembers poolId => poolId = event.poolId
  | .recordDispatch jobId _ => jobId = event.jobId
  | .buildClient => True
  | .poolInfer _ body _ => body = poolInferRequest event
  | .completeJob jobId => jobId = event.jobId
  | .failJob jobId => jobId = event.jobId

/-- The effects happen in the order admission, election, record, prompt, then
exactly one of completion and failure. -/
structure InOrder (selfAddress : H160) (cfg : CoordinatorConfig) (event : ComputeRequestedEvent)
    (h : History Effect) : Prop where
  concerns : ∀ x ∈ h, x.call.Concerns event
  admitted : h ≠ [] → admission cfg event = .ok ()
  elected : .record ∈ labels h →
    ∃ took, ⟨.coordinatorFor event.poolId (epochOf event.blockNumber), .ok selfAddress, took⟩ ∈ h
  order : labels h <+: [.election, .record, .prompt, .completion] ∨
    labels h <+: [.election, .record, .prompt, .failure]
  closed : .prompt ∈ labels h → (.completion ∈ labels h ↔ .failure ∉ labels h)

/-- The non-null receipt an exchange brought, if it is a poll for one. -/
def receiptSeen : Exchange Wire → Option Json
  | ⟨.rpc method _, reply, _⟩ =>
      if method = receiptMethod then
        match rpcResult method reply with
        | .ok receipt => if receipt.isNull then none else some receipt
        | .error _ => none
      else none
  | _ => none

/-- `recordDispatch(jobId)` was signed and sent, and then a receipt of that
transaction with status one came back. -/
def SeenMined (a : HttpChainAdapter) (jobId : Nat) (wire : History Wire) : Prop :=
  ∃ nonce gasPrice signed receipt, ∃ sent poll : Exchange Wire,
    a.wallet.signEip1559 (a.writeTx (a.recordDispatchData jobId) nonce gasPrice) = .ok signed ∧
      [sent, poll].Sublist wire ∧
      sent.call = .rpc "eth_sendRawTransaction" (.array [.string (hex0x signed)]) ∧
      poll.call = .rpc receiptMethod
        (.array [.string (hex0x (txHashOfSigned a.hashes signed).toBytes)]) ∧
      receiptSeen poll = some receipt ∧ statusOf receipt = some 1

/-- The prompt goes out only after `recordDispatch` for that job was seen mined
with success, and all effects are in order. -/
structure RecordBeforePrompt (a : HttpChainAdapter) (cfg : CoordinatorConfig)
    (event : ComputeRequestedEvent) (spans : List (Span Effect Wire)) : Prop where
  inOrder : InOrder a.wallet.address cfg event (spans.map Span.exchange)
  mined : ∀ front prompt back, spans = front ++ prompt :: back →
    prompt.call.label = some .prompt →
    ∃ record ∈ front, record.call.label = some .record ∧ SeenMined a event.jobId record.wire

/-- The last exchange says how the write stands: it is not a sleep that the
deadline cut off, and if it is a receipt, its status reads as zero or one. -/
def Telling (wire : History Wire) : Prop :=
  ∀ last, wire.getLast? = some last →
    (∀ nanos, last.call ≠ .sleep nanos) ∧
      ∀ receipt, receiptSeen last = some receipt →
        statusOf receipt = some 0 ∨ statusOf receipt = some 1

/-! ## The receipt poll -/

/-- How a write that returned `Ok` ended: it was sent, no receipt came before the
last exchange, and that is a sleep or a receipt of a transaction not reverted. -/
structure PollEnd (txHash : H256) (sent : Exchange Wire) (front : History Wire)
    (last : Exchange Wire) : Prop where
  sent_mem : sent ∈ front
  unseen : ∀ x ∈ front, receiptSeen x = none
  ending : (∃ nanos, last.call = .sleep nanos) ∨
    ∃ receipt, receiptSeen last = some receipt ∧ statusOf receipt ≠ some 0 ∧
      last.call = .rpc receiptMethod (.array [.string (hex0x txHash.toBytes)])

theorem telling_concat {front : History Wire} {last : Exchange Wire} :
    Telling (front ++ [last]) ↔ (∀ nanos, last.call ≠ .sleep nanos) ∧
      ∀ receipt, receiptSeen last = some receipt →
        statusOf receipt = some 0 ∨ statusOf receipt = some 1 := by
  simp [Telling]

/-- An exchange that brought no receipt tells how the write stands, unless it is
a sleep: nothing was waited for. -/
theorem telling_of_unseen {front : History Wire} {last : Exchange Wire}
    (hawake : ∀ nanos, last.call ≠ .sleep nanos) (hunseen : receiptSeen last = none) :
    Telling (front ++ [last]) := by
  rw [telling_concat]
  refine ⟨hawake, fun receipt hseen => ?_⟩
  rw [hunseen] at hseen
  cases hseen

theorem ensures_rpc {ok : Json → History Wire → Prop}
    {err : Stop CoordinatorError → History Wire → Prop} {method : String} {params : Json}
    {h : History Wire} :
    Fallible.Ensures ok err (rpc method params) h ↔ ∀ (reply : RpcReply) took,
      (∀ v, rpcResult method reply = .ok v → ok v (h ++ [⟨.rpc method params, reply, took⟩])) ∧
        ∀ e, rpcResult method reply = .error e →
          err (chainError e) (h ++ [⟨.rpc method params, reply, took⟩]) := by
  rw [rpc, Fallible.ensures_bind, Fallible.ensures_ask]
  refine forall_congr' fun reply => forall_congr' fun took => ?_
  rw [imp_iff_right (show Wire.cost (.rpc method params) ≤ took from Nat.zero_le _), ofResult,
    Fallible.ensures_ofExcept]
  cases rpcResult method reply with
  | ok v => simp [Except.mapError]
  | error e => simp [Except.mapError]

theorem receiptSeen_of_error {params : Json} {reply : RpcReply} {took : Nat} {method : String}
    {e : ChainError} (h : rpcResult method reply = .error e) :
    receiptSeen ⟨.rpc method params, reply, took⟩ = none := by
  simp only [receiptSeen, h, ite_self]

theorem receiptSeen_of_method {params : Json} {reply : RpcReply} {took : Nat} {method : String}
    (h : method ≠ receiptMethod) : receiptSeen ⟨.rpc method params, reply, took⟩ = none := by
  simp only [receiptSeen, if_neg h]

theorem receiptSeen_of_ok (params : Json) {reply : RpcReply} (took : Nat) {v : Json}
    (h : rpcResult receiptMethod reply = .ok v) :
    receiptSeen ⟨.rpc receiptMethod params, reply, took⟩ = if v.isNull then none else some v := by
  simp only [receiptSeen, if_true, h]

/-- The invariant of the poll: the transaction was sent, and no receipt came. -/
def Idle (base : History Wire) (sent : Exchange Wire) (h : History Wire) : Prop :=
  ∃ wire, h = base ++ wire ∧ sent ∈ wire ∧ ∀ x ∈ wire, receiptSeen x = none

/-- The last exchange was a sleep. -/
def Paused (h : History Wire) : Prop :=
  ∃ front last nanos, h = front ++ [last] ∧ last.call = .sleep nanos

/-- What a poll that succeeds leaves behind. -/
def Ended (base : History Wire) (txHash : H256) (sent : Exchange Wire) (h : History Wire) : Prop :=
  ∃ front last, h = base ++ (front ++ [last]) ∧ PollEnd txHash sent front last

def Failed (base : History Wire) (h : History Wire) : Prop :=
  ∃ wire, h = base ++ wire ∧ Telling wire

section Poll

variable {txHash : H256} {base h : History Wire} {sent : Exchange Wire}

theorem Idle.concat (hidle : Idle base sent h) {x : Exchange Wire} (hx : receiptSeen x = none) :
    Idle base sent (h ++ [x]) := by
  obtain ⟨wire, rfl, hsent, hunseen⟩ := hidle
  refine ⟨wire ++ [x], List.append_assoc .., List.mem_append_left _ hsent, fun y hy => ?_⟩
  rcases List.mem_append.mp hy with hy | hy
  · exact hunseen y hy
  · rw [List.mem_singleton.mp hy]
    exact hx

theorem receiptAttempt_spec (hidle : Idle base sent h) :
    Fallible.Ensures
      (fun found h' => (found = none → Idle base sent h') ∧
        ∀ block, found = some block → Ended base txHash sent h')
      (fun _ h' => Failed base h') (receiptAttempt txHash) h := by
  rw [receiptAttempt, Fallible.ensures_bind, ensures_rpc]
  intro reply took
  refine ⟨fun v hv => ?_, fun e he => ?_⟩
  · have hseen := receiptSeen_of_ok (.array [.string (hex0x txHash.toBytes)]) took hv
    rw [Fallible.ensures_ite]
    refine ⟨fun hnull => ?_, fun hnull => ?_⟩
    · rw [if_pos hnull] at hseen
      exact ⟨fun _ => hidle.concat hseen, fun block hbad => by cases hbad⟩
    · rw [if_neg hnull] at hseen
      obtain ⟨wire, rfl, hsent, hunseen⟩ := hidle
      rw [Fallible.ensures_bind, ofResult, Fallible.ensures_ofExcept, List.append_assoc]
      -- a reply that is not null ends the poll, as a block or as an error
      cases hreceipt : receiptBlock txHash v with
      | ok b =>
          refine ⟨fun block _ => ⟨(fun hbad => by cases hbad), fun _ _ => ?_⟩,
            fun e hbad => by cases hbad⟩
          refine ⟨wire, _, rfl, hsent, hunseen, .inr ⟨v, hseen, ?_, rfl⟩⟩
          exact statusOf_of_receiptBlock_ok hreceipt
      | error e =>
          refine ⟨(fun block hbad => by cases hbad),
            fun e' _ => ⟨_, rfl, telling_concat.mpr ⟨(fun nanos hbad => by cases hbad), ?_⟩⟩⟩
          intro receipt hsame
          rw [hseen] at hsame
          cases hsame
          exact .inl (statusOf_of_receiptBlock_error hreceipt)
  · obtain ⟨wire, rfl, -, -⟩ := hidle
    rw [List.append_assoc]
    exact ⟨_, rfl, telling_of_unseen (fun nanos hbad => by cases hbad) (receiptSeen_of_error he)⟩

theorem pause_spec (delay : Nat) (hidle : Idle base sent h) :
    Fallible.Ensures (fun _ h' => Idle base sent h' ∧ Paused h' ∧ clock h + delay ≤ clock h')
      (fun _ h' => Failed base h') (pause delay) h := by
  refine Fallible.ensures_ask.mpr fun _ took hcost => ?_
  have hdelay : delay ≤ took := hcost
  refine ⟨hidle.concat rfl, ⟨h, _, delay, rfl, rfl⟩, ?_⟩
  rw [clock_append, clock_singleton]
  exact Nat.add_le_add_left hdelay _

/-- The sleep that the deadline cut off is not the sending. -/
theorem Idle.ended (hawake : ∀ nanos, sent.call ≠ .sleep nanos) (hidle : Idle base sent h)
    (hpaused : Paused h) : Ended base txHash sent h := by
  obtain ⟨wire, rfl, hsent, hunseen⟩ := hidle
  obtain ⟨front, last, nanos, hsplit, hcall⟩ := hpaused
  have hne : wire ≠ [] := List.ne_nil_of_mem hsent
  obtain ⟨wire', last', rfl⟩ := (List.eq_nil_or_concat wire).resolve_left hne
  rw [List.concat_eq_append] at hsplit hsent hunseen ⊢
  rw [← List.append_assoc] at hsplit
  cases (List.append_inj' hsplit rfl).2
  refine ⟨wire', last, rfl, ?_, fun x hx => hunseen x (List.mem_append_left _ hx),
    .inl ⟨nanos, hcall⟩⟩
  -- the last exchange is a sleep, so the sending lies before it
  rcases List.mem_append.mp hsent with hfront | hlast
  · exact hfront
  · rw [List.mem_singleton.mp hlast] at hawake
    exact absurd hcall (hawake nanos)

theorem waitForReceipt_spec (txHash : H256) (hawake : ∀ nanos, sent.call ≠ .sleep nanos)
    (hidle : Idle base sent h) :
    Fallible.Ensures (fun _ h' => Ended base txHash sent h') (fun _ h' => Failed base h')
      (HttpChainAdapter.waitForReceipt txHash) h := by
  rw [HttpChainAdapter.waitForReceipt, Fallible.ensures_bind, Fallible.ensures_now,
    Fallible.ensures_bind]
  apply @Fallible.poll_ensures _ _ _ _ _ _ _ (Idle base sent) Paused _ _ (by decide)
    (fun h' hidle' => receiptAttempt_spec hidle') (fun h' delay => pause_spec delay)
    (fun h' hidle' => hidle'.ended hawake)
  · decide
  · exact le_rfl
  · exact hidle
  · exact .inl (Nat.lt_add_of_pos_right (by decide))

end Poll

/-! ## A write -/

/-- An exchange that is neither a receipt nor a sleep. -/
structure Silent (x : Exchange Wire) : Prop where
  unseen : receiptSeen x = none
  awake : ∀ nanos, x.call ≠ .sleep nanos

theorem silent_rpc {method : String} (hmethod : method ≠ receiptMethod) (params : Json)
    (reply : RpcReply) (took : Nat) : Silent ⟨.rpc method params, reply, took⟩ where
  unseen := receiptSeen_of_method hmethod
  awake := fun nanos hbad => by cases hbad

theorem Silent.telling {x : Exchange Wire} (hx : Silent x) (front : History Wire) :
    Telling (front ++ [x]) :=
  telling_of_unseen hx.awake hx.unseen

/-- A request that is not a poll, and whose result is then only decoded, adds one
silent exchange. -/
theorem ensures_request {α : Type} {method : String} {params : Json} {decode : Json → Chain α}
    {h : History Wire} (hmethod : method ≠ receiptMethod)
    (hdecode : ∀ v h, Fallible.Ensures (fun _ h' => h' = h) (fun _ h' => h' = h) (decode v) h) :
    Fallible.Ensures (fun _ h' => ∃ x, h' = h ++ [x] ∧ Silent x)
      (fun _ h' => ∃ x, h' = h ++ [x] ∧ Silent x) (rpc method params >>= decode) h := by
  rw [Fallible.ensures_bind, ensures_rpc]
  intro reply took
  have hsilent := silent_rpc hmethod params reply took
  refine ⟨fun v hv => ?_, fun e he => ⟨_, rfl, hsilent⟩⟩
  refine (hdecode v _).mono ?_ ?_
  · rintro _ h' rfl
    exact ⟨_, rfl, hsilent⟩
  · rintro _ h' rfl
    exact ⟨_, rfl, hsilent⟩

theorem ensures_ofResult {α : Type} {r : Except ChainError α} {h : History Wire} :
    Fallible.Ensures (fun _ h' => h' = h) (fun _ h' => h' = h) (ofResult r) h := by
  rw [ofResult, Fallible.ensures_ofExcept]
  exact ⟨fun _ _ => rfl, fun _ _ => rfl⟩

variable {a : HttpChainAdapter}

theorem fetchNonce_spec (h : History Wire) :
    Fallible.Ensures (fun _ h' => ∃ x, h' = h ++ [x] ∧ Silent x)
      (fun _ h' => ∃ x, h' = h ++ [x] ∧ Silent x) a.fetchNonce h := by
  refine ensures_request (by decide) fun v h => ?_
  rw [Fallible.ensures_bind]
  refine ensures_ofResult.mono ?_ fun _ _ hsame => hsame
  rintro text _ rfl
  exact ensures_ofResult

theorem fetchGasPrice_spec (h : History Wire) :
    Fallible.Ensures (fun _ h' => ∃ x, h' = h ++ [x] ∧ Silent x)
      (fun _ h' => ∃ x, h' = h ++ [x] ∧ Silent x) HttpChainAdapter.fetchGasPrice h := by
  refine ensures_request (by decide) fun v h => ?_
  rw [Fallible.ensures_bind]
  refine ensures_ofResult.mono ?_ fun _ _ hsame => hsame
  rintro text _ rfl
  exact ensures_ofResult

/-- The exchange that submitted a write with this calldata, and the hash the
write is known by. -/
def Submits (a : HttpChainAdapter) (calldata : List UInt8) (txHash : H256)
    (sent : Exchange Wire) : Prop :=
  ∃ nonce gasPrice signed,
    a.wallet.signEip1559 (a.writeTx calldata nonce gasPrice) = .ok signed ∧
      txHash = txHashOfSigned a.hashes signed ∧
      sent.call = .rpc "eth_sendRawTransaction" (.array [.string (hex0x signed)])

/-- What a write leaves on the wire: if it returned `Ok`, it was submitted and
its poll ended; if it failed, the last exchange tells why. -/
theorem sendWrite_spec (calldata : List UInt8) (h : History Wire) :
    Fallible.Ensures
      (fun _ h' => ∃ txHash sent front last, h' = h ++ (front ++ [last]) ∧
        Submits a calldata txHash sent ∧ PollEnd txHash sent front last)
      (fun _ h' => ∃ wire, h' = h ++ wire ∧ Telling wire) (a.sendWrite calldata) h := by
  rw [HttpChainAdapter.sendWrite, Fallible.ensures_bind]
  refine (fetchNonce_spec h).mono ?_ fun e h' hfailed => ?_
  swap
  · obtain ⟨x, rfl, hx⟩ := hfailed
    exact ⟨[x], rfl, hx.telling []⟩
  rintro nonce _ ⟨x, rfl, hx⟩
  rw [Fallible.ensures_bind]
  refine (fetchGasPrice_spec _).mono ?_ fun e h' hfailed => ?_
  swap
  · obtain ⟨y, rfl, hy⟩ := hfailed
    exact ⟨[x] ++ [y], List.append_assoc .., hy.telling [x]⟩
  rintro gasPrice _ ⟨y, rfl, hy⟩
  rw [Fallible.ensures_bind, Fallible.ensures_ofExcept]
  refine ⟨fun signed hsigned => ?_, fun e _ => ?_⟩
  swap
  · exact ⟨[x] ++ [y], List.append_assoc .., hy.telling [x]⟩
  have hsign : a.wallet.signEip1559 (a.writeTx calldata nonce gasPrice) = .ok signed := by
    cases hcase : a.wallet.signEip1559 (a.writeTx calldata nonce gasPrice) with
    | error e =>
        rw [hcase] at hsigned
        cases hsigned
    | ok bytes =>
        rw [hcase] at hsigned
        cases hsigned
        rfl
  rw [Fallible.ensures_bind, ensures_rpc]
  intro reply took
  have hz := silent_rpc (by decide : "eth_sendRawTransaction" ≠ receiptMethod)
    (.array [.string (hex0x signed)]) reply took
  refine ⟨fun v hv => ?_, fun e he => ?_⟩
  swap
  · refine ⟨[x, y] ++ [_], ?_, hz.telling [x, y]⟩
    simp
  have hidle : Idle h ⟨.rpc "eth_sendRawTransaction" (.array [.string (hex0x signed)]), reply, took⟩
      (h ++ [x, y, ⟨.rpc "eth_sendRawTransaction" (.array [.string (hex0x signed)]), reply, took⟩]) := by
    refine ⟨_, rfl, List.mem_of_getLast? rfl, fun w hw => ?_⟩
    simp only [List.mem_cons, List.not_mem_nil, or_false] at hw
    rcases hw with rfl | rfl | rfl
    · exact hx.unseen
    · exact hy.unseen
    · exact hz.unseen
  have hpoll := waitForReceipt_spec (txHashOfSigned a.hashes signed) hz.awake hidle
  rw [Fallible.ensures_bind]
  simp only [List.append_assoc, List.cons_append, List.nil_append] at hpoll ⊢
  refine hpoll.mono ?_ fun _ _ hfailed => hfailed
  rintro _ _ ⟨front, last, rfl, hend⟩
  exact ⟨_, _, front, last, rfl, ⟨nonce, gasPrice, signed, hsign, rfl, rfl⟩, hend⟩

/-- After a write that returned `Ok`, the last exchange is telling exactly when
the write was seen mined. -/
theorem PollEnd.telling_iff {jobId : Nat} {txHash : H256} {sent last : Exchange Wire}
    {front : History Wire} (hsubmits : Submits a (a.recordDispatchData jobId) txHash sent)
    (hend : PollEnd txHash sent front last) :
    Telling (front ++ [last]) ↔ SeenMined a jobId (front ++ [last]) := by
  obtain ⟨nonce, gasPrice, signed, hsign, rfl, hsent⟩ := hsubmits
  constructor
  · intro htelling
    obtain ⟨hawake, hstatus⟩ := telling_concat.mp htelling
    rcases hend.ending with ⟨nanos, hsleep⟩ | ⟨receipt, hseen, hnonzero, hcall⟩
    · exact absurd hsleep (hawake nanos)
    · have hone : statusOf receipt = some 1 := (hstatus receipt hseen).resolve_left hnonzero
      refine ⟨nonce, gasPrice, signed, receipt, sent, last, hsign, ?_, hsent, hcall, hseen, hone⟩
      exact (List.singleton_sublist.mpr hend.sent_mem).append (List.Sublist.refl [last])
  · rintro ⟨_, _, _, receipt, _, poll, _, hsub, _, hcall, hseen, hone⟩
    have hmem : poll ∈ front ++ [last] := hsub.subset (by simp)
    rcases List.mem_append.mp hmem with hfront | hlast
    · -- an exchange before the last one brought no receipt
      rw [hend.unseen poll hfront] at hseen
      cases hseen
    · rw [List.mem_singleton.mp hlast] at hcall hseen
      refine telling_concat.mpr ⟨fun nanos hsleep => ?_, fun receipt' hseen' => ?_⟩
      · rw [hcall] at hsleep
        cases hsleep
      · rw [hseen] at hseen'
        cases hseen'
        exact .inr hone

/-- What one call of `record_dispatch` comes to. -/
theorem recordDispatch_run {env : Env Wire} {h wire : History Wire} {jobId : Nat} (member : H160)
    {answer : Except (Stop CoordinatorError) Confirmed}
    (hrun : Proc.run env (a.recordDispatch jobId member) h = (answer, wire)) :
    (∃ e, answer = .error e ∧ Telling wire) ∨
      ∃ c, answer = .ok c ∧ (Telling wire ↔ SeenMined a jobId wire) := by
  have hspec : Fallible.Ensures
      (fun _ h' => ∃ wire, h' = h ++ wire ∧ (Telling wire ↔ SeenMined a jobId wire))
      (fun _ h' => ∃ wire, h' = h ++ wire ∧ Telling wire) (a.recordDispatch jobId member) h := by
    rw [HttpChainAdapter.recordDispatch, Fallible.ensures_bind]
    refine (sendWrite_spec _ h).mono ?_ fun _ _ hfailed => hfailed
    rintro ⟨_, block⟩ _ ⟨txHash, sent, front, last, rfl, hsubmits, hend⟩
    exact ⟨_, rfl, hend.telling_iff hsubmits⟩
  have hpost := Proc.Ensures.run hspec env
  rw [hrun] at hpost
  cases answer with
  | ok c =>
      obtain ⟨wire', hsame, hiff⟩ := hpost
      rw [← List.append_cancel_left hsame] at hiff
      exact .inr ⟨c, rfl, hiff⟩
  | error e =>
      obtain ⟨wire', hsame, htelling⟩ := hpost
      rw [← List.append_cancel_left hsame] at htelling
      exact .inl ⟨e, rfl, htelling⟩

/-! ## The course of an event -/

/-- The histories `handle_event` can leave, one constructor for each place where
it stops. -/
inductive Course (selfAddress : H160) (cfg : CoordinatorConfig) (event : ComputeRequestedEvent) :
    History Effect → Prop
  | refused {e} : admission cfg event = .error e → Course selfAddress cfg event []
  | unelected {elected t} : admission cfg event = .ok () → Course selfAddress cfg event
      [⟨.coordinatorFor event.poolId (epochOf event.blockNumber), elected, t⟩]
  | unplaced {members t u} : admission cfg event = .ok () → Course selfAddress cfg event
      [⟨.coordinatorFor event.poolId (epochOf event.blockNumber), .ok selfAddress, t⟩,
        ⟨.poolMembers event.poolId, members, u⟩]
  | unrecorded {members chosen e t u v} : admission cfg event = .ok () →
      Course selfAddress cfg event
        [⟨.coordinatorFor event.poolId (epochOf event.blockNumber), .ok selfAddress, t⟩,
          ⟨.poolMembers event.poolId, members, u⟩,
          ⟨.recordDispatch event.jobId chosen, .error e, v⟩]
  | clientless {members chosen c cause t u v w} : admission cfg event = .ok () →
      Course selfAddress cfg event
        [⟨.coordinatorFor event.poolId (epochOf event.blockNumber), .ok selfAddress, t⟩,
          ⟨.poolMembers event.poolId, members, u⟩,
          ⟨.recordDispatch event.jobId chosen, .ok c, v⟩, ⟨.buildClient, .error cause, w⟩]
  | completed {members chosen c endpoint reply done t u v w x y} :
      admission cfg event = .ok () → Course selfAddress cfg event
        [⟨.coordinatorFor event.poolId (epochOf event.blockNumber), .ok selfAddress, t⟩,
          ⟨.poolMembers event.poolId, members, u⟩,
          ⟨.recordDispatch event.jobId chosen, .ok c, v⟩, ⟨.buildClient, .ok (), w⟩,
          ⟨.poolInfer endpoint (poolInferRequest event) cfg.providerTimeoutSecs, reply, x⟩,
          ⟨.completeJob event.jobId, done, y⟩]
  | failed {members chosen c endpoint reply done t u v w x y} :
      admission cfg event = .ok () → Course selfAddress cfg event
        [⟨.coordinatorFor event.poolId (epochOf event.blockNumber), .ok selfAddress, t⟩,
          ⟨.poolMembers event.poolId, members, u⟩,
          ⟨.recordDispatch event.jobId chosen, .ok c, v⟩, ⟨.buildClient, .ok (), w⟩,
          ⟨.poolInfer endpoint (poolInferRequest event) cfg.providerTimeoutSecs, reply, x⟩,
          ⟨.failJob event.jobId, done, y⟩]

theorem handleEvent_course (H : Hashes) (selfAddress : H160) (cfg : CoordinatorConfig)
    (event : ComputeRequestedEvent) :
    Fallible.Ensures (fun _ h => Course selfAddress cfg event h)
      (fun _ h => Course selfAddress cfg event h) (handleEvent H selfAddress cfg event) [] := by
  rw [handleEvent, Fallible.ensures_bind, Fallible.ensures_ofExcept]
  refine ⟨fun _ hadmitted => ?_, fun _ hrefused => ?_⟩
  swap
  · cases hcase : admission cfg event with
    | ok _ =>
        rw [hcase] at hrefused
        cases hrefused
    | error e => exact .refused hcase
  have hadm : admission cfg event = .ok () := by
    cases hcase : admission cfg event with
    | ok _ => rfl
    | error e =>
        rw [hcase] at hadmitted
        cases hadmitted
  rw [Fallible.ensures_bind]
  refine Fallible.ensures_ask.mpr fun elected t _ => ?_
  rw [Fallible.ensures_bind, Fallible.ensures_ofExcept]
  refine ⟨fun address helected => ?_, fun _ _ => .unelected hadm⟩
  rw [Fallible.ensures_ite]
  refine ⟨fun _ => .unelected hadm, fun hself => ?_⟩
  have hme : elected = .ok selfAddress := helected.trans (congrArg Except.ok (not_not.mp hself))
  subst hme
  rw [Fallible.ensures_bind]
  refine Fallible.ensures_ask.mpr fun members u _ => ?_
  rw [Fallible.ensures_bind, Fallible.ensures_ofExcept]
  refine ⟨fun list _ => ?_, fun _ _ => .unplaced hadm⟩
  rw [Fallible.ensures_ite]
  refine ⟨fun _ => .unplaced hadm, fun _ => ?_⟩
  split
  · exact .unplaced hadm
  split
  · exact .unplaced hadm
  rw [Fallible.ensures_bind]
  refine Fallible.ensures_ask.mpr fun recorded v _ => ?_
  rw [Fallible.ensures_bind, Fallible.ensures_ofExcept]
  refine ⟨fun confirmed hconfirmed => ?_, fun e he => ?_⟩
  swap
  · subst he
    exact .unrecorded hadm
  subst hconfirmed
  rw [Fallible.ensures_bind]
  refine Fallible.ensures_ask.mpr fun client w _ => ?_
  rw [Fallible.ensures_bind, Fallible.ensures_ofExcept]
  cases client with
  | error cause =>
      refine ⟨fun _ hbad => ?_, fun _ _ => .clientless hadm⟩
      cases hbad
  | ok _ =>
      refine ⟨fun _ _ => ?_, fun _ hbad => ?_⟩
      swap
      · cases hbad
      rw [Fallible.ensures_bind]
      refine Fallible.ensures_ask.mpr fun reply x _ => ?_
      unfold settle
      split
      · rw [Fallible.ensures_bind]
        refine Fallible.ensures_ask.mpr fun done y _ => ?_
        rw [Fallible.ensures_bind, Fallible.ensures_ofExcept]
        exact ⟨fun _ _ => .completed hadm, fun _ _ => .completed hadm⟩
      · rw [Fallible.ensures_bind]
        exact Fallible.ensures_ask.mpr fun done y _ => .failed hadm

theorem Course.inOrder {selfAddress : H160} {cfg : CoordinatorConfig}
    {event : ComputeRequestedEvent} {h : History Effect} (hcourse : Course selfAddress cfg event h) :
    InOrder selfAddress cfg event h := by
  cases hcourse with
  | refused =>
      exact ⟨by simp, fun hne => absurd rfl hne, by simp [labels], .inl (by simp [labels]),
        by simp [labels]⟩
  | unelected hadm =>
      exact ⟨by simp [EffectCall.Concerns], fun _ => hadm, by simp [labels, EffectCall.label],
        .inl (by simp [labels, EffectCall.label]), by simp [labels, EffectCall.label]⟩
  | unplaced hadm =>
      exact ⟨by simp [EffectCall.Concerns], fun _ => hadm, by simp [labels, EffectCall.label],
        .inl (by simp [labels, EffectCall.label]), by simp [labels, EffectCall.label]⟩
  | unrecorded hadm =>
      exact ⟨by simp [EffectCall.Concerns], fun _ => hadm, fun _ => ⟨_, List.mem_cons_self⟩,
        .inl (by simp [labels, EffectCall.label]), by simp [labels, EffectCall.label]⟩
  | clientless hadm =>
      exact ⟨by simp [EffectCall.Concerns], fun _ => hadm, fun _ => ⟨_, List.mem_cons_self⟩,
        .inl (by simp [labels, EffectCall.label]), by simp [labels, EffectCall.label]⟩
  | completed hadm =>
      exact ⟨by simp [EffectCall.Concerns], fun _ => hadm, fun _ => ⟨_, List.mem_cons_self⟩,
        .inl (by simp [labels, EffectCall.label]), by simp [labels, EffectCall.label]⟩
  | failed hadm =>
      exact ⟨by simp [EffectCall.Concerns], fun _ => hadm, fun _ => ⟨_, List.mem_cons_self⟩,
        .inr (by simp [labels, EffectCall.label]), by simp [labels, EffectCall.label]⟩

/-! ## The prompt and the receipt -/

/-- Every `recordDispatch` of the run ended with a telling exchange, or no client
could be built after it. -/
def Heard (spans : List (Span Effect Wire)) : Prop :=
  ∀ record ∈ spans, record.call.label = some .record →
    Telling record.wire ∨
      ∃ client ∈ spans, ∃ cause took, client.exchange = ⟨.buildClient, .error cause, took⟩

/-- A run that sent the prompt: its third span is the record, its fifth the
prompt, and nothing else in it is either. -/
theorem prompted_iff {cfg : CoordinatorConfig} {event : ComputeRequestedEvent}
    {s₁ s₂ record client prompt last : Span Effect Wire} {t : Nat}
    (hinOrder : InOrder a.wallet.address cfg event
      ([s₁, s₂, record, client, prompt, last].map Span.exchange))
    (hwire : Telling record.wire ↔ SeenMined a event.jobId record.wire)
    (hs₁ : s₁.call.label = some .election) (hs₂ : s₂.call = .poolMembers event.poolId)
    (hrecord : record.call.label = some .record)
    (hclient : client.exchange = ⟨.buildClient, .ok (), t⟩)
    (hprompt : prompt.call.label = some .prompt)
    (hlast : last.call = .completeJob event.jobId ∨ last.call = .failJob event.jobId) :
    RecordBeforePrompt a cfg event [s₁, s₂, record, client, prompt, last] ↔
      Heard [s₁, s₂, record, client, prompt, last] := by
  have hclientCall : client.call = .buildClient := congrArg Exchange.call hclient
  have hs₂Label : s₂.call.label = none := hs₂ ▸ rfl
  have hclientLabel : client.call.label = none := hclientCall ▸ rfl
  have hlastLabel : last.call.label = some .completion ∨ last.call.label = some .failure := by
    rcases hlast with h | h
    · exact .inl (h ▸ rfl)
    · exact .inr (h ▸ rfl)
  constructor
  · intro hfirst r hr hlabel
    have hsame : r = record := by
      simp only [List.mem_cons, List.not_mem_nil, or_false] at hr
      rcases hr with rfl | rfl | rfl | rfl | rfl | rfl
      · simp [hs₁] at hlabel
      · simp [hs₂Label] at hlabel
      · rfl
      · simp [hclientLabel] at hlabel
      · simp [hprompt] at hlabel
      · rcases hlastLabel with h | h <;> simp [h] at hlabel
    subst hsame
    obtain ⟨r', hr', hlabel', hmined⟩ := hfirst.mined [s₁, s₂, r, client] prompt [last] rfl hprompt
    simp only [List.mem_cons, List.not_mem_nil, or_false] at hr'
    rcases hr' with rfl | rfl | rfl | rfl
    · simp [hs₁] at hlabel'
    · simp [hs₂Label] at hlabel'
    · exact .inl (hwire.mpr hmined)
    · simp [hclientLabel] at hlabel'
  · intro hheard
    refine ⟨hinOrder, fun front p back hsplit hlabel => ?_⟩
    have htelling : Telling record.wire := by
      refine (hheard record (by simp) hrecord).resolve_right ?_
      rintro ⟨c, hc, cause, took, herror⟩
      have hcall : c.call = .buildClient := congrArg Exchange.call herror
      simp only [List.mem_cons, List.not_mem_nil, or_false] at hc
      rcases hc with rfl | rfl | rfl | rfl | rfl | rfl
      · simp [hcall, EffectCall.label] at hs₁
      · rw [hs₂] at hcall
        cases hcall
      · simp [hcall, EffectCall.label] at hrecord
      · rw [hclient] at herror
        cases herror
      · simp [hcall, EffectCall.label] at hprompt
      · rcases hlast with h | h <;> simp [h] at hcall
    refine ⟨record, ?_, hrecord, hwire.mp htelling⟩
    -- the prompt is none of the first three spans, so the third is before it
    rcases front with _ | ⟨f₁, _ | ⟨f₂, _ | ⟨f₃, rest⟩⟩⟩
    · cases hsplit
      simp [hs₁] at hlabel
    · cases hsplit
      simp [hs₂Label] at hlabel
    · cases hsplit
      simp [hrecord] at hlabel
    · simp only [List.cons_append, List.cons.injEq] at hsplit
      simp [hsplit.2.2.1]

/-- A run that stopped before the prompt. -/
theorem unprompted_iff {cfg : CoordinatorConfig} {event : ComputeRequestedEvent}
    {spans : List (Span Effect Wire)}
    (hinOrder : InOrder a.wallet.address cfg event (spans.map Span.exchange))
    (hsilent : .prompt ∉ labels (spans.map Span.exchange)) (hheard : Heard spans) :
    RecordBeforePrompt a cfg event spans ↔ Heard spans := by
  refine ⟨fun _ => hheard, fun _ => ⟨hinOrder, ?_⟩⟩
  rintro front p back rfl hlabel
  refine absurd (List.mem_filterMap.mpr ⟨p.exchange, ?_, hlabel⟩) hsilent
  simp

theorem heard_of_no_record {spans : List (Span Effect Wire)}
    (hnone : .record ∉ labels (spans.map Span.exchange)) : Heard spans := by
  intro record hrecord hlabel
  refine absurd (List.mem_filterMap.mpr ⟨record.exchange, ?_, hlabel⟩) hnone
  exact List.mem_map.mpr ⟨record, hrecord, rfl⟩

/-- A record that was refused ended with a telling exchange. -/
theorem telling_of_refused {env : Env Wire} {record : Span Effect Wire} {jobId : Nat}
    {member : H160} {e : Stop CoordinatorError} {t : Nat}
    (hrun : ∃ h', Proc.run env (a.handler record.call) h' = (record.answer, record.wire))
    (hrecord : record.exchange = ⟨.recordDispatch jobId member, .error e, t⟩) :
    Telling record.wire := by
  obtain ⟨call, answer, wire⟩ := record
  cases hrecord
  obtain ⟨h', hrun⟩ := hrun
  rcases recordDispatch_run member hrun with ⟨_, _, htelling⟩ | ⟨_, hbad, _⟩
  · exact htelling
  · cases hbad

/-- A record that was accepted ended with a telling exchange if and only if it was
seen mined. -/
theorem telling_iff_of_accepted {env : Env Wire} {record : Span Effect Wire} {jobId : Nat}
    {member : H160} {c : Confirmed} {t : Nat}
    (hrun : ∃ h', Proc.run env (a.handler record.call) h' = (record.answer, record.wire))
    (hrecord : record.exchange = ⟨.recordDispatch jobId member, .ok c, t⟩) :
    Telling record.wire ↔ SeenMined a jobId record.wire := by
  obtain ⟨call, answer, wire⟩ := record
  cases hrecord
  obtain ⟨h', hrun⟩ := hrun
  rcases recordDispatch_run member hrun with ⟨_, hbad, _⟩ | ⟨_, _, hiff⟩
  · cases hbad
  · exact hiff

theorem six_spans {spans : List (Span Effect Wire)} {x₁ x₂ x₃ x₄ x₅ x₆ : Exchange Effect}
    (h : spans.map Span.exchange = [x₁, x₂, x₃, x₄, x₅, x₆]) :
    ∃ s₁ s₂ s₃ s₄ s₅ s₆, spans = [s₁, s₂, s₃, s₄, s₅, s₆] ∧ s₁.exchange = x₁ ∧
      s₂.exchange = x₂ ∧ s₃.exchange = x₃ ∧ s₄.exchange = x₄ ∧ s₅.exchange = x₅ ∧
      s₆.exchange = x₆ := by
  rcases spans with _ | ⟨s₁, _ | ⟨s₂, _ | ⟨s₃, _ | ⟨s₄, _ | ⟨s₅, _ | ⟨s₆, _ | ⟨s₇, rest⟩⟩⟩⟩⟩⟩⟩ <;>
    simp at h
  exact ⟨s₁, s₂, s₃, s₄, s₅, s₆, rfl, h⟩

theorem handled_course (env : Env Wire) (cfg : CoordinatorConfig) (event : ComputeRequestedEvent) :
    Course a.wallet.address cfg event ((a.handled env cfg event).2.map Span.exchange) := by
  have hpost := Proc.Ensures.runOver a.handler (fun _ => rfl) env (h := []) (f := []) rfl
    (handleEvent_course a.hashes a.wallet.address cfg event)
  rw [List.nil_append] at hpost
  unfold HttpChainAdapter.handled
  revert hpost
  generalize (handleEvent a.hashes a.wallet.address cfg event).runOver a.handler env [] = result
  obtain ⟨outcome, spans⟩ := result
  cases outcome with
  | ok _ => exact fun hpost => hpost
  | error _ => exact fun hpost => hpost

/-- The prompt goes out only after `recordDispatch` was seen mined with success,
in a run against any node and any provider, if and only if the run's record ended
with a telling exchange (or nothing could be sent after it).  The order of the
effects holds in every run. -/
theorem record_before_prompt_iff (a : HttpChainAdapter) (env : Env Wire) (cfg : CoordinatorConfig)
    (event : ComputeRequestedEvent) :
    RecordBeforePrompt a cfg event (a.handled env cfg event).2 ↔
      Heard (a.handled env cfg event).2 := by
  have hcourse := handled_course (a := a) env cfg event
  have hinOrder := hcourse.inOrder
  have hruns : ∀ s ∈ (a.handled env cfg event).2, ∃ h', Proc.run env (a.handler s.call) h' =
      (s.answer, s.wire) := fun s hs => Proc.mem_runOver hs
  revert hcourse hinOrder hruns
  generalize (a.handled env cfg event).2 = spans
  intro hcourse hinOrder hruns
  generalize hshape : spans.map Span.exchange = h at hcourse
  cases hcourse with
  | refused =>
      rw [List.map_eq_nil_iff] at hshape
      subst hshape
      exact unprompted_iff hinOrder (by simp [labels]) (by simp [Heard])
  | unelected =>
      refine unprompted_iff hinOrder ?_ (heard_of_no_record ?_)
      · simp [hshape, labels, EffectCall.label]
      · simp [hshape, labels, EffectCall.label]
  | unplaced =>
      refine unprompted_iff hinOrder ?_ (heard_of_no_record ?_)
      · simp [hshape, labels, EffectCall.label]
      · simp [hshape, labels, EffectCall.label]
  | unrecorded =>
      refine unprompted_iff hinOrder ?_ fun record hrecord hlabel => .inl ?_
      · simp [hshape, labels, EffectCall.label]
      · have hmem := hshape ▸ List.mem_map.mpr ⟨record, hrecord, rfl⟩
        simp only [List.mem_cons, List.not_mem_nil, or_false] at hmem
        rcases hmem with hsame | hsame | hsame
        · simp [show record.call = _ from congrArg Exchange.call hsame, EffectCall.label] at hlabel
        · simp [show record.call = _ from congrArg Exchange.call hsame, EffectCall.label] at hlabel
        · exact telling_of_refused (hruns record hrecord) hsame
  | clientless =>
      refine unprompted_iff hinOrder ?_ fun record _ _ => .inr ?_
      · simp [hshape, labels, EffectCall.label]
      · have hlast := List.mem_of_getLast? (congrArg List.getLast? hshape)
        obtain ⟨client, hclient, hsame⟩ := List.mem_map.mp hlast
        exact ⟨client, hclient, _, _, hsame⟩
  | completed =>
      obtain ⟨s₁, s₂, record, client, prompt, last, rfl, h₁, h₂, h₃, h₄, h₅, h₆⟩ :=
        six_spans hshape
      exact prompted_iff hinOrder (telling_iff_of_accepted (hruns record (by simp)) h₃)
        (congrArg (fun x => x.call.label) h₁) (congrArg Exchange.call h₂)
        (congrArg (fun x => x.call.label) h₃) h₄ (congrArg (fun x => x.call.label) h₅)
        (.inl (congrArg Exchange.call h₆))
  | failed =>
      obtain ⟨s₁, s₂, record, client, prompt, last, rfl, h₁, h₂, h₃, h₄, h₅, h₆⟩ :=
        six_spans hshape
      exact prompted_iff hinOrder (telling_iff_of_accepted (hruns record (by simp)) h₃)
        (congrArg (fun x => x.call.label) h₁) (congrArg Exchange.call h₂)
        (congrArg (fun x => x.call.label) h₃) h₄ (congrArg (fun x => x.call.label) h₅)
        (.inr (congrArg Exchange.call h₆))

/-! ## A receipt without a status -/

/-- The adapter of a daemon that signs as the zero address. -/
def plainAdapter : HttpChainAdapter where
  hashes := ⟨fun _ => FixedBytes.zero, fun _ => FixedBytes.zero⟩
  chainId := 40204
  poolContract := FixedBytes.ofNat 7
  wallet := ⟨FixedBytes.zero, fun _ => .ok [2]⟩

def resultReply (v : Json) : RpcReply := .value (.object [("result", v)])

def bytesReply (bytes : List UInt8) : RpcReply := resultReply (.string (hex0x bytes))

/-- A node of a pool with one member, which elects the zero address, and whose
receipts have a block number but no status; and a provider that answers. -/
def statuslessNode : Env Wire where
  answer h
    | .rpc method _ =>
        if method = "eth_call" then
          match h.length with
          | 0 => bytesReply (u256Word 0)
          | 1 => bytesReply (u256Word 32 ++ u256Word 1 ++ u256Word 1)
          | _ => bytesReply (u256Word 1 ++ u256Word 0 ++ u256Word 0 ++ u256Word 0 ++ u256Word 1)
        else if method = receiptMethod then
          resultReply (.object [("blockNumber", .string "0x1")])
        else resultReply (.string "0x1")
    | .sleep _ => ()
    | .buildClient => .ok ()
    | .post _ _ _ => .response 200 (.ok ⟨"done", none, none⟩)
  delay _ _ := 0

def plainConfig : CoordinatorConfig where
  memberEndpoints := (∅ : BTreeMap H160 String).insert (FixedBytes.ofNat 1) "https://member"
  providerTimeoutSecs := 30
  minPaymentGrains := 1
  maxPromptBytes := 131072
  maxTokensCap := 8192

def plainEvent : ComputeRequestedEvent where
  poolId := 1
  jobId := 42
  paymentGrains := 5
  prompt := "hello"
  maxTokens := 10
  blockNumber := 100

/-- The prompt is sent although no receipt with a success status was seen. -/
theorem statusless_receipt_prompts :
    ¬ RecordBeforePrompt plainAdapter plainConfig plainEvent
      (plainAdapter.handled statuslessNode plainConfig plainEvent).2 := by
  obtain ⟨hprompted, hunseen⟩ :
      (∃ s ∈ (plainAdapter.handled statuslessNode plainConfig plainEvent).2,
        s.call.label = some .prompt) ∧
      ∀ s ∈ (plainAdapter.handled statuslessNode plainConfig plainEvent).2,
        ∀ x ∈ s.wire, (receiptSeen x).bind statusOf ≠ some 1 := by decide +kernel
  intro hfirst
  obtain ⟨prompt, hmem, hlabel⟩ := hprompted
  obtain ⟨front, back, hsplit⟩ := List.append_of_mem hmem
  obtain ⟨record, hrecord, -, _, _, _, receipt, _, poll, -, hsub, -, -, hseen, hone⟩ :=
    hfirst.mined front prompt back hsplit hlabel
  have hin : record ∈ (plainAdapter.handled statuslessNode plainConfig plainEvent).2 := by
    rw [hsplit]
    exact List.mem_append_left _ hrecord
  refine hunseen record hin poll (hsub.subset (by simp)) ?_
  rw [hseen]
  exact hone

end PoolCoordinator
end ComputePool
