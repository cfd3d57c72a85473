import ComputePool.Worker.HttpChain

/-!
# Which writes are confirmed

A write is confirmed when a receipt of its transaction with status one was seen.
The poll for the receipt has two ways to let a write through without one: its time
runs out, of which only a warning tells, and a receipt whose status is missing, not
a string or not a number counts as a success.  Whether either happened can be read
off the last exchange of the poll.
-/

namespace ComputePool
namespace Worker
namespace HttpChain

open RustStd Federated Interaction
open PoolCoordinator (H256 ChainError Eip1559Tx RpcReply rpcResult receiptBlock receiptMethod
  parseHexU64 u256Word selector txHashOfSigned statusOf statusOf_of_receiptBlock_ok
  statusOf_of_receiptBlock_error RECEIPT_WAIT_TIMEOUT RECEIPT_POLL_INITIAL RECEIPT_POLL_MAX)

/-! ## What a run shows -/

/-- The non-null receipt an exchange brought, if it is a poll for one. -/
def receiptSeen : Exchange Node → Option Json
  | ⟨.rpc method _, reply, _⟩ =>
      if method = receiptMethod then
        match rpcResult method reply with
        | .ok receipt => if receipt.isNull then none else some receipt
        | .error _ => none
      else none
  | _ => none

/-- An exchange of the poll: a request for the receipt, or the pause after one. -/
def Awaits (x : Exchange Node) : Prop :=
  (∃ nanos, x.call = .sleep nanos) ∨ ∃ params, x.call = .rpc receiptMethod params

/-- The transaction was signed and sent, and then a receipt of it with status one
came back. -/
def SeenMined (c : HttpClient) (tx : Nat → Nat → Eip1559Tx) (wire : History Node) : Prop :=
  ∃ nonce gasPrice signed receipt, ∃ sent poll : Exchange Node,
    c.wallet.signEip1559 (tx nonce gasPrice) = .ok signed ∧
      [sent, poll].Sublist wire ∧
      sent.call = .rpc "eth_sendRawTransaction" (.array [.string (hex0x signed)]) ∧
      poll.call = .rpc receiptMethod
        (.array [.string (hex0x (txHashOfSigned c.hashes signed).toBytes)]) ∧
      receiptSeen poll = some receipt ∧ statusOf receipt = some 1

/-- The write returns `Ok` only if it was seen mined, and an error otherwise. -/
structure Confirmed (c : HttpClient) (w : Write) (outcome : Except (Stop ClientError) w.Answer)
    (wire : History Node) : Prop where
  mined : ∀ a, outcome = .ok a → SeenMined c (w.tx c) wire
  refused : ¬ SeenMined c (w.tx c) wire → ∃ e, outcome = .error (.err e)

/-- The poll says how the write stands: its last exchange is not a pause that the
deadline cut off, and if it is a receipt, its status reads as zero or one. -/
def Telling (wire : History Node) : Prop :=
  ∀ front last back, wire = front ++ last :: back → Awaits last → (∀ x ∈ back, ¬ Awaits x) →
    (∀ nanos, last.call ≠ .sleep nanos) ∧
      ∀ receipt, receiptSeen last = some receipt →
        statusOf receipt = some 0 ∨ statusOf receipt = some 1

/-- What a client makes of the reply to `eth_call`. -/
def callReturn (reply : RpcReply) : Except ChainError (List UInt8) := do
  let result ← rpcResult "eth_call" reply
  let text ← okOr result.asStr (.notString "eth_call result")
  okOr (hexDecode (trimStart0x text.toList)) .badHex

/-- The reply does not read as a snapshot of the request. -/
def Unreadable (requestId : Nat) (reply : RpcReply) : Prop :=
  ∀ ret, callReturn reply = .ok ret → ∀ snap, decodeRequest requestId ret ≠ .ok snap

/-- The request was advanced, and could not be read back after it. -/
def ReadBackFails : Write → History Node → Prop
  | .advanceRequest requestId _, wire =>
      ∃ front params reply took, wire = front ++ [⟨.rpc "eth_call" params, reply, took⟩] ∧
        Unreadable requestId reply
  | _, _ => False

/-! ## Exchanges outside the poll -/

theorem receiptSeen_of_not_awaits {x : Exchange Node} (hx : ¬ Awaits x) : receiptSeen x = none := by
  obtain ⟨call, answer, took⟩ := x
  cases call with
  | sleep nanos => rfl
  | rpc method params =>
      have hmethod : method ≠ receiptMethod := by
        rintro rfl
        exact hx (.inr ⟨params, rfl⟩)
      simp only [receiptSeen, if_neg hmethod]

theorem not_awaits_rpc {method : String} (hmethod : method ≠ receiptMethod) (params : Json)
    (reply : RpcReply) (took : Nat) : ¬ Awaits ⟨.rpc method params, reply, took⟩ := by
  rintro (⟨nanos, hcall⟩ | ⟨params', hcall⟩)
  · cases hcall
  · cases hcall
    exact hmethod rfl

/-- A run that never polled tells how the write stands: it was not sent. -/
theorem telling_of_unpolled {wire : History Node} (h : ∀ x ∈ wire, ¬ Awaits x) : Telling wire := by
  rintro front last back rfl hlast _
  exact absurd hlast (h last (by simp))

/-- The last exchange of the poll is the one that tells. -/
theorem telling_split {front back : History Node} {last : Exchange Node} (hlast : Awaits last)
    (hback : ∀ x ∈ back, ¬ Awaits x) :
    Telling (front ++ last :: back) ↔ (∀ nanos, last.call ≠ .sleep nanos) ∧
      ∀ receipt, receiptSeen last = some receipt →
        statusOf receipt = some 0 ∨ statusOf receipt = some 1 := by
  refine ⟨fun h => h front last back rfl hlast hback, fun h => ?_⟩
  intro front' last' back' hsplit hlast' hback'
  rcases List.append_eq_append_iff.mp hsplit with ⟨gap, rfl, hgap⟩ | ⟨gap, rfl, hgap⟩
  · cases gap with
    | nil =>
        cases hgap
        exact h
    | cons x gap =>
        simp only [List.cons_append, List.cons.injEq] at hgap
        exact absurd hlast' (hback last' (by simp [hgap.2]))
  · cases gap with
    | nil =>
        cases hgap
        exact h
    | cons x gap =>
        simp only [List.cons_append, List.cons.injEq] at hgap
        exact absurd hlast (hback' last (by simp [hgap.2]))

/-- Reading back a write adds nothing to the poll. -/
theorem telling_concat {wire : History Node} {x : Exchange Node} (hx : ¬ Awaits x) :
    Telling (wire ++ [x]) ↔ Telling wire := by
  constructor
  · rintro h front last back rfl hlast hback
    refine h front last (back ++ [x]) (by simp) hlast fun y hy => ?_
    rcases List.mem_append.mp hy with hy | hy
    · exact hback y hy
    · rw [List.mem_singleton.mp hy]
      exact hx
  · intro h front last back hsplit hlast hback
    rcases List.eq_nil_or_concat back with rfl | ⟨back', y, rfl⟩
    · have hsame := (List.append_inj' hsplit rfl).2
      cases hsame
      exact absurd hlast hx
    · have hfront : wire = front ++ last :: back' := by
        rw [List.concat_eq_append, ← List.cons_append, ← List.append_assoc] at hsplit
        exact (List.append_inj' hsplit rfl).1
      exact h front last back' hfront hlast fun z hz => hback z (by simp [hz])

theorem seenMined_concat {c : HttpClient} {tx : Nat → Nat → Eip1559Tx} {wire : History Node}
    {x : Exchange Node} (hx : ¬ Awaits x) :
    SeenMined c tx (wire ++ [x]) ↔ SeenMined c tx wire := by
  constructor
  · rintro ⟨nonce, gasPrice, signed, receipt, sent, poll, hsign, hsub, hsent, hpoll, hseen⟩
    refine ⟨nonce, gasPrice, signed, receipt, sent, poll, hsign, ?_, hsent, hpoll, hseen⟩
    obtain ⟨front, back, hsplit, hfront, hback⟩ := List.sublist_append_iff.mp hsub
    rcases List.eq_nil_or_concat back with rfl | ⟨rest, y, rfl⟩
    · rw [List.append_nil] at hsplit
      exact hsplit ▸ hfront
    · -- the last exchange is not the poll that saw the receipt
      have hlast : poll = y := by
        have := congrArg List.getLast? hsplit
        simpa using this
      have hmem : y ∈ [x] := hback.subset (by simp)
      rw [hlast, List.mem_singleton.mp hmem] at hpoll
      exact absurd (.inr ⟨_, hpoll⟩) hx
  · rintro ⟨nonce, gasPrice, signed, receipt, sent, poll, hsign, hsub, hrest⟩
    refine ⟨nonce, gasPrice, signed, receipt, sent, poll, hsign, ?_, hrest⟩
    exact hsub.trans (List.sublist_append_left _ _)

/-- A poll that saw no receipt leaves a write that was not seen mined. -/
theorem not_seenMined {c : HttpClient} {tx : Nat → Nat → Eip1559Tx} {wire : History Node}
    (h : ∀ x ∈ wire, receiptSeen x = none) : ¬ SeenMined c tx wire := by
  rintro ⟨_, _, _, receipt, _, poll, _, hsub, _, _, hseen, _⟩
  rw [h poll (hsub.subset (by simp))] at hseen
  cases hseen

/-! ## One request -/

theorem ensures_rpc {ok : Json → History Node → Prop}
    {err : Stop ClientError → History Node → Prop} {method : String} {params : Json}
    {h : History Node} :
    Fallible.Ensures ok err (rpc method params) h ↔ ∀ (reply : RpcReply) took,
      (∀ v, rpcResult method reply = .ok v → ok v (h ++ [⟨.rpc method params, reply, took⟩])) ∧
        ∀ e, rpcResult method reply = .error e →
          err (.err (.node e)) (h ++ [⟨.rpc method params, reply, took⟩]) := by
  rw [rpc, Fallible.ensures_bind, Fallible.ensures_ask]
  refine forall_congr' fun reply => forall_congr' fun took => ?_
  rw [imp_iff_right (show Node.cost (.rpc method params) ≤ took from Nat.zero_le _), ofResult,
    Fallible.ensures_ofExcept]
  cases rpcResult method reply with
  | ok v => simp [Except.mapError]
  | error e => simp [Except.mapError]

theorem receiptSeen_of_error {params : Json} {reply : RpcReply} {took : Nat} {method : String}
    {e : ChainError} (h : rpcResult method reply = .error e) :
    receiptSeen ⟨.rpc method params, reply, took⟩ = none := by
  simp only [receiptSeen, h, ite_self]

theorem receiptSeen_of_ok (params : Json) {reply : RpcReply} (took : Nat) {v : Json}
    (h : rpcResult receiptMethod reply = .ok v) :
    receiptSeen ⟨.rpc receiptMethod params, reply, took⟩ = if v.isNull then none else some v := by
  simp only [receiptSeen, if_true, h]

/-- The stop is an error that is returned, not a panic. -/
def Returned (stop : Stop ClientError) : Prop := ∃ e, stop = .err e

theorem ensures_ofResult {α : Type} {r : Except ChainError α} {h : History Node} :
    Fallible.Ensures (fun a h' => h' = h ∧ r = .ok a)
      (fun stop h' => h' = h ∧ ∃ e, r = .error e ∧ stop = .err (.node e)) (ofResult r) h := by
  rw [ofResult, Fallible.ensures_ofExcept]
  cases r with
  | ok a => simp [Except.mapError]
  | error e => simp [Except.mapError]

/-- A request outside the poll, whose result is then only decoded. -/
theorem ensures_quantity {method what : String} {params : Json} {α : Type}
    {parse : String → Except ChainError α} {h : History Node} (hmethod : method ≠ receiptMethod) :
    Fallible.Ensures (fun _ h' => ∃ x, h' = h ++ [x] ∧ ¬ Awaits x)
      (fun e h' => Returned e ∧ ∃ x, h' = h ++ [x] ∧ ¬ Awaits x)
      (do
        let result ← rpc method params
        let text ← ofResult (okOr result.asStr (.notString what))
        ofResult (parse text)) h := by
  rw [Fallible.ensures_bind, ensures_rpc]
  intro reply took
  have hx := not_awaits_rpc hmethod params reply took
  refine ⟨fun v _ => ?_, fun e _ => ⟨⟨_, rfl⟩, _, rfl, hx⟩⟩
  rw [Fallible.ensures_bind]
  apply ensures_ofResult.mono
  · rintro text _ ⟨rfl, -⟩
    apply ensures_ofResult.mono
    · rintro a _ ⟨rfl, -⟩
      exact ⟨_, rfl, hx⟩
    · rintro stop _ ⟨rfl, e, -, rfl⟩
      exact ⟨⟨_, rfl⟩, _, rfl, hx⟩
  · rintro stop _ ⟨rfl, e, -, rfl⟩
    exact ⟨⟨_, rfl⟩, _, rfl, hx⟩

variable {c : HttpClient}

theorem fetchNonce_spec (h : History Node) :
    Fallible.Ensures (fun _ h' => ∃ x, h' = h ++ [x] ∧ ¬ Awaits x)
      (fun e h' => Returned e ∧ ∃ x, h' = h ++ [x] ∧ ¬ Awaits x) c.fetchNonce h :=
  ensures_quantity (by decide)

theorem fetchGasPrice_spec (h : History Node) :
    Fallible.Ensures (fun _ h' => ∃ x, h' = h ++ [x] ∧ ¬ Awaits x)
      (fun e h' => Returned e ∧ ∃ x, h' = h ++ [x] ∧ ¬ Awaits x) HttpClient.fetchGasPrice h :=
  ensures_quantity (by decide)

/-! ## The poll -/

/-- The exchange that submitted a write, and the hash it is known by. -/
def Submits (c : HttpClient) (tx : Nat → Nat → Eip1559Tx) (txHash : H256)
    (sent : Exchange Node) : Prop :=
  ∃ nonce gasPrice signed, c.wallet.signEip1559 (tx nonce gasPrice) = .ok signed ∧
    txHash = txHashOfSigned c.hashes signed ∧
    sent.call = .rpc "eth_sendRawTransaction" (.array [.string (hex0x signed)])

/-- A receipt that is not of a reverted transaction ends the poll: it tells how the
write stands exactly when the write was seen mined by it. -/
theorem telling_iff_of_receipt {tx : Nat → Nat → Eip1559Tx} {txHash : H256}
    {sent last : Exchange Node} {front : History Node} {receipt : Json}
    (hsubmits : Submits c tx txHash sent) (hsent : sent ∈ front)
    (hunseen : ∀ x ∈ front, receiptSeen x = none)
    (hcall : last.call = .rpc receiptMethod (.array [.string (hex0x txHash.toBytes)]))
    (hseen : receiptSeen last = some receipt) (hnonzero : statusOf receipt ≠ some 0) :
    Telling (front ++ [last]) ↔ SeenMined c tx (front ++ [last]) := by
  rw [telling_split (.inr ⟨_, hcall⟩) (by simp)]
  constructor
  · rintro ⟨-, hstatus⟩
    have hone : statusOf receipt = some 1 := (hstatus receipt hseen).resolve_left hnonzero
    obtain ⟨nonce, gasPrice, signed, hsign, rfl, hsentCall⟩ := hsubmits
    refine ⟨nonce, gasPrice, signed, receipt, sent, last, hsign, ?_, hsentCall, hcall, hseen, hone⟩
    exact (List.singleton_sublist.mpr hsent).append (List.Sublist.refl [last])
  · rintro ⟨_, _, _, receipt', _, poll, _, hsub, _, _, hseen', hone⟩
    have hmem : poll ∈ front ++ [last] := hsub.subset (by simp)
    rcases List.mem_append.mp hmem with hfront | hlast
    · -- an exchange before the last one brought no receipt
      rw [hunseen poll hfront] at hseen'
      cases hseen'
    · rw [List.mem_singleton.mp hlast] at hseen'
      refine ⟨fun nanos hsleep => ?_, fun other hother => ?_⟩
      · rw [hcall] at hsleep
        cases hsleep
      · rw [hother] at hseen'
        cases hseen'
        exact .inr hone

/-- A poll whose time ran out does not tell, and the write was not seen mined. -/
theorem telling_iff_of_pause {tx : Nat → Nat → Eip1559Tx} {last : Exchange Node}
    {front : History Node} {nanos : Nat} (hcall : last.call = .sleep nanos)
    (hunseen : ∀ x ∈ front ++ [last], receiptSeen x = none) :
    Telling (front ++ [last]) ↔ SeenMined c tx (front ++ [last]) := by
  have htold : ¬ Telling (front ++ [last]) := by
    rw [telling_split (.inl ⟨nanos, hcall⟩) (by simp)]
    rintro ⟨hawake, -⟩
    exact hawake nanos hcall
  exact iff_of_false htold (not_seenMined hunseen)

/-- The invariant of the poll: the transaction was sent, and no receipt came. -/
def Idle (base : History Node) (sent : Exchange Node) (h : History Node) : Prop :=
  ∃ wire, h = base ++ wire ∧ sent ∈ wire ∧ ∀ x ∈ wire, receiptSeen x = none

theorem Idle.concat {base h : History Node} {sent x : Exchange Node} (hidle : Idle base sent h)
    (hx : receiptSeen x = none) : Idle base sent (h ++ [x]) := by
  obtain ⟨wire, rfl, hsent, hunseen⟩ := hidle
  refine ⟨wire ++ [x], List.append_assoc .., List.mem_append_left _ hsent, fun y hy => ?_⟩
  rcases List.mem_append.mp hy with hy | hy
  · exact hunseen y hy
  · rw [List.mem_singleton.mp hy]
    exact hx

/-- The last thing done was to pause. -/
def Paused (h : History Node) : Prop :=
  ∃ front last nanos, h = front ++ [last] ∧ last.call = .sleep nanos

/-- How a write that was sent leaves the wire. -/
def Ended (c : HttpClient) (tx : Nat → Nat → Eip1559Tx) (base h : History Node) : Prop :=
  ∃ wire, h = base ++ wire ∧ (Telling wire ↔ SeenMined c tx wire)

/-- How a write that failed leaves the wire. -/
def Failed (base : History Node) (stop : Stop ClientError) (h : History Node) : Prop :=
  Returned stop ∧ ∃ wire, h = base ++ wire ∧ Telling wire

theorem receiptAttempt_spec {tx : Nat → Nat → Eip1559Tx} {txHash : H256} {base h : History Node}
    {sent : Exchange Node} (hsubmits : Submits c tx txHash sent) (hidle : Idle base sent h) :
    Fallible.Ensures
      (fun found h' => (found = none → Idle base sent h') ∧
        ∀ a, found = some a → Ended c tx base h')
      (Failed base) (receiptAttempt txHash) h := by
  rw [receiptAttempt, Fallible.ensures_bind, ensures_rpc]
  intro reply took
  have hawaits : Awaits ⟨.rpc receiptMethod (.array [.string (hex0x txHash.toBytes)]), reply, took⟩ :=
    .inr ⟨_, rfl⟩
  obtain ⟨wire, rfl, hsent, hunseen⟩ := id hidle
  refine ⟨fun v hv => ?_, fun e he => ?_⟩
  · have hseen := receiptSeen_of_ok (.array [.string (hex0x txHash.toBytes)]) took hv
    rw [Fallible.ensures_ite]
    refine ⟨fun hnull => ?_, fun hnull => ?_⟩
    · rw [if_pos hnull] at hseen
      exact ⟨fun _ => hidle.concat hseen, fun a hbad => by cases hbad⟩
    · rw [if_neg hnull] at hseen
      rw [Fallible.ensures_bind, ofResult, Fallible.ensures_ofExcept]
      cases hreceipt : receiptBlock txHash v with
      | ok block =>
          refine ⟨fun _ _ => ⟨(fun hbad => by cases hbad), fun a _ => ?_⟩, fun e hbad => by cases hbad⟩
          refine ⟨wire ++ [_], List.append_assoc .., ?_⟩
          exact telling_iff_of_receipt hsubmits hsent hunseen rfl hseen
            (statusOf_of_receiptBlock_ok hreceipt)
      | error e =>
          refine ⟨(fun a hbad => by cases hbad), fun stop hstop => ?_⟩
          cases hstop
          refine ⟨⟨_, rfl⟩, _, List.append_assoc .., (telling_split hawaits (by simp)).mpr ⟨?_, ?_⟩⟩
          · intro nanos hbad
            cases hbad
          · intro receipt hsame
            rw [hseen] at hsame
            cases hsame
            exact .inl (statusOf_of_receiptBlock_error hreceipt)
  · -- a request that failed brought no receipt
    refine ⟨⟨_, rfl⟩, wire ++ [_], List.append_assoc .., (telling_split hawaits (by simp)).mpr ⟨?_, ?_⟩⟩
    · intro nanos hbad
      cases hbad
    · intro receipt hsame
      rw [receiptSeen_of_error he] at hsame
      cases hsame

theorem pause_spec {base h : History Node} {sent : Exchange Node} (delay : Nat)
    (hidle : Idle base sent h) :
    Fallible.Ensures (fun _ h' => Idle base sent h' ∧ Paused h' ∧ clock h + delay ≤ clock h')
      (Failed base) (pause delay) h := by
  refine Fallible.ensures_ask.mpr fun _ took hcost => ?_
  have hdelay : delay ≤ took := hcost
  refine ⟨hidle.concat rfl, ⟨h, _, delay, rfl, rfl⟩, ?_⟩
  rw [clock_append, clock_singleton]
  exact Nat.add_le_add_left hdelay _

theorem waitForReceipt_spec {tx : Nat → Nat → Eip1559Tx} {txHash : H256} {base h : History Node}
    {sent : Exchange Node} (hsubmits : Submits c tx txHash sent) (hidle : Idle base sent h) :
    Fallible.Ensures (fun _ h' => Ended c tx base h') (Failed base) (waitForReceipt txHash) h := by
  rw [waitForReceipt, Fallible.ensures_bind, Fallible.ensures_now, Fallible.ensures_bind]
  have hlate : ∀ h', Idle base sent h' → Paused h' → Ended c tx base h' := by
    rintro h' ⟨wire, rfl, hsent, hunseen⟩ ⟨front, last, nanos, hsplit, hcall⟩
    have hne : wire ≠ [] := List.ne_nil_of_mem hsent
    obtain ⟨wire', last', rfl⟩ := List.eq_nil_or_concat wire |>.resolve_left hne
    rw [List.concat_eq_append] at hsplit hunseen
    rw [← List.append_assoc] at hsplit
    cases (List.append_inj' hsplit rfl).2
    rw [List.concat_eq_append]
    exact ⟨wire' ++ [last], rfl, telling_iff_of_pause hcall hunseen⟩
  apply @Fallible.poll_ensures _ _ _ _ _ _ _ (Idle base sent) Paused _ _ (by decide)
    (fun h' hidle' => receiptAttempt_spec hsubmits hidle') (fun h' delay => pause_spec delay) hlate
  · decide
  · exact le_rfl
  · exact hidle
  · exact .inl (Nat.lt_add_of_pos_right (by decide))

/-! ## A write -/

/-- What `send_write` leaves on the wire: the poll of a write that went through
tells exactly when the write was seen mined, and that of one that failed tells. -/
theorem sendWrite_spec (gasLimit : Nat) (calldata : List UInt8) (value : Nat) (h : History Node) :
    Fallible.Ensures (fun _ h' => Ended c (c.writeTx gasLimit calldata value) h h') (Failed h)
      (c.sendWrite gasLimit calldata value) h := by
  rw [HttpClient.sendWrite, Fallible.ensures_bind]
  apply (fetchNonce_spec h).mono
  swap
  · rintro e _ ⟨he, x, rfl, hx⟩
    exact ⟨he, [x], rfl, telling_of_unpolled (by simpa using hx)⟩
  rintro nonce _ ⟨x, rfl, hx⟩
  rw [Fallible.ensures_bind]
  apply (fetchGasPrice_spec _).mono
  swap
  · rintro e _ ⟨he, y, rfl, hy⟩
    refine ⟨he, [x, y], by simp, telling_of_unpolled ?_⟩
    simpa using ⟨hx, hy⟩
  rintro gasPrice _ ⟨y, rfl, hy⟩
  rw [Fallible.ensures_bind, Fallible.ensures_ofExcept]
  cases hsign : c.wallet.signEip1559 (c.writeTx gasLimit calldata value nonce gasPrice) with
  | error cause =>
      refine ⟨(fun a hbad => by cases hbad), fun e he => ?_⟩
      cases he
      refine ⟨⟨_, rfl⟩, [x, y], by simp, telling_of_unpolled ?_⟩
      simpa using ⟨hx, hy⟩
  | ok signed =>
      refine ⟨fun signed' hsame => ?_, fun e hbad => by cases hbad⟩
      cases hsame
      rw [Fallible.ensures_bind, ensures_rpc]
      intro reply took
      have hunpolled : ∀ w ∈ [x, y,
          ⟨.rpc "eth_sendRawTransaction" (.array [.string (hex0x signed)]), reply, took⟩],
          ¬ Awaits w := by
        intro w hw
        simp only [List.mem_cons, List.not_mem_nil, or_false] at hw
        rcases hw with rfl | rfl | rfl
        · exact hx
        · exact hy
        · exact not_awaits_rpc (by decide) _ reply took
      refine ⟨fun v _ => ?_, fun e _ => ?_⟩
      · have hsubmits : Submits c (c.writeTx gasLimit calldata value)
            (txHashOfSigned c.hashes signed)
            ⟨.rpc "eth_sendRawTransaction" (.array [.string (hex0x signed)]), reply, took⟩ :=
          ⟨nonce, gasPrice, signed, hsign, rfl, rfl⟩
        rw [Fallible.ensures_bind]
        apply (waitForReceipt_spec hsubmits _).mono
        · exact fun _ _ hended => hended
        · exact fun _ _ hfailed => hfailed
        · refine ⟨_, ?_, List.mem_of_getLast? rfl,
            fun w hw => receiptSeen_of_not_awaits (hunpolled w hw)⟩
          simp
      · refine ⟨⟨_, rfl⟩, _, ?_, telling_of_unpolled hunpolled⟩
        simp

/-! ## Reading a request back -/

theorem returns_requesterOf {tail : List UInt8} (h : tail.length = 20) :
    Returns (requesterOf tail) := by
  rw [requesterOf, PoolCoordinator.addressFromSlice, dif_pos h]
  exact returns_ok _

/-- The slices of a getter's return are in range once its length is checked. -/
theorem returns_decodeRequest (requestId : Nat) (ret : List UInt8) :
    Returns (decodeRequest requestId ret) := by
  refine returns_ite (fun _ => returns_error _) fun hlong => ?_
  apply Returns.bind (returns_slice (by decide) (by omega)) fun jobWord _ => ?_
  apply Returns.bind (returns_slice (by decide) (by omega)) fun tail htail => ?_
  apply Returns.bind (returns_requesterOf (slice_length htail)) fun requester _ => ?_
  refine returns_ite (fun _ => returns_error _) fun _ => ?_
  refine returns_ite (fun _ => returns_error _) fun _ => ?_
  apply Returns.bind (returns_slice (by decide) (by omega)) fun progressWord _ => ?_
  apply Returns.bind (returns_checked _) fun progress _ => ?_
  apply Returns.bind (returns_slice (by decide) (by omega)) fun stateByte _ => ?_
  apply Returns.bind (returns_checked _) fun state _ => ?_
  exact returns_ok _

theorem ethCall_spec (data : List UInt8) (h : History Node) :
    Fallible.Ensures
      (fun ret h' => ∃ params reply took, h' = h ++ [⟨.rpc "eth_call" params, reply, took⟩] ∧
        callReturn reply = .ok ret)
      (fun e h' => Returned e ∧ ∃ params reply took,
        h' = h ++ [⟨.rpc "eth_call" params, reply, took⟩] ∧ ∃ cause, callReturn reply = .error cause)
      (c.ethCall data) h := by
  rw [HttpClient.ethCall, Fallible.ensures_bind, ensures_rpc]
  intro reply took
  refine ⟨fun v hv => ?_, fun e he => ⟨⟨_, rfl⟩, _, reply, took, rfl, e, ?_⟩⟩
  · have hreturn : callReturn reply = (do
        let text ← okOr v.asStr (.notString "eth_call result")
        okOr (hexDecode (trimStart0x text.toList)) .badHex) := by
      rw [callReturn, hv]
      rfl
    rw [Fallible.ensures_bind]
    apply ensures_ofResult.mono
    · rintro text _ ⟨rfl, htext⟩
      rw [htext] at hreturn
      apply ensures_ofResult.mono
      · rintro ret _ ⟨rfl, hret⟩
        exact ⟨_, reply, took, rfl, hreturn.trans hret⟩
      · rintro stop _ ⟨rfl, e, he, rfl⟩
        exact ⟨⟨_, rfl⟩, _, reply, took, rfl, e, hreturn.trans he⟩
    · rintro stop _ ⟨rfl, e, he, rfl⟩
      rw [he] at hreturn
      exact ⟨⟨_, rfl⟩, _, reply, took, rfl, e, hreturn⟩
  · rw [callReturn, he]
    rfl

theorem requestSnapshot_spec (requestId : Nat) (h : History Node) :
    Fallible.Ensures
      (fun _ h' => ∃ params reply took, h' = h ++ [⟨.rpc "eth_call" params, reply, took⟩] ∧
        ¬ Unreadable requestId reply)
      (fun e h' => Returned e ∧ ∃ params reply took,
        h' = h ++ [⟨.rpc "eth_call" params, reply, took⟩] ∧ Unreadable requestId reply)
      (c.requestSnapshot requestId) h := by
  rw [HttpClient.requestSnapshot, Fallible.ensures_bind]
  apply (ethCall_spec _ h).mono
  · rintro ret _ ⟨params, reply, took, rfl, hret⟩
    rw [Fallible.ensures_ofExcept]
    refine ⟨fun snap hsnap => ?_, fun stop hstop => ?_⟩
    · exact ⟨params, reply, took, rfl, fun hunreadable => hunreadable ret hret snap hsnap⟩
    · refine ⟨?_, params, reply, took, rfl, fun ret' hret' snap hsnap => ?_⟩
      · cases stop with
        | panic => exact absurd hstop (returns_decodeRequest requestId ret)
        | err e => exact ⟨e, rfl⟩
      · rw [hret] at hret'
        cases hret'
        rw [hstop] at hsnap
        cases hsnap
  · rintro stop _ ⟨hreturned, params, reply, took, rfl, cause, hcause⟩
    refine ⟨hreturned, params, reply, took, rfl, fun ret hret => ?_⟩
    rw [hcause] at hret
    cases hret

/-! ## Every write -/

/-- What `send_write` leaves is what a training write leaves. -/
theorem trainingWrite_spec (calldata : List UInt8) (value : Nat) (h : History Node) :
    Fallible.Ensures
      (fun _ h' => ∃ wire, h' = h ++ wire ∧
        (Telling wire ↔ SeenMined c (c.writeTx TRAINING_GAS_LIMIT calldata value) wire) ∧ ¬ False)
      (fun stop h' => Returned stop ∧ ∃ wire, h' = h ++ wire ∧ (Telling wire ∨ False))
      (do
        let _ ← c.sendWrite TRAINING_GAS_LIMIT calldata value
        pure ()) h := by
  rw [Fallible.ensures_bind]
  apply (sendWrite_spec TRAINING_GAS_LIMIT calldata value h).mono
  · rintro _ _ ⟨wire, rfl, hiff⟩
    exact ⟨wire, rfl, hiff, not_false⟩
  · rintro stop _ ⟨hreturned, wire, rfl, htelling⟩
    exact ⟨hreturned, wire, rfl, .inl htelling⟩

theorem advanceRequest_spec (requestId : Nat) (caller : H160) (h : History Node) :
    Fallible.Ensures
      (fun _ h' => ∃ wire, h' = h ++ wire ∧
        (Telling wire ↔
          SeenMined c (c.writeTx PIPELINE_GAS_LIMIT (c.advanceRequestData requestId) 0) wire) ∧
        ¬ ReadBackFails (.advanceRequest requestId caller) wire)
      (fun stop h' => Returned stop ∧ ∃ wire, h' = h ++ wire ∧
        (Telling wire ∨ ReadBackFails (.advanceRequest requestId caller) wire))
      (c.advanceRequest requestId caller) h := by
  have hcall : ∀ params reply took, ¬ Awaits ⟨.rpc "eth_call" params, reply, took⟩ :=
    fun params reply took => not_awaits_rpc (by decide) params reply took
  rw [HttpClient.advanceRequest, Fallible.ensures_bind]
  apply (sendWrite_spec PIPELINE_GAS_LIMIT _ 0 h).mono
  · rintro _ _ ⟨wire, rfl, hiff⟩
    rw [Fallible.ensures_bind]
    apply (requestSnapshot_spec requestId _).mono
    · rintro snap _ ⟨params, reply, took, rfl, hreadable⟩
      refine ⟨_, List.append_assoc .., ?_, ?_⟩
      · rw [telling_concat (hcall params reply took), seenMined_concat (hcall params reply took)]
        exact hiff
      · rintro ⟨front, params', reply', took', hsplit, hunreadable⟩
        cases (List.append_inj' hsplit rfl).2
        exact hreadable hunreadable
    · rintro stop _ ⟨hreturned, params, reply, took, rfl, hunreadable⟩
      refine ⟨hreturned, _, List.append_assoc .., .inr ?_⟩
      exact ⟨wire, params, reply, took, rfl, hunreadable⟩
  · rintro stop _ ⟨hreturned, wire, rfl, htelling⟩
    exact ⟨hreturned, wire, rfl, .inl htelling⟩

/-- What a write of either client comes to. -/
theorem write_spec (w : Write) (h : History Node) :
    Fallible.Ensures
      (fun _ h' => ∃ wire, h' = h ++ wire ∧ (Telling wire ↔ SeenMined c (w.tx c) wire) ∧
        ¬ ReadBackFails w wire)
      (fun stop h' => Returned stop ∧ ∃ wire, h' = h ++ wire ∧
        (Telling wire ∨ ReadBackFails w wire))
      (w.program c) h := by
  cases w with
  | join jobId stake sender => exact trainingWrite_spec _ stake h
  | closeRecruitment jobId coordinator => exact trainingWrite_spec _ 0 h
  | commitEpoch jobId epoch root sender => exact trainingWrite_spec _ 0 h
  | finalize jobId => exact trainingWrite_spec _ 0 h
  | reassign jobId newCoordinator caller => exact trainingWrite_spec _ 0 h
  | expire jobId caller => exact trainingWrite_spec _ 0 h
  | advanceRequest requestId caller => exact advanceRequest_spec requestId caller h

/-- A write of either client, begun at any time against any node, returns `Ok`
only if it was seen mined, and an error otherwise, exactly when its poll told how
it stands, or when it is an advance that could not be read back. -/
theorem write_confirmed_iff (c : HttpClient) (env : Env Node) (h : History Node) (w : Write) :
    Confirmed c w (performed c env h w).1 (performed c env h w).2 ↔
      Telling (performed c env h w).2 ∨ ReadBackFails w (performed c env h w).2 := by
  have hpost := Proc.Ensures.run (write_spec (c := c) w h) env
  unfold performed
  revert hpost
  generalize (w.program c).run env h = result
  obtain ⟨outcome, wire⟩ := result
  intro hpost
  cases outcome with
  | ok a =>
      obtain ⟨wire', hsame, hiff, hread⟩ := hpost
      cases List.append_cancel_left hsame
      rw [or_iff_left hread, hiff]
      refine ⟨fun hconfirmed => hconfirmed.mined a rfl, fun hmined => ⟨fun _ _ => hmined, ?_⟩⟩
      exact fun hunmined => absurd hmined hunmined
  | error stop =>
      obtain ⟨⟨e, rfl⟩, wire', hsame, htold⟩ := hpost
      cases List.append_cancel_left hsame
      exact ⟨fun _ => htold, fun _ => ⟨(fun a hbad => by cases hbad), fun _ => ⟨e, rfl⟩⟩⟩

/-! ## A transaction that is never mined -/

def plainClient : HttpClient where
  hashes := ⟨fun _ => FixedBytes.zero, fun _ => FixedBytes.zero⟩
  chainId := 40204
  contractAddr := FixedBytes.ofNat 7
  wallet := ⟨FixedBytes.zero, fun _ => .ok [2]⟩

/-- A node that takes the transaction and has no receipt of it. -/
def receiptlessNode : Env Node where
  answer _
    | .rpc method _ =>
        if method = receiptMethod then .value (.object [("result", .null)])
        else .value (.object [("result", .string "0x1")])
    | .sleep _ => ()
  delay _ _ := 0

/-- Finalizing a job returns `Ok` after thirty seconds without a receipt. -/
theorem timeout_confirms : ¬ ∀ (c : HttpClient) (env : Env Node) (h : History Node) (w : Write),
    Confirmed c w (performed c env h w).1 (performed c env h w).2 := by
  have hrun : (performed plainClient receiptlessNode [] (.finalize 42)).1.toOption.isSome ∧
      ∀ x ∈ (performed plainClient receiptlessNode [] (.finalize 42)).2,
        receiptSeen x = none := by decide +kernel
  intro hall
  have hconfirmed := hall plainClient receiptlessNode [] (.finalize 42)
  obtain ⟨e, he⟩ := hconfirmed.refused (not_seenMined hrun.2)
  rw [he] at hrun
  exact Bool.false_ne_true hrun.1

end HttpChain
end Worker
end ComputePool
