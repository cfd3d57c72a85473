import ComputePool.Lib.RecentKeys
import ComputePool.Rust.Result
import ComputePool.Worker.Envelope

/-!
# What an accepted envelope is bound to

The bytes under an envelope's signature determine its scope and its payload; a
frame that is accepted carries a signature of the stated sender over the scope of
the receiver; a frame that an honest transport built is accepted when it comes for
the first time; and a frame that fails a check leaves the replay guard alone.
-/

namespace ComputePool
namespace Worker
namespace Mesh

open RustStd Federated Codec

/-! ## The encoding is read back -/

/-- What a reader reads exactly can be split off the front of any bytes. -/
theorem prefixFree_of_reads {α : Type} {p : Decoder α} {enc : α → List UInt8}
    (h : ∀ a, Reads p (enc a) a) : Framing.PrefixFree enc := by
  intro a b s t hsame
  have hread := h a s
  rw [hsame, h b t] at hread
  cases hread
  exact ⟨rfl, rfl⟩

theorem deserialize_of_reads {α : Type} {p : Decoder α} {bytes : List UInt8} {a : α}
    (h : Reads p bytes a) : deserialize p bytes = .ok a := by
  have hread := h []
  rw [List.append_nil] at hread
  rw [deserialize, hread]

theorem reads_bytesOf {bytes : List UInt8} {n : Nat} (h : bytes.length = n) :
    Reads (bytesOf n) bytes bytes := by
  intro rest
  have hfits : ¬ (bytes ++ rest).length < n := by
    rw [List.length_append]
    omega
  show bytesOf n (bytes ++ rest) = .ok (bytes, rest)
  rw [bytesOf, if_neg hfits, ← h, List.take_left, List.drop_left]

theorem reads_fixint {α : Type} {n : Nat} {of : Nat → α} {v : Nat} {a : α} (hlt : v < 256 ^ n)
    (hof : of v = a) : Reads (fixint n of) (toLE n v) a := by
  have hread := (reads_bytesOf (toLE_length n v)).map fun s => of (leNat s)
  rwa [leNat_toLE hlt, hof] at hread

theorem reads_u8 (v : UInt8) : Reads u8 (toLE 1 v.toNat) v :=
  reads_fixint v.toNat_lt UInt8.ofNat_toNat

theorem reads_u32 (v : UInt32) : Reads u32 (toLE 4 v.toNat) v :=
  reads_fixint v.toNat_lt UInt32.ofNat_toNat

theorem reads_u64 (v : UInt64) : Reads u64 (toLE 8 v.toNat) v :=
  reads_fixint v.toNat_lt UInt64.ofNat_toNat

theorem reads_vec {bytes : List UInt8} (h : bytes.length < 2 ^ 64) :
    Reads vec (putVec bytes) bytes := by
  have hlength : Reads u64 (toLE 8 bytes.length) (UInt64.ofNat bytes.length) :=
    reads_fixint h rfl
  refine hlength.bind (reads_bytesOf ?_)
  rw [UInt64.toNat_ofNat', Nat.mod_eq_of_lt h]

/-- A reader that goes on without reading more. -/
theorem Reads.finish {α β : Type} {p : Decoder α} {q : α → Decoder β} {bytes : List UInt8} {a : α}
    {b : β} (h : Reads p bytes a) (hq : Reads (q a) [] b) : Reads (p >>= q) bytes b := by
  have hread := h.bind hq
  rwa [List.append_nil] at hread

theorem reads_string (s : WireString) : Reads string (putString s) s := by
  apply Reads.finish (reads_vec s.2)
  rw [fromUtf8_utf8]
  simp only [dif_pos s.2]
  exact Reads.pure s

/-- A last field, after which the value is put together. -/
theorem Reads.last {α β : Type} {p : Decoder α} {bytes : List UInt8} {a : α} (f : α → β)
    (h : Reads p bytes a) : Reads (p >>= fun x => pure (f x)) bytes (f a) :=
  Reads.finish h (Reads.pure (f a))

theorem reads_context (ctx : EnvelopeContext) : Reads context (putContext ctx) ctx :=
  (reads_u8 ctx.version).bind <| (reads_u64 ctx.jobId).bind <| (reads_u32 ctx.epoch).bind <|
    (reads_u64 ctx.nonce).bind <| (reads_string ctx.topic).bind <|
      Reads.last _ (reads_u64 ctx.sentAtMs)

theorem reads_address (addr : H160) : Reads address addr.toBytes addr := by
  apply Reads.finish (reads_bytesOf addr.toBytes_length)
  rw [dif_pos addr.toBytes_length]
  exact Reads.pure addr

theorem putVec_length (bytes : List UInt8) : (putVec bytes).length = 8 + bytes.length := by
  rw [putVec, List.length_append, toLE_length]

/-- An envelope within the cap is read back. -/
theorem deserialize_putEnvelope {env : WireEnvelope}
    (h : (putEnvelope env).length ≤ MAX_ENVELOPE_BYTES) :
    deserialize envelope (putEnvelope env) = .ok env := by
  have hbound : MAX_ENVELOPE_BYTES < 2 ^ 64 := by decide
  simp only [putEnvelope, List.length_append, putVec_length] at h
  apply deserialize_of_reads
  exact (reads_context env.context).bind <| (reads_address env.senderAddr).bind <|
    (reads_vec (by omega)).bind <| (reads_vec (by omega)).bind <| Reads.last _ (reads_vec (by omega))

/-- The signed bytes determine the context and the payload. -/
theorem envelopeSigningBytes_injective {ctx ctx' : EnvelopeContext} {payload payload' : List UInt8}
    (h : envelopeSigningBytes ctx payload = envelopeSigningBytes ctx' payload') :
    ctx = ctx' ∧ payload = payload' :=
  prefixFree_of_reads reads_context (List.append_cancel_left h)

/-! ## What the checks establish -/

variable {C : Crates}

/-- The context is for the receiver, of an epoch next to its own and fresh. -/
structure InScope (scope : Scope) (ctx : EnvelopeContext) : Prop where
  version : ctx.version = ENVELOPE_WIRE_VERSION
  topic : ctx.topic.toString = scope.topic
  job : ctx.jobId = scope.job
  epochLo : scope.epoch.toNat ≤ ctx.epoch.toNat + EPOCH_TOLERANCE
  epochHi : ctx.epoch.toNat ≤ scope.epoch.toNat + EPOCH_TOLERANCE
  notStale : scope.now.toNat ≤ ctx.sentAtMs.toNat + MAX_ENVELOPE_AGE_MS
  notFuture : ctx.sentAtMs.toNat ≤ scope.now.toNat + MAX_ENVELOPE_FUTURE_SKEW_MS

/-- The frame passes every check up to the signature, under the key `key`. -/
structure AuthenticUnder (C : Crates) (scope : Scope) (frame : List UInt8) (env : WireEnvelope)
    (key : C.VerifyingKey) : Prop where
  size : frame.length ≤ MAX_ENVELOPE_BYTES
  decoded : deserialize envelope frame = .ok env
  inScope : InScope scope env.context
  pubkey : C.fromSec1 env.pubkeySec1 = .ok key
  sender : addressFromVerifyingKey C key = env.senderAddr
  signature : ∃ sig, C.fromDer env.signature = .ok sig ∧
    C.verify key (envelopeSigningBytes env.context env.payload) sig = .ok ()

/-- The frame carries `env`, and passes every check up to the signature. -/
def Authentic (C : Crates) (scope : Scope) (frame : List UInt8) (env : WireEnvelope) : Prop :=
  ∃ key, AuthenticUnder C scope frame env key

theorem checkContext_eq_ok {scope : Scope} {ctx : EnvelopeContext} :
    checkContext scope ctx = .ok () ↔ InScope scope ctx := by
  have hepoch : ctx.epoch.toNat ≤ u32Max := by
    have := ctx.epoch.toNat_lt
    rw [u32Max]
    omega
  have htolerance : EPOCH_TOLERANCE = 1 := rfl
  rw [checkContext, check_eq_ok, check_eq_ok, check_eq_ok, check_eq_ok, check_eq_ok, check_eq_ok,
    Scope.epochLo, Scope.epochHi, not_not, not_not, not_not]
  constructor
  · rintro ⟨hversion, htopic, hjob, hwindow, hage, hskew, -⟩
    exact ⟨hversion, htopic, hjob, by omega, by omega, by omega, by omega⟩
  · rintro ⟨hversion, htopic, hjob, hlo, hhi, hage, hskew⟩
    exact ⟨hversion, htopic, hjob, by omega, by omega, by omega, rfl⟩

theorem authenticate_eq_ok {scope : Scope} {frame : List UInt8} {env : WireEnvelope} :
    authenticate C scope frame = .ok env ↔ Authentic C scope frame env := by
  unfold authenticate
  rw [check_eq_ok]
  simp only [bind_eq_ok, mapError_eq_ok, check_eq_ok]
  constructor
  · rintro ⟨hsize, env', hdecoded, ⟨⟩, hscope, key, hkey, haddr, sig, hder, ⟨⟩, hverify, hsame⟩
    cases hsame
    exact ⟨key, by omega, hdecoded, checkContext_eq_ok.mp hscope, hkey, not_not.mp haddr, sig, hder,
      hverify⟩
  · rintro ⟨key, hsize, hdecoded, hscope, hkey, haddr, sig, hder, hverify⟩
    exact ⟨by omega, env, hdecoded, (), checkContext_eq_ok.mpr hscope, key, hkey,
      not_not.mpr haddr, sig, hder, (), hverify, rfl⟩

theorem authentic_unique {scope : Scope} {frame : List UInt8} {env env' : WireEnvelope}
    (h : Authentic C scope frame env) (h' : Authentic C scope frame env') : env = env' := by
  have hsame := (authenticate_eq_ok.mpr h).symm.trans (authenticate_eq_ok.mpr h')
  exact Except.ok.inj hsame

theorem verifyEnvelope_of_not_authentic (guard : ReplayGuard) {scope : Scope} {frame : List UInt8}
    (h : ∀ env, ¬ Authentic C scope frame env) :
    ∃ e, verifyEnvelope C scope guard frame = (guard, .error e) := by
  unfold verifyEnvelope
  cases hcase : authenticate C scope frame with
  | error e => exact ⟨e, rfl⟩
  | ok env => exact absurd (authenticate_eq_ok.mp hcase) (h env)

/-- After the checks, the guard records the sender and the nonce, and the answer
depends on whether it knew them. -/
theorem verifyEnvelope_of_authentic {scope : Scope} {guard : ReplayGuard} {frame : List UInt8}
    {env : WireEnvelope} (h : Authentic C scope frame env) :
    verifyEnvelope C scope guard frame =
      ((guard.observe env.senderAddr env.context.nonce).1,
        if (guard.observe env.senderAddr env.context.nonce).2 then
          (C.deserializeMessage env.payload).mapError .payload >>= fun msg =>
            .ok (env.senderAddr, msg)
        else .error (.replayed env.context.nonce env.senderAddr)) := by
  rw [verifyEnvelope, authenticate_eq_ok.mpr h]
  dsimp only
  generalize guard.observe env.senderAddr env.context.nonce = observed
  obtain ⟨guard', fresh⟩ := observed
  cases fresh with
  | false => rfl
  | true => rfl

/-- The identity a message claims for its sender. -/
def claimedSender : WorkerMessage → Option H160
  | .stepCommitted commit => some commit.worker
  | .pipelineActivation _ _ _ fromWorker _ => some fromWorker
  | _ => none

theorem enforceSenderBinding_eq_ok {sender : H160} {msg : WorkerMessage} :
    enforceSenderBinding sender msg = .ok () ↔ ∀ claimed, claimedSender msg = some claimed →
      claimed = sender := by
  cases msg with
  | stepCommitted commit =>
      rw [enforceSenderBinding, check_eq_ok]
      simp [claimedSender]
  | stepAdvance epoch step => simp [enforceSenderBinding, claimedSender]
  | epochClose epoch => simp [enforceSenderBinding, claimedSender]
  | pipelineActivation requestId fromStage toStage fromWorker payload =>
      rw [enforceSenderBinding, check_eq_ok]
      simp [claimedSender]

/-! ## The replay guard -/

namespace ReplayGuard

/-- The set and the queue hold the same keys, each once, and no more than fit. -/
structure Sound (guard : ReplayGuard) : Prop where
  nodup : guard.order.Nodup
  same : guard.seen = guard.order.toFinset
  fits : guard.order.length ≤ guard.cap

theorem sound_new (cap : Nat) : (new cap).Sound := ⟨List.nodup_nil, rfl, Nat.zero_le _⟩

/-- `observe` is the bounded memory of the keys it was given. -/
theorem observe_spec {guard : ReplayGuard} (h : guard.Sound) (hcap : 0 < guard.cap) (sender : H160)
    (nonce : UInt64) :
    (guard.observe sender nonce).1.Sound ∧ (guard.observe sender nonce).1.cap = guard.cap ∧
      (guard.observe sender nonce).1.order =
        RecentKeys.remember guard.cap guard.order (sender, nonce) ∧
      (guard.observe sender nonce).2 = decide ((sender, nonce) ∉ guard.order) := by
  obtain ⟨hnodup, hsame, hfits⟩ := h
  have hmem : (sender, nonce) ∈ guard.seen ↔ (sender, nonce) ∈ guard.order := by
    rw [hsame, List.mem_toFinset]
  unfold observe RecentKeys.remember
  dsimp only
  by_cases hin : (sender, nonce) ∈ guard.order
  · rw [if_pos (hmem.mpr hin), if_pos hin]
    exact ⟨⟨hnodup, hsame, hfits⟩, rfl, rfl, by simp [hin]⟩
  · rw [if_neg (mt hmem.mp hin), if_neg hin]
    by_cases hfull : guard.order.length ≥ guard.cap
    · rw [if_pos hfull]
      cases horder : guard.order with
      | nil =>
          rw [horder] at hfull
          exact absurd hcap (by simpa using hfull)
      | cons evicted rest =>
          rw [horder] at hnodup hin hfull hfits hsame
          have hsteps : (evicted :: rest).length + 1 - guard.cap = 1 := by omega
          have hout : evicted ∉ rest := (List.nodup_cons.mp hnodup).1
          have herase : guard.seen.erase evicted = rest.toFinset := by
            rw [hsame, List.toFinset_cons, Finset.erase_insert (by simpa using hout)]
          have hnew : (sender, nonce) ∉ rest := fun hrest => hin (List.mem_cons_of_mem _ hrest)
          rw [hsteps, List.drop_succ_cons, List.drop_zero]
          refine ⟨⟨?_, ?_, ?_⟩, rfl, rfl, by simp [hin]⟩
          · exact (List.nodup_cons.mp hnodup).2.append (List.nodup_singleton _)
              (List.disjoint_singleton.mpr hnew)
          · dsimp only
            rw [herase]
            ext k
            simp
          · simpa using hfits
    · rw [if_neg hfull]
      have hsteps : guard.order.length + 1 - guard.cap = 0 := by omega
      rw [hsteps, List.drop_zero]
      refine ⟨⟨?_, ?_, ?_⟩, rfl, rfl, by simp [hin]⟩
      · exact hnodup.append (List.nodup_singleton _) (List.disjoint_singleton.mpr hin)
      · dsimp only
        rw [hsame]
        ext k
        simp
      · dsimp only
        rw [List.length_append, List.length_singleton]
        omega

end ReplayGuard

/-! ## Runs of the receiver -/

/-- A frame, and what the receiver compares it with when it comes. -/
abbrev Delivery := Scope × List UInt8

def receiver (C : Crates) : Machine ReplayGuard Delivery where
  step guard delivery := (acceptFrame C delivery.1 guard delivery.2).1

/-- The key that a delivery is recorded under, if it passes the checks. -/
def keyOf (C : Crates) (delivery : Delivery) : Option NonceKey :=
  match authenticate C delivery.1 delivery.2 with
  | .ok env => some (env.senderAddr, env.context.nonce)
  | .error _ => none

theorem keyOf_eq_some {delivery : Delivery} {key : NonceKey} :
    keyOf C delivery = some key ↔
      ∃ env, Authentic C delivery.1 delivery.2 env ∧ (env.senderAddr, env.context.nonce) = key := by
  unfold keyOf
  cases hcase : authenticate C delivery.1 delivery.2 with
  | error e =>
      constructor
      · intro h
        cases h
      · rintro ⟨env, henv, -⟩
        rw [authenticate_eq_ok.mpr henv] at hcase
        cases hcase
  | ok env =>
      have henv := authenticate_eq_ok.mp hcase
      constructor
      · intro h
        exact ⟨env, henv, Option.some.inj h⟩
      · rintro ⟨env', henv', rfl⟩
        rw [authentic_unique henv henv']

theorem keyOf_eq_none {delivery : Delivery} :
    keyOf C delivery = none ↔ ∀ env, ¬ Authentic C delivery.1 delivery.2 env := by
  constructor
  · intro hnone env henv
    rw [keyOf_eq_some.mpr ⟨env, henv, rfl⟩] at hnone
    cases hnone
  · intro h
    cases hcase : keyOf C delivery with
    | none => rfl
    | some key =>
        have ⟨env, henv, _⟩ := keyOf_eq_some.mp hcase
        exact absurd henv (h env)

/-- What acceptance adds to verification does not touch the guard. -/
theorem acceptFrame_guard (scope : Scope) (guard : ReplayGuard) (frame : List UInt8) :
    (acceptFrame C scope guard frame).1 = (verifyEnvelope C scope guard frame).1 := rfl

theorem receiver_step_of_none {guard : ReplayGuard} {delivery : Delivery}
    (h : keyOf C delivery = none) : (receiver C).step guard delivery = guard := by
  have ⟨e, hfailed⟩ := verifyEnvelope_of_not_authentic guard (keyOf_eq_none.mp h)
  show (acceptFrame C delivery.1 guard delivery.2).1 = guard
  rw [acceptFrame_guard, hfailed]

theorem receiver_step_of_some {guard : ReplayGuard} {delivery : Delivery} {key : NonceKey}
    (h : keyOf C delivery = some key) :
    (receiver C).step guard delivery = (guard.observe key.1 key.2).1 := by
  have ⟨env, henv, hkey⟩ := keyOf_eq_some.mp h
  cases hkey
  show (acceptFrame C delivery.1 guard delivery.2).1 = _
  rw [acceptFrame_guard, verifyEnvelope_of_authentic henv]

/-- After any deliveries the guard is the bounded memory of the keys of those that
passed the checks. -/
theorem receiver_run (C : Crates) (deliveries : List Delivery) :
    let guard := (receiver C).run (ReplayGuard.new REPLAY_WINDOW) deliveries
    guard.Sound ∧ guard.cap = REPLAY_WINDOW ∧
      guard.order = RecentKeys.feed REPLAY_WINDOW [] (deliveries.filterMap (keyOf C)) := by
  induction deliveries using List.reverseRecOn with
  | nil => exact ⟨ReplayGuard.sound_new _, rfl, rfl⟩
  | append_singleton front delivery ih =>
      dsimp only at ih ⊢
      rw [Machine.run_concat, List.filterMap_append]
      generalize (receiver C).run (ReplayGuard.new REPLAY_WINDOW) front = guard at ih ⊢
      have ⟨hsound, hcap, horder⟩ := ih
      cases hkey : keyOf C delivery with
      | none =>
          rw [receiver_step_of_none hkey]
          simpa [hkey] using ih
      | some key =>
          have hpos : 0 < guard.cap := by
            rw [hcap]
            decide
          have ⟨hsound', hcap', horder', _⟩ := ReplayGuard.observe_spec hsound hpos key.1 key.2
          rw [receiver_step_of_some hkey]
          refine ⟨hsound', hcap'.trans hcap, ?_⟩
          rw [horder', hcap, horder]
          simp [hkey]

/-- A frame that passes the checks under a key the guard does not hold is
verified, if its payload decodes. -/
theorem verifyEnvelope_of_fresh {scope : Scope} {guard : ReplayGuard} {frame : List UInt8}
    {env : WireEnvelope} {msg : WorkerMessage} (hsound : guard.Sound) (hcap : 0 < guard.cap)
    (henv : Authentic C scope frame env)
    (hnew : (env.senderAddr, env.context.nonce) ∉ guard.order)
    (hmsg : C.deserializeMessage env.payload = .ok msg) :
    (verifyEnvelope C scope guard frame).2 = .ok (env.senderAddr, msg) := by
  have ⟨_, _, _, hfresh⟩ :=
    ReplayGuard.observe_spec hsound hcap env.senderAddr env.context.nonce
  rw [verifyEnvelope_of_authentic henv, hfresh, decide_eq_true hnew, hmsg]
  rfl

/-- A verified frame passed the checks and was new to the guard, and it decodes to
the message. -/
theorem verifyEnvelope_ok {scope : Scope} {guard : ReplayGuard} {frame : List UInt8}
    {sender : H160} {msg : WorkerMessage}
    (h : (verifyEnvelope C scope guard frame).2 = .ok (sender, msg)) :
    ∃ env, Authentic C scope frame env ∧ env.senderAddr = sender ∧
      (guard.observe sender env.context.nonce).2 = true ∧
      C.deserializeMessage env.payload = .ok msg := by
  by_cases hauth : ∃ env, Authentic C scope frame env
  · have ⟨env, henv⟩ := hauth
    rw [verifyEnvelope_of_authentic henv] at h
    dsimp only at h
    split at h
    · rename_i hobserved
      have ⟨msg', hmsg, hpair⟩ := bind_eq_ok.mp h
      cases hpair
      exact ⟨env, henv, rfl, hobserved, mapError_eq_ok.mp hmsg⟩
    · cases h
  · have ⟨e, hfailed⟩ := verifyEnvelope_of_not_authentic guard (not_exists.mp hauth)
    rw [hfailed] at h
    cases h

theorem acceptFrame_eq_ok {scope : Scope} {guard : ReplayGuard} {frame : List UInt8}
    {sender : H160} {msg : WorkerMessage} :
    (acceptFrame C scope guard frame).2 = .ok (sender, msg) ↔
      (verifyEnvelope C scope guard frame).2 = .ok (sender, msg) ∧
        ∀ claimed, claimedSender msg = some claimed → claimed = sender := by
  show ((verifyEnvelope C scope guard frame).2 >>= fun verified => _) = _ ↔ _
  rw [bind_eq_ok]
  constructor
  · rintro ⟨verified, hverified, h⟩
    have ⟨_, hbinding, hsame⟩ := bind_eq_ok.mp h
    cases hsame
    exact ⟨hverified, enforceSenderBinding_eq_ok.mp hbinding⟩
  · rintro ⟨hverified, hclaim⟩
    exact ⟨_, hverified, bind_eq_ok.mpr ⟨(), enforceSenderBinding_eq_ok.mpr hclaim, rfl⟩⟩

/-! ## What an honest transport sends -/

/-- What drives a transport's sending side. -/
inductive Command where
  | broadcast (msg : WorkerMessage) (now : UInt64)
  | setEpoch (epoch : UInt32)

namespace Transport

/-- `set_epoch`. -/
def setEpoch (t : Transport C) (epoch : UInt32) : Transport C := { t with currentEpoch := epoch }

/-- The messages sent, each with its envelope. -/
def sent (t : Transport C) : List Command → List (WorkerMessage × WireEnvelope)
  | [] => []
  | .broadcast msg now :: rest => (msg, t.nextEnvelope msg now) :: (t.broadcast msg now).1.sent rest
  | .setEpoch epoch :: rest => (t.setEpoch epoch).sent rest

/-- What the envelope of a message looks like. -/
structure Built (t : Transport C) (msg : WorkerMessage) (env : WireEnvelope) : Prop where
  version : env.context.version = ENVELOPE_WIRE_VERSION
  job : env.context.jobId = t.jobId
  topic : env.context.topic = topicForJob t.jobId
  sender : env.senderAddr = t.ownAddress
  payload : env.payload = C.serializeMessage msg
  pubkey : env.pubkeySec1 = C.toSec1 (C.verifyingKey t.signingKey)
  signature : env.signature =
    C.toDer (C.sign t.signingKey (envelopeSigningBytes env.context env.payload))

theorem built_nextEnvelope (t : Transport C) (msg : WorkerMessage) (now : UInt64) :
    t.Built msg (t.nextEnvelope msg now) :=
  ⟨rfl, rfl, rfl, rfl, rfl, rfl, rfl⟩

theorem built_of_sent {t : Transport C} {commands : List Command} {msg : WorkerMessage}
    {env : WireEnvelope} (h : (msg, env) ∈ t.sent commands) : t.Built msg env := by
  induction commands generalizing t with
  | nil => cases h
  | cons command rest ih =>
      cases command with
      | broadcast msg' now =>
          rw [sent] at h
          rcases List.mem_cons.mp h with hfirst | hrest
          · cases hfirst
            exact t.built_nextEnvelope msg now
          · -- the transport has moved on to the next nonce, which `Built` does not mention
            have hlater := ih hrest
            exact ⟨hlater.version, hlater.job, hlater.topic, hlater.sender, hlater.payload,
              hlater.pubkey, hlater.signature⟩
      | setEpoch epoch =>
          have hlater := ih h
          exact ⟨hlater.version, hlater.job, hlater.topic, hlater.sender, hlater.payload,
            hlater.pubkey, hlater.signature⟩

/-- The nonces count up from the transport's own. -/
theorem nonces_sent (t : Transport C) (commands : List Command) :
    (t.sent commands).map (fun s => s.2.context.nonce) =
      (List.range (t.sent commands).length).map fun i => t.nonce + UInt64.ofNat i := by
  induction commands generalizing t with
  | nil => rfl
  | cons command rest ih =>
      cases command with
      | broadcast msg now =>
          rw [sent, List.map_cons, ih, List.length_cons, List.range_succ_eq_map, List.map_cons,
            List.map_map]
          have hfirst : (t.nextEnvelope msg now).context.nonce = t.nonce + UInt64.ofNat 0 := by
            show t.nonce = t.nonce + 0
            rw [UInt64.add_zero]
          rw [hfirst]
          congr 1
          apply List.map_congr_left
          intro i _
          show t.nonce + 1 + UInt64.ofNat i = t.nonce + UInt64.ofNat (i + 1)
          rw [UInt64.ofNat_add, UInt64.add_assoc, UInt64.add_comm 1]
          rfl
      | setEpoch epoch => exact ih (t.setEpoch epoch)

/-- As long as the counter has not gone round, a nonce is used once. -/
theorem nonces_nodup {t : Transport C} {commands : List Command}
    (h : (t.sent commands).length ≤ 2 ^ 64) :
    ((t.sent commands).map fun s => s.2.context.nonce).Nodup := by
  rw [nonces_sent]
  apply List.Nodup.map_on _ List.nodup_range
  intro i hi j hj hsame
  rw [List.mem_range] at hi hj
  have hofNat : UInt64.ofNat i = UInt64.ofNat j := by
    have := congrArg (fun n => n - t.nonce) hsame
    simpa [UInt64.add_comm t.nonce] using this
  have hmod := congrArg UInt64.toNat hofNat
  rwa [UInt64.toNat_ofNat', UInt64.toNat_ofNat', Nat.mod_eq_of_lt (by omega),
    Nat.mod_eq_of_lt (by omega)] at hmod

end Transport

/-- The receiver is on the transport's job, next to the epoch of the context, and
its clock is inside the freshness window. -/
structure Reaches (t : Transport C) (scope : Scope) (ctx : EnvelopeContext) : Prop where
  job : scope.job = t.jobId
  topic : scope.topic = (topicForJob t.jobId).toString
  epochLo : scope.epoch.toNat ≤ ctx.epoch.toNat + EPOCH_TOLERANCE
  epochHi : ctx.epoch.toNat ≤ scope.epoch.toNat + EPOCH_TOLERANCE
  notStale : scope.now.toNat ≤ ctx.sentAtMs.toNat + MAX_ENVELOPE_AGE_MS
  notFuture : ctx.sentAtMs.toNat ≤ scope.now.toNat + MAX_ENVELOPE_FUTURE_SKEW_MS

/-- No signature in the frame is forged: what verifies under a key was signed with
it. -/
def Unforged (Signed : C.VerifyingKey → List UInt8 → Prop) (frame : List UInt8) : Prop :=
  ∀ env key sig, deserialize envelope frame = .ok env → C.fromDer env.signature = .ok sig →
    C.verify key (envelopeSigningBytes env.context env.payload) sig = .ok () →
      Signed key (envelopeSigningBytes env.context env.payload)

/-- What was signed with the transport's key are its own envelopes, no other key
has its address, and its counter of nonces has not gone round. -/
structure Honest (Signed : C.VerifyingKey → List UInt8 → Prop) (t : Transport C)
    (commands : List Command) : Prop where
  signs : ∀ ctx payload, Signed (C.verifyingKey t.signingKey) (envelopeSigningBytes ctx payload) →
    ∃ s ∈ t.sent commands, s.2.context = ctx ∧ s.2.payload = payload
  address : ∀ key, addressFromVerifyingKey C key = t.ownAddress →
    key = C.verifyingKey t.signingKey
  counter : (t.sent commands).length ≤ 2 ^ 64

/-- The frame of a transport's envelope passes the checks of a receiver it reaches. -/
theorem authentic_of_built (hC : C.Correct) {t : Transport C} {msg : WorkerMessage}
    {env : WireEnvelope} {scope : Scope} (hbuilt : t.Built msg env)
    (hsize : (putEnvelope env).length ≤ MAX_ENVELOPE_BYTES) (hreach : Reaches t scope env.context) :
    Authentic C scope (putEnvelope env) env := by
  refine ⟨C.verifyingKey t.signingKey, hsize, deserialize_putEnvelope hsize, ?_, ?_, ?_, ?_⟩
  · exact ⟨hbuilt.version, by rw [hbuilt.topic, hreach.topic], by rw [hbuilt.job, hreach.job],
      hreach.epochLo, hreach.epochHi, hreach.notStale, hreach.notFuture⟩
  · rw [hbuilt.pubkey, hC.sec1]
  · rw [hbuilt.sender, Transport.ownAddress]
  · refine ⟨C.sign t.signingKey (envelopeSigningBytes env.context env.payload), ?_, hC.signed _ _⟩
    rw [hbuilt.signature, hC.der]

/-- Only a copy of an honest envelope passes the checks under the transport's
address and the envelope's nonce. -/
theorem Honest.copy {Signed : C.VerifyingKey → List UInt8 → Prop} {t : Transport C}
    {commands : List Command} (hhonest : Honest Signed t commands) {msg : WorkerMessage}
    {env env' : WireEnvelope} (hsent : (msg, env) ∈ t.sent commands) {scope : Scope}
    {frame : List UInt8} (hforge : Unforged Signed frame) (hauth : Authentic C scope frame env')
    (haddr : env'.senderAddr = t.ownAddress) (hnonce : env'.context.nonce = env.context.nonce) :
    env'.context = env.context ∧ env'.payload = env.payload := by
  obtain ⟨key, hkey⟩ := hauth
  have hown : key = C.verifyingKey t.signingKey :=
    hhonest.address key (hkey.sender.trans haddr)
  have ⟨sig, hsig, hverify⟩ := hkey.signature
  have hsigned := hforge env' key sig hkey.decoded hsig hverify
  rw [hown] at hsigned
  have ⟨s, hs, hctx, hpayload⟩ := hhonest.signs _ _ hsigned
  -- both envelopes were sent under this nonce, so they are one
  have hsame : s = (msg, env) := by
    apply List.inj_on_of_nodup_map (Transport.nonces_nodup hhonest.counter) hs hsent
    show s.2.context.nonce = env.context.nonce
    rw [hctx, hnonce]
  subst hsame
  exact ⟨hctx.symm, hpayload.symm⟩

theorem payload_length_le (env : WireEnvelope) :
    env.payload.length ≤ (putEnvelope env).length := by
  simp only [putEnvelope, List.length_append, putVec_length]
  omega

theorem deserializeMessage_of_built (hC : C.Correct) {t : Transport C} {msg : WorkerMessage}
    {env : WireEnvelope} (hbuilt : t.Built msg env)
    (hsize : (putEnvelope env).length ≤ MAX_ENVELOPE_BYTES) :
    C.deserializeMessage env.payload = .ok msg := by
  have hfits := (payload_length_le env).trans hsize
  rw [hbuilt.payload] at hfits ⊢
  exact hC.message msg hfits

/-- What acceptance of an envelope says, and which envelopes are accepted. -/
structure EnvelopeBinding (C : Crates) (Signed : C.VerifyingKey → List UInt8 → Prop) : Prop where
  injective : ∀ ctx ctx' payload payload',
    envelopeSigningBytes ctx payload = envelopeSigningBytes ctx' payload' →
      ctx = ctx' ∧ payload = payload'
  /-- An accepted frame was signed by its sender, for the receiver. -/
  bound : ∀ scope guard frame sender msg, Unforged Signed frame →
    (acceptFrame C scope guard frame).2 = .ok (sender, msg) →
      ∃ env key, deserialize envelope frame = .ok env ∧ env.senderAddr = sender ∧
        addressFromVerifyingKey C key = sender ∧
        Signed key (envelopeSigningBytes env.context env.payload) ∧ InScope scope env.context ∧
        C.deserializeMessage env.payload = .ok msg ∧
        ∀ claimed, claimedSender msg = some claimed → claimed = sender
  /-- An honest envelope is accepted unless a copy of it was there before. -/
  first : ∀ (t : Transport C) commands, Honest Signed t commands → ∀ msg env,
    (msg, env) ∈ t.sent commands → (putEnvelope env).length ≤ MAX_ENVELOPE_BYTES →
    (∀ claimed, claimedSender msg = some claimed → claimed = t.ownAddress) →
    ∀ earlier : List Delivery, (∀ delivery ∈ earlier, Unforged Signed delivery.2) →
    (∀ delivery ∈ earlier, ∀ env', Authentic C delivery.1 delivery.2 env' →
      ¬ (env'.context = env.context ∧ env'.payload = env.payload)) →
    ∀ scope, Reaches t scope env.context →
      (acceptFrame C scope ((receiver C).run (ReplayGuard.new REPLAY_WINDOW) earlier)
        (putEnvelope env)).2 = .ok (t.ownAddress, msg)
  /-- A frame that fails a check is not recorded. -/
  unchanged : ∀ scope guard frame, (∀ env, ¬ Authentic C scope frame env) →
    (acceptFrame C scope guard frame).1 = guard

theorem accepted_bound {Signed : C.VerifyingKey → List UInt8 → Prop} {scope : Scope}
    {guard : ReplayGuard} {frame : List UInt8} {sender : H160} {msg : WorkerMessage}
    (hforge : Unforged Signed frame)
    (h : (acceptFrame C scope guard frame).2 = .ok (sender, msg)) :
    ∃ env key, deserialize envelope frame = .ok env ∧ env.senderAddr = sender ∧
      addressFromVerifyingKey C key = sender ∧
      Signed key (envelopeSigningBytes env.context env.payload) ∧ InScope scope env.context ∧
      C.deserializeMessage env.payload = .ok msg ∧
      ∀ claimed, claimedSender msg = some claimed → claimed = sender := by
  have ⟨hverified, hclaim⟩ := acceptFrame_eq_ok.mp h
  have ⟨env, ⟨key, hkey⟩, haddr, _, hmsg⟩ := verifyEnvelope_ok hverified
  have ⟨sig, hsig, hverify⟩ := hkey.signature
  exact ⟨env, key, hkey.decoded, haddr, hkey.sender.trans haddr,
    hforge env key sig hkey.decoded hsig hverify, hkey.inScope, hmsg, hclaim⟩

theorem first_delivery_accepted (hC : C.Correct) {Signed : C.VerifyingKey → List UInt8 → Prop}
    {t : Transport C} {commands : List Command} (hhonest : Honest Signed t commands)
    {msg : WorkerMessage} {env : WireEnvelope} (hsent : (msg, env) ∈ t.sent commands)
    (hsize : (putEnvelope env).length ≤ MAX_ENVELOPE_BYTES)
    (hclaim : ∀ claimed, claimedSender msg = some claimed → claimed = t.ownAddress)
    {earlier : List Delivery} (hforge : ∀ delivery ∈ earlier, Unforged Signed delivery.2)
    (hfirst : ∀ delivery ∈ earlier, ∀ env',
      Authentic C delivery.1 delivery.2 env' →
        ¬ (env'.context = env.context ∧ env'.payload = env.payload))
    {scope : Scope} (hreach : Reaches t scope env.context) :
    (acceptFrame C scope ((receiver C).run (ReplayGuard.new REPLAY_WINDOW) earlier)
      (putEnvelope env)).2 = .ok (t.ownAddress, msg) := by
  have hbuilt := Transport.built_of_sent hsent
  have ⟨hsound, hcap, horder⟩ := receiver_run C earlier
  have hpos : 0 < REPLAY_WINDOW := by decide
  have hnew : (env.senderAddr, env.context.nonce) ∉
      ((receiver C).run (ReplayGuard.new REPLAY_WINDOW) earlier).order := by
    intro hmem
    rw [horder, RecentKeys.feed_eq_recent hpos] at hmem
    have hkeys := RecentKeys.mem_of_mem_fresh (RecentKeys.mem_of_mem_recent hmem)
    have ⟨delivery, hdelivery, hkey⟩ := List.mem_filterMap.mp hkeys
    have ⟨env', hauth, hpair⟩ := keyOf_eq_some.mp hkey
    have haddr : env'.senderAddr = t.ownAddress :=
      (congrArg Prod.fst hpair).trans hbuilt.sender
    have hnonce : env'.context.nonce = env.context.nonce := congrArg Prod.snd hpair
    exact hfirst delivery hdelivery env' hauth
      (hhonest.copy hsent (hforge delivery hdelivery) hauth haddr hnonce)
  have hverified := verifyEnvelope_of_fresh hsound (by rwa [hcap])
    (authentic_of_built hC hbuilt hsize hreach) hnew (deserializeMessage_of_built hC hbuilt hsize)
  rw [hbuilt.sender] at hverified
  exact acceptFrame_eq_ok.mpr ⟨hverified, hclaim⟩

theorem envelope_binding (C : Crates) (hC : C.Correct)
    (Signed : C.VerifyingKey → List UInt8 → Prop) : EnvelopeBinding C Signed where
  injective _ _ _ _ := envelopeSigningBytes_injective
  bound _ _ _ _ _ := accepted_bound
  first _ _ hhonest _ _ hsent hsize hclaim _ hforge hfirst _ hreach :=
    first_delivery_accepted hC hhonest hsent hsize hclaim hforge hfirst hreach
  unchanged scope guard frame h := by
    have ⟨e, hfailed⟩ := verifyEnvelope_of_not_authentic guard h
    rw [acceptFrame_guard, hfailed]

/-! ## A concrete mesh -/

/-- A fixed-size hex value, which is written as a string. -/
def putHex {n : Nat} (a : FixedBytes n) : List UInt8 := putVec (utf8 (hex0x a.toBytes))

def hex (n : Nat) : Decoder (FixedBytes n) := do
  let bytes ← vec
  match (fromUtf8 bytes).bind (parseHex n) with
  | some a => pure a
  | none => throw .utf8

theorem reads_hex {n : Nat} (hn : n < 2 ^ 60) (a : FixedBytes n) : Reads (hex n) (putHex a) a := by
  have hlength : (utf8 (hex0x a.toBytes)).length < 2 ^ 64 := by
    have hbytes := utf8_length_le (hex0x a.toBytes)
    have hchars : (hex0x a.toBytes).length = 2 + 2 * n := by
      rw [hex0x, String.length_ofList, List.length_cons, List.length_cons, hexChars_length,
        a.toBytes_length]
      omega
    omega
  apply Reads.finish (reads_vec hlength)
  rw [fromUtf8_utf8, Option.bind_some, parseHex_hex0x]
  exact Reads.pure a

/-- A `WorkerMessage`: the index of its variant and its fields. -/
def putMessage : WorkerMessage → List UInt8
  | .stepCommitted commit =>
      toLE 4 (0 : UInt32).toNat ++ (toLE 4 commit.epoch.toNat ++ (toLE 4 commit.step.toNat ++
        (putHex commit.worker ++ (putHex commit.commitment ++ putHex commit.prevWeights))))
  | .stepAdvance epoch step =>
      toLE 4 (1 : UInt32).toNat ++ (toLE 4 epoch.toNat ++ toLE 4 step.toNat)
  | .epochClose epoch => toLE 4 (2 : UInt32).toNat ++ toLE 4 epoch.toNat
  | .pipelineActivation requestId fromStage toStage fromWorker payload =>
      toLE 4 (3 : UInt32).toNat ++ (toLE 8 requestId.toNat ++ (toLE 4 fromStage.toNat ++
        (toLE 4 toStage.toNat ++ (putHex fromWorker ++ putVec payload))))

def messageBody (variant : UInt32) : Decoder WorkerMessage :=
  if variant = 0 then do
    let epoch ← u32
    let step ← u32
    let worker ← hex 20
    let commitment ← hex 32
    let prevWeights ← hex 32
    pure (.stepCommitted ⟨epoch, step, worker, commitment, prevWeights⟩)
  else if variant = 1 then do
    let epoch ← u32
    let step ← u32
    pure (.stepAdvance epoch step)
  else if variant = 2 then do
    let epoch ← u32
    pure (.epochClose epoch)
  else do
    let requestId ← u64
    let fromStage ← u32
    let toStage ← u32
    let fromWorker ← hex 20
    let payload ← vec
    pure (.pipelineActivation requestId fromStage toStage fromWorker payload)

def message : Decoder WorkerMessage := do
  let variant ← u32
  messageBody variant

theorem reads_message {msg : WorkerMessage} (h : (putMessage msg).length ≤ MAX_ENVELOPE_BYTES) :
    Reads message (putMessage msg) msg := by
  have hbound : MAX_ENVELOPE_BYTES < 2 ^ 64 := by decide
  cases msg with
  | stepCommitted commit =>
      exact (reads_u32 0).bind <| (reads_u32 commit.epoch).bind <| (reads_u32 commit.step).bind <|
        (reads_hex (by decide) commit.worker).bind <|
          (reads_hex (by decide) commit.commitment).bind <|
            Reads.last _ (reads_hex (by decide) commit.prevWeights)
  | stepAdvance epoch step =>
      exact (reads_u32 1).bind <| (reads_u32 epoch).bind <| Reads.last _ (reads_u32 step)
  | epochClose epoch => exact (reads_u32 2).bind <| Reads.last _ (reads_u32 epoch)
  | pipelineActivation requestId fromStage toStage fromWorker payload =>
      have hpayload : payload.length < 2 ^ 64 := by
        simp only [putMessage, List.length_append, putVec_length] at h
        omega
      exact (reads_u32 3).bind <| (reads_u64 requestId).bind <| (reads_u32 fromStage).bind <|
        (reads_u32 toStage).bind <| (reads_hex (by decide) fromWorker).bind <|
          Reads.last _ (reads_vec hpayload)

/-- Twenty bytes in the place of an address in a word. -/
def paddedAddress (bytes : List UInt8) : B32 :=
  ⟨(List.replicate 12 0 ++ bytes ++ List.replicate 20 0).take 32, by simp⟩

theorem paddedAddress_drop (addr : H160) :
    (paddedAddress addr.toBytes).toBytes.drop 12 = addr.toBytes := by
  have hfront : (List.replicate 12 0 ++ addr.toBytes).length = 32 := by
    rw [List.length_append, List.length_replicate, addr.toBytes_length]
  show ((List.replicate 12 0 ++ addr.toBytes ++ List.replicate 20 0).take 32).drop 12 = _
  rw [List.take_left' hfront]
  rfl

/-- Keys that are their own addresses, and signatures that repeat the key and what
it signs. -/
def plainCrates : Crates where
  hashes := ⟨paddedAddress, fun _ => FixedBytes.zero⟩
  SigningKey := H160
  VerifyingKey := H160
  Signature := List UInt8
  verifyingKey := id
  sign key bytes := key.toBytes ++ bytes
  verify key bytes sig :=
    if sig = key.toBytes ++ bytes then .ok () else .error "signature error"
  toSec1 key := 4 :: key.toBytes
  fromSec1 bytes :=
    if h : (bytes.drop 1).length = 20 then .ok ⟨bytes.drop 1, h⟩ else .error "crypto error"
  toDer := id
  fromDer := .ok
  serializeMessage := putMessage
  deserializeMessage bytes :=
    if bytes.length > MAX_ENVELOPE_BYTES then .error "the size limit has been reached"
    else (deserialize message bytes).mapError fun _ => "io error: unexpected end of file"

theorem plainCrates_correct : plainCrates.Correct where
  sec1 key := dif_pos key.toBytes_length
  der _ := rfl
  signed _ _ := if_pos rfl
  message msg h := by
    show (if _ then _ else _) = _
    rw [if_neg (by exact Nat.not_lt.mpr h)]
    show (deserialize message (putMessage msg)).mapError _ = _
    rw [deserialize_of_reads (reads_message h)]
    rfl

theorem plainCrates_address (key : H160) : addressFromVerifyingKey plainCrates key = key := by
  have hpoint : ([(plainCrates.toSec1 key).drop 1] : List (List UInt8)).flatten = key.toBytes :=
    List.append_nil _
  unfold addressFromVerifyingKey
  rw [keccak, hpoint]
  show FixedBytes.ofNat (beNat ((paddedAddress key.toBytes).toBytes.drop 12)) = key
  rw [paddedAddress_drop]
  apply Subtype.ext
  show toBE 20 (beNat key.toBytes) = key.toBytes
  have hback := toBE_beNat key.toBytes
  rwa [key.toBytes_length] at hback

/-- A worker of job 3 in its fifth epoch, about to use `nonce`. -/
def plainTransport (nonce : UInt64) : Transport plainCrates := ⟨FixedBytes.ofNat 7, 3, 5, nonce⟩

/-- Its envelopes are small when its messages are. -/
theorem plainTransport_fits (nonce : UInt64) {msg : WorkerMessage} {now : UInt64}
    (hmsg : (putMessage msg).length ≤ 10000) :
    (putEnvelope ((plainTransport nonce).nextEnvelope msg now)).length ≤ MAX_ENVELOPE_BYTES := by
  have htopic : (utf8 (topicForJob 3).1).length = 22 := by decide
  have htag : ENVELOPE_DOMAIN_TAG.length = 24 := by decide
  have hcap : MAX_ENVELOPE_BYTES = 4194304 := by decide
  have hctx : (putContext ((plainTransport nonce).nextContext now)).length = 59 := by
    simp only [putContext, putString, List.length_append, toLE_length, putVec_length]
    show 1 + (8 + (4 + (8 + (8 + (utf8 (topicForJob 3).1).length + 8)))) = 59
    rw [htopic]
  have hkey : (FixedBytes.ofNat 7 : H160).toBytes.length = 20 := FixedBytes.toBytes_length _
  have hsignature : ((plainTransport nonce).nextEnvelope msg now).signature.length =
      20 + (24 + (59 + (putMessage msg).length)) := by
    show ((FixedBytes.ofNat 7 : H160).toBytes ++ (ENVELOPE_DOMAIN_TAG ++
      (putContext ((plainTransport nonce).nextContext now) ++ putMessage msg))).length = _
    rw [List.length_append, List.length_append, List.length_append, hkey, htag, hctx]
  rw [putEnvelope, List.length_append, List.length_append, List.length_append,
    List.length_append, putVec_length, putVec_length, putVec_length, FixedBytes.toBytes_length,
    hsignature]
  show (putContext ((plainTransport nonce).nextContext now)).length + (20 + (8 + (putMessage msg).length +
    (8 + _ + (8 + (4 :: (FixedBytes.ofNat 7 : H160).toBytes).length)))) ≤ _
  rw [hctx, List.length_cons, hkey]
  omega

/-- The first frame of the worker reaches a receiver one epoch ahead. -/
theorem envelope_binding_plain :
    let scope : Scope := ⟨(topicForJob 3).toString, 3, 6, 1700000000250⟩
    (acceptFrame plainCrates scope (ReplayGuard.new REPLAY_WINDOW)
      ((plainTransport 1700000000000).broadcast (.stepAdvance 5 2) 1700000000000).2).2 =
        .ok ((plainTransport 1700000000000).ownAddress, .stepAdvance 5 2) := by
  have hbinding := envelope_binding plainCrates plainCrates_correct fun key bytes =>
    key = FixedBytes.ofNat 7 → bytes = envelopeSigningBytes
      ((plainTransport 1700000000000).nextContext 1700000000000) (putMessage (.stepAdvance 5 2))
  refine hbinding.first (plainTransport 1700000000000) [.broadcast (.stepAdvance 5 2) 1700000000000] ?_
    (.stepAdvance 5 2) _ List.mem_cons_self ?_ ?_ [] ?_ ?_ _ ?_
  · refine ⟨fun ctx payload hsigned => ⟨_, List.mem_cons_self, ?_⟩, fun key hkey => ?_, by decide⟩
    · have hsame := envelopeSigningBytes_injective (hsigned rfl)
      exact ⟨hsame.1.symm, hsame.2.symm⟩
    · exact (plainCrates_address key).symm.trans (hkey.trans (plainCrates_address _))
  · exact plainTransport_fits _ (by decide)
  · intro claimed h
    cases h
  · intro delivery h
    cases h
  · intro delivery h
    cases h
  · exact ⟨rfl, rfl, by decide, by decide, by decide, by decide⟩

end Mesh
end Worker
end ComputePool
