import ComputePool.Lib.Codec
import ComputePool.Lib.Framing
import ComputePool.Lib.Machine
import ComputePool.Rust.Integer
import ComputePool.Worker.EpochAggregator

/-!
# Mesh envelopes

The envelope of `libp2p_transport.rs`: `broadcast` signs a message together with
the scope it is meant for, and `verify_envelope` checks size, scope, freshness,
address and signature before it records the nonce and decodes the message.
`bincode` writes integers in little-endian order at their full width and a length
of eight bytes before a string or a vector; the encoding of the message itself and
the signature scheme are parameters.
-/

namespace ComputePool
namespace Worker
namespace Mesh

open RustStd Federated Codec

def ENVELOPE_WIRE_VERSION : UInt8 := 2

def ENVELOPE_DOMAIN_TAG : List UInt8 := utf8 "citrate-mesh-envelope-v2"

def EPOCH_TOLERANCE : Nat := 1

/-- Five minutes. -/
def MAX_ENVELOPE_AGE_MS : Nat := 5 * 60 * 1000

/-- Thirty seconds. -/
def MAX_ENVELOPE_FUTURE_SKEW_MS : Nat := 30 * 1000

def REPLAY_WINDOW : Nat := 4096

/-- Four mebibytes. -/
def MAX_ENVELOPE_BYTES : Nat := 4 * 1024 * 1024

/-! ## Encoding -/

/-- `bincode::Error`. -/
inductive BincodeError where
  | eof
  | utf8
  | trailing
  deriving DecidableEq

abbrev Decoder := Reader BincodeError

def bytesOf (n : Nat) : Decoder (List UInt8) := fun s =>
  if s.length < n then .error .eof else .ok (s.take n, s.drop n)

/-- A little-endian number of `n` bytes. -/
def fixint {α : Type} (n : Nat) (of : Nat → α) : Decoder α := (fun s => of (leNat s)) <$> bytesOf n

def u8 : Decoder UInt8 := fixint 1 UInt8.ofNat

def u32 : Decoder UInt32 := fixint 4 UInt32.ofNat

def u64 : Decoder UInt64 := fixint 8 UInt64.ofNat

/-- A `Vec<u8>`. -/
def vec : Decoder (List UInt8) := do
  let n ← u64
  bytesOf n.toNat

def putVec (bytes : List UInt8) : List UInt8 := toLE 8 bytes.length ++ bytes

/-- A `String`, whose length fits its length prefix. -/
def WireString : Type := { s : String // (utf8 s).length < 2 ^ 64 }

instance : DecidableEq WireString := fun s t =>
  decidable_of_iff (s.1 = t.1) Subtype.ext_iff.symm

def WireString.toString (s : WireString) : String := s.1

def string : Decoder WireString := do
  let bytes ← vec
  match fromUtf8 bytes with
  | some s => if h : (utf8 s).length < 2 ^ 64 then pure ⟨s, h⟩ else throw .utf8
  | none => throw .utf8

def putString (s : WireString) : List UInt8 := putVec (utf8 s.1)

/-- `bincode_limited().deserialize(bytes)`, of bytes within the limit: nothing may
be left over. -/
def deserialize {α : Type} (p : Decoder α) (bytes : List UInt8) : Except BincodeError α :=
  match p bytes with
  | .ok (a, []) => .ok a
  | .ok (_, _ :: _) => .error .trailing
  | .error e => .error e

structure EnvelopeContext where
  version : UInt8
  jobId : UInt64
  epoch : UInt32
  nonce : UInt64
  topic : WireString
  sentAtMs : UInt64
  deriving DecidableEq

def putContext (ctx : EnvelopeContext) : List UInt8 :=
  toLE 1 ctx.version.toNat ++ (toLE 8 ctx.jobId.toNat ++ (toLE 4 ctx.epoch.toNat ++
    (toLE 8 ctx.nonce.toNat ++ (putString ctx.topic ++ toLE 8 ctx.sentAtMs.toNat))))

def context : Decoder EnvelopeContext := do
  let version ← u8
  let jobId ← u64
  let epoch ← u32
  let nonce ← u64
  let topic ← string
  let sentAtMs ← u64
  pure ⟨version, jobId, epoch, nonce, topic, sentAtMs⟩

structure WireEnvelope where
  context : EnvelopeContext
  senderAddr : H160
  payload : List UInt8
  signature : List UInt8
  pubkeySec1 : List UInt8

def putEnvelope (env : WireEnvelope) : List UInt8 :=
  putContext env.context ++ (env.senderAddr.toBytes ++ (putVec env.payload ++
    (putVec env.signature ++ putVec env.pubkeySec1)))

/-- A `[u8; 20]`, which has no length prefix. -/
def address : Decoder H160 := do
  let bytes ← bytesOf 20
  if h : bytes.length = 20 then pure ⟨bytes, h⟩ else throw .eof

def envelope : Decoder WireEnvelope := do
  let ctx ← context
  let senderAddr ← address
  let payload ← vec
  let signature ← vec
  let pubkeySec1 ← vec
  pure ⟨ctx, senderAddr, payload, signature, pubkeySec1⟩

/-- The bytes an envelope's signature covers. -/
def envelopeSigningBytes (ctx : EnvelopeContext) (payload : List UInt8) : List UInt8 :=
  ENVELOPE_DOMAIN_TAG ++ (putContext ctx ++ payload)

/-! ## The crates -/

/-- What comes from third-party crates: the hash functions, ECDSA over secp256k1
(`k256`), and the encoding of a `WorkerMessage`. -/
structure Crates where
  hashes : Hashes
  SigningKey : Type
  VerifyingKey : Type
  Signature : Type
  verifyingKey : SigningKey → VerifyingKey
  sign : SigningKey → List UInt8 → Signature
  verify : VerifyingKey → List UInt8 → Signature → Except String Unit
  /-- `to_encoded_point(false)`: the uncompressed SEC1 form. -/
  toSec1 : VerifyingKey → List UInt8
  fromSec1 : List UInt8 → Except String VerifyingKey
  toDer : Signature → List UInt8
  fromDer : List UInt8 → Except String Signature
  serializeMessage : WorkerMessage → List UInt8
  /-- under the limit `MAX_ENVELOPE_BYTES` -/
  deserializeMessage : List UInt8 → Except String WorkerMessage

/-- The documented behaviour of the crates: what is written is read back, and a
signature made with a key verifies under it. -/
structure Crates.Correct (C : Crates) : Prop where
  sec1 : ∀ key, C.fromSec1 (C.toSec1 key) = .ok key
  der : ∀ sig, C.fromDer (C.toDer sig) = .ok sig
  signed : ∀ key bytes, C.verify (C.verifyingKey key) bytes (C.sign key bytes) = .ok ()
  message : ∀ msg, (C.serializeMessage msg).length ≤ MAX_ENVELOPE_BYTES →
    C.deserializeMessage (C.serializeMessage msg) = .ok msg

variable (C : Crates)

/-- The last twenty bytes of the hash of the point. -/
def addressFromVerifyingKey (key : C.VerifyingKey) : H160 :=
  FixedBytes.ofNat (beNat ((keccak C.hashes [(C.toSec1 key).drop 1]).toBytes.drop 12))

/-! ## The replay guard -/

abbrev NonceKey := H160 × UInt64

structure ReplayGuard where
  seen : Finset NonceKey
  order : List NonceKey
  cap : Nat

namespace ReplayGuard

def new (cap : Nat) : ReplayGuard := ⟨∅, [], cap⟩

/-- Record `(sender, nonce)`; false if it was already inside the window. -/
def observe (guard : ReplayGuard) (sender : H160) (nonce : UInt64) : ReplayGuard × Bool :=
  let key := (sender, nonce)
  if key ∈ guard.seen then (guard, false)
  else
    let (seen, order) :=
      if guard.order.length ≥ guard.cap then
        match guard.order with
        | evicted :: rest => (guard.seen.erase evicted, rest)
        | [] => (guard.seen, [])
      else (guard.seen, guard.order)
    (⟨insert key seen, order ++ [key], guard.cap⟩, true)

end ReplayGuard

/-! ## Receiving -/

/-- Why an envelope was dropped, one constructor for each message. -/
inductive EnvelopeError where
  /-- `envelope too large: {n} > 4194304 cap` -/
  | tooLarge (n : Nat)
  /-- `envelope decode: {e}` -/
  | decode (e : BincodeError)
  /-- `unsupported envelope version {v} (expected 2)` -/
  | version (v : UInt8)
  /-- `topic mismatch: envelope bound to {t}, receiving on {expected}` -/
  | topic (t expected : String)
  /-- `job mismatch: envelope bound to job {j}, receiver scoped to job {expected}` -/
  | job (j expected : UInt64)
  /-- `epoch {e} outside accepted window [{lo}, {hi}]` -/
  | epoch (e : UInt32) (lo hi : Nat)
  /-- `stale envelope: sent_at_ms={t} is older than 300000ms` -/
  | stale (sentAtMs : UInt64)
  /-- `future-dated envelope: sent_at_ms={t} exceeds 30000ms skew` -/
  | futureDated (sentAtMs : UInt64)
  /-- `bad pubkey: {e}` -/
  | badPubkey (cause : String)
  /-- `sender_addr mismatch: claimed {claimed}, derived {derived}` -/
  | sender (claimed derived : H160)
  /-- `bad sig DER: {e}` -/
  | badSignature (cause : String)
  /-- `sig verify: {e}` -/
  | signature (cause : String)
  /-- `replayed envelope: nonce {n} already seen from {sender}` -/
  | replayed (nonce : UInt64) (sender : H160)
  /-- `payload decode: {e}` -/
  | payload (cause : String)
  /-- `StepCommitted.worker {w} does not match verified sender {sender}` -/
  | stepSender (worker sender : H160)
  /-- `PipelineActivation.from_worker {w} does not match verified sender {sender}` -/
  | activationSender (worker sender : H160)

/-- What a receiver compares an envelope with. -/
structure Scope where
  topic : String
  job : UInt64
  epoch : UInt32
  now : UInt64

def Scope.epochLo (scope : Scope) : Nat := scope.epoch.toNat - EPOCH_TOLERANCE

def Scope.epochHi (scope : Scope) : Nat := min (scope.epoch.toNat + EPOCH_TOLERANCE) u32Max

/-- The checks of the context, in their order. -/
def checkContext (scope : Scope) (ctx : EnvelopeContext) : Except EnvelopeError Unit :=
  if ctx.version ≠ ENVELOPE_WIRE_VERSION then .error (.version ctx.version)
  else if ctx.topic.toString ≠ scope.topic then .error (.topic ctx.topic.toString scope.topic)
  else if ctx.jobId ≠ scope.job then .error (.job ctx.jobId scope.job)
  else if ctx.epoch.toNat < scope.epochLo ∨ ctx.epoch.toNat > scope.epochHi then
    .error (.epoch ctx.epoch scope.epochLo scope.epochHi)
  else if scope.now.toNat - ctx.sentAtMs.toNat > MAX_ENVELOPE_AGE_MS then
    .error (.stale ctx.sentAtMs)
  else if ctx.sentAtMs.toNat - scope.now.toNat > MAX_ENVELOPE_FUTURE_SKEW_MS then
    .error (.futureDated ctx.sentAtMs)
  else .ok ()

/-- `verify_envelope` up to the signature: the envelope of a frame that passes. -/
def authenticate (scope : Scope) (frame : List UInt8) : Except EnvelopeError WireEnvelope := do
  if frame.length > MAX_ENVELOPE_BYTES then .error (.tooLarge frame.length)
  else
    let env ← (deserialize envelope frame).mapError .decode
    checkContext scope env.context
    let key ← (C.fromSec1 env.pubkeySec1).mapError .badPubkey
    if addressFromVerifyingKey C key ≠ env.senderAddr then
      .error (.sender env.senderAddr (addressFromVerifyingKey C key))
    else
      let sig ← (C.fromDer env.signature).mapError .badSignature
      (C.verify key (envelopeSigningBytes env.context env.payload) sig).mapError .signature
      .ok env

def verifyEnvelope (scope : Scope) (guard : ReplayGuard) (frame : List UInt8) :
    ReplayGuard × Except EnvelopeError (H160 × WorkerMessage) :=
  match authenticate C scope frame with
  | .error e => (guard, .error e)
  | .ok env =>
      let (guard', fresh) := guard.observe env.senderAddr env.context.nonce
      if !fresh then (guard', .error (.replayed env.context.nonce env.senderAddr))
      else
        (guard', do
          let msg ← (C.deserializeMessage env.payload).mapError .payload
          .ok (env.senderAddr, msg))

def enforceSenderBinding (sender : H160) : WorkerMessage → Except EnvelopeError Unit
  | .stepCommitted commit =>
      if commit.worker ≠ sender then .error (.stepSender commit.worker sender) else .ok ()
  | .pipelineActivation _ _ _ fromWorker _ =>
      if fromWorker ≠ sender then .error (.activationSender fromWorker sender) else .ok ()
  | _ => .ok ()

/-- What the swarm task makes of a frame: what it hands to the queues. -/
def acceptFrame (scope : Scope) (guard : ReplayGuard) (frame : List UInt8) :
    ReplayGuard × Except EnvelopeError (H160 × WorkerMessage) :=
  let (guard', verified) := verifyEnvelope C scope guard frame
  (guard', do
    let (sender, msg) ← verified
    enforceSenderBinding sender msg
    .ok (sender, msg))

/-! ## Sending -/

/-- `LibP2pTransport` as far as `broadcast` reads it. -/
structure Transport where
  signingKey : C.SigningKey
  jobId : UInt64
  currentEpoch : UInt32
  nonce : UInt64

theorem utf8_length_le (s : String) : (utf8 s).length ≤ 4 * s.length := by
  rw [utf8_eq_flatMap, ← String.length_toList]
  induction s.toList with
  | nil => simp
  | cons c rest ih =>
      have hsize := c.utf8Size_le_four
      rw [List.flatMap_cons, List.length_append, String.length_utf8EncodeChar, List.length_cons]
      omega

/-- A topic is at most 21 bytes and the twenty digits of a job id. -/
theorem topicForJob_fits (jobId : UInt64) :
    (utf8 ("citrate-training/job-" ++ jobId.toNat.repr)).length < 2 ^ 64 := by
  have hdigits : jobId.toNat.repr.length ≤ 20 :=
    Nat.repr_length _ _ (by decide) (jobId.toNat_lt.trans_le (by decide))
  have hid := utf8_length_le jobId.toNat.repr
  have hfront : (utf8 "citrate-training/job-").length = 21 := by decide
  rw [utf8_append, List.length_append, hfront]
  omega

def topicForJob (jobId : UInt64) : WireString :=
  ⟨"citrate-training/job-" ++ jobId.toNat.repr, topicForJob_fits jobId⟩

namespace Transport

variable {C} (t : Transport C)

def ownAddress : H160 := addressFromVerifyingKey C (C.verifyingKey t.signingKey)

/-- The context of the next broadcast. -/
def nextContext (now : UInt64) : EnvelopeContext where
  version := ENVELOPE_WIRE_VERSION
  jobId := t.jobId
  epoch := t.currentEpoch
  nonce := t.nonce
  topic := topicForJob t.jobId
  sentAtMs := now

def nextEnvelope (msg : WorkerMessage) (now : UInt64) : WireEnvelope :=
  let payload := C.serializeMessage msg
  { context := t.nextContext now
    senderAddr := t.ownAddress
    payload := payload
    signature := C.toDer (C.sign t.signingKey (envelopeSigningBytes (t.nextContext now) payload))
    pubkeySec1 := C.toSec1 (C.verifyingKey t.signingKey) }

/-- `broadcast`: the transport afterwards, and the frame it publishes. -/
def broadcast (msg : WorkerMessage) (now : UInt64) : Transport C × List UInt8 :=
  ({ t with nonce := t.nonce + 1 }, putEnvelope (t.nextEnvelope msg now))

end Transport

end Mesh
end Worker
end ComputePool
