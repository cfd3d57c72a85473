import ComputePool.Lib.Framing
import ComputePool.Rust.Text

/-!
# The messages a worker signs for its coordinator

The digests of `coordinator_protocol.rs`.  Each is a hash of a tag, which names
the kind of the message, and its fields, joined by line feeds.  The hash is a
parameter with values in any type, so that it may be taken injective.

A timestamp and a content address have one length, so the job id beside them is
told from them whatever it is.  A submission has two fields of any length, and
the line feed between them tells them apart only where the job id has none.
-/

namespace ComputePool
namespace CoordinatorProtocol

open RustStd Framing

/-- A line feed, `b"\n"`. -/
def LF : UInt8 := 10

/-- `timestamp.to_be_bytes()`. -/
def timestampBytes (timestamp : UInt64) : List UInt8 := toBE 8 timestamp.toNat

def REGISTER_MESSAGE : List UInt8 := utf8 "citrate-training-register/1"
def LEASE_MESSAGE : List UInt8 := utf8 "citrate-training-lease/1"
def HEARTBEAT_MESSAGE : List UInt8 := utf8 "citrate-training-heartbeat/1"

section Digests

variable {D : Type*} (keccak256 : List UInt8 → D)

/-- The hash of the parts one after another. -/
def keccak (parts : List (List UInt8)) : D := keccak256 parts.flatten

/-- What a worker signs to register. -/
def attestationDigest (probeJson : String) (timestamp : UInt64) : D :=
  keccak keccak256
    [REGISTER_MESSAGE, [LF], timestampBytes timestamp, [LF], utf8 probeJson]

/-- What a worker signs to ask for work. -/
def leaseDigest (timestamp : UInt64) : D :=
  keccak keccak256 [LEASE_MESSAGE, [LF], timestampBytes timestamp]

/-- What a worker signs to keep a lease alive. -/
def heartbeatDigest (job : String) (timestamp : UInt64) : D :=
  keccak keccak256 [HEARTBEAT_MESSAGE, [LF], utf8 job, [LF], timestampBytes timestamp]

/-- What a worker signs to submit a result. -/
def submissionDigest (job payload : String) : D :=
  keccak keccak256 [utf8 "citrate-training-submission/1\n", utf8 job, [LF], utf8 payload]

/-- What a worker signs to upload a delta artifact. -/
def flDeltaUploadDigest (job : String) (sha256 : FixedBytes 32) : D :=
  keccak keccak256 [utf8 "citrate-fl-delta-upload/1\n", utf8 job, [LF], sha256.toBytes]

end Digests

/-- The messages of the five signed kinds. -/
inductive Message where
  | registration (probeJson : String) (timestamp : UInt64)
  | lease (timestamp : UInt64)
  | heartbeat (job : String) (timestamp : UInt64)
  | submission (job payload : String)
  | flDeltaUpload (job : String) (sha256 : FixedBytes 32)

inductive Kind where
  | registration | lease | heartbeat | submission | flDeltaUpload
  deriving DecidableEq

/-- The tag of a kind, with the line feed that ends it. -/
def Kind.tag : Kind → List UInt8
  | registration => REGISTER_MESSAGE ++ [LF]
  | lease => LEASE_MESSAGE ++ [LF]
  | heartbeat => HEARTBEAT_MESSAGE ++ [LF]
  | submission => utf8 "citrate-training-submission/1\n"
  | flDeltaUpload => utf8 "citrate-fl-delta-upload/1\n"

/-- No tag begins another. -/
theorem Kind.tag_prefixFree : PrefixFree Kind.tag := by
  refine prefixFree_of_prefix fun a b => ?_
  cases a <;> cases b <;> decide

theorem timestampBytes_length (timestamp : UInt64) : (timestampBytes timestamp).length = 8 :=
  toBE_length _ _

theorem timestampBytes_injective : Function.Injective timestampBytes := by
  intro a b h
  have hbound : ∀ x : UInt64, x.toNat < 256 ^ 8 := fun x => x.toNat_lt
  exact UInt64.toNat_inj.mp (toBE_injective (hbound a) (hbound b) h)

theorem timestampBytes_prefixFree : PrefixFree timestampBytes :=
  prefixFree_of_length timestampBytes_length timestampBytes_injective

namespace Message

def kind : Message → Kind
  | registration _ _ => .registration
  | lease _ => .lease
  | heartbeat _ _ => .heartbeat
  | submission _ _ => .submission
  | flDeltaUpload _ _ => .flDeltaUpload

/-- What follows the tag. -/
def body : Message → List UInt8
  | registration probeJson timestamp => timestampBytes timestamp ++ LF :: utf8 probeJson
  | lease timestamp => timestampBytes timestamp
  | heartbeat job timestamp => utf8 job ++ LF :: timestampBytes timestamp
  | submission job payload => utf8 job ++ LF :: utf8 payload
  | flDeltaUpload job sha256 => utf8 job ++ LF :: sha256.toBytes

/-- What is signed for a message. -/
def digest {D : Type*} (keccak256 : List UInt8 → D) : Message → D
  | registration probeJson timestamp => attestationDigest keccak256 probeJson timestamp
  | lease timestamp => leaseDigest keccak256 timestamp
  | heartbeat job timestamp => heartbeatDigest keccak256 job timestamp
  | submission job payload => submissionDigest keccak256 job payload
  | flDeltaUpload job sha256 => flDeltaUploadDigest keccak256 job sha256

/-- The preimage of every digest is the tag of the kind and the body. -/
theorem digest_eq {D : Type*} (keccak256 : List UInt8 → D) (m : Message) :
    m.digest keccak256 = keccak256 (m.kind.tag ++ m.body) := by
  cases m <;>
    simp [digest, attestationDigest, leaseDigest, heartbeatDigest, submissionDigest,
      flDeltaUploadDigest, keccak, kind, Kind.tag, body]

/-- A submission's job id has no line feed. -/
def PlainJob : Message → Prop
  | submission job _ => '\n' ∉ job.toList
  | _ => True

/-- A text without a line feed has none among its bytes. -/
theorem lf_not_mem_utf8 {s : String} (h : '\n' ∉ s.toList) : LF ∉ utf8 s := by
  intro hmem
  obtain ⟨c, hc, hbyte⟩ := mem_utf8_ascii hmem (by decide)
  have hlf : c = '\n' := Char.toNat_inj.mp hbyte
  exact h (hlf ▸ hc)

/-- Two messages of one kind with one body are one message, when the job ids of
submissions have no line feed. -/
theorem eq_of_body {m m' : Message} (hm : m.PlainJob) (hm' : m'.PlainJob)
    (hkind : m.kind = m'.kind) (hbody : m.body = m'.body) : m = m' := by
  cases m with
  | registration probeJson timestamp =>
      cases m' with
      | registration probeJson' timestamp' =>
          obtain ⟨rfl, hrest⟩ := timestampBytes_prefixFree hbody
          rw [utf8_injective (List.cons.inj hrest).2]
      | _ => cases hkind
  | lease timestamp =>
      cases m' with
      | lease timestamp' => rw [timestampBytes_injective hbody]
      | _ => cases hkind
  | heartbeat job timestamp =>
      cases m' with
      | heartbeat job' timestamp' =>
          -- The timestamp has one length, so the job id is what stands before it.
          obtain ⟨hjob, hrest⟩ := append_inj_of_tail hbody
            (by simp [timestampBytes_length])
          rw [utf8_injective hjob, timestampBytes_injective (List.cons.inj hrest).2]
      | _ => cases hkind
  | submission job payload =>
      cases m' with
      | submission job' payload' =>
          obtain ⟨hjob, hpayload⟩ :=
            append_sep_inj (lf_not_mem_utf8 hm) (lf_not_mem_utf8 hm') hbody
          rw [utf8_injective hjob, utf8_injective hpayload]
      | _ => cases hkind
  | flDeltaUpload job sha256 =>
      cases m' with
      | flDeltaUpload job' sha256' =>
          obtain ⟨hjob, hrest⟩ := append_inj_of_tail hbody (by simp)
          rw [utf8_injective hjob, FixedBytes.toBytes_injective (List.cons.inj hrest).2]
      | _ => cases hkind

/-- A line feed of the payload may as well end the job id. -/
theorem submission_shifts {D : Type*} (keccak256 : List UInt8 → D) (a b c : String) :
    (submission (a ++ "\n" ++ b) c).digest keccak256 =
      (submission a (b ++ "\n" ++ c)).digest keccak256 := by
  have hlf : utf8 "\n" = [LF] := by decide
  simp [digest_eq, kind, body, utf8_append, hlf]

/-- What one signature over the job `a` also says of the job `a\nb`. -/
theorem submission_ambiguous :
    (submission "a\nb" "c").digest id = (submission "a" "b\nc").digest id ∧
      submission "a\nb" "c" ≠ submission "a" "b\nc" := by
  refine ⟨submission_shifts id "a" "b" "c", ?_⟩
  intro h
  exact absurd (submission.inj h).1 (by decide)

/-- **Signed messages are unambiguous.**  With an injective hash, two messages
of the five signed kinds with one digest are of one kind and agree in every
field, where the job ids of submissions have no line feed. -/
theorem digest_unambiguous {D : Type*} (keccak256 : List UInt8 → D)
    (hinjective : Function.Injective keccak256) (m m' : Message) (hm : m.PlainJob)
    (hm' : m'.PlainJob) (h : m.digest keccak256 = m'.digest keccak256) : m = m' := by
  rw [digest_eq, digest_eq] at h
  obtain ⟨hkind, hbody⟩ := Kind.tag_prefixFree (hinjective h)
  exact eq_of_body hm hm' hkind hbody

/-- Only the first line feed separates; the payload may hold more. -/
theorem lineFeed_in_payload_unambiguous :
    (submission "a" "b\nc").digest id ≠ (submission "ab" "\nc").digest id := by
  intro h
  have ha : '\n' ∉ "a".toList := by decide
  have hab : '\n' ∉ "ab".toList := by decide
  have hsame := digest_unambiguous id Function.injective_id (submission "a" "b\nc")
    (submission "ab" "\nc") ha hab h
  exact absurd (submission.inj hsame).1 (by decide)

end Message
end CoordinatorProtocol
end ComputePool
