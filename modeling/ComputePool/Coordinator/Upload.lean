import ComputePool.Coordinator.Collect
import ComputePool.Lib.Framing
import ComputePool.Lib.Machine
import ComputePool.Lib.Published
import ComputePool.Rust.Net
import ComputePool.Worker.CoordinatorProtocol

/-!
# Uploading deltas

`PUT /v1/fl/delta/{sha256}` of `fl_upload.rs`, for any number of requests in flight, in any
number of processes that share the directory.  A request moves from one `await` to the
next; between them the others move, the client may go away, a process may end and the
machine may lose power.
-/

namespace ComputePool
namespace Coordinator

open RustStd Federated

/-- An answer that is not a success; the texts of the errors it quotes are not modelled. -/
inductive UploadError where
  | err (code : Nat) (message : String)
  /-- 409, `round payload: {e}` -/
  | payload (e : PayloadError)
  /-- 413, `delta exceeds {cap} bytes` -/
  | exceeds (cap : Nat)
  /-- 422, the text of the error -/
  | artifact (e : DeltaError)
  deriving DecidableEq

/-- What a request brings besides its body. -/
structure UploadRequest where
  shaHex : String
  job : JobId
  /-- The `x-citrate-signature` header, when it is there and is text. -/
  signature : Option String
  deriving DecidableEq

/-- An upload that may be streamed. -/
structure Upload where
  sha : B32
  job : JobId
  who : H160
  payload : LoraDeltaPayload
  cap : Nat
  deriving DecidableEq

def parseSha (s : String) : Option B32 :=
  if (utf8 s).length ≠ 64 then none
  else
    match hexDecode s.toList with
    | none => none
    | some v => if hlen : v.length = 32 then some ⟨v, hlen⟩ else none

/-- The round's bound on the bytes of a delta. -/
def roundCap (maxValues : UInt64) : Nat :=
  match checkedMul maxValues.toNat 8 with
  | none => 2 ^ 64 - 1
  | some b => (Gguf.checkedAdd b HEADER_LEN).getD (2 ^ 64 - 1)

/-- The signer holds a live lease on the job. -/
def holdsLease (job : JobRecord) (who : H160) (now : Nat) : Bool :=
  match job.status with
  | .leased worker expiresAt _ => decide (worker = who ∧ expiresAt > now)
  | _ => false

/-- The checks before a byte of the body is read. -/
def authorise (env : RoundEnv) (maxBytes : Nat) (s : State) (now : Nat) (req : UploadRequest) :
    Except UploadError Upload := do
  let sha ← okOr (parseSha req.shaHex) (.err 400 "path must be a 64-hex sha256")
  let sigHex ← okOr req.signature (.err 401 "missing upload signature")
  let sig ← okOr (hexDecode (trimStart0x sigHex.toList)) (.err 401 "signature is not hex")
  let digest := CoordinatorProtocol.flDeltaUploadDigest env.hashes.keccak256 req.job sha
  let who ← okOr (env.recoverAddress digest sig) (.err 401 "signature does not recover")
  let job ← okOr s.jobs[req.job]? (.err 404 "unknown job")
  if ¬ holdsLease job who now then
    .error (.err 409 "only the worker holding a live lease on this job may upload for it")
  else do
    let payload ← okOr (env.payloadOfJson job.spec.payload)
      (.err 409 "this job is not a federated LoRA round")
    (payload.validate env.hashes).mapError .payload
    .ok
      { sha := sha
        job := req.job
        who := who
        payload := payload
        cap := min (roundCap payload.config.maxValues) maxBytes }

/-- The header is another worker's or another round's. -/
def otherHeader (u : Upload) (art : Artifact) : Prop :=
  art.roundId ≠ u.payload.roundId ∨
    art.worker ≠ u.who ∨
    art.startAdapterSha256 ≠ u.payload.config.startAdapterSha256 ∨
    art.chunkDim ≠ u.payload.config.chunkDim ∨
    art.valueScaleLog2 ≠ u.payload.config.valueScaleLog2

instance (u : Upload) (art : Artifact) : Decidable (otherHeader u art) := by
  unfold otherHeader
  infer_instance

/-- The checks of the bytes read back. -/
def bindHeader (overflowChecks : Bool) (u : Upload) (bytes : List UInt8) :
    Checked UploadError Unit := do
  let art ← mapStop .artifact (Artifact.decode overflowChecks bytes u.payload.config.maxValues)
  if otherHeader u art then
    .error (.err (.err 422 "the artifact is not this worker's delta for this round"))
  else .ok ()

theorem bindHeader_eq_ok {checks : Bool} {u : Upload} {bytes : List UInt8} :
    bindHeader checks u bytes = .ok () ↔
      ∃ art, Artifact.decode false bytes u.payload.config.maxValues = .ok art ∧
        ¬ otherHeader u art := by
  unfold bindHeader
  simp only [bind_eq_ok, mapStop_eq_ok, check_eq_ok, Artifact.decode_eq_ok, and_true]

/-- The temporary file of one upload: the address, the process id and the process's
counter. -/
def partialPath (sha : B32) (pid n : Nat) : String :=
  String.ofList ('.' :: (hexChars sha.toBytes ++ '.' :: (Nat.toDigits 10 pid ++
    '.' :: (Nat.toDigits 10 n ++ ".partial".toList))))

/-! ## Requests in flight -/

/-- Where a request waits. -/
inductive UploadPhase where
  /-- Admitted, before it looks for the file. -/
  | admitted
  /-- In `stream_to`, with these bytes of the body written and hashed. -/
  | streaming (tmp : String) (got : List UInt8)
  /-- The body has ended and the file is synced. -/
  | received (tmp : String) (got : List UInt8)
  /-- Every check has passed, before the rename. -/
  | verified (tmp : String) (got : List UInt8)
  /-- Renamed, before the sync of the directory. -/
  | stored
  deriving DecidableEq

/-- The temporary file of a request. -/
def UploadPhase.tmp? : UploadPhase → Option String
  | admitted => none
  | streaming tmp _ => some tmp
  | received tmp _ => some tmp
  | verified tmp _ => some tmp
  | stored => none

structure UploadTask where
  pid : Nat
  upload : Upload
  phase : UploadPhase
  deriving DecidableEq

/-- The delta directory and what is under way in it. -/
structure Uploads where
  fs : CrashFs.Fs String UInt8
  /-- `NEXT` of each process; it never wraps. -/
  next : Nat → Nat
  tasks : Nat → Option UploadTask
  /-- The uploads that were admitted so far. -/
  admitted : List Upload

/-- After a start of the machine. -/
def Uploads.boot (fs : CrashFs.Fs String UInt8) : Uploads := ⟨fs, fun _ => 0, fun _ => none, []⟩

/-- What happens next. -/
inductive UploadEvent where
  /-- A request of the process comes in, while the coordinator is in state `s`. -/
  | request (id pid : Nat) (s : State) (now : Nat) (req : UploadRequest)
  /-- It looks for the file, and creates its own. -/
  | start (id : Nat)
  | chunk (id : Nat) (bytes : List UInt8)
  /-- The body ends. -/
  | finish (id : Nat)
  /-- The checks after the body. -/
  | verify (id : Nat)
  | rename (id : Nat)
  /-- The directory is synced, and the request is answered. -/
  | sync (id : Nat)
  /-- The body or the file system fails. -/
  | fail (id : Nat)
  /-- The client goes away. -/
  | drop (id : Nat)
  | exit (pid : Nat)
  /-- Power is lost, and the machine comes up with this directory. -/
  | reboot (fs : CrashFs.Fs String UInt8)

namespace Uploads

variable (overflowChecks : Bool) (env : RoundEnv) (maxBytes : Nat) (w : Uploads)

/-- The request `id` goes on, or ends. -/
def put (id : Nat) (fs : CrashFs.Fs String UInt8) (task : Option UploadTask) : Uploads :=
  { w with fs := fs, tasks := Function.update w.tasks id task }

/-- The request ends, and its temporary file is removed. -/
def reject (id : Nat) (tmp : String) : Uploads := w.put id (w.fs.remove tmp) none

/-- `dest.is_file()`, then `partial_path` and `File::create`. -/
def start (id : Nat) (t : UploadTask) : Uploads :=
  if w.fs.names (deltaFile t.upload.sha) ≠ none then w.put id w.fs none
  else
    let tmp := partialPath t.upload.sha t.pid (w.next t.pid)
    { w.put id (w.fs.create tmp) (some { t with phase := .streaming tmp [] }) with
      next := Function.update w.next t.pid (w.next t.pid + 1) }

/-- One piece of the body in `stream_to`. -/
def chunk (id : Nat) (t : UploadTask) (tmp : String) (got bytes : List UInt8) : Uploads :=
  if got.length + bytes.length > t.upload.cap then w.reject id tmp
  else w.put id (w.fs.write tmp bytes) (some { t with phase := .streaming tmp (got ++ bytes) })

/-- The checks after the body. -/
def verify (id : Nat) (t : UploadTask) (tmp : String) (got : List UInt8) : Uploads :=
  if env.hashes.sha256 got ≠ t.upload.sha then w.reject id tmp
  else if got.length < HEADER_LEN then w.reject id tmp
  else
    match w.fs.read tmp with
    | none => w.reject id tmp
    | some bytes =>
        match bindHeader overflowChecks t.upload bytes with
        -- a panic ends the request where it is
        | .error .panic => w.put id w.fs none
        | .error (.err _) => w.reject id tmp
        | .ok () => w.put id w.fs (some { t with phase := .verified tmp got })

/-- A request that fails where it is. -/
def fail (id : Nat) (t : UploadTask) : Uploads :=
  match t.phase.tmp? with
  | none => w.put id w.fs none
  | some tmp => w.reject id tmp

/-- The request `id` takes the step of its phase, if it has one. -/
def goes (id : Nat) (next : UploadTask → Uploads) : Uploads :=
  match w.tasks id with
  | none => w
  | some t => next t

def step (event : UploadEvent) : Uploads :=
  match event with
  | .request id pid s now req =>
      match w.tasks id, authorise env maxBytes s now req with
      | none, .ok u =>
          { w.put id w.fs (some ⟨pid, u, .admitted⟩) with admitted := w.admitted ++ [u] }
      | _, _ => w
  | .start id => w.goes id fun t =>
      match t.phase with
      | .admitted => w.start id t
      | _ => w
  | .chunk id bytes => w.goes id fun t =>
      match t.phase with
      | .streaming tmp got => w.chunk id t tmp got bytes
      | _ => w
  | .finish id => w.goes id fun t =>
      match t.phase with
      | .streaming tmp got =>
          w.put id (w.fs.syncFile tmp) (some { t with phase := .received tmp got })
      | _ => w
  | .verify id => w.goes id fun t =>
      match t.phase with
      | .received tmp got => w.verify overflowChecks env id t tmp got
      | _ => w
  | .rename id => w.goes id fun t =>
      match t.phase with
      | .verified tmp _ =>
          w.put id (w.fs.rename tmp (deltaFile t.upload.sha)) (some { t with phase := .stored })
      | _ => w
  | .sync id => w.goes id fun t =>
      match t.phase with
      | .stored => w.put id w.fs.syncDir none
      | _ => w
  | .fail id => w.goes id fun t => w.fail id t
  | .drop id => w.goes id fun _ => w.put id w.fs none
  | .exit pid =>
      { w with
        next := Function.update w.next pid 0
        tasks := fun id => (w.tasks id).filter fun t => t.pid ≠ pid }
  | .reboot fs => { w with fs := fs, next := fun _ => 0, tasks := fun _ => none }

/-- The delta directory as a machine. -/
def machine : Machine Uploads UploadEvent := ⟨step overflowChecks env maxBytes⟩

/-- A machine that comes up has a directory that the loss of power may leave. -/
def Possible (w : Uploads) (event : UploadEvent) : Prop :=
  match event with
  | .reboot fs => w.fs.Reboots fs
  | _ => True

end Uploads

end Coordinator
end ComputePool
