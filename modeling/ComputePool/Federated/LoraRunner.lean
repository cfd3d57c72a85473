import ComputePool.Federated.Alignment
import ComputePool.Federated.Round
import ComputePool.Federated.VerifyDataset

/-!
# Running one job on a device

`LoraDeltaRunner::run` of `fl/runner.rs`.  What can be refused is refused before the
trainer starts; the trainer is the operator's program and may change any file.
-/

namespace ComputePool
namespace Federated
namespace Runner

open RustStd Gguf

/-- `MAX_DATASET_BYTES` -/
def MAX_DATASET_BYTES : Nat := 2 ^ 28

/-- How a file fails to be read. -/
inductive ReadError where
  | notFound
  | other
  deriving DecidableEq

/-- The file system of the device, as it is read. -/
abbrev Files := String → Except ReadError (List UInt8)

/-- `store.join(name)` for a relative name. -/
def join (dir name : String) : String :=
  match dir.toList.getLast? with
  | none => name
  | some '/' => dir ++ name
  | some _ => dir ++ "/" ++ name

structure DeviceConfig where
  store : String
  dataset : String
  consentFile : Option String

namespace DeviceConfig

variable (d : DeviceConfig)

def modelPath (sha : B32) : String :=
  join (join d.store "models") (hexEncode sha.toBytes ++ ".gguf")

def adapterPath (sha : B32) : String :=
  join (join d.store "adapters") (hexEncode sha.toBytes ++ ".gguf")

def marker (round : B32) : String := join (join d.store "contributed") (hexEncode round.toBytes)

/-- Where the trainer writes. -/
def trained (round : B32) : String :=
  join (join d.store "scratch") (hexEncode round.toBytes ++ "-trained.gguf")

end DeviceConfig

structure TrainRequest where
  baseModel : String
  startAdapter : String
  dataset : String
  out : String
  roundIdHex : String

/-- The trainer: its provenance string, and what a run of it leaves on the disk. -/
structure LoraTrainer where
  id : String
  train : TrainRequest → Files → Except String Files

/-- `payload is not a lora_delta job: {0}` -/
inductive PayloadFault where
  | json
  | invalid (e : PayloadError)
  /-- `consent file: {e}` -/
  | consentFile
  deriving DecidableEq

/-- `dataset: {0}` -/
inductive DatasetFault where
  /-- `{0} bytes exceeds the {MAX_DATASET_BYTES}-byte limit` -/
  | tooLarge (bytes : Nat)
  | refused (e : VerifyError)
  deriving DecidableEq

/-- `adapter: {0}` -/
inductive AdapterFault where
  | unreadable
  | gguf (e : GgufError)
  /-- `the trained adapter's tensors differ from the start adapter's` -/
  | layout
  deriving DecidableEq

/-- `delta: {0}` -/
inductive DeltaFault where
  | delta (e : DeltaError)
  /-- `{0} values exceed the round's limit of {1}` -/
  | tooMany (values : Nat) (limit : UInt64)
  deriving DecidableEq

inductive LoraRunError where
  | badPayload (fault : PayloadFault)
  | notInRoster (device : String)
  | noConsent (round : String)
  | alreadyContributed (round : String)
  | noTrainer
  | notStaged (what path : String)
  | hashMismatch (what path got want : String)
  | dataset (fault : DatasetFault)
  | training (e : String)
  | adapter (fault : AdapterFault)
  | delta (fault : DeltaFault)
  | signing
  | io
  deriving DecidableEq

/-- What a successful run hands back: the signed result to submit and the artifact
to upload first. -/
structure LoraRunOutput where
  result : LoraDeltaResult
  resultJson : String
  artifact : List UInt8
  artifactSha256 : B32

/-- What a run takes from outside: the serialisation of a payload and of a result, the
floating-point operations, the wallet, and the seconds the run took. -/
structure RunEnv extends DatasetEnv where
  ops : Delta.FloatOps
  payloadOfJson : Json → Option LoraDeltaPayload
  resultToString : LoraDeltaResult → Option String
  me : Addr
  /-- `sign_digest_recoverable` -/
  sign : B32 → Option (List UInt8)
  seconds : UInt64

/-- `ConsentFile` -/
def readConsent (j : Json) : Option (List String) := do
  match ← j.slots false ["rounds"] with
  | [rounds] => rounds.required fun j => j.asVec Json.asStr
  | _ => none

/-- `str::eq_ignore_ascii_case` -/
def eqIgnoreAsciiCase (s t : List Char) : Bool := s.map Char.toLower == t.map Char.toLower

section Run

variable (env : RunEnv) (device : DeviceConfig)

/-- The consent file lists the round. -/
def consented (files : Files) (round : B32) : Except LoraRunError Bool :=
  match device.consentFile with
  | none => .ok false
  | some path =>
      match files path with
      | .error .notFound => .ok false
      | .error .other => .error .io
      | .ok raw => do
          let text ← okOr (fromUtf8 raw) .io
          let rounds ← okOr ((env.serde.fromText text).bind readConsent)
            (.badPayload .consentFile)
          .ok (rounds.any fun r => eqIgnoreAsciiCase (trim r.toList) (hex0x round.toBytes).toList)

/-- The file has the hash that the round names. -/
def verifyFile (files : Files) (what path : String) (want : B32) : Except LoraRunError Unit := do
  let bytes ← (files path).mapError fun _ => .notStaged what path
  let got := env.hashes.sha256 bytes
  if got ≠ want then
    .error (.hashMismatch what path (hexEncode got.toBytes) (hexEncode want.toBytes))
  else .ok ()

/-- `Adapter::load` -/
def loadAdapter (files : Files) (path : String) : Except LoraRunError Adapter := do
  let file ← (files path).mapError fun _ => .adapter .unreadable
  (Adapter.load path file).mapError fun e => .adapter (.gguf e)

/-- What is known of a job before the trainer starts. -/
structure Prepared where
  payload : LoraDeltaPayload
  trainer : LoraTrainer
  examples : Nat
  datasetSha256 : B32

/-- Everything that is refused before the trainer starts. -/
def prepare (trainer : Option LoraTrainer) (files : Files) (job : Json) :
    Except LoraRunError Prepared := do
  let payload ← okOr (env.payloadOfJson job) (.badPayload .json)
  (payload.validate env.hashes).mapError fun e => .badPayload (.invalid e)
  let round := payload.roundId
  if ¬ payload.config.inRoster env.me then .error (.notInRoster (hex0x env.me.toBytes))
  else
    let agreed ← consented env device files round
    if ¬ agreed then .error (.noConsent (hex0x round.toBytes))
    else if (files (device.marker round)).isOk then
      .error (.alreadyContributed (hex0x round.toBytes))
    else
      let trainer ← okOr trainer .noTrainer
      verifyFile env files "the base model" (device.modelPath payload.config.baseModelSha256)
        payload.config.baseModelSha256
      verifyFile env files "the start adapter"
        (device.adapterPath payload.config.startAdapterSha256) payload.config.startAdapterSha256
      let data ← (files device.dataset).mapError fun _ =>
        .notStaged "the trajectory export" device.dataset
      if data.length > MAX_DATASET_BYTES then .error (.dataset (.tooLarge data.length))
      else
        let examples ← (verifyDataset env.toDatasetEnv data).mapError fun e =>
          .dataset (.refused e)
        .ok ⟨payload, trainer, examples, env.hashes.sha256 data⟩

/-- What the trainer is handed. -/
def requestOf (p : Prepared) : TrainRequest where
  baseModel := device.modelPath p.payload.config.baseModelSha256
  startAdapter := device.adapterPath p.payload.config.startAdapterSha256
  dataset := device.dataset
  out := device.trained p.payload.roundId
  roundIdHex := hex0x p.payload.roundId.toBytes

/-- The result of a run, before it is signed. -/
def unsigned (p : Prepared) (trainedSha deltaRoot deltaSha256 : B32) (nValues : Nat) :
    LoraDeltaResult where
  task := TASK_LORA_DELTA
  roundId := p.payload.roundId
  worker := env.me
  deltaRoot := deltaRoot
  deltaSha256 := deltaSha256
  nValues := UInt64.ofNat nValues
  chunkDim := p.payload.config.chunkDim
  startAdapterSha256 := p.payload.config.startAdapterSha256
  trainedAdapterSha256 := trainedSha
  datasetSha256 := p.datasetSha256
  examples := UInt64.ofNat p.examples
  trainer := p.trainer.id
  seconds := env.seconds
  signature := ""

/-- The artifact of a run. -/
def artifactOf (p : Prepared) (manifest trainedSha : B32) (values : List Int64) : Artifact where
  valueScaleLog2 := p.payload.config.valueScaleLog2
  roundId := p.payload.roundId
  worker := env.me
  startAdapterSha256 := p.payload.config.startAdapterSha256
  trainedAdapterSha256 := trainedSha
  manifestHash := manifest
  chunkDim := p.payload.config.chunkDim
  values := values

/-- The delta is signed, and the result written out. -/
def signResult (r : LoraDeltaResult) (artifact : List UInt8) : Except LoraRunError LoraRunOutput :=
  do
  let sig ← okOr (env.sign (r.digest env.hashes)) .signing
  let signed := { r with signature := hex0x sig }
  let resultJson ← okOr (env.resultToString signed) .signing
  .ok ⟨signed, resultJson, artifact, r.deltaSha256⟩

/-- Everything after the training. -/
def conclude (p : Prepared) (files : Files) : Checked LoraRunError LoraRunOutput := do
  let start ← checked
    (loadAdapter files (device.adapterPath p.payload.config.startAdapterSha256))
  let trained ← checked (loadAdapter files (device.trained p.payload.roundId))
  let manifest := Delta.manifestHash env.hashes start
  if Delta.manifestHash env.hashes trained ≠ manifest then .error (.err (.adapter .layout))
  else
    let trainedFile ← checked ((files (device.trained p.payload.roundId)).mapError fun _ => .io)
    let trainedSha := env.hashes.sha256 trainedFile
    let values ← liftDelta (Delta.compute env.ops start trained p.payload.config.valueScaleLog2)
    if values.length > p.payload.config.maxValues.toNat then
      .error (.err (.delta (.tooMany values.length p.payload.config.maxValues)))
    else
      let root ← checked ((deltaRoot env.hashes values p.payload.config.chunkDim).mapError fun e =>
        .delta (.delta e))
      let bytes := (artifactOf env p manifest trainedSha values).encode
      checked (signResult env
        (unsigned env p trainedSha root (env.hashes.sha256 bytes) values.length) bytes)
where
  liftDelta (r : Checked DeltaError (List Int64)) : Checked LoraRunError (List Int64) :=
    match r with
    | .ok values => .ok values
    | .error .panic => .error .panic
    | .error (.err e) => .error (.err (.delta (.delta e)))

/-- One job. -/
def run (trainer : Option LoraTrainer) (files : Files) (job : Json) :
    Checked LoraRunError LoraRunOutput := do
  let p ← checked (prepare env device trainer files job)
  let after ← checked ((p.trainer.train (requestOf device p) files).mapError .training)
  conclude env device p after

end Run

end Runner
end Federated
end ComputePool
