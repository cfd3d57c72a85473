import ComputePool.Rust.Collections
import ComputePool.Rust.Result
import ComputePool.Federated.Belnap

/-!
# Round configuration, job payload and signed result

The config is cluster-scoped: it names the ledger and cluster it belongs to,
the roster of device keys that may contribute, and every rule the aggregate
depends on (`fl/round.rs`).
-/

namespace ComputePool
namespace Federated

open RustStd

def TASK_LORA_DELTA : String := "lora_delta"

/-- The bytes of an ASCII literal. -/
def ascii (s : String) : List UInt8 := s.toList.map fun c => UInt8.ofNat c.toNat

def CONFIG_DOMAIN : List UInt8 := ascii "citrate-fl-round-config/1"
def ROUND_DOMAIN : List UInt8 := ascii "citrate-fl-round-key/1"
def DELTA_DOMAIN : List UInt8 := ascii "citrate-fl-delta/1"

/-- A federated round has at least three devices. -/
def MIN_PARTICIPANTS_FLOOR : UInt16 := 3

/-- Bound on `participants × chunk_dim`. -/
def MAX_CHUNK_CELLS : Nat := 4096

/-- Largest scale exponent. -/
def MAX_SCALE_LOG2 : UInt8 := 16

structure RoundConfig where
  chainId : UInt64
  ledger : Addr
  clusterId : B32
  /-- SHA-256 of the base model GGUF the adapter applies to. -/
  baseModelSha256 : B32
  /-- SHA-256 of the adapter every participant starts from. -/
  startAdapterSha256 : B32
  /-- Device keys that may contribute, strictly ascending. -/
  roster : List Addr
  minParticipants : UInt16
  chunkDim : UInt32
  valueScaleLog2 : UInt8
  thresholdPos : Int64
  thresholdNeg : Int64
  confidence : ConfidenceRule
  weight : WeightRule
  /-- Largest delta (in values) a participant may submit. -/
  maxValues : UInt64
  deriving DecidableEq

inductive ConfigError where
  | rosterOrder
  | minParticipants (min : UInt16)
  | rosterTooSmall (roster : Nat) (min : UInt16)
  | rosterTooLarge (roster : Nat)
  | chunkDim (dim : UInt32)
  | chunkCells (roster : Nat) (chunk : UInt32)
  | scale (log2 : UInt8)
  | thresholds
  | maxValues
  | zero (what : String)
  deriving DecidableEq

/-- `windows(2).all(|w| w[0] < w[1])`. -/
def strictlyAscending : List Addr → Bool
  | a :: b :: rest => decide (a < b) && strictlyAscending (b :: rest)
  | _ => true

namespace RoundConfig

variable (cfg : RoundConfig)

/-- The checks in source order: the first that fails is the error returned. -/
def validate : Except ConfigError Unit :=
  if cfg.clusterId = FixedBytes.zero then .error (.zero "cluster_id")
  else if cfg.ledger = FixedBytes.zero then .error (.zero "ledger")
  else if cfg.startAdapterSha256 = FixedBytes.zero then .error (.zero "start_adapter_sha256")
  else if cfg.baseModelSha256 = FixedBytes.zero then .error (.zero "base_model_sha256")
  else if ¬ strictlyAscending cfg.roster then .error .rosterOrder
  else if FixedBytes.zero ∈ cfg.roster then .error (.zero "a roster address")
  else if cfg.minParticipants < MIN_PARTICIPANTS_FLOOR then
    .error (.minParticipants cfg.minParticipants)
  else if cfg.roster.length < cfg.minParticipants.toNat then
    .error (.rosterTooSmall cfg.roster.length cfg.minParticipants)
  else if cfg.roster.length > MAX_N then .error (.rosterTooLarge cfg.roster.length)
  else if cfg.chunkDim = 0 ∨ cfg.chunkDim.toNat > MAX_DIM then .error (.chunkDim cfg.chunkDim)
  else if cfg.roster.length * cfg.chunkDim.toNat > MAX_CHUNK_CELLS then
    .error (.chunkCells cfg.roster.length cfg.chunkDim)
  else if cfg.valueScaleLog2 > MAX_SCALE_LOG2 then .error (.scale cfg.valueScaleLog2)
  else if cfg.thresholdPos ≤ 0 ∨ cfg.thresholdNeg ≥ 0 then .error .thresholds
  else if cfg.maxValues = 0 then .error .maxValues
  else .ok ()

variable (H : Hashes)

/-- `keccak256` over the packed fields, registered on chain for the cluster and
snapshotted into every round record. -/
def configHash : B32 :=
  keccak H
    [CONFIG_DOMAIN,
      toBE 8 cfg.chainId.toNat,
      cfg.ledger.toBytes,
      cfg.clusterId.toBytes,
      cfg.baseModelSha256.toBytes,
      cfg.startAdapterSha256.toBytes,
      toBE 2 cfg.minParticipants.toNat,
      toBE 4 cfg.chunkDim.toNat,
      [cfg.valueScaleLog2],
      beI64 cfg.thresholdPos,
      beI64 cfg.thresholdNeg,
      [cfg.confidence.code, cfg.weight.code],
      toBE 8 cfg.maxValues.toNat,
      toBE 4 cfg.roster.length,
      cfg.roster.flatMap FixedBytes.toBytes]

end RoundConfig

/-- The on-chain round id; `FederatedRoundLedger.roundIdOf` computes the same
value. -/
def roundId (H : Hashes) (chainId : UInt64) (ledger : Addr) (clusterId : B32)
    (ordinal : UInt64) : B32 :=
  keccak H
    [ROUND_DOMAIN, toBE 8 chainId.toNat, ledger.toBytes, clusterId.toBytes,
      toBE 8 ordinal.toNat]

namespace RoundConfig

def roundId (cfg : RoundConfig) (H : Hashes) (ordinal : UInt64) : B32 :=
  Federated.roundId H cfg.chainId cfg.ledger cfg.clusterId ordinal

def chunkRules (cfg : RoundConfig) : ChunkRules where
  confidence := cfg.confidence
  weight := cfg.weight
  thresholdPos := cfg.thresholdPos
  thresholdNeg := cfg.thresholdNeg

def inRoster (cfg : RoundConfig) (who : Addr) : Bool := binarySearch cfg.roster who

end RoundConfig

/-- What the coordinator hands a worker for one round. -/
structure LoraDeltaPayload where
  task : String
  ordinal : UInt64
  roundId : B32
  config : RoundConfig
  deriving DecidableEq

inductive PayloadError where
  | task (task : String)
  | config (e : ConfigError)
  | roundId
  deriving DecidableEq

namespace LoraDeltaPayload

def new (H : Hashes) (config : RoundConfig) (ordinal : UInt64) : LoraDeltaPayload where
  task := TASK_LORA_DELTA
  ordinal := ordinal
  roundId := config.roundId H ordinal
  config := config

/-- The checks every consumer runs before trusting a payload. -/
def validate (p : LoraDeltaPayload) (H : Hashes) : Except PayloadError Unit :=
  if p.task ≠ TASK_LORA_DELTA then .error (.task p.task)
  else
    match p.config.validate with
    | .error e => .error (.config e)
    | .ok () =>
        if p.config.roundId H p.ordinal ≠ p.roundId then .error .roundId else .ok ()

end LoraDeltaPayload

/-- The digest a worker signs over its delta. -/
def deltaDigest (H : Hashes) (roundId : B32) (worker : Addr) (deltaRoot deltaSha256 : B32)
    (nValues : UInt64) (chunkDim : UInt32) : B32 :=
  keccak H
    [DELTA_DOMAIN, roundId.toBytes, worker.toBytes, deltaRoot.toBytes,
      deltaSha256.toBytes, toBE 8 nValues.toNat, toBE 4 chunkDim.toNat]

/-- What a worker returns for a `lora_delta` job (the submission payload).
`seconds` is an `f64`, kept as its bits. -/
structure LoraDeltaResult where
  task : String
  roundId : B32
  worker : Addr
  deltaRoot : B32
  deltaSha256 : B32
  nValues : UInt64
  chunkDim : UInt32
  startAdapterSha256 : B32
  trainedAdapterSha256 : B32
  /-- SHA-256 of the verified trajectory export the worker trained on. -/
  datasetSha256 : B32
  /-- Examples in that export. -/
  examples : UInt64
  /-- Which trainer produced the adapter. -/
  trainer : String
  seconds : UInt64
  /-- Recoverable secp256k1 signature over `delta_digest`, `0x` hex. -/
  signature : String
  deriving DecidableEq

def LoraDeltaResult.digest (r : LoraDeltaResult) (H : Hashes) : B32 :=
  deltaDigest H r.roundId r.worker r.deltaRoot r.deltaSha256 r.nValues r.chunkDim

/-! ## What a validated configuration guarantees -/

theorem strictlyAscending_pairwise {roster : List Addr}
    (h : strictlyAscending roster = true) : roster.Pairwise (· < ·) := by
  induction roster with
  | nil => exact List.Pairwise.nil
  | cons a rest ih =>
      cases rest with
      | nil => exact List.pairwise_singleton _ _
      | cons b rest =>
          simp only [strictlyAscending, Bool.and_eq_true, decide_eq_true_eq] at h
          have htail := ih h.2
          refine List.pairwise_cons.mpr ⟨?_, htail⟩
          intro c hc
          rcases List.mem_cons.mp hc with rfl | hc
          · exact h.1
          · exact h.1.trans ((List.pairwise_cons.mp htail).1 c hc)

/-- What passing `validate` says about the fields the round's code relies on. -/
structure RoundConfig.Valid (cfg : RoundConfig) : Prop where
  roster_ascending : cfg.roster.Pairwise (· < ·)
  min_floor : MIN_PARTICIPANTS_FLOOR ≤ cfg.minParticipants
  roster_le : cfg.roster.length ≤ MAX_N
  chunkDim_pos : cfg.chunkDim ≠ 0
  chunkDim_le : cfg.chunkDim.toNat ≤ MAX_DIM
  cells_le : cfg.roster.length * cfg.chunkDim.toNat ≤ MAX_CHUNK_CELLS

theorem RoundConfig.valid_of_validate {cfg : RoundConfig}
    (h : cfg.validate = .ok ()) : cfg.Valid := by
  simp only [RoundConfig.validate, check_eq_ok, not_or] at h
  obtain ⟨-, -, -, -, h5, -, h7, -, h9, h10, h11, -⟩ := h
  exact
    { roster_ascending := strictlyAscending_pairwise (by simpa using h5)
      min_floor := UInt16.not_lt.mp h7
      roster_le := Nat.le_of_not_lt h9
      chunkDim_pos := h10.1
      chunkDim_le := Nat.le_of_not_lt h10.2
      cells_le := Nat.le_of_not_lt h11 }

theorem RoundConfig.Valid.inRoster_iff {cfg : RoundConfig} (h : cfg.Valid) {who : Addr} :
    cfg.inRoster who = true ↔ who ∈ cfg.roster :=
  binarySearch_iff_mem h.roster_ascending

theorem LoraDeltaPayload.validate_ok {p : LoraDeltaPayload} {H : Hashes}
    (h : p.validate H = .ok ()) :
    p.task = TASK_LORA_DELTA ∧ p.config.Valid ∧ p.config.validate = .ok () ∧
      p.config.roundId H p.ordinal = p.roundId := by
  unfold LoraDeltaPayload.validate at h
  split at h
  · cases h
  · rename_i htask
    split at h
    · cases h
    · rename_i hcfg
      split at h
      · cases h
      · rename_i hround
        exact ⟨not_not.mp htask, RoundConfig.valid_of_validate hcfg, hcfg, not_not.mp hround⟩

/-- What is handed out for a configuration that is accepted passes its own checks. -/
theorem LoraDeltaPayload.validate_new {cfg : RoundConfig} (H : Hashes) (ordinal : UInt64)
    (h : cfg.validate = .ok ()) : (LoraDeltaPayload.new H cfg ordinal).validate H = .ok () := by
  have hconfig : (LoraDeltaPayload.new H cfg ordinal).config.validate = .ok () := h
  unfold LoraDeltaPayload.validate
  refine (if_neg (not_not_intro rfl)).trans ?_
  rw [hconfig]
  exact if_neg (not_not_intro rfl)

end Federated
end ComputePool
