import ComputePool.Rust.Integer
import ComputePool.Rust.Json
import ComputePool.Rust.Collections
import ComputePool.Rust.Result
import ComputePool.Lib.Machine
import ComputePool.Lib.Views
import ComputePool.Lib.TokenBucket
import ComputePool.Lib.LeaseLedger
import ComputePool.Federated.Belnap
import ComputePool.Federated.Round
import ComputePool.Coordinator.SourceCap
import ComputePool.Coordinator.Replay
import ComputePool.Worker.EpochAggregator
import ComputePool.Lib.Interaction
import ComputePool.PoolCoordinator.RecordFirst
import ComputePool.PoolCoordinator.Dispatch
import ComputePool.Federated.Tree
import ComputePool.Federated.Artifact
import ComputePool.Federated.GgufRoundTrip
import ComputePool.Federated.Alignment
import ComputePool.Coordinator.Collect
import ComputePool.Coordinator.TierSafety
import ComputePool.Coordinator.Durable
import ComputePool.Coordinator.Store
import ComputePool.Worker.CoordinatorProtocol
import ComputePool.Worker.Transport
import ComputePool.Worker.Merkle
import ComputePool.Worker.Slashing
import ComputePool.Worker.LifeCycle
import ComputePool.Worker.PipelineAccounts
import ComputePool.Worker.Pipeline
import ComputePool.Worker.WriteConfirmed
import ComputePool.Worker.EnvelopeBinding
import ComputePool.Worker.ReplayWindow
import ComputePool.Coordinator.AdmissionViews
import ComputePool.Coordinator.AdmissionRate
import ComputePool.PoolCoordinator.WsChain
import ComputePool.Coordinator.AdmissionCheck
import ComputePool.Coordinator.Cooldown
import ComputePool.Coordinator.RestoredHistory
import ComputePool.Coordinator.OneSlot
import ComputePool.Federated.Dataset
import ComputePool.Federated.VerifyDataset
import ComputePool.Federated.DatasetRows
import ComputePool.Federated.ToolPairs
import ComputePool.Lib.Arc
import ComputePool.Worker.Corpus
import ComputePool.Federated.Precompile
import ComputePool.Lib.Pieces
import ComputePool.Federated.ChunkLayout
import ComputePool.Coordinator.Bundle
import ComputePool.Federated.RoundHashes
import ComputePool.Coordinator.AdmissionQuota
import ComputePool.Coordinator.TableBounds
import ComputePool.Coordinator.LeaseSelection
import ComputePool.Coordinator.GrantTerm
import ComputePool.Coordinator.Aggregate
import ComputePool.Coordinator.MergedValues
import ComputePool.Coordinator.Upload
import ComputePool.Coordinator.UploadStore
import ComputePool.Lib.Tracked
import ComputePool.Federated.GgufTotal
import ComputePool.Worker.DeadZone
import ComputePool.Worker.JobArtifacts
import ComputePool.Worker.Wallet
import ComputePool.Worker.Base64Url
import ComputePool.Coordinator.RegistrationRate
import ComputePool.Coordinator.Source
import ComputePool.Worker.Q16Commitment
import ComputePool.PoolCoordinator.Outbound
import ComputePool.Worker.Events
import ComputePool.Worker.Calldata
import ComputePool.PoolCoordinator.JobSpec
import ComputePool.Federated.LoraRunner
import ComputePool.Coordinator.HonestRound
import ComputePool.Worker.DeviceRounds
import ComputePool.Rust.Collect
import ComputePool.Worker.ZoneDelta
import ComputePool.Lib.World
import ComputePool.Worker.ArtifactFetch
import ComputePool.Worker.Staging
