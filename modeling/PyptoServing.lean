import PyptoServing.Lib.Machine
import PyptoServing.Lib.LinkedQueue
import PyptoServing.Lib.Dict
import PyptoServing.Lib.Fallible
import PyptoServing.Lib.Ring
import PyptoServing.Lib.TagIndex
import PyptoServing.Lib.Search
import PyptoServing.Lib.Session
import PyptoServing.Lib.Raising
import PyptoServing.Lib.Spsc
import PyptoServing.Lib.Nucleus
import PyptoServing.Lib.Generation
import PyptoServing.Lib.RowCache
import PyptoServing.Lib.Tensor
import PyptoServing.Config.Types
import PyptoServing.Memory.Blocks
import PyptoServing.Memory.FreeQueue
import PyptoServing.Memory.GroupPool
import PyptoServing.Memory.KvCacheManager
import PyptoServing.Memory.GenericPool
import PyptoServing.Memory.GenericIndex
import PyptoServing.Memory.PoolCore
import PyptoServing.Memory.PoolTables
import PyptoServing.Memory.PoolOperations
import PyptoServing.Memory.Conservation
import PyptoServing.Memory.PrefixHit
import PyptoServing.Memory.Partitions
import PyptoServing.Memory.RingLedger
import PyptoServing.Memory.Publication
import PyptoServing.Memory.Growth
import PyptoServing.Memory.HashIndex
import PyptoServing.Memory.PrefixSearch
import PyptoServing.Sched.Request
import PyptoServing.Sched.Scheduler
import PyptoServing.Sched.Update
import PyptoServing.Sched.Pass
import PyptoServing.Sched.Summary
import PyptoServing.Sched.Pipeline
import PyptoServing.Sched.Flight
import PyptoServing.Sched.Effects
import PyptoServing.Sched.WellFormed
import PyptoServing.Sched.Slots
import PyptoServing.Sched.Capacity
import PyptoServing.Runner.DecodeBatch
import PyptoServing.Runner.Sampler
import PyptoServing.Runner.Sampling
import PyptoServing.Runner.ExactSampling
import PyptoServing.Runner.NucleusSampling
import PyptoServing.Sched.FlightSteps
import PyptoServing.Sched.PreemptionOrder
import PyptoServing.Sched.StepLimits
import PyptoServing.Sched.QueuePartition
import PyptoServing.Sched.Placeholders
import PyptoServing.Sched.Coverage
import PyptoServing.Sched.Phases
import PyptoServing.Sched.Outputs
import PyptoServing.Sched.BlockLedger
import PyptoServing.Sched.BlockConservation
import PyptoServing.Server.Ipc
import PyptoServing.Server.Lanes
import PyptoServing.Server.LaneProtocol
import PyptoServing.Server.Residue
import PyptoServing.Server.Worker
import PyptoServing.Server.HostSampling
import PyptoServing.Server.PrefillChunks
import PyptoServing.Server.CandidateSampling
import PyptoServing.Engine.Commands
import PyptoServing.Engine.Clients
import PyptoServing.Engine.Replica
import PyptoServing.Engine.Run
import PyptoServing.Engine.Effects
import PyptoServing.Engine.Registration
import PyptoServing.Engine.History
import PyptoServing.Engine.Mirror
import PyptoServing.Engine.Lifetimes
import PyptoServing.Engine.Delivery
import PyptoServing.Engine.Projection
import PyptoServing.Engine.StopStrings
import PyptoServing.Engine.Streaming
import PyptoServing.Platform.Channels
import PyptoServing.Runner.MtpState
import PyptoServing.Runner.MtpSlots
import PyptoServing.Runner.MtpPrefill
import PyptoServing.Runner.QwenStaging
import PyptoServing.Weights.Shard
import PyptoServing.Weights.Packer
import PyptoServing.Weights.Stacker
import PyptoServing.Weights.Stacking
import PyptoServing.Runner.CacheMetadata
import PyptoServing.Runner.RingAddressing
import PyptoServing.Lib.Translation
import PyptoServing.Memory.HostRuns
import PyptoServing.Weights.Requantisation
import PyptoServing.Lib.AtomicPuts
import PyptoServing.Weights.Checkpoint
import PyptoServing.Weights.Conversion
import PyptoServing.Weights.ConversionPlan
import PyptoServing.Weights.ConversionRun
import PyptoServing.Weights.ConversionStages
import PyptoServing.Weights.PackedFiles
import PyptoServing.Weights.Resume
import PyptoServing.Weights.ResumeConditions
import PyptoServing.Lib.Speculation
import PyptoServing.Lib.Worklist
import PyptoServing.Runner.DecodePlacement
import PyptoServing.Runner.MtpAccept
import PyptoServing.Runner.MtpRounds
import PyptoServing.Runner.MtpSpecification
import PyptoServing.Lib.NumberedCalls
import PyptoServing.Engine.Matching
import PyptoServing.Runner.MtpDecode
import PyptoServing.Runner.MtpProgress
import PyptoServing.Runner.PagedSlots
import PyptoServing.Engine.PrefillPayloads
