import RapidLlm.Lib.Run
import RapidLlm.Lib.Outcome
import RapidLlm.Lib.HashChain
import RapidLlm.Lib.Ledger
import RapidLlm.Lib.Lockstep
import RapidLlm.Lib.TagSearch
import RapidLlm.Lib.RoundRobin
import RapidLlm.Lib.Segments
import RapidLlm.Lib.Rectangle
import RapidLlm.Lib.Windows
import RapidLlm.Engine.BlockPool
import RapidLlm.Engine.KVCacheSpec
import RapidLlm.Engine.KVCacheGroups
import RapidLlm.Engine.PrefixCache
import RapidLlm.Engine.BatchPlanner
import RapidLlm.Engine.PlannerInvariant
import RapidLlm.Engine.PlannerAdmission
import RapidLlm.Engine.PlanRun
import RapidLlm.Engine.PlannerResources
import RapidLlm.Executor.SlotBatch
import RapidLlm.Engine.SchedulerWork
import RapidLlm.Engine.DataParallel
import RapidLlm.Engine.KVOffload
import RapidLlm.Engine.OffloadWorld
import RapidLlm.Engine.Detokenizer
import RapidLlm.Engine.ToolParser
import RapidLlm.Engine.QwenToolParser
import RapidLlm.Engine.QwenChunking
import RapidLlm.Engine.RequestTracker
import RapidLlm.Engine.AsyncEngine
import RapidLlm.Engine.EventLoop
import RapidLlm.Engine.StoreEviction
import RapidLlm.Engine.StreamIsolation
import RapidLlm.Engine.StreamRun
import RapidLlm.Executor.CUDAGraph
import RapidLlm.Distributed.Dcp
import RapidLlm.Distributed.DpAttention
import RapidLlm.BatchOverlap.Operations
import RapidLlm.BatchOverlap.TwoBatchOverlap
import RapidLlm.Moe.AllToAll
import RapidLlm.Moe.Layer
import RapidLlm.DeepseekV4.Compressor
import RapidLlm.DeepseekV4.Cache
import RapidLlm.DeepseekV4.Attention
import RapidLlm.Engine.DpLockstep
import RapidLlm.Engine.OffloadPlanner
import RapidLlm.Engine.CacheEffects
import RapidLlm.Engine.PlanTurns
import RapidLlm.Engine.PlanStages
import RapidLlm.Engine.OffloadRun
import RapidLlm.Engine.ResumeCoverage
import RapidLlm.Engine.PrefillGrid
import RapidLlm.Engine.Reasoning
import RapidLlm.Engine.StreamedText
import RapidLlm.Engine.CacheAffinity
import RapidLlm.Lib.Threaded
import RapidLlm.Engine.EvictionOrder
import RapidLlm.Engine.LinkedPool
import RapidLlm.Engine.GroupCoordinator
import RapidLlm.Engine.GroupIndexing
import RapidLlm.Engine.GroupAllocation
import RapidLlm.Engine.GroupReports
import RapidLlm.Lib.JsonText
import RapidLlm.Engine.JsonCallScanner
import RapidLlm.Lib.Continuation
import RapidLlm.Engine.DecodeSession
import RapidLlm.Engine.StreamedSession
import RapidLlm.Distributed.Topology
import RapidLlm.Executor.KVCacheManager
import RapidLlm.BatchOverlap.OpStreams
import RapidLlm.Lib.Tensor
import RapidLlm.Distributed.RaggedCollectives
import RapidLlm.BatchOverlap.ReadbackRing
import RapidLlm.Executor.SlotMetadata
import RapidLlm.BatchOverlap.TboSplitter
import RapidLlm.Lib.TopPicks
import RapidLlm.Engine.Sampler
import RapidLlm.Engine.PromptLogprobs
import RapidLlm.Engine.NgramProposer
import RapidLlm.Lib.Grid
import RapidLlm.Lib.PackedWord
import RapidLlm.Quantization.Fp8
import RapidLlm.Lib.Rounding
import RapidLlm.Quantization.Groupwise
import RapidLlm.Quantization.CheckpointAdapters
import RapidLlm.Distributed.HeadSharding
import RapidLlm.Lib.Tiling
import RapidLlm.Moe.FusedMoe
import RapidLlm.Moe.ExpertLoader
import RapidLlm.Moe.ExpertShards
import RapidLlm.Lib.Coverage
import RapidLlm.Models.Weights
import RapidLlm.Models.LoadCoverage
import RapidLlm.Lib.Guarantee
import RapidLlm.BatchOverlap.CommOverlap
import RapidLlm.BatchOverlap.DeferredReductions
import RapidLlm.Lib.Launch
import RapidLlm.Moe.BlockAlign
import RapidLlm.Moe.GroupedGemm
import RapidLlm.Executor.WeightStream
import RapidLlm.Lib.Memo
import RapidLlm.Kernels.Dispatcher
import RapidLlm.Lib.Lanes
import RapidLlm.Moe.GroupedTopk
import RapidLlm.Models.LinearShards
import RapidLlm.Distributed.SequenceParallelPass
import RapidLlm.Distributed.SequenceParallel
import RapidLlm.Distributed.SequenceParallelRuns
import RapidLlm.Kernels.FlashInferDecode
import RapidLlm.Models.DeepseekV4Moe
import RapidLlm.Models.DeepseekV4Experts
import RapidLlm.Models.DeepseekV4Placement
import RapidLlm.Lib.Floating
import RapidLlm.Lib.OnlineSoftmax
import RapidLlm.Kernels.FlashDecoding
import RapidLlm.Kernels.FlashDecodingExact
import RapidLlm.Distributed.DcpMerge
import RapidLlm.Kernels.FlashPrefill
import RapidLlm.Kernels.FlashPrefillExact
import RapidLlm.Engine.StepGrants
