import LoptVllm.Lopt.Serving
import LoptVllm.KVCache.SkippedBlocks
import LoptVllm.KVCache.SlidingHit
import LoptVllm.KVCache.HybridEagle
import LoptVllm.KVCache.Events
import LoptVllm.Sched.PrefixReset
import LoptVllm.KVOffload.Addressing
import LoptVllm.Worker.LocalLengths
import LoptVllm.Worker.Faithful
import LoptVllm.Worker.AllowedMask
import LoptVllm.Frontend.ParallelSampling
import LoptVllm.Frontend.DeltaRun
import LoptVllm.StructuredOutput.Masks
import LoptVllm.ShmStorage.Freeing
import LoptVllm.Multimodal.Mirrored
import LoptVllm.Multimodal.FoundWherePut
import LoptVllm.Attention.Mamba2Chunks
import LoptVllm.Attention.Swaps
import LoptVllm.Attention.Split
import LoptVllm.SpecDecode.TargetDistribution
import LoptVllm.SpecDecode.SameProcessing
import LoptVllm.Eplb.TransferRun
import LoptVllm.Eplb.Rebalance
import LoptVllm.StructuredOutput.Contract
import LoptVllm.Serial.RoundTrip
import LoptVllm.Multimodal.HfInputs
import LoptVllm.Lopt.LongestMatch
import LoptVllm.Lopt.ChunkTermination
import LoptVllm.AsyncUtils.Interleavings
import LoptVllm.Executor.RpcRun
import LoptVllm.Reasoning.StreamedReasoning
import LoptVllm.KVTransfer.Completions
import LoptVllm.ScalarType.Agreement
import LoptVllm.LoRA.Batches
import LoptVllm.BatchQueue.Runs
import LoptVllm.KVConfig.Tensors
import LoptVllm.Benchmarks.Retry
import LoptVllm.Sched.PassedOver
import LoptVllm.Sched.FailedLoads
import LoptVllm.KVCache.IncrementalHash
import LoptVllm.ShmStorage.RingRuns
import LoptVllm.KVOffload.Refusals
import LoptVllm.ToolParsers.Hermes
