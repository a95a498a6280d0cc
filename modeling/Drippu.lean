import Drippu.AudioCore.MixContext
import Drippu.Common.FlatAllocator
import Drippu.Common.MultiLevelPageTable
import Drippu.Common.ParamPackage
import Drippu.Common.RangeMap
import Drippu.Common.Uint128
import Drippu.Core.MemorySpans
import Drippu.FileSys.BucketTreeFind
import Drippu.FileSys.InitialProcesses
import Drippu.FileSys.IpsFormat
import Drippu.Kernel.HandleTableRuns
import Drippu.Kernel.LightLock
import Drippu.Kernel.MemoryBlockPages
import Drippu.Kernel.PageHeapAllocate
import Drippu.Kernel.PriorityInheritance
import Drippu.Kernel.PriorityQueueOrder
import Drippu.Recomp.AddSubTranslate
import Drippu.Recomp.AdrpRoots
import Drippu.Recomp.BlockLookup
import Drippu.Recomp.FpAddSub
import Drippu.Recomp.FpConvert
import Drippu.Recomp.FpDivide
import Drippu.Recomp.FpEstimate
import Drippu.Recomp.FpMulAdd
import Drippu.Recomp.FpSqrt
import Drippu.Recomp.FpStep
import Drippu.Recomp.GuardGenFresh
import Drippu.Recomp.GuardedStores
import Drippu.Recomp.ICache
import Drippu.Recomp.SharedCoverageRoundTrip
import Drippu.ShaderRecompiler.BitFields
import Drippu.ShaderRecompiler.FoldArithmetic
import Drippu.VideoCore.GpuBlocks
import Drippu.VideoCore.InvalidationAccumulator
import Drippu.VideoCore.MemoryTrackerRefines
import Drippu.VideoCore.SwizzleSubrect
import Drippu.VideoCore.VpxRoundTrip
