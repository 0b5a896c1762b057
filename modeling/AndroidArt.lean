import AndroidArt.Lib.LlvmInteger
import AndroidArt.Lib.MachineInt
import AndroidArt.Lib.KeyedFold
import AndroidArt.Lib.BitField
import AndroidArt.Lib.ReentrantLock
import AndroidArt.Lib.Interleaving
import AndroidArt.Lib.BitString
import AndroidArt.Lib.Rotate
import AndroidArt.Lib.IntegralFloat
import AndroidArt.Lib.BinaryFloat
import AndroidArt.Lib.CString
import AndroidArt.Lib.IntervalArith
import AndroidArt.Lib.LittleEndian
import AndroidArt.Lib.HashDedup
import AndroidArt.Lib.PartitionPoint
import AndroidArt.Base.Leb128
import AndroidArt.Base.BitMemoryRegion
import AndroidArt.Base.HashSet
import AndroidArt.Optimizing.Graph
import AndroidArt.Optimizing.SimplifyCfg
import AndroidArt.Optimizing.DataType
import AndroidArt.Optimizing.JavaSemantics
import AndroidArt.Optimizing.Expression
import AndroidArt.Optimizing.InstructionSimplifier
import AndroidArt.Optimizing.ConstantFolding
import AndroidArt.Optimizing.LoadStoreAnalysis
import AndroidArt.Optimizing.BoundsCheckElimination
import AndroidArt.Optimizing.InductionVarRange
import AndroidArt.Llvm.HGraphToLlvm
import AndroidArt.Llvm.BlockGeneration
import AndroidArt.Dex.EncodedValue
import AndroidArt.Dex.Instruction
import AndroidArt.Dex.Utf
import AndroidArt.Dex.UtfConvert
import AndroidArt.Dex.TypeLookupTable
import AndroidArt.Verifier.MethodVerifier
import AndroidArt.Runtime.LockWord
import AndroidArt.Runtime.Monitor
import AndroidArt.Runtime.Mutex
import AndroidArt.Runtime.ReaderWriterMutex
import AndroidArt.Runtime.OatHeader
import AndroidArt.Base.BitTable
import AndroidArt.Base.ArenaAllocator
import AndroidArt.Profile.ProfileCompilationInfo
import AndroidArt.Profile.Save
import AndroidArt.Profile.Load
import AndroidArt.Profile.AggregationCounters
import AndroidArt.Profile.MergeWith
import AndroidArt.Runtime.ElfFile
import AndroidArt.Lib.SpanList
import AndroidArt.Optimizing.LiveInterval
import AndroidArt.Lib.Aarch64
import AndroidArt.Optimizing.IntrinsicsArm64
import AndroidArt.Lib.CountedLoop
import AndroidArt.Optimizing.InductionVarAnalysis
import AndroidArt.Lib.BitScan
import AndroidArt.Lib.PackedBits
import AndroidArt.Base.BitVector
import AndroidArt.Gc.SpaceBitmap
import AndroidArt.Gc.CardTable
import AndroidArt.Lib.ByteMemory
import AndroidArt.Gc.ModifyCardsAtomic
import AndroidArt.Runtime.IndirectReferenceTable
import AndroidArt.Runtime.StackMap
import AndroidArt.Runtime.DexRegisterMap
import AndroidArt.Lib.TextRecord
import AndroidArt.Lib.OrderedSet
import AndroidArt.Mcr.InvokeInfo
import AndroidArt.Mcr.InvokeHistogram
import AndroidArt.Lib.Bfs
import AndroidArt.Llvm.SuspendCheck
import AndroidArt.Profile.MergeSemantics
import AndroidArt.Dex.CompactOffsetTable
import AndroidArt.Lib.LinkedList
import AndroidArt.Runtime.MonitorPool
import AndroidArt.Lib.LanguageResidual
import AndroidArt.Dex.DescriptorsNames
import AndroidArt.Dex.DexNameGrammar
import AndroidArt.Mirror.String
import AndroidArt.Mirror.StringCompression
import AndroidArt.Lib.ChunkLayout
import AndroidArt.Gc.FreeListSpace
import AndroidArt.Gc.FreeListSpaceLayout
import AndroidArt.Gc.FreeListSpaceAlloc
import AndroidArt.Gc.FreeListSpaceFree
import AndroidArt.Gc.FreeListSpaceRuns
