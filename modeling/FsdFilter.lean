import FsdFilter.Interleaving
import FsdFilter.ReaderWriterLock
import FsdFilter.SlotPatch
import FsdFilter.WrappingCounter
import FsdFilter.KeyedWrites
import FsdFilter.PagedMemory
import FsdFilter.VnodeOps
import FsdFilter.StateRuns
import FsdFilter.HookRegistry
import FsdFilter.HookCalls
import FsdFilter.HookCallProofs
import FsdFilter.VectorCounts
import FsdFilter.HookRefinement
import FsdFilter.CallHistories
import FsdFilter.HookThreads
import FsdFilter.ThreadSteps
import FsdFilter.CallsAlone
import FsdFilter.ThreadAccounting
import FsdFilter.ThreadProtection
import FsdFilter.ReferenceAccounting
import FsdFilter.VectorTransparency
import FsdFilter.MatchedCalls
import FsdFilter.MatchedRuns
import FsdFilter.CounterRange
import FsdFilter.VfsHooks
import FsdFilter.GateEvents
import FsdFilter.KnownVnodes
import FsdFilter.VectorRelease
import FsdFilter.GateThreads
import FsdFilter.PrematureUnhook
import FsdFilter.QuiescentRestoration
import FsdFilter.FakeFsd
import FsdFilter.VnodeLayout
import FsdFilter.LayoutScans
import FsdFilter.LayoutSoundness
import FsdFilter.LayoutCompleteness
import FsdFilter.MountLayout
import FsdFilter.ScanSafety
import FsdFilter.LayoutExit
import FsdFilter.WiredCopy
import FsdFilter.HookTables
import FsdFilter.FirstHook
import FsdFilter.LookupPaths
import FsdFilter.HookOrder
import FsdFilter.LinkedLists
import FsdFilter.SelfOrganizingLists
import FsdFilter.SizedBlocks
import FsdFilter.CommonHashTable
import FsdFilter.TableMemory
import FsdFilter.ChainEdits
import FsdFilter.TableRepresentation
import FsdFilter.TableSearch
import FsdFilter.TableOperations
import FsdFilter.EntryCreation
import FsdFilter.TableInsertion
import FsdFilter.TableRelease
import FsdFilter.TableCreation
import FsdFilter.TableRehash
import FsdFilter.InsertOutcomes
import FsdFilter.InsertionEffects
import FsdFilter.TableLifecycle
import FsdFilter.AllocationFailures
import FsdFilter.OrderedMap
import FsdFilter.TableInvariant
import FsdFilter.BucketCache
import FsdFilter.CheckedTable
import FsdFilter.IterationRuns
import FsdFilter.IterationSafety
import FsdFilter.RegistryTeardown
import FsdFilter.TableSizing
import FsdFilter.DataScan
import FsdFilter.Simulation
import FsdFilter.RegistryTable
import FsdFilter.RegistryRefinement
import FsdFilter.TableThreads
import FsdFilter.Progress
import FsdFilter.ThreadProgress
import FsdFilter.SlotBytes
import FsdFilter.WiredSlots
import FsdFilter.WiredRefinement
import FsdFilter.WiredThreads
import FsdFilter.BinaryPolynomials
import FsdFilter.ByteDigests
import FsdFilter.HashFunctions
import FsdFilter.HashCollisions
import FsdFilter.MountSearch
import FsdFilter.FilterLifecycle
import FsdFilter.LifecycleSafety
import FsdFilter.CheckedRuns
import FsdFilter.Distorm
import FsdFilter.DistormPrefixes
import FsdFilter.DistormInstructions
import FsdFilter.DistormOperands
import FsdFilter.DistormDecoder
import FsdFilter.PrefixScan
import FsdFilter.DecodeSafety
import FsdFilter.DecodeTiling
import FsdFilter.FunctionEntries
