import Difftest.Data.Dict
import Difftest.Signature.File
import Difftest.Signature.RoundTrip
import Difftest.Signature.Checker
import Difftest.Data.Bytes
import Difftest.TileLink.Mask
import Difftest.TileLink.Message
import Difftest.TileLink.Slots
import Difftest.TileLink.Adapter
import Difftest.Data.ByteMemory
import Difftest.TileLink.Uncached
import Difftest.TileLink.Moves
import Difftest.TileLink.Grant
import Difftest.TileLink.Core
import Difftest.TileLink.Ledger
import Difftest.TileLink.Sweep
import Difftest.TileLink.WriteBack
import Difftest.TileLink.Stop
import Difftest.Data.Struct
import Difftest.Elf.Load
import Difftest.Elf.Image
import Difftest.Elf.Exact
import Difftest.Signature.Comparer
import Difftest.TileLink.Probes
import Difftest.Signature.Compared
import Difftest.Spike.Memif
import Difftest.Spike.Signature
import Difftest.Driver.Leftovers
import Difftest.Spike.MemoryMap
import Difftest.TileLink.Agreement
import Difftest.TileLink.Disagreement
import Difftest.Data.Search
import Difftest.Firrtl.GraphLedger
import Difftest.Firrtl.ControlRegisters
import Difftest.Firrtl.InstrCov
import Difftest.Firrtl.Completeness
import Difftest.Data.Visited
import Difftest.Firrtl.Semantics
import Difftest.Firrtl.CovSum
import Difftest.Firrtl.Passes
import Difftest.Firrtl.Interfaces
import Difftest.Fuzzer.Word
import Difftest.Fuzzer.SimInput
import Difftest.Fuzzer.SeedRoundTrip
import Difftest.Fuzzer.Generator
import Difftest.Fuzzer.Mutator
import Difftest.Data.Recency
import Difftest.Fuzzer.Session
import Difftest.Fuzzer.DataSeeds
import Difftest.Fuzzer.Labels
import Difftest.Data.Greedy
import Difftest.Fuzzer.Minimizer
import Difftest.Fuzzer.NopMasks
import Difftest.Fuzzer.InterruptFile
import Difftest.Fuzzer.Templates
import Difftest.Data.Semaphore
import Difftest.Fuzzer.Counters
import Difftest.Fuzzer.CovMap
import Difftest.Data.Assignments
import Difftest.Host.Setup
import Difftest.Host.HexFile
import Difftest.Host.DataWords
import Difftest.Host.StartImage
import Difftest.Host.Lookups
import Difftest.Data.Listing
import Difftest.Wrapper.Emission
import Difftest.Wrapper.Spacing
import Difftest.Fuzzer.Drafts
import Difftest.Fuzzer.Expansions
import Difftest.Fuzzer.Filled
import Difftest.Spike.CanonicalMap
import Difftest.Data.Lanes
import Difftest.TileLink.Atomic
import Difftest.TileLink.Touched
import Difftest.TileLink.Polls
import Difftest.Host.RunTest
import Difftest.Fuzzer.DataSections
import Difftest.Wrapper.DataLayout
import Difftest.Data.Xor
import Difftest.Firrtl.StatePacking
import Difftest.Fuzzer.Closed
import Difftest.Fuzzer.Populated
import Difftest.Fuzzer.NewSeeds
import Difftest.Fuzzer.ForwardProgress
import Difftest.Firrtl.SourceSearch
import Difftest.Fuzzer.Windows
import Difftest.Fuzzer.IpcSetup
import Difftest.Fuzzer.WorkerSlots
import Difftest.Host.SectionHeaders
import Difftest.Host.SectionTable
import Difftest.Firrtl.Hierarchy
import Difftest.Firrtl.Outcome
import Difftest.Firrtl.SumTree
import Difftest.Firrtl.StopReport
import Difftest.Firrtl.LowForm
import Difftest.Firrtl.Targets
import Difftest.Firrtl.Lowered
import Difftest.Firrtl.MetaReset
import Difftest.Firrtl.FreshNames
import Difftest.Firrtl.WellFormed
import Difftest.Data.Runs
import Difftest.Wrapper.PayloadStart
import Difftest.Spike.SegmentTable
import Difftest.Firrtl.FindVecRegs
import Difftest.Firrtl.VectorPacking
import Difftest.Data.OrderedMap
import Difftest.Spike.Bus
import Difftest.Spike.Mmu
import Difftest.Data.Lockstep
import Difftest.Spike.Tlb
import Difftest.Spike.Transparent
import Difftest.Data.Masks
import Difftest.Spike.Pmp
import Difftest.Spike.Walk
import Difftest.Spike.AccessRuns
import Difftest.Data.Overwrite
import Difftest.Data.Succeeds
import Difftest.Spike.ChunkedMemif
import Difftest.Spike.DebugMemory
import Difftest.Spike.MemoryArgument
import Difftest.Spike.SimBus
import Difftest.Spike.Launch
import Difftest.Data.MoveToFront
import Difftest.Spike.Decode
import Difftest.Spike.StepLoop
import Difftest.Spike.FastPath
