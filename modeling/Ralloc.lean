import Ralloc.Lib.Placement
import Ralloc.Lib.Chain
import Ralloc.Lib.Bytes
import Ralloc.Model.Config
import Ralloc.Model.SizeClass
import Ralloc.Model.Pptr
import Ralloc.Model.Region
import Ralloc.Model.Heap
import Ralloc.Model.CrossPtr
import Ralloc.Machine.Exec
import Ralloc.Machine.Geometry
import Ralloc.Machine.Ledger
import Ralloc.Machine.Inv
import Ralloc.Machine.Frame
import Ralloc.Machine.Lists
import Ralloc.Machine.Blocks
import Ralloc.Machine.Large
import Ralloc.Machine.Fill
import Ralloc.Machine.Organize
import Ralloc.Machine.Flush
import Ralloc.Machine.Step
import Ralloc.Machine.Extent
import Ralloc.Machine.Solo
import Ralloc.Machine.Reach
import Ralloc.Machine.Trace
import Ralloc.Machine.Conservation
import Ralloc.Machine.LifeCycle
import Ralloc.Machine.Effect
import Ralloc.Machine.Calls
import Ralloc.Model.Sweep
import Ralloc.Model.Mapping
import Ralloc.Model.Grow
import Ralloc.Lib.Stride
import Ralloc.Machine.LargeCall
import Ralloc.Recovery.Turn
import Ralloc.Recovery.Marks
import Ralloc.Recovery.Progress
import Ralloc.Recovery.Outcome
import Ralloc.Recovery.Exact
import Ralloc.Recovery.FalsePositive
import Ralloc.Recovery.LargeSize
import Ralloc.Mapping.Lookup
import Ralloc.Mapping.Growth
import Ralloc.Model.Image
import Ralloc.Mapping.Files
import Ralloc.Mapping.Position
import Ralloc.Machine.Realloc
import Ralloc.Machine.StepsLeft
import Ralloc.Machine.SmallSbAlloc
import Ralloc.Mapping.Roots
import Ralloc.Model.RegionFile
import Ralloc.Mapping.Reopen
import Ralloc.Lib.RobustMutex
import Ralloc.Recovery.Dirty
import Ralloc.Model.Mark
import Ralloc.Recovery.Mark
import Ralloc.Lib.CountedStack
import Ralloc.Machine.Stacks
import Ralloc.Recovery.Again
import Ralloc.Model.Init
import Ralloc.Recovery.InitSteps
import Ralloc.Recovery.FirstInit
import Ralloc.Lib.CodedCell
import Ralloc.Model.AtomicCell
import Ralloc.Mapping.Cells
import Ralloc.Mapping.Range
import Ralloc.Mapping.Slots
import Ralloc.Machine.Calloc
import Ralloc.Machine.FlushCache
import Ralloc.Lib.Persist
import Ralloc.Durable.Log
import Ralloc.Durable.Settled
import Ralloc.Durable.Invariant
import Ralloc.Durable.Contents
import Ralloc.Durable.Close
import Ralloc.Durable.Crash
import Ralloc.Lib.Simulation
import Ralloc.Lib.Arena
import Ralloc.Machine.Refine
import Ralloc.Recovery.Rebuilt
import Ralloc.Recovery.Restart
import Ralloc.Recovery.Interrupted
import Ralloc.Durable.Virgin
import Ralloc.Durable.Logged
import Ralloc.Durable.Lifetimes
import Ralloc.Machine.Alone
import Ralloc.Mapping.Moved
import Ralloc.Durable.Mapped
import Ralloc.Lib.Keyed
import Ralloc.Recovery.Filters
import Ralloc.Durable.Typed
import Ralloc.Lib.Progress
import Ralloc.Machine.Changes
import Ralloc.Machine.LockFree
