import Laminar.Lib.Run
import Laminar.Lib.Sweep
import Laminar.Lib.Loop
import Laminar.Lib.Outcome
import Laminar.Lib.Code
import Laminar.Lib.Cells
import Laminar.Lib.Bytes
import Laminar.Lib.Locks
import Laminar.Lib.Waiting
import Laminar.Lib.Merge
import Laminar.Lib.Taint
import Laminar.Lib.Linked
import Laminar.Lib.Chain
import Laminar.Lib.Ring
import Laminar.Lib.Heads
import Laminar.Kernel.Word
import Laminar.Kernel.Label
import Laminar.Kernel.Caps
import Laminar.Kernel.Replace
import Laminar.Kernel.Xattr
import Laminar.Kernel.System
import Laminar.Kernel.XattrSafety
import Laminar.Kernel.Permission
import Laminar.Kernel.TagByTag
import Laminar.Kernel.Groups
import Laminar.Kernel.Conserve
import Laminar.Kernel.CapLocks
import Laminar.Kernel.Rights
import Laminar.Kernel.Unforgeable
import Laminar.Kernel.Fresh
import Laminar.Kernel.Labels
import Laminar.Kernel.InBounds
import Laminar.Kernel.WellFormed
import Laminar.Kernel.AllOrNothing
import Laminar.Kernel.Creation
import Laminar.Kernel.Authority
import Laminar.Kernel.Tcb
import Laminar.Vfs.Files
import Laminar.Vfs.Balance
import Laminar.Vfs.Readers
import Laminar.Vfs.Flow
import Laminar.Vfs.Declassify
import Laminar.Vfs.Interleaved
import Laminar.Vfs.Loosening
import Laminar.Vfs.PipeCounts
import Laminar.Vfs.PipeWrite
import Laminar.Vfs.PipeData
import Laminar.Vfs.PipeSteady
import Laminar.Vfs.PipeLoss
import Laminar.Vfs.PipeRead
import Laminar.Vm.LabelSet
import Laminar.Vm.LabelArray
import Laminar.Vm.LabelObjects
import Laminar.Vm.LabelQueries
import Laminar.Vm.Difc
import Laminar.Vm.Effects
import Laminar.Vm.LabelChange
import Laminar.Vm.Bracketing
import Laminar.Vm.Barriers
import Laminar.Vm.Placement
import Laminar.Vm.ChangeLabel
import Laminar.Vm.NewObjects
import Laminar.Vm.ObjectFlow
import Laminar.Vm.PassLabels
import Laminar.Vm.Chain
import Laminar.Vm.Observe
import Laminar.Vm.Heap
import Laminar.Vm.Capabilities
import Laminar.Vm.NoTrace
import Laminar.Vm.Attenuation
import Laminar.Vm.Dropped
import Laminar.Vm.CapabilityStores
import Laminar.Vm.FileSystem
import Laminar.Vm.StaticBarriers
import Laminar.Opt.Ir
import Laminar.Opt.Redundant
import Laminar.Opt.Exec
import Laminar.Opt.Available
import Laminar.Opt.Fixpoint
import Laminar.Opt.Expand
import Laminar.Opt.AllocBarriers
import Laminar.Opt.Sound
import Laminar.Opt.Exceptions
import Laminar.Opt.Machine
import Laminar.Opt.Verdict
import Laminar.Mm.SizeClasses
import Laminar.Mm.Cells
import Laminar.Mm.LabelSlots
import Laminar.Mm.MarkSweep
import Laminar.Baseline.Machine
import Laminar.Baseline.Bytecode
import Laminar.Baseline.Emit
import Laminar.Baseline.Correct
import Laminar.Baseline.Mediation
import Laminar.Baseline.Policy
import Laminar.Baseline.Transparent
