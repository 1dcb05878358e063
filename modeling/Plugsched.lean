import Plugsched.Runs
import Plugsched.BarrierProgram
import Plugsched.BarrierRules
import Plugsched.BarrierProgress
import Plugsched.BarrierVote
import Plugsched.SyncSched
import Plugsched.CutGraph
import Plugsched.Metadata
import Plugsched.Vmlinux
import Plugsched.FuncClass
import Plugsched.MangledCheck
import Plugsched.BarrierWork
import Plugsched.ListHead
import Plugsched.SchedClass
import Plugsched.SchedRebuild
import Plugsched.RunQueues
import Plugsched.ByteMem
import Plugsched.HeadJump
import Plugsched.SyncEffect
import Plugsched.Enable
import Plugsched.Threads
import Plugsched.EnableRace
import Plugsched.HookedHeads
import Plugsched.AddrSort
import Plugsched.StackCheck
import Plugsched.DyingTasks
import Plugsched.Collect
import Plugsched.ListRank
import Plugsched.SymbolTable
import Plugsched.KernelImage
import Plugsched.RedirectedCopies
import Plugsched.Kallsyms
import Plugsched.UndefinedFunctions
import Plugsched.DfsClosure
import Plugsched.SidecarInflect
import Plugsched.PlainSearch
import Plugsched.MangledSearch
import Plugsched.ExportEntries
import Plugsched.Extract
import Plugsched.OutsiderBodies
import Plugsched.BorderNames
import Plugsched.FixInclude
import Plugsched.FixUp
import Plugsched.VarExtract
import Plugsched.JumpTarget
import Plugsched.Mempool
import Plugsched.Ledger
import Plugsched.PercpuMempool
import Plugsched.SysfsTree
import Plugsched.CommonPrefix
import Plugsched.ConfigDir
import Plugsched.ResolveRef
import Plugsched.HotfixConflict
import Plugsched.OrderChoice
import Plugsched.UnitRows
import Plugsched.FileOrder
import Plugsched.OrderFree
import Plugsched.AddrSortInt
import Plugsched.Lifecycle
import Plugsched.SchedFiles
import Plugsched.Retry
import Plugsched.Installer
import Plugsched.SafeUpdate
import Plugsched.WriteProtect
import Plugsched.Springboard
import Plugsched.SpringboardSearch
import Plugsched.Redirection
import Plugsched.Quiescence
import Plugsched.SlotFrame
import Plugsched.SpringboardArm64
import Plugsched.Globalize
import Plugsched.ExtractFile
