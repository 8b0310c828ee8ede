import GordOS.Lib.Fallible
import GordOS.Lib.Chain
import GordOS.Lib.Forest
import GordOS.Fat32.Disk
import GordOS.Fat32.Names
import GordOS.Fat32.Dir
import GordOS.Fat32.Ops
import GordOS.Fat32.Volume
import GordOS.Fat32.Frames
import GordOS.Fat32.Exec
import GordOS.Fat32.Entries
import GordOS.Fat32.NewEntry
import GordOS.Fat32.Removal
import GordOS.Fat32.Append
import GordOS.Fat32.FileData
import GordOS.Fat32.Tree
import GordOS.Fat32.Steps
import GordOS.Fat32.Resolve
import GordOS.Fat32.Effects
import GordOS.Fat32.Live
import GordOS.Fat32.Preserve
import GordOS.Fat32.Integrity
import GordOS.Fat32.LongNames
import GordOS.Fat32.Runs
import GordOS.Fat32.DirEntries
import GordOS.Fat32.Read
import GordOS.Fat32.Overwrite
import GordOS.Fat32.Leaks
import GordOS.Fat32.EveryDir
import GordOS.Fat32.DirNames
import GordOS.Fat32.Homes
import GordOS.Fat32.Cwd
import GordOS.Fat32.CwdPath
import GordOS.Fat32.DirTree
import GordOS.Fat32.Prefix
import GordOS.Fat32.Walks
import GordOS.Fat32.SameEntry
import GordOS.Fat32.Confined
import GordOS.Fat32.NameCodec
import GordOS.Fat32.Mount
import GordOS.Fat32.Failures
import GordOS.Fat32.Orderly
import GordOS.Fat32.Renaming
import GordOS.Kernel.SchedRuns
import GordOS.Kernel.PipeRuns
import GordOS.Kernel.Effects
import GordOS.Kernel.Waiters
import GordOS.Kernel.OpenFiles
import GordOS.Kernel.Buffers
import GordOS.Kernel.PipeWaits
import GordOS.Kernel.Completion
import GordOS.Kernel.Argv
import GordOS.Kernel.Moves
import GordOS.Kernel.Focus
import GordOS.Kernel.Elf
import GordOS.Kernel.Loader
import GordOS.Kernel.Program
import GordOS.Kernel.Sbrk
import GordOS.Kernel.Machine
import GordOS.Drivers.Pit
import GordOS.Memory.Pmm
import GordOS.Memory.Kmalloc
import GordOS.Memory.Coalesce
import GordOS.Memory.AddPages
import GordOS.Memory.PoolRuns
import GordOS.Memory.Views
import GordOS.User.MallocRuns
import GordOS.User.Memmove
import GordOS.User.Qsort
import GordOS.User.Printf
import GordOS.Shell.Readline
import GordOS.Shell.Tokenise
