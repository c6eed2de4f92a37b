import Naos.Task.Signal
import Naos.Arch.SigReturn
import Naos.Lib.RcHeap
import Naos.Task.SignalClone
import Naos.Fs.Signalfd
import Naos.Lib.LinkedStore
import Naos.Lib.AlignedBlock
import Naos.Lib.BitFlags
import Naos.Mm.Buddy
import Naos.Mm.BuddyLists
import Naos.Mm.BuddyInv
import Naos.Mm.BuddyFree
import Naos.Mm.BuddyAlloc
import Naos.Mm.BuddyRun
import Naos.Mm.BuddyChecks
import Naos.Mm.BuddyExact
import Naos.Mm.Cow
import Naos.Mm.TlbRelease
import Naos.Lib.RedBlack
import Naos.Libs.RbTree
import Naos.Libs.RbTreeLinks
import Naos.Libs.RbTreeInsert
import Naos.Libs.RbTreeErase
import Naos.Libs.RbTreeUnlink
import Naos.Libs.RbTreeIter
import Naos.Lib.Ring
import Naos.Lib.LinearProbe
import Naos.Libs.Hashmap
import Naos.Libs.HashmapSpec
import Naos.Libs.HashmapRun
import Naos.Lib.TreeSearch
import Naos.Lib.Intervals
import Naos.Mm.Vma
import Naos.Mm.VmaTree
import Naos.Mm.VmaSpec
import Naos.Mm.VmaRange
import Naos.Lib.Slots
import Naos.Mm.MmapArea
import Naos.Mm.Munmap
import Naos.Mm.Mprotect
import Naos.Mm.MprotectPages
import Naos.Mm.PageCacheLru
import Naos.Fs.Pipe
import Naos.Fs.PipeRing
import Naos.Fs.PipePages
import Naos.Fs.PipeFifo
import Naos.Fs.PipeRun
import Naos.Fs.PipeAtomic
import Naos.Fs.PipeSplice
import Naos.Fs.Poll
import Naos.Fs.RelPath
import Naos.Lib.Acyclic
import Naos.Fs.EpollCtl
import Naos.Fs.EpollWatch
import Naos.Fs.EpollWait
import Naos.Fs.Tmpfs
import Naos.Fs.TmpfsNs
import Naos.Fs.TmpfsIterate
import Naos.Fs.VfsRename
import Naos.Fs.VfsLookup
import Naos.Lib.SparseFile
import Naos.Fs.PagedStore
import Naos.Fs.TmpfsFile
import Naos.Task.FdTable
import Naos.Fs.FileLock
import Naos.Lib.ByteBitmap
import Naos.Fs.ExtAlloc
import Naos.Eevdf.SchedPick
import Naos.Task.FutexPi
import Naos.Lib.Crc
import Naos.Fs.ExtCrc
import Naos.Mm.Bitmap
