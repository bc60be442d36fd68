import XsCore.Vfs.Appends
import XsCore.Vfs.OpenFailure
import XsCore.Vfs.NodePath
import XsCore.Signal.Privilege
import XsCore.Signal.Delivery
import XsCore.Memory.KernelHeap
import XsCore.Storage.Durability
import XsCore.Ipc.Rights
import XsCore.Ipc.Datagrams
import XsCore.File.Exclusion
import XsCore.File.Polling
import XsCore.Elf.Faults
import XsCore.Libc.HeapRuns
import XsCore.Sched.FutexAccounting
import XsCore.Process.Reaping
import XsCore.Signal.Dispositions
import XsCore.Libc.Sort
import XsCore.Libc.Calendar
import XsCore.Libc.FormatStandard
import XsCore.Libc.FormatBuffer
import XsCore.Libc.Environment
import XsCore.Libc.Stream
import XsCore.Tools.Tar
import XsCore.Libc.Account
import XsCore.Tools.BusRoutes
import XsCore.Tools.Compression
import XsCore.Libc.Regex
import XsCore.Tools.DiffVerdict
import XsCore.Libc.DbusCodec
import XsCore.Tools.Sha256
import XsCore.Tools.Pkg
import XsCore.File.MemoryReads
import XsCore.File.Terminal
import XsCore.Vfs.SetId
import XsCore.Sched.Stacks
import XsCore.Sched.ExitRequests
import XsCore.Ipc.Checksum
import XsCore.File.LockDiscipline
import XsCore.Vfs.Initramfs
