import StarryOS.Fs.HandleDrop
import StarryOS.Fs.HardLinks
import StarryOS.Fs.UnlinkedFiles
import StarryOS.Fs.TruncatingOpen
import StarryOS.Fs.Append
import StarryOS.Fs.Chroot
import StarryOS.Mm.CowCounts
import StarryOS.Mm.FileCoherence
import StarryOS.Mm.UserCopy
import StarryOS.Exec.Execve
import StarryOS.Exec.HeaderCache
import StarryOS.File.EpollReadiness
import StarryOS.File.EventFd
import StarryOS.File.PipeWrite
import StarryOS.File.PipeClose
import StarryOS.Task.FutexWaiters
import StarryOS.Task.FutexReachable
import StarryOS.Task.FutexKey
import StarryOS.Task.FailedClone
import StarryOS.Task.Sigreturn
import StarryOS.Task.SignalFrames
import StarryOS.Task.SignalWakeup
import StarryOS.Task.WaitpidReaping
import StarryOS.Ipc.BiBTreeMap
import StarryOS.Ipc.MsgFifo
import StarryOS.Ipc.MsgRemoval
import StarryOS.Ipc.ShmRemoval
import StarryOS.Ipc.ShmLocks
import StarryOS.Sdmmc.FailStop
import StarryOS.Sdmmc.Attribution
import StarryOS.Sdmmc.Persistence
import StarryOS.Net.UnixSend
import StarryOS.Net.VsockPorts
import StarryOS.Net.Frames
import StarryOS.Fs.TmpfsRename
import StarryOS.Fs.ReadDir
import StarryOS.Fs.DiskRename
import StarryOS.Net.Routing
import StarryOS.Net.SockAddr
import StarryOS.Task.TimerFuture
import StarryOS.Task.Join
import StarryOS.File.PipePoll
import StarryOS.File.CloseRange
import StarryOS.File.TtyPanics
import StarryOS.Mm.Brk
import StarryOS.Mm.Mremap
import StarryOS.Mm.AccessRange
import StarryOS.Task.AlarmList
import StarryOS.Task.GroupSignals
import StarryOS.Mm.SegmentPages
