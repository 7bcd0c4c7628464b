import LinuxSummary.Library.Text
import LinuxSummary.Library.Numeral
import LinuxSummary.Library.Pattern
import LinuxSummary.Library.Printf
import LinuxSummary.Library.Strtol
import LinuxSummary.Library.Base64
import LinuxSummary.Library.CInt
import LinuxSummary.Library.ForLoop
import LinuxSummary.Library.Machine
import LinuxSummary.Library.Dialogue
import LinuxSummary.Library.GroupTree
import LinuxSummary.Cgroup.Host
import LinuxSummary.Cgroup.Commands
import LinuxSummary.Cgroup.Tool
import LinuxSummary.Cgroup.Rules
import LinuxSummary.Cgroup.Size
import LinuxSummary.Cgroup.Limit
import LinuxSummary.Cgroup.Requests
import LinuxSummary.Cgroup.Traffic
import LinuxSummary.Cgroup.Shaping
import LinuxSummary.Cgroup.Atomic
import LinuxSummary.Cgroup.Clear
import LinuxSummary.Cgroup.Threads
import LinuxSummary.Cgroup.ClassId
import LinuxSummary.Cgroup.Faults
import LinuxSummary.Cgroup.History
import LinuxSummary.Cgroup.NetUndo
import LinuxSummary.Kvm.RunLoop
import LinuxSummary.Pthread.CommandLoop
import LinuxSummary.Socket.EpollLoop
import LinuxSummary.Libvirt.GuestExec
import LinuxSummary.Chrdev.Registry
import LinuxSummary.Chrdev.Store
import LinuxSummary.Zproc.ProcWrite
import LinuxSummary.Zproc.Script
import LinuxSummary.Zproc.Walk
import LinuxSummary.Zproc.Translate
import LinuxSummary.Zproc.Concurrent
import LinuxSummary.Zpage.Driver
import LinuxSummary.Zpage.Bounds
import LinuxSummary.Zpage.Errors
import LinuxSummary.Zpage.Shown
import LinuxSummary.Cgroup.RootQdisc
import LinuxSummary.Chrdev.FailedWrite
import LinuxSummary.Zpage.Translation
import LinuxSummary.Socket.Vsock
import LinuxSummary.Zpage.FetchSet
import LinuxSummary.Library.Walk
import LinuxSummary.Udp.SocketTable
import LinuxSummary.Systemtap.RequestQueue
import LinuxSummary.Zmodule.ModuleList
import LinuxSummary.Libvirt.DomainXml
import LinuxSummary.Library.Python
import LinuxSummary.Library.Stdin
import LinuxSummary.Perf.CacheSize
import LinuxSummary.Zproc.Split
import LinuxSummary.Input.EndOfInput
import LinuxSummary.Numa.NodeMask
import LinuxSummary.Memory.HugePages
import LinuxSummary.Virsh.PinLoop
import LinuxSummary.Cgroup.LimitBak
import LinuxSummary.EventFd.Counters
import LinuxSummary.EventFd.Signal
import LinuxSummary.Kvm.Guest
import LinuxSummary.Kvm.Setup
import LinuxSummary.Library.ByteSource
import LinuxSummary.Libvirt.DiskNames
import LinuxSummary.MmAddr.Dram
import LinuxSummary.MmAddr.FileView
import LinuxSummary.MmAddr.PhysicalView
import LinuxSummary.ProcConnector.Monitor
import LinuxSummary.Socket.Datagrams
import LinuxSummary.Socket.Transfer
import LinuxSummary.Workqueue.Unload
import LinuxSummary.Library.RealMode
import LinuxSummary.MmAddr.Outline
import LinuxSummary.Zpage.ProcMem
import LinuxSummary.Affinity.Shown
