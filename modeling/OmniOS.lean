import OmniOS.Lib.Lts
import OmniOS.Lib.Memory
import OmniOS.Lib.Chain
import OmniOS.Kernel.Heap
import OmniOS.Kernel.HeapBlocks
import OmniOS.Kernel.HeapInv
import OmniOS.Kernel.Pmm
import OmniOS.Kernel.PmmInv
import OmniOS.Lib.Slots
import OmniOS.Security.Daemon
import OmniOS.Security.DaemonInv
import OmniOS.Security.DaemonOwners
import OmniOS.Security.DaemonHistory
import OmniOS.Security.DaemonAvailable
import OmniOS.Security.Client
import OmniOS.Security.Poll
import OmniOS.Kernel.Sched
import OmniOS.Kernel.SchedQueue
import OmniOS.Kernel.SchedYield
import OmniOS.Kernel.SchedInv
import OmniOS.Kernel.SchedRuns
import OmniOS.Kernel.SchedSleep
import OmniOS.Kernel.Pipe
import OmniOS.Kernel.PipeStream
import OmniOS.Kernel.PipeCreate
import OmniOS.Kernel.Arm64
import OmniOS.Kernel.Arm64Map
import OmniOS.Kernel.Paging
import OmniOS.Kernel.PagingMap
import OmniOS.Kernel.Vmm
import OmniOS.Kernel.VmmIsolation
import OmniOS.Kernel.Initramfs
import OmniOS.Kernel.InitramfsNewc
import OmniOS.Kernel.Klog
import OmniOS.Kernel.Timer
import OmniOS.Kernel.TimerRuns
import OmniOS.Kernel.Virtio
import OmniOS.Kernel.VirtioFree
import OmniOS.Kernel.VirtioUsed
import OmniOS.Kernel.Process
import OmniOS.Kernel.ProcessRuns
import OmniOS.Kernel.ContextSwitch
import OmniOS.Kernel.Rtc
import OmniOS.Lib.SlotMap
import OmniOS.Kernel.Channel
import OmniOS.Kernel.ChannelRuns
import OmniOS.Kernel.ChannelMessages
import OmniOS.Scripts.Ota
import OmniOS.Scripts.OtaSlots
import OmniOS.Kernel.InputQueues
import OmniOS.Kernel.Ufs
import OmniOS.Kernel.Smp
import OmniOS.Lib.Aarch64
import OmniOS.Kernel.Exceptions
import OmniOS.Kernel.Syscall
import OmniOS.Kernel.Current
import OmniOS.Kernel.PmmInit
import OmniOS.Kernel.VmmRegions
import OmniOS.Compositor.Outputs
import OmniOS.Security.Receive
import OmniOS.Kernel.HeapData
import OmniOS.Kernel.Pages
import OmniOS.Kernel.PagesInv
import OmniOS.Kernel.PmmPages
import OmniOS.Kernel.PagingTranslate
import OmniOS.Kernel.PagingInit
import OmniOS.Kernel.TimerCalls
import OmniOS.Kernel.Signal
import OmniOS.Kernel.SignalRuns
import OmniOS.Kernel.SignalExit
import OmniOS.Kernel.KernelHeap
import OmniOS.Kernel.VmmFrames
import OmniOS.Lib.Space
import OmniOS.Kernel.Elf
import OmniOS.Kernel.ElfImage
import OmniOS.Kernel.ElfSafety
import OmniOS.Kernel.Execve
import OmniOS.Lib.Stage1
import OmniOS.Kernel.Arm64Walk
import OmniOS.Kernel.InitramfsFind
import OmniOS.Kernel.ProcessCreate
import OmniOS.Kernel.Pci
import OmniOS.Kernel.PciScan
import OmniOS.Kernel.PciBars
import OmniOS.Kernel.VirtioCap
import OmniOS.Kernel.PmmOrder
import OmniOS.Kernel.RtcCalendar
import OmniOS.Kernel.RtcAccess
import OmniOS.Kernel.DisplayFb
import OmniOS.Kernel.Fingerprint
import OmniOS.Kernel.Acpi
import OmniOS.Userspace.Embedder
import OmniOS.Scripts.OtaApply
import OmniOS.Kernel.Irq
import OmniOS.Kernel.Ipi
import OmniOS.Kernel.ProcessLife
import OmniOS.Kernel.PageFault
