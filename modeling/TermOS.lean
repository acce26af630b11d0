import TermOS.Arch.DescriptorTables
import TermOS.Arch.Entry
import TermOS.Arch.Interrupts
import TermOS.Arch.PIC
import TermOS.Bootloader.Efi
import TermOS.Bootloader.Handover
import TermOS.Bootloader.Main
import TermOS.Device.IOConsole
import TermOS.Device.IOConsoleCursor
import TermOS.Device.IOConsoleNumbers
import TermOS.Device.IOConsoleReadLine
import TermOS.Device.IOGraphics
import TermOS.Device.IOKeyboard
import TermOS.FS.CPIO
import TermOS.FS.CPIOMount
import TermOS.FS.CPIOReads
import TermOS.FS.Newc
import TermOS.FS.VFS
import TermOS.FS.VNodeRead
import TermOS.Kernel.BlockHeader
import TermOS.Kernel.Bootinfo
import TermOS.Kernel.CString
import TermOS.Kernel.HeapClients
import TermOS.Kernel.HeapLayout
import TermOS.Kernel.Rand
import TermOS.Kernel.String
import TermOS.Lib.AbsentTables
import TermOS.Lib.Bitmap
import TermOS.Lib.Blocks
import TermOS.Lib.Bytes
import TermOS.Lib.Coalesced
import TermOS.Lib.Follows
import TermOS.Lib.LineEditor
import TermOS.Lib.LineSession
import TermOS.Lib.Links
import TermOS.Lib.Memory
import TermOS.Lib.Numeral
import TermOS.Lib.OwnedMemory
import TermOS.Lib.Packed
import TermOS.Lib.PathCheck
import TermOS.Lib.RingBuffer
import TermOS.Lib.Run
import TermOS.Lib.Stride
import TermOS.Lib.TableForest
import TermOS.Lib.Triple
import TermOS.Lib.XorLinear
import TermOS.Libterm.Console
import TermOS.Libterm.ConsoleLine
import TermOS.Libterm.ConsoleReadLine
import TermOS.Libterm.Memory
import TermOS.Libterm.MemoryAlignment
import TermOS.Libterm.MemoryCapacity
import TermOS.Libterm.MemoryFrame
import TermOS.Libterm.MemoryGrowth
import TermOS.Libterm.MemoryRun
import TermOS.Libterm.String
import TermOS.OS.FirstLife
import TermOS.OS.HOTLoader
import TermOS.OS.HOTLoaderFrame
import TermOS.OS.HOTLoaderImage
import TermOS.OS.HOTLoaderReads
import TermOS.OS.HOTLoaderSegments
import TermOS.OS.HOTLoaderView
import TermOS.OS.KernelBoot
import TermOS.OS.KernelCode
import TermOS.OS.KernelStack
import TermOS.OS.KeyWait
import TermOS.OS.Lifecycle
import TermOS.OS.MemoryKept
import TermOS.OS.MemoryService
import TermOS.OS.OSLoader
import TermOS.OS.OSLoaderCases
import TermOS.OS.OtherTasks
import TermOS.OS.PrivateMemory
import TermOS.OS.ProcessPages
import TermOS.OS.Processor
import TermOS.OS.ReservedMemory
import TermOS.OS.Scheduler
import TermOS.OS.SchedulerContext
import TermOS.OS.SchedulerEntry
import TermOS.OS.SchedulerFair
import TermOS.OS.SchedulerFreed
import TermOS.OS.SchedulerLost
import TermOS.OS.SchedulerMemory
import TermOS.OS.SchedulerNext
import TermOS.OS.SchedulerProgress
import TermOS.OS.SchedulerRing
import TermOS.OS.SchedulerRun
import TermOS.OS.SchedulerSleep
import TermOS.OS.SchedulerTurn
import TermOS.OS.SchedulerWait
import TermOS.OS.SchedulerYield
import TermOS.OS.SegmentSelectors
import TermOS.OS.SpawnBuilt
import TermOS.OS.SpawnFailure
import TermOS.OS.SpawnRoom
import TermOS.OS.Spinlock
import TermOS.OS.Syscall
import TermOS.OS.SyscallBoundary
import TermOS.OS.SyscallEntry
import TermOS.OS.UserHeaps
import TermOS.OS.UserMemory
import TermOS.Tools.Elf2Hot
import TermOS.Tools.Elf2HotLoad
import TermOS.Tools.Elf2HotSpawn
import TermOS.Userspace.Termosh
import TermOS.VM.AddressSpace
import TermOS.VM.AddressSpaceMap
import TermOS.VM.Boot
import TermOS.VM.DirectMap
import TermOS.VM.EarlyBoot
import TermOS.VM.FrameCount
import TermOS.VM.Heap
import TermOS.VM.HeapArena
import TermOS.VM.HeapCoalesced
import TermOS.VM.HeapRun
import TermOS.VM.KernelLayout
import TermOS.VM.MapPage
import TermOS.VM.Ownership
import TermOS.VM.PMM
import TermOS.VM.PMMInitialize
import TermOS.VM.PMMRun
import TermOS.VM.PTE
import TermOS.VM.PageTable
import TermOS.VM.PageTableStep
import TermOS.VM.PageTurn
import TermOS.VM.ReservedFrames
import TermOS.VM.UserPages
import TermOS.VM.VMM
import TermOS.VM.WalkedPointers
import TermOS.VM.WalkedRuns
