import B2OS.Lib.Run
import B2OS.Lib.Budget
import B2OS.Lib.BusProg
import B2OS.Lib.ByteTable
import B2OS.Lib.WrapStack
import B2OS.Lib.Ring
import B2OS.Lib.ByteMemory
import B2OS.Lib.BlockChain
import B2OS.Lib.BlockHeader
import B2OS.Lib.BlockArena
import B2OS.Lib.StaleLinks
import B2OS.Lib.DigitChain
import B2OS.Lib.WordArray
import B2OS.Lib.Raster
import B2OS.Lib.Bitmap
import B2OS.Lib.RealMode
import B2OS.Lib.TextBuffer
import B2OS.Lib.Fat12
import B2OS.Apple2.Cpu
import B2OS.Apple2.Run
import B2OS.Apple2.Mos6502
import B2OS.Apple2.Refine
import B2OS.Apple2.Arms
import B2OS.Apple2.CycleCharge
import B2OS.Apple2.Device
import B2OS.Apple2.Machine
import B2OS.Apple2.DiskII
import B2OS.Apple2.Stepper
import B2OS.Apple2.DiskLatch
import B2OS.Apple2.BankedMemory
import B2OS.Apple2.Stack
import B2OS.Apple2.WordAccess
import B2OS.Apple2.UnusedFlag
import B2OS.Apple2.LanguageCard
import B2OS.Apple2.Decimal
import B2OS.Apple2.PointerFetch
import B2OS.Apple2.Render
import B2OS.Apple2.HiRes
import B2OS.Apple2.Screen
import B2OS.Apple2.ScreenRun
import B2OS.Kernel.Malloc
import B2OS.Kernel.MallocInv
import B2OS.Kernel.MallocLayout
import B2OS.Kernel.MallocRun
import B2OS.Kernel.Heap
import B2OS.Kernel.HeapInv
import B2OS.Kernel.HeapRun
import B2OS.Kernel.HeapForward
import B2OS.Kernel.HeapSearch
import B2OS.Kernel.HeapReach
import B2OS.Kernel.HeapEnds
import B2OS.Kernel.HeapSizes
import B2OS.Kernel.Confined
import B2OS.Kernel.MallocForward
import B2OS.Kernel.MallocLimits
import B2OS.Kernel.MallocClient
import B2OS.Kernel.Realloc
import B2OS.Kernel.Shared
import B2OS.Kernel.Paging
import B2OS.Kernel.Console
import B2OS.Kernel.ConsoleText
import B2OS.Kernel.Itoa
import B2OS.Kernel.ItoaLaw
import B2OS.Kernel.Printf
import B2OS.Kernel.PrintfLaw
import B2OS.Kernel.Timer
import B2OS.Kernel.Interrupts
import B2OS.Kernel.DrawRect
import B2OS.Boot.DiskRead
import B2OS.Boot.SectorRead
import B2OS.Boot.LoadFile
import B2OS.Boot.SearchFile
import B2OS.Boot.LoadFat
import B2OS.Apple2.VideoRead
import B2OS.Lib.Trail
import B2OS.Apple2.Session
import B2OS.Apple2.CatchUp
import B2OS.Apple2.FontBitmap
import B2OS.Apple2.FontBitmapLaw
import B2OS.Apple2.GuestRun
import B2OS.Apple2.SessionRun
import B2OS.Lib.Pic8259
import B2OS.Kernel.Irq
import B2OS.Kernel.Idt
import B2OS.Lib.Selector
import B2OS.Apple2.DiskController
import B2OS.Kernel.MallocStack
import B2OS.Apple2.FontTables
import B2OS.Boot.FatCopy
import B2OS.Boot.NamedFile
import B2OS.Boot.MemoryMap
import B2OS.Boot.SecondStage
import B2OS.Boot.BootLoader
import B2OS.Lib.MachineCode
import B2OS.Apple2.GuestCode
import B2OS.Apple2.MonitorWait
import B2OS.Apple2.GuestCall
import B2OS.Apple2.MonitorText
import B2OS.Apple2.MonitorHome
import B2OS.Kernel.KernelLoop
