import TalOS.Arch.AcpiTables
import TalOS.Arch.ApHandshakeRuns
import TalOS.Arch.ApStartup
import TalOS.Arch.Bootloader
import TalOS.Arch.CoreTables
import TalOS.Arch.InitPaging
import TalOS.Arch.InterruptCalls
import TalOS.Arch.InterruptHandling
import TalOS.Arch.Interrupts
import TalOS.Arch.IoapicRuns
import TalOS.Arch.IsrTable
import TalOS.Arch.MadtArrays
import TalOS.Arch.MicroTimer
import TalOS.Arch.PageFilling
import TalOS.Arch.PageMapping
import TalOS.Arch.Paging
import TalOS.Arch.PciFiles
import TalOS.Arch.PciScan
import TalOS.Arch.PicRuns
import TalOS.Arch.Rtc
import TalOS.Arch.RtcReads
import TalOS.Arch.SystemConfig
import TalOS.Arch.Systime
import TalOS.Arch.TimeCounter
import TalOS.Arch.Translation
import TalOS.Coresys.FailedCreations
import TalOS.Coresys.FileProgress
import TalOS.Coresys.ImageReads
import TalOS.Coresys.ImageTrees
import TalOS.Coresys.Readdir
import TalOS.Coresys.Rearming
import TalOS.Coresys.Spinlock
import TalOS.Coresys.SplitPaths
import TalOS.Coresys.Stdio
import TalOS.Coresys.Timer
import TalOS.Devs.Keyboard
import TalOS.Devs.SerialSetup
import TalOS.Devs.Vga
import TalOS.Lib.Forest
import TalOS.Libk.Asctime
import TalOS.Libk.Atoi
import TalOS.Libk.BoundedCompare
import TalOS.Libk.FormatArguments
import TalOS.Libk.Itoa
import TalOS.Libk.Memmove
import TalOS.Libk.QueueHead
import TalOS.Libk.Stdout
import TalOS.Libk.Tokens
import TalOS.Libk.TreeChanges
