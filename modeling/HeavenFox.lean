import HeavenFox.Kernel.Sleep
import HeavenFox.Common.RadixTreeOwned
import HeavenFox.Common.TrieTreeErrors
import HeavenFox.Kernel.MailboxGuarantees
import HeavenFox.Kernel.Semaphore
import HeavenFox.Kernel.Wait
import HeavenFox.Kernel.WorkqueueRuns
import HeavenFox.Platform.IrqDomainList
import HeavenFox.Platform.IrqTypes
import HeavenFox.Platform.OfDecode
import HeavenFox.Platform.ChrdevRegister
import HeavenFox.Platform.Kobjmap
import HeavenFox.Platform.KobjectRuns
import HeavenFox.Platform.BusBindings
import HeavenFox.Platform.GpioRuns
import HeavenFox.Kernel.SchedStats
import HeavenFox.Kernel.ThreadFailure
import HeavenFox.Kernel.MailboxNames
import HeavenFox.Platform.FwkMempool
import HeavenFox.Kernel.SchedFailure
import HeavenFox.Kernel.SchedRoundRobin
import HeavenFox.Platform.FwkClkRuns
import HeavenFox.Common.TimerRuns
import HeavenFox.Platform.OfPhandle
import HeavenFox.Platform.OfArrays
import HeavenFox.Common.BitmapRows
import HeavenFox.Platform.IrqFailure
import HeavenFox.Platform.IrqInit
import HeavenFox.Platform.OfDevice
import HeavenFox.Platform.ChrdevUnregister
import HeavenFox.Platform.FcntlCalls
import HeavenFox.Common.FmtBounded
import HeavenFox.Common.FmtMeaning
import HeavenFox.Platform.PinctrlStates
import HeavenFox.Platform.SdcardBlocks
import HeavenFox.Drivers.At24cxx
import HeavenFox.Platform.DispLine
import HeavenFox.Platform.DispWord
import HeavenFox.Platform.Bitmap
import HeavenFox.Arch.GpcIrq
import HeavenFox.Arch.Lib1funcs
import HeavenFox.Drivers.ImxGpiochip
import HeavenFox.Platform.FwkClkLookup
import HeavenFox.Drivers.ImxI2cFrequency
import HeavenFox.Drivers.ImxI2cRead
import HeavenFox.Drivers.ImxI2cXfer
import HeavenFox.Drivers.Tsc2007
import HeavenFox.Drivers.At24cxxProbe
import HeavenFox.Drivers.ImxIomuxcProbe
import HeavenFox.Common.SimpleDelay
import HeavenFox.Common.SignedDivision
import HeavenFox.Common.BitWords
import HeavenFox.Kernel.ThreadStack
import HeavenFox.Platform.KobjectRef
import HeavenFox.Rootfs.FatRead
import HeavenFox.Rootfs.FatSessions
