import OsBook.Kernel.TouchTest
import OsBook.Kernel.OwnedMemory
import OsBook.Loader.EfiMain
import OsBook.Image.Consistency
import OsBook.Image.GeometryLoop
import OsBook.Machine.Cpu
import OsBook.Kernel.InterruptEntry
import OsBook.Kernel.SerialLog
import OsBook.Kernel.Idt
import OsBook.Kernel.MapRefinement
import OsBook.Kernel.PoolSize
import OsBook.Kernel.AllocatorExhaustion
import OsBook.Kernel.InterruptStack
import OsBook.Build.KernelImage
import OsBook.Kernel.VectorHandling
import OsBook.Kernel.KernelEntry
import OsBook.Kernel.DeliveryTables
import OsBook.Labs.Scheduler
import OsBook.Labs.SpaceMap
import OsBook.Labs.Channel
import OsBook.Labs.Pipe
import OsBook.Labs.Domain
import OsBook.Kernel.Acknowledge
import OsBook.Kernel.BootImage
import OsBook.Image.Tree
import OsBook.Kernel.BootCompletes
