import TinuOS.Console.Model
import TinuOS.Console.Output
import TinuOS.Devices.E820
import TinuOS.Devices.Edd
import TinuOS.Devices.Serial
import TinuOS.Ide.Accesses
import TinuOS.Ide.Banking
import TinuOS.Ide.Control
import TinuOS.Ide.Model
import TinuOS.Ide.Polling
import TinuOS.Interrupts.Dispatch
import TinuOS.Interrupts.Gates
import TinuOS.Interrupts.Model
import TinuOS.Interrupts.Pic
import TinuOS.Interrupts.Segments
import TinuOS.Interrupts.Ticks
import TinuOS.Kernel.Boot
import TinuOS.Kernel.Model
import TinuOS.Kmem.Alone
import TinuOS.Kmem.FreeList
import TinuOS.Kmem.Linearizable
import TinuOS.Kmem.Model
import TinuOS.Kmem.Progress
import TinuOS.Kmem.Seeding
import TinuOS.Kmem.Session
import TinuOS.Kmem.Shared
import TinuOS.Library.Adjoining
import TinuOS.Library.Chain
import TinuOS.Library.Copy
import TinuOS.Library.Fuel
import TinuOS.Library.Memory
import TinuOS.Library.Numeral
import TinuOS.Library.Output
import TinuOS.Library.Page
import TinuOS.Library.Pool
import TinuOS.Library.Requests
import TinuOS.Library.Reverse
import TinuOS.Library.Run
import TinuOS.Library.Screen
import TinuOS.Library.Significand
import TinuOS.Library.Stack
import TinuOS.Library.Text
import TinuOS.Library.Word
import TinuOS.Monitor.Bounds
import TinuOS.Monitor.Buffer
import TinuOS.Monitor.Colour
import TinuOS.Monitor.ControlCharacters
import TinuOS.Monitor.Cursor
import TinuOS.Monitor.Expansion
import TinuOS.Monitor.FormatEnd
import TinuOS.Monitor.HardwareCursor
import TinuOS.Monitor.Itoa
import TinuOS.Monitor.Kprintf
import TinuOS.Monitor.Layout
import TinuOS.Monitor.Model
import TinuOS.Monitor.Prints
import TinuOS.Monitor.Session
import TinuOS.Monitor.WriteHex
import TinuOS.Monitor.Written
import TinuOS.Paging.Boot
import TinuOS.Paging.Coverage
import TinuOS.Paging.Encoding
import TinuOS.Paging.Exhaustion
import TinuOS.Paging.MapLoop
import TinuOS.Paging.Mapping
import TinuOS.Paging.Model
import TinuOS.Paging.Tables
import TinuOS.Paging.Walks
import TinuOS.Printk.Decimal
import TinuOS.Printk.Format
import TinuOS.Printk.Hexadecimal
import TinuOS.Printk.Model
import TinuOS.Printk.Numbers
import TinuOS.Printk.Terminated
import TinuOS.Rtc.Display
import TinuOS.Rtc.Interrupts
import TinuOS.Rtc.Model
import TinuOS.Rtc.OnScreen
import TinuOS.Rtc.Output
import TinuOS.Rtc.Reading
import TinuOS.Spinlock.Exclusion
import TinuOS.Spinlock.Model
import TinuOS.Spinlock.Nesting
import TinuOS.System.Model
import TinuOS.System.Regions
import TinuOS.System.Strings
import TinuOS.Timer.Model
import TinuOS.Timer.Pit
import TinuOS.Timer.Sleep
import TinuOS.Trap.Context
import TinuOS.Trap.Exceptions
import TinuOS.Trap.Model
import TinuOS.Trap.Registers
import TinuOS.Trap.Transparency
import TinuOS.Umalloc.Blocks
import TinuOS.Umalloc.Break
import TinuOS.Umalloc.Coalesce
import TinuOS.Umalloc.Disjointness
import TinuOS.Umalloc.Extents
import TinuOS.Umalloc.Failure
import TinuOS.Umalloc.Freeing
import TinuOS.Umalloc.Header
import TinuOS.Umalloc.Invariant
import TinuOS.Umalloc.Model
import TinuOS.Umalloc.NullReads
import TinuOS.Umalloc.Operations
import TinuOS.Umalloc.Ownership
import TinuOS.Umalloc.Release
import TinuOS.Umalloc.Rounding
import TinuOS.Umalloc.Runs
import TinuOS.Umalloc.Session
import TinuOS.Umalloc.Termination
