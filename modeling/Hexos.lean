import Hexos.Arch.Descriptors
import Hexos.Arch.Entry
import Hexos.Arch.Interrupts
import Hexos.Clock.Definitions
import Hexos.Clock.Timer
import Hexos.Clock.Torn
import Hexos.Clock.Wait
import Hexos.Fs.Bounds
import Hexos.Fs.Cat
import Hexos.Fs.Catalogue
import Hexos.Fs.Definitions
import Hexos.Fs.Directory
import Hexos.Fs.Extent
import Hexos.Fs.Format
import Hexos.Fs.Fuel
import Hexos.Fs.Keep
import Hexos.Fs.Mount
import Hexos.Fs.Navigate
import Hexos.Fs.Node
import Hexos.Fs.Output
import Hexos.Fs.PathTable
import Hexos.Fs.Read
import Hexos.Fs.Recreate
import Hexos.Fs.Sample
import Hexos.Fs.Trace
import Hexos.Heap.Block
import Hexos.Heap.Definitions
import Hexos.Heap.Geometry
import Hexos.Heap.Invariant
import Hexos.Heap.Misuse
import Hexos.Heap.Scan
import Hexos.Heap.Totality
import Hexos.Io.Addressing
import Hexos.Io.Ata
import Hexos.Io.AtaTimeout
import Hexos.Io.BlockDevice
import Hexos.Io.Blocks
import Hexos.Io.Disk
import Hexos.Io.Keyboard
import Hexos.Io.Pci
import Hexos.Io.PciTable
import Hexos.Io.Pic
import Hexos.Io.Request
import Hexos.Io.Rtc
import Hexos.Io.Transfer
import Hexos.Lib.Bits
import Hexos.Lib.Linked
import Hexos.Lib.Loop
import Hexos.Lib.Memory
import Hexos.Lib.Moves
import Hexos.Lib.Numeral
import Hexos.Lib.Order
import Hexos.Lib.Outcome
import Hexos.Lib.Storage
import Hexos.Lib.Traced
import Hexos.Lib.Transition
import Hexos.Libc.Definitions
import Hexos.Libc.Itoa
import Hexos.Libc.Printf
import Hexos.Libc.PrintfInt
import Hexos.Libc.Strings
import Hexos.List.Definitions
import Hexos.List.Local
import Hexos.List.Priority
import Hexos.List.Refinement
import Hexos.Mem.Address
import Hexos.Mem.Boot
import Hexos.Mem.Definitions
import Hexos.Mem.Mapped
import Hexos.Mem.MemoryMap
import Hexos.Mem.Pages
import Hexos.Mem.Paging
import Hexos.Mem.Physical
import Hexos.Process.Abstract
import Hexos.Process.Clock
import Hexos.Process.Context
import Hexos.Process.Definitions
import Hexos.Process.Fairness
import Hexos.Process.Invariant
import Hexos.Process.Listing
import Hexos.Process.Mutex
import Hexos.Shell.Boot
import Hexos.Shell.Browser
import Hexos.Shell.Buffers
import Hexos.Shell.Current
import Hexos.Shell.Definitions
import Hexos.Shell.Ledger
import Hexos.Shell.Leftover
import Hexos.Shell.Line
import Hexos.Shell.Screen
import Hexos.Shell.Services
import Hexos.Shell.Session
import Hexos.Shell.Typist
import Hexos.Tty.Backspace
import Hexos.Tty.Definitions
import Hexos.Tty.Editing
import Hexos.Tty.Layout
