import Microboot.Foundation.CString
import Microboot.Foundation.Words
import Microboot.Kern.Stdlib
import Microboot.Kern.Tokens
import Microboot.Kern.Itoa
import Microboot.Foundation.Radix
import Microboot.Kern.Strtoul
import Microboot.Kern.Strtok
import Microboot.Kern.Gets
import Microboot.Kern.Main
import Microboot.Kern.Fs.Fs
import Microboot.Foundation.Device
import Microboot.Kern.Fs.Fat
import Microboot.Kern.Fs.FatRead
import Microboot.Foundation.Extents
import Microboot.Kern.Alloc
import Microboot.Foundation.Run
import Microboot.Kern.AllocRun
import Microboot.Foundation.Probing
import Microboot.Kern.Htbl
import Microboot.Kern.HtblKeys
import Microboot.Foundation.Loop
import Microboot.Kern.Io.Console
import Microboot.Foundation.Terminal
import Microboot.Kern.Io.Putc
import Microboot.Kern.Io.Vga
import Microboot.Kern.Io.Fbcon
import Microboot.Kern.Io.Calls
import Microboot.Kern.Io.FbconGrid
import Microboot.Kern.Io.FbconShows
import Microboot.Kern.Io.Consoles
import Microboot.Kern.Config
import Microboot.Kern.ConfigPaths
import Microboot.Kern.ConfigRun
import Microboot.Kern.ConfigBlocks
import Microboot.Foundation.Numeral
import Microboot.Kern.Printf
import Microboot.Kern.Format
import Microboot.Kern.FormatText
import Microboot.Kern.FormatSinks
import Microboot.Kern.FormatNumber
import Microboot.Kern.FormatRead
import Microboot.Kern.FormatNames
import Microboot.Kern.Io.Driver
import Microboot.Kern.Io.Names
import Microboot.Foundation.Reach
import Microboot.Kern.Io.Subdevices
import Microboot.Kern.Io.Probe
import Microboot.Kern.Io.Disabled
import Microboot.Kern.Io.ProbeOrder
import Microboot.Foundation.Regions
import Microboot.Kern.Exe.Elf
import Microboot.Kern.Heap
import Microboot.Kern.Mod
import Microboot.Kern.Exe.Segments
import Microboot.Kern.Exe.Image
import Microboot.Kern.Exe.SectionNames
import Microboot.Kern.ModEntry
import Microboot.Kern.ModRun
import Microboot.Foundation.Trace
import Microboot.Kern.Fs.FatOpen
import Microboot.Kern.Fs.FatHeap
import Microboot.Kern.Fs.FatSectors
import Microboot.Foundation.History
import Microboot.Foundation.Slots
import Microboot.Kern.Env
import Microboot.Kern.EnvText
import Microboot.Foundation.Links
import Microboot.Kern.List
import Microboot.Foundation.Ring
import Microboot.Kern.Buffer
import Microboot.Kern.Sys.Syscall
import Microboot.Kern.Io.BiosDrive
import Microboot.Kern.Io.BiosRead
import Microboot.Foundation.TwoRuns
import Microboot.Kern.Io.Constructors
import Microboot.Kern.Io.StaleHeap
import Microboot.Kern.Ksymtab
import Microboot.Foundation.Dialogue
import Microboot.Kern.Shell
import Microboot.Foundation.Moves
import Microboot.Foundation.Blits
import Microboot.Foundation.Raster
import Microboot.Kern.Fs.FatChain
import Microboot.Kern.Fs.FatReadOnce
import Microboot.Kern.Fs.DirName
import Microboot.Kern.Fs.DirEnt
import Microboot.Foundation.Trail
import Microboot.Kern.Fs.FatReadCount
import Microboot.Kern.Fs.FatFollow
import Microboot.Kern.Fs.DirList
import Microboot.Kern.Fs.FatRoot
import Microboot.Kern.Fs.FatPaths
import Microboot.Kern.Fs.FsBlocks
import Microboot.Kern.Realloc
import Microboot.Kern.ReallocRun
import Microboot.Kern.Chain
import Microboot.Kern.Fs.ReadFull
import Microboot.Kern.Io.Endrv
import Microboot.Kern.OwnCalls
import Microboot.Kern.Autorun
import Microboot.Foundation.Handler
import Microboot.Kern.Quoted
import Microboot.Kern.Memcpy
import Microboot.Kern.Memblit
import Microboot.Kern.Io.Vesa
import Microboot.Kern.Io.VesaBlit
import Microboot.Kern.Io.VesaModes
import Microboot.Kern.Sys.Gdt
import Microboot.Kern.Io.Keyboard
import Microboot.Kern.Io.Pci
import Microboot.Foundation.Lines
import Microboot.Kern.Io.Conlib
import Microboot.Loader.Load
import Microboot.Kern.Io.Setfnt
import Microboot.Kern.Io.FbconFlush
import Microboot.Kern.Sys.Bios
import Microboot.Foundation.Raster
import Microboot.Kern.Memblit
import Microboot.Foundation.Stack
import Microboot.Kern.Sys.Interrupts
import Microboot.Kern.Sys.InterruptReturn
import Microboot.Kern.Sys.InterruptRun
import Microboot.Foundation.Priority
import Microboot.Kern.Sys.InterruptNest
import Microboot.Kern.Sys.Pic
import Microboot.Kern.Syscalls
import Microboot.User.Crt0
import Microboot.User.Common
