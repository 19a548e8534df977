/-
  Kern/Shell.lean --- the shell's own commands, kern/main.c.

  A command gets `argc` and `argv` and works by calling the rest of the kernel.
  It is modelled as a dialogue: what it reads of `argv` and of the memory, what
  it stores and what it calls are its requests, and the answers (a pointer, a
  byte, what a call returns) are whatever the environment gives, so that nothing
  is assumed of the code outside.  A pointer is its address.

  The commands whose loop may go on for ever take the number of its rounds that
  are followed.  The question is which entries of `argv` a command reads: only
  those in front of `argc`, for every command but two.
-/
import Microboot.Foundation.Dialogue
import Microboot.Kern.Main

set_option autoImplicit false

namespace Microboot.Kern.Shell

open Microboot.Foundation

/-! ## What a command does to the world -/

/-- What the commands call. -/
inductive Callee where
  | printf | puts | snprintf | debugf | clBox
  | strlen | strcat | strcmp | memset | atoi | strtoul | itoa
  | kalloc | kallocz | kfree | allocUsed | allocTotal
  | consoleClear | consoleColour | setLogLevel | dumpMemory
  | keyboardAvailable | keyboardGetchar | keyboardPollScancode
  | kticks | hlt | kpoweroff | breakpoint
  | fsOpen | fsRead | fsReadFull | fsClose
  | modLoad | modList | modSymList
  | cpuidGetVendor | cpuidGetMaxId | cpuidVerboseDump
  | getRootenv | envPut
  | configGettype | configGetint | configGetstr | configGetobj | configSetstr
  | deviceGetByName | setparam | deviceForeach
  | driverGetByModname | driverEnable | driverForeach
  | testMemcpy | testMemset | testKallocz | testHtbl | testHtblExpand
  deriving DecidableEq, Repr

/-- The objects and functions that are passed by their name. -/
inductive Place where
  | console | currentDir | mainScratch
  | buf | infobuf | size | req | colours
  | lsdevCallback | lsdrvCallback
  deriving DecidableEq, Repr

/-- An argument of a call. -/
inductive Arg where
  | value (v : Int)
  | text (s : String)
  | place (p : Place)
  deriving DecidableEq, Repr

/-- One access of a command to what is outside of it. -/
inductive Access where
  /-- reads the pointer `argv[i]` -/
  | readArgv (i : Int)
  /-- reads the byte at an address -/
  | load (address : Int)
  /-- stores at an address -/
  | store (address v : Int)
  /-- calls a function -/
  | call (callee : Callee) (args : List Arg)
  /-- reads what the last call has left in an object it was given -/
  | output (p : Place)
  /-- `elf_run(elf, count, argv + first)` -/
  | elfRun (elf count first : Int)
  deriving DecidableEq, Repr

/-- A part of a command; the answer to an access is one value. -/
abbrev ShellM (α : Type) : Type := Dialogue Access Int α

/-- `argv[i]` -/
def readArgv (i : Int) : ShellM Int := Dialogue.request (.readArgv i)

/-- `*(uint8_t*)address` -/
def load (address : Int) : ShellM Int := do
  let v ← Dialogue.request (.load address)
  return v % 2 ^ 8

/-- `*address = v` -/
def store (address v : Int) : ShellM Unit := do
  let _ ← Dialogue.request (.store address v)
  return ()

/-- A call, and what it returns. -/
def call (callee : Callee) (args : List Arg) : ShellM Int :=
  Dialogue.request (.call callee args)

/-- A call of which nothing is used. -/
def perform (callee : Callee) (args : List Arg) : ShellM Unit := do
  let _ ← call callee args
  return ()

/-- What the last call has left in `p`. -/
def output (p : Place) : ShellM Int := Dialogue.request (.output p)

def printf (format : String) (args : List Arg) : ShellM Unit :=
  perform .printf (.text format :: args)

def puts (text : String) : ShellM Unit := perform .puts [.text text]

/-- The value of a `uint32_t`, a `size_t` or an address. -/
def word (v : Int) : Int := v % 2 ^ 32

/-! ## Loops -/

section Loops

variable {β : Type}

/-- `for (int i = lo; i < hi; i++) acc = body(i, acc);` -/
def forInt (lo hi : Int) (acc : β) (body : Int → β → ShellM β) : ShellM β :=
  (List.range (hi - lo).toNat).foldlM (fun acc (k : Nat) => body (lo + k) acc) acc

/-- `while (1) { if (round()) break; }`, followed for so many rounds. -/
def untilTrue (round : ShellM Bool) : Nat → ShellM Unit
  | 0 => .cut
  | rounds + 1 => do
    if (← round) = true then
      return ()
    else
      untilTrue round rounds

/-- One call for each line of a text. -/
def forLines (print : String → ShellM Unit) : List String → ShellM Unit
  | [] => pure ()
  | line :: lines => do
    print line
    forLines print lines

end Loops

/-- `if (argc != n) { printf(usage, argv[0]); return; }`, and then the rest. -/
def expectArgs (argc n : Int) (usage : String) (rest : ShellM Unit) : ShellM Unit := do
  if argc ≠ n then
    printf usage [.value (← readArgv 0)]
  else
    rest

/-! ## The commands -/

/-- `colours` -/
def colours : List String :=
  ["black", "blue", "green", "cyan", "red", "purple", "brown", "gray", "dgrey", "lblue",
    "lgreen", "lcyan", "lred", "lpurple", "yellow", "white"]

/-- The first of the names that is `str`, counted from `i`. -/
def colourAmong (str : Int) : List String → Nat → ShellM Nat
  | [], _ => pure 0
  | colour :: rest, i => do
    if (← call .strcmp [.text colour, .value str]) = 0 then
      return i
    else
      colourAmong str rest (i + 1)

/-- `colour_from_str(str)` -/
def colourFromStr (str : Int) : ShellM Nat := colourAmong str colours 0

def uptime : ShellM Unit := do
  let ticks := word (← call .kticks [])
  printf "Up approximately %d.%d seconds\n" [.value (ticks / 100), .value (ticks % 100)]

def clear : ShellM Unit := perform .consoleClear [.place .console]

def setcolour (argc : Int) : ShellM Unit :=
  expectArgs argc 3 "Usage: %s fg_colour bg_colour\n" do
    let fg ← colourFromStr (← readArgv 1)
    let bg ← colourFromStr (← readArgv 2)
    perform .consoleColour [.place .console, .value ((fg ||| bg <<< 4 : Nat) : Int)]
    perform .consoleClear [.place .console]

/-- `FBDEV_SETRES` -/
def fbdevSetres : Int := 0

def setres (argc : Int) : ShellM Unit :=
  expectArgs argc 4 "Usage: %s xres yres bpp\n" do
    let xres ← call .atoi [.value (← readArgv 1)]
    let yres ← call .atoi [.value (← readArgv 2)]
    let bpp ← call .atoi [.value (← readArgv 3)]
    let dev ← call .deviceGetByName [.text "vesafb0"]
    if dev = 0 then
      return ()
    else
      -- the request is passed by its address, with these fields
      perform .setparam [.value dev, .value fbdevSetres, .place .req, .value xres, .value yres,
        .value bpp]

/-- `FBCON_SETPARAM_COLOURSCHEME` -/
def fbconSetparamColourscheme : Int := 1

/-- `FBCON_SETPARAM_FONT` -/
def fbconSetparamFont : Int := 2

/-- `sizeof(struct fbcon_font)` -/
def fontSize : Int := 8

def setfnt (argc : Int) : ShellM Unit :=
  expectArgs argc 2 "Usage: %s font.fnt\n" do
    let dev ← call .deviceGetByName [.text "fbcon0"]
    if dev = 0 then
      return ()
    else
      let file ← call .fsOpen [.value (← readArgv 1)]
      let font ← call .kalloc [.value fontSize]
      if file ≠ 0 then
        let data ← call .fsReadFull [.value file, .place .size]
        let size ← output .size
        if data = 0 ∨ size = 0 then
          printf "Unable to read font\n" []
          perform .fsClose [.value file]
        else
          perform .debugf [.text "read %d, data@%p", .value size, .value data]
          let charWidth ← load data
          store (font + 4) charWidth
          let charHeight ← load (data + 1)
          store (font + 6) charHeight
          store (font + 5) (charWidth / 8 + if charWidth % 8 ≠ 0 then 1 else 0)
          -- skip over the header
          store font (data + 4)
          perform .setparam [.value dev, .value fbconSetparamFont, .value font]
          perform .fsClose [.value file]
      else
        printf "No such file or directory\n" []

/-- The usage message of `setscheme`. -/
def setschemeUsage (argc : Int) : ShellM Unit := do
  if argc ≠ 17 then
    printf "Usage: %s c1 c2 c3 c4 c5 c6 c7 c8 c9 c10 c11 c12 c13 c14 c15 c16"
      [.value (← readArgv 0)]
    printf "       where c1-c16 are the 16 colours in order set out by `listcolours`\n" []

/-- `setscheme(argc, argv)`: the usage message does not end it. -/
def setscheme (argc : Int) : ShellM Unit := do
  setschemeUsage argc
  let scheme ← forInt 0 16 [] fun i scheme => do
    let colour ← call .strtoul [.value (← readArgv (i + 1)), .value 0, .value 16]
    return scheme ++ [word colour]
  let fbcon ← call .deviceGetByName [.text "fbcon0"]
  if fbcon ≠ 0 then
    perform .setparam ([.value fbcon, .value fbconSetparamColourscheme, .place .colours] ++
      scheme.map .value)

def listcolours : ShellM Unit := forLines (fun colour => printf "%s\n" [.text colour]) colours

/-- The body of `clock`'s loop: whether `q` was pressed, and otherwise the time. -/
def clockRound : ShellM Bool := do
  let quit ← do
    if (← call .keyboardAvailable []) ≠ 0 then
      let c ← call .keyboardGetchar [.value 0]
      -- 'q'
      pure (decide (c = 113))
    else
      pure false
  if quit = true then
    return true
  else
    let ticks := word (← call .kticks [])
    printf "\r%d.%d" [.value (ticks / 100), .value (ticks % 100)]
    perform .hlt []
    return false

def clock (rounds : Nat) : ShellM Unit := do
  puts "Clock demo. 'q' to exit\n"
  untilTrue clockRound rounds
  puts "\n"

def dino : ShellM Unit :=
  forLines puts
    ["                         .       .\n",
      "                        / `.   .' \\\n",
      "                .---.  <    > <    >  .---.\n",
      "                |    \\  \\ - ~ ~ - /  /    |\n",
      "                 ~-..-~             ~-..-~\n",
      "             \\~~~\\.'                    `./~~~/\n",
      "              \\__/                        \\__/\n",
      "               /                  .-    .  \\\n",
      "        _._ _.-    .-~ ~-.       /       \x7d   \\/~~~/\n",
      "    _.-'q  \x7d~     /       \x7d     \x7b        ;    \\__/\n",
      "   \x7b'__,  /      (       /      \x7b       /      `. ,~~|   .     .\n",
      "    `''''='~~-.__(      /_      |      /- _      `..-'   \\\\   //\n",
      "                / \\   =/  ~~--~~\x7b    ./|    ~-.     `-..__\\\\_//_.-'\n",
      "               \x7b   \\  +\\         \\  =\\ (        ~ - . _ _ _..---~\n",
      "               |  | \x7b   \x7d         \\   \\_\\\n",
      "              '---.o___,'       .o___,'\n"]

def help : ShellM Unit :=
  forLines puts
    ["Help Summary. WIP commands marked with [WIP] or if very unstable, not listed.\n",
      "uptime      - display uptime in seconds\n",
      "mem         - get memory status\n",
      "cpuid       - display CPU info\n",
      "brk         - cause a #BP interrupt\n",
      "clear       - clear the display\n",
      "clock       - updating clock demo\n",
      "setcolour   - set the display colour\n",
      "listcolours - list all available colours\n",
      "scancode    - display raw scancodes\n",
      "verb        - set log verbosity\n",
      "read        - print out the contents of a file or directory\n",
      "poweroff    - shut down the computer\n",
      "exit        - alias to poweroff\n",
      "help        - this help message\n"]

/-- The body of `scancode`'s loop: whether the key was escape. -/
def scancodeRound : ShellM Bool := do
  let code := (← call .keyboardPollScancode []) % 2 ^ 8
  perform .itoa [.value code, .place .mainScratch, .value 10]
  perform .puts [.place .mainScratch]
  puts "\n"
  return decide (code = 1)

def scancode (rounds : Nat) : ShellM Unit := do
  puts "esc to exit\n"
  untilTrue scancodeRound rounds

def verb (argc : Int) : ShellM Unit :=
  expectArgs argc 2 "Usage: %s log_level\n" do
    let level ← call .atoi [.value (← readArgv 1)]
    perform .setLogLevel [.value level]

def dumpmem (argc : Int) : ShellM Unit := do
  if argc ≠ 3 then
    printf "Usage: %s addr len\n" [.value (← readArgv 0)]
    printf "       addr and len must be in hex, with no '0x' prefix.\n" []
  else
    let addr ← call .strtoul [.value (← readArgv 1), .value 0, .value 16]
    let len ← call .strtoul [.value (← readArgv 2), .value 0, .value 16]
    perform .dumpMemory [.value (word addr), .value (word len)]

def brk : ShellM Unit := perform .breakpoint []

def pwd : ShellM Unit := printf "%s\n" [.place .currentDir]

/-- The body of `read`'s loop: whether the file has come to its end. -/
def readRound (file : Int) : ShellM Bool := do
  let rc ← call .fsRead [.value file, .place .buf, .value 512]
  if rc > 0 then
    printf "%s" [.place .buf]
    perform .memset [.place .buf, .value 0, .value 513]
    return false
  else
    return true

def read (rounds : Nat) (argc : Int) : ShellM Unit :=
  expectArgs argc 2 "Usage: %s file_name\n" do
    let file ← call .fsOpen [.value (← readArgv 1)]
    if file ≠ 0 then
      perform .memset [.place .buf, .value 0, .value 513]
      untilTrue (readRound file) rounds
      perform .fsClose [.value file]
    else
      printf "No such file or directory\n" []

def echo (argc : Int) : ShellM Unit := do
  forInt 1 (argc - 1) () fun i _ => do
    printf "%s " [.value (← readArgv i)]
  printf "%s\n" [.value (← readArgv (argc - 1))]

def poweroff : ShellM Unit := perform .kpoweroff []

def mem : ShellM Unit := do
  let used := word (← call .allocUsed [.value 0])
  let allocated := word (← call .allocUsed [.value 1])
  let total := word (← call .allocTotal [])
  printf "Memory status:\n" []
  printf "Used      = %d bytes\n" [.value used]
  printf "Allocated = %d bytes (includes freed)\n" [.value allocated]
  printf "Available = %d bytes\n" [.value (word (total - used))]
  printf "Total     = %d bytes\n" [.value total]

/-- What `ldmod` and `exec` have in common: the file is read and handed to
`use`. -/
def withModule (argc : Int) (use : Int → ShellM Unit) : ShellM Unit :=
  expectArgs argc 2 "Usage: %s file_name\n" do
    let handle ← call .fsOpen [.value (← readArgv 1)]
    if handle = 0 then
      printf "No such file\n" []
    else
      let module ← call .fsReadFull [.value handle, .place .size]
      use module
      perform .fsClose [.value handle]
      perform .kfree [.value module]

def ldmod (argc : Int) : ShellM Unit :=
  withModule argc fun module => perform .modLoad [.value module]

def exec (argc : Int) : ShellM Unit :=
  withModule argc fun module => do
    let _ ← Dialogue.request (.elfRun module (argc - 1) 1)
    return ()

def lsmod : ShellM Unit := perform .modList []

def lssym : ShellM Unit := perform .modSymList []

def cmdCpuid : ShellM Unit := do
  perform .cpuidGetVendor [.place .buf]
  printf "vendor         %s\n" [.place .buf]
  printf "max_id         %d\n" [.value (← call .cpuidGetMaxId [])]
  perform .cpuidVerboseDump []

/-- `'"'` -/
def quoteChar : Int := 34

/-- What `setenv` and `setconf` have in common: the arguments from `argv[2]` on
are joined by spaces in a buffer, and the value has to stand in quotes.  Returns
the buffer, the closing quote overwritten; `none` if a message was printed. -/
def quotedValue (argc : Int) : ShellM (Option Int) := do
  let bufsz ← forInt 2 argc 0 fun i bufsz => do
    return word (bufsz + (← call .strlen [.value (← readArgv i)]) + 1)
  let buf ← call .kallocz [.value bufsz]
  forInt 2 (argc - 1) () fun i _ => do
    perform .strcat [.value buf, .value (← readArgv i)]
    perform .strcat [.value buf, .text " "]
  -- `argc[argv - 1]`
  perform .strcat [.value buf, .value (← readArgv (argc - 1))]
  if (← load buf) ≠ quoteChar then
    printf "value must start with quote\n" []
    perform .kfree [.value buf]
    return none
  else if (← load (word (buf + word (bufsz - 2)))) ≠ quoteChar then
    printf "value must end with quote\n" []
    perform .kfree [.value buf]
    return none
  else
    store (word (buf + word (bufsz - 2))) 0
    return some buf

def setenv (argc : Int) : ShellM Unit := do
  if argc < 2 then
    printf "Usage: %s var \"value\"\n" [.value (← readArgv 0)]
  else
    match ← quotedValue argc with
    | none => return ()
    | some buf =>
      let rootenv ← call .getRootenv []
      perform .envPut [.value rootenv, .value (← readArgv 1), .value (buf + 1)]

def setconf (argc : Int) : ShellM Unit := do
  if argc < 2 then
    printf "Usage: %s namespace:key \"value\"\n" [.value (← readArgv 0)]
  else
    match ← quotedValue argc with
    | none => return ()
    | some buf =>
      perform .configSetstr [.value (← readArgv 1), .value (buf + 1)]
      perform .kfree [.value buf]

/-- `CONFIG_TYPE_INT` -/
def configTypeInt : Int := 1

/-- `CONFIG_TYPE_STR` -/
def configTypeStr : Int := 2

/-- `CONFIG_TYPE_OBJ` -/
def configTypeObj : Int := 3

/-- `getconf(argc, argv)`: the usage message is for `argc < 1`. -/
def getconf (argc : Int) : ShellM Unit := do
  if argc < 1 then
    printf "Usage: %s namespace:key\n" [.value (← readArgv 0)]
  else
    let type ← call .configGettype [.value (← readArgv 1)]
    if type = 0 then
      printf "Key does not exist\n" []
    else if type = configTypeInt then
      let ival ← call .configGetint [.value (← readArgv 1)]
      printf "INT     %s = %d (hex %x)\n" [.value (← readArgv 1), .value ival, .value ival]
    else if type = configTypeStr then
      let sval ← call .configGetstr [.value (← readArgv 1)]
      printf "STRING  %s = \"%s\"\n" [.value (← readArgv 1), .value sval]
    else if type = configTypeObj then
      let oval ← call .configGetobj [.value (← readArgv 1)]
      printf "OBJECT  %s = %p\n" [.value (← readArgv 1), .value oval]
    else
      printf "Unknown type %d" [.value type]

/-- `ver(argc, argv)`, with the names that stand for an unknown build. -/
def ver : ShellM Unit :=
  printf "%s - %s (built %s)\n"
    [.text "microboot", .text "no_git_revision", .text "__DATE__ __TIME__"]

/-- `lsdev(argc, argv)`; the callback prints a device's name. -/
def lsdev : ShellM Unit := perform .deviceForeach [.place .lsdevCallback]

/-- `lsdrv(argc, argv)`; the callback prints a driver's names and address. -/
def lsdrv : ShellM Unit := do
  printf "%-32s %-8s %s\n" [.text "name", .text "modname", .text "ptr"]
  perform .driverForeach [.place .lsdrvCallback]

/-- The offset of `disabled` in `struct driver`. -/
def driverDisabled : Int := 89

def endrv (argc : Int) : ShellM Unit :=
  expectArgs argc 2 "Usage: %s driver_modname\n" do
    let driver ← call .driverGetByModname [.value (← readArgv 1)]
    if driver = 0 then
      printf "No such driver '%s'\n" [.value (← readArgv 1)]
    else
      if (← load (driver + driverDisabled)) = 0 then
        printf "Driver '%s' already enabled\n" [.value (← readArgv 1)]
      perform .driverEnable [.value driver]

/-- `logo(argc, argv)`, which is `display_logo()`. -/
def logo : ShellM Unit := do
  printf "\n" []
  forLines (fun line => printf line [.text ""])
    ["%-16s           ##                            ##\n",
      "%-16s           ##                            ##\n",
      "%-16s ##    ##  ########   #######   ####### #####\n",
      "%-16s ##    ##  ##    ### ###   ### ###   ### ##\n",
      "%-16s ##    ##  ##     ## ##     ## ##     ## ##\n",
      "%-16s ##    ##  ###   ### ###   ### ###   ### ##\n",
      "%-16s # ####  # ########   #######   #######  #####\n",
      "%-16s ##\n",
      "%-16s ##\n"]

/-- `CL_NONE` -/
def clNone : Int := 0

/-- `sysinfo(argc, argv)`, which is `display_sysinfo()`; 42 is `'*'`. -/
def sysinfo : ShellM Unit := do
  perform .snprintf [.place .infobuf, .value 255,
    .text ("SYSTEM SUMMARY microboot\n\nbranch        no_branch\n" ++
      "commit-id     no_git_revision\nbuild-date    __DATE__ __TIME__\n")]
  perform .clBox [.value 42, .value 42, .value 42, .value 80, .place .infobuf, .value clNone]

/-- `selftest(argc, argv)` of kern/selftest.c -/
def selftest : ShellM Unit := do
  perform .testMemcpy []
  perform .testMemset []
  perform .testKallocz []
  perform .testHtbl []
  perform .testHtblExpand []

/-! ## The table -/

/-- The characters of a string constant. -/
def chars (s : String) : List UInt8 := s.toList.map fun c => UInt8.ofNat c.toNat

/-- `struct command`; `fn` also takes how many rounds of an unbounded loop are
followed. -/
structure Command where
  name : List UInt8
  fn : Nat → Int → ShellM Unit

/-- `commands` -/
def commands : List Command :=
  [{ name := chars "exec", fn := fun _ => exec },
    { name := chars "lsmod", fn := fun _ _ => lsmod },
    { name := chars "ldmod", fn := fun _ => ldmod },
    { name := chars "lssym", fn := fun _ _ => lssym },
    { name := chars "lsdev", fn := fun _ _ => lsdev },
    { name := chars "lsdrv", fn := fun _ _ => lsdrv },
    { name := chars "endrv", fn := fun _ => endrv },
    { name := chars "uptime", fn := fun _ _ => uptime },
    { name := chars "mem", fn := fun _ _ => mem },
    { name := chars "ver", fn := fun _ _ => ver },
    { name := chars "cpuid", fn := fun _ _ => cmdCpuid },
    { name := chars "clear", fn := fun _ _ => clear },
    { name := chars "clock", fn := fun rounds _ => clock rounds },
    { name := chars "setres", fn := fun _ => setres },
    { name := chars "setfnt", fn := fun _ => setfnt },
    { name := chars "setcolour", fn := fun _ => setcolour },
    { name := chars "listcolours", fn := fun _ _ => listcolours },
    { name := chars "dino", fn := fun _ _ => dino },
    { name := chars "scancode", fn := fun rounds _ => scancode rounds },
    { name := chars "verb", fn := fun _ => verb },
    { name := chars "brk", fn := fun _ _ => brk },
    { name := chars "dumpmem", fn := fun _ => dumpmem },
    { name := chars "read", fn := read },
    { name := chars "pwd", fn := fun _ _ => pwd },
    { name := chars "echo", fn := fun _ => echo },
    { name := chars "setenv", fn := fun _ => setenv },
    { name := chars "setconf", fn := fun _ => setconf },
    { name := chars "getconf", fn := fun _ => getconf },
    { name := chars "poweroff", fn := fun _ _ => poweroff },
    { name := chars "exit", fn := fun _ _ => poweroff },
    { name := chars "help", fn := fun _ _ => help },
    { name := chars "logo", fn := fun _ _ => logo },
    { name := chars "sysinfo", fn := fun _ _ => sysinfo },
    { name := chars "selftest", fn := fun _ _ => selftest },
    { name := chars "setscheme", fn := fun _ => setscheme }]

/-- `invoke_internal(name, argc, argv)`; `strcmp` compares the names. -/
def invokeInternal (rounds : Nat) (name : List UInt8) (argc : Int) : ShellM Bool := do
  match commands.find? fun c => c.name = name with
  | some c =>
    c.fn rounds argc
    return true
  | none => return false

/-! ## Reading in front of `argc` -/

/-- A read of `argv` is of one of its `argc` entries; so are the entries that a
program is handed. -/
def InArgs (argc : Int) : Access → Prop
  | .readArgv i => 0 ≤ i ∧ i < argc
  | .elfRun _ count first => 0 ≤ first ∧ first + count ≤ argc
  | _ => True

/-- All that a command reads of `argv`, in every run, is in front of `argc`. -/
def ReadsArgs {α : Type} (argc : Int) (x : ShellM α) : Prop :=
  x.Every (InArgs argc) fun _ => True

section Rules

variable {α β : Type} {argc i : Int} {Q : α → Prop}

@[simp] theorem every_readArgv {Q : Int → Prop} :
    (readArgv i).Every (InArgs argc) Q ↔ (0 ≤ i ∧ i < argc) ∧ ∀ p, Q p := Iff.rfl

@[simp] theorem every_call {c : Callee} {args : List Arg} {Q : Int → Prop} :
    (call c args).Every (InArgs argc) Q ↔ ∀ v, Q v := by
  simp [call, InArgs]

@[simp] theorem every_perform {c : Callee} {args : List Arg} {Q : Unit → Prop} :
    (perform c args).Every (InArgs argc) Q ↔ Q () := by
  simp [perform]

@[simp] theorem every_output {p : Place} {Q : Int → Prop} :
    (output p).Every (InArgs argc) Q ↔ ∀ v, Q v := by
  simp [output, InArgs]

@[simp] theorem every_store {address v : Int} {Q : Unit → Prop} :
    (store address v).Every (InArgs argc) Q ↔ Q () := by
  simp [store, InArgs]

@[simp] theorem every_printf {format : String} {args : List Arg} {Q : Unit → Prop} :
    (printf format args).Every (InArgs argc) Q ↔ Q () := every_perform

@[simp] theorem every_puts {text : String} {Q : Unit → Prop} :
    (puts text).Every (InArgs argc) Q ↔ Q () := every_perform

/-- A byte that is read may be any. -/
theorem every_load {address : Int} {Q : Int → Prop} (hQ : ∀ v, Q v) :
    (load address).Every (InArgs argc) Q := by
  simp [load, InArgs, hQ]

theorem ReadsArgs.bind {x : ShellM α} {f : α → ShellM β} (hx : ReadsArgs argc x)
    (hf : ∀ a, ReadsArgs argc (f a)) : ReadsArgs argc (x >>= f) := by
  rw [ReadsArgs, Dialogue.every_bind]
  exact hx.mono fun a _ => hf a

theorem reads_forInt {lo hi : Int} {acc : β} {body : Int → β → ShellM β}
    (hbody : ∀ i, lo ≤ i → i < hi → ∀ b, ReadsArgs argc (body i b)) :
    ReadsArgs argc (forInt lo hi acc body) := by
  refine Dialogue.every_foldlM (fun k hk b => hbody _ ?_ ?_ b) acc
  · omega
  · have := List.mem_range.mp hk
    omega

theorem reads_untilTrue {round : ShellM Bool} (hround : ReadsArgs argc round) (rounds : Nat) :
    ReadsArgs argc (untilTrue round rounds) := by
  induction rounds with
  | zero => trivial
  | succ rounds ih =>
    refine hround.bind fun finished => ?_
    cases finished with
    | true => trivial
    | false => exact ih

theorem reads_forLines {print : String → ShellM Unit}
    (hprint : ∀ line, ReadsArgs argc (print line)) (lines : List String) :
    ReadsArgs argc (forLines print lines) := by
  induction lines with
  | nil => trivial
  | cons line lines ih => exact (hprint line).bind fun _ => ih

/-- A call reads no argument, and neither does a command that is one call. -/
theorem reads_perform (c : Callee) (args : List Arg) : ReadsArgs argc (perform c args) := by
  simp [ReadsArgs]

/-- The usage message reads `argv[0]`; behind the check `argc` is known. -/
theorem reads_expectArgs {n : Int} {usage : String} {rest : ShellM Unit} (hargc : 1 ≤ argc)
    (hrest : argc = n → ReadsArgs argc rest) :
    ReadsArgs argc (expectArgs argc n usage rest) := by
  rw [expectArgs, ReadsArgs, Dialogue.every_ite]
  refine ⟨fun _ => ?_, fun hn => hrest (not_not.mp hn)⟩
  simp
  omega

end Rules

/-! ## The commands that take no arguments -/

section Plain

variable {argc : Int} {rounds : Nat}

theorem reads_uptime : ReadsArgs argc uptime := by
  simp [ReadsArgs, uptime]

theorem reads_listcolours : ReadsArgs argc listcolours :=
  reads_forLines (fun _ => reads_perform _ _) colours

theorem reads_clockRound : ReadsArgs argc clockRound := by
  simp [ReadsArgs, clockRound]

theorem reads_clock : ReadsArgs argc (clock rounds) := by
  refine (reads_perform _ _).bind fun _ => ?_
  refine (reads_untilTrue reads_clockRound rounds).bind fun _ => ?_
  exact reads_perform _ _

theorem reads_dino : ReadsArgs argc dino := reads_forLines (fun _ => reads_perform _ _) _

theorem reads_help : ReadsArgs argc help := reads_forLines (fun _ => reads_perform _ _) _

theorem reads_scancodeRound : ReadsArgs argc scancodeRound := by
  simp [ReadsArgs, scancodeRound]

theorem reads_scancode : ReadsArgs argc (scancode rounds) :=
  (reads_perform _ _).bind fun _ => reads_untilTrue reads_scancodeRound rounds

theorem reads_mem : ReadsArgs argc mem := by
  simp [ReadsArgs, mem]

theorem reads_cmdCpuid : ReadsArgs argc cmdCpuid := by
  simp [ReadsArgs, cmdCpuid]

theorem reads_lsdrv : ReadsArgs argc lsdrv := by
  simp [ReadsArgs, lsdrv]

theorem reads_logo : ReadsArgs argc logo :=
  (reads_perform _ _).bind fun _ => reads_forLines (fun _ => reads_perform _ _) _

theorem reads_sysinfo : ReadsArgs argc sysinfo := by
  simp [ReadsArgs, sysinfo]

theorem reads_selftest : ReadsArgs argc selftest := by
  simp [ReadsArgs, selftest]

end Plain

/-! ## The commands that count their arguments -/

section Counted

variable {argc : Int}

theorem reads_colourAmong (str : Int) (names : List String) (i : Nat) :
    ReadsArgs argc (colourAmong str names i) := by
  induction names generalizing i with
  | nil => trivial
  | cons colour rest ih =>
    refine ReadsArgs.bind (by simp [ReadsArgs]) fun cmp => ?_
    rw [ReadsArgs, Dialogue.every_ite]
    exact ⟨fun _ => trivial, fun _ => ih (i + 1)⟩

/-- Reading one argument, and then something else. -/
theorem reads_readArgv_bind {α : Type} {i : Int} {f : Int → ShellM α} (h0 : 0 ≤ i)
    (hi : i < argc) (hf : ∀ p, ReadsArgs argc (f p)) : ReadsArgs argc (readArgv i >>= f) := by
  rw [ReadsArgs, Dialogue.every_bind, every_readArgv]
  exact ⟨⟨h0, hi⟩, hf⟩

theorem reads_setcolour (hargc : 1 ≤ argc) : ReadsArgs argc (setcolour argc) := by
  refine reads_expectArgs hargc fun hn => ?_
  refine reads_readArgv_bind (by omega) (by omega) fun p => ?_
  refine (reads_colourAmong p colours 0).bind fun fg => ?_
  refine reads_readArgv_bind (by omega) (by omega) fun q => ?_
  refine (reads_colourAmong q colours 0).bind fun bg => ?_
  simp [ReadsArgs]

theorem reads_setres (hargc : 1 ≤ argc) : ReadsArgs argc (setres argc) := by
  refine reads_expectArgs hargc fun hn => ?_
  simp [ReadsArgs, hn]

theorem reads_setfnt (hargc : 1 ≤ argc) : ReadsArgs argc (setfnt argc) := by
  refine reads_expectArgs hargc fun hn => ?_
  simp [ReadsArgs, hn, every_load]

theorem reads_verb (hargc : 1 ≤ argc) : ReadsArgs argc (verb argc) := by
  refine reads_expectArgs hargc fun hn => ?_
  simp [ReadsArgs, hn]

theorem reads_dumpmem (hargc : 1 ≤ argc) : ReadsArgs argc (dumpmem argc) := by
  simp [ReadsArgs, dumpmem]
  omega

theorem reads_readRound {file : Int} : ReadsArgs argc (readRound file) := by
  simp [ReadsArgs, readRound]

theorem reads_read (hargc : 1 ≤ argc) (rounds : Nat) : ReadsArgs argc (read rounds argc) := by
  refine reads_expectArgs hargc fun hn => ?_
  refine reads_readArgv_bind (by omega) (by omega) fun p => ?_
  refine ReadsArgs.bind (by simp [ReadsArgs]) fun file => ?_
  rw [ReadsArgs, Dialogue.every_ite]
  refine ⟨fun _ => ?_, fun _ => by simp⟩
  refine ReadsArgs.bind (by simp [ReadsArgs]) fun _ => ?_
  refine (reads_untilTrue reads_readRound rounds).bind fun _ => ?_
  simp [ReadsArgs]

/-- `argv[argc - 1]` is the last argument, and the loop is in front of it. -/
theorem reads_echo (hargc : 1 ≤ argc) : ReadsArgs argc (echo argc) := by
  refine ReadsArgs.bind (reads_forInt fun i hlo hhi _ => ?_) fun _ => ?_
  · refine reads_readArgv_bind (by omega) (by omega) fun p => ?_
    simp [ReadsArgs]
  · refine reads_readArgv_bind (by omega) (by omega) fun p => ?_
    simp [ReadsArgs]

/-- What is done with the module may depend on the check of `argc`. -/
theorem reads_withModule {use : Int → ShellM Unit} (hargc : 1 ≤ argc)
    (huse : argc = 2 → ∀ module, ReadsArgs argc (use module)) :
    ReadsArgs argc (withModule argc use) := by
  refine reads_expectArgs hargc fun hn => ?_
  refine reads_readArgv_bind (by omega) (by omega) fun p => ?_
  refine ReadsArgs.bind (by simp [ReadsArgs]) fun handle => ?_
  rw [ReadsArgs, Dialogue.every_ite]
  refine ⟨fun _ => by simp, fun _ => ?_⟩
  refine ReadsArgs.bind (by simp [ReadsArgs]) fun module => ?_
  refine (huse hn module).bind fun _ => ?_
  simp [ReadsArgs]

theorem reads_ldmod (hargc : 1 ≤ argc) : ReadsArgs argc (ldmod argc) :=
  reads_withModule hargc fun _ module => by simp [ReadsArgs]

/-- The program is handed `argc - 1` entries from `argv[1]` on. -/
theorem reads_exec (hargc : 1 ≤ argc) : ReadsArgs argc (exec argc) := by
  refine reads_withModule hargc fun _ module => ?_
  simp [ReadsArgs, InArgs]

theorem reads_endrv (hargc : 1 ≤ argc) : ReadsArgs argc (endrv argc) := by
  refine reads_expectArgs hargc fun hn => ?_
  simp [ReadsArgs, hn, every_load]

end Counted

/-! ## The commands with a value in quotes -/

section Quoted

variable {argc : Int}

theorem reads_quotedValue (hargc : 2 ≤ argc) : ReadsArgs argc (quotedValue argc) := by
  refine ReadsArgs.bind (reads_forInt fun i hlo hhi bufsz => ?_) fun bufsz => ?_
  · refine reads_readArgv_bind (by omega) (by omega) fun p => ?_
    simp [ReadsArgs]
  refine ReadsArgs.bind (by simp [ReadsArgs]) fun buf => ?_
  refine ReadsArgs.bind (reads_forInt fun i hlo hhi _ => ?_) fun _ => ?_
  · refine reads_readArgv_bind (by omega) (by omega) fun p => ?_
    simp [ReadsArgs]
  refine reads_readArgv_bind (by omega) (by omega) fun p => ?_
  simp [ReadsArgs, every_load]

theorem reads_setenv (hargc : 1 ≤ argc) : ReadsArgs argc (setenv argc) := by
  rw [setenv, ReadsArgs, Dialogue.every_ite]
  refine ⟨fun _ => by simp; omega, fun hn => ?_⟩
  refine (reads_quotedValue (by omega)).bind fun value => ?_
  cases value with
  | none => trivial
  | some buf =>
    simp [ReadsArgs]
    omega

theorem reads_setconf (hargc : 1 ≤ argc) : ReadsArgs argc (setconf argc) := by
  rw [setconf, ReadsArgs, Dialogue.every_ite]
  refine ⟨fun _ => by simp; omega, fun hn => ?_⟩
  refine (reads_quotedValue (by omega)).bind fun value => ?_
  cases value with
  | none => trivial
  | some buf =>
    simp [ReadsArgs]
    omega

end Quoted

/-! ## The two commands that read too far -/

section Unchecked

variable {argc : Int}

theorem reads_getconf (hargc : 2 ≤ argc) : ReadsArgs argc (getconf argc) := by
  rw [getconf, ReadsArgs, Dialogue.every_ite]
  refine ⟨fun hn => by omega, fun _ => ?_⟩
  have h1 : 1 < argc := by omega
  simp [h1]

/-- Past its check, `getconf` looks its key up in `argv[1]`. -/
theorem getconf_meets (hargc : 1 ≤ argc) :
    (getconf argc).Meets (.readArgv 1) fun _ => False := by
  rw [getconf, Dialogue.meets_ite]
  refine ⟨fun hn => by omega, fun _ => ?_⟩
  simp [readArgv]

theorem reads_setscheme (hargc : 17 ≤ argc) : ReadsArgs argc (setscheme argc) := by
  refine ReadsArgs.bind ?_ fun _ => ?_
  · simp [ReadsArgs, setschemeUsage]
    omega
  refine ReadsArgs.bind (reads_forInt fun i hlo hhi scheme => ?_) fun scheme => ?_
  · refine reads_readArgv_bind (by omega) (by omega) fun p => ?_
    simp [ReadsArgs]
  · simp [ReadsArgs]

/-- A call and the read of another argument are not the read of `argv[16]`, and
go on. -/
theorem setscheme_meets : (setscheme argc).Meets (.readArgv 16) fun _ => False := by
  rw [setscheme, Dialogue.meets_bind]
  refine Dialogue.Meets.mono (Q := fun _ => True) ?_ fun _ _ => ?_
  · simp [setschemeUsage, readArgv, printf, perform, call]
  rw [Dialogue.meets_bind]
  refine Dialogue.Meets.mono (Q := fun _ => False) ?_ fun _ => False.elim
  -- the last round reads `argv[16]`
  refine Dialogue.meets_foldlM (a := 15) (by decide) (fun k _ scheme => ?_) (fun scheme => ?_) []
  · simp [readArgv, call]
  · simp [readArgv]

end Unchecked

/-! ## The table -/

section Table

variable {argc : Int}

/-- Every entry of the table but two reads in front of `argc`. -/
theorem commands_reads (hargc : 1 ≤ argc) :
    ∀ c ∈ commands, c.name = chars "getconf" ∨ c.name = chars "setscheme" ∨
      ∀ rounds, ReadsArgs argc (c.fn rounds argc) := by
  simp only [commands, List.forall_mem_cons]
  exact
    ⟨.inr (.inr fun _ => reads_exec hargc),
      .inr (.inr fun _ => reads_perform _ _),
      .inr (.inr fun _ => reads_ldmod hargc),
      .inr (.inr fun _ => reads_perform _ _),
      .inr (.inr fun _ => reads_perform _ _),
      .inr (.inr fun _ => reads_lsdrv),
      .inr (.inr fun _ => reads_endrv hargc),
      .inr (.inr fun _ => reads_uptime),
      .inr (.inr fun _ => reads_mem),
      .inr (.inr fun _ => reads_perform _ _),
      .inr (.inr fun _ => reads_cmdCpuid),
      .inr (.inr fun _ => reads_perform _ _),
      .inr (.inr fun _ => reads_clock),
      .inr (.inr fun _ => reads_setres hargc),
      .inr (.inr fun _ => reads_setfnt hargc),
      .inr (.inr fun _ => reads_setcolour hargc),
      .inr (.inr fun _ => reads_listcolours),
      .inr (.inr fun _ => reads_dino),
      .inr (.inr fun _ => reads_scancode),
      .inr (.inr fun _ => reads_verb hargc),
      .inr (.inr fun _ => reads_perform _ _),
      .inr (.inr fun _ => reads_dumpmem hargc),
      .inr (.inr fun rounds => reads_read hargc rounds),
      .inr (.inr fun _ => reads_perform _ _),
      .inr (.inr fun _ => reads_echo hargc),
      .inr (.inr fun _ => reads_setenv hargc),
      .inr (.inr fun _ => reads_setconf hargc),
      .inl trivial,
      .inr (.inr fun _ => reads_perform _ _),
      .inr (.inr fun _ => reads_perform _ _),
      .inr (.inr fun _ => reads_help),
      .inr (.inr fun _ => reads_logo),
      .inr (.inr fun _ => reads_sysinfo),
      .inr (.inr fun _ => reads_selftest),
      .inr (.inl trivial),
      nofun⟩

theorem find_getconf :
    (commands.find? fun c => c.name = chars "getconf") =
      some { name := chars "getconf", fn := fun _ => getconf } := rfl

theorem find_setscheme :
    (commands.find? fun c => c.name = chars "setscheme") =
      some { name := chars "setscheme", fn := fun _ => setscheme } := rfl

/-- There are as many arguments as the two commands read without looking. -/
def ArgsSuffice (name : List UInt8) (argc : Int) : Prop :=
  (name = chars "getconf" → 2 ≤ argc) ∧ (name = chars "setscheme" → 17 ≤ argc)

theorem invokeInternal_readsArgs {name : List UInt8} (hargc : 1 ≤ argc)
    (hsuffice : ArgsSuffice name argc) (rounds : Nat) :
    ReadsArgs argc (invokeInternal rounds name argc) := by
  unfold invokeInternal
  split
  · rename_i c hfind
    have hmem := List.mem_of_find?_eq_some hfind
    have hname : c.name = name := by simpa using List.find?_some hfind
    have hc : ReadsArgs argc (c.fn rounds argc) := by
      rcases commands_reads hargc c hmem with hgetconf | hsetscheme | hreads
      · rw [← hname, hgetconf, find_getconf] at hfind
        cases hfind
        exact reads_getconf (hsuffice.1 hname.symm)
      · rw [← hname, hsetscheme, find_setscheme] at hfind
        cases hfind
        exact reads_setscheme (hsuffice.2 hname.symm)
      · exact hreads rounds
    exact hc.bind fun _ => trivial
  · trivial

/-- With too few arguments, an entry behind the last one is read in every run. -/
theorem invokeInternal_meets {name : List UInt8} (hargc : 1 ≤ argc)
    (hfew : ¬ArgsSuffice name argc) (rounds : Nat) :
    ∃ i, argc ≤ i ∧ (invokeInternal rounds name argc).Meets (.readArgv i) fun _ => False := by
  have hcases : (name = chars "getconf" ∧ argc ≤ 1) ∨ (name = chars "setscheme" ∧ argc ≤ 16) := by
    by_contra hnot
    refine hfew ⟨fun hname => ?_, fun hname => ?_⟩
    · by_contra hle
      exact hnot (.inl ⟨hname, by omega⟩)
    · by_contra hle
      exact hnot (.inr ⟨hname, by omega⟩)
  rcases hcases with ⟨rfl, hle⟩ | ⟨rfl, hle⟩
  · refine ⟨1, hle, ?_⟩
    simp only [invokeInternal, find_getconf, Dialogue.meets_bind]
    exact (getconf_meets hargc).mono fun _ => False.elim
  · refine ⟨16, hle, ?_⟩
    simp only [invokeInternal, find_setscheme, Dialogue.meets_bind]
    exact setscheme_meets.mono fun _ => False.elim

end Table

/-! ## What a command line has a command read -/

section Invoked

variable {argc : Int} {rounds : Nat} {name : List UInt8} {env : List Access → Access → Int}

/-- The entries of `argv` that are read are in front of `argc`. -/
def ReadInside (argc : Int) (log : List Access) : Prop :=
  ∀ i, .readArgv i ∈ log → 0 ≤ i ∧ i < argc

/-- A command reads only its arguments exactly if there are as many as it reads
without looking: two for `getconf`, seventeen for `setscheme`, and any number for
every other command. -/
theorem invokeInternal_readInside_iff (hargc : 1 ≤ argc) :
    ReadInside argc ((invokeInternal rounds name argc).requests env) ↔
      ArgsSuffice name argc := by
  constructor
  · intro hinside
    by_contra hfew
    obtain ⟨i, hi, hmeets⟩ := invokeInternal_meets hargc hfew rounds
    have := hinside i (hmeets.requests env)
    omega
  · intro hsuffice i hi
    exact (invokeInternal_readsArgs hargc hsuffice rounds).requests env _ hi

/-- `setconf` on a line of three words, and a run that asks for all of them. -/
theorem invokeInternal_readInside_setconf :
    (1 : Int) ≤ 3 ∧
      (ReadInside 3 ((invokeInternal 0 (chars "setconf") 3).requests fun _ _ => 34) ↔
        ArgsSuffice (chars "setconf") 3) :=
  ⟨by decide, invokeInternal_readInside_iff (by decide)⟩

/-- The line `getconf` is one word, and the command then reads `argv[1]`. -/
theorem getconf_readsPast :
    lineWords (chars "getconf") = [chars "getconf"] ∧
      ¬∀ (env : List Access → Access → Int) (rounds : Nat) (name : List UInt8) (argc : Int),
        1 ≤ argc → ReadInside argc ((invokeInternal rounds name argc).requests env) := by
  refine ⟨by decide, fun hinside => ?_⟩
  have hread := hinside (fun _ _ => 0) 0 (chars "getconf") 1 (by decide) 1 (by decide)
  omega

/-- The program that `exec` runs is handed entries of `argv` only. -/
theorem invokeInternal_hands (hargc : 1 ≤ argc) (hsuffice : ArgsSuffice name argc)
    {elf count first : Int}
    (hrun : .elfRun elf count first ∈ (invokeInternal rounds name argc).requests env) :
    0 ≤ first ∧ first + count ≤ argc :=
  (invokeInternal_readsArgs hargc hsuffice rounds).requests env _ hrun

end Invoked

end Microboot.Kern.Shell
