/-
  Kern/Mod.lean --- the module system, kern/mod.c, and its clients.

  The lists `exports` and `modules` hold pointers to symbol records.  Those of the
  kernel are in its symbol table; those of a module are in the file it was loaded
  from, which `ldmod` (kern/main.c) frees, like `elf_load_mod` frees the image that
  they point into.

  The allocator may return any block that is apart from those in use, and code that
  is not modelled (the file systems, the modules themselves) may do what it likes to
  blocks of its own: a command is a relation between states.
-/
import Microboot.Kern.Exe.Elf
import Microboot.Kern.List

set_option autoImplicit false

namespace Microboot.Kern

open Microboot.Foundation Microboot.Kern.Exe

/-! ## Symbols -/

/-- `sizeof(struct symbol)` -/
def symbolSize : Nat := 8

/-- `sym->name` -/
def symName (m : Mem) (sym : Nat) : Nat := m.load32 sym

/-- `sym->fn` -/
def symFn (m : Mem) (sym : Nat) : Nat := m.load32 (sym + 4)

/-- `sym->name += base; sym->fn += base;` -/
def relocate (m : Mem) (base sym : Nat) : Mem :=
  let m := m.store32 sym (symName m sym + base)
  m.store32 (sym + 4) (symFn m sym + base)

/-- `sym->name += base; sym->fn = base;` -/
def relocateModule (m : Mem) (base sym : Nat) : Mem :=
  let m := m.store32 sym (symName m sym + base)
  m.store32 (sym + 4) base

/-- `EXPORT_MOD_INIT_PREFIX` -/
def exportModInitPrefix : List UInt8 := [95, 95, 105, 110, 105, 116, 36]

/-- `EXPORT_MOD_EARLY_INIT_PREFIX` -/
def exportModEarlyInitPrefix : List UInt8 := [95, 95, 101, 105, 110, 105, 116, 36]

/-- `strncmp(prefix, sym->name, strlen(prefix)) == 0` -/
def hasPrefix (m : Mem) (start : List UInt8) (sym : Nat) : Bool :=
  strncmp start (bytesAt m (symName m sym) start.length) start.length = 0

/-! ## The state -/

/-- A node of a list, in a block of its own, and the record that it points to. -/
structure SymNode where
  node : Region
  sym : Nat
  deriving DecidableEq, Repr

structure ModSystem where
  heap : Heap
  exports : List SymNode
  modules : List SymNode

namespace ModSystem

/-- `exports` and `modules`. -/
def listed (s : ModSystem) : List SymNode := s.exports ++ s.modules

/-- The blocks of the list nodes. -/
def nodes (s : ModSystem) : List Region := s.listed.map SymNode.node

/-- The memory is written. -/
def write (s : ModSystem) (m : Mem) : ModSystem := { s with heap := { s.heap with mem := m } }

end ModSystem

/-- Code that is not part of the module system runs.  It leaves the lists, their nodes
and what is held alone, and is given memory by the allocator. -/
structure Foreign (held : List Region) (s s' : ModSystem) : Prop where
  exports : s'.exports = s.exports
  modules : s'.modules = s.modules
  held : Heap.Held (held ++ s.nodes) s.heap s'.heap
  ok : s.heap.Ok → s'.heap.Ok

/-! ## kern/mod.c -/

/-- `mod_ksymtab_add` from `sym` on, with that many records: the functions of the init
symbols are called, all but the early init symbols of the rest are listed. -/
inductive ModKsymtabAdd (held : List Region) : Nat → Nat → ModSystem → ModSystem → Prop
  | done {sym : Nat} {s : ModSystem} : ModKsymtabAdd held sym 0 s s
  | init {sym n : Nat} {s s₁ s' : ModSystem} :
      hasPrefix s.heap.mem exportModInitPrefix sym = true → Foreign held s s₁ →
      ModKsymtabAdd held (sym + symbolSize) n s₁ s' → ModKsymtabAdd held sym (n + 1) s s'
  | early {sym n : Nat} {s s' : ModSystem} :
      hasPrefix s.heap.mem exportModInitPrefix sym = false →
      hasPrefix s.heap.mem exportModEarlyInitPrefix sym = true →
      ModKsymtabAdd held (sym + symbolSize) n s s' → ModKsymtabAdd held sym (n + 1) s s'
  | add {sym n : Nat} {s s' : ModSystem} {h : Heap} {node : Region} :
      hasPrefix s.heap.mem exportModInitPrefix sym = false →
      hasPrefix s.heap.mem exportModEarlyInitPrefix sym = false →
      s.heap.Alloc listNodeSize h node →
      ModKsymtabAdd held (sym + symbolSize) n
        { s with heap := h, exports := s.exports ++ [⟨node, sym⟩] } s' →
      ModKsymtabAdd held sym (n + 1) s s'

/-- The loop of `mod_symtab_add` from `sym` on, with that many records. -/
inductive SymsAdd (base : Nat) : Nat → Nat → ModSystem → ModSystem → Prop
  | done {sym : Nat} {s : ModSystem} : SymsAdd base sym 0 s s
  | next {sym n : Nat} {s s' : ModSystem} {h : Heap} {node : Region} :
      (s.write (relocate s.heap.mem base sym)).heap.Alloc listNodeSize h node →
      SymsAdd base (sym + symbolSize) n
        { s with heap := h, exports := s.exports ++ [⟨node, sym⟩] } s' →
      SymsAdd base sym (n + 1) s s'

/-- `mod_symtab_add(base, symtab, szsymtab)` -/
inductive ModSymtabAdd (base symtab szsymtab : Nat) (s s' : ModSystem) : Prop
  | intro {h : Heap} {node : Region} :
      (s.write (relocateModule s.heap.mem base symtab)).heap.Alloc listNodeSize h node →
      SymsAdd base (symtab + symbolSize) (szsymtab / symbolSize - 1)
        { s with heap := h, modules := s.modules ++ [⟨node, symtab⟩] } s' →
      ModSymtabAdd base symtab szsymtab s s'

/-- `mod_sym_get(name)` -/
def modSymGet (s : ModSystem) (name : List UInt8) : Option Nat :=
  (s.exports.find? fun n => sameString s.heap.mem (symName s.heap.mem n.sym) name).map fun n =>
    symFn s.heap.mem n.sym

/-! ## Loading -/

/-- The segments of the file at `elf` are loaded; the heap is `h` by then. -/
def ModSystem.load (s : ModSystem) (h : Heap) (elf : Nat) (image : Region) : ModSystem :=
  ({ s with heap := h } : ModSystem).write
    (loadSegments h.mem elf (elf + phoff s.heap.mem elf) image.start)

/-- The section of exported symbols is added, if there is one. -/
def AddExports (elf shdr base : Nat) (s s' : ModSystem) : Prop :=
  match findExports s.heap.mem elf shdr with
  | some tmp => ModSymtabAdd base (elf + tmp.offset) tmp.size s s'
  | none => s' = s

/-- `elf_load_mod(elf, mod_symtab_add)`, as `mod_load` calls it. -/
inductive ElfLoadMod (held : List Region) (s : ModSystem) (elf : Nat) : ModSystem → Prop
  | intro {h h' : Heap} {image : Region} {s₁ s₂ : ModSystem} :
      s.heap.Alloc (getElfSize s.heap.mem elf) h image →
      shstrtabOff (s.load h elf image).heap.mem elf (elf + shoff s.heap.mem elf) ≠ 0 →
      AddExports elf (elf + shoff s.heap.mem elf) image.start (s.load h elf image) s₁ →
      Foreign held s₁ s₂ → s₂.heap.Free image h' →
      ElfLoadMod held s elf { s₂ with heap := h' }

/-- `elf_run(elf, argc, argv)` -/
inductive ElfRun (held : List Region) (s : ModSystem) (elf : Nat) : ModSystem → Prop
  | intro {h h' : Heap} {image : Region} {s₁ : ModSystem} :
      s.heap.Alloc (getElfSize s.heap.mem elf) h image →
      Foreign held (s.load h elf image) s₁ → s₁.heap.Free image h' →
      ElfRun held s elf { s₁ with heap := h' }

/-! ## The commands -/

/-- `ldmod` and `exec`, with the contents of the file. -/
inductive Command where
  | ldmod (file : List UInt8)
  | exec (file : List UInt8)
  deriving DecidableEq, Repr

/-- `fs_open` and `fs_read_full`: the file is read into a block of its own. -/
structure ReadsFile (kernel : Region) (s s' : ModSystem) (file : List UInt8) (buffer : Region) :
    Prop where
  foreign : Foreign [kernel] s s'
  live : buffer ∈ s'.heap.live
  own : buffer ∉ kernel :: s'.nodes
  room : file.length ≤ buffer.size
  contents : Seg s'.heap.mem buffer.start file

/-- A command that comes to its end; `kernel` is where the code, the symbol table and
the constants of the kernel are. -/
inductive ModStep (kernel : Region) (s : ModSystem) : Command → ModSystem → Prop
  | ldmod {file : List UInt8} {buffer : Region} {s₁ s₂ s₃ : ModSystem} {h : Heap} :
      ReadsFile kernel s s₁ file buffer → ElfLoadMod [kernel, buffer] s₁ buffer.start s₂ →
      Foreign [kernel, buffer] s₂ s₃ → s₃.heap.Free buffer h →
      ModStep kernel s (.ldmod file) { s₃ with heap := h }
  | exec {file : List UInt8} {buffer : Region} {s₁ s₂ s₃ : ModSystem} {h : Heap} :
      ReadsFile kernel s s₁ file buffer → ElfRun [kernel, buffer] s₁ buffer.start s₂ →
      Foreign [kernel, buffer] s₂ s₃ → s₃.heap.Free buffer h →
      ModStep kernel s (.exec file) { s₃ with heap := h }

end Microboot.Kern
