/-
  Kern/ModEntry.lean --- what holds when a program or a module is entered.

  Between the copies of the segments and the entry point `elf_load_mod` adds the
  exported symbols of the module.  For that it writes to the records in the file, and
  to the nodes of the lists, which are in blocks of their own: the image is as the
  copies have left it.

  The records behind that of the module are listed, all of them.  The kernel's table
  is added by a loop that calls the functions of the init symbols instead; this one
  does not look at the names.
-/
import Microboot.Kern.Exe.Image
import Microboot.Kern.Mod

set_option autoImplicit false

namespace Microboot.Kern

open Microboot.Foundation Microboot.Kern.Exe

/-! ## Records -/

/-- The records from `sym` on, that many of them. -/
def recordsFrom (sym count : Nat) : List Nat :=
  (List.range count).map fun i => sym + symbolSize * i

/-- The records from `sym` on take that region. -/
def recordsRegion (sym count : Nat) : Region := ⟨sym, symbolSize * count⟩

section Records

variable {base sym count a x : Nat} {m m' : Mem} {s s' : ModSystem} {r buffer : Region}

theorem recordsFrom_succ :
    recordsFrom sym (count + 1) = sym :: recordsFrom (sym + symbolSize) count := by
  unfold recordsFrom
  rw [List.range_succ_eq_map, List.map_cons, List.map_map]
  refine congrArg₂ List.cons rfl (List.map_congr_left fun i _ => ?_)
  show sym + symbolSize * (i + 1) = sym + symbolSize + symbolSize * i
  rw [Nat.mul_succ, Nat.add_assoc, Nat.add_comm symbolSize]

theorem has_of_mem_recordsFrom (ha : a ∈ recordsFrom sym count) (hle : a ≤ x)
    (hx : x < a + symbolSize) : (recordsRegion sym count).Has x := by
  obtain ⟨i, hi, rfl⟩ := List.mem_map.mp ha
  have hi := List.mem_range.mp hi
  unfold symbolSize at hle hx
  unfold recordsRegion Region.Has symbolSize
  dsimp only
  omega

theorem recordsRegion_succ_has : (recordsRegion sym (count + 1)).Has x ↔
    (sym ≤ x ∧ x < sym + symbolSize) ∨ (recordsRegion (sym + symbolSize) count).Has x := by
  unfold recordsRegion Region.Has symbolSize
  dsimp only
  omega

/-- A record depends on its own bytes. -/
theorem record_congr (hfits : sym + symbolSize ≤ 2 ^ 32)
    (hsame : ∀ x, sym ≤ x → x < sym + symbolSize → m' x = m x) :
    symName m' sym = symName m sym ∧ symFn m' sym = symFn m sym := by
  unfold symbolSize at hfits hsame
  exact ⟨Mem.load32_congr (by omega) fun x hle hlt => hsame x hle (by omega),
    Mem.load32_congr (by omega) fun x hle hlt => hsame x (by omega) (by omega)⟩

theorem relocate_apply (hfits : sym + symbolSize ≤ 2 ^ 32) (hout : x < sym ∨ sym + symbolSize ≤ x) :
    relocate m base sym x = m x := by
  unfold symbolSize at hfits hout
  unfold relocate
  rw [Mem.store32_apply_of_disjoint _ _ (by omega) (by omega),
    Mem.store32_apply_of_disjoint _ _ (by omega) (by omega)]

theorem relocateModule_apply (hfits : sym + symbolSize ≤ 2 ^ 32)
    (hout : x < sym ∨ sym + symbolSize ≤ x) : relocateModule m base sym x = m x := by
  unfold symbolSize at hfits hout
  unfold relocateModule
  rw [Mem.store32_apply_of_disjoint _ _ (by omega) (by omega),
    Mem.store32_apply_of_disjoint _ _ (by omega) (by omega)]

/-- The name and the function of a record are moved by the base. -/
theorem relocate_record (hfits : sym + symbolSize ≤ 2 ^ 32) :
    symName (relocate m base sym) sym = (symName m sym + base) % 2 ^ 32 ∧
      symFn (relocate m base sym) sym = (symFn m sym + base) % 2 ^ 32 := by
  unfold symbolSize at hfits
  unfold relocate symName symFn
  dsimp only
  rw [Mem.load32_store32_of_disjoint _ _ (by omega) (by omega) (by omega), Mem.load32_store32,
    Mem.load32_store32, Mem.load32_store32_of_disjoint _ _ (by omega) (by omega) (by omega)]
  exact ⟨rfl, rfl⟩

/-! ## The loop -/

/-- The loop writes its records and to new blocks. -/
theorem SymsAdd.keeps (hadd : SymsAdd base sym count s s')
    (hfits : sym + symbolSize * count ≤ 2 ^ 32) (hr : r ∈ s.heap.live) (hx : r.Has x)
    (hout : ¬ (recordsRegion sym count).Has x) : s'.heap.mem x = s.heap.mem x := by
  induction hadd with
  | done => rfl
  | @next sym n s s' h node halloc _ ih =>
    rw [recordsRegion_succ_has] at hout
    have hsucc : symbolSize * (n + 1) = symbolSize * n + symbolSize := rfl
    have hrest := ih (by omega) (halloc.live ▸ List.mem_cons_of_mem _ hr) (by tauto)
    refine hrest.trans ((halloc.keeps r hr x hx).trans (relocate_apply (by omega) ?_))
    by_contra hin
    exact hout (Or.inl ⟨by omega, by omega⟩)

/-- The records are listed, in order. -/
theorem SymsAdd.exports (hadd : SymsAdd base sym count s s') :
    ∃ nodes : List SymNode, s'.exports = s.exports ++ nodes ∧
      nodes.map SymNode.sym = recordsFrom sym count := by
  induction hadd with
  | done => exact ⟨[], (List.append_nil _).symm, rfl⟩
  | @next sym n s s' h node halloc _ ih =>
    obtain ⟨nodes, hexports, hsyms⟩ := ih
    refine ⟨⟨node, sym⟩ :: nodes, ?_, ?_⟩
    · rw [hexports, List.append_assoc, List.singleton_append]
    · rw [List.map_cons, hsyms, recordsFrom_succ]

/-- The records are moved by the base. -/
theorem SymsAdd.relocated (hadd : SymsAdd base sym count s s')
    (hfits : sym + symbolSize * count ≤ 2 ^ 32) (hbuffer : buffer ∈ s.heap.live)
    (hinside : ∀ x, (recordsRegion sym count).Has x → buffer.Has x) :
    ∀ a ∈ recordsFrom sym count,
      symName s'.heap.mem a = (symName s.heap.mem a + base) % 2 ^ 32 ∧
        symFn s'.heap.mem a = (symFn s.heap.mem a + base) % 2 ^ 32 := by
  induction hadd with
  | done => exact fun a ha => absurd ha List.not_mem_nil
  | @next sym n s s' h node halloc hrest ih =>
    have hsucc : symbolSize * (n + 1) = symbolSize * n + symbolSize := rfl
    have hlive : buffer ∈ h.live := halloc.live ▸ List.mem_cons_of_mem _ hbuffer
    have hinside' : ∀ x, (recordsRegion (sym + symbolSize) n).Has x → buffer.Has x :=
      fun x hx => hinside x (recordsRegion_succ_has.mpr (Or.inr hx))
    have hbytes : ∀ x, sym ≤ x → x < sym + symbolSize → buffer.Has x :=
      fun x hle hlt => hinside x (recordsRegion_succ_has.mpr (Or.inl ⟨hle, hlt⟩))
    intro a ha
    rw [recordsFrom_succ] at ha
    rcases List.mem_cons.mp ha with rfl | ha
    · -- this record: the rest of the loop leaves it alone
      have hlater : ∀ x, a ≤ x → x < a + symbolSize →
          s'.heap.mem x = relocate s.heap.mem base a x := by
        intro x hle hlt
        refine (hrest.keeps (by omega) hlive (hbytes x hle hlt) fun hhas => ?_).trans
          (halloc.keeps buffer hbuffer x (hbytes x hle hlt))
        have hstart : a + symbolSize ≤ x := hhas.1
        omega
      obtain ⟨hname, hfn⟩ := record_congr (by omega) hlater
      rw [hname, hfn]
      exact relocate_record (by omega)
    · -- a later record: it is as it was
      have hstart : sym + symbolSize ≤ a :=
        (has_of_mem_recordsFrom ha (Nat.le_refl a) (Nat.lt_add_of_pos_right (by decide))).1
      have hend : a + symbolSize ≤ 2 ^ 32 := by
        have hlast := (has_of_mem_recordsFrom (x := a + 7) ha (Nat.le_add_right a 7)
          (Nat.lt_succ_self (a + 7))).2
        unfold recordsRegion symbolSize at hlast
        unfold symbolSize at hfits hsucc ⊢
        dsimp only at hlast
        omega
      have hearlier : ∀ x, a ≤ x → x < a + symbolSize → h.mem x = s.heap.mem x := by
        intro x hle hlt
        have hhas := hinside' x (has_of_mem_recordsFrom ha hle hlt)
        refine (halloc.keeps buffer hbuffer x hhas).trans ?_
        exact relocate_apply (by omega) (Or.inr (by omega))
      obtain ⟨hname, hfn⟩ := record_congr hend hearlier
      rw [← hname, ← hfn]
      exact ih (by omega) hlive hinside' a ha

end Records

/-! ## The image on entry -/

/-- The two callers of the loader's entry points: `elf_run` and `elf_load_mod`. -/
inductive Loader where
  | run
  | mod
  deriving DecidableEq, Repr

/-- The memory when the entry point is called: behind the copies of the segments, or, for a
module, behind the symbols that are added.  `h` and `image` are what `kalloc` has given. -/
inductive Entered (s : ModSystem) (elf : Nat) (h : Heap) (image : Region) : Loader → Mem → Prop
  | run : Entered s elf h image .run (s.load h elf image).heap.mem
  | mod {s₁ : ModSystem} :
      shstrtabOff (s.load h elf image).heap.mem elf (elf + shoff s.heap.mem elf) ≠ 0 →
      AddExports elf (elf + shoff s.heap.mem elf) image.start (s.load h elf image) s₁ →
      Entered s elf h image .mod s₁.heap.mem

/-- The segments, loaded to `base`, are in memory that is in use. -/
def SegmentsLive (m : Mem) (elf base : Nat) (h : Heap) : Prop :=
  ∀ phdr ∈ programHeaders m elf (elf + phoff m elf), phdr.type = elfPtLoad →
    ∀ k < phdr.memsz, h.Live (base + phdr.paddr + k)

/-- The section of exported symbols, if there is one, is in the file, and has the record of
the module. -/
def ExportsInFile (m : Mem) (elf shdr n : Nat) : Prop :=
  ∀ tmp ∈ findExports m elf shdr, symbolSize ≤ tmp.size ∧ tmp.offset + tmp.size ≤ n

@[simp] theorem ModSystem.load_mem (s : ModSystem) (h : Heap) (elf : Nat) (image : Region) :
    (s.load h elf image).heap.mem =
      loadSegments h.mem elf (elf + phoff s.heap.mem elf) image.start := rfl

section Entry

variable {base symtab szsymtab elf shdr n x : Nat} {s s' : ModSystem} {r buffer image : Region}
  {h : Heap} {m : Mem}

theorem recordsRegion_inside
    (hx : (recordsRegion (symtab + symbolSize) (szsymtab / symbolSize - 1)).Has x) :
    Region.Has ⟨symtab, szsymtab⟩ x := by
  unfold recordsRegion Region.Has at hx
  unfold symbolSize at hx
  dsimp only at hx
  exact And.intro (show symtab ≤ x by omega) (show x < symtab + szsymtab by omega)

theorem recordsRegion_fits (hsize : symbolSize ≤ szsymtab) (hfits : symtab + szsymtab ≤ 2 ^ 32) :
    symtab + symbolSize + symbolSize * (szsymtab / symbolSize - 1) ≤ 2 ^ 32 := by
  unfold symbolSize at hsize ⊢
  omega

/-- The symbols of a module: the table is written, and new blocks. -/
theorem ModSymtabAdd.keeps (hadd : ModSymtabAdd base symtab szsymtab s s')
    (hsize : symbolSize ≤ szsymtab) (hfits : symtab + szsymtab ≤ 2 ^ 32) (hr : r ∈ s.heap.live)
    (hx : r.Has x) (hout : ¬ Region.Has ⟨symtab, szsymtab⟩ x) :
    s'.heap.mem x = s.heap.mem x := by
  obtain ⟨halloc, hsyms⟩ := hadd
  have hrest := hsyms.keeps (recordsRegion_fits hsize hfits)
    (halloc.live ▸ List.mem_cons_of_mem _ hr) hx
    fun hhas => hout (recordsRegion_inside hhas)
  refine hrest.trans ((halloc.keeps r hr x hx).trans (relocateModule_apply (by omega) ?_))
  by_contra hin
  exact hout (And.intro (show symtab ≤ x by omega) (show x < symtab + szsymtab by omega))

theorem AddExports.keeps (hadd : AddExports elf shdr base s s')
    (hexports : ExportsInFile s.heap.mem elf shdr n) (hfits : elf + n ≤ 2 ^ 32)
    (hr : r ∈ s.heap.live) (hx : r.Has x) (hout : ¬ Region.Has ⟨elf, n⟩ x) :
    s'.heap.mem x = s.heap.mem x := by
  unfold AddExports at hadd
  unfold ExportsInFile at hexports
  cases hfind : findExports s.heap.mem elf shdr with
  | none =>
    rw [hfind] at hadd
    rw [hadd]
  | some tmp =>
    rw [hfind] at hadd hexports
    obtain ⟨hsize, hinside⟩ := hexports tmp rfl
    refine ModSymtabAdd.keeps hadd hsize (by omega) hr hx fun hhas => hout ?_
    obtain ⟨hstart, hend⟩ := hhas
    dsimp only at hstart hend
    exact And.intro (show elf ≤ x by omega) (show x < elf + n by omega)

/-- On entry what is in use apart from the file is as the copies have left it. -/
theorem Entered.apply {loader : Loader} (henter : Entered s elf h image loader m)
    (hexports : loader = .mod → ExportsInFile (s.load h elf image).heap.mem elf
      (elf + shoff s.heap.mem elf) n)
    (hlive : loader = .mod → h.Live x) (hfits : elf + n ≤ 2 ^ 32)
    (hout : ¬ Region.Has ⟨elf, n⟩ x) : m x = (s.load h elf image).heap.mem x := by
  cases henter with
  | run => rfl
  | mod _ hadd =>
    obtain ⟨r, hr, hx⟩ := hlive rfl
    exact hadd.keeps (hexports rfl) hfits hr hx hout

/-- Segments that end inside the block are in use. -/
theorem Granted.segmentsLive {size : Nat} (hgrant : Granted s.heap size h image)
    (hinside : SegmentsEndIn s.heap.mem elf image.size) :
    SegmentsLive s.heap.mem elf image.start h := by
  intro phdr hphdr hload k hk
  have hend := hinside phdr hphdr hload
  cases hgrant with
  | block halloc =>
    refine ⟨image, halloc.live ▸ List.mem_cons_self, And.intro (by omega) (by omega)⟩
  | null _ _ hnull =>
    rw [hnull] at hend
    exact absurd (Nat.le_zero.mp hend) (by omega)

/-- When the entry point is called, the image is as the segments say if and only if the
memory was clear, when `kalloc` gave the block, where the segments have no data.  The
segments are apart from the file; those of a module are in memory in use. -/
theorem entered_imageLoaded_iff (buffer : Region) (loader : Loader) (hok : s.heap.Ok)
    (hbuffer : buffer ∈ s.heap.live) (hroom : n ≤ buffer.size)
    (hwf : LoadableFile s.heap.mem buffer.start n)
    (hgrant : Granted s.heap (getElfSize s.heap.mem buffer.start) h image)
    (hapart : SegmentsApart s.heap.mem buffer.start n image.start)
    (hlive : loader = .mod → SegmentsLive s.heap.mem buffer.start image.start h)
    (hexports : loader = .mod → ExportsInFile (s.load h buffer.start image).heap.mem buffer.start
      (buffer.start + shoff s.heap.mem buffer.start) n)
    (henter : Entered s buffer.start h image loader m) :
    ImageLoaded s.heap.mem buffer.start m image.start ↔
      TailsClear s.heap.mem buffer.start h.mem image.start := by
  have hloads := hgrant.loadsTo hok hbuffer hroom hwf hapart
  refine imageLoaded_iff hloads fun phdr hphdr hload k hk => ?_
  refine henter.apply hexports (fun hmod => hlive hmod phdr hphdr hload k hk) hloads.fits ?_
  exact fun hfile => (hapart phdr hphdr hload).2.not_has hfile
    (And.intro (Nat.le_add_right _ k) (Nat.add_lt_add_left hk _))

end Entry

/-! ## A segment that is larger than its data -/

/-- An ELF file with one segment of 32 bytes, 16 of them in the file. -/
def tailFile : List UInt8 :=
  wordBytes ([0x464c457f, 0x00010101, 0, 0, 0x00030002, 1, 0, 52, 0, 0, 0x00200034, 0x00280001,
    0] ++ [1, 84, 0, 0, 16, 32, 5, 4] ++ [0x90909090, 0x90909090, 0x90909090, 0xc3909090])

/-- The file in a buffer; the byte everywhere else is `c`. -/
def tailSystem (c : UInt8) : ModSystem where
  heap := ⟨fun x => if 65536 ≤ x ∧ x < 65636 then stringMem 65536 tailFile x else c, [⟨65536, 128⟩]⟩
  exports := []
  modules := []

/-- The block of the image. -/
def tailBlock : Region := ⟨4096, 64⟩

theorem tailSystem_loadable {c : UInt8} (hc : c = 0 ∨ c = 0xff) :
    LoadableFile (tailSystem c).heap.mem 65536 100 := by
  rcases hc with rfl | rfl
  · exact ⟨⟨by decide, by decide +kernel, by decide +kernel, by decide +kernel, by decide +kernel⟩,
      by decide +kernel⟩
  · exact ⟨⟨by decide, by decide +kernel, by decide +kernel, by decide +kernel, by decide +kernel⟩,
      by decide +kernel⟩

/-- What the loader reads of it. -/
theorem tailSystem_headers {c : UInt8} (hc : c = 0 ∨ c = 0xff) :
    programHeaders (tailSystem c).heap.mem 65536 (65536 + phoff (tailSystem c).heap.mem 65536) =
        [⟨1, 84, 0, 16, 32⟩] ∧
      getElfSize (tailSystem c).heap.mem 65536 = 32 := by
  rcases hc with rfl | rfl
  · decide +kernel
  · decide +kernel

theorem tailSystem_ok (c : UInt8) : (tailSystem c).heap.Ok := Heap.ok_of_single rfl (by decide)

/-- The block is given, and the segment is loaded to it. -/
theorem tailSystem_granted {c : UInt8} (hc : c = 0 ∨ c = 0xff) :
    Granted (tailSystem c).heap (getElfSize (tailSystem c).heap.mem 65536)
      ((tailSystem c).heap.give tailBlock) tailBlock := by
  rw [(tailSystem_headers hc).2]
  exact .block (Heap.give_alloc_second rfl (by decide) (by decide) (by decide) (by decide))

theorem tailSystem_segmentsEndIn {c : UInt8} (hc : c = 0 ∨ c = 0xff) :
    SegmentsEndIn (tailSystem c).heap.mem 65536 64 := by
  unfold SegmentsEndIn
  rw [(tailSystem_headers hc).1]
  decide

theorem tailSystem_segmentsApart {c : UInt8} (hc : c = 0 ∨ c = 0xff) :
    SegmentsApart (tailSystem c).heap.mem 65536 100 4096 := by
  unfold SegmentsApart
  rw [(tailSystem_headers hc).1]
  decide

/-- The image when the program is entered. -/
def tailEntry (c : UInt8) : Mem :=
  ((tailSystem c).load ((tailSystem c).heap.give tailBlock) 65536 tailBlock).heap.mem

/-- In a clear block the image is loaded. -/
theorem entered_imageLoaded_clear :
    ImageLoaded (tailSystem 0).heap.mem 65536 (tailEntry 0) 4096 := by
  refine (entered_imageLoaded_iff ⟨65536, 128⟩ .run (tailSystem_ok 0) List.mem_cons_self (by decide)
    (tailSystem_loadable (.inl rfl)) (tailSystem_granted (.inl rfl))
    (tailSystem_segmentsApart (.inl rfl)) nofun nofun .run).mpr ?_
  intro phdr hphdr _ k _ hk
  rw [(tailSystem_headers (.inl rfl)).1] at hphdr
  rw [List.mem_singleton.mp hphdr] at hk ⊢
  have hk : k < 32 := hk
  rw [Mem.load8_eq _ (by dsimp only [tailBlock]; omega)]
  exact if_neg (by dsimp only [tailBlock]; omega)

/-- In a block of bytes 0xff the end of the segment is not zero. -/
theorem tailEntry_dirty :
    ∃ (s : ModSystem) (h : Heap) (buffer image : Region) (n : Nat) (m : Mem),
      s.heap.Ok ∧ buffer ∈ s.heap.live ∧ n ≤ buffer.size ∧
      LoadableFile s.heap.mem buffer.start n ∧
      Granted s.heap (getElfSize s.heap.mem buffer.start) h image ∧
      SegmentsEndIn s.heap.mem buffer.start image.size ∧
      Entered s buffer.start h image .run m ∧
      ¬ ImageLoaded s.heap.mem buffer.start m image.start := by
  have hbuffer : (⟨65536, 128⟩ : Region) ∈ (tailSystem 0xff).heap.live := List.mem_cons_self
  refine ⟨tailSystem 0xff, (tailSystem 0xff).heap.give tailBlock, ⟨65536, 128⟩, tailBlock, 100, _,
    tailSystem_ok 0xff, hbuffer, by decide, tailSystem_loadable (.inr rfl),
    tailSystem_granted (.inr rfl), tailSystem_segmentsEndIn (.inr rfl), .run, fun hloaded => ?_⟩
  have hloads := (tailSystem_granted (.inr rfl)).loadsTo (tailSystem_ok 0xff) hbuffer (by decide)
    (tailSystem_loadable (.inr rfl)) (tailSystem_segmentsApart (.inr rfl))
  have hiff := imageLoaded_iff hloads fun _ _ _ _ _ => rfl
  rw [ModSystem.load_mem] at hloaded
  have hclear := hiff.mp hloaded
  unfold TailsClear at hclear
  rw [(tailSystem_headers (.inr rfl)).1] at hclear
  exact absurd (hclear _ List.mem_cons_self rfl 16 (by decide) (by decide)) (by decide)

/-! ## The symbols of a module -/

/-- What is done for a symbol: its function is called, or its record is listed. -/
inductive SymEvent where
  | call (fn : Nat)
  | list (sym : Nat)
  deriving DecidableEq, Repr

/-- The function that is called. -/
def SymEvent.called : SymEvent → Option Nat
  | call fn => some fn
  | list _ => none

/-- The loop of `mod_symtab_add`, with what it does. -/
inductive SymsAddTrace (base : Nat) : Nat → Nat → ModSystem → List SymEvent → ModSystem → Prop
  | done {sym : Nat} {s : ModSystem} : SymsAddTrace base sym 0 s [] s
  | next {sym n : Nat} {s s' : ModSystem} {h : Heap} {node : Region} {events : List SymEvent} :
      (s.write (relocate s.heap.mem base sym)).heap.Alloc listNodeSize h node →
      SymsAddTrace base (sym + symbolSize) n
        { s with heap := h, exports := s.exports ++ [⟨node, sym⟩] } events s' →
      SymsAddTrace base sym (n + 1) s (.list sym :: events) s'

/-- `mod_symtab_add(base, symtab, szsymtab)`, with what it does for the symbols. -/
inductive ModSymtabAddTrace (base symtab szsymtab : Nat) (s : ModSystem)
    (events : List SymEvent) (s' : ModSystem) : Prop
  | intro {h : Heap} {node : Region} :
      (s.write (relocateModule s.heap.mem base symtab)).heap.Alloc listNodeSize h node →
      SymsAddTrace base (symtab + symbolSize) (szsymtab / symbolSize - 1)
        { s with heap := h, modules := s.modules ++ [⟨node, symtab⟩] } events s' →
      ModSymtabAddTrace base symtab szsymtab s events s'

/-- The section of exported symbols is added, with what is done for them. -/
def AddExportsTrace (elf shdr base : Nat) (s : ModSystem) (events : List SymEvent)
    (s' : ModSystem) : Prop :=
  match findExports s.heap.mem elf shdr with
  | some tmp => ModSymtabAddTrace base (elf + tmp.offset) tmp.size s events s'
  | none => events = [] ∧ s' = s

/-- The record, moved by the base, has a name with the prefix of the init symbols. -/
def InitSymbol (m : Mem) (base sym : Nat) : Prop :=
  hasPrefix (relocate m base sym) exportModInitPrefix sym = true

instance (m : Mem) (base sym : Nat) : Decidable (InitSymbol m base sym) :=
  inferInstanceAs (Decidable (_ = true))

/-- The records behind that of the module. -/
def moduleRecords (symtab szsymtab : Nat) : List Nat :=
  recordsFrom (symtab + symbolSize) (szsymtab / symbolSize - 1)

/-- What is documented for the symbols of a module that is loaded to `base`: the functions
of the init symbols are called, once each, and all others are listed in `exports`, in
order, with the name and the function moved by the base. -/
structure ExportContract (base symtab szsymtab : Nat) (s : ModSystem) (events : List SymEvent)
    (s' : ModSystem) : Prop where
  calls : (events.filterMap SymEvent.called).Perm
    (((moduleRecords symtab szsymtab).filter fun sym => InitSymbol s.heap.mem base sym).map
      fun sym => (symFn s.heap.mem sym + base) % 2 ^ 32)
  listed : ∃ nodes : List SymNode, s'.exports = s.exports ++ nodes ∧ nodes.map SymNode.sym =
    (moduleRecords symtab szsymtab).filter fun sym => ¬ InitSymbol s.heap.mem base sym
  moved : ∀ sym ∈ moduleRecords symtab szsymtab, ¬ InitSymbol s.heap.mem base sym →
    symName s'.heap.mem sym = (symName s.heap.mem sym + base) % 2 ^ 32 ∧
      symFn s'.heap.mem sym = (symFn s.heap.mem sym + base) % 2 ^ 32

section Symbols

variable {base sym count symtab szsymtab n : Nat} {s s' : ModSystem} {buffer image : Region}
  {h : Heap} {events : List SymEvent} {tmp : SectionHeader}

theorem SymsAddTrace.symsAdd (htrace : SymsAddTrace base sym count s events s') :
    SymsAdd base sym count s s' := by
  induction htrace with
  | done => exact .done
  | next halloc _ ih => exact .next halloc ih

/-- Every run of the loop does something for the symbols. -/
theorem SymsAdd.exists_trace (hadd : SymsAdd base sym count s s') :
    ∃ events, SymsAddTrace base sym count s events s' := by
  induction hadd with
  | done => exact ⟨[], .done⟩
  | next halloc _ ih =>
    obtain ⟨events, htrace⟩ := ih
    exact ⟨_, .next halloc htrace⟩

theorem AddExports.exists_trace {elf shdr : Nat} (hadd : AddExports elf shdr base s s') :
    ∃ events, AddExportsTrace elf shdr base s events s' := by
  unfold AddExports at hadd
  unfold AddExportsTrace
  split
  next tmp hfind =>
    rw [hfind] at hadd
    obtain ⟨halloc, hsyms⟩ := hadd
    obtain ⟨events, htrace⟩ := hsyms.exists_trace
    exact ⟨events, .intro halloc htrace⟩
  next hfind =>
    rw [hfind] at hadd
    exact ⟨[], rfl, hadd⟩

/-- The loop calls no function. -/
theorem SymsAddTrace.called_eq_nil (htrace : SymsAddTrace base sym count s events s') :
    events.filterMap SymEvent.called = [] := by
  induction htrace with
  | done => rfl
  | next _ _ ih => rwa [List.filterMap_cons_none rfl]

/-- The record of the module is moved first, and leaves the others as they were. -/
theorem moduleRecords_congr {node : Region} (hsize : symbolSize ≤ szsymtab)
    (hfits : symtab + szsymtab ≤ 2 ^ 32)
    (halloc : (s.write (relocateModule s.heap.mem base symtab)).heap.Alloc listNodeSize h node)
    (hbuffer : buffer ∈ s.heap.live)
    (hinside : ∀ x, Region.Has ⟨symtab, szsymtab⟩ x → buffer.Has x) :
    ∀ a ∈ moduleRecords symtab szsymtab,
      symName h.mem a = symName s.heap.mem a ∧ symFn h.mem a = symFn s.heap.mem a := by
  intro a ha
  have hhas : ∀ x, a ≤ x → x < a + symbolSize →
      (recordsRegion (symtab + symbolSize) (szsymtab / symbolSize - 1)).Has x :=
    fun x hle hlt => has_of_mem_recordsFrom ha hle hlt
  have hend : a + symbolSize ≤ 2 ^ 32 := by
    have hlast := recordsRegion_inside (hhas (a + 7) (by omega) (Nat.lt_succ_self (a + 7)))
    have hlt : a + 7 < symtab + szsymtab := hlast.2
    unfold symbolSize
    omega
  refine record_congr hend fun x hle hlt => ?_
  have hrecord := hhas x hle hlt
  refine (halloc.keeps buffer hbuffer x (hinside x (recordsRegion_inside hrecord))).trans ?_
  exact relocateModule_apply (by omega) (Or.inr hrecord.1)

/-- The symbols of a table in a region in use are treated as documented if and only if none
of them is an init symbol. -/
theorem exportContract_iff (hsize : symbolSize ≤ szsymtab) (hfits : symtab + szsymtab ≤ 2 ^ 32)
    (hbuffer : buffer ∈ s.heap.live)
    (hinside : ∀ x, Region.Has ⟨symtab, szsymtab⟩ x → buffer.Has x)
    (htrace : ModSymtabAddTrace base symtab szsymtab s events s') :
    ExportContract base symtab szsymtab s events s' ↔
      ∀ sym ∈ moduleRecords symtab szsymtab, ¬ InitSymbol s.heap.mem base sym := by
  obtain @⟨h, node, halloc, hloop⟩ := htrace
  constructor
  · intro hcontract sym hsym hinit
    have hcalls := hcontract.calls
    rw [hloop.called_eq_nil, List.nil_perm, List.map_eq_nil_iff, List.filter_eq_nil_iff] at hcalls
    exact hcalls sym hsym (decide_eq_true hinit)
  · intro hnone
    have hrecords := moduleRecords_congr hsize hfits halloc hbuffer hinside
    refine ⟨?_, ?_, fun sym hsym _ => ?_⟩
    · rw [hloop.called_eq_nil, List.filter_eq_nil_iff.mpr fun sym hsym =>
        decide_eq_true_iff.not.mpr (hnone sym hsym)]
      exact List.Perm.nil
    · rw [List.filter_eq_self.mpr fun sym hsym => decide_eq_true (hnone sym hsym)]
      exact hloop.symsAdd.exports
    · have hlive : buffer ∈ h.live := halloc.live ▸ List.mem_cons_of_mem _ hbuffer
      rw [← (hrecords sym hsym).1, ← (hrecords sym hsym).2]
      exact hloop.symsAdd.relocated (recordsRegion_fits hsize hfits) hlive
        (fun x hx => hinside x (recordsRegion_inside hx)) sym hsym

/-- A module is loaded from a buffer: its table is treated as documented if and only if
behind the record of the module there is no init symbol. -/
theorem modLoad_exportContract_iff (buffer : Region) (hok : s.heap.Ok)
    (hbuffer : buffer ∈ s.heap.live) (hroom : n ≤ buffer.size)
    (hgrant : Granted s.heap (getElfSize s.heap.mem buffer.start) h image)
    (hfind : findExports (s.load h buffer.start image).heap.mem buffer.start
      (buffer.start + shoff s.heap.mem buffer.start) = some tmp)
    (hsize : symbolSize ≤ tmp.size) (hinside : tmp.offset + tmp.size ≤ n)
    (hadd : AddExportsTrace buffer.start (buffer.start + shoff s.heap.mem buffer.start) image.start
      (s.load h buffer.start image) events s') :
    ExportContract image.start (buffer.start + tmp.offset) tmp.size (s.load h buffer.start image)
        events s' ↔
      ∀ sym ∈ moduleRecords (buffer.start + tmp.offset) tmp.size,
        ¬ InitSymbol (s.load h buffer.start image).heap.mem image.start sym := by
  have hend := hok.fits buffer hbuffer
  rw [AddExportsTrace, hfind] at hadd
  refine exportContract_iff hsize (by omega) (hgrant.mem_live hbuffer) (fun x hx => ?_) hadd
  obtain ⟨hstart, hstop⟩ := hx
  dsimp only at hstart hstop
  exact And.intro (by omega) (by omega)

end Symbols

/-! ## A module with one symbol -/

/-- A module with one symbol of that name, its function at 4. -/
def symbolFile (name : List UInt8) : List UInt8 :=
  wordBytes ([0x464c457f, 0x00010101, 0, 0, 0x00030002, 1, 0, 52, 84, 0, 0x00200034, 0x00280001,
    0x00010003] ++ [1, 232, 0, 0, 32, 32, 5, 4] ++ List.replicate 10 0 ++
    [0, 3, 0, 0, 204, 12, 0, 0, 0, 0] ++ [1, 1, 0, 0, 216, 16, 0, 0, 0, 0] ++
    [0x70786500, 0x7374726f, 0] ++ [16, 0, 20, 4] ++ List.replicate 4 0x90909090) ++
    [109, 111, 100, 0] ++ name ++ [0]

/-- The module is in a buffer. -/
def symbolSystem (name : List UInt8) : ModSystem where
  heap := ⟨stringMem 65536 (symbolFile name), [⟨65536, 320⟩]⟩
  exports := []
  modules := []

/-- Its segment is loaded. -/
def symbolLoaded (name : List UInt8) : ModSystem :=
  (symbolSystem name).load ((symbolSystem name).heap.give ⟨4096, 64⟩) 65536 ⟨4096, 64⟩

/-- `"f"` -/
def plainName : List UInt8 := [102]

/-- `"__init$f"` -/
def initName : List UInt8 := exportModInitPrefix ++ [102]

/-- The loader finds the table, and knows what is in it. -/
theorem symbolLoaded_table {name : List UInt8} (hname : name = plainName ∨ name = initName) :
    findExports (symbolLoaded name).heap.mem 65536
        (65536 + shoff (symbolSystem name).heap.mem 65536) = some ⟨1, 1, 216, 16⟩ ∧
      getElfSize (symbolSystem name).heap.mem 65536 = 32 ∧
      (InitSymbol (symbolLoaded name).heap.mem 4096 65760 ↔ name = initName) := by
  rcases hname with rfl | rfl
  · decide +kernel
  · decide +kernel

/-- The block of the image is given. -/
theorem symbolSystem_granted {name : List UInt8} (hname : name = plainName ∨ name = initName) :
    Granted (symbolSystem name).heap (getElfSize (symbolSystem name).heap.mem 65536)
      ((symbolSystem name).heap.give ⟨4096, 64⟩) ⟨4096, 64⟩ := by
  rw [(symbolLoaded_table hname).2.1]
  exact .block (Heap.give_alloc_second rfl (by decide) (by decide) (by decide) (by decide))

theorem symbolSystem_ok (name : List UInt8) : (symbolSystem name).heap.Ok :=
  Heap.ok_of_single rfl (by decide)

/-- A table with one symbol is added. -/
theorem oneSymbol_trace {s : ModSystem} (hlive : s.heap.live = [⟨4096, 64⟩, ⟨65536, 320⟩])
    (base symtab : Nat) :
    ∃ s', ModSymtabAddTrace base symtab 16 s [.list (symtab + symbolSize)] s' := by
  have hmodule : (s.write (relocateModule s.heap.mem base symtab)).heap.Alloc listNodeSize
      ((s.write (relocateModule s.heap.mem base symtab)).heap.give ⟨8192, 64⟩) ⟨8192, 64⟩ := by
    refine Heap.give_alloc (by decide) ?_ (by decide) ?_
    · show _ ∉ s.heap.live
      rw [hlive]
      decide
    · show ∀ r ∈ s.heap.live, _
      rw [hlive]
      decide
  refine ⟨_, .intro hmodule (.next (Heap.give_alloc (r := ⟨8256, 64⟩) ?_ ?_ ?_ ?_) .done)⟩
  · decide
  · show _ ∉ _ :: s.heap.live
    rw [hlive]
    decide
  · decide
  · show ∀ r ∈ _ :: s.heap.live, _
    rw [hlive]
    decide

/-- The table of the module is added. -/
theorem symbolLoaded_added {name : List UInt8} (hname : name = plainName ∨ name = initName) :
    ∃ s, AddExportsTrace 65536 (65536 + shoff (symbolSystem name).heap.mem 65536) 4096
      (symbolLoaded name) [.list 65760] s := by
  unfold AddExportsTrace
  rw [(symbolLoaded_table hname).1]
  exact oneSymbol_trace rfl 4096 65752

/-- A symbol that is no init symbol. -/
theorem modLoad_exportContract_plain : ∃ s',
    ExportContract 4096 65752 16 (symbolLoaded plainName) [.list 65760] s' := by
  obtain ⟨s', hadd⟩ := symbolLoaded_added (.inl rfl)
  have hname : plainName = plainName ∨ plainName = initName := .inl rfl
  have hiff := modLoad_exportContract_iff ⟨65536, 320⟩ (n := 264) (symbolSystem_ok plainName)
    List.mem_cons_self (by decide) (symbolSystem_granted hname) (symbolLoaded_table hname).1
    (by decide) (by decide) hadd
  have hplain : ¬ InitSymbol (symbolLoaded plainName).heap.mem 4096 65760 := by
    rw [(symbolLoaded_table hname).2.2]
    decide
  refine ⟨s', hiff.mpr fun sym hsym => ?_⟩
  have hrecord : sym = 65760 := List.mem_singleton.mp hsym
  rw [hrecord]
  exact hplain

/-- The function of an init symbol is not called, and the symbol is listed. -/
theorem modLoad_init_notCalled : ∃ (s : ModSystem) (h : Heap) (buffer image : Region) (n : Nat)
    (tmp : SectionHeader) (events : List SymEvent) (s' : ModSystem),
    s.heap.Ok ∧ buffer ∈ s.heap.live ∧ n ≤ buffer.size ∧
    LoadableFile s.heap.mem buffer.start n ∧
    Granted s.heap (getElfSize s.heap.mem buffer.start) h image ∧
    findExports (s.load h buffer.start image).heap.mem buffer.start
      (buffer.start + shoff s.heap.mem buffer.start) = some tmp ∧
    symbolSize ≤ tmp.size ∧ tmp.offset + tmp.size ≤ n ∧
    AddExportsTrace buffer.start (buffer.start + shoff s.heap.mem buffer.start) image.start
      (s.load h buffer.start image) events s' ∧
    ¬ ExportContract image.start (buffer.start + tmp.offset) tmp.size
      (s.load h buffer.start image) events s' := by
  have hname : initName = plainName ∨ initName = initName := .inr rfl
  obtain ⟨s', hadd⟩ := symbolLoaded_added hname
  refine ⟨symbolSystem initName, _, ⟨65536, 320⟩, ⟨4096, 64⟩, 264, _, _, s',
    symbolSystem_ok initName, List.mem_cons_self, by decide, ?_, symbolSystem_granted hname,
    (symbolLoaded_table hname).1, by decide, by decide, hadd, fun hcontract => ?_⟩
  · exact ⟨⟨by decide, by decide +kernel, by decide +kernel, by decide +kernel, by decide +kernel⟩,
      by decide +kernel⟩
  · have hinit : InitSymbol (symbolLoaded initName).heap.mem 4096 65760 :=
      (symbolLoaded_table hname).2.2.mpr rfl
    have hcalls := hcontract.calls
    rw [show [SymEvent.list 65760].filterMap SymEvent.called = [] from rfl, List.nil_perm,
      List.map_eq_nil_iff, List.filter_eq_nil_iff] at hcalls
    exact hcalls 65760 (List.mem_singleton_self _) (decide_eq_true hinit)

end Microboot.Kern
