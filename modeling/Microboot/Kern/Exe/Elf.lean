/-
  Kern/Exe/Elf.lean --- the ELF loader, kern/exe/elf.c.

  A file is read where it lies in memory.  The functions here are the parts of
  `elf_load_mod` and `elf_run` between the calls of the allocator: how much memory
  the image needs, the copies of the segments, and the search for the section of
  exported symbols.

  What they read of a well-formed file lies inside the file, so two copies of it
  are read alike, and the copies of the segments stay inside the image.
-/
import Mathlib.Data.List.Find
import Microboot.Foundation.Regions
import Microboot.Kern.Stdlib

set_option autoImplicit false

namespace Microboot.Kern.Exe

open Microboot.Foundation

/-! ## The headers -/

section Headers

variable (m : Mem) (hdr i : Nat)

/-- `hdr->entry` -/
def entry : Nat := m.load32 (hdr + 24)

/-- `hdr->phoff` -/
def phoff : Nat := m.load32 (hdr + 28)

/-- `hdr->shoff` -/
def shoff : Nat := m.load32 (hdr + 32)

/-- `hdr->phnum` -/
def phnum : Nat := m.load16 (hdr + 44)

/-- `hdr->shnum` -/
def shnum : Nat := m.load16 (hdr + 48)

/-- `struct elf_program_header` -/
structure ProgramHeader where
  type : Nat
  offset : Nat
  paddr : Nat
  filesz : Nat
  memsz : Nat
  deriving DecidableEq, Repr

/-- `phdr[i]`, 32 bytes each. -/
def programHeader (phdr : Nat) : ProgramHeader where
  type := m.load32 (phdr + 32 * i)
  offset := m.load32 (phdr + 32 * i + 4)
  paddr := m.load32 (phdr + 32 * i + 12)
  filesz := m.load32 (phdr + 32 * i + 16)
  memsz := m.load32 (phdr + 32 * i + 20)

/-- `struct elf_tmpheader` -/
structure SectionHeader where
  name : Nat
  type : Nat
  offset : Nat
  size : Nat
  deriving DecidableEq, Repr

/-- `shdr[i]`, 40 bytes each. -/
def sectionHeader (shdr : Nat) : SectionHeader where
  name := m.load32 (shdr + 40 * i)
  type := m.load32 (shdr + 40 * i + 4)
  offset := m.load32 (shdr + 40 * i + 16)
  size := m.load32 (shdr + 40 * i + 20)

end Headers

/-- `ELF_PT_LOAD` -/
def elfPtLoad : Nat := 1

/-- The type of a string table section. -/
def shtStrtab : Nat := 0x03

/-- The program headers from `phdr` on. -/
def programHeaders (m : Mem) (hdr phdr : Nat) : List ProgramHeader :=
  (List.range (phnum m hdr)).map fun i => programHeader m i phdr

/-- The section headers from `shdr` on. -/
def sectionHeaders (m : Mem) (hdr shdr : Nat) : List SectionHeader :=
  (List.range (shnum m hdr)).map fun i => sectionHeader m i shdr

/-! ## The loader -/

/-- `get_elf_size(hdr)` -/
def getElfSize (m : Mem) (hdr : Nat) : Nat :=
  (programHeaders m hdr (hdr + phoff m hdr)).foldl (fun totalSize phdr =>
    if phdr.type = elfPtLoad then (totalSize + phdr.memsz) % 2 ^ 32 else totalSize) 0

/-- One segment is loaded, if it is to be. -/
def loadSegment (elf base : Nat) (m : Mem) (phdr : ProgramHeader) : Mem :=
  if phdr.type = elfPtLoad then memcpy m (base + phdr.paddr) (elf + phdr.offset) phdr.filesz else m

/-- The segments are loaded, from the `i`-th on.  The number of headers is read again
behind each copy; it has 16 bits, so 2^16 rounds are enough. -/
def loadSegmentsFrom (elf phdr base : Nat) : Nat → Nat → Mem → Mem
  | 0, _, m => m
  | fuel + 1, i, m =>
    if i < phnum m elf then
      loadSegmentsFrom elf phdr base fuel (i + 1)
        (loadSegment elf base m (programHeader m i phdr))
    else m

/-- The loadable segments of the file at `elf` are loaded to `base`. -/
def loadSegments (m : Mem) (elf phdr base : Nat) : Mem :=
  loadSegmentsFrom elf phdr base (2 ^ 16) 0 m

/-- `shstrtab_off`: the last string table section counts. -/
def shstrtabOff (m : Mem) (elf shdr : Nat) : Nat :=
  (sectionHeaders m elf shdr).foldl (fun shstrtabOff tmp =>
    if tmp.type = shtStrtab then tmp.offset else shstrtabOff) 0

/-- `strcmp(p, s) == 0` -/
def sameString (m : Mem) (p : Nat) : List UInt8 → Bool
  | [] => m.load8 p = 0
  | c :: s => m.load8 p = c && sameString m (p + 1) s

/-- `"exports"` -/
def exportsName : List UInt8 := [101, 120, 112, 111, 114, 116, 115]

/-- The first section that is called `"exports"`. -/
def findExports (m : Mem) (elf shdr : Nat) : Option SectionHeader :=
  (sectionHeaders m elf shdr).find? fun tmp =>
    sameString m (elf + shstrtabOff m elf shdr + tmp.name) exportsName

/-! ## Well-formed files -/

/-- What the loader reads of the `n` bytes at `elf` lies inside them: the headers, the
segments, the names of the sections with their terminators, and the exported symbols,
which begin with the record of the module.  The segments fit the image. -/
structure WellFormed (m : Mem) (elf n : Nat) : Prop where
  header : 52 ≤ n
  phdrsFit : phoff m elf + 32 * phnum m elf ≤ n
  shdrsFit : shoff m elf + 40 * shnum m elf ≤ n
  segments : ∀ phdr ∈ programHeaders m elf (elf + phoff m elf), phdr.type = elfPtLoad →
    phdr.offset + phdr.filesz ≤ n ∧ phdr.paddr + phdr.filesz ≤ getElfSize m elf
  names : ∀ tmp ∈ sectionHeaders m elf (elf + shoff m elf), ∃ k < n,
    shstrtabOff m elf (elf + shoff m elf) + tmp.name + k < n ∧
      m.load8 (elf + shstrtabOff m elf (elf + shoff m elf) + tmp.name + k) = 0
  exports : ∀ tmp ∈ findExports m elf (elf + shoff m elf),
    8 ≤ tmp.size ∧ tmp.offset + tmp.size ≤ n

/-- The `n` bytes at `p` in the one memory are those at `p'` in the other. -/
def SameFile (n : Nat) (m : Mem) (p : Nat) (m' : Mem) (p' : Nat) : Prop :=
  ∀ i < n, m'.load8 (p' + i) = m.load8 (p + i)

section SameFile

variable {n p p' i off : Nat} {m m' : Mem}

theorem SameFile.load16 (h : SameFile n m p m' p') (hoff : off + 2 ≤ n) :
    m'.load16 (p' + off) = m.load16 (p + off) := by
  simp only [Mem.load16, Nat.add_assoc]
  rw [h off (by omega), h (off + 1) (by omega)]

theorem SameFile.load32 (h : SameFile n m p m' p') (hoff : off + 4 ≤ n) :
    m'.load32 (p' + off) = m.load32 (p + off) := by
  simp only [Mem.load32, Nat.add_assoc]
  rw [h off (by omega), h (off + 1) (by omega), h (off + 2) (by omega), h (off + 3) (by omega)]

theorem SameFile.phnum (h : SameFile n m p m' p') (hheader : 52 ≤ n) :
    Exe.phnum m' p' = Exe.phnum m p := h.load16 (by omega)

theorem SameFile.shnum (h : SameFile n m p m' p') (hheader : 52 ≤ n) :
    Exe.shnum m' p' = Exe.shnum m p := h.load16 (by omega)

theorem SameFile.phoff (h : SameFile n m p m' p') (hheader : 52 ≤ n) :
    Exe.phoff m' p' = Exe.phoff m p := h.load32 (by omega)

theorem SameFile.shoff (h : SameFile n m p m' p') (hheader : 52 ≤ n) :
    Exe.shoff m' p' = Exe.shoff m p := h.load32 (by omega)

theorem SameFile.programHeader (h : SameFile n m p m' p')
    (hfits : Exe.phoff m p + 32 * Exe.phnum m p ≤ n) (hi : i < Exe.phnum m p) :
    Exe.programHeader m' i (p' + Exe.phoff m p) = Exe.programHeader m i (p + Exe.phoff m p) := by
  simp only [Exe.programHeader, Nat.add_assoc]
  rw [h.load32 (by omega), h.load32 (by omega), h.load32 (by omega), h.load32 (by omega),
    h.load32 (by omega)]

theorem SameFile.sectionHeader (h : SameFile n m p m' p')
    (hfits : Exe.shoff m p + 40 * Exe.shnum m p ≤ n) (hi : i < Exe.shnum m p) :
    Exe.sectionHeader m' i (p' + Exe.shoff m p) = Exe.sectionHeader m i (p + Exe.shoff m p) := by
  simp only [Exe.sectionHeader, Nat.add_assoc]
  rw [h.load32 (by omega), h.load32 (by omega), h.load32 (by omega), h.load32 (by omega)]

theorem SameFile.programHeaders (h : SameFile n m p m' p') (hheader : 52 ≤ n)
    (hfits : Exe.phoff m p + 32 * Exe.phnum m p ≤ n) :
    Exe.programHeaders m' p' (p' + Exe.phoff m' p') =
      Exe.programHeaders m p (p + Exe.phoff m p) := by
  unfold Exe.programHeaders
  rw [h.phnum hheader, h.phoff hheader, List.map_congr_left fun i hi =>
    h.programHeader hfits (List.mem_range.mp hi)]

theorem SameFile.getElfSize (h : SameFile n m p m' p') (hheader : 52 ≤ n)
    (hfits : Exe.phoff m p + 32 * Exe.phnum m p ≤ n) :
    Exe.getElfSize m' p' = Exe.getElfSize m p := by
  unfold Exe.getElfSize
  rw [h.programHeaders hheader hfits]

theorem SameFile.sectionHeaders (h : SameFile n m p m' p') (hheader : 52 ≤ n)
    (hfits : Exe.shoff m p + 40 * Exe.shnum m p ≤ n) :
    Exe.sectionHeaders m' p' (p' + Exe.shoff m' p') =
      Exe.sectionHeaders m p (p + Exe.shoff m p) := by
  unfold Exe.sectionHeaders
  rw [h.shnum hheader, h.shoff hheader, List.map_congr_left fun i hi =>
    h.sectionHeader hfits (List.mem_range.mp hi)]

theorem SameFile.shstrtabOff (h : SameFile n m p m' p') (hheader : 52 ≤ n)
    (hfits : Exe.shoff m p + 40 * Exe.shnum m p ≤ n) :
    Exe.shstrtabOff m' p' (p' + Exe.shoff m' p') = Exe.shstrtabOff m p (p + Exe.shoff m p) := by
  unfold Exe.shstrtabOff
  rw [h.sectionHeaders hheader hfits]

/-- A comparison stops at the terminator. -/
theorem sameString_congr {s : List UInt8} {k : Nat}
    (hsame : ∀ i ≤ k, m'.load8 (p' + i) = m.load8 (p + i)) (hnul : m.load8 (p + k) = 0)
    (hs : 0 ∉ s) : sameString m' p' s = sameString m p s := by
  induction s generalizing p p' k with
  | nil =>
    have hfirst : m'.load8 p' = m.load8 p := hsame 0 (Nat.zero_le k)
    rw [sameString, sameString, hfirst]
  | cons c s ih =>
    have hfirst : m'.load8 p' = m.load8 p := hsame 0 (Nat.zero_le k)
    rw [sameString, sameString, hfirst]
    cases k with
    | zero =>
      have hc : m.load8 p ≠ c := by
        rw [show m.load8 p = 0 from hnul]
        rintro rfl
        exact hs List.mem_cons_self
      simp [hc]
    | succ k =>
      have hsame' : ∀ i ≤ k, m'.load8 (p' + 1 + i) = m.load8 (p + 1 + i) := by
        intro i hi
        rw [Nat.add_assoc, Nat.add_assoc, Nat.add_comm 1 i]
        exact hsame (i + 1) (Nat.succ_le_succ hi)
      have hnul' : m.load8 (p + 1 + k) = 0 := by
        rwa [Nat.add_assoc, Nat.add_comm 1 k]
      rw [ih hsame' hnul' fun hmem => hs (List.mem_cons_of_mem _ hmem)]

/-- Both copies of a file have the same section of exported symbols. -/
theorem SameFile.findExports (h : SameFile n m p m' p') (hwf : WellFormed m p n) :
    Exe.findExports m' p' (p' + Exe.shoff m' p') = Exe.findExports m p (p + Exe.shoff m p) := by
  unfold Exe.findExports
  rw [h.shstrtabOff hwf.header hwf.shdrsFit, h.sectionHeaders hwf.header hwf.shdrsFit]
  refine List.find?_congr fun tmp htmp => ?_
  obtain ⟨k, -, hk, hnul⟩ := hwf.names tmp htmp
  refine sameString_congr (fun j hj => ?_) hnul (by decide)
  simp only [Nat.add_assoc]
  exact h _ (by omega)

theorem SameFile.wellFormed (h : SameFile n m p m' p') (hwf : WellFormed m p n) :
    WellFormed m' p' n where
  header := hwf.header
  phdrsFit := by
    rw [h.phoff hwf.header, h.phnum hwf.header]
    exact hwf.phdrsFit
  shdrsFit := by
    rw [h.shoff hwf.header, h.shnum hwf.header]
    exact hwf.shdrsFit
  segments := by
    rw [h.programHeaders hwf.header hwf.phdrsFit, h.getElfSize hwf.header hwf.phdrsFit]
    exact hwf.segments
  names := by
    rw [h.sectionHeaders hwf.header hwf.shdrsFit, h.shstrtabOff hwf.header hwf.shdrsFit]
    intro tmp htmp
    obtain ⟨k, hkn, hk, hnul⟩ := hwf.names tmp htmp
    refine ⟨k, hkn, hk, ?_⟩
    simp only [Nat.add_assoc] at hnul hk ⊢
    rw [h _ hk, hnul]
  exports := by
    rw [h.findExports hwf]
    exact hwf.exports

/-- A file is read in a buffer as it is on its own. -/
theorem sameFile_of_seg {file : List UInt8} (hseg : Seg m p file)
    (hfits : p + file.length ≤ 2 ^ 32) : SameFile file.length (stringMem 0 file) 0 m p := by
  intro i hi
  rw [hseg.load8 i hi, Nat.zero_add, Mem.load8_eq _ (by omega)]
  simp [stringMem, hi]

end SameFile

/-! ## What is loaded stays inside the image -/

section Load

variable {m₀ m : Mem} {elf n : Nat} {image : Region}

/-- Outside of the image nothing is different. -/
def SameOutside (image : Region) (m m' : Mem) : Prop := ∀ x, ¬ image.Has x → m' x = m x

theorem SameOutside.sameFile (h : SameOutside image m₀ m)
    (hapart : ∀ x, elf ≤ x → x < elf + n → ¬ image.Has x) (hfits : elf + n ≤ 2 ^ 32) :
    SameFile n m₀ elf m elf := by
  intro i hi
  rw [Mem.load8_eq _ (by omega), Mem.load8_eq _ (by omega)]
  exact h _ (hapart _ (by omega) (by omega))

theorem loadSegment_sameOutside {phdr : ProgramHeader} (himage : image.start + image.size ≤ 2 ^ 32)
    (hphdr : phdr.type = elfPtLoad → phdr.paddr + phdr.filesz ≤ image.size) :
    SameOutside image m (loadSegment elf image.start m phdr) := by
  intro x hx
  unfold loadSegment
  split
  · next hload =>
    have hinside := hphdr hload
    unfold Region.Has at hx
    exact Mem.copy_apply_of_disjoint _ m _ _ x (by omega) (by omega)
  · rfl

/-- The segments of a well-formed file apart from its image are loaded into the image. -/
theorem loadSegmentsFrom_sameOutside (hwf : WellFormed m₀ elf n) (hfits : elf + n ≤ 2 ^ 32)
    (himage : image.start + image.size ≤ 2 ^ 32) (hroom : getElfSize m₀ elf ≤ image.size)
    (hapart : ∀ x, elf ≤ x → x < elf + n → ¬ image.Has x) (fuel i : Nat)
    (h : SameOutside image m₀ m) :
    SameOutside image m₀
      (loadSegmentsFrom elf (elf + phoff m₀ elf) image.start fuel i m) := by
  induction fuel generalizing i m with
  | zero => exact h
  | succ fuel ih =>
    have hfile := h.sameFile hapart hfits
    rw [loadSegmentsFrom]
    split
    · next hi =>
      rw [hfile.phnum hwf.header] at hi
      rw [hfile.programHeader hwf.phdrsFit hi]
      refine ih (i + 1) fun x hx => ?_
      have hsegment := hwf.segments _ (List.mem_map.mpr ⟨i, List.mem_range.mpr hi, rfl⟩)
      rw [loadSegment_sameOutside himage (fun hload => by have := hsegment hload; omega) x hx]
      exact h x hx
    · exact h

theorem loadSegments_sameOutside (hwf : WellFormed m₀ elf n) (hfits : elf + n ≤ 2 ^ 32)
    (himage : image.start + image.size ≤ 2 ^ 32) (hroom : getElfSize m₀ elf ≤ image.size)
    (hapart : ∀ x, elf ≤ x → x < elf + n → ¬ image.Has x) :
    SameOutside image m₀ (loadSegments m₀ elf (elf + phoff m₀ elf) image.start) :=
  loadSegmentsFrom_sameOutside hwf hfits himage hroom hapart _ _ fun _ _ => rfl

end Load

end Microboot.Kern.Exe
