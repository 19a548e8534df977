/-
  Kern/Exe/SectionNames.lean --- the table that the names of the sections are in.

  The header of a file designates a string table for the names of its sections.
  `elf_load_mod` does not look at that: it takes the last section that is a string
  table, whatever that one is for.

  The handler of the symbol table is called for the first section that is called
  `"exports"` by these strings.  It is the right one exactly if the last table and the
  designated one agree about which section is the first.
-/
import Microboot.Kern.Exe.Image

set_option autoImplicit false

namespace Microboot.Kern.Exe

open Microboot.Foundation

/-! ## Names -/

/-- `hdr->shstrndx` -/
def shstrndx (m : Mem) (hdr : Nat) : Nat := m.load16 (hdr + 50)

/-- The offset of the string table that the header designates. -/
def namesOff (m : Mem) (elf shdr : Nat) : Nat := (sectionHeader m (shstrndx m elf) shdr).offset

/-- The calls of `add_to_symtab`, with the address and the size of the table.  There are none
if the assertion on the offset of the strings fails. -/
def symtabCalls (m : Mem) (elf shdr : Nat) : List (Nat × Nat) :=
  if shstrtabOff m elf shdr = 0 then []
  else match findExports m elf shdr with
    | some tmp => [(elf + tmp.offset, tmp.size)]
    | none => []

/-- By the strings at the offset the section is called `"exports"`. -/
def CalledExports (m : Mem) (elf off : Nat) (tmp : SectionHeader) : Prop :=
  sameString m (elf + off + tmp.name) exportsName = true

instance (m : Mem) (elf off : Nat) (tmp : SectionHeader) : Decidable (CalledExports m elf off tmp) :=
  inferInstanceAs (Decidable (_ = true))

/-- It is the first section that is called so. -/
def FirstExports (m : Mem) (elf shdr off : Nat) (tmp : SectionHeader) : Prop :=
  ∃ pre post, sectionHeaders m elf shdr = pre ++ tmp :: post ∧ CalledExports m elf off tmp ∧
    ∀ other ∈ pre, ¬ CalledExports m elf off other

/-- No section is called so. -/
def NoExports (m : Mem) (elf shdr off : Nat) : Prop :=
  ∀ tmp ∈ sectionHeaders m elf shdr, ¬ CalledExports m elf off tmp

/-- The handler is called once, for the first section that has the name by the designated
strings, or not at all if there is none. -/
def Designated (m : Mem) (elf shdr : Nat) (calls : List (Nat × Nat)) : Prop :=
  (∃ tmp, FirstExports m elf shdr (namesOff m elf shdr) tmp ∧
      calls = [(elf + tmp.offset, tmp.size)]) ∨
    (NoExports m elf shdr (namesOff m elf shdr) ∧ calls = [])

/-- The strings of the last table, at `last`, and the designated strings agree about where the
first section is that is called `"exports"`; if there is one, `last` is not 0. -/
def TablesAgree (m : Mem) (elf shdr last : Nat) : Prop :=
  (∀ tmp, FirstExports m elf shdr (namesOff m elf shdr) tmp → last ≠ 0 ∧
      ∃ tmp', FirstExports m elf shdr last tmp' ∧ tmp'.offset = tmp.offset ∧
        tmp'.size = tmp.size) ∧
    (NoExports m elf shdr (namesOff m elf shdr) → last = 0 ∨ NoExports m elf shdr last)

/-- The section headers are in the file, and one of them is a string table that has the names
of all sections. -/
structure NamedSections (m : Mem) (elf n : Nat) : Prop where
  shdrsFit : shoff m elf + 40 * shnum m elf ≤ n
  index : shstrndx m elf < shnum m elf
  isTable : (sectionHeader m (shstrndx m elf) (elf + shoff m elf)).type = shtStrtab
  names : ∀ tmp ∈ sectionHeaders m elf (elf + shoff m elf), ∃ k < n,
    namesOff m elf (elf + shoff m elf) + tmp.name + k < n ∧
      m.load8 (elf + namesOff m elf (elf + shoff m elf) + tmp.name + k) = 0

/-- The memory behind the copies of the segments, when the sections are looked at. -/
def scanned (h h' : Heap) (elf base : Nat) : Mem :=
  loadSegments h'.mem elf (elf + phoff h.mem elf) base

section Names

variable {m m' : Mem} {elf elf' shdr off n : Nat} {tmp tmp' : SectionHeader}

theorem firstExports_iff : FirstExports m elf shdr off tmp ↔
    ((sectionHeaders m elf shdr).find? fun tmp => CalledExports m elf off tmp) = some tmp := by
  rw [List.find?_eq_some_iff_append, FirstExports]
  constructor
  · rintro ⟨pre, post, heq, hcalled, hnone⟩
    exact ⟨decide_eq_true hcalled, pre, post, heq, fun other hother => by simp [hnone other hother]⟩
  · rintro ⟨hcalled, pre, post, heq, hnone⟩
    exact ⟨pre, post, heq, of_decide_eq_true hcalled, fun other hother => by
      simpa using hnone other hother⟩

theorem noExports_iff : NoExports m elf shdr off ↔
    ((sectionHeaders m elf shdr).find? fun tmp => CalledExports m elf off tmp) = none := by
  rw [List.find?_eq_none, NoExports]
  simp

/-- The first section is one of them. -/
theorem FirstExports.not_noExports (h : FirstExports m elf shdr off tmp) :
    ¬ NoExports m elf shdr off := by
  obtain ⟨pre, post, heq, hcalled, -⟩ := h
  exact fun hnone => hnone tmp (heq ▸ List.mem_append_right _ List.mem_cons_self) hcalled

theorem FirstExports.unique (h : FirstExports m elf shdr off tmp)
    (h' : FirstExports m elf shdr off tmp') : tmp' = tmp :=
  Option.some.inj ((firstExports_iff.mp h').symm.trans (firstExports_iff.mp h))

theorem findExports_eq : findExports m elf shdr = (sectionHeaders m elf shdr).find? fun tmp =>
    CalledExports m elf (shstrtabOff m elf shdr) tmp :=
  List.find?_congr fun _ _ => Bool.decide_eq_true.symm

/-! ## The calls -/

theorem symtabCalls_eq_nil : symtabCalls m elf shdr = [] ↔
    shstrtabOff m elf shdr = 0 ∨ NoExports m elf shdr (shstrtabOff m elf shdr) := by
  rw [noExports_iff, ← findExports_eq, symtabCalls]
  split
  next hzero => exact iff_of_true rfl (Or.inl hzero)
  next hne =>
    cases findExports m elf shdr with
    | none => exact iff_of_true rfl (Or.inr rfl)
    | some tmp => simp [hne]

theorem symtabCalls_eq_singleton {call : Nat × Nat} : symtabCalls m elf shdr = [call] ↔
    shstrtabOff m elf shdr ≠ 0 ∧ ∃ tmp, FirstExports m elf shdr (shstrtabOff m elf shdr) tmp ∧
      (elf + tmp.offset, tmp.size) = call := by
  simp only [firstExports_iff]
  rw [← findExports_eq, symtabCalls]
  split
  next hzero => simp [hzero]
  next hne =>
    cases findExports m elf shdr with
    | none => simp
    | some tmp => simp [hne]

/-- The calls are the right ones exactly if the tables agree. -/
theorem symtabCalls_designated :
    Designated m elf shdr (symtabCalls m elf shdr) ↔
      TablesAgree m elf shdr (shstrtabOff m elf shdr) := by
  constructor
  · rintro (⟨tmp, hfirst, hcalls⟩ | ⟨hnone, hcalls⟩)
    · obtain ⟨hne, tmp', hfirst', heq⟩ := symtabCalls_eq_singleton.mp hcalls
      obtain ⟨haddr, hsize⟩ := Prod.mk.inj heq
      refine ⟨fun other hother => ?_, fun hnone => absurd hnone hfirst.not_noExports⟩
      rw [hfirst.unique hother]
      exact ⟨hne, tmp', hfirst', Nat.add_left_cancel haddr, hsize⟩
    · exact ⟨fun other hother => absurd hnone hother.not_noExports,
        fun _ => symtabCalls_eq_nil.mp hcalls⟩
  · rintro ⟨hfound, hnone⟩
    by_cases h : NoExports m elf shdr (namesOff m elf shdr)
    · exact Or.inr ⟨h, symtabCalls_eq_nil.mpr (hnone h)⟩
    · obtain ⟨tmp, htmp⟩ := Option.ne_none_iff_exists'.mp (noExports_iff.not.mp h)
      have hfirst := firstExports_iff.mpr htmp
      obtain ⟨hne, tmp', hfirst', hoff, hsize⟩ := hfound tmp hfirst
      refine Or.inl ⟨tmp, hfirst, symtabCalls_eq_singleton.mpr ⟨hne, tmp', hfirst', ?_⟩⟩
      rw [hoff, hsize]

/-- The last string table is the designated one. -/
theorem tablesAgree_of_eq {last : Nat} (heq : last = namesOff m elf shdr) (hne : last ≠ 0) :
    TablesAgree m elf shdr last := by
  rw [TablesAgree, ← heq]
  exact ⟨fun tmp hfirst => ⟨hne, tmp, hfirst, rfl, rfl⟩, Or.inr⟩

/-! ## The file behind the copies -/

/-- The strings that the header designates are in the file, which has them still. -/
theorem calledExports_congr (h : SameFile n m elf m' elf) (hnames : NamedSections m elf n)
    (htmp : tmp ∈ sectionHeaders m elf (elf + shoff m elf)) :
    CalledExports m' elf (namesOff m elf (elf + shoff m elf)) tmp ↔
      CalledExports m elf (namesOff m elf (elf + shoff m elf)) tmp := by
  obtain ⟨k, -, hk, hnul⟩ := hnames.names tmp htmp
  have hsame : sameString m' (elf + namesOff m elf (elf + shoff m elf) + tmp.name) exportsName =
      sameString m (elf + namesOff m elf (elf + shoff m elf) + tmp.name) exportsName := by
    refine sameString_congr (fun j hj => ?_) hnul (by decide)
    simp only [Nat.add_assoc]
    exact h _ (by omega)
  rw [CalledExports, hsame, CalledExports]

/-- What is right is the same in the file as it was. -/
theorem designated_congr (h : SameFile n m elf m' elf) (hheader : 52 ≤ n)
    (hnames : NamedSections m elf n) {calls : List (Nat × Nat)} :
    Designated m' elf (elf + shoff m elf) calls ↔ Designated m elf (elf + shoff m elf) calls := by
  have hsections := h.sectionHeaders hheader hnames.shdrsFit
  rw [h.shoff hheader] at hsections
  have hindex : shstrndx m' elf = shstrndx m elf := h.load16 (by omega)
  have hoff : namesOff m' elf (elf + shoff m elf) = namesOff m elf (elf + shoff m elf) := by
    rw [namesOff, hindex, h.sectionHeader hnames.shdrsFit hnames.index, namesOff]
  have hno : NoExports m' elf (elf + shoff m elf) (namesOff m elf (elf + shoff m elf)) ↔
      NoExports m elf (elf + shoff m elf) (namesOff m elf (elf + shoff m elf)) := by
    unfold NoExports
    rw [hsections]
    exact forall₂_congr fun tmp htmp => not_congr (calledExports_congr h hnames htmp)
  have hfirst : ∀ tmp,
      FirstExports m' elf (elf + shoff m elf) (namesOff m elf (elf + shoff m elf)) tmp ↔
        FirstExports m elf (elf + shoff m elf) (namesOff m elf (elf + shoff m elf)) tmp := by
    intro tmp
    rw [firstExports_iff, firstExports_iff, hsections]
    rw [List.find?_congr fun other hother =>
      decide_eq_decide.mpr (calledExports_congr h hnames hother)]
  unfold Designated
  rw [hoff, hno]
  simp only [hfirst]

/-- A module is loaded from a buffer: the handler is called for the section that the header's
strings call `"exports"` if and only if the last string table agrees with the designated
one about it. -/
theorem symtabCalls_designated_iff {h h' : Heap} {image : Region} (buffer : Region)
    (hok : h.Ok) (hbuffer : buffer ∈ h.live) (hroom : n ≤ buffer.size)
    (hwf : LoadableFile h.mem buffer.start n) (hnames : NamedSections h.mem buffer.start n)
    (hgrant : Granted h (getElfSize h.mem buffer.start) h' image)
    (hapart : SegmentsApart h.mem buffer.start n image.start) :
    Designated h.mem buffer.start (buffer.start + shoff h.mem buffer.start)
        (symtabCalls (scanned h h' buffer.start image.start) buffer.start
          (buffer.start + shoff h.mem buffer.start)) ↔
      TablesAgree (scanned h h' buffer.start image.start) buffer.start
        (buffer.start + shoff h.mem buffer.start)
        (shstrtabOff h.mem buffer.start (buffer.start + shoff h.mem buffer.start)) := by
  have hfile := (hgrant.loadsTo hok hbuffer hroom hwf hapart).loaded_sameFile
  have hlast := hfile.shstrtabOff hwf.header hnames.shdrsFit
  rw [hfile.shoff hwf.header] at hlast
  rw [← hlast]
  exact (designated_congr hfile hwf.header hnames).symm.trans symtabCalls_designated

end Names

/-! ## A file with two string tables -/

/-- `"\0exports"` and `"\0main"`. -/
def exportsTable : List Nat := [0x70786500, 0x7374726f, 0]

def mainTable : List Nat := [0x69616d00, 0x0000006e, 0]

/-- A module with the section of exported symbols between two string tables; the header
designates the section `ndx`. -/
def tableFile (ndx : Nat) (first second : List Nat) : List UInt8 :=
  wordBytes ([0x464c457f, 0x00010101, 0, 0, 0x00030002, 1, 0, 52, 84, 0, 0x00200034, 0x00280001,
    65536 * ndx + 4] ++ [1, 276, 0, 0, 16, 16, 5, 4] ++ List.replicate 10 0 ++
    [0, 3, 0, 0, 244, 12, 0, 0, 0, 0] ++ [1, 1, 0, 0, 256, 8, 0, 0, 0, 0] ++
    [0, 3, 0, 0, 264, 12, 0, 0, 0, 0] ++ first ++ [0, 0] ++ second ++ List.replicate 4 0x90909090)

/-- The file is in a buffer. -/
def tableHeap (ndx : Nat) (first second : List Nat) : Heap :=
  ⟨stringMem 65536 (tableFile ndx first second), [⟨65536, 320⟩]⟩

/-- The last table is the designated one. -/
def lastHeap : Heap := tableHeap 3 mainTable exportsTable

/-- The first table is the designated one, and the last one is for something else. -/
def firstHeap : Heap := tableHeap 1 exportsTable mainTable

/-- The block of the image is given. -/
theorem tableHeap_granted {ndx : Nat} {first second : List Nat}
    (hsize : getElfSize (tableHeap ndx first second).mem 65536 = 16) :
    Granted (tableHeap ndx first second) (getElfSize (tableHeap ndx first second).mem 65536)
      ((tableHeap ndx first second).give ⟨4096, 64⟩) ⟨4096, 64⟩ := by
  rw [hsize]
  exact .block (Heap.give_alloc_second rfl (by decide) (by decide) (by decide) (by decide))

/-- The strings that count are those that the header designates. -/
theorem symtabCalls_designated_last :
    Designated lastHeap.mem 65536 (65536 + shoff lastHeap.mem 65536)
      (symtabCalls (scanned lastHeap (lastHeap.give ⟨4096, 64⟩) 65536 4096) 65536
        (65536 + shoff lastHeap.mem 65536)) := by
  have hok : lastHeap.Ok := ⟨by decide, by decide, by decide⟩
  have hwf : LoadableFile lastHeap.mem 65536 292 :=
    ⟨⟨by decide, by decide +kernel, by decide +kernel, by decide +kernel, by decide +kernel⟩,
      by decide +kernel⟩
  have hnames : NamedSections lastHeap.mem 65536 292 :=
    ⟨by decide +kernel, by decide +kernel, by decide +kernel, by decide +kernel⟩
  have hsize : getElfSize lastHeap.mem 65536 = 16 := by decide +kernel
  have hapart : SegmentsApart lastHeap.mem 65536 292 4096 := by
    unfold SegmentsApart
    decide +kernel
  have hiff := symtabCalls_designated_iff ⟨65536, 320⟩ hok List.mem_cons_self (by decide) hwf
    hnames (tableHeap_granted hsize) hapart
  exact hiff.mpr (tablesAgree_of_eq (by decide +kernel) (by decide +kernel))

/-- Behind the right strings are others, and no section is found. -/
theorem firstHeap_notDesignated : ∃ (h h' : Heap) (buffer image : Region) (n : Nat),
    h.Ok ∧ buffer ∈ h.live ∧ n ≤ buffer.size ∧ LoadableFile h.mem buffer.start n ∧
    NamedSections h.mem buffer.start n ∧
    Granted h (getElfSize h.mem buffer.start) h' image ∧
    SegmentsEndIn h.mem buffer.start image.size ∧
    ¬ Designated h.mem buffer.start (buffer.start + shoff h.mem buffer.start)
      (symtabCalls (scanned h h' buffer.start image.start) buffer.start
        (buffer.start + shoff h.mem buffer.start)) := by
  have hsize : getElfSize firstHeap.mem 65536 = 16 := by decide +kernel
  have hcalls : symtabCalls (scanned firstHeap (firstHeap.give ⟨4096, 64⟩) 65536 4096) 65536
      (65536 + shoff firstHeap.mem 65536) = [] := by
    decide +kernel
  have hinside : SegmentsEndIn firstHeap.mem 65536 64 := by
    unfold SegmentsEndIn
    decide +kernel
  have hsome : ¬ NoExports firstHeap.mem 65536 (65536 + shoff firstHeap.mem 65536)
      (namesOff firstHeap.mem 65536 (65536 + shoff firstHeap.mem 65536)) := by
    unfold NoExports
    decide +kernel
  have hwf : LoadableFile firstHeap.mem 65536 292 :=
    ⟨⟨by decide, by decide +kernel, by decide +kernel, by decide +kernel, by decide +kernel⟩,
      by decide +kernel⟩
  have hnames : NamedSections firstHeap.mem 65536 292 :=
    ⟨by decide +kernel, by decide +kernel, by decide +kernel, by decide +kernel⟩
  refine ⟨firstHeap, firstHeap.give ⟨4096, 64⟩, ⟨65536, 320⟩, ⟨4096, 64⟩, 292,
    ⟨by decide, by decide, by decide⟩, List.mem_cons_self, by decide, hwf, hnames,
    tableHeap_granted hsize, hinside, fun hright => ?_⟩
  dsimp only at hright
  rw [hcalls] at hright
  rcases hright with ⟨tmp, -, hcall⟩ | ⟨hnone, -⟩
  · cases hcall
  · exact hsome hnone

end Microboot.Kern.Exe
