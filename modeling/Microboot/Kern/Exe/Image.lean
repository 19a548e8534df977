/-
  Kern/Exe/Image.lean --- what an image holds when its segments are loaded.

  The loop of the loader copies the data of a segment, `filesz` bytes.  A segment is
  larger than its data by what is to be zero when the program starts, and of that
  nothing is written: the bytes between `filesz` and `memsz` are those that the block
  has had before.

  The ranges of the segments are disjoint, so that what one copy has written the
  others leave alone, and the file is apart from the image.
-/
import Microboot.Kern.Exe.Segments

set_option autoImplicit false

namespace Microboot.Kern.Exe

open Microboot.Foundation

/-- The program headers are well formed, and the data of the segments is in the file. -/
structure LoadableFile (m : Mem) (elf n : Nat) : Prop extends WellFormedSegments m elf n where
  sources : ∀ phdr ∈ programHeaders m elf (elf + phoff m elf), phdr.type = elfPtLoad →
    phdr.offset + phdr.filesz ≤ n

/-- Each loadable segment, loaded to `base`, is inside the address space and apart from the
file. -/
def SegmentsApart (m : Mem) (elf n base : Nat) : Prop :=
  ∀ phdr ∈ programHeaders m elf (elf + phoff m elf), phdr.type = elfPtLoad →
    base + phdr.paddr + phdr.memsz ≤ 2 ^ 32 ∧
      Region.Apart ⟨elf, n⟩ ⟨base + phdr.paddr, phdr.memsz⟩

/-- Each loadable segment ends inside a block of that size. -/
def SegmentsEndIn (m : Mem) (elf size : Nat) : Prop :=
  ∀ phdr ∈ programHeaders m elf (elf + phoff m elf), phdr.type = elfPtLoad →
    phdr.paddr + phdr.memsz ≤ size

/-- The image at `base` in `m` is that of the file at `elf` in `m₀`: of each loadable segment
it has the data, and zeros behind it. -/
def ImageLoaded (m₀ : Mem) (elf : Nat) (m : Mem) (base : Nat) : Prop :=
  ∀ phdr ∈ programHeaders m₀ elf (elf + phoff m₀ elf), phdr.type = elfPtLoad →
    (∀ k < phdr.filesz, m.load8 (base + phdr.paddr + k) = m₀.load8 (elf + phdr.offset + k)) ∧
      ∀ k, phdr.filesz ≤ k → k < phdr.memsz → m.load8 (base + phdr.paddr + k) = 0

/-- The block at `base` is clear where the segments have no data. -/
def TailsClear (m₀ : Mem) (elf : Nat) (m : Mem) (base : Nat) : Prop :=
  ∀ phdr ∈ programHeaders m₀ elf (elf + phoff m₀ elf), phdr.type = elfPtLoad →
    ∀ k, phdr.filesz ≤ k → k < phdr.memsz → m.load8 (base + phdr.paddr + k) = 0

section Image

variable {m₀ m m' : Mem} {elf n base i j : Nat}

/-- The `j`-th header of the file. -/
def header (m₀ : Mem) (elf j : Nat) : ProgramHeader := programHeader m₀ j (elf + phoff m₀ elf)

theorem header_mem (hj : j < phnum m₀ elf) :
    header m₀ elf j ∈ programHeaders m₀ elf (elf + phoff m₀ elf) :=
  List.mem_map_of_mem (List.mem_range.mpr hj)

theorem exists_header {phdr : ProgramHeader}
    (hphdr : phdr ∈ programHeaders m₀ elf (elf + phoff m₀ elf)) :
    ∃ j < phnum m₀ elf, header m₀ elf j = phdr := by
  obtain ⟨j, hj, heq⟩ := List.mem_map.mp hphdr
  exact ⟨j, List.mem_range.mp hj, heq⟩

theorem loadsz_of_load {phdr : ProgramHeader} (hload : phdr.type = elfPtLoad) :
    phdr.loadsz = phdr.filesz := if_pos hload

theorem load_of_lt_loadsz {phdr : ProgramHeader} {l : Nat} (hl : l < phdr.loadsz) :
    phdr.type = elfPtLoad := by
  by_contra hnot
  rw [ProgramHeader.loadsz, if_neg hnot] at hl
  exact Nat.not_lt_zero l hl

/-- Two segments are apart. -/
theorem LoadableFile.apart (hwf : LoadableFile m₀ elf n) (hij : i < j) (hj : j < phnum m₀ elf)
    (hload : (header m₀ elf i).type = elfPtLoad) (hload' : (header m₀ elf j).type = elfPtLoad) :
    Region.Apart ⟨(header m₀ elf i).paddr, (header m₀ elf i).memsz⟩
      ⟨(header m₀ elf j).paddr, (header m₀ elf j).memsz⟩ := by
  have hpairwise := List.pairwise_filter.mp hwf.disjoint
  rw [programHeaders, List.pairwise_map, List.pairwise_iff_getElem] at hpairwise
  have hapart := hpairwise i j (by rw [List.length_range]; omega) (by rwa [List.length_range]) hij
  rw [List.getElem_range, List.getElem_range] at hapart
  exact hapart (decide_eq_true hload) (decide_eq_true hload')

/-- The data of two segments does not meet. -/
theorem LoadableFile.data_ne (hwf : LoadableFile m₀ elf n) (hi : i < phnum m₀ elf)
    (hj : j < phnum m₀ elf) (hne : i ≠ j) {k l : Nat}
    (hload : (header m₀ elf i).type = elfPtLoad) (hk : k < (header m₀ elf i).memsz)
    (hl : l < (header m₀ elf j).loadsz) :
    base + (header m₀ elf i).paddr + k ≠ base + (header m₀ elf j).paddr + l := by
  have hload' := load_of_lt_loadsz hl
  rw [loadsz_of_load hload'] at hl
  have hle := hwf.filesz_le _ (header_mem hj) hload'
  rcases Nat.lt_or_gt_of_ne hne with hlt | hgt
  · have hapart := hwf.apart hlt hj hload hload'
    unfold Region.Apart at hapart
    dsimp only at hapart
    omega
  · have hapart := hwf.apart hgt hi hload' hload
    unfold Region.Apart at hapart
    dsimp only at hapart
    omega

/-- The file at `elf` in `m` is the loadable one in `m₀`, and it is to be loaded to `base`. -/
structure LoadsTo (m₀ : Mem) (elf n base : Nat) (m : Mem) : Prop where
  file : LoadableFile m₀ elf n
  fits : elf + n ≤ 2 ^ 32
  targets : SegmentsApart m₀ elf n base
  same : SameFile n m₀ elf m elf

namespace LoadsTo

/-- What is copied comes from the file, and goes where it is apart from it. -/
theorem loadsz_bounds (h : LoadsTo m₀ elf n base m) (hj : j < phnum m₀ elf)
    (hpos : (header m₀ elf j).loadsz ≠ 0) :
    (header m₀ elf j).offset + (header m₀ elf j).loadsz ≤ n ∧
      base + (header m₀ elf j).paddr + (header m₀ elf j).loadsz ≤ 2 ^ 32 ∧
      Region.Apart ⟨elf, n⟩ ⟨base + (header m₀ elf j).paddr, (header m₀ elf j).loadsz⟩ := by
  have hload := load_of_lt_loadsz (Nat.pos_of_ne_zero hpos)
  have hle := h.file.filesz_le _ (header_mem hj) hload
  obtain ⟨hfits, hapart⟩ := h.targets _ (header_mem hj) hload
  rw [loadsz_of_load hload]
  unfold Region.Apart at hapart ⊢
  dsimp only at hapart ⊢
  exact ⟨h.file.sources _ (header_mem hj) hload, by omega, by omega⟩

/-- No data goes to the file. -/
theorem file_ne (h : LoadsTo m₀ elf n base m) (hj : j < phnum m₀ elf) {k l : Nat} (hk : k < n)
    (hl : l < (header m₀ elf j).loadsz) : elf + k ≠ base + (header m₀ elf j).paddr + l := by
  obtain ⟨-, -, hapart⟩ := h.loadsz_bounds hj (Nat.ne_of_gt (Nat.zero_lt_of_lt hl))
  unfold Region.Apart at hapart
  dsimp only at hapart
  omega

/-- One segment: its data is copied, and all else is as it was. -/
theorem segment (h : LoadsTo m₀ elf n base m) (hj : j < phnum m₀ elf) :
    (∀ y, (∀ l < (header m₀ elf j).loadsz, y ≠ base + (header m₀ elf j).paddr + l) →
        loadSegment elf base m (header m₀ elf j) y = m y) ∧
      ∀ l < (header m₀ elf j).loadsz, loadSegment elf base m (header m₀ elf j)
          (base + (header m₀ elf j).paddr + l) =
        m₀.load8 (elf + (header m₀ elf j).offset + l) := by
  by_cases hzero : (header m₀ elf j).loadsz = 0
  · rw [loadSegment_of_loadsz_eq_zero hzero, hzero]
    exact ⟨fun y _ => rfl, fun l hl => absurd hl (Nat.not_lt_zero l)⟩
  · obtain ⟨hsource, htarget, hapart⟩ := h.loadsz_bounds hj hzero
    have hfits := h.fits
    have hmovable : Movable (base + (header m₀ elf j).paddr)
        (elf + (header m₀ elf j).offset) (header m₀ elf j).loadsz := by
      unfold Region.Apart at hapart
      dsimp only at hapart
      exact ⟨by omega, by omega, by omega⟩
    obtain ⟨hcopied, hkept⟩ := hmovable.contents (m := m)
    rw [loadSegment_of_loadsz_ne_zero hzero]
    refine ⟨fun y hy => hkept y fun hhas => ?_, fun l hl => (hcopied l hl).trans ?_⟩
    · obtain ⟨l, rfl⟩ := Nat.exists_eq_add_of_le hhas.1
      exact hy l (Nat.lt_of_add_lt_add_left hhas.2) rfl
    · have hbyte := h.same ((header m₀ elf j).offset + l) (by omega)
      rwa [Mem.load8_eq m (by omega), ← Nat.add_assoc] at hbyte

/-- The file is as it was behind it. -/
theorem next (h : LoadsTo m₀ elf n base m) (hj : j < phnum m₀ elf) :
    LoadsTo m₀ elf n base (loadSegment elf base m (header m₀ elf j)) := by
  have hfits := h.fits
  refine { h with same := fun k hk => ?_ }
  rw [← h.same k hk, Mem.load8_eq _ (by omega), Mem.load8_eq _ (by omega)]
  exact (h.segment hj).1 _ fun l hl => h.file_ne hj hk hl

/-- What the loop leaves from a header on: the data of the segments that are still to come,
and all else as it was. -/
theorem from_apply (h : LoadsTo m₀ elf n base m) (fuel i : Nat)
    (hfuel : phnum m₀ elf ≤ i + fuel) :
    (∀ y, (∀ j, i ≤ j → j < phnum m₀ elf → ∀ l < (header m₀ elf j).loadsz,
        y ≠ base + (header m₀ elf j).paddr + l) →
      loadSegmentsFrom elf (elf + phoff m₀ elf) base fuel i m y = m y) ∧
    ∀ j, i ≤ j → j < phnum m₀ elf → ∀ l < (header m₀ elf j).loadsz,
      loadSegmentsFrom elf (elf + phoff m₀ elf) base fuel i m
        (base + (header m₀ elf j).paddr + l) =
      m₀.load8 (elf + (header m₀ elf j).offset + l) := by
  induction fuel generalizing i m with
  | zero => exact ⟨fun y _ => rfl, fun j hij hj => by omega⟩
  | succ fuel ih =>
    rw [loadSegmentsFrom]
    by_cases hi : i < phnum m elf
    · rw [if_pos hi]
      rw [h.same.phnum h.file.header] at hi
      rw [h.same.programHeader h.file.phdrsFit hi]
      obtain ⟨hkept, hdata⟩ := h.segment hi
      obtain ⟨hrest, hlater⟩ := ih (h.next hi) (i + 1) (by omega)
      refine ⟨fun y hy => ?_, fun j hij hj l hl => ?_⟩
      · refine (hrest y fun j hij => hy j (Nat.le_of_succ_le hij)).trans ?_
        exact hkept y (hy i (Nat.le_refl i) hi)
      · rcases Nat.eq_or_lt_of_le hij with rfl | hlt
        · -- the later segments leave the data of this one alone
          have hload := load_of_lt_loadsz hl
          have hmemsz : l < (header m₀ elf i).memsz := by
            have hle := h.file.filesz_le _ (header_mem hi) hload
            rw [loadsz_of_load hload] at hl
            exact Nat.lt_of_lt_of_le hl hle
          have hne : ∀ j, i + 1 ≤ j → j < phnum m₀ elf → ∀ k < (header m₀ elf j).loadsz,
              base + (header m₀ elf i).paddr + l ≠
                base + (header m₀ elf j).paddr + k :=
            fun j hij hj k hk => h.file.data_ne hi hj (Nat.ne_of_lt hij) hload hmemsz hk
          exact (hrest _ hne).trans (hdata l hl)
        · exact hlater j hlt hj l hl
    · rw [if_neg hi]
      rw [h.same.phnum h.file.header] at hi
      exact ⟨fun y _ => rfl, fun j hij hj => by omega⟩

/-- The data of a segment in the image. -/
theorem data (h : LoadsTo m₀ elf n base m) (hj : j < phnum m₀ elf)
    (hload : (header m₀ elf j).type = elfPtLoad) {k : Nat} (hk : k < (header m₀ elf j).filesz) :
    loadSegments m elf (elf + phoff m₀ elf) base
        (base + (header m₀ elf j).paddr + k) =
      m₀.load8 (elf + (header m₀ elf j).offset + k) := by
  have hcount := phnum_lt m₀ elf
  rw [← loadsz_of_load hload] at hk
  exact (h.from_apply (2 ^ 16) 0 (by omega)).2 j (Nat.zero_le j) hj k hk

/-- Behind the data of a segment is what was there before. -/
theorem tail (h : LoadsTo m₀ elf n base m) (hj : j < phnum m₀ elf)
    (hload : (header m₀ elf j).type = elfPtLoad) {k : Nat} (hle : (header m₀ elf j).filesz ≤ k)
    (hk : k < (header m₀ elf j).memsz) :
    loadSegments m elf (elf + phoff m₀ elf) base
        (base + (header m₀ elf j).paddr + k) =
      m (base + (header m₀ elf j).paddr + k) := by
  have hcount := phnum_lt m₀ elf
  refine (h.from_apply (2 ^ 16) 0 (by omega)).1 _ fun i _ hi l hl => ?_
  by_cases heq : j = i
  · rw [← heq, loadsz_of_load hload] at hl
    rw [← heq]
    omega
  · exact h.file.data_ne hj hi heq hload hk hl

/-- The file is as it was behind the loop. -/
theorem loaded_sameFile (h : LoadsTo m₀ elf n base m) :
    SameFile n m₀ elf (loadSegments m elf (elf + phoff m₀ elf) base) elf := by
  have hfits := h.fits
  have hcount := phnum_lt m₀ elf
  intro k hk
  rw [← h.same k hk, Mem.load8_eq _ (by omega), Mem.load8_eq _ (by omega)]
  exact (h.from_apply (2 ^ 16) 0 (by omega)).1 _ fun j _ hj l hl => h.file_ne hj hk hl

end LoadsTo

/-- A memory that has the segments as the loop leaves them: the image is loaded exactly if
it was clear where the segments have no data. -/
theorem imageLoaded_iff (h : LoadsTo m₀ elf n base m)
    (hsame : ∀ phdr ∈ programHeaders m₀ elf (elf + phoff m₀ elf), phdr.type = elfPtLoad →
      ∀ k < phdr.memsz, m' (base + phdr.paddr + k) =
        loadSegments m elf (elf + phoff m₀ elf) base (base + phdr.paddr + k)) :
    ImageLoaded m₀ elf m' base ↔ TailsClear m₀ elf m base := by
  have hbyte : ∀ j, j < phnum m₀ elf → (header m₀ elf j).type = elfPtLoad → ∀ k,
      k < (header m₀ elf j).memsz →
      base + (header m₀ elf j).paddr + k < 2 ^ 32 ∧
      m'.load8 (base + (header m₀ elf j).paddr + k) =
        loadSegments m elf (elf + phoff m₀ elf) base (base + (header m₀ elf j).paddr + k) := by
    intro j hj hload k hk
    have hfits := (h.targets _ (header_mem hj) hload).1
    refine ⟨by omega, ?_⟩
    rw [Mem.load8_eq _ (by omega)]
    exact hsame _ (header_mem hj) hload k hk
  constructor
  · intro hloaded phdr hphdr hload k hle hk
    obtain ⟨j, hj, rfl⟩ := exists_header hphdr
    obtain ⟨hlt, hpast⟩ := hbyte j hj hload k hk
    have hzero := (hloaded _ hphdr hload).2 k hle hk
    rw [Mem.load8_eq _ hlt, ← h.tail hj hload hle hk]
    exact hpast.symm.trans hzero
  · intro hclear phdr hphdr hload
    obtain ⟨j, hj, rfl⟩ := exists_header hphdr
    refine ⟨fun k hk => ?_, fun k hle hk => ?_⟩
    · have hle := h.file.filesz_le _ hphdr hload
      exact (hbyte j hj hload k (Nat.lt_of_lt_of_le hk hle)).2.trans (h.data hj hload hk)
    · obtain ⟨hlt, hpast⟩ := hbyte j hj hload k hk
      have hzero := hclear _ hphdr hload k hle hk
      rw [Mem.load8_eq _ hlt] at hzero
      exact hpast.trans ((h.tail hj hload hle hk).trans hzero)

end Image

section Granted

variable {h h' : Heap} {image buffer : Region} {n size : Nat} {phdr : ProgramHeader}

/-- Segments that end inside the block are apart from the file. -/
theorem Granted.segmentsApart (hgrant : Granted h size h' image) (hbuffer : buffer ∈ h.live)
    (hroom : n ≤ buffer.size) (hinside : SegmentsEndIn h.mem buffer.start image.size) :
    SegmentsApart h.mem buffer.start n image.start := by
  intro phdr hphdr hload
  have hend := hinside phdr hphdr hload
  have hfits := hgrant.fits
  have hapart := hgrant.apart hbuffer
  unfold Region.Apart at hapart ⊢
  dsimp only
  omega

/-- A loadable file in a region in use is loaded to the block. -/
theorem Granted.loadsTo (hgrant : Granted h size h' image) (hok : h.Ok)
    (hbuffer : buffer ∈ h.live) (hroom : n ≤ buffer.size)
    (hwf : LoadableFile h.mem buffer.start n)
    (hapart : SegmentsApart h.mem buffer.start n image.start) :
    LoadsTo h.mem buffer.start n image.start h'.mem := by
  have hend := hok.fits buffer hbuffer
  exact ⟨hwf, by omega, hapart, hgrant.sameFile hok hbuffer hroom⟩

end Granted

end Microboot.Kern.Exe
