/-
  Kern/Exe/Segments.lean --- where the segments are copied to, kern/exe/elf.c.

  `elf_run` and `elf_load_mod` ask `kalloc` for the sum of the sizes of the loadable
  segments, and copy each segment to its physical address behind the pointer that is
  returned.  A sum has nothing to do with where the last segment ends: with a gap
  between the segments, or a lowest address that is not 0, the copies leave the block.

  `copySegments` is the loop on a memory that keeps a log.  It writes inside the block
  exactly if each segment with data ends inside it.  For that neither the segments nor
  their sources have to be apart: the first segment that does not fit is found in a
  file that is still as it was.
-/
import Microboot.Kern.AllocRun
import Microboot.Kern.Exe.Elf
import Microboot.Kern.Heap
import Microboot.Kern.Memcpy

set_option autoImplicit false

namespace Microboot.Kern.Exe

open Microboot.Foundation

/-! ## The loop -/

/-- One segment is copied, if it is to be loaded. -/
def copySegment (elf base : Nat) (phdr : ProgramHeader) : DevM Logged Unit :=
  if phdr.type = elfPtLoad then
    memcpyFast (base + phdr.paddr) (elf + phdr.offset) (UInt32.ofNat phdr.filesz)
  else pure ()

/-- The segments are copied, from the `i`-th on. -/
def copySegmentsFrom (elf phdr base : Nat) : Nat → Nat → DevM Logged Unit
  | 0, _ => pure ()
  | fuel + 1, i => do
    let count ← look fun m => phnum m elf
    if i < count then
      let segment ← look fun m => programHeader m i phdr
      copySegment elf base segment
      copySegmentsFrom elf phdr base fuel (i + 1)
    else pure ()

/-- `for (int i = 0; i < hdr->phnum; i++, phdr++) { .. }` -/
def copySegments (elf phdr base : Nat) : DevM Logged Unit :=
  copySegmentsFrom elf phdr base (2 ^ 16) 0

/-- The length of what is copied. -/
def ProgramHeader.loadsz (phdr : ProgramHeader) : Nat :=
  if phdr.type = elfPtLoad then phdr.filesz else 0

/-- What is copied ends inside a block of that size. -/
def ProgramHeader.FitsIn (phdr : ProgramHeader) (size : Nat) : Prop :=
  phdr.loadsz ≠ 0 → phdr.paddr + phdr.loadsz ≤ size

instance (phdr : ProgramHeader) (size : Nat) : Decidable (phdr.FitsIn size) :=
  inferInstanceAs (Decidable (_ → _))

/-- The program headers of the file of `n` bytes at `elf` are well formed: they lie inside
the file, and the ranges of the loadable segments have room for the data, do not wrap and
are disjoint. -/
structure WellFormedSegments (m : Mem) (elf n : Nat) : Prop where
  header : 52 ≤ n
  phdrsFit : phoff m elf + 32 * phnum m elf ≤ n
  filesz_le : ∀ phdr ∈ programHeaders m elf (elf + phoff m elf), phdr.type = elfPtLoad →
    phdr.filesz ≤ phdr.memsz
  noWrap : ∀ phdr ∈ programHeaders m elf (elf + phoff m elf), phdr.type = elfPtLoad →
    phdr.paddr + phdr.memsz ≤ 2 ^ 32
  disjoint : ((programHeaders m elf (elf + phoff m elf)).filter (·.type = elfPtLoad)).Pairwise
    fun phdr phdr' => Region.Apart ⟨phdr.paddr, phdr.memsz⟩ ⟨phdr'.paddr, phdr'.memsz⟩

/-! ## The writes -/

section Writes

variable {m₀ : Mem} {elf n i : Nat} {image : Region} {segment : ProgramHeader}

/-- A segment whose header has been read. -/
theorem copySegment_copies (m : Mem) (elf base i phdr : Nat) :
    Copies (copySegment elf base (programHeader m i phdr))
      (base + (programHeader m i phdr).paddr) (elf + (programHeader m i phdr).offset)
      (programHeader m i phdr).loadsz () := by
  unfold copySegment ProgramHeader.loadsz
  have hlt : (programHeader m i phdr).filesz < 2 ^ 32 := Mem.load32_lt m _
  split
  · have hcopies := memcpyFast_copies (base + (programHeader m i phdr).paddr)
      (elf + (programHeader m i phdr).offset) (UInt32.ofNat (programHeader m i phdr).filesz)
    rwa [UInt32.toNat_ofNat_of_lt' hlt] at hcopies
  · exact .pure _ _ ()

theorem copySegmentsFrom_of_lt (phdr base fuel : Nat) {w : Logged} (hi : i < phnum w.mem elf) :
    copySegmentsFrom elf phdr base (fuel + 1) i w =
      (copySegment elf base (programHeader w.mem i phdr) >>= fun _ =>
        copySegmentsFrom elf phdr base fuel (i + 1)) w := by
  rw [copySegmentsFrom, look_bind, if_pos hi, look_bind]

theorem copySegmentsFrom_of_not_lt {phdr base fuel : Nat} {w : Logged} (hi : ¬ i < phnum w.mem elf) :
    copySegmentsFrom elf phdr base fuel i w = some ((), ⟨w.mem, w.log ++ []⟩) := by
  rw [List.append_nil]
  cases fuel with
  | zero => rfl
  | succ fuel =>
    rw [copySegmentsFrom, look_bind, if_neg hi]
    rfl

/-- The loop returns, whatever the headers say. -/
theorem copySegmentsFrom_returns (elf phdr base fuel i : Nat) (w : Logged) :
    ∃ m' new, copySegmentsFrom elf phdr base fuel i w = some ((), ⟨m', w.log ++ new⟩) := by
  induction fuel generalizing i w with
  | zero => exact ⟨w.mem, [], by rw [List.append_nil]; rfl⟩
  | succ fuel ih =>
    by_cases hi : i < phnum w.mem elf
    · obtain ⟨m₁, front, hfront, -⟩ := copySegment_copies w.mem elf base i phdr w
      obtain ⟨m₂, rest, hrest⟩ := ih (i + 1) ⟨m₁, w.log ++ front⟩
      refine ⟨m₂, front ++ rest, ?_⟩
      rw [copySegmentsFrom_of_lt phdr base fuel hi, bind_run hfront, hrest, List.append_assoc]
    · exact ⟨w.mem, [], copySegmentsFrom_of_not_lt hi⟩

/-- The last byte of a segment that does not fit is outside of the image, also where the
address wraps. -/
theorem not_has_of_not_fitsIn (himage : image.start + image.size ≤ 2 ^ 32)
    (hwrap : segment.paddr + segment.loadsz ≤ 2 ^ 32 ∨ segment.loadsz = 0)
    (hfits : ¬ segment.FitsIn image.size) :
    segment.loadsz ≠ 0 ∧
      ¬ image.Has (wrap (image.start + segment.paddr + (segment.loadsz - 1))) := by
  unfold ProgramHeader.FitsIn at hfits
  obtain ⟨hpos, hout⟩ := Classical.not_imp.mp hfits
  refine ⟨hpos, ?_⟩
  unfold Region.Has wrap
  omega

/-- The addresses of a segment that fits. -/
theorem has_of_fitsIn {k : Nat} (himage : image.start + image.size ≤ 2 ^ 32)
    (hfits : segment.FitsIn image.size) (hk : k < segment.loadsz) :
    image.Has (wrap (image.start + segment.paddr + k)) := by
  have hend := hfits (Nat.ne_of_gt (Nat.zero_lt_of_lt hk))
  unfold Region.Has wrap
  omega

/-- The writes of the loop, from a header on, in a file apart from the image. -/
theorem copySegmentsFrom_inside_iff (hheader : 52 ≤ n)
    (hphdrs : phoff m₀ elf + 32 * phnum m₀ elf ≤ n) (hfits : elf + n ≤ 2 ^ 32)
    (himage : image.start + image.size ≤ 2 ^ 32)
    (hapart : ∀ x, elf ≤ x → x < elf + n → ¬ image.Has x)
    (hwrap : ∀ j < phnum m₀ elf, (programHeader m₀ j (elf + phoff m₀ elf)).paddr +
      (programHeader m₀ j (elf + phoff m₀ elf)).loadsz ≤ 2 ^ 32 ∨
        (programHeader m₀ j (elf + phoff m₀ elf)).loadsz = 0)
    (fuel i : Nat) (w : Logged) (hfile : SameFile n m₀ elf w.mem elf)
    (hfuel : phnum m₀ elf ≤ i + fuel) :
    ∃ m' new, copySegmentsFrom elf (elf + phoff m₀ elf) image.start fuel i w =
        some ((), ⟨m', w.log ++ new⟩) ∧
      ((∀ x, .write x ∈ new → image.Has (wrap x)) ↔ ∀ j, i ≤ j → j < phnum m₀ elf →
        (programHeader m₀ j (elf + phoff m₀ elf)).FitsIn image.size) := by
  induction fuel generalizing i w with
  | zero =>
    have hi : ¬ i < phnum m₀ elf := Nat.not_lt.mpr hfuel
    refine ⟨w.mem, [], copySegmentsFrom_of_not_lt (by rwa [hfile.phnum hheader]), ?_⟩
    refine iff_of_true (fun x hx => absurd hx List.not_mem_nil) fun j hij hj => ?_
    exact absurd (Nat.lt_of_le_of_lt hij hj) hi
  | succ fuel ih =>
    by_cases hi : i < phnum w.mem elf
    · obtain ⟨m₁, front, hfront, hbetween, hall, hkeep, -⟩ :=
        copySegment_copies w.mem elf image.start i (elf + phoff m₀ elf) w
      have hstep := copySegmentsFrom_of_lt (elf + phoff m₀ elf) image.start fuel hi
      rw [bind_run hfront] at hstep
      rw [hfile.phnum hheader] at hi
      rw [hfile.programHeader hphdrs hi] at hbetween hall hkeep
      by_cases hsegment : (programHeader m₀ i (elf + phoff m₀ elf)).FitsIn image.size
      · -- the file is as it was, and the rest of the loop decides
        have hfile₁ : SameFile n m₀ elf m₁ elf := by
          intro k hk
          rw [← hfile k hk, Mem.load8_eq _ (by omega), Mem.load8_eq _ (by omega)]
          refine hkeep _ fun l hl heq => ?_
          refine hapart (elf + k) (Nat.le_add_right elf k) (Nat.add_lt_add_left hk elf) ?_
          rw [heq]
          exact has_of_fitsIn himage hsegment hl
        obtain ⟨m₂, rest, hrest, hiff⟩ := ih (i + 1) ⟨m₁, w.log ++ front⟩ hfile₁ (by omega)
        refine ⟨m₂, front ++ rest, by rw [hstep, hrest, List.append_assoc], ?_⟩
        have hin : ∀ x, .write x ∈ front → image.Has (wrap x) := by
          intro x hx
          obtain ⟨hstart, hend⟩ := hbetween _ hx
          obtain ⟨l, rfl⟩ := Nat.exists_eq_add_of_le hstart
          exact has_of_fitsIn himage hsegment (Nat.lt_of_add_lt_add_left hend)
        constructor
        · intro hinside j hij hj
          rcases Nat.eq_or_lt_of_le hij with rfl | hlt
          · exact hsegment
          · exact hiff.mp (fun x hx => hinside x (List.mem_append_right _ hx)) j hlt hj
        · intro hsegments x hx
          rcases List.mem_append.mp hx with hx | hx
          · exact hin x hx
          · exact hiff.mpr (fun j hij hj => hsegments j (Nat.le_of_succ_le hij) hj) x hx
      · -- the segment is written to its end
        obtain ⟨m₂, rest, hrest⟩ := copySegmentsFrom_returns elf (elf + phoff m₀ elf)
          image.start fuel (i + 1) ⟨m₁, w.log ++ front⟩
        refine ⟨m₂, front ++ rest, by rw [hstep, hrest, List.append_assoc], ?_⟩
        obtain ⟨hpos, hout⟩ := not_has_of_not_fitsIn himage (hwrap i hi) hsegment
        refine iff_of_false (fun hinside => hout (hinside _ ?_)) fun hsegments =>
          hsegment (hsegments i (Nat.le_refl i) hi)
        exact List.mem_append_left _ (hall _ (Nat.sub_one_lt hpos))
    · refine ⟨w.mem, [], copySegmentsFrom_of_not_lt hi, ?_⟩
      rw [hfile.phnum hheader] at hi
      refine iff_of_true (fun x hx => absurd hx List.not_mem_nil) fun j hij hj => ?_
      exact absurd (Nat.lt_of_le_of_lt hij hj) hi

theorem phnum_lt (m : Mem) (hdr : Nat) : phnum m hdr < 2 ^ 16 := by
  have hlow := (m.load8 (hdr + 44)).toNat_lt
  have hhigh := (m.load8 (hdr + 44 + 1)).toNat_lt
  unfold phnum Mem.load16
  omega

theorem WellFormedSegments.loadsz_le (hwf : WellFormedSegments m₀ elf n)
    (hsegment : segment ∈ programHeaders m₀ elf (elf + phoff m₀ elf)) :
    segment.paddr + segment.loadsz ≤ 2 ^ 32 ∨ segment.loadsz = 0 := by
  unfold ProgramHeader.loadsz
  split
  next hload =>
    have hle := hwf.filesz_le segment hsegment hload
    have hnoWrap := hwf.noWrap segment hsegment hload
    omega
  next => exact .inr rfl

/-- The whole loop. -/
theorem copySegments_inside_iff {m : Mem} (hwf : WellFormedSegments m₀ elf n)
    (hfits : elf + n ≤ 2 ^ 32) (himage : image.start + image.size ≤ 2 ^ 32)
    (hapart : ∀ x, elf ≤ x → x < elf + n → ¬ image.Has x) (hfile : SameFile n m₀ elf m elf) :
    (∃ m' new, copySegments elf (elf + phoff m₀ elf) image.start ⟨m, []⟩ =
        some ((), ⟨m', new⟩) ∧ ∀ x, .write x ∈ new → image.Has (wrap x)) ↔
      ∀ phdr ∈ programHeaders m₀ elf (elf + phoff m₀ elf), phdr.FitsIn image.size := by
  have hmem : ∀ j < phnum m₀ elf, programHeader m₀ j (elf + phoff m₀ elf) ∈
      programHeaders m₀ elf (elf + phoff m₀ elf) :=
    fun j hj => List.mem_map_of_mem (List.mem_range.mpr hj)
  have hcount := phnum_lt m₀ elf
  obtain ⟨m', new, hrun, hiff⟩ := copySegmentsFrom_inside_iff hwf.header hwf.phdrsFit hfits himage
    hapart (fun j hj => hwf.loadsz_le (hmem j hj)) (2 ^ 16) 0 ⟨m, []⟩ hfile (by omega)
  constructor
  · rintro ⟨m'', new', hrun', hinside⟩ phdr hphdr
    obtain ⟨j, hj, rfl⟩ := List.mem_map.mp hphdr
    cases hrun.symm.trans hrun'
    exact hiff.mp hinside j (Nat.zero_le j) (List.mem_range.mp hj)
  · exact fun hsegments => ⟨m', new, hrun, hiff.mpr fun j _ hj => hsegments _ (hmem j hj)⟩

theorem loadSegment_of_loadsz_eq_zero {m : Mem} {base : Nat} (h : segment.loadsz = 0) :
    loadSegment elf base m segment = m := by
  unfold ProgramHeader.loadsz at h
  unfold loadSegment
  split
  next hload =>
    rw [if_pos hload] at h
    rw [h]
    rfl
  next => rfl

theorem loadSegment_of_loadsz_ne_zero {m : Mem} {base : Nat} (h : segment.loadsz ≠ 0) :
    loadSegment elf base m segment =
      memcpy m (base + segment.paddr) (elf + segment.offset) segment.loadsz := by
  unfold ProgramHeader.loadsz at h ⊢
  unfold loadSegment
  split
  next => rfl
  next hload => exact absurd (if_neg hload) h

/-- Segments that fit the image, with data inside the file: the loop loads them. -/
theorem copySegmentsFrom_loads (hheader : 52 ≤ n)
    (hphdrs : phoff m₀ elf + 32 * phnum m₀ elf ≤ n) (hfits : elf + n ≤ 2 ^ 32)
    (himage : image.start + image.size ≤ 2 ^ 32) (hapart : Region.Apart ⟨elf, n⟩ image)
    (hsegments : ∀ phdr ∈ programHeaders m₀ elf (elf + phoff m₀ elf),
      phdr.FitsIn image.size ∧ (phdr.loadsz ≠ 0 → phdr.offset + phdr.loadsz ≤ n))
    (fuel i : Nat) (w : Logged) (hfile : SameFile n m₀ elf w.mem elf) :
    ∃ new, copySegmentsFrom elf (elf + phoff m₀ elf) image.start fuel i w = some ((),
      ⟨loadSegmentsFrom elf (elf + phoff m₀ elf) image.start fuel i w.mem, w.log ++ new⟩) := by
  induction fuel generalizing i w with
  | zero => exact ⟨[], by rw [List.append_nil]; rfl⟩
  | succ fuel ih =>
    by_cases hi : i < phnum w.mem elf
    · obtain ⟨m₁, front, hfront, -, -, hkeep, hcopy⟩ :=
        copySegment_copies w.mem elf image.start i (elf + phoff m₀ elf) w
      have hstep := copySegmentsFrom_of_lt (elf + phoff m₀ elf) image.start fuel hi
      rw [bind_run hfront] at hstep
      rw [hstep, loadSegmentsFrom, if_pos hi]
      rw [hfile.phnum hheader] at hi
      rw [hfile.programHeader hphdrs hi] at hkeep hcopy ⊢
      obtain ⟨hsegment, hsource⟩ :=
        hsegments _ (List.mem_map_of_mem (List.mem_range.mpr hi))
      generalize programHeader m₀ i (elf + phoff m₀ elf) = segment at hkeep hcopy hsegment hsource ⊢
      have hm₁ : m₁ = loadSegment elf image.start w.mem segment := by
        by_cases hzero : segment.loadsz = 0
        · rw [loadSegment_of_loadsz_eq_zero hzero]
          exact funext fun y => hkeep y fun l hl => by omega
        · rw [loadSegment_of_loadsz_ne_zero hzero]
          have hend := hsegment hzero
          have hsource := hsource hzero
          unfold Region.Apart at hapart
          dsimp only at hapart
          exact hcopy ⟨by omega, by omega, by omega⟩
      have hfile₁ : SameFile n m₀ elf m₁ elf := by
        intro k hk
        rw [← hfile k hk, Mem.load8_eq _ (by omega), Mem.load8_eq _ (by omega)]
        refine hkeep _ fun l hl heq => ?_
        refine hapart.not_has (And.intro (Nat.le_add_right elf k) (Nat.add_lt_add_left hk elf)) ?_
        rw [heq]
        exact has_of_fitsIn himage hsegment hl
      obtain ⟨rest, hrest⟩ := ih (i + 1) ⟨m₁, w.log ++ front⟩ hfile₁
      refine ⟨front ++ rest, ?_⟩
      rw [hrest, hm₁, List.append_assoc]
    · refine ⟨[], ?_⟩
      rw [copySegmentsFrom_of_not_lt hi, loadSegmentsFrom, if_neg hi]

end Writes

/-! ## The block -/

section Granted

variable {h h' : Heap} {image buffer r : Region} {n size x : Nat}

/-- What `kalloc(size)` does: it gives a block for `size` bytes; if the aligned size is 0 it
gives NULL, and nothing happens. -/
inductive Granted (h : Heap) (size : Nat) (h' : Heap) (image : Region) : Prop
  | block : h.Alloc size h' image → Granted h size h' image
  | null : alignedSize size = 0 → h' = h → image = ⟨0, 0⟩ → Granted h size h' image

namespace Granted

theorem ok (hgrant : Granted h size h' image) (hok : h.Ok) : h'.Ok := by
  cases hgrant with
  | block halloc => exact halloc.ok hok
  | null _ hsame => rwa [hsame]

/-- What is in use stays in use. -/
theorem mem_live (hgrant : Granted h size h' image) (hr : r ∈ h.live) : r ∈ h'.live := by
  cases hgrant with
  | block halloc =>
    rw [halloc.live]
    exact List.mem_cons_of_mem _ hr
  | null _ hsame => rwa [hsame]

theorem fits (hgrant : Granted h size h' image) : image.start + image.size ≤ 2 ^ 32 := by
  cases hgrant with
  | block halloc => exact halloc.fits
  | null _ _ hnull =>
    rw [hnull]
    exact Nat.zero_le _

theorem apart (hgrant : Granted h size h' image) (hr : r ∈ h.live) : Region.Apart r image := by
  cases hgrant with
  | block halloc => exact (halloc.apart r hr).symm
  | null _ _ hnull =>
    rw [hnull]
    exact Or.inr (Nat.zero_le _)

theorem keeps (hgrant : Granted h size h' image) (hr : r ∈ h.live) (hx : r.Has x) :
    h'.mem x = h.mem x := by
  cases hgrant with
  | block halloc => exact halloc.keeps r hr x hx
  | null _ hsame => rw [hsame]

/-- A file in a region in use is as it was. -/
theorem sameFile (hgrant : Granted h size h' image) (hok : h.Ok) (hbuffer : buffer ∈ h.live)
    (hroom : n ≤ buffer.size) : SameFile n h.mem buffer.start h'.mem buffer.start := by
  have hend := hok.fits buffer hbuffer
  intro k hk
  rw [Mem.load8_eq _ (by omega), Mem.load8_eq _ (by omega)]
  exact hgrant.keeps hbuffer (And.intro (by omega) (by omega))

end Granted

end Granted

/-- The block at the pointer that `kalloc` has returned; there is none at NULL. -/
def imageBlock (m : Mem) (base : Nat) : Region := if base = 0 then ⟨0, 0⟩ else payload m base

/-- The size of the block that `kalloc(size)` gives: that of the free block its search
finds, else the aligned size. -/
def grantedSize (a : Allocator) (size : Nat) : Nat :=
  if alignedSize size = 0 then 0
  else match findBlock a.mem (alignedSize size) addrSpace a.head with
    | some (.reuse current) => blockSize a.mem current
    | _ => alignedSize size

/-- The loop returns, and all that it writes is in the block at `base`. -/
def WritesInside (m : Mem) (elf phdr base : Nat) : Prop :=
  ∃ m' new, copySegments elf phdr base ⟨m, []⟩ = some ((), ⟨m', new⟩) ∧
    ∀ x, .write x ∈ new → (imageBlock m base).Has (wrap x)

section Block

variable {limit size n base : Nat} {a a' : Allocator} {live : List Nat} {blocks : List Extent}
  {others : List Region} {buffer : Region}

theorem kalloc_imageBlock (h : Blocks limit a live blocks) (hfits : AppendFits limit a size)
    (hok : kalloc a size = .ok (a', base)) :
    imageBlock a'.mem base = ⟨base, grantedSize a size⟩ := by
  unfold grantedSize imageBlock
  rcases kalloc_found h hfits hok with ⟨h0, rfl, rfl⟩ |
    ⟨h0, pre, b, post, rfl, hfree, hbig, rfl, rfl, hfind⟩ |
    ⟨h0, pre, b, hblocks, hend, rfl, rfl, hfind⟩
  · rw [if_pos rfl, if_pos h0]
  · have hnew := h.reuse hfree
    have hmem : { b with free := false } ∈ pre ++ { b with free := false } :: post := by simp
    have haddr : blockAddr (reuseBlock a.mem b.pos) b.pos = b.pos + memBlockSize :=
      hnew.addr { b with free := false } hmem
    rw [if_neg h0, hfind, haddr, if_neg (by unfold memBlockSize; omega)]
    exact (payload_eq hnew hmem).trans (congrArg _ (h.holds b (by simp)).size.symm)
  · have hnew := h.append hblocks (Nat.pos_of_ne_zero h0) hend
    have hmem : (⟨b.stop memBlockSize, alignedSize size, false⟩ : Extent) ∈
        blocks ++ [⟨b.stop memBlockSize, alignedSize size, false⟩] := by simp
    have haddr : blockAddr (appendBlock a.mem b.pos (b.stop memBlockSize) (alignedSize size))
        (b.stop memBlockSize) = b.stop memBlockSize + memBlockSize :=
      hnew.addr ⟨b.stop memBlockSize, alignedSize size, false⟩ hmem
    have hpayload := payload_eq hnew hmem
    rw [if_neg h0, hfind]
    dsimp only at hpayload ⊢
    rw [haddr, if_neg (by unfold memBlockSize; omega), hpayload]

theorem getElfSize_lt (m : Mem) (elf : Nat) : getElfSize m elf < 2 ^ 32 := by
  unfold getElfSize
  generalize programHeaders m elf (elf + phoff m elf) = phdrs
  have hlt : ∀ start < 2 ^ 32, phdrs.foldl (fun totalSize phdr =>
      if phdr.type = elfPtLoad then (totalSize + phdr.memsz) % 2 ^ 32 else totalSize) start <
        2 ^ 32 := by
    induction phdrs with
    | nil => exact fun start hstart => hstart
    | cons phdr phdrs ih =>
      intro start hstart
      rw [List.foldl_cons]
      refine ih _ ?_
      split
      · exact Nat.mod_lt _ (by decide)
      · exact hstart
  exact hlt 0 (by decide)

/-- The block is what is granted. -/
theorem kalloc_granted (h : Blocks limit a live blocks) (hothers : Outside limit a others)
    (hsize : size < 2 ^ 32) (hfits : AppendFits limit a size)
    (hok : kalloc a size = .ok (a', base)) :
    ∃ live', Granted (a.heap live others) size (a'.heap live' others) (imageBlock a'.mem base) := by
  by_cases hbase : base = 0
  · obtain ⟨-, ⟨hzero, rfl, -⟩ | ⟨-, -, -, ⟨b, -, hb, -⟩, -⟩⟩ := kalloc_blocks h hsize hfits hok
    · exact ⟨live, .null hzero rfl (if_pos hbase)⟩
    · unfold memBlockSize at hb
      omega
  · refine ⟨base :: live, .block ?_⟩
    rw [imageBlock, if_neg hbase]
    exact kalloc_alloc h hothers hsize hfits hok hbase

end Block

/-! ## A file with one segment -/

/-- The words, the least significant byte first. -/
def wordBytes (words : List Nat) : List UInt8 :=
  words.flatMap fun v =>
    [UInt8.ofNat v, UInt8.ofNat (v / 256), UInt8.ofNat (v / 65536), UInt8.ofNat (v / 16777216)]

/-- An ELF file with one segment of 16 bytes. -/
def segmentFile (paddr : Nat) : List UInt8 :=
  wordBytes ([0x464c457f, 0x00010101, 0, 0, 0x00030002, 1, paddr, 52, 0, 0, 0x00200034, 0x00280001,
    0] ++ [1, 84, paddr, paddr, 16, 16, 5, 4] ++ [0x90909090, 0x90909090, 0x90909090, 0xc3909090])

/-- A heap without blocks, and the file behind it. -/
def segmentHeap (paddr : Nat) : Allocator :=
  initAlloc (stringMem 65536 (segmentFile paddr)) 4096 8192

theorem segmentFile_wellFormed : WellFormedSegments (segmentHeap 0).mem 65536 100 where
  header := by decide
  phdrsFit := by decide +kernel
  filesz_le := by decide +kernel
  noWrap := by decide +kernel
  disjoint := by decide +kernel

end Microboot.Kern.Exe
