/-
  Kern/Fs/FatHeap.lean --- the heap under the FAT16 driver.

  No call of the heap reads the device (`Silent`).  Where the heap finds a block for
  every request (`HasRoom`), the calls return, and a buffer of the driver is one of
  the blocks in use next to those that others hold (`Owns`): growing it moves that
  block only, and it can be freed in the end.  `krealloc` returns NULL for a buffer
  that has bytes only by stopping first.
-/
import Microboot.Foundation.Trace
import Microboot.Kern.Fs.FatOpen

set_option autoImplicit false

namespace Microboot.Kern.Fs

open Microboot.Foundation

/-- NULL has room for nothing. -/
theorem store_eq {σ : Type} (ptr : Option Region) (off len : Nat) :
    (FatM.store ptr off len : FatM σ Unit) =
      if off + len ≤ ptr.elim off Region.size then pure () else throw .undefined := by
  cases ptr with
  | none =>
    have hnone : len = 0 ↔ off + len ≤ off := by omega
    exact if_congr hnone rfl rfl
  | some block => rfl

/-! ## No reads -/

section Silent

variable {σ : Type} {platform : Platform σ}

theorem kalloc_silent (size : Nat) : Silent FatWorld.reads (FatM.kalloc platform size) := by
  intro w
  simp only [FatM.kalloc, ExceptT.run_mk]
  split
  · exact ⟨_, _, rfl, rfl⟩
  · split
    all_goals exact ⟨_, _, rfl, rfl⟩

theorem kfree_silent (ptr : Option Region) :
    Silent FatWorld.reads (FatM.kfree ptr : FatM σ Unit) := by
  intro w
  simp only [FatM.kfree, ExceptT.run_mk]
  split
  · exact ⟨_, _, rfl, rfl⟩
  · split
    all_goals exact ⟨_, _, rfl, rfl⟩

theorem requireUsed_silent (block : Region) :
    Silent FatWorld.reads (FatM.requireUsed block : FatM σ Unit) := by
  intro w
  simp only [FatM.requireUsed, ExceptT.run_mk]
  split
  all_goals exact ⟨_, _, rfl, rfl⟩

theorem shrink_silent (block : Region) (size : Nat) :
    Silent FatWorld.reads (FatM.shrink block size : FatM σ Region) := fun _ => ⟨_, _, rfl, rfl⟩

theorem store_silent (ptr : Option Region) (off len : Nat) :
    Silent FatWorld.reads (FatM.store ptr off len : FatM σ Unit) := by
  rw [store_eq]
  split
  · exact .pure _
  · exact .stop _

theorem krealloc_silent (platform : Platform σ) (ptr : Option Region) (newSize : Nat) :
    Silent FatWorld.reads (FatM.krealloc platform ptr newSize) := by
  cases ptr with
  | none => exact kalloc_silent newSize
  | some block =>
    refine (requireUsed_silent block).bind fun _ => ?_
    split
    · exact (shrink_silent block newSize).bind fun _ => .pure _
    · refine (kalloc_silent newSize).bind fun newBlock => ?_
      refine (store_silent newBlock 0 block.size).bind fun _ => ?_
      exact (kfree_silent _).bind fun _ => .pure _

theorem entry_silent (buf : Buf) (i : Nat) :
    Silent FatWorld.reads (FatM.entry platform buf i) := by
  have hbehind : Silent FatWorld.reads (FatM.behind platform buf) := fun _ => ⟨_, _, rfl, rfl⟩
  exact hbehind.bind fun _ => .pure _

end Silent

/-! ## What a call that returns leaves -/

section Issues

variable {σ : Type} {platform : Platform σ} {P : Nat × Nat → Prop}

/-- A store that returns is inside of its buffer. -/
theorem store_issues (ptr : Option Region) (off len : Nat) :
    IssuesUntil FatWorld.reads P (FatM.store ptr off len : FatM σ Unit) fun _ =>
      off + len ≤ ptr.elim off Region.size := by
  rw [store_eq]
  split
  next hroom => exact .pure hroom
  next => exact .stop _

/-- Only a request that is rounded to nothing gets NULL. -/
theorem kalloc_issues (size : Nat) :
    IssuesUntil FatWorld.reads P (FatM.kalloc platform size) fun ptr =>
      ptr = none → alignedSize size = 0 := by
  refine Issues.quiet fun w result w' hrun => ?_
  simp only [FatM.kalloc, ExceptT.run_mk] at hrun
  split at hrun
  next hzero =>
    cases hrun
    exact ⟨rfl, fun _ => hzero⟩
  next =>
    split at hrun
    all_goals cases hrun
    · exact ⟨rfl, nofun⟩
    · exact ⟨rfl, trivial⟩

/-- No bytes are at NULL. -/
theorem kalloc_zero_issues :
    IssuesUntil FatWorld.reads P (FatM.kalloc platform 0) fun ptr => ptr = none :=
  Issues.quiet fun w result w' hrun => by
    cases hrun
    exact ⟨rfl, rfl⟩

/-- A buffer becomes NULL neither when it has bytes, which would be stored there, nor
for a request that is not rounded to nothing. -/
theorem krealloc_issues {block : Region} {newSize : Nat}
    (hsome : alignedSize newSize = 0 → 0 < block.size) :
    IssuesUntil FatWorld.reads P (FatM.krealloc platform (some block) newSize) fun ptr =>
      ∃ new, ptr = some new ∧ (newSize < block.size → new.size = newSize) := by
  refine (requireUsed_silent block).issues.bind fun _ _ => ?_
  split
  · refine (show IssuesUntil FatWorld.reads P (FatM.shrink block newSize : FatM σ Region)
      fun new => new.size = newSize from ?_).bind fun new hnew => .pure ⟨new, rfl, fun _ => hnew⟩
    exact Issues.quiet fun w result w' hrun => by
      cases hrun
      exact ⟨rfl, rfl⟩
  · rename_i hlarge
    refine (kalloc_issues newSize).bind fun ptr hnull => ?_
    refine (store_issues ptr 0 block.size).bind fun _ hstore => ?_
    cases ptr with
    | none =>
      have := hsome (hnull rfl)
      rw [Option.elim_none] at hstore
      omega
    | some new =>
      exact (kfree_silent _).issues.bind fun _ _ => .pure ⟨new, rfl, fun h => absurd h hlarge⟩

/-- NULL is not freed. -/
theorem kfree_null_issues {Q : Unit → Prop} :
    IssuesUntil FatWorld.reads P (FatM.kfree none : FatM σ Unit) Q := .stop _

end Issues

/-! ## A heap with room -/

section Room

variable {σ : Type} {platform : Platform σ} {limit size : Nat} {w : FatWorld σ}
  {ptr : Option Region} {others : List Region}

/-- The heap finds a block for every request of up to `limit` bytes. -/
def HasRoom (platform : Platform σ) (limit : Nat) : Prop :=
  ∀ live size s, size ≤ limit → size < 2 ^ 32 →
    ∃ block s', platform.place live size s = (.ok block, s') ∧ size ≤ block.size

/-- The blocks in use are that of the buffer, if it is not NULL, and the others. -/
def Owns (ptr : Option Region) (others : List Region) (w : FatWorld σ) : Prop :=
  w.live.Perm (ptr.toList ++ others)

theorem Owns.mem {block : Region} (h : Owns (some block) others w) : block ∈ w.live :=
  h.symm.subset List.mem_cons_self

/-- A block in use, and the others. -/
theorem owns_of_mem {block : Region} (h : block ∈ w.live) :
    Owns (some block) (w.live.erase block) w :=
  List.perm_cons_erase h

theorem kalloc_returns (hroom : HasRoom platform limit) (hsize : 0 < size) (hle : size ≤ limit)
    (hfits : size ≤ 2 ^ 32 - 64) :
    ReturnsIn (FatM.kalloc platform size) w fun ptr w' =>
      w'.reads = w.reads ∧
        ∃ block, ptr = some block ∧ w'.live = block :: w.live ∧ size ≤ block.size := by
  obtain ⟨block, s, hplace, hblock⟩ := hroom w.live size w.dev hle (by omega)
  have hne := alignedSize_ne_zero hsize hfits
  refine ⟨some block, { w with dev := s, live := block :: w.live }, ?_, rfl, block, rfl, rfl,
    hblock⟩
  simp only [FatM.kalloc, ExceptT.run_mk, if_neg hne, hplace]

theorem store_returns {block : Region} {off len : Nat} (hfits : off + len ≤ block.size) :
    ReturnsIn (FatM.store (some block) off len) w fun _ w' => w' = w := by
  rw [store_eq, Option.elim_some, if_pos hfits]
  exact .pure rfl

theorem kfree_returns {block : Region} (h : Owns (some block) others w) :
    ReturnsIn (FatM.kfree (some block)) w fun _ w' =>
      w'.reads = w.reads ∧ w'.live.Perm others := by
  refine ⟨(), { w with live := w.live.erase block },
    by simp only [FatM.kfree, ExceptT.run_mk, if_pos h.mem], rfl, ?_⟩
  have herase := h.erase block
  rwa [Option.toList_some, List.singleton_append, List.erase_cons_head] at herase

/-- `krealloc` shrinks a block that is too large, and else moves its data to a new
one. -/
theorem krealloc_returns (hroom : HasRoom platform limit) (howns : Owns ptr others w)
    (hsize : 0 < size) (hle : size ≤ limit) (hfits : size ≤ 2 ^ 32 - 64) :
    ReturnsIn (FatM.krealloc platform ptr size) w fun ptr' w' =>
      w'.reads = w.reads ∧
        ∃ block, ptr' = some block ∧ Owns (some block) others w' ∧ size ≤ block.size := by
  cases ptr with
  | none =>
    refine (kalloc_returns hroom hsize hle hfits).mono fun ptr' w' h => ?_
    obtain ⟨hreads, new, rfl, hlive, hn⟩ := h
    refine ⟨hreads, new, rfl, ?_, hn⟩
    rw [Owns, hlive]
    exact List.Perm.cons new howns
  | some block =>
    have hused : ReturnsIn (FatM.requireUsed block) w fun _ w' => w' = w :=
      ⟨(), w, by simp only [FatM.requireUsed, ExceptT.run_mk, if_pos howns.mem], rfl⟩
    refine hused.bind fun _ w₁ hw₁ => ?_
    subst hw₁
    have herase := howns.erase block
    rw [Option.toList_some, List.singleton_append, List.erase_cons_head] at herase
    split
    · exact ⟨some { block with size := size }, _, rfl, rfl, { block with size := size }, rfl,
        herase.cons _, Nat.le_refl _⟩
    rename_i hlarge
    refine (kalloc_returns hroom hsize hle hfits).bind fun ptr' w₂ h => ?_
    obtain ⟨hreads, new, rfl, hlive, hn⟩ := h
    refine (store_returns (by omega)).bind fun _ w₃ hw₃ => ?_
    subst hw₃
    have hboth : Owns (some block) (new :: others) w₃ := by
      rw [Owns, hlive]
      exact (howns.cons new).trans (List.Perm.swap block new others)
    refine (kfree_returns hboth).bind fun _ w₄ ⟨hreads', hlive'⟩ => .pure ?_
    exact ⟨hreads'.trans hreads, new, rfl, hlive', hn⟩

end Room

end Microboot.Kern.Fs
