/-
  Kern/HtblKeys.lean --- who owns the blocks of a hash table.

  `htbl_put` copies every key it inserts, and `htbl_destroy` frees the copies in
  the entries, the array and the table.  While the table has its first array that
  balances: the live blocks are those from before the table, the table's two, and
  one copy for every occupied entry.

  `htbl_expand` fills the new array through `htbl_put`, which copies every key
  again, and frees the old array only.  The old copies are in no entry any more
  and stay live for ever, so the balance is lost at the first expansion, that is,
  at the first put that finds 16 keys in the table.
-/
import Mathlib.Data.List.Dedup
import Microboot.Foundation.Slots
import Microboot.Kern.Htbl

set_option autoImplicit false

namespace Microboot.Kern

open Microboot.Foundation

/-! ## The copies in the entries -/

/-- A stored key and the block of its copy. -/
def HtblEntry.copy (entry : HtblEntry) : Key × Nat := (entry.key, entry.keyBlock)

/-- The keys that the entries hold, each with the block of its copy. -/
def keyCopies (slots : List (Option HtblEntry)) : List (Key × Nat) :=
  entries (Option.map HtblEntry.copy) slots

/-- The blocks of the copies, one for every occupied entry. -/
def keyBlocks (slots : List (Option HtblEntry)) : List Nat := (keyCopies slots).map Prod.snd

section Copies

variable {slots : List (Option HtblEntry)} {i : Nat} {e f : HtblEntry} {k : Key} {v : Nat}

@[simp] theorem keyBlocks_nil : keyBlocks [] = [] := rfl

@[simp] theorem keyBlocks_none : keyBlocks (none :: slots) = keyBlocks slots := rfl

@[simp] theorem keyBlocks_some : keyBlocks (some e :: slots) = e.keyBlock :: keyBlocks slots := rfl

@[simp] theorem keyBlocks_replicate (n : Nat) : keyBlocks (List.replicate n none) = [] := by
  induction n with
  | zero => rfl
  | succ n ih =>
    rw [List.replicate_succ, keyBlocks_none]
    exact ih

theorem length_keyBlocks : (keyBlocks slots).length = slots.countP Option.isSome := by
  induction slots with
  | nil => rfl
  | cons slot slots ih =>
    cases slot with
    | none => simpa using ih
    | some e => simpa using ih

theorem mem_keyCopies {p : Key × Nat} : p ∈ keyCopies slots ↔ ∃ e, some e ∈ slots ∧ e.copy = p := by
  unfold keyCopies
  rw [mem_entries]
  constructor
  · intro ⟨slot, hslot, hcopy⟩
    cases slot with
    | none => cases hcopy
    | some e => exact ⟨e, hslot, Option.some.inj hcopy⟩
  · intro ⟨e, he, hcopy⟩
    exact ⟨some e, he, congrArg some hcopy⟩

/-- A key has a copy exactly if the entries map it to something. -/
theorem mem_keys : k ∈ (keyCopies slots).map Prod.fst ↔ ∃ v, Maps slots k v := by
  rw [List.mem_map]
  constructor
  · intro ⟨p, hp, hk⟩
    obtain ⟨e, he, rfl⟩ := mem_keyCopies.mp hp
    exact ⟨e.value, e, he, hk, rfl⟩
  · intro ⟨v, e, he, hk, _⟩
    exact ⟨e.copy, mem_keyCopies.mpr ⟨e, he, rfl⟩, hk⟩

theorem KeysDistinct.tail {slot : Option HtblEntry} (h : KeysDistinct (slot :: slots)) :
    KeysDistinct slots :=
  fun i j e f hi hj heq => Nat.succ.inj (h (i + 1) (j + 1) e f hi hj heq)

/-- No key has two copies in the entries. -/
theorem KeysDistinct.keysNodup (h : KeysDistinct slots) : KeysNodup (keyCopies slots) := by
  induction slots with
  | nil => exact List.nodup_nil
  | cons slot slots ih =>
    cases slot with
    | none => exact ih h.tail
    | some e =>
      refine List.nodup_cons.mpr ⟨fun hmem => ?_, ih h.tail⟩
      obtain ⟨v, f, hf, hkey, -⟩ := mem_keys.mp hmem
      obtain ⟨j, hj⟩ := List.mem_iff_getElem?.mp hf
      exact absurd (h 0 (j + 1) e f rfl hj hkey.symm) (Nat.succ_ne_zero j).symm

/-- Filling an empty entry adds its copy. -/
theorem keyBlocks_insert (hnone : slots[i]? = some none) (e : HtblEntry) :
    (keyBlocks (slots.set i (some e))).Perm (e.keyBlock :: keyBlocks slots) := by
  obtain ⟨front, back, hold, hset⟩ := entries_set (f := Option.map HtblEntry.copy) hnone
  have hnew := hset (some e)
  unfold keyBlocks keyCopies
  rw [hold, hnew]
  simp only [Option.map_none, Option.map_some, Option.toList_none, Option.toList_some,
    List.append_nil, List.append_assoc, List.singleton_append, List.map_append, List.map_cons]
  exact List.perm_middle

/-- Setting the value of an entry keeps its copy. -/
theorem keyBlocks_replace (hsome : slots[i]? = some (some e)) (hsame : f.copy = e.copy) :
    keyBlocks (slots.set i (some f)) = keyBlocks slots := by
  obtain ⟨front, back, hold, hset⟩ := entries_set (f := Option.map HtblEntry.copy) hsome
  have hnew := hset (some f)
  unfold keyBlocks keyCopies
  rw [hold, hnew, Option.map_some, Option.map_some, hsame]

end Copies

/-- The different keys of a sequence of puts. -/
def putKeys (puts : List (Key × Nat)) : List Key := (puts.map Prod.fst).dedup

section PutKeys

variable {puts : List (Key × Nat)} {table : Htbl}

theorem exists_lastPut {k : Key} : (∃ v, lastPut puts k = some v) ↔ k ∈ puts.map Prod.fst := by
  rw [← Option.ne_none_iff_exists']
  unfold lastPut
  rw [Ne, Option.map_eq_none_iff, List.find?_eq_none, List.mem_map]
  constructor
  · intro h
    by_contra hnot
    refine h fun p hp => ?_
    simpa using fun hk => hnot ⟨p, List.mem_reverse.mp hp, hk⟩
  · intro ⟨p, hp, hk⟩ hall
    exact hall p (List.mem_reverse.mpr hp) (decide_eq_true hk)

/-- The table counts the different keys that were put. -/
theorem Refines.length_eq (h : Refines puts table) : table.length = (putKeys puts).length := by
  have hnodup := KeysDistinct.keysNodup h.inv.probed.distinct
  have hperm : ((keyCopies table.entries).map Prod.fst).Perm (putKeys puts) := by
    refine (List.perm_ext_iff_of_nodup hnodup (List.nodup_dedup _)).mpr fun k => ?_
    rw [mem_keys, List.mem_dedup, ← exists_lastPut]
    exact exists_congr fun v => h.maps k v
  calc table.length
      = (keyBlocks table.entries).length := by rw [length_keyBlocks, h.inv.length_eq]
    _ = ((keyCopies table.entries).map Prod.fst).length := by
        rw [keyBlocks, List.length_map, List.length_map]
    _ = (putKeys puts).length := hperm.length_eq

theorem length_putKeys_dropLast_le {done : List (Key × Nat)} (h : done <+: puts) :
    (putKeys done.dropLast).length ≤ (putKeys puts.dropLast).length := by
  have hsub : done.dropLast ⊆ puts.dropLast := by
    obtain ⟨rest, rfl⟩ := h
    cases rest with
    | nil =>
      rw [List.append_nil]
      exact List.Subset.refl _
    | cons p rest =>
      rw [List.dropLast_append_cons]
      exact fun q hq => List.mem_append_left _ (List.dropLast_subset done hq)
  refine ((List.nodup_dedup _).subperm fun k hk => ?_).length_le
  exact List.mem_dedup.mpr (List.map_subset _ hsub (List.mem_dedup.mp hk))

end PutKeys

/-! ## The balance -/

/-- The live blocks are those of `heap₀`, the table's two, and the copies in the entries, one
for each occupied entry. -/
structure OwnsLive (heap₀ : LiveBlocks) (block : Nat) (heap : LiveBlocks) (table : Htbl) :
    Prop where
  live : heap.live.Perm (keyBlocks table.entries ++ table.entriesBlock :: block :: heap₀.live)
  nodup : (keyBlocks table.entries).Nodup

/-- After `puts` into a new table the heap is `heap` and the table is `table`. -/
def PutsReach (depth : Nat) (heap₀ : LiveBlocks) (puts : List (Key × Nat)) (heap : LiveBlocks)
    (table : Htbl) : Prop :=
  htblPuts (depth + 2) (htblCreate heap₀).1 (htblCreate heap₀).2.2 puts = some (heap, table)

/-- The copies that are live are those in the entries after each of the puts, and destroying the
table at the end leaves the blocks that were live before it was created. -/
structure KeysBalanced (depth : Nat) (heap₀ : LiveBlocks) (puts : List (Key × Nat)) : Prop where
  owned : ∀ done, done <+: puts → ∃ heap table, PutsReach depth heap₀ done heap table ∧
    OwnsLive heap₀ (htblCreate heap₀).2.1 heap table
  destroyed : ∃ heap table heap', PutsReach depth heap₀ puts heap table ∧
    htblDestroy heap (htblCreate heap₀).2.1 table = .ok heap' ∧ heap'.live.Perm heap₀.live

section Balance

variable {depth block : Nat} {heap₀ heap heap' : LiveBlocks} {table table' : Htbl}
  {puts : List (Key × Nat)} {k : Key} {v : Nat}

theorem OwnsLive.length_eq (h : OwnsLive heap₀ block heap table) (hinv : HtblInv table) :
    heap.live.length = table.length + 2 + heap₀.live.length := by
  have hlen := h.live.length_eq
  rw [List.length_append, length_keyBlocks, hinv.length_eq, List.length_cons,
    List.length_cons] at hlen
  omega

/-- The loop frees the copies in the entries and nothing else. -/
theorem htblFreeKeys_of_perm {slots : List (Option HtblEntry)} {rest : List Nat} :
    ∀ {heap : LiveBlocks}, heap.live.Perm (keyBlocks slots ++ rest) →
    (∀ b ∈ keyBlocks slots, b ≠ 0) →
    ∃ heap', htblFreeKeys slots heap = .ok heap' ∧ heap'.live.Perm rest := by
  induction slots with
  | nil =>
    intro heap hlive _
    exact ⟨heap, rfl, hlive⟩
  | cons slot slots ih =>
    intro heap hlive hnull
    cases slot with
    | none => exact ih hlive hnull
    | some e =>
      rw [keyBlocks_some] at hlive hnull
      obtain ⟨heap₁, hfree, hlive₁⟩ :=
        LiveBlocks.kfreeChecked_of_perm (hnull _ List.mem_cons_self) hlive
      obtain ⟨heap', hrest, hlive'⟩ := ih hlive₁ fun b hb => hnull b (List.mem_cons_of_mem _ hb)
      refine ⟨heap', ?_, hlive'⟩
      unfold htblFreeKeys
      rw [hfree]
      exact hrest

/-- Destroying a table that owns its blocks leaves those that were live before it. -/
theorem OwnsLive.htblDestroy (h : OwnsLive heap₀ block heap table) (hblock : block ≠ 0)
    (harray : table.entriesBlock ≠ 0) (hkeys : ∀ b ∈ keyBlocks table.entries, b ≠ 0) :
    ∃ heap', Kern.htblDestroy heap block table = .ok heap' ∧ heap'.live.Perm heap₀.live := by
  obtain ⟨heap₁, hfree₁, hlive₁⟩ := htblFreeKeys_of_perm h.live hkeys
  obtain ⟨heap₂, hfree₂, hlive₂⟩ := LiveBlocks.kfreeChecked_of_perm harray hlive₁
  obtain ⟨heap₃, hfree₃, hlive₃⟩ := LiveBlocks.kfreeChecked_of_perm hblock hlive₂
  refine ⟨heap₃, ?_, hlive₃⟩
  unfold Kern.htblDestroy
  rw [require_of _ ⟨hblock, harray⟩, ok_bind, hfree₁, ok_bind, hfree₂, ok_bind]
  exact hfree₃

/-- A table that still has its first array, with the balance. -/
structure FirstArray (heap₀ heap : LiveBlocks) (table : Htbl) : Prop where
  owns : OwnsLive heap₀ heap₀.next heap table
  capacity : table.capacity = htblInitialCapacity
  array : table.entriesBlock = heap₀.next + 1
  next_pos : 0 < heap.next
  fresh : ∀ b ∈ keyBlocks table.entries, b ≠ 0 ∧ b < heap.next

theorem firstArray_htblCreate (heap₀ : LiveBlocks) :
    FirstArray heap₀ (htblCreate heap₀).1 (htblCreate heap₀).2.2 := by
  have hnone : keyBlocks (htblCreate heap₀).2.2.entries = [] := keyBlocks_replicate _
  refine ⟨⟨?_, ?_⟩, rfl, rfl, Nat.succ_pos _, ?_⟩
  · rw [hnone]
    exact List.Perm.refl _
  · rw [hnone]
    exact List.nodup_nil
  · rw [hnone]
    exact fun b hb => absurd hb List.not_mem_nil

/-- Storing keeps the balance: a new entry comes with one new block. -/
theorem FirstArray.htblStore (h : FirstArray heap₀ heap table) (hinv : HtblInv table)
    (hroom : table.length < table.capacity)
    (hstore : Kern.htblStore heap table k v = some (heap', table')) :
    FirstArray heap₀ heap' table' := by
  obtain ⟨d, -, ⟨hnone, heq⟩ | ⟨e, he, -, heq⟩⟩ := htblStore_cases hinv hroom heap k v
  · rw [heq] at hstore
    cases hstore
    have hperm := keyBlocks_insert hnone ⟨k, heap.next, v⟩
    have hnew : heap.next ∉ keyBlocks table.entries :=
      fun hmem => Nat.lt_irrefl _ (h.fresh _ hmem).2
    refine ⟨⟨?_, ?_⟩, h.capacity, h.array, Nat.succ_pos _, fun b hb => ?_⟩
    · exact (h.owns.live.cons heap.next).trans (hperm.symm.append_right _)
    · exact hperm.nodup_iff.mpr (List.nodup_cons.mpr ⟨hnew, h.owns.nodup⟩)
    · have hpos := h.next_pos
      rcases List.mem_cons.mp (hperm.mem_iff.mp hb) with rfl | hold
      · exact ⟨Nat.ne_of_gt hpos, Nat.lt_succ_self _⟩
      · exact ⟨(h.fresh b hold).1, Nat.lt_succ_of_lt (h.fresh b hold).2⟩
  · rw [heq] at hstore
    cases hstore
    have hsame := keyBlocks_replace (f := { e with value := v }) he rfl
    refine ⟨⟨?_, ?_⟩, h.capacity, h.array, h.next_pos, ?_⟩
    · rw [hsame]
      exact h.owns.live
    · rw [hsame]
      exact h.owns.nodup
    · rw [hsame]
      exact h.fresh

end Balance

/-! ## The copies that an expansion leaves behind -/

section Expansion

variable {depth : Nat} {heap₀ heap heap' : LiveBlocks} {table temp table' : Htbl} {k : Key}
  {v : Nat}

/-- Storing makes as many blocks as it fills entries. -/
theorem htblStore_live (hstore : htblStore heap table k v = some (heap', table')) :
    heap.live.length + table'.length = heap'.live.length + table.length := by
  unfold htblStore at hstore
  obtain ⟨index, -, hstore⟩ := Option.bind_eq_some_iff.mp hstore
  split at hstore
  · cases hstore
    rfl
  · cases hstore
    simp only [List.length_cons]
    omega

/-- The put makes at least as many blocks, over those it frees, as it fills entries. -/
def PutOwes (put : LiveBlocks → Htbl → Key → Nat → Option (LiveBlocks × Htbl)) : Prop :=
  ∀ heap table k v heap' table', put heap table k v = some (heap', table') →
    heap.live.length + table'.length ≤ heap'.live.length + table.length

variable {put : LiveBlocks → Htbl → Key → Nat → Option (LiveBlocks × Htbl)}

theorem PutOwes.htblRefill (hput : PutOwes put) {slots : List (Option HtblEntry)} :
    ∀ {heap : LiveBlocks} {temp : Htbl},
    Kern.htblRefill put slots heap temp = some (heap', table') →
    heap.live.length + table'.length ≤ heap'.live.length + temp.length := by
  induction slots with
  | nil =>
    intro heap temp hrefill
    cases hrefill
    exact Nat.le_refl _
  | cons slot slots ih =>
    intro heap temp hrefill
    cases slot with
    | none => exact ih hrefill
    | some e =>
      obtain ⟨⟨heap₁, temp₁⟩, hfirst, hrest⟩ := Option.bind_eq_some_iff.mp hrefill
      have hle₁ := hput _ _ _ _ _ _ hfirst
      have hle := ih hrest
      omega

/-- The expansion frees one block, the old array, and makes the new array and the copies in it. -/
theorem PutOwes.htblExpand (hput : PutOwes put)
    (hexpand : Kern.htblExpand put heap table = some (heap', table')) :
    table'.length = table.length ∧ ∃ heap₁ temp, Kern.htblRefill put table.entries heap.kalloc.2
        { entries := List.replicate (table.capacity * 2) none
          entriesBlock := heap.next
          capacity := table.capacity * 2
          length := 0 } = some (heap₁, temp) ∧
      heap.live.length + temp.length ≤ heap'.live.length := by
  unfold Kern.htblExpand at hexpand
  obtain ⟨⟨heap₁, temp⟩, hrefill, hrest⟩ := Option.bind_eq_some_iff.mp hexpand
  have hle := hput.htblRefill hrefill
  simp only [List.length_cons] at hle
  dsimp only at hrest
  split at hrest
  · cases hrest
  · cases hrest
    refine ⟨rfl, heap₁, temp, hrefill, ?_⟩
    have herase : heap₁.live.length - 1 ≤ (heap₁.live.erase table.entriesBlock).length :=
      List.le_length_erase
    exact Nat.le_trans (by omega) herase

theorem htblPut_of_full (depth : Nat) (hfull : table.capacity / 2 ≤ table.length) :
    htblPut (depth + 1) heap table k v =
      (htblExpand (htblPut depth) heap table).bind fun s => htblStore s.1 s.2 k v := by
  unfold htblPut
  rw [if_pos hfull]
  rfl

/-- At every depth. -/
theorem putOwes_htblPut (depth : Nat) : PutOwes (htblPut depth) := by
  induction depth with
  | zero =>
    intro heap table k v heap' table' hput
    cases hput
  | succ depth ih =>
    intro heap table k v heap' table' hput
    rcases Nat.lt_or_ge table.length (table.capacity / 2) with hroom | hfull
    · rw [htblPut_of_room depth hroom] at hput
      exact (htblStore_live hput).le
    · rw [htblPut_of_full depth hfull] at hput
      obtain ⟨⟨heap₁, table₁⟩, hexpand, hstore⟩ := Option.bind_eq_some_iff.mp hput
      obtain ⟨hlen, _, _, -, hle⟩ := ih.htblExpand hexpand
      change htblStore heap₁ table₁ k v = some (heap', table') at hstore
      have hlive := htblStore_live hstore
      omega

/-- An expansion leaves behind one copy for every key in the table. -/
theorem htblExpand_live (h : HtblInv table) (hload : table.length ≤ table.capacity / 2)
    (hexpand : htblExpand (htblPut (depth + 1)) heap table = some (heap', table')) :
    table'.length = table.length ∧ heap.live.length + table.length ≤ heap'.live.length := by
  obtain ⟨hlen, heap₁, temp, hrefill, hle⟩ := (putOwes_htblPut (depth + 1)).htblExpand hexpand
  refine ⟨hlen, ?_⟩
  obtain ⟨heap₂, temp₂, hrefill₂, -, -, -, hlen₂, -⟩ :=
    htblRefill_front h hload depth heap (List.append_nil table.entries).symm
  have hsame : (heap₁, temp) = (heap₂, temp₂) := Option.some.inj (hrefill.symm.trans hrefill₂)
  obtain ⟨rfl, rfl⟩ := Prod.mk.inj hsame
  rwa [hlen₂, h.length_eq] at hle

/-- A put that finds the table half full leaves copies behind. -/
theorem htblPut_live_of_full (h : HtblInv table) (hload : table.length = table.capacity / 2)
    (hput : htblPut (depth + 2) heap table k v = some (heap', table')) :
    heap.live.length + table'.length < heap'.live.length + table.length := by
  rw [htblPut_of_full (depth + 1) hload.ge] at hput
  obtain ⟨⟨heap₁, table₁⟩, hexpand, hstore⟩ := Option.bind_eq_some_iff.mp hput
  obtain ⟨hlen, hle⟩ := htblExpand_live h hload.le hexpand
  change htblStore heap₁ table₁ k v = some (heap', table') at hstore
  have hlive := htblStore_live hstore
  have hge := h.capacity_ge
  omega

end Expansion

/-! ## Any sequence of puts -/

section Puts

variable {depth : Nat} {heap₀ heap heap' : LiveBlocks} {table table' : Htbl}
  {puts : List (Key × Nat)} {p : Key × Nat}

theorem htblPuts_cons : htblPuts depth heap table (p :: puts) =
    (htblPut depth heap table p.1 p.2).bind fun s => htblPuts depth s.1 s.2 puts := rfl

theorem htblPuts_append (depth : Nat) (puts more : List (Key × Nat)) :
    ∀ (heap : LiveBlocks) (table : Htbl), htblPuts depth heap table (puts ++ more) =
      (htblPuts depth heap table puts).bind fun s => htblPuts depth s.1 s.2 more := by
  induction puts with
  | nil => exact fun _ _ => rfl
  | cons p puts ih =>
    intro heap table
    rw [List.cons_append, htblPuts_cons, htblPuts_cons, Option.bind_assoc]
    exact congrArg _ (funext fun s => ih s.1 s.2)

theorem PutsReach.snoc (h : PutsReach depth heap₀ (puts ++ [p]) heap' table') :
    ∃ heap table, PutsReach depth heap₀ puts heap table ∧
      htblPut (depth + 2) heap table p.1 p.2 = some (heap', table') := by
  unfold PutsReach at h
  rw [htblPuts_append] at h
  obtain ⟨⟨heap, table⟩, hputs, hlast⟩ := Option.bind_eq_some_iff.mp h
  obtain ⟨⟨heap₁, table₁⟩, hput, hend⟩ := Option.bind_eq_some_iff.mp hlast
  cases hend
  exact ⟨heap, table, hputs, hput⟩

/-- The puts reach a state, and the table is in order there. -/
theorem exists_putsReach (depth : Nat) (heap₀ : LiveBlocks) (puts : List (Key × Nat)) :
    ∃ heap table, PutsReach depth heap₀ puts heap table ∧ Refines puts table :=
  Refines.htblPuts depth puts [] (htblCreate heap₀).1 _ (refines_htblCreate heap₀)

theorem PutsReach.refines (h : PutsReach depth heap₀ puts heap table) : Refines puts table := by
  obtain ⟨heap₁, table₁, h₁, hrefines⟩ := exists_putsReach depth heap₀ puts
  obtain ⟨rfl, rfl⟩ := Prod.mk.inj (Option.some.inj (h.symm.trans h₁))
  exact hrefines

/-- A put that finds less than 16 keys keeps the balance. -/
theorem firstArray_of_few {puts : List (Key × Nat)} :
    ∀ {heap : LiveBlocks} {table : Htbl}, PutsReach depth heap₀ puts heap table →
    (putKeys puts.dropLast).length < htblInitialCapacity / 2 → FirstArray heap₀ heap table := by
  induction puts using List.reverseRecOn with
  | nil =>
    intro heap table h _
    cases h
    exact firstArray_htblCreate heap₀
  | append_singleton puts p ih =>
    intro heap' table' h hfew
    obtain ⟨heap, table, hputs, hput⟩ := h.snoc
    have hbefore := length_putKeys_dropLast_le (List.prefix_append puts [p])
    have hfirst := ih hputs (Nat.lt_of_le_of_lt hbefore hfew)
    rw [List.dropLast_concat] at hfew
    have hrefines := hputs.refines
    rw [← hrefines.length_eq, ← hfirst.capacity] at hfew
    rw [htblPut_of_room (depth + 1) hfew] at hput
    exact hfirst.htblStore hrefines.inv (Nat.lt_of_lt_of_le hfew (Nat.div_le_self _ _)) hput

/-- After a put that found 16 keys, more blocks are live than the table owns. -/
theorem live_of_many {puts : List (Key × Nat)} :
    ∀ {heap : LiveBlocks} {table : Htbl}, PutsReach depth heap₀ puts heap table →
    htblInitialCapacity / 2 ≤ (putKeys puts.dropLast).length →
    table.length + 2 + heap₀.live.length < heap.live.length := by
  induction puts using List.reverseRecOn with
  | nil =>
    intro heap table _ hmany
    exact absurd hmany (by decide)
  | append_singleton puts p ih =>
    intro heap' table' h hmany
    rw [List.dropLast_concat] at hmany
    obtain ⟨heap, table, hputs, hput⟩ := h.snoc
    have hrefines := hputs.refines
    rcases Nat.lt_or_ge (putKeys puts.dropLast).length (htblInitialCapacity / 2) with hfew | hold
    · -- this is the put that expands the first array
      have hfirst := firstArray_of_few hputs hfew
      have hlen := hfirst.owns.length_eq hrefines.inv
      rw [← hrefines.length_eq, ← hfirst.capacity] at hmany
      have hlive := htblPut_live_of_full hrefines.inv (Nat.le_antisymm hrefines.load hmany) hput
      omega
    · have hlive := ih hputs hold
      have hle := putOwes_htblPut (depth + 2) heap table p.1 p.2 heap' table' hput
      omega

/-- The table owns its blocks, and gives them back, exactly if fewer than 16 different keys are put
before the last put: a put that finds 16 keys expands the table, also where it only sets the value
of one of them. -/
theorem keysBalanced_iff (depth : Nat) (heap₀ : LiveBlocks) (hnull : 0 < heap₀.next)
    (puts : List (Key × Nat)) :
    KeysBalanced depth heap₀ puts ↔ (putKeys puts.dropLast).length < htblInitialCapacity / 2 := by
  constructor
  · intro h
    by_contra hmany
    obtain ⟨heap, table, hputs, howns⟩ := h.owned puts (List.prefix_refl puts)
    have hlen := howns.length_eq hputs.refines.inv
    have hlive := live_of_many hputs (Nat.not_lt.mp hmany)
    omega
  · intro hfew
    constructor
    · intro done hdone
      obtain ⟨heap, table, hputs, -⟩ := exists_putsReach depth heap₀ done
      have hdoneFew := Nat.lt_of_le_of_lt (length_putKeys_dropLast_le hdone) hfew
      exact ⟨heap, table, hputs, (firstArray_of_few hputs hdoneFew).owns⟩
    · obtain ⟨heap, table, hputs, -⟩ := exists_putsReach depth heap₀ puts
      have hfirst := firstArray_of_few hputs hfew
      obtain ⟨heap', hdestroy, hlive⟩ := hfirst.owns.htblDestroy (Nat.ne_of_gt hnull)
        (by rw [hfirst.array]; exact Nat.succ_ne_zero _) fun b hb => (hfirst.fresh b hb).1
      exact ⟨heap, table, heap', hputs, hdestroy, hlive⟩

/-- The keys "a" to "q". -/
def letterKey (i : Fin 17) : Key := ⟨[UInt8.ofNat (i + 97)], by decide +revert⟩

/-- One put of each of them. -/
def letterPuts : List (Key × Nat) := (List.finRange 17).map fun i => (letterKey i, 1)

theorem keysBalanced_sixteen : KeysBalanced 0 ⟨1, []⟩ (letterPuts.take 16) :=
  (keysBalanced_iff 0 ⟨1, []⟩ Nat.one_pos _).mpr (by decide +kernel)

/-- The seventeenth put leaves the copies of the sixteen keys before it behind. -/
theorem not_keysBalanced_letterPuts : ¬ KeysBalanced 0 ⟨1, []⟩ letterPuts := by
  intro h
  obtain ⟨heap, table, hputs, howns⟩ := h.owned letterPuts (List.prefix_refl letterPuts)
  have hlen := howns.length_eq hputs.refines.inv
  have hlive := live_of_many hputs (by decide +kernel)
  omega

example : (htblPuts 2 (htblCreate ⟨1, []⟩).1 (htblCreate ⟨1, []⟩).2.2 letterPuts).map
    (fun s => ((htblDestroy s.1 1 s.2).toOption.map fun heap => heap.live.length)) =
      some (some 16) := by decide +kernel

end Puts

end Microboot.Kern
