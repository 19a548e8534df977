/-
  Kern/Htbl.lean --- the hash table, kern/htbl.c.

  Open addressing with linear probing over an array whose capacity doubles when
  it is half full; the expansion fills the new array through `htbl_put` on a
  temporary table.  The heap is kept as the set of its live blocks: a table
  allocates its array and a copy of every key it stores.

  The refinement: after any sequence of puts, `htblGet` returns the value of the
  last put of its key.  Capacities are natural numbers: at the first capacity
  whose array does not fit into 32 bits the key copies alone would need more than
  the whole address space.
-/
import Microboot.Foundation.Probing
import Microboot.Kern.Stdlib

set_option autoImplicit false

namespace Microboot.Kern

open Microboot.Foundation

/-! ## The model -/

/-- The blocks of the heap that are live; `next` names the next one. -/
structure LiveBlocks where
  next : Nat
  live : List Nat
  deriving DecidableEq, Repr

/-- `kalloc`, of a size that is not 0. -/
def LiveBlocks.kalloc (heap : LiveBlocks) : Nat × LiveBlocks :=
  (heap.next, { next := heap.next + 1, live := heap.next :: heap.live })

/-- `kfree` -/
def LiveBlocks.kfree (heap : LiveBlocks) (block : Nat) : LiveBlocks :=
  { heap with live := heap.live.erase block }

/-- `kfree`, with the assertions that decide whether it returns. -/
def LiveBlocks.kfreeChecked (heap : LiveBlocks) (block : Nat) : Except Fault LiveBlocks := do
  require (block ≠ 0) "Tried to free invalid address"
  require (block ∈ heap.live) "Tried to free already free memory"
  return heap.kfree block

/-- From `heap` to `heap'` nothing was freed but blocks of `freed`. -/
structure LiveBlocks.Keeps (heap : LiveBlocks) (freed : List Nat) (heap' : LiveBlocks) : Prop where
  next_le : heap.next ≤ heap'.next
  live : ∀ b ∈ heap.live, b ∉ freed → b ∈ heap'.live

namespace LiveBlocks

variable {heap heap₁ heap₂ : LiveBlocks} {freed freed' : List Nat} {block : Nat}

theorem Keeps.refl : heap.Keeps [] heap := ⟨Nat.le_refl _, fun _ hb _ => hb⟩

theorem Keeps.trans (h : heap.Keeps freed heap₁) (h' : heap₁.Keeps freed' heap₂) :
    heap.Keeps (freed ++ freed') heap₂ where
  next_le := Nat.le_trans h.next_le h'.next_le
  live b hb hnot := by
    rw [List.mem_append, not_or] at hnot
    exact h'.live b (h.live b hb hnot.1) hnot.2

theorem Keeps.mono (h : heap.Keeps freed heap₁) (hsub : freed ⊆ freed') :
    heap.Keeps freed' heap₁ :=
  ⟨h.next_le, fun b hb hnot => h.live b hb fun hf => hnot (hsub hf)⟩

theorem kalloc_keeps : heap.Keeps [] heap.kalloc.2 :=
  ⟨Nat.le_succ _, fun _ hb _ => List.mem_cons_of_mem _ hb⟩

theorem kfree_keeps : heap.Keeps [block] (heap.kfree block) :=
  ⟨Nat.le_refl _, fun _ hb hnot => (List.mem_erase_of_ne (by simpa using hnot)).mpr hb⟩

theorem kfreeChecked_eq_ok (hnull : block ≠ 0) (hlive : block ∈ heap.live) :
    heap.kfreeChecked block = .ok (heap.kfree block) := by
  unfold kfreeChecked
  rw [require_of _ hnull, require_of _ hlive]
  rfl

/-- Freeing one of the live blocks leaves the others. -/
theorem kfreeChecked_of_perm {rest : List Nat} (hnull : block ≠ 0)
    (hlive : heap.live.Perm (block :: rest)) :
    ∃ heap', heap.kfreeChecked block = .ok heap' ∧ heap'.live.Perm rest := by
  refine ⟨heap.kfree block, kfreeChecked_eq_ok hnull (hlive.mem_iff.mpr List.mem_cons_self), ?_⟩
  have herase := hlive.erase block
  rw [List.erase_cons_head] at herase
  exact herase

end LiveBlocks

/-- `struct htbl_entry` with a key that is not `NULL`; `keyBlock` is the block of
the key's copy. -/
structure HtblEntry where
  key : Key
  keyBlock : Nat
  value : Nat
  deriving DecidableEq, Repr

/-- `struct htbl`; an entry whose key is `NULL` is `none`. -/
structure Htbl where
  entries : List (Option HtblEntry)
  entriesBlock : Nat
  capacity : Nat
  length : Nat
  deriving DecidableEq, Repr

/-- `HTBL_INITIAL_CAPACITY` -/
def htblInitialCapacity : Nat := 32

/-- `htbl_create()`: the heap, the block of the table, and the table. -/
def htblCreate (heap : LiveBlocks) : LiveBlocks × Nat × Htbl :=
  let (block, heap) := heap.kalloc
  let (entriesBlock, heap) := heap.kalloc
  (heap, block,
    { entries := List.replicate htblInitialCapacity none
      entriesBlock := entriesBlock
      capacity := htblInitialCapacity
      length := 0 })

/-- The loop of `htbl_destroy`: the copies of the keys are freed. -/
def htblFreeKeys : List (Option HtblEntry) → LiveBlocks → Except Fault LiveBlocks
  | [], heap => .ok heap
  | none :: entries, heap => htblFreeKeys entries heap
  | some entry :: entries, heap => do
    let heap ← heap.kfreeChecked entry.keyBlock
    htblFreeKeys entries heap

/-- `htbl_destroy(table)`, of the table in `block`. -/
def htblDestroy (heap : LiveBlocks) (block : Nat) (table : Htbl) : Except Fault LiveBlocks := do
  require (block ≠ 0 ∧ table.entriesBlock ≠ 0) "NULL table or entries"
  let heap ← htblFreeKeys table.entries heap
  let heap ← heap.kfreeChecked table.entriesBlock
  heap.kfreeChecked block

/-- `fnv1a32_hash(key)` -/
def fnv1a32Hash (key : List UInt8) : UInt32 :=
  key.foldl (fun hash c => (hash ^^^ c.toUInt32) * 16777619) 2166136261

/-- `hash & (uint32_t)(table->capacity - 1)` -/
def htblIndex (capacity : Nat) (key : Key) : Nat :=
  (fnv1a32Hash key.val).toNat &&& (capacity - 1) % 2 ^ 32

/-- The loop of `htbl_get` and `htbl_put`: from `index` on, around the end of the
table, to the first entry that is empty or has the key.  A loop that has seen
every entry goes on for ever. -/
def htblProbe (table : Htbl) (key : Key) : Nat → Nat → Option Nat
  | 0, _ => none
  | fuel + 1, index =>
    match table.entries[index]? with
    | none => none
    | some none => some index
    | some (some entry) =>
      if strcmp key.val entry.key.val = 0 then some index
      else
        let index := index + 1
        htblProbe table key fuel (if index ≥ table.capacity then 0 else index)

/-- `htbl_get(table, key)`; 0 is `NULL`. -/
def htblGet (table : Htbl) (key : Key) : Option Nat := do
  let index ← htblProbe table key table.capacity (htblIndex table.capacity key)
  match table.entries[index]? with
  | some (some entry) => return entry.value
  | _ => return 0

/-- `htbl_put` behind the expansion: the entry is set, or inserted with a copy of
the key. -/
def htblStore (heap : LiveBlocks) (table : Htbl) (key : Key) (value : Nat) :
    Option (LiveBlocks × Htbl) := do
  let index ← htblProbe table key table.capacity (htblIndex table.capacity key)
  match table.entries[index]? with
  | some (some entry) =>
    return (heap, { table with
      entries := table.entries.set index (some { entry with value := value }) })
  | _ =>
    let (block, heap) := heap.kalloc
    return (heap, { table with
      entries := table.entries.set index (some { key := key, keyBlock := block, value := value })
      length := table.length + 1 })

/-- The loop of `htbl_expand`: every entry is put into the temporary table. -/
def htblRefill (put : LiveBlocks → Htbl → Key → Nat → Option (LiveBlocks × Htbl)) :
    List (Option HtblEntry) → LiveBlocks → Htbl → Option (LiveBlocks × Htbl)
  | [], heap, temp => some (heap, temp)
  | none :: entries, heap, temp => htblRefill put entries heap temp
  | some entry :: entries, heap, temp => do
    let (heap, temp) ← put heap temp entry.key entry.value
    htblRefill put entries heap temp

/-- `htbl_expand(table)`, given `htbl_put`. -/
def htblExpand (put : LiveBlocks → Htbl → Key → Nat → Option (LiveBlocks × Htbl))
    (heap : LiveBlocks) (table : Htbl) : Option (LiveBlocks × Htbl) := do
  let extendedCapacity := table.capacity * 2
  let (extendedEntries, heap) := heap.kalloc
  let temp : Htbl :=
    { entries := List.replicate extendedCapacity none
      entriesBlock := extendedEntries
      capacity := extendedCapacity
      length := 0 }
  let (heap, temp) ← htblRefill put table.entries heap temp
  -- an expansion of the temporary table would have freed the new array
  if temp.entriesBlock ≠ extendedEntries then
    none
  let heap := heap.kfree table.entriesBlock
  return (heap, { table with
    entries := temp.entries
    entriesBlock := extendedEntries
    capacity := extendedCapacity })

/-- `htbl_put(table, key, value)`; the first argument bounds the depth of the
recursion through `htbl_expand`. -/
def htblPut : Nat → LiveBlocks → Htbl → Key → Nat → Option (LiveBlocks × Htbl)
  | 0, _, _, _, _ => none
  | depth + 1, heap, table, key, value => do
    -- if the table is getting crowded enough, expand it first
    let (heap, table) ←
      if table.length ≥ table.capacity / 2 then htblExpand (htblPut depth) heap table
      else some (heap, table)
    htblStore heap table key value

/-- A sequence of puts. -/
def htblPuts (depth : Nat) (heap : LiveBlocks) (table : Htbl) :
    List (Key × Nat) → Option (LiveBlocks × Htbl)
  | [] => some (heap, table)
  | (key, value) :: puts => do
    let (heap, table) ← htblPut depth heap table key value
    htblPuts depth heap table puts

/-! ## What a table maps -/

/-- One of the entries maps `k` to `v`. -/
def Maps (entries : List (Option HtblEntry)) (k : Key) (v : Nat) : Prop :=
  ∃ e, some e ∈ entries ∧ e.key = k ∧ e.value = v

/-- The table is in order: its array has the capacity, which is 32 times a power
of two, it is filled by probing, and `length` counts the entries. -/
structure HtblInv (table : Htbl) : Prop where
  entries_length : table.entries.length = table.capacity
  capacity_pow : ∃ n, table.capacity = 32 * 2 ^ n
  probed : Probed HtblEntry.key (htblIndex table.capacity) table.entries
  length_eq : table.entries.countP Option.isSome = table.length

namespace HtblInv

variable {table : Htbl} {heap : LiveBlocks} {k : Key} {v : Nat}

theorem capacity_ge (h : HtblInv table) : 32 ≤ table.capacity := by
  obtain ⟨n, hn⟩ := h.capacity_pow
  rw [hn]
  exact Nat.le_mul_of_pos_right 32 (Nat.two_pow_pos n)

theorem htblIndex_lt (h : HtblInv table) : htblIndex table.capacity k < table.capacity := by
  have hge := h.capacity_ge
  have hmod : (table.capacity - 1) % 2 ^ 32 ≤ table.capacity - 1 := Nat.mod_le _ _
  have hand := Nat.and_le_right (n := (fnv1a32Hash k.val).toNat)
    (m := (table.capacity - 1) % 2 ^ 32)
  unfold htblIndex
  omega

/-- A table that is not full has an empty entry. -/
theorem exists_empty (h : HtblInv table) (hroom : table.length < table.capacity) :
    none ∈ table.entries := by
  by_contra hfull
  have hall : table.entries.countP Option.isSome = table.entries.length := by
    rw [List.countP_eq_length]
    intro e he
    cases e with
    | none => exact absurd he hfull
    | some e => rfl
  rw [h.length_eq, h.entries_length] at hall
  omega

/-- The loop runs to where the search ends. -/
theorem htblProbe_eq (h : HtblInv table) {d : Nat}
    (hends : Ends HtblEntry.key (htblIndex table.capacity) table.entries k d) :
    ∀ fuel d₀, d₀ ≤ d → d - d₀ < fuel →
      htblProbe table k fuel (slotAt (htblIndex table.capacity) table.entries k d₀) =
        some (slotAt (htblIndex table.capacity) table.entries k d) := by
  have hpos : 0 < table.entries.length := by
    have := h.capacity_ge
    rw [h.entries_length]
    omega
  intro fuel
  induction fuel with
  | zero => intro d₀ _ hfuel; omega
  | succ fuel ih =>
    intro d₀ hle hfuel
    unfold htblProbe
    by_cases hlast : d₀ = d
    · subst hlast
      rcases hends.here with hnone | ⟨e, he, hkey⟩
      · rw [hnone]
      · rw [he]
        have hcmp : strcmp k.val e.key.val = 0 :=
          (strcmp_eq_zero_iff k.property e.key.property).mpr (by rw [hkey])
        simp only [hcmp, if_true]
    · obtain ⟨e, he, hne⟩ := hends.before d₀ (by omega)
      have hcmp : strcmp k.val e.key.val ≠ 0 := by
        rw [Ne, strcmp_eq_zero_iff k.property e.key.property]
        exact fun heq => hne (Subtype.ext heq.symm)
      have hnext := slotAt_succ (htblIndex table.capacity) k d₀ hpos
      rw [h.entries_length] at hnext
      rw [he]
      simp only [hcmp, if_false, hnext]
      exact ih (d₀ + 1) (by omega) (by omega)

/-- In a table that is not full the search ends, at an entry of the key or at an
empty one. -/
theorem exists_probe (h : HtblInv table) (hroom : table.length < table.capacity) (k : Key) :
    ∃ d, Ends HtblEntry.key (htblIndex table.capacity) table.entries k d ∧
      htblProbe table k table.capacity (htblIndex table.capacity k) =
        some (slotAt (htblIndex table.capacity) table.entries k d) := by
  obtain ⟨d, hd, hends⟩ :=
    exists_ends HtblEntry.key (htblIndex table.capacity) k (h.exists_empty hroom)
  rw [h.entries_length] at hd
  have hstart : slotAt (htblIndex table.capacity) table.entries k 0 =
      htblIndex table.capacity k := by
    unfold slotAt
    rw [Nat.add_zero, h.entries_length, Nat.mod_eq_of_lt h.htblIndex_lt]
  refine ⟨d, hends, ?_⟩
  rw [← hstart]
  exact h.htblProbe_eq hends table.capacity 0 (Nat.zero_le _) (by omega)

/-- `htbl_get` returns what the table maps the key to, or `NULL`. -/
theorem htblGet_eq (h : HtblInv table) (hroom : table.length < table.capacity) (k : Key) :
    (∃ v, htblGet table k = some v ∧ Maps table.entries k v) ∨
      (htblGet table k = some 0 ∧ ∀ v, ¬ Maps table.entries k v) := by
  obtain ⟨d, hends, hprobe⟩ := h.exists_probe hroom k
  unfold htblGet
  rw [hprobe]
  rcases hends.here with hnone | ⟨e, he, hkey⟩
  · refine Or.inr ⟨by simp [hnone], fun v hmaps => ?_⟩
    obtain ⟨e, he, hkey, -⟩ := hmaps
    exact hends.not_mem h.probed hnone he hkey
  · exact Or.inl ⟨e.value, by simp [he], e, List.mem_of_getElem? he, hkey, rfl⟩

/-- A key is mapped to one value. -/
theorem maps_unique (h : HtblInv table) {v' : Nat} (hv : Maps table.entries k v)
    (hv' : Maps table.entries k v') : v = v' := by
  obtain ⟨e, he, hk, rfl⟩ := hv
  obtain ⟨e', he', hk', rfl⟩ := hv'
  rw [h.probed.eq_of_key he he' (hk.trans hk'.symm)]

end HtblInv

/-! ## One put -/

section Put

variable {table : Htbl} {heap : LiveBlocks} {k : Key} {v : Nat}

/-- `key` is mapped to `value` and all other keys as before. -/
def MapsAfter (before after : List (Option HtblEntry)) (key : Key) (value : Nat) : Prop :=
  ∀ k v, Maps after k v ↔ (k = key ∧ v = value) ∨ (k ≠ key ∧ Maps before k v)

/-- An entry at slot `i` whose key no other slot holds is mapped to by its key. -/
theorem mapsAfter_set {entries : List (Option HtblEntry)} {i : Nat} (hi : i < entries.length)
    {e : HtblEntry} (hother : ∀ j f, j ≠ i → entries[j]? = some (some f) → f.key ≠ e.key)
    (hhere : ∀ f, entries[i]? = some (some f) → f.key = e.key) :
    MapsAfter entries (entries.set i (some e)) e.key e.value := by
  intro k v
  constructor
  · intro ⟨f, hf, hk, hv⟩
    rcases (mem_set_iff hi).mp hf with rfl | ⟨j, hij, hj⟩
    · exact Or.inl ⟨hk.symm, hv.symm⟩
    · refine Or.inr ⟨?_, f, List.mem_of_getElem? hj, hk, hv⟩
      rw [← hk]
      exact hother j f hij hj
  · intro h
    rcases h with ⟨rfl, rfl⟩ | ⟨hne, f, hf, hk, hv⟩
    · exact ⟨e, (mem_set_iff hi).mpr (Or.inl rfl), rfl, rfl⟩
    · obtain ⟨j, hj⟩ := List.mem_iff_getElem?.mp hf
      refine ⟨f, (mem_set_iff hi).mpr (Or.inr ⟨j, fun hij => ?_, hj⟩), hk, hv⟩
      subst hij
      exact hne (hk.symm.trans (hhere f hj))

/-- Storing inserts the key with a new copy into the empty entry where the search
for it ends, or sets the value of its entry. -/
theorem htblStore_cases (h : HtblInv table) (hroom : table.length < table.capacity)
    (heap : LiveBlocks) (k : Key) (v : Nat) :
    ∃ d, Ends HtblEntry.key (htblIndex table.capacity) table.entries k d ∧
      ((table.entries[slotAt (htblIndex table.capacity) table.entries k d]? = some none ∧
          htblStore heap table k v = some (heap.kalloc.2, { table with
            entries := table.entries.set (slotAt (htblIndex table.capacity) table.entries k d)
              (some ⟨k, heap.next, v⟩)
            length := table.length + 1 })) ∨
        ∃ e, table.entries[slotAt (htblIndex table.capacity) table.entries k d]? =
            some (some e) ∧ e.key = k ∧
          htblStore heap table k v = some (heap, { table with
            entries := table.entries.set (slotAt (htblIndex table.capacity) table.entries k d)
              (some { e with value := v }) })) := by
  obtain ⟨d, hends, hprobe⟩ := h.exists_probe hroom k
  refine ⟨d, hends, ?_⟩
  unfold htblStore
  rw [hprobe]
  rcases hends.here with hnone | ⟨e, he, hkey⟩
  · refine Or.inl ⟨hnone, ?_⟩
    simp only [Option.bind_eq_bind, Option.bind_some, hnone]
    rfl
  · refine Or.inr ⟨e, he, hkey, ?_⟩
    simp only [Option.bind_eq_bind, Option.bind_some, he]
    rfl

/-- Storing into a table that is not full maps the key to the value, and counts a
key that is new. -/
theorem htblStore_spec (h : HtblInv table) (hroom : table.length < table.capacity)
    (heap : LiveBlocks) (k : Key) (v : Nat) :
    ∃ heap' table', htblStore heap table k v = some (heap', table') ∧ HtblInv table' ∧
      table'.capacity = table.capacity ∧ table'.entriesBlock = table.entriesBlock ∧
      MapsAfter table.entries table'.entries k v ∧ table'.length ≤ table.length + 1 ∧
      ((∀ v, ¬ Maps table.entries k v) → table'.length = table.length + 1) ∧
      heap.Keeps [] heap' := by
  obtain ⟨d, hends, hstored⟩ := htblStore_cases h hroom heap k v
  have hpos : 0 < table.entries.length := by
    rw [h.entries_length]
    omega
  have hlt : slotAt (htblIndex table.capacity) table.entries k d < table.entries.length :=
    slotAt_lt hpos
  have hcount := h.length_eq
  rcases hstored with ⟨hnone, hstore⟩ | ⟨e, he, hkey, hstore⟩
  · -- the key is new
    have hnew : ∀ f, some f ∈ table.entries → f.key ≠ k :=
      fun f hf => hends.not_mem h.probed hnone hf
    have hprobed := h.probed.insert (e := HtblEntry.mk k heap.next v) hpos hends hnone
    have hmaps := mapsAfter_set (e := HtblEntry.mk k heap.next v) hlt
      (fun j f _ hj => hnew f (List.mem_of_getElem? hj))
      (fun f hf => by rw [hnone] at hf; cases hf)
    rw [hstore]
    generalize slotAt (htblIndex table.capacity) table.entries k d = i at hnone hlt hprobed hmaps
    have hempty : table.entries[i] = none := (List.getElem?_eq_some_iff.mp hnone).2
    refine ⟨heap.kalloc.2,
      { table with
        entries := table.entries.set i (some ⟨k, heap.next, v⟩), length := table.length + 1 },
      rfl, ⟨?_, h.capacity_pow, hprobed, ?_⟩, rfl, rfl, hmaps, Nat.le_refl _, fun _ => rfl,
      LiveBlocks.kalloc_keeps⟩
    · exact (List.length_set ..).trans h.entries_length
    · rw [List.countP_set hlt, hempty, ← hcount]
      simp
  · -- the key is there
    have hprobed := h.probed.replace (f := { e with value := v }) he rfl
    have hmaps := mapsAfter_set (e := { e with value := v }) hlt
      (fun j f hij hj heq => hij (h.probed.distinct j _ f e hj he heq))
      (fun f hf => by rw [he, Option.some.injEq, Option.some.injEq] at hf; rw [← hf])
    rw [hstore]
    generalize slotAt (htblIndex table.capacity) table.entries k d = i at he hlt hprobed hmaps
    have hfull : table.entries[i] = some e := (List.getElem?_eq_some_iff.mp he).2
    refine ⟨heap, { table with entries := table.entries.set i (some { e with value := v }) },
      rfl, ⟨?_, h.capacity_pow, hprobed, ?_⟩, rfl, rfl, ?_, Nat.le_succ _, fun hnot => ?_,
      LiveBlocks.Keeps.refl⟩
    · exact (List.length_set ..).trans h.entries_length
    · have hsome : 0 < table.entries.countP Option.isSome :=
        List.countP_pos_iff.mpr ⟨some e, List.mem_of_getElem? he, rfl⟩
      rw [List.countP_set hlt, hfull, ← hcount]
      simp
      omega
    · rw [← hkey]
      exact hmaps
    · exact absurd ⟨e, List.mem_of_getElem? he, hkey, rfl⟩ (hnot e.value)

/-- A table with room is not expanded. -/
theorem htblPut_of_room (depth : Nat) (hroom : table.length < table.capacity / 2) :
    htblPut (depth + 1) heap table k v = htblStore heap table k v := by
  have hnot : ¬ table.length ≥ table.capacity / 2 := Nat.not_le_of_lt hroom
  unfold htblPut
  simp only [if_neg hnot]
  rfl

end Put

/-! ## The expansion -/

section Expand

variable {table temp : Htbl} {k : Key} {v : Nat}

/-- No two entries have the same key. -/
def KeysDistinct (entries : List (Option HtblEntry)) : Prop :=
  ∀ (i j : Nat) (e f : HtblEntry), entries[i]? = some (some e) → entries[j]? = some (some f) →
    e.key = f.key → i = j

/-- The entry behind a prefix of the table is new to it. -/
theorem KeysDistinct.not_maps {done rest : List (Option HtblEntry)} {e : HtblEntry}
    (h : KeysDistinct (done ++ some e :: rest)) : ¬ Maps done e.key v := by
  intro ⟨f, hf, hkey, _⟩
  obtain ⟨i, hi, hslot⟩ := List.getElem_of_mem hf
  have hfi : (done ++ some e :: rest)[i]? = some (some f) := by
    rw [List.getElem?_append_left hi, List.getElem?_eq_getElem hi, hslot]
  have hei : (done ++ some e :: rest)[done.length]? = some (some e) := by simp
  have hij := h i done.length f e hfi hei hkey
  omega

/-- A part of the table has its keys once, too. -/
theorem KeysDistinct.front {done rest : List (Option HtblEntry)} (h : KeysDistinct (done ++ rest)) :
    KeysDistinct done := by
  intro i j e f hi hj hkey
  have hfront : ∀ {i : Nat} {e : HtblEntry}, done[i]? = some (some e) →
      (done ++ rest)[i]? = some (some e) := by
    intro i e hi
    rw [List.getElem?_append_left (List.getElem?_eq_some_iff.mp hi).1]
    exact hi
  exact h i j e f (hfront hi) (hfront hj) hkey

/-- Refilling puts the entries of `rest` into the temporary table, which holds
those of `done` already and never gets half full. -/
theorem htblRefill_spec (depth : Nat) (rest : List (Option HtblEntry)) :
    ∀ (done : List (Option HtblEntry)) (heap : LiveBlocks) (temp : Htbl), HtblInv temp →
    KeysDistinct (done ++ rest) →
    temp.length + rest.countP Option.isSome ≤ temp.capacity / 2 →
    (∀ k v, Maps temp.entries k v ↔ Maps done k v) →
    ∃ heap' temp', htblRefill (htblPut (depth + 1)) rest heap temp = some (heap', temp') ∧
      HtblInv temp' ∧ temp'.capacity = temp.capacity ∧
      temp'.entriesBlock = temp.entriesBlock ∧
      temp'.length = temp.length + rest.countP Option.isSome ∧
      (∀ k v, Maps temp'.entries k v ↔ Maps (done ++ rest) k v) ∧ heap.Keeps [] heap' := by
  induction rest with
  | nil =>
    intro done heap temp hinv _ _ hmaps
    exact ⟨heap, temp, rfl, hinv, rfl, rfl, by simp, by simpa using hmaps,
      LiveBlocks.Keeps.refl⟩
  | cons entry rest ih =>
    intro done heap temp hinv hdistinct hroom hmaps
    have happend : done ++ entry :: rest = (done ++ [entry]) ++ rest := by simp
    cases entry with
    | none =>
      have hmaps' : ∀ k v, Maps temp.entries k v ↔ Maps (done ++ [none]) k v := by
        intro k v
        rw [hmaps k v]
        simp [Maps]
      have hcount : (none :: rest : List (Option HtblEntry)).countP Option.isSome =
          rest.countP Option.isSome := by simp
      rw [happend] at hdistinct ⊢
      rw [hcount] at hroom ⊢
      exact ih (done ++ [none]) heap temp hinv hdistinct hroom hmaps'
    | some e =>
      have hcount : (some e :: rest).countP Option.isSome =
          rest.countP Option.isSome + 1 := by simp
      have hnew : ∀ v, ¬ Maps done e.key v := fun v => hdistinct.not_maps
      rw [hcount] at hroom ⊢
      have hcap := hinv.capacity_ge
      obtain ⟨heap₁, temp₁, hstore, hinv₁, hcap₁, hblock₁, hafter, -, hlen, hkeeps₁⟩ :=
        htblStore_spec hinv (by omega) heap e.key e.value
      have hlen₁ := hlen fun v hv => hnew v ((hmaps _ _).mp hv)
      have hmaps₁ : ∀ k v, Maps temp₁.entries k v ↔ Maps (done ++ [some e]) k v := by
        intro k v
        rw [hafter k v, hmaps k v]
        constructor
        · intro h
          rcases h with ⟨rfl, rfl⟩ | ⟨-, f, hf, hk, hv⟩
          · exact ⟨e, by simp, rfl, rfl⟩
          · exact ⟨f, by simp [hf], hk, hv⟩
        · intro ⟨f, hf, hk, hv⟩
          rw [List.mem_append, List.mem_singleton, Option.some.injEq] at hf
          rcases hf with hf | rfl
          · refine Or.inr ⟨fun heq => ?_, f, hf, hk, hv⟩
            exact hnew v ⟨f, hf, hk.trans heq, hv⟩
          · exact Or.inl ⟨hk.symm, hv.symm⟩
      rw [happend] at hdistinct ⊢
      obtain ⟨heap', temp', hrefill, hinv', hcap', hblock', hlen', hmaps', hkeeps'⟩ :=
        ih (done ++ [some e]) heap₁ temp₁ hinv₁ hdistinct
          (by rw [hlen₁, hcap₁]; omega) hmaps₁
      refine ⟨heap', temp', ?_, hinv', hcap'.trans hcap₁, hblock'.trans hblock₁, by omega,
        hmaps', hkeeps₁.trans hkeeps'⟩
      unfold htblRefill
      rw [htblPut_of_room depth (by omega), hstore]
      exact hrefill

/-- An empty table is in order. -/
theorem htblInv_replicate {capacity : Nat} (hpow : ∃ n, capacity = 32 * 2 ^ n) (block : Nat) :
    HtblInv
      { entries := List.replicate capacity none
        entriesBlock := block
        capacity := capacity
        length := 0 } where
  entries_length := List.length_replicate
  capacity_pow := hpow
  probed := probed_replicate capacity
  length_eq := by simp [List.countP_replicate]

theorem not_maps_replicate (n : Nat) : ¬ Maps (List.replicate n none) k v := by
  intro ⟨e, he, _⟩
  exact absurd (List.eq_of_mem_replicate he) (by simp)

/-- Refilling the doubled array puts the entries in front without another expansion. -/
theorem htblRefill_front (h : HtblInv table) (hload : table.length ≤ table.capacity / 2)
    (depth : Nat) (heap : LiveBlocks) {done rest : List (Option HtblEntry)}
    (hentries : table.entries = done ++ rest) :
    ∃ heap' temp', htblRefill (htblPut (depth + 1)) done heap.kalloc.2
        { entries := List.replicate (table.capacity * 2) none
          entriesBlock := heap.kalloc.1
          capacity := table.capacity * 2
          length := 0 } = some (heap', temp') ∧
      HtblInv temp' ∧ temp'.capacity = table.capacity * 2 ∧
      temp'.entriesBlock = heap.kalloc.1 ∧ temp'.length = done.countP Option.isSome ∧
      (∀ k v, Maps temp'.entries k v ↔ Maps done k v) ∧ heap.kalloc.2.Keeps [] heap' := by
  have hpow : ∃ n, table.capacity * 2 = 32 * 2 ^ n := by
    obtain ⟨n, hn⟩ := h.capacity_pow
    exact ⟨n + 1, by rw [hn, Nat.pow_succ, Nat.mul_assoc]⟩
  have hcount : done.countP Option.isSome ≤ table.length := by
    rw [← h.length_eq, hentries, List.countP_append]
    exact Nat.le_add_right _ _
  have hdistinct : KeysDistinct ([] ++ done) := by
    have := h.probed.distinct
    rw [hentries] at this
    exact KeysDistinct.front this
  obtain ⟨heap', temp', hrefill, hinv, hcap, hblock, hlen, hmaps, hkeeps⟩ :=
    htblRefill_spec depth done [] heap.kalloc.2 _ (htblInv_replicate hpow heap.kalloc.1)
      hdistinct (by dsimp only; omega) fun k v =>
        iff_of_false (not_maps_replicate _) fun ⟨e, he, _⟩ => by cases he
  rw [Nat.zero_add] at hlen
  exact ⟨heap', temp', hrefill, hinv, hcap, hblock, hlen, hmaps, hkeeps⟩

/-- The expansion doubles the capacity and maps what the table mapped. -/
theorem htblExpand_spec (h : HtblInv table) (hload : table.length ≤ table.capacity / 2)
    (depth : Nat) (heap : LiveBlocks) :
    ∃ heap' table', htblExpand (htblPut (depth + 1)) heap table = some (heap', table') ∧
      HtblInv table' ∧ table'.capacity = table.capacity * 2 ∧ table'.length = table.length ∧
      (∀ k v, Maps table'.entries k v ↔ Maps table.entries k v) ∧
      heap.Keeps [table.entriesBlock] heap' ∧ table'.entriesBlock = heap.next ∧
      heap.next < heap'.next := by
  obtain ⟨heap', temp', hrefill, hinv, hcap, hblock, hlen, hmaps, hkeeps⟩ :=
    htblRefill_front h hload depth heap (List.append_nil table.entries).symm
  rw [h.length_eq] at hlen
  have hsame : ¬ temp'.entriesBlock ≠ heap.kalloc.1 := not_not.mpr hblock
  refine ⟨heap'.kfree table.entriesBlock,
    { table with
      entries := temp'.entries
      entriesBlock := heap.kalloc.1
      capacity := table.capacity * 2 }, ?_, ⟨?_, hcap ▸ hinv.capacity_pow, ?_, ?_⟩, rfl, rfl, hmaps,
    (LiveBlocks.kalloc_keeps.trans hkeeps).trans LiveBlocks.kfree_keeps, rfl, hkeeps.next_le⟩
  · unfold htblExpand
    simp only [hrefill, Option.bind_eq_bind, Option.bind_some, if_neg hsame]
    rfl
  · exact hinv.entries_length.trans hcap
  · have hprobed := hinv.probed
    rw [hcap] at hprobed
    exact hprobed
  · exact hinv.length_eq.trans hlen

/-- What a put leaves behind: a table that maps the key to the value and is at
most half full, and a heap in which only the old array can be gone. -/
structure PutResult (heap : LiveBlocks) (table : Htbl) (k : Key) (v : Nat)
    (heap' : LiveBlocks) (table' : Htbl) : Prop where
  inv : HtblInv table'
  load : table'.length ≤ table'.capacity / 2
  maps : MapsAfter table.entries table'.entries k v
  keeps : heap.Keeps [table.entriesBlock] heap'
  entriesBlock : table'.entriesBlock = table.entriesBlock ∨
    (heap.next ≤ table'.entriesBlock ∧ table'.entriesBlock < heap'.next)

/-- One put, with or without an expansion. -/
theorem htblPut_spec (h : HtblInv table) (hload : table.length ≤ table.capacity / 2)
    (depth : Nat) (heap : LiveBlocks) (k : Key) (v : Nat) :
    ∃ heap' table', htblPut (depth + 2) heap table k v = some (heap', table') ∧
      PutResult heap table k v heap' table' := by
  by_cases hroom : table.length < table.capacity / 2
  · obtain ⟨heap', table', hstore, hinv, hcap, hblock, hafter, hlen, -, hkeeps⟩ :=
      htblStore_spec h (by omega) heap k v
    refine ⟨heap', table', ?_, hinv, by omega, hafter, hkeeps.mono (List.nil_subset _),
      Or.inl hblock⟩
    rw [htblPut_of_room (depth + 1) hroom, hstore]
  · obtain ⟨heap₁, table₁, hexpand, hinv₁, hcap₁, hlen₁, hsame, hkeeps₁, hblock₁, hnext₁⟩ :=
      htblExpand_spec h hload depth heap
    have hge := h.capacity_ge
    obtain ⟨heap', table', hstore, hinv, hcap, hblock, hafter, hlen, -, hkeeps⟩ :=
      htblStore_spec hinv₁ (by omega) heap₁ k v
    have hnext := hkeeps.next_le
    have hfull : table.length ≥ table.capacity / 2 := by omega
    refine ⟨heap', table', ?_, hinv, by omega, fun k' v' => ?_, ?_,
      Or.inr ⟨by omega, by omega⟩⟩
    · unfold htblPut
      simp only [if_pos hfull, hexpand, Option.bind_eq_bind, Option.bind_some, hstore]
    · rw [hafter k' v', hsame k' v']
    · simpa using hkeeps₁.trans hkeeps

end Expand

/-! ## Any sequence of puts -/

/-- The value of the last put of a key. -/
def lastPut (puts : List (Key × Nat)) (key : Key) : Option Nat :=
  (puts.reverse.find? fun p => p.1 = key).map Prod.snd

theorem lastPut_snoc (puts : List (Key × Nat)) (k k' : Key) (v : Nat) :
    lastPut (puts ++ [(k, v)]) k' = if k = k' then some v else lastPut puts k' := by
  unfold lastPut
  rw [List.reverse_append, List.reverse_singleton, List.singleton_append, List.find?_cons]
  by_cases hk : k = k'
  · simp [hk]
  · simp [hk]

/-- The table is in order, at most half full, and maps every key to the value of
its last put. -/
structure Refines (puts : List (Key × Nat)) (table : Htbl) : Prop where
  inv : HtblInv table
  load : table.length ≤ table.capacity / 2
  maps : ∀ k v, Maps table.entries k v ↔ lastPut puts k = some v

theorem refines_htblCreate (heap : LiveBlocks) : Refines [] (htblCreate heap).2.2 where
  inv := htblInv_replicate ⟨0, rfl⟩ _
  load := Nat.zero_le _
  maps _ _ := iff_of_false (not_maps_replicate _) (by simp [lastPut])

namespace Refines

variable {puts : List (Key × Nat)} {table : Htbl}

theorem htblPut (h : Refines puts table) (depth : Nat) (heap : LiveBlocks) (k : Key) (v : Nat) :
    ∃ heap' table', Kern.htblPut (depth + 2) heap table k v = some (heap', table') ∧
      Refines (puts ++ [(k, v)]) table' := by
  obtain ⟨heap', table', hput, hresult⟩ := htblPut_spec h.inv h.load depth heap k v
  refine ⟨heap', table', hput, hresult.inv, hresult.load, fun k' v' => ?_⟩
  rw [hresult.maps k' v', h.maps k' v', lastPut_snoc]
  by_cases hk : k = k'
  · rw [if_pos hk]
    simp [hk, eq_comm]
  · rw [if_neg hk]
    simp [Ne.symm hk]

theorem htblPuts (depth : Nat) (more : List (Key × Nat)) :
    ∀ (puts : List (Key × Nat)) (heap : LiveBlocks) (table : Htbl), Refines puts table →
    ∃ heap' table', Kern.htblPuts (depth + 2) heap table more = some (heap', table') ∧
      Refines (puts ++ more) table' := by
  induction more with
  | nil =>
    intro puts heap table h
    exact ⟨heap, table, rfl, by simpa using h⟩
  | cons p more ih =>
    intro puts heap table h
    obtain ⟨heap₁, table₁, hput, h₁⟩ := h.htblPut depth heap p.1 p.2
    obtain ⟨heap', table', hputs, h'⟩ := ih _ heap₁ table₁ h₁
    refine ⟨heap', table', ?_, by simpa using h'⟩
    unfold Kern.htblPuts
    simp only [hput, Option.bind_eq_bind, Option.bind_some, hputs]

/-- `htbl_get` reads the map. -/
theorem htblGet_eq (h : Refines puts table) (k : Key) :
    htblGet table k = some ((lastPut puts k).getD 0) := by
  have hge := h.inv.capacity_ge
  have hload := h.load
  rcases h.inv.htblGet_eq (by omega) k with ⟨v, hget, hmaps⟩ | ⟨hget, hnot⟩
  · rw [hget, (h.maps k v).mp hmaps, Option.getD_some]
  · cases hlast : lastPut puts k with
    | none => rw [hget, Option.getD_none]
    | some v => exact absurd ((h.maps k v).mpr hlast) (hnot v)

end Refines

/-- After any sequence of puts into a new table, `htbl_get` returns the value of
the last put of its key, and `NULL` for a key that was never put. -/
theorem htblGet_htblPuts (depth : Nat) (heap : LiveBlocks) (puts : List (Key × Nat)) :
    ∃ heap' table', htblPuts (depth + 2) (htblCreate heap).1 (htblCreate heap).2.2 puts =
        some (heap', table') ∧
      ∀ k, htblGet table' k = some ((lastPut puts k).getD 0) := by
  obtain ⟨heap', table', hputs, h⟩ :=
    Refines.htblPuts depth puts [] (htblCreate heap).1 _ (refines_htblCreate heap)
  exact ⟨heap', table', hputs, fun k => h.htblGet_eq k⟩

/-! ## Tables in order -/

/-- `i` is the slot `d` steps behind the home slot of a key, around the end of the table. -/
def SlotBehind (table : Htbl) (key : Key) (d i : Nat) : Prop :=
  i = (htblIndex table.capacity key + d) % table.capacity

/-- What every table is: its capacity is 32 times a power of two, `length` counts the entries and
is at most half the capacity, keys are stored once, and from the home slot of a stored key to its
own slot every slot has an entry. -/
structure HtblOrdered (table : Htbl) : Prop where
  capacity_pow : ∃ n, table.capacity = 32 * 2 ^ n
  entries_length : table.entries.length = table.capacity
  length_eq : table.length = table.entries.countP Option.isSome
  load : table.length ≤ table.capacity / 2
  distinct : KeysDistinct table.entries
  path : ∀ i e, table.entries[i]? = some (some e) →
    ∃ d, SlotBehind table e.key d i ∧
      ∀ d' < d, ∀ j, SlotBehind table e.key d' j → ∃ f, table.entries[j]? = some (some f)

/-- In front of every entry that `htbl_expand` puts, the temporary table has room for it. -/
def ExpandsOnce (depth : Nat) (heap : LiveBlocks) (table : Htbl) : Prop :=
  ∀ done e rest, table.entries = done ++ some e :: rest →
    ∃ heap' temp, htblRefill (htblPut depth) done heap.kalloc.2
        { entries := List.replicate (table.capacity * 2) none
          entriesBlock := heap.kalloc.1
          capacity := table.capacity * 2
          length := 0 } = some (heap', temp) ∧
      temp.length < temp.capacity / 2

section Ordered

variable {table : Htbl} {puts : List (Key × Nat)}

theorem HtblInv.ordered (h : HtblInv table) (hload : table.length ≤ table.capacity / 2) :
    HtblOrdered table where
  capacity_pow := h.capacity_pow
  entries_length := h.entries_length
  length_eq := h.length_eq.symm
  load := hload
  distinct := h.probed.distinct
  path i e hi := by
    obtain ⟨d, hd, hpath⟩ := h.probed.path i e hi
    have hslot : ∀ d, slotAt (htblIndex table.capacity) table.entries e.key d =
        (htblIndex table.capacity e.key + d) % table.capacity := fun d => by
      rw [slotAt, h.entries_length]
    refine ⟨d, hd.trans (hslot d), ?_⟩
    rintro d' hd' j rfl
    have hfull := hpath d' hd'
    rw [hslot] at hfull
    have hlt : (htblIndex table.capacity e.key + d') % table.capacity < table.entries.length := by
      rw [h.entries_length]
      exact Nat.mod_lt _ (Nat.lt_of_lt_of_le (by decide) h.capacity_ge)
    rw [List.getElem?_eq_getElem hlt] at hfull ⊢
    cases hf : table.entries[(htblIndex table.capacity e.key + d') % table.capacity] with
    | none => exact absurd (congrArg some hf) hfull
    | some f => exact ⟨f, rfl⟩

/-- The temporary table has room for an entry as long as one is left. -/
theorem HtblInv.expandsOnce (h : HtblInv table) (hload : table.length ≤ table.capacity / 2)
    (depth : Nat) (heap : LiveBlocks) : ExpandsOnce (depth + 1) heap table := by
  intro done e rest hentries
  have hcount : done.countP Option.isSome + 1 ≤ table.length := by
    rw [← h.length_eq, hentries, List.countP_append, List.countP_cons_of_pos rfl]
    omega
  obtain ⟨heap', temp, hrefill, -, hcap, -, hlen, -, -⟩ :=
    htblRefill_front h hload depth heap hentries
  exact ⟨heap', temp, hrefill, by omega⟩

/-- After any puts into a new table, the table is in order.  So the search of `htbl_get` and that
of `htbl_put` end, and an expansion does not expand the table it fills. -/
theorem htblPuts_ordered (depth : Nat) (heap : LiveBlocks) (puts : List (Key × Nat)) :
    ∃ heap' table', htblPuts (depth + 2) (htblCreate heap).1 (htblCreate heap).2.2 puts =
        some (heap', table') ∧
      HtblOrdered table' ∧ (∀ k, ∃ v, htblGet table' k = some v) ∧
      (∀ heap k v, ∃ heap₁ table₁, htblPut (depth + 2) heap table' k v = some (heap₁, table₁)) ∧
      ∀ heap, ExpandsOnce (depth + 1) heap table' := by
  obtain ⟨heap', table', hputs, h⟩ :=
    Refines.htblPuts depth puts [] (htblCreate heap).1 _ (refines_htblCreate heap)
  refine ⟨heap', table', hputs, h.inv.ordered h.load, fun k => ⟨_, h.htblGet_eq k⟩, ?_,
    h.inv.expandsOnce h.load depth⟩
  intro heap k v
  obtain ⟨heap₁, table₁, hput, -⟩ := h.htblPut depth heap k v
  exact ⟨heap₁, table₁, hput⟩

end Ordered

end Microboot.Kern
