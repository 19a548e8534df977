/-
  Kern/ConfigBlocks.lean --- the blocks of the configuration store.

  A setter makes a block for the value, and `config_setstrns` one more for the copy
  of the string.  None of them frees the block of the value that it replaces, and
  the setters of integers and objects do not free the copy that an old value points
  to.  So the store owns exactly the blocks of its keys as long as every pair is set
  once and no namespace that holds a key is registered again (`FirstSet`).

  `config_setstrns` frees the copy that it replaces before it copies its argument:
  it stores the argument exactly if that is not the copy of the pair itself.
-/
import Microboot.Kern.Alloc
import Microboot.Kern.ConfigRun

set_option autoImplicit false

namespace Microboot.Kern

open Microboot.Foundation

/-! ## The blocks that are made -/

/-- Blocks of values, and of copies of strings. -/
structure Made where
  values : List Nat
  copies : List Nat
  deriving DecidableEq, Repr

namespace Made

def append (made made' : Made) : Made :=
  { values := made.values ++ made'.values, copies := made.copies ++ made'.copies }

def blocks (made : Made) : List Nat := made.values ++ made.copies

@[simp] theorem append_none (made : Made) : made.append ⟨[], []⟩ = made := by
  simp [append]

theorem append_assoc (made made' made'' : Made) :
    (made.append made').append made'' = made.append (made'.append made'') := by
  simp [append]

end Made

/-- What a call makes that sets a pair to a string, and to an integer or an object. -/
def madeStr (heap : LiveBlocks) : Made := ⟨[heap.next], [heap.next + 1]⟩
def madeValue (heap : LiveBlocks) : Made := ⟨[heap.next], []⟩

/-- The blocks of values and of copies of strings that a call makes; a path form makes the
copies of the parts of its path first. -/
def Config.makes (c : Config) : ConfigOp StrArg → Made
  | .setstrns _ _ _ _ => madeStr c.heap
  | .setintns _ _ _ | .setobjns _ _ _ => madeValue c.heap
  | .setstr path _ _ => if 58 ∈ path.val then madeStr c.parsing.heap else ⟨[], []⟩
  | .setint path _ | .setobj path _ =>
    if 58 ∈ path.val then madeValue c.parsing.heap else ⟨[], []⟩
  | .newns _ | .getns _ _ _ | .get _ _ => ⟨[], []⟩

/-- The blocks that the calls of a run make. -/
def configMade (c : Config) : List (ConfigOp StrArg) → Made
  | [] => ⟨[], []⟩
  | op :: ops =>
    match configStep c op with
    | .ok c' => (c.makes op).append (configMade c' ops)
    | .error _ => ⟨[], []⟩

/-- Of the blocks that were made those are live that the tables reach: one value for each key,
and one copy for each value of string type. -/
structure OwnsExactly (made : Made) (c : Config) : Prop where
  value : ∀ v, v ∈ made.values ∧ v ∈ c.heap.live ↔ ∃ ns key, c.HasValue ns key v
  copy : ∀ s, s ∈ made.copies ∧ s ∈ c.heap.live ↔ ∃ ns key, c.HasCopy ns key s
  disjoint : ∀ b ∈ made.values, b ∉ made.copies
  value_unique : ∀ ns key v v', c.HasValue ns key v → c.HasValue ns key v' → v = v'
  value_inj : ∀ ns key ns' key' v, c.HasValue ns key v → c.HasValue ns' key' v →
    ns = ns' ∧ key = key'
  copy_inj : ∀ ns key ns' key' s, c.HasCopy ns key s → c.HasCopy ns' key' s →
    ns = ns' ∧ key = key'

/-- No pair that has a value is set, and no namespace that holds a key is registered. -/
def Config.FirstSet (c : Config) (op : ConfigOp StrArg) : Prop :=
  (∀ p, (op.map c.text).target = some p → ∀ v, ¬ c.HasValue p.1 p.2 v) ∧
    ∀ name, op.newName = some name → ∀ key v, ¬ c.HasValue name key v

/-! ## The invariant -/

/-- The block is not the array of a table. -/
def Config.NoArray (c : Config) (b : Nat) : Prop :=
  b ≠ c.namespaces.entriesBlock ∧
    ∀ ns t, Maps c.namespaces.entries ns t → b ≠ (c.tables t).entriesBlock

/-- All blocks that were made are reached from the tables, and live. -/
structure Tracks (made : Made) (c : Config) : Prop where
  linked : Linked c.heap.next c
  value : ∀ v, v ∈ made.values ↔ ∃ ns key, c.HasValue ns key v
  copy : ∀ s, s ∈ made.copies ↔ ∃ ns key, c.HasCopy ns key s
  disjoint : ∀ b ∈ made.values, b ∉ made.copies
  value_inj : ∀ ns key ns' key' v, c.HasValue ns key v → c.HasValue ns' key' v →
    ns = ns' ∧ key = key'
  copy_inj : ∀ ns key ns' key' s, c.HasCopy ns key s → c.HasCopy ns' key' s →
    ns = ns' ∧ key = key'
  live : ∀ b ∈ made.blocks, b ∈ c.heap.live
  array : ∀ b ∈ made.blocks, c.NoArray b

namespace Tracks

variable {made : Made} {c c' c₁ : Config} {ns key : Key} {b v : Nat}

theorem ownsExactly (h : Tracks made c) : OwnsExactly made c where
  value v := by
    rw [← h.value]
    exact and_iff_left_of_imp fun hv => h.live v (List.mem_append_left _ hv)
  copy s := by
    rw [← h.copy]
    exact and_iff_left_of_imp fun hs => h.live s (List.mem_append_right _ hs)
  disjoint := h.disjoint
  value_unique _ _ _ _ hv hv' := h.linked.hasValue_unique hv hv'
  value_inj := h.value_inj
  copy_inj := h.copy_inj

theorem lt (h : Tracks made c) (hb : b ∈ made.blocks) : b < c.heap.next := by
  rcases List.mem_append.mp hb with hv | hs
  · obtain ⟨ns, key, hv⟩ := (h.value b).mp hv
    exact (h.linked.value ns key b hv).2
  · obtain ⟨ns, key, hs⟩ := (h.copy b).mp hs
    exact (h.linked.copy ns key b hs).2

/-- What the tables reach is the same, and no block that was made is freed or becomes an array. -/
theorem of_same (h : Tracks made c) (hl' : Linked c'.heap.next c')
    (hvalue : ∀ ns key v, c'.HasValue ns key v ↔ c.HasValue ns key v)
    (hcopy : ∀ ns key s, c'.HasCopy ns key s ↔ c.HasCopy ns key s)
    (hlive : ∀ b ∈ made.blocks, b ∈ c'.heap.live) (harray : ∀ b ∈ made.blocks, c'.NoArray b) :
    Tracks made c' := by
  refine ⟨hl', fun v => ?_, fun s => ?_, h.disjoint, ?_, ?_, hlive, harray⟩
  · simp only [hvalue, h.value]
  · simp only [hcopy, h.copy]
  · simp only [hvalue]
    exact h.value_inj
  · simp only [hcopy]
    exact h.copy_inj

/-- A store with the same tables, in which no block that was made is freed. -/
theorem extend (h : Tracks made c) (hext : Extends c.heap.next c c') {freed : List Nat}
    (hkeeps : c.heap.Keeps freed c'.heap) (hfreed : ∀ b ∈ made.blocks, b ∉ freed) :
    Tracks made c' := by
  refine h.of_same ((hext.linked h.linked).mono hext.next_le) (fun _ _ _ => hext.hasValue_iff)
    (fun _ _ _ => hext.hasCopy_iff h.linked)
    (fun b hb => hkeeps.live b (h.live b hb) (hfreed b hb)) fun b hb => ?_
  unfold Config.NoArray
  rw [hext.namespaces, hext.tables]
  exact h.array b hb

/-- Registering a namespace that holds no key. -/
theorem newns (h : Tracks made c) {name : Key} (hnew : Renews c name c')
    (hname : ∀ key v, ¬ c.HasValue name key v) : Tracks made c' := by
  have hl := h.linked
  have hvalue : ∀ ns key v, c'.HasValue ns key v ↔ c.HasValue ns key v := by
    intro ns key v
    rw [hnew.hasValue_iff hl]
    exact and_iff_right_of_imp fun hv heq => hname key v (heq ▸ hv)
  have hcopy : ∀ ns key s, c'.HasCopy ns key s ↔ c.HasCopy ns key s := by
    intro ns key s
    unfold Config.HasCopy
    simp only [hvalue, hnew.values]
  refine h.of_same (hnew.linked hl) hvalue hcopy (fun b hb => ?_) fun b hb => ?_
  · refine hnew.put.keeps.live b ?_ ?_
    · exact List.mem_cons_of_mem _ (List.mem_cons_of_mem _ (h.live b hb))
    · rw [List.mem_singleton]
      exact (h.array b hb).1
  · have hlt := h.lt hb
    have hblock := hnew.namespaces_array
    obtain ⟨hnamespaces, htables⟩ := h.array b hb
    refine ⟨by omega, fun ns t hns => ?_⟩
    rcases hnew.table_cases hl hns with heq | ⟨ns', hmaps, heq⟩
    · omega
    · rw [heq]
      exact htables ns' t hmaps

/-- Each block is reached from one pair, also when one pair more reaches others. -/
theorem inj_of_insert {reaches reaches' : Key → Key → Nat → Prop} {new : Nat → Prop}
    (hreaches' : ∀ ns' key' w, reaches' ns' key' w ↔
      (ns' = ns ∧ key' = key ∧ new w) ∨ reaches ns' key' w)
    (hnew : ∀ ns' key' w, reaches ns' key' w → ¬ new w)
    (hinj : ∀ ns₁ key₁ ns₂ key₂ w, reaches ns₁ key₁ w → reaches ns₂ key₂ w →
      ns₁ = ns₂ ∧ key₁ = key₂) (ns₁ key₁ ns₂ key₂ : Key) (w : Nat)
    (h₁ : reaches' ns₁ key₁ w) (h₂ : reaches' ns₂ key₂ w) : ns₁ = ns₂ ∧ key₁ = key₂ := by
  rcases (hreaches' _ _ _).mp h₁ with ⟨rfl, rfl, hnew₁⟩ | h₁
  · rcases (hreaches' _ _ _).mp h₂ with ⟨rfl, rfl, -⟩ | h₂
    · exact ⟨rfl, rfl⟩
    · exact absurd hnew₁ (hnew _ _ _ h₂)
  · rcases (hreaches' _ _ _).mp h₂ with ⟨rfl, rfl, hnew₂⟩ | h₂
    · exact absurd hnew₂ (hnew _ _ _ h₁)
    · exact hinj _ _ _ _ _ h₁ h₂

/-- A new block is not an array. -/
theorem noArray_of_le (hl : Linked c.heap.next c) (hb : c.heap.next ≤ b) : c.NoArray b := by
  have hnamespaces := hl.namespaces.entriesBlock_lt
  refine ⟨by omega, fun ns t hns => ?_⟩
  have htable := (hl.table ns t hns).2.2.entriesBlock_lt
  omega

/-- A put frees at most an array. -/
theorem put_live (hext : Extends c.heap.next c c₁)
    (hput : SetCommon c₁ ns key v c') (hb : b ∈ c₁.heap.live) (harray : c.NoArray b) :
    b ∈ c'.heap.live := by
  obtain ⟨ns₀, t₀, hns₀, hkeeps⟩ := hput.keeps
  rw [hext.namespaces] at hns₀
  rw [hext.tables] at hkeeps
  refine hkeeps.live b hb ?_
  rw [List.mem_singleton]
  exact harray.2 ns₀ t₀ hns₀

/-- The array that a put makes is a new block. -/
theorem put_noArray (hext : Extends c.heap.next c c₁) (hput : SetCommon c₁ ns key v c')
    (hlt : b < c₁.heap.next) (harray : c.NoArray b) : c'.NoArray b := by
  obtain ⟨hns, htables⟩ := harray
  unfold Config.NoArray
  rw [hput.namespaces, hext.namespaces]
  refine ⟨hns, fun ns' t hns' => ?_⟩
  have htable := htables ns' t hns'
  have hnew := hput.entriesBlock t
  rw [hext.tables] at hnew
  omega

/-- Putting a new value for a pair that has none. -/
theorem set (h : Tracks made c) (hext : Extends c.heap.next c c₁)
    (hkeeps : c.heap.Keeps [] c₁.heap) (hput : SetCommon c₁ ns key v c')
    (hfirst : ∀ w, ¬ c.HasValue ns key w) {copies : List Nat}
    (hcopies : ∀ s, c₁.values v = .str s ↔ s ∈ copies) (hdisjoint : v ∉ copies)
    (hblocks : ∀ b ∈ v :: copies, c.heap.next ≤ b ∧ b < c₁.heap.next ∧ b ∈ c₁.heap.live) :
    Tracks (made.append ⟨[v], copies⟩) c' := by
  have hl := h.linked
  have hl₁ := hext.linked hl
  have hpos := hl.bound_pos
  have hv := hblocks v List.mem_cons_self
  have hvalue : ∀ ns' key' w, c'.HasValue ns' key' w ↔
      (ns' = ns ∧ key' = key ∧ w = v) ∨ c.HasValue ns' key' w := by
    intro ns' key' w
    rw [hput.hasValue, hext.hasValue_iff]
    refine or_congr_right (and_iff_right_of_imp fun hw heq => ?_)
    obtain ⟨rfl, rfl⟩ := heq
    exact hfirst w hw
  have hcopy : ∀ ns' key' s, c'.HasCopy ns' key' s ↔
      (ns' = ns ∧ key' = key ∧ s ∈ copies) ∨ c.HasCopy ns' key' s := by
    intro ns' key' s
    rw [hput.hasCopy, hext.hasCopy_iff hl, hcopies]
    refine or_congr_right (and_iff_right_of_imp fun hs heq => ?_)
    obtain ⟨rfl, rfl⟩ := heq
    obtain ⟨w, hw, -⟩ := hs
    exact hfirst w hw
  -- the blocks that were made before are below the new ones
  have hold : ∀ b ∈ made.blocks, b ∉ v :: copies := fun b hb hnew =>
    Nat.lt_irrefl _ (Nat.lt_of_lt_of_le (h.lt hb) (hblocks b hnew).1)
  have hblock : ∀ b ∈ (made.append ⟨[v], copies⟩).blocks,
      c.NoArray b ∧ b < c₁.heap.next ∧ b ∈ c₁.heap.live := by
    intro b hb
    have hcases : b ∈ made.blocks ∨ b ∈ v :: copies := by
      simp only [Made.blocks, Made.append, List.mem_append, List.mem_cons, List.not_mem_nil,
        or_false] at hb ⊢
      tauto
    rcases hcases with hb | hb
    · exact ⟨h.array b hb, Nat.lt_of_lt_of_le (h.lt hb) hext.next_le,
        hkeeps.live b (h.live b hb) List.not_mem_nil⟩
    · obtain ⟨hge, hlt, hlive⟩ := hblocks b hb
      exact ⟨noArray_of_le hl hge, hlt, hlive⟩
  refine ⟨hput.linked hl₁ (by omega) fun s hs => ?_, fun w => ?_, fun s => ?_, fun b hb hb' => ?_,
    inj_of_insert hvalue (fun ns' key' w hw heq => ?_) h.value_inj,
    inj_of_insert hcopy (fun ns' key' s hs hnew => ?_) h.copy_inj, fun b hb => ?_, fun b hb => ?_⟩
  · have hs := hblocks s (List.mem_cons_of_mem _ ((hcopies s).mp hs))
    omega
  · simp only [Made.append, List.mem_append, List.mem_singleton, h.value, hvalue, exists_or]
    simp [or_comm]
  · simp only [Made.append, List.mem_append, h.copy, hcopy, exists_or]
    simp [or_comm]
  · rcases List.mem_append.mp hb with hb | hb <;> rcases List.mem_append.mp hb' with hb' | hb'
    · exact h.disjoint b hb hb'
    · exact hold b (List.mem_append_left _ hb) (List.mem_cons_of_mem _ hb')
    · exact hold b (List.mem_append_right _ hb') (List.mem_cons.mpr (Or.inl (by simpa using hb)))
    · rw [List.mem_singleton] at hb
      exact hdisjoint (hb ▸ hb')
  · subst heq
    exact hold w (List.mem_append_left _ ((h.value w).mpr ⟨ns', key', hw⟩)) List.mem_cons_self
  · exact hold s (List.mem_append_right _ ((h.copy s).mpr ⟨ns', key', hs⟩))
      (List.mem_cons_of_mem _ hnew)
  · obtain ⟨harray, -, hlive⟩ := hblock b hb
    exact put_live hext hput hlive harray
  · obtain ⟨harray, hlt, -⟩ := hblock b hb
    exact put_noArray hext hput hlt harray

end Tracks

/-! ## One call -/

section Step

variable {made : Made} {bound : Nat} {c c' : Config} {ns key path : Key} {v : Nat}

theorem configSetCommon_ok (hl : Linked bound c) (h : configSetCommon c ns key v = .ok c') :
    SetCommon c ns key v c' := by
  by_cases hns : c.Registered ns
  · obtain ⟨c₁, hset, hresult⟩ := hl.configSetCommon_spec hns key v
    obtain rfl := Except.ok.inj (hset.symm.trans h)
    exact hresult
  · rw [hl.configSetCommon_unregistered hns] at h
    cases h

/-- `config_setobjns` and `config_setintns` make one block. -/
theorem Tracks.configSetValue (h : Tracks made c) {value : ConfigValue}
    (hvalue : ∀ s, value ≠ .str s) (hfirst : ∀ w, ¬ c.HasValue ns key w)
    (hset : Kern.configSetValue c ns key value = .ok c') :
    Tracks (made.append (madeValue c.heap)) c' := by
  have hl := h.linked
  have hext := extends_newValue hl value
  have hself : Function.update c.values c.heap.next value c.heap.next = value :=
    Function.update_self ..
  have hput := configSetCommon_ok (hext.linked hl) hset
  refine h.set hext LiveBlocks.kalloc_keeps hput hfirst (fun s => ?_) List.not_mem_nil
    fun b hb => ?_
  · exact iff_of_false (fun hs => hvalue s (hself.symm.trans hs)) List.not_mem_nil
  · rw [List.mem_singleton] at hb
    subst hb
    exact ⟨Nat.le_refl _, Nat.lt_succ_self _, List.mem_cons_self⟩

/-- `config_setstrns` makes two, and frees none if the pair has no value. -/
theorem Tracks.configSetstrns (h : Tracks made c) {nsArg keyArg value : StrArg} {stale : Stale}
    (hfirst : ∀ w, ¬ c.HasValue (c.text nsArg) (c.text keyArg) w)
    (hset : Kern.configSetstrns c nsArg keyArg value stale = .ok c') :
    Tracks (made.append (madeStr c.heap)) c' := by
  have hl := h.linked
  have hcopy : ∀ s, ¬ c.HasCopy (c.text nsArg) (c.text keyArg) s :=
    fun s ⟨w, hw, _⟩ => hfirst w hw
  have hns : c.Registered (c.text nsArg) := by
    by_contra hns
    rw [configSetstrns_unregistered hl hns] at hset
    cases hset
  have hfreed : ∀ s, none = some s ↔ c.HasCopy (c.text nsArg) (c.text keyArg) s :=
    fun s => iff_of_false (by simp) (hcopy s)
  obtain ⟨c₂, hset₂, hput⟩ := configSetstrns_setCommon hl nsArg keyArg value stale
    hns (fun block _ => hcopy block) (fun block _ => hcopy block) hfreed rfl
  obtain rfl := Except.ok.inj (hset₂.symm.trans hset)
  refine h.set (extends_newCopy hl rfl _) (LiveBlocks.kalloc_keeps.trans LiveBlocks.kalloc_keeps)
    hput hfirst (fun s => ?_) ?_ fun b hb => ?_
  · rw [Config.newCopy_values, ConfigValue.str.injEq, List.mem_singleton]
    exact eq_comm
  · rw [List.mem_singleton]
    exact Nat.ne_of_lt (Nat.lt_succ_self _)
  · rcases List.mem_cons.mp hb with rfl | hb
    · exact ⟨Nat.le_refl _, Nat.lt_add_of_pos_right Nat.two_pos,
        List.mem_cons_of_mem _ List.mem_cons_self⟩
    · rw [List.mem_singleton] at hb
      subst hb
      exact ⟨Nat.le_succ _, Nat.lt_succ_self _, List.mem_cons_self⟩

theorem Tracks.kfreeChecked (h : Tracks made c) {b : Nat} (hb : b ∉ made.blocks)
    {heap : LiveBlocks} (hfree : c.heap.kfreeChecked b = .ok heap) :
    Tracks made { c with heap := heap } := by
  have hcopy : freeCopy c.heap (some b) = .ok heap := hfree
  obtain ⟨hnext, hkeeps⟩ := freeCopy_ok hcopy
  refine h.extend ⟨Nat.le_of_eq hnext.symm, rfl, rfl, fun _ _ => rfl, fun _ _ => rfl⟩ hkeeps
    fun b' hb' hmem => ?_
  rw [Option.toList_some, List.mem_singleton] at hmem
  exact hb (hmem ▸ hb')

/-- While a path form runs. -/
theorem Tracks.parsing (h : Tracks made c) : Tracks made c.parsing :=
  h.extend extends_parsing (LiveBlocks.kalloc_keeps.trans LiveBlocks.kalloc_keeps)
    fun _ _ => List.not_mem_nil

/-- The path form of a setter: the copies of the parts are gone when it returns. -/
theorem Tracks.setWithPath (h : Tracks made c) {call : Config → Key → Key → Except Fault Config}
    (new : Made) (hnew : ∀ b ∈ new.blocks, c.heap.next + 2 ≤ b)
    (hcall : ∀ ns key c₁, pathParts path = some (ns, key) → call c.parsing ns key = .ok c₁ →
      Tracks (made.append new) c₁)
    (hset : Kern.setWithPath c path call = .ok c') :
    Tracks (made.append (if 58 ∈ path.val then new else ⟨[], []⟩)) c' := by
  obtain ⟨⟨c₂, _⟩, hwith, rfl⟩ := map_eq_ok hset
  rcases path_cases path with hpath | ⟨ns, key, hns, rfl⟩
  · rw [withPath_none hpath] at hwith
    cases hwith
    rw [if_neg hpath, Made.append_none]
    exact h
  · have hcolon : 58 ∈ (configPath ns key).val := List.mem_append_right _ List.mem_cons_self
    rw [withPath_path (Nat.ne_of_gt h.linked.bound_pos) hns] at hwith
    obtain ⟨⟨c₁, _⟩, hok, hwith⟩ := bind_eq_ok hwith
    obtain ⟨c₁', hok', heq⟩ := map_eq_ok hok
    cases heq
    obtain ⟨heap₁, hfree₁, hwith⟩ := bind_eq_ok hwith
    obtain ⟨heap₂, hfree₂, hwith⟩ := bind_eq_ok hwith
    cases hwith
    have hparts : ∀ b ∈ (made.append new).blocks, b < c.heap.next ∨ c.heap.next + 2 ≤ b := by
      intro b hb
      have hcases : b ∈ made.blocks ∨ b ∈ new.blocks := by
        simp only [Made.blocks, Made.append, List.mem_append] at hb ⊢
        tauto
      exact hcases.imp h.lt (hnew b)
    rw [if_pos hcolon]
    refine Tracks.kfreeChecked (c := { c₁ with heap := heap₁ })
      ((hcall ns key c₁ (pathParts_path hns key) hok').kfreeChecked ?_ hfree₁) ?_ hfree₂
    · intro hb
      have := hparts _ hb
      omega
    · intro hb
      have := hparts _ hb
      omega

/-- The path form of a setter that makes one block. -/
theorem Tracks.setValueWithPath (h : Tracks made c) {value : ConfigValue}
    (hvalue : ∀ s, value ≠ .str s)
    (hfirst : ∀ p, pathParts path = some p → ∀ w, ¬ c.parsing.HasValue p.1 p.2 w)
    (hset : Kern.setWithPath c path (fun c ns key => Kern.configSetValue c ns key value) = .ok c') :
    Tracks (made.append (if 58 ∈ path.val then madeValue c.parsing.heap else ⟨[], []⟩)) c' := by
  refine h.setWithPath (madeValue c.parsing.heap) ?_ (fun ns key c₁ hparts hset => ?_) hset
  · simp [madeValue, Made.blocks, Config.parsing, LiveBlocks.kalloc]
  · exact h.parsing.configSetValue hvalue (hfirst (ns, key) hparts) hset

/-- The path form of a getter. -/
theorem Tracks.getWithPath {α : Type} {absent ret : α} {read : ConfigValue → α}
    (h : Tracks made c) (hget : Kern.getWithPath c path absent
      (fun c ns key => configGetValue c ns key absent read) = .ok (c', ret)) : Tracks made c' := by
  rcases path_cases path with hpath | ⟨ns, key, hns, rfl⟩
  · unfold Kern.getWithPath at hget
    rw [withPath_none hpath] at hget
    cases hget
    exact h
  · rw [getWithPath_path (Nat.ne_of_gt h.linked.bound_pos) hns] at hget
    obtain ⟨_, -, heq⟩ := map_eq_ok hget
    cases heq
    have hkeeps : c.heap.Keeps [] c.parsed.heap := ⟨Nat.le_add_right _ 2, fun _ hb _ => hb⟩
    exact h.extend ⟨Nat.le_add_right _ 2, rfl, rfl, fun _ _ => rfl, fun _ _ => rfl⟩ hkeeps
      fun _ _ => List.not_mem_nil

/-- A call that sets a pair for the first time, or none, makes the blocks it says and frees
none. -/
theorem Tracks.step (h : Tracks made c) {op : ConfigOp StrArg} (hfirst : c.FirstSet op)
    (hstep : configStep c op = .ok c') : Tracks (made.append (c.makes op)) c' := by
  have hnone : ∀ {p : Key × Key}, (op.map c.text).target = some p →
      ∀ w, ¬ c.parsing.HasValue p.1 p.2 w := fun hp w hw => hfirst.1 _ hp w hw
  cases op with
  | newns name =>
    obtain ⟨c₁, hnew, hrenews⟩ := configNewns_renews h.linked name
    obtain rfl := Except.ok.inj (hnew.symm.trans hstep)
    rw [Config.makes, Made.append_none]
    exact h.newns hrenews (hfirst.2 name rfl)
  | setstrns ns key value stale => exact h.configSetstrns (hfirst.1 _ rfl) hstep
  | setintns ns key value => exact h.configSetValue (by simp) (hfirst.1 _ rfl) hstep
  | setobjns ns key value => exact h.configSetValue (by simp) (hfirst.1 _ rfl) hstep
  | setstr path value stale =>
    refine h.setWithPath (madeStr c.parsing.heap) ?_ (fun ns key c₁ hparts hset => ?_) hstep
    · simp [madeStr, Made.blocks, Config.parsing, LiveBlocks.kalloc]
    · have hnone : ∀ w, ¬ c.parsing.HasValue (c.parsing.text (.own ns))
          (c.parsing.text (.own key)) w :=
        hnone (p := (ns, key)) (by simp [ConfigOp.map, ConfigOp.target, ConfigOp.sets, hparts])
      exact h.parsing.configSetstrns hnone hset
  | setint path value =>
    refine h.setValueWithPath (by simp) (fun p hparts => hnone ?_) hstep
    simp [ConfigOp.map, ConfigOp.target, ConfigOp.sets, hparts]
  | setobj path value =>
    refine h.setValueWithPath (by simp) (fun p hparts => hnone ?_) hstep
    simp [ConfigOp.map, ConfigOp.target, ConfigOp.sets, hparts]
  | getns getter ns key =>
    rw [Config.makes, Made.append_none]
    cases getter <;>
      obtain ⟨_, -, rfl⟩ := map_eq_ok hstep <;>
      exact h
  | get getter path =>
    rw [Config.makes, Made.append_none]
    cases getter <;>
      obtain ⟨⟨c₁, _⟩, hget, rfl⟩ := map_eq_ok hstep <;>
      exact h.getWithPath hget

end Step

/-! ## Runs -/

section Runs

variable {made : Made} {c c' : Config}

theorem Tracks.run {ops : List (ConfigOp StrArg)} (h : Tracks made c)
    (hfirst : AllSteps configStep Config.FirstSet c ops) (hrun : configRun c ops = .ok c') :
    Tracks (made.append (configMade c ops)) c' := by
  induction ops generalizing made c with
  | nil =>
    cases hrun
    rw [configMade, Made.append_none]
    exact h
  | cons op ops ih =>
    rw [configRun, List.foldlM_cons] at hrun
    obtain ⟨c₁, hstep, hrest⟩ := bind_eq_ok hrun
    obtain ⟨hop, hops⟩ := hfirst
    rw [hstep] at hops
    rw [configMade, hstep]
    dsimp only
    rw [← Made.append_assoc]
    exact ih (h.step hop hstep) hops hrest

theorem tracks_configInit (heap : LiveBlocks) (tables : Nat → Htbl) (values : Nat → ConfigValue)
    (strings : Nat → Key) : Tracks ⟨[], []⟩ (configInit heap tables values strings) := by
  obtain ⟨hl, -, hreg⟩ := configInit_good heap tables values strings
  have hvalue : ∀ ns key v, ¬ (configInit heap tables values strings).HasValue ns key v :=
    fun ns key v ⟨t, hns, _⟩ => hreg ns ⟨t, hns⟩
  have hcopy : ∀ ns key s, ¬ (configInit heap tables values strings).HasCopy ns key s :=
    fun ns key s ⟨v, hv, _⟩ => hvalue ns key v hv
  refine ⟨hl, fun v => iff_of_false List.not_mem_nil ?_, fun s => iff_of_false List.not_mem_nil ?_,
    fun b hb => absurd hb List.not_mem_nil, fun ns key _ _ v hv => absurd hv (hvalue ns key v),
    fun ns key _ _ s hs => absurd hs (hcopy ns key s), fun b hb => absurd hb List.not_mem_nil,
    fun b hb => absurd hb List.not_mem_nil⟩
  · exact fun ⟨ns, key, hv⟩ => hvalue ns key v hv
  · exact fun ⟨ns, key, hs⟩ => hcopy ns key s hs

/-- In a run that sets every pair at most once, and registers no namespace again that holds a key,
the store owns exactly the blocks of its keys in every state. -/
theorem configRun_ownsExactly (heap : LiveBlocks) (tables : Nat → Htbl)
    (values : Nat → ConfigValue) (strings : Nat → Key) {ops : List (ConfigOp StrArg)}
    (hfirst : AllSteps configStep Config.FirstSet (configInit heap tables values strings) ops)
    {done : List (ConfigOp StrArg)} (hdone : done <+: ops)
    (hrun : configRun (configInit heap tables values strings) done = .ok c) :
    OwnsExactly (configMade (configInit heap tables values strings) done) c := by
  obtain ⟨rest, rfl⟩ := hdone
  exact ((tracks_configInit heap tables values strings).run hfirst.take hrun).ownsExactly

/-- Setting a pair again leaves the block of its old value live, and out of reach. -/
theorem Tracks.leaks {c₁ : Config} {ns key : Key} {v w : Nat} {freed : List Nat}
    (h : Tracks made c) (hext : Extends c.heap.next c c₁) (hkeeps : c.heap.Keeps freed c₁.heap)
    (hput : SetCommon c₁ ns key v c') (hw : c.HasValue ns key w) (hfreed : w ∉ freed)
    (hv : c.heap.next ≤ v) :
    w ∈ made.values ∧ w ∈ c'.heap.live ∧ ∀ ns' key', ¬ c'.HasValue ns' key' w := by
  have hmade : w ∈ made.values := (h.value w).mpr ⟨ns, key, hw⟩
  have hblock : w ∈ made.blocks := List.mem_append_left _ hmade
  obtain ⟨ns₀, t₀, hns₀, hputKeeps⟩ := hput.keeps
  rw [hext.namespaces] at hns₀
  rw [hext.tables] at hputKeeps
  refine ⟨hmade, ?_, fun ns' key' hw' => ?_⟩
  · refine hputKeeps.live w (hkeeps.live w (h.live w hblock) hfreed) ?_
    rw [List.mem_singleton]
    exact (h.array w hblock).2 ns₀ t₀ hns₀
  · rcases (hput.hasValue _ _ _).mp hw' with ⟨-, -, rfl⟩ | ⟨hne, hold⟩
    · exact Nat.lt_irrefl _ (Nat.lt_of_lt_of_le (h.lt hblock) hv)
    · exact hne (h.value_inj _ _ _ _ _ (hext.hasValue_iff.mp hold) hw)

/-- `a:k` is set, in a store with the namespace `a`. -/
theorem firstSet_once : AllSteps configStep Config.FirstSet emptyConfig
    [.newns ⟨[97], by decide⟩, .setintns ⟨[97], by decide⟩ ⟨[107], by decide⟩ 1] := by
  have htracks : Tracks ⟨[], []⟩ emptyConfig := tracks_configInit ..
  have hnone : ∀ ns key v, ¬ emptyConfig.HasValue ns key v := fun ns key v hv =>
    List.not_mem_nil ((htracks.value v).mpr ⟨ns, key, hv⟩)
  obtain ⟨c, hnew, hrenews⟩ := configNewns_renews htracks.linked ⟨[97], by decide⟩
  have hstep : configStep emptyConfig (.newns ⟨[97], by decide⟩) = .ok c := hnew
  refine ⟨⟨fun p hp => ?_, fun name _ => hnone name⟩, ?_⟩
  · cases hp
  rw [hstep]
  refine ⟨⟨fun p _ v hv => ?_, fun name hname => ?_⟩, ?_⟩
  · exact hnone _ _ _ ((hrenews.hasValue_iff htracks.linked _ _ _).mp hv).2
  · cases hname
  · split <;> exact trivial

theorem configRun_ownsExactly_once :
    ∃ c, configRun emptyConfig [.newns ⟨[97], by decide⟩,
        .setintns ⟨[97], by decide⟩ ⟨[107], by decide⟩ 1] = .ok c ∧
      OwnsExactly (configMade emptyConfig [.newns ⟨[97], by decide⟩,
        .setintns ⟨[97], by decide⟩ ⟨[107], by decide⟩ 1]) c := by
  obtain ⟨c, hrun⟩ : ∃ c, configRun emptyConfig [.newns ⟨[97], by decide⟩,
    .setintns ⟨[97], by decide⟩ ⟨[107], by decide⟩ 1] = .ok c := ⟨_, rfl⟩
  exact ⟨c, hrun, configRun_ownsExactly _ _ _ _ firstSet_once (List.prefix_refl _) hrun⟩

/-- `a:k` is set twice: block 6, the first value, stays live. -/
theorem not_ownsExactly_twice :
    ∃ c, configRun emptyConfig [.newns ⟨[97], by decide⟩,
        .setintns ⟨[97], by decide⟩ ⟨[107], by decide⟩ 1,
        .setintns ⟨[97], by decide⟩ ⟨[107], by decide⟩ 2] = .ok c ∧
      ¬ OwnsExactly (configMade emptyConfig [.newns ⟨[97], by decide⟩,
        .setintns ⟨[97], by decide⟩ ⟨[107], by decide⟩ 1,
        .setintns ⟨[97], by decide⟩ ⟨[107], by decide⟩ 2]) c := by
  obtain ⟨c, hrun⟩ : ∃ c, configRun emptyConfig [.newns ⟨[97], by decide⟩,
    .setintns ⟨[97], by decide⟩ ⟨[107], by decide⟩ 1] = .ok c := ⟨_, rfl⟩
  have htracks : Tracks _ c := (tracks_configInit ..).run firstSet_once hrun
  have hget : configGetCommon c ⟨[97], by decide⟩ ⟨[107], by decide⟩ = .ok 6 := by
    cases hrun
    rfl
  have hold : c.HasValue ⟨[97], by decide⟩ ⟨[107], by decide⟩ 6 :=
    htracks.linked.hasValue_of_get hget (by decide)
  obtain ⟨c', hset⟩ : ∃ c', configSetintns c ⟨[97], by decide⟩ ⟨[107], by decide⟩ 2 = .ok c' := by
    cases hrun
    exact ⟨_, rfl⟩
  have hext := extends_newValue htracks.linked (.int 2)
  obtain ⟨-, hlive, hout⟩ := htracks.leaks hext LiveBlocks.kalloc_keeps
    (configSetCommon_ok (hext.linked htracks.linked) hset) hold List.not_mem_nil (Nat.le_refl _)
  refine ⟨c', configRun_snoc hrun hset, fun h => ?_⟩
  obtain ⟨ns, key, hval⟩ := (h.value 6).mp ⟨by decide +kernel, hlive⟩
  exact hout ns key hval

end Runs

/-! ## The copy that is freed first -/

section Alias

variable {c c' : Config} {ns key : Key} {s : Nat} {value : StrArg}

/-- `config_setstr` stores what its argument reads as at the call, and reads no block that it
has freed: what the freed copy reads as makes no difference. -/
structure SetstrSafe (c : Config) (ns key : Key) (value : StrArg) : Prop where
  noStaleRead : ∀ stale stale', configSetstr c (configPath ns key) value stale =
    configSetstr c (configPath ns key) value stale'
  stores : ∀ stale, ∃ c', configSetstr c (configPath ns key) value stale = .ok c' ∧
    c'.Has ns key (.str (c.text value))

theorem Linked.hasCopy_iff {bound : Nat} (hl : Linked bound c) (hcopy : c.HasCopy ns key s)
    (s' : Nat) : some s = some s' ↔ c.HasCopy ns key s' := by
  rw [Option.some.injEq]
  constructor
  · intro heq
    exact heq ▸ hcopy
  · intro ⟨v', hv', hs'⟩
    obtain ⟨v, hv, hs⟩ := hcopy
    rw [hl.hasValue_unique hv' hv] at hs'
    exact ConfigValue.str.inj (hs.symm.trans hs')

/-- Where the old copy is live the call returns, and stores what the argument reads as once that
copy is freed. -/
theorem configSetstr_of_live (hl : Linked c.heap.next c) (hns : 58 ∉ ns.val)
    (hcopy : c.HasCopy ns key s) (hlive : s ∈ c.heap.live) (value : StrArg) (stale : Key) :
    ∃ c', configSetstr c (configPath ns key) value stale = .ok c' ∧
      ∀ x, c'.Has ns key x ↔ x = .str (c.textAfter (some s) stale value) := by
  have hext : Extends c.heap.next c c.parsing := extends_parsing
  have hlp := hext.linked hl
  obtain ⟨hpos, hlt⟩ := hl.copy ns key s hcopy
  have hcopyp : c.parsing.HasCopy ns key s := (hext.hasCopy_iff hl).mpr hcopy
  have hreg : c.parsing.Registered ns := ⟨_, hcopyp.choose_spec.1.choose_spec.1⟩
  have hfree : freeCopy c.parsing.heap (some s) = .ok (c.parsing.heap.kfree s) :=
    LiveBlocks.kfreeChecked_eq_ok (Nat.ne_of_gt hpos)
      (List.mem_cons_of_mem _ (List.mem_cons_of_mem _ hlive))
  obtain ⟨c₁, hset, hput⟩ := configSetstrns_setCommon hlp (.own ns) (.own key) value
    ⟨ns, key, stale⟩ hreg (fresh_own _ _ _ ns) (fresh_own _ _ _ key) (hlp.hasCopy_iff hcopyp) hfree
  -- the copies of the parts stay live
  have hkeeps : ∀ b ∈ c.parsing.heap.live, c.heap.next ≤ b → b ∈ c₁.heap.live := by
    intro b hb hge
    obtain ⟨ns₀, t₀, hns₀, hputKeeps⟩ := hput.keeps
    have harray := (hlp.table ns₀ t₀ hns₀).2.2.entriesBlock_lt
    refine hputKeeps.live b ?_ ?_
    · refine List.mem_cons_of_mem _ (List.mem_cons_of_mem _ ?_)
      exact (List.mem_erase_of_ne (by omega)).mpr hb
    · rw [List.mem_singleton]
      change b ≠ (c.parsing.tables t₀).entriesBlock
      omega
  refine ⟨_, setWithPath_returns _ hl.bound_pos hns hset hkeeps, fun x => ?_⟩
  -- the new value points to the new copy
  have hsetting : (c.parsing.newCopy (c.parsing.heap.kfree s)
      (c.textAfter (some s) stale value)).setting (.str ((c.parsing.heap.kfree s).next + 1)) =
        .str (c.textAfter (some s) stale value) :=
    congrArg Setting.str (Config.newCopy_strings _ _)
  have hhas := hput.has_iff ns key x
  rw [Config.newCopy_values] at hhas
  refine hhas.trans ⟨fun h => ?_, fun h => Or.inl ⟨rfl, rfl, h.trans hsetting.symm⟩⟩
  rcases h with ⟨-, -, h⟩ | ⟨hne, -⟩
  · exact h.trans hsetting
  · exact absurd ⟨rfl, rfl⟩ hne

/-- Where the call returns, the old copy is live. -/
theorem live_of_configSetstr (hl : Linked c.heap.next c) (hns : 58 ∉ ns.val)
    (hcopy : c.HasCopy ns key s) {stale : Key}
    (hset : configSetstr c (configPath ns key) value stale = .ok c') : s ∈ c.heap.live := by
  have hext : Extends c.heap.next c c.parsing := extends_parsing
  have hlp := hext.linked hl
  have hlt := (hl.copy ns key s hcopy).2
  have hcopyp : c.parsing.HasCopy ns key s := (hext.hasCopy_iff hl).mpr hcopy
  have hreg : c.parsing.Registered ns := ⟨_, hcopyp.choose_spec.1.choose_spec.1⟩
  obtain ⟨old, hget, hold⟩ := hlp.oldCopy_iff hreg key
  obtain ⟨⟨c₂, _⟩, hwith, -⟩ := map_eq_ok hset
  rw [withPath_path (Nat.ne_of_gt hl.bound_pos) hns] at hwith
  obtain ⟨_, hcall, -⟩ := bind_eq_ok hwith
  obtain ⟨c₁, hcall, -⟩ := map_eq_ok hcall
  obtain ⟨old', hget', hcall⟩ := bind_eq_ok hcall
  obtain rfl : old' = old := Except.ok.inj (hget'.symm.trans hget)
  obtain ⟨heap₁, hfree, -⟩ := bind_eq_ok hcall
  rw [(hold s).mpr hcopyp] at hfree
  obtain ⟨_, -, hfree⟩ := bind_eq_ok hfree
  obtain ⟨_, hmem, -⟩ := bind_eq_ok hfree
  have hlive := require_eq_ok hmem
  rcases List.mem_cons.mp hlive with heq | hlive
  · change s = c.heap.next + 1 at heq
    omega
  · rcases List.mem_cons.mp hlive with heq | hlive
    · omega
    · exact hlive

/-- What the freed copy reads as makes no difference if it is not the argument. -/
theorem configSetstr_stale_irrel (hl : Linked c.heap.next c) (hns : 58 ∉ ns.val)
    (hcopy : c.HasCopy ns key s) (hvalue : value ≠ .stored s) (stale stale' : Key) :
    configSetstr c (configPath ns key) value stale =
      configSetstr c (configPath ns key) value stale' := by
  have hext : Extends c.heap.next c c.parsing := extends_parsing
  have hcopyp : c.parsing.HasCopy ns key s := (hext.hasCopy_iff hl).mpr hcopy
  have hreg : c.parsing.Registered ns := ⟨_, hcopyp.choose_spec.1.choose_spec.1⟩
  obtain ⟨old, hget, hold⟩ := (hext.linked hl).oldCopy_iff hreg key
  have hfreed : c.parsing.oldCopy old = some s := (hold s).mpr hcopyp
  have htext : ∀ stale, c.parsing.textAfter (c.parsing.oldCopy old) stale value =
      c.parsing.text value := by
    intro stale
    refine Config.textAfter_eq stale fun block hblock => ?_
    rw [← Option.some.inj (hfreed.symm.trans hblock)]
    exact hvalue
  have hcall : configSetstrns c.parsing (.own ns) (.own key) value ⟨ns, key, stale⟩ =
      configSetstrns c.parsing (.own ns) (.own key) value ⟨ns, key, stale'⟩ := by
    unfold configSetstrns
    change (configGetCommon c.parsing ns key >>= _) = (configGetCommon c.parsing ns key >>= _)
    rw [hget, ok_bind, ok_bind]
    simp only [htext]
  unfold configSetstr setWithPath
  rw [withPath_path (Nat.ne_of_gt hl.bound_pos) hns, withPath_path (Nat.ne_of_gt hl.bound_pos) hns]
  dsimp only
  rw [hcall]

/-- Given the copy that it frees, the call stores whatever that reads as then. -/
theorem not_setstrSafe_copy (hl : Linked c.heap.next c) (hns : 58 ∉ ns.val)
    (hcopy : c.HasCopy ns key s) (hlive : s ∈ c.heap.live) :
    ¬ SetstrSafe c ns key (.stored s) := by
  intro h
  -- a text that is not the old one
  let stale : Key := ⟨1 :: (c.strings s).val, by
    have hnul := (c.strings s).property
    simp [hnul]⟩
  obtain ⟨c₁, hset₁, hhas₁⟩ := configSetstr_of_live hl hns hcopy hlive (.stored s) stale
  obtain ⟨c₂, hset₂, hhas₂⟩ := h.stores stale
  obtain rfl := Except.ok.inj (hset₁.symm.trans hset₂)
  have hread : c.textAfter (some s) stale (.stored s) = stale := if_pos rfl
  have heq : c.strings s = stale := by
    have hsetting := (hhas₁ _).mp hhas₂
    rw [hread] at hsetting
    exact Setting.str.inj hsetting
  have hlen := congrArg (fun text : Key => text.val.length) heq
  simp [stale] at hlen

/-- `config_getstr` returns the pointer to the copy. -/
theorem configGetstr_eq (hl : Linked c.heap.next c) (hns : 58 ∉ ns.val)
    (hcopy : c.HasCopy ns key s) : configGetstr c (configPath ns key) = .ok (c.parsed, s) := by
  have hform : configGetstr c (configPath ns key) = (c.parsed, ·) <$> configGetstrns c ns key :=
    getWithPath_path (Nat.ne_of_gt hl.bound_pos) hns key 0
  obtain ⟨v, hv, hs⟩ := hcopy
  have hget : configGetstrns c ns key = .ok s := by
    rcases hl.configGetCommon_eq ⟨_, hv.choose_spec.1⟩ key with ⟨w, hget, hne, hw⟩ | ⟨-, hnot⟩
    · obtain rfl := hl.hasValue_unique hw hv
      unfold configGetstrns configGetValue
      rw [hget, ok_bind, if_neg hne, hs]
      rfl
    · exact absurd hv (hnot v)
  rw [hform, hget]
  rfl

/-- In every state of every run, for a key that holds a string: `config_getstr` returns the copy,
and `config_setstr` is safe exactly if its argument is not that copy, and the copy is live. -/
theorem configSetstr_safe_iff (heap : LiveBlocks) (tables : Nat → Htbl)
    (values : Nat → ConfigValue) (strings : Nat → Key) {ops : List (ConfigOp StrArg)}
    (hrun : configRun (configInit heap tables values strings) ops = .ok c) (hns : 58 ∉ ns.val)
    (hcopy : c.HasCopy ns key s) :
    configGetstr c (configPath ns key) = .ok (c.parsed, s) ∧
      ∀ value, SetstrSafe c ns key value ↔ value ≠ .stored s ∧ s ∈ c.heap.live := by
  have hl := configRun_linked (configInit_good heap tables values strings).1 hrun
  refine ⟨configGetstr_eq hl hns hcopy, fun value => ⟨fun h => ?_, fun ⟨hvalue, hlive⟩ => ?_⟩⟩
  · have hlive : s ∈ c.heap.live := by
      obtain ⟨c', hset, -⟩ := h.stores ⟨[], nul_not_mem_nil⟩
      exact live_of_configSetstr hl hns hcopy hset
    exact ⟨fun heq => not_setstrSafe_copy hl hns hcopy hlive (heq ▸ h), hlive⟩
  · refine ⟨configSetstr_stale_irrel hl hns hcopy hvalue, fun stale => ?_⟩
    have htext : c.textAfter (some s) stale value = c.text value := by
      refine Config.textAfter_eq stale fun block hblock => ?_
      rw [← Option.some.inj hblock]
      exact hvalue
    obtain ⟨c', hset, hhas⟩ := configSetstr_of_live hl hns hcopy hlive value stale
    exact ⟨c', hset, (hhas _).mpr (by rw [htext])⟩

/-- The string "abcdefgh" as `a:k`. -/
def stringOps : List (ConfigOp StrArg) :=
  [.newns ⟨[97], nul_not_mem_a⟩,
    .setstrns (.own ⟨[97], nul_not_mem_a⟩) (.own ⟨[107], by decide⟩)
      (.own ⟨[97, 98, 99, 100, 101, 102, 103, 104], by decide⟩)
      ⟨⟨[], by decide⟩, ⟨[], by decide⟩, ⟨[], by decide⟩⟩]

/-- Its copy is in block 7. -/
theorem stringOps_holds : ∃ c, configRun emptyConfig stringOps = .ok c ∧
    c.HasCopy ⟨[97], by decide⟩ ⟨[107], by decide⟩ 7 ∧ 7 ∈ c.heap.live ∧
    c.strings 7 = ⟨[97, 98, 99, 100, 101, 102, 103, 104], by decide⟩ := by
  obtain ⟨c, hrun⟩ : ∃ c, configRun emptyConfig stringOps = .ok c := ⟨_, rfl⟩
  have hl : Linked c.heap.next c := configRun_linked (configInit_good ..).1 hrun
  have hget : configGetCommon c ⟨[97], by decide⟩ ⟨[107], by decide⟩ = .ok 6 := by
    cases hrun
    rfl
  have hvalue : c.values 6 = .str 7 := by
    cases hrun
    rfl
  refine ⟨c, hrun, ⟨6, hl.hasValue_of_get hget (by decide), hvalue⟩, ?_, ?_⟩
  · cases hrun
    decide
  · cases hrun
    rfl

theorem configSetstr_safe_iff_string : ∃ c, configRun emptyConfig stringOps = .ok c ∧
    configGetstr c (configPath ⟨[97], by decide⟩ ⟨[107], by decide⟩) = .ok (c.parsed, 7) ∧
      ∀ value, SetstrSafe c ⟨[97], by decide⟩ ⟨[107], by decide⟩ value ↔
        value ≠ .stored 7 ∧ 7 ∈ c.heap.live := by
  obtain ⟨c, hrun, hcopy, -⟩ := stringOps_holds
  exact ⟨c, hrun, configSetstr_safe_iff _ _ _ _ hrun (by decide) hcopy⟩

/-- `config_setstr("a:k", config_getstr("a:k"))` where `a:k` is "abcdefgh": if the block of the
new value is the one of the old copy, the first byte of the argument is the type by then. -/
theorem configSetstr_getstr_unsafe : ∃ c, configRun emptyConfig stringOps = .ok c ∧
    c.Has ⟨[97], by decide⟩ ⟨[107], by decide⟩
      (.str ⟨[97, 98, 99, 100, 101, 102, 103, 104], by decide⟩) ∧
    configGetstr c (configPath ⟨[97], by decide⟩ ⟨[107], by decide⟩) = .ok (c.parsed, 7) ∧
    ¬ SetstrSafe c ⟨[97], by decide⟩ ⟨[107], by decide⟩ (.stored 7) ∧
    ∃ c', configSetstr c (configPath ⟨[97], by decide⟩ ⟨[107], by decide⟩) (.stored 7)
        ⟨[2, 98, 99, 100, 101, 102, 103, 104], by decide⟩ = .ok c' ∧
      c'.Has ⟨[97], by decide⟩ ⟨[107], by decide⟩
        (.str ⟨[2, 98, 99, 100, 101, 102, 103, 104], by decide⟩) := by
  obtain ⟨c, hrun, hcopy, hlive, htext⟩ := stringOps_holds
  have hl : Linked c.heap.next c := configRun_linked (configInit_good ..).1 hrun
  have hns : 58 ∉ (⟨[97], by decide⟩ : Key).val := by decide
  obtain ⟨c', hset, hhas⟩ := configSetstr_of_live hl hns hcopy hlive (.stored 7)
    ⟨[2, 98, 99, 100, 101, 102, 103, 104], by decide⟩
  obtain ⟨v, hv, hs⟩ := hcopy
  refine ⟨c, hrun, ⟨v, hv, ?_⟩, configGetstr_eq hl hns ⟨v, hv, hs⟩,
    not_setstrSafe_copy hl hns ⟨v, hv, hs⟩ hlive, c', hset, (hhas _).mpr rfl⟩
  rw [hs]
  exact congrArg Setting.str htext

/-- The block of a string of 8 characters is freed and handed out again for the value, whose
type is written into it. -/
example : (do
    let (a, sval) ← kalloc (initAlloc (fun _ => 0) 4096 4096) 9
    let a := { a with mem := a.mem.storeBytes sval [97, 98, 99, 100, 101, 102, 103, 104, 0] }
    let a ← kfree a sval
    let (a, confValue) ← kalloc a 8
    let m := a.mem.store8 confValue 2
    return (decide (confValue = sval), bytesAt m sval 9)) =
      Except.ok (true, [2, 98, 99, 100, 101, 102, 103, 104, 0]) := by decide +kernel

end Alias

end Microboot.Kern
