/-
  Kern/ConfigPaths.lean --- namespaces and path forms of the configuration store.

  `config_newns` always puts a new, empty table, whether the namespace has one or
  not.  A path form splits its path at the first `:` into two copies, calls the ns
  form on them and frees them; it does what the ns form does, up to the names of
  the blocks that are handed out meanwhile.
-/
import Microboot.Kern.Config

set_option autoImplicit false

namespace Microboot.Kern

open Microboot.Foundation

/-! ## New namespaces -/

section Newns

variable {bound : Nat} {c : Config} {ns key : Key}

/-- What registering a namespace leaves: nothing is set in it, whatever was, and
everything else is as before. -/
structure NewnsResult (c : Config) (name : Key) (c' : Config) : Prop where
  linked : Linked c'.heap.next c'
  owned : Owned c → Owned c'
  next_le : c.heap.next ≤ c'.heap.next
  registered : ∀ ns, c'.Registered ns ↔ ns = name ∨ c.Registered ns
  has : ∀ ns key x, c'.Has ns key x ↔ ns ≠ name ∧ c.Has ns key x

/-- `c'` is `c` with a new, empty table, in the next block, as the namespace `name`. -/
structure Renews (c : Config) (name : Key) (c' : Config) : Prop where
  put : PutResult c.heap.kalloc.2.kalloc.2 c.namespaces name c.heap.next c'.heap c'.namespaces
  tables : c'.tables = Function.update c.tables c.heap.next (htblCreate c.heap).2.2
  values : c'.values = c.values
  strings : c'.strings = c.strings

namespace Renews

variable {c' : Config} {name : Key}

/-- The table is in block `next`, and its array in `next + 1`. -/
theorem next_le (h : Renews c name c') : c.heap.next + 2 ≤ c'.heap.next :=
  h.put.keeps.next_le

theorem namespaces_array (h : Renews c name c') :
    c'.namespaces.entriesBlock = c.namespaces.entriesBlock ∨
      (c.heap.next + 2 ≤ c'.namespaces.entriesBlock ∧
        c'.namespaces.entriesBlock < c'.heap.next) :=
  h.put.entriesBlock

theorem maps_iff (h : Renews c name c') (ns : Key) (t : Nat) :
    Maps c'.namespaces.entries ns t ↔
      (ns = name ∧ t = c.heap.next) ∨ (ns ≠ name ∧ Maps c.namespaces.entries ns t) :=
  h.put.maps ns t

theorem table_self (h : Renews c name c') :
    c'.tables c.heap.next = (htblCreate c.heap).2.2 := by
  rw [h.tables, Function.update_self]

theorem table_other (h : Renews c name c') (hl : Linked bound c) {t : Nat}
    (hns : Maps c.namespaces.entries ns t) : c'.tables t = c.tables t := by
  have hlt := (hl.table ns t hns).2.1
  have hbound := hl.bound_le
  rw [h.tables]
  exact Function.update_of_ne (by omega) _ _

/-- A table is the new one, with its array in the block behind it, or an old one. -/
theorem table_cases (h : Renews c name c') (hl : Linked bound c) {t : Nat}
    (hns : Maps c'.namespaces.entries ns t) :
    (c'.tables t).entriesBlock = c.heap.next + 1 ∨
      ∃ ns', Maps c.namespaces.entries ns' t ∧ c'.tables t = c.tables t := by
  rcases (h.maps_iff ns t).mp hns with ⟨-, rfl⟩ | ⟨-, hold⟩
  · left
    rw [h.table_self]
    rfl
  · exact Or.inr ⟨ns, hold, h.table_other hl hold⟩

theorem hasValue_iff (h : Renews c name c') (hl : Linked bound c) (ns key : Key) (v : Nat) :
    c'.HasValue ns key v ↔ ns ≠ name ∧ c.HasValue ns key v := by
  constructor
  · intro ⟨t, hns, hmap⟩
    rcases (h.maps_iff ns t).mp hns with ⟨rfl, rfl⟩ | ⟨hne, hns⟩
    · rw [h.table_self] at hmap
      exact absurd hmap (not_maps_replicate _)
    · rw [h.table_other hl hns] at hmap
      exact ⟨hne, t, hns, hmap⟩
  · intro ⟨hne, t, hns, hmap⟩
    refine ⟨t, (h.maps_iff ns t).mpr (Or.inr ⟨hne, hns⟩), ?_⟩
    rw [h.table_other hl hns]
    exact hmap

theorem hasCopy_iff (h : Renews c name c') (hl : Linked bound c) (ns key : Key) (s : Nat) :
    c'.HasCopy ns key s ↔ ns ≠ name ∧ c.HasCopy ns key s := by
  unfold Config.HasCopy
  simp only [h.hasValue_iff hl, h.values, and_assoc, exists_and_left]

theorem has_iff (h : Renews c name c') (hl : Linked bound c) (ns key : Key) (x : Setting) :
    c'.Has ns key x ↔ ns ≠ name ∧ c.Has ns key x := by
  have hsetting : c'.setting = c.setting := by
    unfold Config.setting
    rw [h.strings]
  unfold Config.Has
  simp only [h.hasValue_iff hl, h.values, hsetting, and_assoc, exists_and_left]

theorem registered_iff (h : Renews c name c') (ns : Key) :
    c'.Registered ns ↔ ns = name ∨ c.Registered ns := by
  unfold Config.Registered
  constructor
  · intro ⟨t, hns⟩
    rcases (h.maps_iff ns t).mp hns with ⟨rfl, -⟩ | ⟨-, hold⟩
    · exact Or.inl rfl
    · exact Or.inr ⟨t, hold⟩
  · intro hcase
    by_cases hname : ns = name
    · exact ⟨c.heap.next, (h.maps_iff ns _).mpr (Or.inl ⟨hname, rfl⟩)⟩
    · obtain ⟨t, hold⟩ := hcase.resolve_left hname
      exact ⟨t, (h.maps_iff ns t).mpr (Or.inr ⟨hname, hold⟩)⟩

theorem linked (h : Renews c name c') (hl : Linked bound c) : Linked c'.heap.next c' := by
  have hpos := hl.bound_pos
  have hbound := hl.bound_le
  have hnext := h.next_le
  refine ⟨by omega, Nat.le_refl _, ⟨h.put.inv, h.put.load, ?_⟩, fun ns t hns => ?_,
    fun ns ns' t hns hns' => ?_, fun ns key v hv => ?_, fun ns key s hs => ?_⟩
  · have harray := hl.namespaces.entriesBlock_lt
    have hblock := h.namespaces_array
    omega
  · rcases (h.maps_iff ns t).mp hns with ⟨-, rfl⟩ | ⟨-, hold⟩
    · have htable : Refines [] (htblCreate c.heap).2.2 := refines_htblCreate c.heap
      have hblock : (htblCreate c.heap).2.2.entriesBlock = c.heap.next + 1 := rfl
      rw [h.table_self]
      exact ⟨by omega, by omega, htable.inv, htable.load, by omega⟩
    · obtain ⟨hpos', hlt, horder⟩ := hl.table ns t hold
      rw [h.table_other hl hold]
      exact ⟨hpos', by omega, horder.mono (by omega)⟩
  · rcases (h.maps_iff ns t).mp hns with ⟨rfl, rfl⟩ | ⟨-, hold⟩ <;>
      rcases (h.maps_iff ns' _).mp hns' with ⟨rfl, heq⟩ | ⟨-, hold'⟩
    · rfl
    · have := hl.table ns' _ hold'
      omega
    · have := hl.table ns t hold
      omega
    · exact hl.table_inj ns ns' t hold hold'
  · have := hl.value ns key v ((h.hasValue_iff hl ns key v).mp hv).2
    omega
  · have := hl.copy ns key s ((h.hasCopy_iff hl ns key s).mp hs).2
    omega

theorem owned (h : Renews c name c') (hl : Linked bound c) (ho : Owned c) : Owned c' := by
  have hold : ∀ ns key s, c'.HasCopy ns key s → c.HasCopy ns key s := fun ns key s hs =>
    ((h.hasCopy_iff hl ns key s).mp hs).2
  refine ⟨fun ns key s _ hs => ?_, fun ns key s _ hs => ?_,
    fun ns key ns' key' s _ _ hs hs' =>
      ho.inj ns key ns' key' s trivial trivial (hold ns key s hs) (hold ns' key' s hs')⟩
  · have hs := hold ns key s hs
    refine h.put.keeps.live s ?_ ?_
    · exact List.mem_cons_of_mem _ (List.mem_cons_of_mem _ (ho.live ns key s trivial hs))
    · rw [List.mem_singleton]
      exact (ho.array ns key s trivial hs).1
  · have hs := hold ns key s hs
    have hlt := (hl.copy ns key s hs).2
    have hbound := hl.bound_le
    obtain ⟨hnamespaces, htables⟩ := ho.array ns key s trivial hs
    have hblock := h.namespaces_array
    refine ⟨by omega, fun ns' t hns => ?_⟩
    rcases h.table_cases hl hns with heq | ⟨ns'', hmaps, heq⟩
    · omega
    · rw [heq]
      exact htables ns'' t hmaps

end Renews

/-- `config_newns` returns. -/
theorem configNewns_renews (hl : Linked bound c) (name : Key) :
    ∃ c', configNewns c name = .ok c' ∧ Renews c name c' := by
  obtain ⟨heap', namespaces', hput, hresult⟩ := htblPut_spec hl.namespaces.inv
    hl.namespaces.load 0 c.heap.kalloc.2.kalloc.2 name c.heap.next
  refine ⟨{ c with
    heap := heap'
    namespaces := namespaces'
    tables := Function.update c.tables c.heap.next (htblCreate c.heap).2.2 }, ?_,
    hresult, rfl, rfl, rfl⟩
  unfold configNewns
  change (orHang (htblPut (0 + 2) c.heap.kalloc.2.kalloc.2 c.namespaces name c.heap.next) >>= _)
    = _
  rw [hput]
  rfl

theorem configNewns_spec (hl : Linked bound c) (name : Key) :
    ∃ c', configNewns c name = .ok c' ∧ NewnsResult c name c' := by
  obtain ⟨c', hnew, h⟩ := configNewns_renews hl name
  exact ⟨c', hnew, h.linked hl, h.owned hl, Nat.le_trans (Nat.le_add_right _ _) h.next_le,
    h.registered_iff, h.has_iff hl⟩

/-- A new store is linked and owns nothing yet. -/
theorem configInit_good (heap : LiveBlocks) (tables : Nat → Htbl)
    (values : Nat → ConfigValue) (strings : Nat → Key) :
    Linked (configInit heap tables values strings).heap.next
        (configInit heap tables values strings) ∧
      Owned (configInit heap tables values strings) ∧
      ∀ ns, ¬ (configInit heap tables values strings).Registered ns := by
  have hrefines := refines_htblCreate heap
  have hempty : ∀ ns t, ¬ Maps (configInit heap tables values strings).namespaces.entries ns t :=
    fun ns t => not_maps_replicate _
  have hcopy : ∀ ns key s, ¬ (configInit heap tables values strings).HasCopy ns key s :=
    fun ns key s ⟨v, ⟨t, hns, _⟩, _⟩ => hempty ns t hns
  refine ⟨⟨Nat.succ_pos _, Nat.le_refl _, ⟨hrefines.inv, hrefines.load, Nat.lt_succ_self _⟩,
    fun ns t hns => absurd hns (hempty ns t), fun ns ns' t hns => absurd hns (hempty ns t),
    fun ns key v ⟨t, hns, _⟩ => absurd hns (hempty ns t),
    fun ns key s hs => absurd hs (hcopy ns key s)⟩,
    ⟨fun ns key s _ hs => absurd hs (hcopy ns key s), fun ns key s _ hs => absurd hs (hcopy ns key s),
    fun ns key _ _ s _ _ hs => absurd hs (hcopy ns key s)⟩,
    fun ns ⟨t, hns⟩ => hempty ns t hns⟩

end Newns

/-! ## Paths -/

section Paths

variable {bound : Nat} {c : Config} {ns key path : Key} {x : Setting}

/-- The path `ns:key`. -/
def configPath (ns key : Key) : Key :=
  ⟨ns.val ++ 58 :: key.val, by
    have hns := ns.property
    have hkey := key.property
    simp [hns, hkey]⟩

/-- A path without `:` is not split. -/
theorem configParseKey_none (h : 58 ∉ path.val) (heap : LiveBlocks) :
    configParseKey heap path = none := by
  unfold configParseKey
  rw [(strchr_eq_none_iff (by decide)).mpr h]
  rfl

/-- A path is split at its first `:`. -/
theorem configParseKey_path (hns : 58 ∉ ns.val) (key : Key) (heap : LiveBlocks) :
    configParseKey heap (configPath ns key) = some (heap.kalloc.2.kalloc.2,
      { ns := ns, nsBlock := heap.next, key := key, keyBlock := heap.next + 1 }) := by
  have hsep : strchr (configPath ns key).val 58 = some ns.val.length := strchr_append hns
  have htake : (ns.val ++ 58 :: key.val).take ns.val.length = ns.val := by simp
  have hdrop : (ns.val ++ 58 :: key.val).drop (ns.val.length + 1) = key.val := by
    rw [← List.drop_drop, List.drop_left]
    rfl
  unfold configParseKey
  rw [hsep]
  simp only [Option.bind_eq_bind, Option.bind_some, LiveBlocks.kalloc, configPath, htake, hdrop]
  rfl

/-- A path has no `:`, or is the path of one pair. -/
theorem path_cases (path : Key) :
    58 ∉ path.val ∨ ∃ ns key : Key, 58 ∉ ns.val ∧ path = configPath ns key := by
  by_cases h : 58 ∈ path.val
  · obtain ⟨u, v, heq, hu⟩ := List.eq_append_cons_of_mem h
    have hnul := path.property
    rw [heq, List.mem_append, not_or, List.mem_cons, not_or] at hnul
    exact Or.inr ⟨⟨u, hnul.1⟩, ⟨v, hnul.2.2⟩, hu, Subtype.ext heq⟩
  · exact Or.inl h

theorem configPath_inj {ns' key' : Key} (hns : 58 ∉ ns.val) (hns' : 58 ∉ ns'.val)
    (h : configPath ns key = configPath ns' key') : ns = ns' ∧ key = key' := by
  have hparse := configParseKey_path hns key ⟨0, []⟩
  rw [h, configParseKey_path hns' key', Option.some.injEq, Prod.mk.injEq,
    ParsedKey.mk.injEq] at hparse
  exact ⟨hparse.2.1.symm, hparse.2.2.2.1.symm⟩

/-- The store while a path form runs: the copies of the parts are live. -/
def Config.parsing (c : Config) : Config := { c with heap := c.heap.kalloc.2.kalloc.2 }

/-- The store behind a path form that changes nothing. -/
def Config.parsed (c : Config) : Config := { c with heap := ⟨c.heap.next + 2, c.heap.live⟩ }

theorem withPath_none {α : Type} (h : 58 ∉ path.val) (absent : α)
    (call : Config → Key → Key → Except Fault (Config × α)) :
    withPath c path absent call = .ok (c, absent) := by
  unfold withPath
  rw [configParseKey_none h]
  rfl

/-- A path form calls the ns form, and frees the copies of the parts. -/
theorem withPath_path {α : Type} (hnull : c.heap.next ≠ 0) (hns : 58 ∉ ns.val) (key : Key)
    (absent : α) (call : Config → Key → Key → Except Fault (Config × α)) :
    withPath c (configPath ns key) absent call = do
      let (c', ret) ← call c.parsing ns key
      let heap ← c'.heap.kfreeChecked c.heap.next
      let heap ← heap.kfreeChecked (c.heap.next + 1)
      return ({ c' with heap := heap }, ret) := by
  have hblocks : ¬ (c.heap.next = 0 ∨ c.heap.next + 1 = 0) := by omega
  unfold withPath
  rw [configParseKey_path hns]
  simp only [if_neg hblocks]
  rfl

/-- Freeing the copies that a getter's path form made. -/
theorem kfree_parts (heap : LiveBlocks) (hnull : heap.next ≠ 0) :
    (do
      let heap' ← heap.kalloc.2.kalloc.2.kfreeChecked heap.next
      heap'.kfreeChecked (heap.next + 1)) = .ok ⟨heap.next + 2, heap.live⟩ := by
  rw [LiveBlocks.kfreeChecked_eq_ok hnull (by simp [LiveBlocks.kalloc]), ok_bind,
    LiveBlocks.kfreeChecked_eq_ok (by omega) (by simp [LiveBlocks.kalloc, LiveBlocks.kfree])]
  simp [LiveBlocks.kalloc, LiveBlocks.kfree]

/-- A getter's path form returns what its ns form does. -/
theorem getWithPath_path {α : Type} (hnull : c.heap.next ≠ 0) (hns : 58 ∉ ns.val) (key : Key)
    (absent : α) {read : ConfigValue → α} :
    getWithPath c (configPath ns key) absent (fun c ns key => configGetValue c ns key absent read) =
      (c.parsed, ·) <$> configGetValue c ns key absent read := by
  have hsame : configGetValue c.parsing ns key absent read =
      configGetValue c ns key absent read := rfl
  have hfree := kfree_parts c.heap hnull
  unfold getWithPath
  rw [withPath_path hnull hns]
  simp only [hsame]
  cases configGetValue c ns key absent read with
  | error e => rfl
  | ok a =>
    change (do
      let heap ← c.heap.kalloc.2.kalloc.2.kfreeChecked c.heap.next
      let heap ← heap.kfreeChecked (c.heap.next + 1)
      pure (({ c.parsing with heap := heap } : Config), a)) = _
    rw [← bind_assoc, hfree]
    rfl

theorem extends_parsing : Extends bound c c.parsing where
  next_le := Nat.le_add_right _ 2
  namespaces := rfl
  tables := rfl
  values _ _ := rfl
  strings _ _ := rfl

/-- A setter's path form returns if its ns form leaves the copies of the parts live. -/
theorem setWithPath_returns (call : Config → Key → Key → Except Fault Config)
    (hpos : 0 < c.heap.next) (hns : 58 ∉ ns.val) {c' : Config}
    (hcall : call c.parsing ns key = .ok c')
    (hkeeps : ∀ b ∈ c.parsing.heap.live, c.heap.next ≤ b → b ∈ c'.heap.live) :
    setWithPath c (configPath ns key) call =
      .ok { c' with heap := (c'.heap.kfree c.heap.next).kfree (c.heap.next + 1) } := by
  have hlive : c.heap.next ∈ c'.heap.live :=
    hkeeps _ (List.mem_cons_of_mem _ List.mem_cons_self) (Nat.le_refl _)
  have hlive' : c.heap.next + 1 ∈ (c'.heap.kfree c.heap.next).live :=
    (List.mem_erase_of_ne (by omega)).mpr (hkeeps _ List.mem_cons_self (Nat.le_succ _))
  unfold setWithPath
  rw [withPath_path (Nat.ne_of_gt hpos) hns, hcall]
  change Prod.fst <$> (do
    let heap ← c'.heap.kfreeChecked c.heap.next
    let heap ← heap.kfreeChecked (c.heap.next + 1)
    pure (({ c' with heap := heap } : Config), ())) = _
  rw [LiveBlocks.kfreeChecked_eq_ok (Nat.ne_of_gt hpos) hlive, ok_bind,
    LiveBlocks.kfreeChecked_eq_ok (Nat.succ_ne_zero _) hlive']
  rfl

/-- A setter's path form sets what its ns form sets. -/
theorem setWithPath_path (call : Config → Key → Key → Except Fault Config)
    (hl : Linked c.heap.next c) (hns : 58 ∉ ns.val)
    (hcall : ∃ c', call c.parsing ns key = .ok c' ∧ SetResult c.parsing ns key x c' ∧
      SetBlocks c.heap.next c.parsing c') :
    ∃ c', setWithPath c (configPath ns key) call = .ok c' ∧ SetResult c ns key x c' := by
  have hext : Extends c.heap.next c c.parsing := extends_parsing
  obtain ⟨c', hcall, hresult, hblocks⟩ := hcall
  have hnext : c.heap.next + 1 + 1 ≤ c'.heap.next := hresult.next_le
  let heap₁ := (c'.heap.kfree c.heap.next).kfree (c.heap.next + 1)
  have hkeeps : c'.heap.Keeps [c.heap.next, c.heap.next + 1] heap₁ :=
    LiveBlocks.kfree_keeps.trans LiveBlocks.kfree_keeps
  have hext' : Extends c'.heap.next c' { c' with heap := heap₁ } :=
    ⟨Nat.le_refl _, rfl, rfl, fun _ _ => rfl, fun _ _ => rfl⟩
  have hl' := hresult.linked
  refine ⟨{ c' with heap := heap₁ }, setWithPath_returns call hl.bound_pos hns hcall hblocks.keeps,
    hext'.linked hl', ?_, ?_, fun ns' => ?_, fun ns' key' y => ?_⟩
  · refine hext'.ownedOn hl' hresult.owned hkeeps fun ns' key' s _ hs => ?_
    have hnew : s < c.heap.next ∨ c.heap.next + 1 + 1 ≤ s := hblocks.copy ns' key' s hs
    simp only [List.mem_cons, List.not_mem_nil, or_false]
    omega
  · change c.heap.next ≤ c'.heap.next
    omega
  · rw [hext'.registered_iff, hresult.registered, hext.registered_iff]
  · rw [hext'.has_iff hl', hresult.has, hext.has_iff hl]

end Paths

end Microboot.Kern
