/-
  Kern/Config.lean --- the configuration store, kern/config.c.

  A two-level map: `namespaces` maps the name of a namespace to its table, and
  the table maps a key to a `struct config_value`, a tagged union.  Values are
  blocks of their own; a value of string type points to a copy of the string.
  What the blocks hold is kept beside the heap, which only knows which blocks are
  live.

  A string that a caller passes to a setter can be one of the store's own copies
  (a getter hands out the pointer).  `config_setstrns` frees the copy that it
  replaces before it is done with its arguments: what an argument reads as when
  it is that copy is the parameter `Stale`.

  The second half has one lemma for each function: what the getters read, and what
  a put leaves of every pair.
-/
import Mathlib.Logic.Function.Basic
import Microboot.Kern.Htbl

set_option autoImplicit false

namespace Microboot.Kern

open Microboot.Foundation

/-! ## The model -/

/-- `struct config_value`; `str` points to the block of the copy. -/
inductive ConfigValue where
  | int (ival : Int32)
  | str (sval : Nat)
  | obj (oval : Nat)
  deriving DecidableEq, Repr

/-- `value->type`: `CONFIG_TYPE_INT`, `CONFIG_TYPE_STR` or `CONFIG_TYPE_OBJ`. -/
def ConfigValue.type : ConfigValue → Nat
  | .int _ => 1
  | .str _ => 2
  | .obj _ => 3

/-- The state of the store.  `tables`, `values` and `strings` give what a block
holds, read as a table, as a value or as a string. -/
structure Config where
  heap : LiveBlocks
  namespaces : Htbl
  tables : Nat → Htbl
  values : Nat → ConfigValue
  strings : Nat → Key

/-- A loop that never ends hangs the machine. -/
def orHang {α : Type} : Option α → Except Fault α
  | some a => .ok a
  | none => .error .hang

/-- `htbl_put` expands a table at most once, and the puts of an expansion never
expand again. -/
def htblDepth : Nat := 2

/-- `config_init()`; the memory holds anything. -/
def configInit (heap : LiveBlocks) (tables : Nat → Htbl) (values : Nat → ConfigValue)
    (strings : Nat → Key) : Config :=
  let (heap, _, namespaces) := htblCreate heap
  { heap := heap, namespaces := namespaces, tables := tables, values := values
    strings := strings }

/-- `config_newns(name)` -/
def configNewns (c : Config) (name : Key) : Except Fault Config := do
  let (heap, block, table) := htblCreate c.heap
  let (heap, namespaces) ← orHang (htblPut htblDepth heap c.namespaces name block)
  return { c with
    heap := heap
    namespaces := namespaces
    tables := Function.update c.tables block table }

/-- The copies of its two parts that `config_parse_key` makes of a path. -/
structure ParsedKey where
  ns : Key
  nsBlock : Nat
  key : Key
  keyBlock : Nat

/-- `config_parse_key(path, &namespace, &key)` -/
def configParseKey (heap : LiveBlocks) (path : Key) : Option (LiveBlocks × ParsedKey) := do
  let nsLength ← strchr path.val 58
  let (nsBlock, heap) := heap.kalloc
  let (keyBlock, heap) := heap.kalloc
  return (heap,
    { ns := ⟨path.val.take nsLength, fun h => path.property (List.mem_of_mem_take h)⟩
      nsBlock := nsBlock
      key := ⟨path.val.drop (nsLength + 1), fun h => path.property (List.mem_of_mem_drop h)⟩
      keyBlock := keyBlock })

/-- `config_get_common(ns, ns_key)`: the value's block, or `NULL`. -/
def configGetCommon (c : Config) (ns nsKey : Key) : Except Fault Nat := do
  let nsTable ← orHang (htblGet c.namespaces ns)
  require (nsTable ≠ 0) "NULL table"
  orHang (htblGet (c.tables nsTable) nsKey)

/-- `config_set_common(ns, ns_key, value)` -/
def configSetCommon (c : Config) (ns nsKey : Key) (value : Nat) : Except Fault Config := do
  let nsTable ← orHang (htblGet c.namespaces ns)
  require (nsTable ≠ 0) "NULL table"
  let (heap, table) ← orHang (htblPut htblDepth c.heap (c.tables nsTable) nsKey value)
  return { c with heap := heap, tables := Function.update c.tables nsTable table }

/-- A string argument: one that the store does not own, or the copy in a block of
the store's. -/
inductive StrArg where
  | own (text : Key)
  | stored (block : Nat)
  deriving DecidableEq

/-- The string that an argument points to. -/
def Config.text (c : Config) : StrArg → Key
  | .own text => text
  | .stored block => c.strings block

/-- What the arguments of `config_setstrns` read as behind the `kfree`, where they
are the copy that was freed. -/
structure Stale where
  ns : Key
  key : Key
  value : Key

/-- What an argument reads as once the block `freed` is. -/
def Config.textAfter (c : Config) (freed : Option Nat) (stale : Key) (arg : StrArg) : Key :=
  match freed with
  | some block => if arg = .stored block then stale else c.text arg
  | none => c.text arg

/-- The copy of the old value that `config_setstrns` frees. -/
def Config.oldCopy (c : Config) (oldValue : Nat) : Option Nat :=
  if oldValue = 0 then none
  else
    match c.values oldValue with
    | .str sval => some sval
    | _ => none

/-- `kfree`, if there is a copy to free. -/
def freeCopy (heap : LiveBlocks) : Option Nat → Except Fault LiveBlocks
  | some sval => heap.kfreeChecked sval
  | none => .ok heap

/-- `config_setstrns(ns, key, value)` -/
def configSetstrns (c : Config) (ns key value : StrArg) (stale : Stale) :
    Except Fault Config := do
  let oldValue ← configGetCommon c (c.text ns) (c.text key)
  let freed := c.oldCopy oldValue
  let heap ← freeCopy c.heap freed
  let (confValue, heap) := heap.kalloc
  let (sval, heap) := heap.kalloc
  let c' : Config := { c with
    heap := heap
    values := Function.update c.values confValue (.str sval)
    strings := Function.update c.strings sval (c.textAfter freed stale.value value) }
  configSetCommon c' (c.textAfter freed stale.ns ns) (c.textAfter freed stale.key key) confValue

/-- The body that `config_setobjns` and `config_setintns` share. -/
def configSetValue (c : Config) (ns key : Key) (value : ConfigValue) : Except Fault Config :=
  let (confValue, heap) := c.heap.kalloc
  configSetCommon { c with heap := heap, values := Function.update c.values confValue value }
    ns key confValue

/-- `config_setobjns(ns, key, value)` -/
def configSetobjns (c : Config) (ns key : Key) (value : Nat) : Except Fault Config :=
  configSetValue c ns key (.obj value)

/-- `config_setintns(ns, key, value)` -/
def configSetintns (c : Config) (ns key : Key) (value : Int32) : Except Fault Config :=
  configSetValue c ns key (.int value)

/-- The body of a getter: the value is looked up, and read if there is one. -/
def configGetValue {α : Type} (c : Config) (ns key : Key) (absent : α)
    (read : ConfigValue → α) : Except Fault α := do
  let confValue ← configGetCommon c ns key
  if confValue = 0 then return absent else return read (c.values confValue)

/-- `config_getstrns(ns, key)` -/
def configGetstrns (c : Config) (ns key : Key) : Except Fault Nat :=
  configGetValue c ns key 0 fun
    | .str sval => sval
    | _ => 0

/-- `config_getobjns(ns, key)` -/
def configGetobjns (c : Config) (ns key : Key) : Except Fault Nat :=
  configGetValue c ns key 0 fun
    | .obj oval => oval
    | _ => 0

/-- `config_getintns(ns, key)` -/
def configGetintns (c : Config) (ns key : Key) : Except Fault Int32 :=
  configGetValue c ns key 0 fun
    | .int ival => ival
    | _ => 0

/-- `config_existsns(ns, key)` -/
def configExistsns (c : Config) (ns key : Key) : Except Fault Nat :=
  configGetValue c ns key 0 fun _ => 1

/-- `config_gettypens(ns, key)` -/
def configGettypens (c : Config) (ns key : Key) : Except Fault Nat :=
  configGetValue c ns key 0 ConfigValue.type

/-- The body of the path forms: the path is split into copies of its parts, which
are freed behind the call of the ns form. -/
def withPath {α : Type} (c : Config) (path : Key) (absent : α)
    (call : Config → Key → Key → Except Fault (Config × α)) : Except Fault (Config × α) :=
  match configParseKey c.heap path with
  | none => return (c, absent)
  | some (heap, parsed) => do
    if parsed.nsBlock = 0 ∨ parsed.keyBlock = 0 then
      return ({ c with heap := heap }, absent)
    let (c, ret) ← call { c with heap := heap } parsed.ns parsed.key
    let heap ← c.heap.kfreeChecked parsed.nsBlock
    let heap ← heap.kfreeChecked parsed.keyBlock
    return ({ c with heap := heap }, ret)

/-- The path form of a setter. -/
def setWithPath (c : Config) (path : Key) (call : Config → Key → Key → Except Fault Config) :
    Except Fault Config :=
  Prod.fst <$> withPath c path () fun c ns key => (·, ()) <$> call c ns key

/-- The path form of a getter. -/
def getWithPath {α : Type} (c : Config) (path : Key) (absent : α)
    (call : Config → Key → Key → Except Fault α) : Except Fault (Config × α) :=
  withPath c path absent fun c ns key => (c, ·) <$> call c ns key

/-- `config_setstr(key, value)`; the parts of the path are copies, which stay. -/
def configSetstr (c : Config) (key : Key) (value : StrArg) (stale : Key) : Except Fault Config :=
  setWithPath c key fun c ns nsKey =>
    configSetstrns c (.own ns) (.own nsKey) value ⟨ns, nsKey, stale⟩

/-- `config_setint(key, value)` -/
def configSetint (c : Config) (key : Key) (value : Int32) : Except Fault Config :=
  setWithPath c key fun c ns nsKey => configSetintns c ns nsKey value

/-- `config_setobj(key, value)` -/
def configSetobj (c : Config) (key : Key) (value : Nat) : Except Fault Config :=
  setWithPath c key fun c ns nsKey => configSetobjns c ns nsKey value

/-- `config_getstr(key)` -/
def configGetstr (c : Config) (key : Key) : Except Fault (Config × Nat) :=
  getWithPath c key 0 configGetstrns

/-- `config_getobj(key)` -/
def configGetobj (c : Config) (key : Key) : Except Fault (Config × Nat) :=
  getWithPath c key 0 configGetobjns

/-- `config_getint(key)` -/
def configGetint (c : Config) (key : Key) : Except Fault (Config × Int32) :=
  getWithPath c key 0 configGetintns

/-- `config_exists(key)` -/
def configExists (c : Config) (key : Key) : Except Fault (Config × Nat) :=
  getWithPath c key 0 configExistsns

/-- `config_gettype(key)` -/
def configGettype (c : Config) (key : Key) : Except Fault (Config × Nat) :=
  getWithPath c key 0 configGettypens

/-! ## What the store holds -/

/-- What a key is set to. -/
inductive Setting where
  | int (ival : Int32)
  | str (text : Key)
  | obj (oval : Nat)
  deriving DecidableEq

/-- The type of a setting, 0 if there is none. -/
def settingType : Option Setting → Nat
  | none => 0
  | some (.int _) => 1
  | some (.str _) => 2
  | some (.obj _) => 3

/-- The integer that is set, 0 if none is. -/
def settingInt : Option Setting → Int32
  | some (.int ival) => ival
  | _ => 0

/-- The object that is set, `NULL` if none is. -/
def settingObj : Option Setting → Nat
  | some (.obj oval) => oval
  | _ => 0

/-- The string that is set. -/
def settingText : Option Setting → Option Key
  | some (.str text) => some text
  | _ => none

/-- `p` points to the string, or is `NULL` if there is none. -/
def Config.PointsTo (c : Config) (p : Nat) : Option Key → Prop
  | some text => p ≠ 0 ∧ c.strings p = text
  | none => p = 0

/-- What a value says, read together with the copy it points to. -/
def Config.setting (c : Config) : ConfigValue → Setting
  | .int ival => .int ival
  | .str sval => .str (c.strings sval)
  | .obj oval => .obj oval

/-- The namespace has a table. -/
def Config.Registered (c : Config) (ns : Key) : Prop := ∃ t, Maps c.namespaces.entries ns t

/-- The pair has a value, in block `v`. -/
def Config.HasValue (c : Config) (ns key : Key) (v : Nat) : Prop :=
  ∃ t, Maps c.namespaces.entries ns t ∧ Maps (c.tables t).entries key v

/-- The pair is set to `x`. -/
def Config.Has (c : Config) (ns key : Key) (x : Setting) : Prop :=
  ∃ v, c.HasValue ns key v ∧ c.setting (c.values v) = x

/-- The pair is set to a string whose copy is in block `s`. -/
def Config.HasCopy (c : Config) (ns key : Key) (s : Nat) : Prop :=
  ∃ v, c.HasValue ns key v ∧ c.values v = .str s

/-- A table in order that is at most half full, with its array below `bound`. -/
structure TableInOrder (bound : Nat) (table : Htbl) : Prop where
  inv : HtblInv table
  load : table.length ≤ table.capacity / 2
  entriesBlock_lt : table.entriesBlock < bound

/-- The two levels are in order, every namespace has a table of its own, and all
blocks of the store are below `bound`. -/
structure Linked (bound : Nat) (c : Config) : Prop where
  bound_pos : 0 < bound
  bound_le : bound ≤ c.heap.next
  namespaces : TableInOrder bound c.namespaces
  table : ∀ ns t, Maps c.namespaces.entries ns t →
    0 < t ∧ t < bound ∧ TableInOrder bound (c.tables t)
  table_inj : ∀ ns ns' t, Maps c.namespaces.entries ns t → Maps c.namespaces.entries ns' t →
    ns = ns'
  value : ∀ ns key v, c.HasValue ns key v → 0 < v ∧ v < bound
  copy : ∀ ns key s, c.HasCopy ns key s → 0 < s ∧ s < bound

/-- The copies of the pairs in `on` are live, belong to one pair each, and are the
array of no table. -/
structure OwnedOn (on : Key → Key → Prop) (c : Config) : Prop where
  live : ∀ ns key s, on ns key → c.HasCopy ns key s → s ∈ c.heap.live
  array : ∀ ns key s, on ns key → c.HasCopy ns key s → s ≠ c.namespaces.entriesBlock ∧
    ∀ ns' t, Maps c.namespaces.entries ns' t → s ≠ (c.tables t).entriesBlock
  inj : ∀ ns key ns' key' s, on ns key → on ns' key' → c.HasCopy ns key s →
    c.HasCopy ns' key' s → ns = ns' ∧ key = key'

theorem OwnedOn.mono {on on' : Key → Key → Prop} {c : Config} (h : OwnedOn on c)
    (hsub : ∀ ns key, on' ns key → on ns key) : OwnedOn on' c where
  live ns key s hon := h.live ns key s (hsub ns key hon)
  array ns key s hon := h.array ns key s (hsub ns key hon)
  inj ns key ns' key' s hon hon' := h.inj ns key ns' key' s (hsub ns key hon) (hsub ns' key' hon')

/-- All copies are owned. -/
def Owned (c : Config) : Prop := OwnedOn (fun _ _ => True) c

@[simp] theorem orHang_some {α : Type} (a : α) : orHang (some a) = .ok a := rfl

namespace TableInOrder

variable {bound bound' : Nat} {table : Htbl}

theorem length_lt (h : TableInOrder bound table) : table.length < table.capacity := by
  have hge := h.inv.capacity_ge
  have hload := h.load
  omega

theorem mono (h : TableInOrder bound table) (hle : bound ≤ bound') : TableInOrder bound' table :=
  ⟨h.inv, h.load, Nat.lt_of_lt_of_le h.entriesBlock_lt hle⟩

end TableInOrder

/-! ## The getters -/

section Get

variable {bound : Nat} {c : Config} {ns key : Key} {t v : Nat} {x : Setting}

theorem Linked.htblGet_namespaces (h : Linked bound c) (hns : Maps c.namespaces.entries ns t) :
    htblGet c.namespaces ns = some t := by
  rcases h.namespaces.inv.htblGet_eq h.namespaces.length_lt ns with ⟨t', hget, hmaps⟩ | ⟨-, hnot⟩
  · rw [hget, h.namespaces.inv.maps_unique hmaps hns]
  · exact absurd hns (hnot t)

/-- In a registered namespace the lookup gives the value, or `NULL`. -/
theorem Linked.configGetCommon_eq (h : Linked bound c) (hns : c.Registered ns) (key : Key) :
    (∃ v, configGetCommon c ns key = .ok v ∧ v ≠ 0 ∧ c.HasValue ns key v) ∨
      (configGetCommon c ns key = .ok 0 ∧ ∀ v, ¬ c.HasValue ns key v) := by
  obtain ⟨t, hns⟩ := hns
  obtain ⟨hpos, -, horder⟩ := h.table ns t hns
  have hlookup : configGetCommon c ns key = orHang (htblGet (c.tables t) key) := by
    unfold configGetCommon
    rw [h.htblGet_namespaces hns, orHang_some, ok_bind,
      require_of "NULL table" (Nat.ne_of_gt hpos)]
    rfl
  rw [hlookup]
  rcases horder.inv.htblGet_eq horder.length_lt key with ⟨v, hget, hmaps⟩ | ⟨hget, hnot⟩
  · have hval : c.HasValue ns key v := ⟨t, hns, hmaps⟩
    exact Or.inl ⟨v, by rw [hget]; rfl, Nat.ne_of_gt (h.value ns key v hval).1, hval⟩
  · refine Or.inr ⟨by rw [hget]; rfl, fun v hval => ?_⟩
    obtain ⟨t', hns', hmaps⟩ := hval
    rw [h.namespaces.inv.maps_unique hns' hns] at hmaps
    exact hnot v hmaps

/-- In an unregistered namespace it fails an assertion of `htbl_get`. -/
theorem Linked.configGetCommon_unregistered (h : Linked bound c) (hns : ¬ c.Registered ns)
    (key : Key) : configGetCommon c ns key = .error (.assert "NULL table") := by
  rcases h.namespaces.inv.htblGet_eq h.namespaces.length_lt ns with ⟨t, -, hmaps⟩ | ⟨hget, -⟩
  · exact absurd ⟨t, hmaps⟩ hns
  · unfold configGetCommon
    rw [hget]
    rfl

theorem Linked.hasValue_of_get (h : Linked bound c) (hget : configGetCommon c ns key = .ok v)
    (hne : v ≠ 0) : c.HasValue ns key v := by
  by_cases hns : c.Registered ns
  · rcases h.configGetCommon_eq hns key with ⟨w, hw, -, hval⟩ | ⟨hzero, -⟩
    · rw [← Except.ok.inj (hw.symm.trans hget)]
      exact hval
    · exact absurd (Except.ok.inj (hget.symm.trans hzero)) hne
  · rw [h.configGetCommon_unregistered hns] at hget
    cases hget

/-- In a registered namespace a getter returns. -/
theorem Linked.configGetValue_ok {α : Type} (h : Linked bound c) (hns : c.Registered ns)
    (key : Key) (absent : α) (read : ConfigValue → α) :
    ∃ ret, configGetValue c ns key absent read = .ok ret := by
  obtain ⟨v, hget⟩ : ∃ v, configGetCommon c ns key = .ok v := by
    rcases h.configGetCommon_eq hns key with ⟨v, hget, -⟩ | ⟨hget, -⟩
    · exact ⟨v, hget⟩
    · exact ⟨0, hget⟩
  refine ⟨if v = 0 then absent else read (c.values v), ?_⟩
  unfold configGetValue
  rw [hget, ok_bind]
  split <;> rfl

theorem Linked.hasValue_unique (h : Linked bound c) {v' : Nat} (hv : c.HasValue ns key v)
    (hv' : c.HasValue ns key v') : v = v' := by
  obtain ⟨t, hns, hmaps⟩ := hv
  obtain ⟨t', hns', hmaps'⟩ := hv'
  rw [h.namespaces.inv.maps_unique hns' hns] at hmaps'
  exact (h.table ns t hns).2.2.inv.maps_unique hmaps hmaps'

/-- What the getters of the ns forms return for a pair that is set to `x`, or not
set at all: the value if it has the getter's type, and 0 or `NULL` otherwise. -/
structure Reads (c : Config) (ns key : Key) (x : Option Setting) : Prop where
  existsns : configExistsns c ns key = .ok (if x.isSome then 1 else 0)
  gettypens : configGettypens c ns key = .ok (settingType x)
  getintns : configGetintns c ns key = .ok (settingInt x)
  getobjns : configGetobjns c ns key = .ok (settingObj x)
  getstrns : ∃ p, configGetstrns c ns key = .ok p ∧ c.PointsTo p (settingText x)

theorem Linked.reads_none (h : Linked bound c) (hns : c.Registered ns)
    (hnot : ∀ x, ¬ c.Has ns key x) : Reads c ns key none := by
  have hlookup : configGetCommon c ns key = .ok 0 := by
    rcases h.configGetCommon_eq hns key with ⟨v, -, -, hval⟩ | ⟨hget, -⟩
    · exact absurd ⟨v, hval, rfl⟩ (hnot _)
    · exact hget
  have hvalue : ∀ (α : Type) (absent : α) (read : ConfigValue → α),
      configGetValue c ns key absent read = .ok absent := by
    intro α absent read
    unfold configGetValue
    rw [hlookup]
    rfl
  exact ⟨hvalue .., hvalue .., hvalue .., hvalue .., 0, hvalue .., rfl⟩

theorem Linked.reads_some (h : Linked bound c) (hx : c.Has ns key x) :
    Reads c ns key (some x) := by
  obtain ⟨v, hval, rfl⟩ := hx
  have hns : c.Registered ns := ⟨_, hval.choose_spec.1⟩
  obtain ⟨hpos, -⟩ := h.value ns key v hval
  have hlookup : configGetCommon c ns key = .ok v := by
    rcases h.configGetCommon_eq hns key with ⟨v', hget, -, hval'⟩ | ⟨-, hnot⟩
    · rw [hget, h.hasValue_unique hval' hval]
    · exact absurd hval (hnot v)
  have hvalue : ∀ (α : Type) (absent : α) (read : ConfigValue → α),
      configGetValue c ns key absent read = .ok (read (c.values v)) := by
    intro α absent read
    unfold configGetValue
    rw [hlookup, ok_bind, if_neg (Nat.ne_of_gt hpos)]
    rfl
  refine ⟨hvalue .., ?_, ?_, ?_, _, hvalue .., ?_⟩
  · exact (hvalue ..).trans (by cases c.values v <;> rfl)
  · exact (hvalue ..).trans (by cases c.values v <;> rfl)
  · exact (hvalue ..).trans (by cases c.values v <;> rfl)
  · cases hcase : c.values v with
    | int ival => rfl
    | obj oval => rfl
    | str sval => exact ⟨Nat.ne_of_gt (h.copy ns key sval ⟨v, hval, hcase⟩).1, rfl⟩

/-- In a registered namespace the getters return, and read what is there. -/
theorem Linked.exists_reads (h : Linked bound c) (hns : c.Registered ns) (key : Key) :
    ∃ x, Reads c ns key x ∧ ∀ y, c.Has ns key y ↔ x = some y := by
  by_cases hx : ∃ x, c.Has ns key x
  · obtain ⟨x, hx⟩ := hx
    refine ⟨some x, h.reads_some hx, fun y => ⟨fun hy => ?_, fun heq => ?_⟩⟩
    · obtain ⟨v, hv, rfl⟩ := hx
      obtain ⟨v', hv', rfl⟩ := hy
      rw [h.hasValue_unique hv hv']
    · cases heq
      exact hx
  · exact ⟨none, h.reads_none hns fun x hhas => hx ⟨x, hhas⟩,
      fun y => iff_of_false (fun hy => hx ⟨y, hy⟩) (by simp)⟩

end Get

/-! ## Putting a value -/

section Put

variable {bound : Nat} {c c' : Config} {ns key : Key} {t v : Nat} {x : Setting}

/-- `c'` has the tables of `c`, a later heap, and differs in blocks from `bound` on
at most. -/
structure Extends (bound : Nat) (c c' : Config) : Prop where
  next_le : c.heap.next ≤ c'.heap.next
  namespaces : c'.namespaces = c.namespaces
  tables : c'.tables = c.tables
  values : ∀ b < bound, c'.values b = c.values b
  strings : ∀ b < bound, c'.strings b = c.strings b

namespace Extends

theorem hasValue_iff (h : Extends bound c c') : c'.HasValue ns key v ↔ c.HasValue ns key v := by
  unfold Config.HasValue
  rw [h.namespaces, h.tables]

theorem setting_eq (h : Extends bound c c') (hl : Linked bound c) (hv : c.HasValue ns key v) :
    c'.setting (c'.values v) = c.setting (c.values v) := by
  rw [h.values v (hl.value ns key v hv).2]
  cases hcase : c.values v with
  | int ival => rfl
  | obj oval => rfl
  | str sval =>
    change Setting.str (c'.strings sval) = .str (c.strings sval)
    rw [h.strings sval (hl.copy ns key sval ⟨v, hv, hcase⟩).2]

theorem has_iff (h : Extends bound c c') (hl : Linked bound c) :
    c'.Has ns key x ↔ c.Has ns key x := by
  unfold Config.Has
  constructor
  · intro ⟨v, hv, heq⟩
    have hv' := h.hasValue_iff.mp hv
    exact ⟨v, hv', (h.setting_eq hl hv').symm.trans heq⟩
  · intro ⟨v, hv, heq⟩
    exact ⟨v, h.hasValue_iff.mpr hv, (h.setting_eq hl hv).trans heq⟩

theorem hasCopy_iff (h : Extends bound c c') (hl : Linked bound c) {s : Nat} :
    c'.HasCopy ns key s ↔ c.HasCopy ns key s := by
  constructor
  · intro ⟨v, hv, hs⟩
    have hv' := h.hasValue_iff.mp hv
    exact ⟨v, hv', (h.values v (hl.value ns key v hv').2).symm.trans hs⟩
  · intro ⟨v, hv, hs⟩
    exact ⟨v, h.hasValue_iff.mpr hv, (h.values v (hl.value ns key v hv).2).trans hs⟩

theorem linked (h : Extends bound c c') (hl : Linked bound c) : Linked bound c' where
  bound_pos := hl.bound_pos
  bound_le := Nat.le_trans hl.bound_le h.next_le
  namespaces := by rw [h.namespaces]; exact hl.namespaces
  table := by rw [h.namespaces, h.tables]; exact hl.table
  table_inj := by rw [h.namespaces]; exact hl.table_inj
  value ns key v hv := hl.value ns key v (h.hasValue_iff.mp hv)
  copy ns key s hs := hl.copy ns key s ((h.hasCopy_iff hl).mp hs)

/-- Copies that are not freed are owned as before. -/
theorem ownedOn (h : Extends bound c c') (hl : Linked bound c) {on : Key → Key → Prop}
    {freed : List Nat} (ho : OwnedOn on c) (hkeeps : c.heap.Keeps freed c'.heap)
    (hfreed : ∀ ns key s, on ns key → c.HasCopy ns key s → s ∉ freed) : OwnedOn on c' where
  live ns key s hon hs := by
    have hs' := (h.hasCopy_iff hl).mp hs
    exact hkeeps.live s (ho.live ns key s hon hs') (hfreed ns key s hon hs')
  array ns key s hon hs := by
    rw [h.namespaces, h.tables]
    exact ho.array ns key s hon ((h.hasCopy_iff hl).mp hs)
  inj ns key ns' key' s hon hon' hs hs' :=
    ho.inj ns key ns' key' s hon hon' ((h.hasCopy_iff hl).mp hs) ((h.hasCopy_iff hl).mp hs')

end Extends

/-- What a put of block `v` for a pair leaves: the pair has that value and all
others have theirs, and nothing is freed but the array of one table. -/
structure SetCommon (c : Config) (ns key : Key) (v : Nat) (c' : Config) : Prop where
  namespaces : c'.namespaces = c.namespaces
  values : c'.values = c.values
  strings : c'.strings = c.strings
  hasValue : ∀ ns' key' v', c'.HasValue ns' key' v' ↔
    (ns' = ns ∧ key' = key ∧ v' = v) ∨ (¬ (ns' = ns ∧ key' = key) ∧ c.HasValue ns' key' v')
  keeps : ∃ ns' t, Maps c.namespaces.entries ns' t ∧
    c.heap.Keeps [(c.tables t).entriesBlock] c'.heap
  inOrder : ∀ ns' t, Maps c.namespaces.entries ns' t → HtblInv (c'.tables t) ∧
    (c'.tables t).length ≤ (c'.tables t).capacity / 2
  entriesBlock : ∀ t, (c'.tables t).entriesBlock = (c.tables t).entriesBlock ∨
    (c.heap.next ≤ (c'.tables t).entriesBlock ∧ (c'.tables t).entriesBlock < c'.heap.next)

/-- In a registered namespace a put returns. -/
theorem Linked.configSetCommon_spec (h : Linked bound c) (hns : c.Registered ns) (key : Key)
    (v : Nat) : ∃ c', configSetCommon c ns key v = .ok c' ∧ SetCommon c ns key v c' := by
  obtain ⟨t, hns⟩ := hns
  obtain ⟨hpos, -, horder⟩ := h.table ns t hns
  obtain ⟨heap', table', hput, hresult⟩ :=
    htblPut_spec horder.inv horder.load 0 c.heap key v
  refine ⟨{ c with heap := heap', tables := Function.update c.tables t table' }, ?_,
    rfl, rfl, rfl, fun ns' key' v' => ?_, ⟨ns, t, hns, hresult.keeps⟩, fun ns' t' hns' => ?_,
    fun t' => ?_⟩
  · unfold configSetCommon
    rw [h.htblGet_namespaces hns, orHang_some, ok_bind,
      require_of "NULL table" (Nat.ne_of_gt hpos), ok_bind]
    change (orHang (htblPut (0 + 2) c.heap (c.tables t) key v) >>= _) = _
    rw [hput]
    rfl
  · constructor
    · intro ⟨t', hns', hmaps⟩
      by_cases ht : t' = t
      · subst ht
        obtain rfl := h.table_inj ns' ns t' hns' hns
        simp only [Function.update_self] at hmaps
        rcases (hresult.maps key' v').mp hmaps with ⟨rfl, rfl⟩ | ⟨hne, hold⟩
        · exact Or.inl ⟨rfl, rfl, rfl⟩
        · exact Or.inr ⟨fun heq => hne heq.2, t', hns', hold⟩
      · simp only [Function.update_of_ne ht] at hmaps
        refine Or.inr ⟨fun heq => ht ?_, t', hns', hmaps⟩
        rw [heq.1] at hns'
        exact h.namespaces.inv.maps_unique hns' hns
    · intro hcase
      rcases hcase with ⟨rfl, rfl, rfl⟩ | ⟨hne, t', hns', hmaps⟩
      · refine ⟨t, hns, ?_⟩
        simp only [Function.update_self]
        exact (hresult.maps key' v').mpr (Or.inl ⟨rfl, rfl⟩)
      · refine ⟨t', hns', ?_⟩
        by_cases ht : t' = t
        · subst ht
          obtain rfl := h.table_inj ns' ns t' hns' hns
          simp only [Function.update_self]
          exact (hresult.maps key' v').mpr (Or.inr ⟨fun heq => hne ⟨rfl, heq⟩, hmaps⟩)
        · simp only [Function.update_of_ne ht]
          exact hmaps
  · by_cases ht : t' = t
    · subst ht
      simp only [Function.update_self]
      exact ⟨hresult.inv, hresult.load⟩
    · simp only [Function.update_of_ne ht]
      exact ⟨(h.table ns' t' hns').2.2.inv, (h.table ns' t' hns').2.2.load⟩
  · by_cases ht : t' = t
    · subst ht
      simp only [Function.update_self]
      exact hresult.entriesBlock
    · have hsame : Function.update c.tables t table' t' = c.tables t' :=
        Function.update_of_ne ht _ _
      exact Or.inl (congrArg Htbl.entriesBlock hsame)

/-- In an unregistered one it fails an assertion of `htbl_put`. -/
theorem Linked.configSetCommon_unregistered (h : Linked bound c) (hns : ¬ c.Registered ns)
    (key : Key) (v : Nat) : configSetCommon c ns key v = .error (.assert "NULL table") := by
  rcases h.namespaces.inv.htblGet_eq h.namespaces.length_lt ns with ⟨t, -, hmaps⟩ | ⟨hget, -⟩
  · exact absurd ⟨t, hmaps⟩ hns
  · unfold configSetCommon
    rw [hget]
    rfl

namespace SetCommon

theorem registered_iff (h : SetCommon c ns key v c') (ns' : Key) :
    c'.Registered ns' ↔ c.Registered ns' := by
  unfold Config.Registered
  rw [h.namespaces]

theorem next_le (h : SetCommon c ns key v c') : c.heap.next ≤ c'.heap.next := by
  obtain ⟨_, _, _, hkeeps⟩ := h.keeps
  exact hkeeps.next_le

theorem hasCopy (h : SetCommon c ns key v c') (ns' key' : Key) (s : Nat) :
    c'.HasCopy ns' key' s ↔ (ns' = ns ∧ key' = key ∧ c.values v = .str s) ∨
      (¬ (ns' = ns ∧ key' = key) ∧ c.HasCopy ns' key' s) := by
  unfold Config.HasCopy
  simp only [h.hasValue, h.values]
  constructor
  · rintro ⟨w, ⟨rfl, rfl, rfl⟩ | ⟨hne, hold⟩, hs⟩
    · exact Or.inl ⟨rfl, rfl, hs⟩
    · exact Or.inr ⟨hne, w, hold, hs⟩
  · rintro (⟨rfl, rfl, hs⟩ | ⟨hne, w, hold, hs⟩)
    · exact ⟨v, Or.inl ⟨rfl, rfl, rfl⟩, hs⟩
    · exact ⟨w, Or.inr ⟨hne, hold⟩, hs⟩

/-- The store is linked again, if the value and its copy are blocks of the heap. -/
theorem linked (h : SetCommon c ns key v c') (hl : Linked bound c)
    (hv : 0 < v ∧ v < c.heap.next)
    (hcopy : ∀ s, c.values v = .str s → 0 < s ∧ s < c.heap.next) :
    Linked c'.heap.next c' := by
  have hle := h.next_le
  have hbound := hl.bound_le
  refine ⟨by omega, Nat.le_refl _, ?_, fun ns' t hns' => ?_, ?_, fun ns' key' v' hv' => ?_,
    fun ns' key' s hs => ?_⟩
  · rw [h.namespaces]
    exact hl.namespaces.mono (by omega)
  · rw [h.namespaces] at hns'
    obtain ⟨hpos, hlt, horder⟩ := hl.table ns' t hns'
    obtain ⟨hinv, hload⟩ := h.inOrder ns' t hns'
    have hold := horder.entriesBlock_lt
    refine ⟨hpos, by omega, hinv, hload, ?_⟩
    rcases h.entriesBlock t with heq | ⟨-, hlt'⟩
    · omega
    · exact hlt'
  · rw [h.namespaces]
    exact hl.table_inj
  · rcases (h.hasValue ns' key' v').mp hv' with ⟨-, -, rfl⟩ | ⟨-, hold⟩
    · omega
    · have := hl.value ns' key' v' hold
      omega
  · rcases (h.hasCopy ns' key' s).mp hs with ⟨-, -, hs⟩ | ⟨-, hold⟩
    · have := hcopy s hs
      omega
    · have := hl.copy ns' key' s hold
      omega

/-- The pair is set to the value, and all others are set as before. -/
theorem has_iff (h : SetCommon c ns key v c') (ns' key' : Key) (y : Setting) :
    c'.Has ns' key' y ↔ (ns' = ns ∧ key' = key ∧ y = c.setting (c.values v)) ∨
      (¬ (ns' = ns ∧ key' = key) ∧ c.Has ns' key' y) := by
  have hsetting : ∀ w, c'.setting w = c.setting w := by
    intro w
    unfold Config.setting
    rw [h.strings]
  unfold Config.Has
  simp only [h.hasValue, h.values, hsetting]
  constructor
  · rintro ⟨w, ⟨rfl, rfl, rfl⟩ | ⟨hne, hold⟩, rfl⟩
    · exact Or.inl ⟨rfl, rfl, rfl⟩
    · exact Or.inr ⟨hne, w, hold, rfl⟩
  · rintro (⟨rfl, rfl, rfl⟩ | ⟨hne, w, hold, rfl⟩)
    · exact ⟨v, Or.inl ⟨rfl, rfl, rfl⟩, rfl⟩
    · exact ⟨w, Or.inr ⟨hne, hold⟩, rfl⟩

/-- All copies are owned, if those of the other pairs were and the new one is a
new block. -/
theorem owned (h : SetCommon c ns key v c') (hl : Linked bound c)
    (ho : OwnedOn (fun ns' key' => ¬ (ns' = ns ∧ key' = key)) c)
    (hcopy : ∀ s, c.values v = .str s → s ∈ c.heap.live ∧ bound ≤ s ∧ s < c.heap.next) :
    Owned c' := by
  have hbound := hl.bound_le
  obtain ⟨ns₀, t₀, hns₀, hkeeps⟩ := h.keeps
  have harray₀ := (hl.table ns₀ t₀ hns₀).2.2.entriesBlock_lt
  refine ⟨fun ns' key' s _ hs => ?_, fun ns' key' s _ hs => ?_,
    fun ns₁ key₁ ns₂ key₂ s _ _ hs₁ hs₂ => ?_⟩
  · rcases (h.hasCopy ns' key' s).mp hs with ⟨-, -, hs⟩ | ⟨hne, hold⟩
    · obtain ⟨hlive, hge, -⟩ := hcopy s hs
      exact hkeeps.live s hlive (by rw [List.mem_singleton]; omega)
    · refine hkeeps.live s (ho.live ns' key' s hne hold) ?_
      rw [List.mem_singleton]
      exact (ho.array ns' key' s hne hold).2 ns₀ t₀ hns₀
  · rw [h.namespaces]
    have harray := hl.namespaces.entriesBlock_lt
    rcases (h.hasCopy ns' key' s).mp hs with ⟨-, -, hs⟩ | ⟨hne, hold⟩
    · obtain ⟨-, hge, hlt⟩ := hcopy s hs
      refine ⟨by omega, fun ns₁ t hns₁ => ?_⟩
      have hold := (hl.table ns₁ t hns₁).2.2.entriesBlock_lt
      have hnew := h.entriesBlock t
      omega
    · have hlt := hl.copy ns' key' s hold
      obtain ⟨hns', htables⟩ := ho.array ns' key' s hne hold
      refine ⟨hns', fun ns₁ t hns₁ => ?_⟩
      have hold' := htables ns₁ t hns₁
      have hnew := h.entriesBlock t
      omega
  · rcases (h.hasCopy ns₁ key₁ s).mp hs₁ with ⟨rfl, rfl, hs₁⟩ | ⟨hne₁, hold₁⟩ <;>
      rcases (h.hasCopy ns₂ key₂ s).mp hs₂ with ⟨rfl, rfl, hs₂⟩ | ⟨hne₂, hold₂⟩
    · exact ⟨rfl, rfl⟩
    · have := hl.copy ns₂ key₂ s hold₂
      have := hcopy s hs₁
      omega
    · have := hl.copy ns₁ key₁ s hold₁
      have := hcopy s hs₂
      omega
    · exact ho.inj ns₁ key₁ ns₂ key₂ s hne₁ hne₂ hold₁ hold₂

end SetCommon

end Put

/-! ## The setters -/

section Set

variable {bound : Nat} {c c' : Config} {ns key : Key} {x : Setting}

/-- What a setter leaves when it sets a pair to `x`. -/
structure SetResult (c : Config) (ns key : Key) (x : Setting) (c' : Config) : Prop where
  linked : Linked c'.heap.next c'
  owned : Owned c'
  next_le : c.heap.next ≤ c'.heap.next
  registered : ∀ ns', c'.Registered ns' ↔ c.Registered ns'
  has : ∀ ns' key' y, c'.Has ns' key' y ↔
    (ns' = ns ∧ key' = key ∧ y = x) ∨ (¬ (ns' = ns ∧ key' = key) ∧ c.Has ns' key' y)

/-- A setter frees no block from `bound` on, and points to none that was there. -/
structure SetBlocks (bound : Nat) (c c' : Config) : Prop where
  keeps : ∀ b ∈ c.heap.live, bound ≤ b → b ∈ c'.heap.live
  copy : ∀ ns key s, c'.HasCopy ns key s → s < bound ∨ c.heap.next ≤ s

/-- What a put of a new block leaves, seen from the store before the block was
made. -/
theorem SetCommon.setResult {c₁ : Config} {v : Nat} {freed : List Nat}
    (h : SetCommon c₁ ns key v c') (hl : Linked bound c) (hext : Extends bound c c₁)
    (ho : OwnedOn (fun ns' key' => ¬ (ns' = ns ∧ key' = key)) c₁)
    (hkeeps : c.heap.Keeps freed c₁.heap) (hfreed : ∀ s ∈ freed, s < bound)
    (hv : bound ≤ v ∧ v < c₁.heap.next)
    (hcopy : ∀ s, c₁.values v = .str s →
      s ∈ c₁.heap.live ∧ c.heap.next ≤ s ∧ s < c₁.heap.next) :
    SetResult c ns key (c₁.setting (c₁.values v)) c' ∧ SetBlocks bound c c' := by
  have hpos := hl.bound_pos
  have hbound := hl.bound_le
  have hl₁ := hext.linked hl
  refine ⟨⟨h.linked hl₁ (by omega) fun s hs => ?_, h.owned hl₁ ho fun s hs => ?_,
    Nat.le_trans hext.next_le h.next_le, fun ns' => ?_, fun ns' key' y => ?_⟩,
    ⟨fun b hb hge => ?_, fun ns' key' s hs => ?_⟩⟩
  · have := hcopy s hs
    omega
  · obtain ⟨hlive, hge, hlt⟩ := hcopy s hs
    exact ⟨hlive, by omega, hlt⟩
  · rw [h.registered_iff]
    unfold Config.Registered
    rw [hext.namespaces]
  · rw [h.has_iff, hext.has_iff hl]
  · obtain ⟨ns₀, t₀, hns₀, hput⟩ := h.keeps
    have harray₀ := (hl₁.table ns₀ t₀ hns₀).2.2.entriesBlock_lt
    have hb₁ := hkeeps.live b hb fun hf => Nat.not_lt.mpr hge (hfreed b hf)
    exact hput.live b hb₁ (by rw [List.mem_singleton]; omega)
  · rcases (h.hasCopy ns' key' s).mp hs with ⟨-, -, hs⟩ | ⟨-, hold⟩
    · exact Or.inr (hcopy s hs).2.1
    · exact Or.inl (hl₁.copy ns' key' s hold).2

theorem Extends.registered_iff {c₁ : Config} (h : Extends bound c c₁) :
    c₁.Registered ns ↔ c.Registered ns := by
  unfold Config.Registered
  rw [h.namespaces]

/-- The state in which `configSetValue` puts its new block. -/
theorem extends_newValue (hl : Linked bound c) (value : ConfigValue) :
    Extends bound c { c with
      heap := c.heap.kalloc.2, values := Function.update c.values c.heap.next value } where
  next_le := Nat.le_succ _
  namespaces := rfl
  tables := rfl
  values b hb := Function.update_of_ne (by have := hl.bound_le; omega) _ _
  strings _ _ := rfl

/-- `config_setobjns` and `config_setintns` set the pair to the value. -/
theorem configSetValue_spec (value : ConfigValue) (hl : Linked bound c) (ho : Owned c)
    (hns : c.Registered ns) (key : Key) (hvalue : ∀ s, value ≠ .str s) :
    ∃ c', configSetValue c ns key value = .ok c' ∧
      SetResult c ns key (c.setting value) c' ∧ SetBlocks bound c c' := by
  have hext := extends_newValue hl value
  have hself : Function.update c.values c.heap.next value c.heap.next = value :=
    Function.update_self ..
  obtain ⟨c', hset, hresult⟩ := (hext.linked hl).configSetCommon_spec
    (hext.registered_iff.mpr hns) key c.heap.next
  refine ⟨c', hset, ?_⟩
  have hsetting := hresult.setResult hl hext
    (hext.ownedOn hl (ho.mono fun _ _ _ => trivial) LiveBlocks.kalloc_keeps
      fun _ _ _ _ _ => List.not_mem_nil)
    LiveBlocks.kalloc_keeps (fun _ hs => absurd hs List.not_mem_nil)
    ⟨hl.bound_le, Nat.lt_succ_self _⟩
    (fun s hs => absurd (hself.symm.trans hs) (hvalue s))
  have heq : c.setting (Function.update c.values c.heap.next value c.heap.next) =
      c.setting value := by rw [hself]
  exact heq ▸ hsetting

/-- Whatever it sets, a setter that returns leaves a linked store with the same
namespaces. -/
theorem configSetCommon_keeps {c₁ : Config} {v : Nat} (hl : Linked bound c)
    (hext : Extends bound c c₁) (hv : bound ≤ v ∧ v < c₁.heap.next)
    (hcopy : ∀ s, c₁.values v = .str s → bound ≤ s ∧ s < c₁.heap.next)
    (h : configSetCommon c₁ ns key v = .ok c') :
    Linked c'.heap.next c' ∧ c.heap.next ≤ c'.heap.next ∧
      ∀ ns', c'.Registered ns' ↔ c.Registered ns' := by
  have hpos := hl.bound_pos
  have hl₁ := hext.linked hl
  by_cases hns : c₁.Registered ns
  · obtain ⟨c₂, hset, hresult⟩ := hl₁.configSetCommon_spec hns key v
    rw [hset] at h
    cases h
    refine ⟨hresult.linked hl₁ (by omega) fun s hs => ?_,
      Nat.le_trans hext.next_le hresult.next_le, fun ns' => ?_⟩
    · have := hcopy s hs
      omega
    · rw [hresult.registered_iff, hext.registered_iff]
  · rw [hl₁.configSetCommon_unregistered hns] at h
    cases h

/-- The copy that `config_setstrns` frees is the one of the pair. -/
theorem Linked.oldCopy_iff (hl : Linked bound c) (hns : c.Registered ns) (key : Key) :
    ∃ old, configGetCommon c ns key = .ok old ∧
      ∀ s, c.oldCopy old = some s ↔ c.HasCopy ns key s := by
  have holdCopy : ∀ v s, v ≠ 0 → (c.oldCopy v = some s ↔ c.values v = .str s) := by
    intro v s hv
    unfold Config.oldCopy
    rw [if_neg hv]
    cases c.values v <;> simp
  rcases hl.configGetCommon_eq hns key with ⟨v, hget, hne, hval⟩ | ⟨hget, hnot⟩
  · refine ⟨v, hget, fun s => (holdCopy v s hne).trans ⟨fun hs => ⟨v, hval, hs⟩, ?_⟩⟩
    intro ⟨v', hval', hs⟩
    rw [hl.hasValue_unique hval hval']
    exact hs
  · refine ⟨0, hget, fun s => iff_of_false (by simp [Config.oldCopy]) ?_⟩
    intro ⟨v, hval, _⟩
    exact hnot v hval

/-- The state in which `config_setstrns` puts its new block: the value and the copy
it points to are made. -/
def Config.newCopy (c : Config) (heap : LiveBlocks) (text : Key) : Config :=
  { c with
    heap := heap.kalloc.2.kalloc.2
    values := Function.update c.values heap.next (.str (heap.next + 1))
    strings := Function.update c.strings (heap.next + 1) text }

@[simp] theorem Config.newCopy_values (heap : LiveBlocks) (text : Key) :
    (c.newCopy heap text).values heap.next = .str (heap.next + 1) :=
  Function.update_self ..

@[simp] theorem Config.newCopy_strings (heap : LiveBlocks) (text : Key) :
    (c.newCopy heap text).strings (heap.next + 1) = text :=
  Function.update_self ..

theorem extends_newCopy (hl : Linked bound c) {heap₁ : LiveBlocks}
    (hnext : heap₁.next = c.heap.next) (text : Key) :
    Extends bound c (c.newCopy heap₁ text) where
  next_le := by
    change c.heap.next ≤ heap₁.next + 1 + 1
    omega
  namespaces := rfl
  tables := rfl
  values b hb := Function.update_of_ne (by have := hl.bound_le; omega) _ _
  strings b hb := Function.update_of_ne (by have := hl.bound_le; omega) _ _

/-- `config_setstrns` behind the lookup and the `kfree`. -/
theorem configSetstrns_eq {nsArg keyArg value : StrArg} {stale : Stale} {old : Nat}
    {heap₁ : LiveBlocks} (hget : configGetCommon c (c.text nsArg) (c.text keyArg) = .ok old)
    (hfree : freeCopy c.heap (c.oldCopy old) = .ok heap₁) :
    configSetstrns c nsArg keyArg value stale =
      configSetCommon (c.newCopy heap₁ (c.textAfter (c.oldCopy old) stale.value value))
        (c.textAfter (c.oldCopy old) stale.ns nsArg)
        (c.textAfter (c.oldCopy old) stale.key keyArg) heap₁.next := by
  unfold configSetstrns
  rw [hget, ok_bind]
  change (freeCopy c.heap (c.oldCopy old) >>= _) = _
  rw [hfree]
  rfl

theorem freeCopy_ok {heap heap₁ : LiveBlocks} {freed : Option Nat}
    (h : freeCopy heap freed = .ok heap₁) :
    heap₁.next = heap.next ∧ heap.Keeps freed.toList heap₁ := by
  cases freed with
  | none =>
    cases h
    exact ⟨rfl, LiveBlocks.Keeps.refl⟩
  | some sval =>
    obtain ⟨_, -, h⟩ := bind_eq_ok h
    obtain ⟨_, -, h⟩ := bind_eq_ok h
    cases h
    exact ⟨rfl, LiveBlocks.kfree_keeps⟩

/-- An argument that is not the copy that was freed reads as before. -/
theorem Config.textAfter_eq {freed : Option Nat} (stale : Key) {arg : StrArg}
    (h : ∀ block, freed = some block → arg ≠ .stored block) :
    c.textAfter freed stale arg = c.text arg := by
  unfold textAfter
  cases freed with
  | none => rfl
  | some block => exact if_neg (h block rfl)

/-- No argument is the copy that the call frees. -/
def Config.Fresh (c : Config) (ns key : Key) (arg : StrArg) : Prop :=
  ∀ block, arg = .stored block → ¬ c.HasCopy ns key block

theorem fresh_own (c : Config) (ns key text : Key) : c.Fresh ns key (.own text) :=
  fun _ h => by cases h

/-- Once the old copy is freed, `config_setstrns` puts a new value that points to a new
copy. -/
theorem configSetstrns_setCommon (hl : Linked bound c) (nsArg keyArg value : StrArg)
    (stale : Stale) (hns : c.Registered (c.text nsArg))
    (hnsArg : c.Fresh (c.text nsArg) (c.text keyArg) nsArg)
    (hkeyArg : c.Fresh (c.text nsArg) (c.text keyArg) keyArg) {freed : Option Nat}
    (hfreed : ∀ s, freed = some s ↔ c.HasCopy (c.text nsArg) (c.text keyArg) s)
    {heap₁ : LiveBlocks} (hfree : freeCopy c.heap freed = .ok heap₁) :
    ∃ c', configSetstrns c nsArg keyArg value stale = .ok c' ∧
      SetCommon (c.newCopy heap₁ (c.textAfter freed stale.value value)) (c.text nsArg)
        (c.text keyArg) heap₁.next c' := by
  obtain ⟨old, hget, hold⟩ := hl.oldCopy_iff hns (c.text keyArg)
  obtain rfl : c.oldCopy old = freed := Option.ext fun s => (hold s).trans (hfreed s).symm
  have htext : ∀ (stale : Key) (arg : StrArg), c.Fresh (c.text nsArg) (c.text keyArg) arg →
      c.textAfter (c.oldCopy old) stale arg = c.text arg := fun stale arg hfresh =>
    Config.textAfter_eq stale fun block hblock harg => hfresh block harg ((hold block).mp hblock)
  have hext := extends_newCopy hl (freeCopy_ok hfree).1
    (c.textAfter (c.oldCopy old) stale.value value)
  rw [configSetstrns_eq hget hfree, htext stale.ns nsArg hnsArg, htext stale.key keyArg hkeyArg]
  exact (hext.linked hl).configSetCommon_spec (hext.registered_iff.mpr hns) (c.text keyArg)
    heap₁.next

/-- `config_setstrns` sets the pair that its arguments name to a string; to the
string that was passed, unless that is the copy it frees. -/
theorem configSetstrns_spec (hl : Linked bound c) (ho : Owned c)
    (nsArg keyArg value : StrArg) (stale : Stale) (hns : c.Registered (c.text nsArg))
    (hnsArg : c.Fresh (c.text nsArg) (c.text keyArg) nsArg)
    (hkeyArg : c.Fresh (c.text nsArg) (c.text keyArg) keyArg) :
    ∃ c' text, configSetstrns c nsArg keyArg value stale = .ok c' ∧
      SetResult c (c.text nsArg) (c.text keyArg) (.str text) c' ∧ SetBlocks bound c c' ∧
      (c.Fresh (c.text nsArg) (c.text keyArg) value → text = c.text value) := by
  obtain ⟨old, -, hold⟩ := hl.oldCopy_iff hns (c.text keyArg)
  -- the copy that is freed is live
  obtain ⟨heap₁, hfree⟩ : ∃ heap₁, freeCopy c.heap (c.oldCopy old) = .ok heap₁ := by
    cases hcopy : c.oldCopy old with
    | none => exact ⟨c.heap, rfl⟩
    | some s =>
      have hs := (hold s).mp hcopy
      exact ⟨_, LiveBlocks.kfreeChecked_eq_ok (Nat.ne_of_gt (hl.copy _ _ s hs).1)
        (ho.live _ _ s trivial hs)⟩
  obtain ⟨c', hset, hresult⟩ :=
    configSetstrns_setCommon hl nsArg keyArg value stale hns hnsArg hkeyArg hold hfree
  obtain ⟨hnext, hkeeps⟩ := freeCopy_ok hfree
  have hkeeps₁ : c.heap.Keeps (c.oldCopy old).toList heap₁.kalloc.2.kalloc.2 := by
    simpa using hkeeps.trans (LiveBlocks.kalloc_keeps.trans LiveBlocks.kalloc_keeps)
  have hbound := hl.bound_le
  have hext := extends_newCopy hl hnext (c.textAfter (c.oldCopy old) stale.value value)
  refine ⟨c', c.textAfter (c.oldCopy old) stale.value value, hset,
    and_assoc.mp ⟨?_, fun hfresh => Config.textAfter_eq stale.value fun block hblock harg =>
      hfresh block harg ((hold block).mp hblock)⟩⟩
  -- the copies of the other pairs are not the one that is freed
  have hfreed : ∀ ns' key' s, ¬ (ns' = c.text nsArg ∧ key' = c.text keyArg) →
      c.HasCopy ns' key' s → s ∉ (c.oldCopy old).toList := by
    intro ns' key' s hne hs hmem
    rw [Option.mem_toList] at hmem
    exact hne (ho.inj ns' key' _ _ s trivial trivial hs ((hold s).mp hmem))
  have hsetting := hresult.setResult hl hext
    (hext.ownedOn hl (ho.mono fun _ _ _ => trivial) hkeeps₁ hfreed) hkeeps₁
    (fun s hs => by
      rw [Option.mem_toList] at hs
      exact (hl.copy _ _ s ((hold s).mp hs)).2)
    ⟨by omega, by change heap₁.next < heap₁.next + 1 + 1; omega⟩
    (fun s hs => by
      rw [Config.newCopy_values, ConfigValue.str.injEq] at hs
      subst hs
      exact ⟨List.mem_cons_self, by omega, Nat.lt_succ_self _⟩)
  rw [Config.newCopy_values] at hsetting
  change SetResult c _ _ (.str (Config.strings _ (heap₁.next + 1))) c' ∧ _ at hsetting
  rw [Config.newCopy_strings] at hsetting
  exact hsetting

/-- In an unregistered namespace a setter fails an assertion. -/
theorem configSetstrns_unregistered (hl : Linked bound c) {nsArg keyArg value : StrArg}
    {stale : Stale} (hns : ¬ c.Registered (c.text nsArg)) :
    configSetstrns c nsArg keyArg value stale = .error (.assert "NULL table") := by
  unfold configSetstrns
  rw [hl.configGetCommon_unregistered hns]
  rfl

theorem configSetValue_unregistered (hl : Linked bound c) {value : ConfigValue}
    (hns : ¬ c.Registered ns) :
    configSetValue c ns key value = .error (.assert "NULL table") := by
  have hext := extends_newValue hl value
  exact (hext.linked hl).configSetCommon_unregistered
    (fun h => hns (hext.registered_iff.mp h)) key c.heap.next

end Set

end Microboot.Kern
