/-
  Kern/ConfigRun.lean --- runs of the configuration store.

  A run starts at `config_init` and mixes registrations, setters and getters of
  both forms in any order.  The string arguments of `config_setstrns` may be
  copies of the store's own; the operations are over the type of these arguments.

  In a run whose steps are `FreshStep` (no namespace that holds a key is registered
  again, and no call frees the copy that names its own pair) an operation changes
  what one pair is set to, at most, and only a setter of that pair does.
-/
import Mathlib.Tactic.Push
import Microboot.Foundation.Run
import Microboot.Kern.ConfigPaths

set_option autoImplicit false

namespace Microboot.Kern

open Microboot.Foundation

/-! ## Operations and runs -/

/-- The getters, of either form. -/
inductive Getter where
  | existence | gettype | getint | getobj | getstr
  deriving DecidableEq, Repr

/-- A call of the store; `α` is the type of the string arguments that a setter
may be given from the store itself. -/
inductive ConfigOp (α : Type) where
  | newns (name : Key)
  | setstrns (ns key value : α) (stale : Stale)
  | setintns (ns key : Key) (value : Int32)
  | setobjns (ns key : Key) (value : Nat)
  | setstr (path : Key) (value : α) (stale : Key)
  | setint (path : Key) (value : Int32)
  | setobj (path : Key) (value : Nat)
  | getns (getter : Getter) (ns key : Key)
  | get (getter : Getter) (path : Key)

namespace Getter

/-- The ns form; only what it leaves of the store. -/
def execns (c : Config) (ns key : Key) : Getter → Except Fault Config
  | existence => (fun _ => c) <$> configExistsns c ns key
  | gettype => (fun _ => c) <$> configGettypens c ns key
  | getint => (fun _ => c) <$> configGetintns c ns key
  | getobj => (fun _ => c) <$> configGetobjns c ns key
  | getstr => (fun _ => c) <$> configGetstrns c ns key

/-- The path form. -/
def exec (c : Config) (path : Key) : Getter → Except Fault Config
  | existence => Prod.fst <$> configExists c path
  | gettype => Prod.fst <$> configGettype c path
  | getint => Prod.fst <$> configGetint c path
  | getobj => Prod.fst <$> configGetobj c path
  | getstr => Prod.fst <$> configGetstr c path

end Getter

/-- One call. -/
def configStep (c : Config) : ConfigOp StrArg → Except Fault Config
  | .newns name => configNewns c name
  | .setstrns ns key value stale => configSetstrns c ns key value stale
  | .setintns ns key value => configSetintns c ns key value
  | .setobjns ns key value => configSetobjns c ns key value
  | .setstr path value stale => configSetstr c path value stale
  | .setint path value => configSetint c path value
  | .setobj path value => configSetobj c path value
  | .getns getter ns key => getter.execns c ns key
  | .get getter path => getter.exec c path

/-- A sequence of calls. -/
def configRun (c : Config) (ops : List (ConfigOp StrArg)) : Except Fault Config :=
  ops.foldlM configStep c

theorem configRun_snoc {c c₁ c₂ : Config} {ops : List (ConfigOp StrArg)} {op : ConfigOp StrArg}
    (hrun : configRun c ops = .ok c₁) (hstep : configStep c₁ op = .ok c₂) :
    configRun c (ops ++ [op]) = .ok c₂ := by
  unfold configRun at hrun ⊢
  rw [List.foldlM_append, hrun, ok_bind, List.foldlM_cons, hstep]
  rfl

/-- The parts of a path. -/
def pathParts (path : Key) : Option (Key × Key) :=
  (configParseKey ⟨0, []⟩ path).map fun parsed => (parsed.2.ns, parsed.2.key)

namespace ConfigOp

variable {α β : Type}

def map (f : α → β) : ConfigOp α → ConfigOp β
  | newns name => newns name
  | setstrns ns key value stale => setstrns (f ns) (f key) (f value) stale
  | setintns ns key value => setintns ns key value
  | setobjns ns key value => setobjns ns key value
  | setstr path value stale => setstr path (f value) stale
  | setint path value => setint path value
  | setobj path value => setobj path value
  | getns getter ns key => getns getter ns key
  | get getter path => get getter path

/-- The namespace that is registered. -/
def newName : ConfigOp α → Option Key
  | newns name => some name
  | _ => none

/-- The pair that is set, and what it is set to. -/
def sets : ConfigOp Key → Option ((Key × Key) × Setting)
  | setstrns ns key value _ => some ((ns, key), .str value)
  | setintns ns key value => some ((ns, key), .int value)
  | setobjns ns key value => some ((ns, key), .obj value)
  | setstr path value _ => (pathParts path).map (·, .str value)
  | setint path value => (pathParts path).map (·, .int value)
  | setobj path value => (pathParts path).map (·, .obj value)
  | _ => none

/-- The pair that is set. -/
def target (op : ConfigOp Key) : Option (Key × Key) := op.sets.map Prod.fst

/-- The pair that is set or read. -/
def pair : ConfigOp Key → Option (Key × Key)
  | newns _ => none
  | setstrns ns key _ _ | setintns ns key _ | setobjns ns key _ | getns _ ns key => some (ns, key)
  | setstr path _ _ | setint path _ | setobj path _ | get _ path => pathParts path

@[simp] theorem newName_map (f : α → β) (op : ConfigOp α) : (op.map f).newName = op.newName := by
  cases op <;> rfl

end ConfigOp

/-- No namespace that holds a key is registered again, and the copy that
`config_setstrns` frees is not its own namespace or key argument. -/
def Config.FreshStep (c : Config) : ConfigOp StrArg → Prop
  | .newns name => ∀ key x, ¬ c.Has name key x
  | .setstrns ns key _ _ =>
    c.Fresh (c.text ns) (c.text key) ns ∧ c.Fresh (c.text ns) (c.text key) key
  | _ => True

theorem pathParts_none {path : Key} (h : 58 ∉ path.val) : pathParts path = none := by
  unfold pathParts
  rw [configParseKey_none h]
  rfl

theorem pathParts_path {ns : Key} (hns : 58 ∉ ns.val) (key : Key) :
    pathParts (configPath ns key) = some (ns, key) := by
  unfold pathParts
  rw [configParseKey_path hns]
  rfl

/-- A path with parts is the path of these. -/
theorem eq_configPath_of_pathParts {path : Key} {p : Key × Key} (h : pathParts path = some p) :
    58 ∉ p.1.val ∧ path = configPath p.1 p.2 := by
  rcases path_cases path with hpath | ⟨ns, key, hns, rfl⟩
  · rw [pathParts_none hpath] at h
    cases h
  · rw [pathParts_path hns] at h
    cases h
    exact ⟨hns, rfl⟩

/-! ## The effect of one call -/

section Step

variable {bound : Nat} {c c' : Config} {ns key path : Key} {x : Option Setting}

/-- All blocks of the store are blocks that the heap has handed out. -/
theorem Linked.mono (hl : Linked bound c) (hle : bound ≤ c.heap.next) :
    Linked c.heap.next c where
  bound_pos := Nat.lt_of_lt_of_le hl.bound_pos hle
  bound_le := Nat.le_refl _
  namespaces := hl.namespaces.mono hle
  table ns t hns := by
    obtain ⟨hpos, hlt, horder⟩ := hl.table ns t hns
    exact ⟨hpos, Nat.lt_of_lt_of_le hlt hle, horder.mono hle⟩
  table_inj := hl.table_inj
  value ns key v hv := by
    obtain ⟨hpos, hlt⟩ := hl.value ns key v hv
    exact ⟨hpos, Nat.lt_of_lt_of_le hlt hle⟩
  copy ns key s hs := by
    obtain ⟨hpos, hlt⟩ := hl.copy ns key s hs
    exact ⟨hpos, Nat.lt_of_lt_of_le hlt hle⟩

/-- The pair is set to `x`, or not set. -/
def Config.Shows (c : Config) (ns key : Key) (x : Option Setting) : Prop :=
  ∀ y, c.Has ns key y ↔ x = some y

/-- What the pair `p` is set to behind a setter. -/
def settingAfter (set : Option ((Key × Key) × Setting)) (p : Key × Key)
    (x : Option Setting) : Option Setting :=
  match set with
  | some (p', y) => if p' = p then some y else x
  | none => x

/-- What a call leaves that sets `set` and registers `name`. -/
structure StepResult (c : Config) (set : Option ((Key × Key) × Setting)) (name : Option Key)
    (c' : Config) : Prop where
  linked : Linked c'.heap.next c'
  owned : Owned c'
  registered : ∀ ns, c'.Registered ns ↔ name = some ns ∨ c.Registered ns
  shows : ∀ ns key x, c.Shows ns key x → c'.Shows ns key (settingAfter set (ns, key) x)

theorem Linked.exists_shows (hl : Linked bound c) (ns key : Key) : ∃ x, c.Shows ns key x := by
  by_cases hns : c.Registered ns
  · obtain ⟨x, -, hx⟩ := hl.exists_reads hns key
    exact ⟨x, hx⟩
  · refine ⟨none, fun y => iff_of_false (fun ⟨v, hv, _⟩ => ?_) (by simp)⟩
    exact hns ⟨_, hv.choose_spec.1⟩

theorem Linked.reads_of_shows (hl : Linked bound c) (hns : c.Registered ns)
    (hx : c.Shows ns key x) : Reads c ns key x := by
  cases x with
  | none => exact hl.reads_none hns fun y hy => by simpa using (hx y).mp hy
  | some y => exact hl.reads_some ((hx y).mpr rfl)

/-- What the getters return says what the pair is set to. -/
theorem Reads.unique {y : Option Setting} (hx : Reads c ns key x) (hy : Reads c ns key y) :
    x = y := by
  have htype := hx.gettypens.symm.trans hy.gettypens
  have hint := hx.getintns.symm.trans hy.getintns
  have hobj := hx.getobjns.symm.trans hy.getobjns
  obtain ⟨p, hp, htext⟩ := hx.getstrns
  obtain ⟨p', hp', htext'⟩ := hy.getstrns
  obtain rfl : p = p' := Except.ok.inj (hp.symm.trans hp')
  rcases x with _ | (_ | _ | _) <;> rcases y with _ | (_ | _ | _) <;>
    simp_all [settingType, settingInt, settingObj, settingText, Config.PointsTo]

theorem Reads.registered (hl : Linked bound c) (h : Reads c ns key x) : c.Registered ns := by
  by_contra hns
  have hget := h.existsns
  unfold configExistsns configGetValue at hget
  rw [hl.configGetCommon_unregistered hns] at hget
  cases hget

theorem Linked.reads_iff (hl : Linked bound c) :
    Reads c ns key x ↔ c.Registered ns ∧ c.Shows ns key x := by
  constructor
  · intro h
    have hns := h.registered hl
    obtain ⟨y, hy, hshows⟩ := hl.exists_reads hns key
    obtain rfl := h.unique hy
    exact ⟨hns, hshows⟩
  · intro ⟨hns, hshows⟩
    exact hl.reads_of_shows hns hshows

theorem StepResult.unchanged (hl : Linked c.heap.next c) (ho : Owned c) :
    StepResult c none none c :=
  ⟨hl, ho, fun _ => by simp, fun _ _ _ hx => hx⟩

theorem SetResult.stepResult {y : Setting} (h : SetResult c ns key y c') :
    StepResult c (some ((ns, key), y)) none c' where
  linked := h.linked
  owned := h.owned
  registered ns' := by simpa using h.registered ns'
  shows ns' key' x hx z := by
    rw [h.has, hx]
    by_cases heq : ns' = ns ∧ key' = key
    · obtain ⟨rfl, rfl⟩ := heq
      simp [settingAfter, eq_comm]
    · have hne : (ns, key) ≠ (ns', key') := by
        rw [Ne, Prod.mk.injEq]
        exact fun h => heq ⟨h.1.symm, h.2.symm⟩
      rw [show settingAfter (some ((ns, key), y)) (ns', key') x = x from if_neg hne]
      exact ⟨fun h => (h.resolve_left fun h => heq ⟨h.1, h.2.1⟩).2, fun h => Or.inr ⟨heq, h⟩⟩

/-- Registering a namespace that holds no key. -/
theorem NewnsResult.stepResult {name : Key} (h : NewnsResult c name c') (ho : Owned c)
    (hnew : ∀ key x, ¬ c.Has name key x) : StepResult c none (some name) c' where
  linked := h.linked
  owned := h.owned ho
  registered ns' := by
    rw [h.registered, Option.some.injEq]
    exact or_congr_left eq_comm
  shows ns' key' x hx z := by
    change _ ↔ x = some z
    rw [h.has, ← hx z]
    refine and_iff_right_of_imp fun hz hns => ?_
    subst hns
    exact hnew key' z hz

/-- A store that differs only in blocks that nothing points to. -/
theorem Extends.stepResult (h : Extends bound c c') (hl : Linked bound c) (ho : Owned c)
    (hkeeps : c.heap.Keeps [] c'.heap) : StepResult c none none c' where
  linked := (h.linked hl).mono (Nat.le_trans hl.bound_le h.next_le)
  owned := h.ownedOn hl ho hkeeps fun _ _ _ _ _ => List.not_mem_nil
  registered ns := by simpa using h.registered_iff
  shows ns key x hx y := (h.has_iff hl).trans (hx y)

/-! ## Calls that return -/

/-- Freeing a block leaves a linked store linked. -/
theorem Linked.kfreeChecked (hl : Linked c.heap.next c) {block : Nat} {heap : LiveBlocks}
    (h : c.heap.kfreeChecked block = .ok heap) : Linked heap.next { c with heap := heap } := by
  have hfree : freeCopy c.heap (some block) = .ok heap := h
  have hnext := (freeCopy_ok hfree).1
  have hext : Extends c.heap.next c { c with heap := heap } :=
    ⟨Nat.le_of_eq hnext.symm, rfl, rfl, fun _ _ => rfl, fun _ _ => rfl⟩
  rw [hnext]
  exact hext.linked hl

/-- The path form leaves a linked store if the ns form does. -/
theorem withPath_linked {α : Type} {absent ret : α}
    {call : Config → Key → Key → Except Fault (Config × α)} (hl : Linked c.heap.next c)
    (hcall : ∀ ns key r, call c.parsing ns key = .ok r → Linked r.1.heap.next r.1)
    (h : withPath c path absent call = .ok (c', ret)) : Linked c'.heap.next c' := by
  rcases path_cases path with hpath | ⟨ns, key, hns, rfl⟩
  · rw [withPath_none hpath] at h
    cases h
    exact hl
  · rw [withPath_path (Nat.ne_of_gt hl.bound_pos) hns] at h
    obtain ⟨⟨c₁, ret⟩, hok, h⟩ := bind_eq_ok h
    obtain ⟨heap₁, hfree₁, h⟩ := bind_eq_ok h
    obtain ⟨heap₂, hfree₂, h⟩ := bind_eq_ok h
    cases h
    have hl₁ := (hcall ns key _ hok).kfreeChecked hfree₁
    exact Linked.kfreeChecked (c := { c₁ with heap := heap₁ }) hl₁ hfree₂

theorem setWithPath_linked {call : Config → Key → Key → Except Fault Config}
    (hl : Linked c.heap.next c)
    (hcall : ∀ ns key c₁, call c.parsing ns key = .ok c₁ → Linked c₁.heap.next c₁)
    (h : setWithPath c path call = .ok c') : Linked c'.heap.next c' := by
  obtain ⟨⟨c₂, _⟩, hwith, rfl⟩ := map_eq_ok h
  refine withPath_linked hl (fun ns key r hr => ?_) hwith
  obtain ⟨c₁, hset, rfl⟩ := map_eq_ok hr
  exact hcall ns key c₁ hset

theorem getWithPath_linked {α : Type} {absent ret : α}
    {call : Config → Key → Key → Except Fault α} (hl : Linked c.heap.next c)
    (h : getWithPath c path absent call = .ok (c', ret)) : Linked c'.heap.next c' := by
  refine withPath_linked hl (fun ns key r hr => ?_) h
  obtain ⟨a, -, rfl⟩ := map_eq_ok hr
  have hext : Extends c.heap.next c c.parsing := extends_parsing
  exact (hext.linked hl).mono hext.next_le

theorem configSetValue_linked {value : ConfigValue} (hl : Linked bound c)
    (hvalue : ∀ s, value ≠ .str s) (h : configSetValue c ns key value = .ok c') :
    Linked c'.heap.next c' := by
  have hself : Function.update c.values c.heap.next value c.heap.next = value :=
    Function.update_self ..
  exact (configSetCommon_keeps hl (extends_newValue hl value)
    ⟨hl.bound_le, Nat.lt_succ_self _⟩ (fun s hs => absurd (hself.symm.trans hs) (hvalue s)) h).1

theorem configSetstrns_linked {nsArg keyArg value : StrArg} {stale : Stale}
    (hl : Linked bound c) (h : configSetstrns c nsArg keyArg value stale = .ok c') :
    Linked c'.heap.next c' := by
  have hbound := hl.bound_le
  obtain ⟨old, hget, hrest⟩ := bind_eq_ok h
  obtain ⟨heap₁, hfree, -⟩ := bind_eq_ok hrest
  rw [configSetstrns_eq hget hfree] at h
  have hnext := (freeCopy_ok hfree).1
  refine (configSetCommon_keeps hl (extends_newCopy hl hnext _)
    ⟨by omega, by change heap₁.next < heap₁.next + 1 + 1; omega⟩ (fun s hs => ?_) h).1
  rw [Config.newCopy_values, ConfigValue.str.injEq] at hs
  subst hs
  exact ⟨by omega, Nat.lt_succ_self _⟩

/-- Every call that returns leaves a linked store. -/
theorem configStep_linked {op : ConfigOp StrArg} (hl : Linked c.heap.next c)
    (h : configStep c op = .ok c') : Linked c'.heap.next c' := by
  have hparsing : Linked c.heap.next c.parsing :=
    (extends_parsing : Extends c.heap.next c c.parsing).linked hl
  cases op with
  | newns name =>
    obtain ⟨c₁, hnew, hresult⟩ := configNewns_spec hl name
    obtain rfl := Except.ok.inj (hnew.symm.trans h)
    exact hresult.linked
  | setstrns ns key value stale => exact configSetstrns_linked hl h
  | setintns ns key value => exact configSetValue_linked hl (by simp) h
  | setobjns ns key value => exact configSetValue_linked hl (by simp) h
  | setstr path value stale =>
    exact setWithPath_linked hl (fun _ _ _ => configSetstrns_linked hparsing) h
  | setint path value =>
    exact setWithPath_linked hl (fun _ _ _ => configSetValue_linked hparsing (by simp)) h
  | setobj path value =>
    exact setWithPath_linked hl (fun _ _ _ => configSetValue_linked hparsing (by simp)) h
  | getns getter ns key =>
    cases getter <;>
      obtain ⟨_, -, rfl⟩ := map_eq_ok h <;>
      exact hl
  | get getter path =>
    cases getter <;>
      obtain ⟨⟨c₁, _⟩, hget, rfl⟩ := map_eq_ok h <;>
      exact getWithPath_linked hl hget

/-! ## Calls on registered namespaces -/

/-- The value argument is not the copy that the call frees. -/
def Config.FreshValue (c : Config) : ConfigOp StrArg → Prop
  | .setstrns ns key value _ => c.Fresh (c.text ns) (c.text key) value
  | .setstr path value _ => ∀ p, pathParts path = some p → c.Fresh p.1 p.2 value
  | _ => True

/-- What a call leaves that does what its operation says; only the text of a
string that is set may differ, if the argument was the copy that was freed. -/
def OpResult (c : Config) (op : ConfigOp StrArg) (c' : Config) : Prop :=
  ∃ set, StepResult c set op.newName c' ∧ set.map Prod.fst = (op.map c.text).target ∧
    (c.FreshValue op → set = (op.map c.text).sets)

theorem Owned.parsing (ho : Owned c) (hl : Linked bound c) : Owned c.parsing :=
  extends_parsing.ownedOn hl ho (LiveBlocks.kalloc_keeps.trans LiveBlocks.kalloc_keeps)
    fun _ _ _ _ _ => List.not_mem_nil

/-- The path form of a setter; `P` says what it may set the pair to. -/
theorem setWithPath_result (call : Config → Key → Key → Except Fault Config)
    {P : Key → Key → Setting → Prop} (hl : Linked c.heap.next c) (ho : Owned c)
    (hreg : ∀ p, pathParts path = some p → c.Registered p.1)
    (hcall : ∀ ns key, pathParts path = some (ns, key) → c.parsing.Registered ns →
      ∃ c' value, call c.parsing ns key = .ok c' ∧ SetResult c.parsing ns key value c' ∧
        SetBlocks c.heap.next c.parsing c' ∧ P ns key value) :
    ∃ c' set, setWithPath c path call = .ok c' ∧ StepResult c set none c' ∧
      ((pathParts path = none ∧ set = none) ∨ ∃ ns key value, pathParts path = some (ns, key) ∧
        set = some ((ns, key), value) ∧ P ns key value) := by
  have hext : Extends c.heap.next c c.parsing := extends_parsing
  rcases path_cases path with hpath | ⟨ns, key, hns, rfl⟩
  · refine ⟨c, none, ?_, .unchanged hl ho, Or.inl ⟨pathParts_none hpath, rfl⟩⟩
    unfold setWithPath
    rw [withPath_none hpath]
    rfl
  · have hparts := pathParts_path hns key
    obtain ⟨c₁, value, hset, hresult, hblocks, hvalue⟩ :=
      hcall ns key hparts (hext.registered_iff.mpr (hreg _ hparts))
    obtain ⟨c', hset', hresult'⟩ := setWithPath_path call hl hns ⟨c₁, hset, hresult, hblocks⟩
    exact ⟨c', _, hset', hresult'.stepResult, Or.inr ⟨ns, key, value, hparts, rfl, hvalue⟩⟩

/-- The path forms of the setters that make no copy. -/
theorem setWithPath_value (value : ConfigValue) (hl : Linked c.heap.next c) (ho : Owned c)
    (hreg : ∀ p, pathParts path = some p → c.Registered p.1) (hvalue : ∀ s, value ≠ .str s) :
    ∃ c', (setWithPath c path fun c ns key => configSetValue c ns key value) = .ok c' ∧
      StepResult c ((pathParts path).map (·, c.setting value)) none c' := by
  have hext : Extends c.heap.next c c.parsing := extends_parsing
  have howned := ho.parsing hl
  obtain ⟨c', set, hset, hresult, hcase⟩ := setWithPath_result
    (fun c ns key => configSetValue c ns key value) (P := fun _ _ x => x = c.setting value)
    hl ho hreg fun ns key _ hns => by
      obtain ⟨c', hset, hresult⟩ := configSetValue_spec value (hext.linked hl) howned hns key hvalue
      exact ⟨c', _, hset, hresult.1, hresult.2, rfl⟩
  refine ⟨c', hset, ?_⟩
  rcases hcase with ⟨hparts, rfl⟩ | ⟨ns, key, x, hparts, rfl, rfl⟩ <;>
    · rw [hparts]
      exact hresult

/-- A getter's path form changes nothing. -/
theorem getWithPath_result {α : Type} {absent : α} {read : ConfigValue → α}
    (hl : Linked c.heap.next c) (ho : Owned c)
    (hreg : ∀ p, pathParts path = some p → c.Registered p.1) :
    ∃ c' ret, getWithPath c path absent
      (fun c ns key => configGetValue c ns key absent read) = .ok (c', ret) ∧
        StepResult c none none c' := by
  rcases path_cases path with hpath | ⟨ns, key, hns, rfl⟩
  · refine ⟨c, absent, ?_, .unchanged hl ho⟩
    unfold getWithPath
    rw [withPath_none hpath]
  · have hext : Extends c.heap.next c c.parsed :=
      ⟨Nat.le_add_right _ 2, rfl, rfl, fun _ _ => rfl, fun _ _ => rfl⟩
    obtain ⟨ret, hget⟩ := hl.configGetValue_ok (hreg _ (pathParts_path hns key)) key absent read
    refine ⟨c.parsed, ret, ?_, hext.stepResult hl ho ⟨hext.next_le, fun _ hb _ => hb⟩⟩
    rw [getWithPath_path (Nat.ne_of_gt hl.bound_pos) hns, hget]
    rfl

/-- A call on registered namespaces returns, and does what its operation says. -/
theorem configStep_spec {op : ConfigOp StrArg} (hl : Linked c.heap.next c) (ho : Owned c)
    (hfresh : c.FreshStep op)
    (hreg : ∀ p, (op.map c.text).pair = some p → c.Registered p.1) :
    ∃ c', configStep c op = .ok c' ∧ OpResult c op c' := by
  have hlp : Linked c.heap.next c.parsing := extends_parsing.linked hl
  have hop := ho.parsing hl
  cases op with
  | newns name =>
    obtain ⟨c', hnew, hresult⟩ := configNewns_spec hl name
    exact ⟨c', hnew, none, hresult.stepResult ho hfresh, rfl, fun _ => rfl⟩
  | setstrns ns key value stale =>
    obtain ⟨c', text, hset, hresult, -, htext⟩ :=
      configSetstrns_spec hl ho ns key value stale (hreg _ rfl) hfresh.1 hfresh.2
    refine ⟨c', hset, _, hresult.stepResult, rfl, fun hvalue => ?_⟩
    rw [htext hvalue]
    rfl
  | setintns ns key value =>
    obtain ⟨c', hset, hresult, -⟩ :=
      configSetValue_spec (.int value) hl ho (hreg _ rfl) key (by simp)
    exact ⟨c', hset, _, hresult.stepResult, rfl, fun _ => rfl⟩
  | setobjns ns key value =>
    obtain ⟨c', hset, hresult, -⟩ :=
      configSetValue_spec (.obj value) hl ho (hreg _ rfl) key (by simp)
    exact ⟨c', hset, _, hresult.stepResult, rfl, fun _ => rfl⟩
  | setstr path value stale =>
    have hext : Extends c.heap.next c c.parsing := extends_parsing
    obtain ⟨c', set, hset, hresult, hcase⟩ := setWithPath_result
      (fun c ns key => configSetstrns c (.own ns) (.own key) value ⟨ns, key, stale⟩)
      (P := fun ns key x => ∃ text, x = .str text ∧ (c.Fresh ns key value → text = c.text value))
      hl ho hreg fun ns key _ hns => by
        obtain ⟨c', text, hset, hresult, hblocks, htext⟩ := configSetstrns_spec hlp hop
          (.own ns) (.own key) value ⟨ns, key, stale⟩ hns (fresh_own _ _ _ ns)
          (fresh_own _ _ _ key)
        refine ⟨c', _, hset, hresult, hblocks, text, rfl, fun hvalue => htext fun b hb hcopy => ?_⟩
        exact hvalue b hb ((hext.hasCopy_iff hl).mp hcopy)
    refine ⟨c', hset, set, hresult, ?_⟩
    rcases hcase with ⟨hparts, rfl⟩ | ⟨ns, key, _, hparts, rfl, text, rfl, htext⟩
    · simp [ConfigOp.map, ConfigOp.target, ConfigOp.sets, hparts]
    · refine ⟨by simp [ConfigOp.map, ConfigOp.target, ConfigOp.sets, hparts], fun hvalue => ?_⟩
      rw [htext (hvalue _ hparts)]
      simp [ConfigOp.map, ConfigOp.sets, hparts]
  | setint path value =>
    obtain ⟨c', hset, hresult⟩ := setWithPath_value (.int value) hl ho hreg (by simp)
    exact ⟨c', hset, _, hresult, rfl, fun _ => rfl⟩
  | setobj path value =>
    obtain ⟨c', hset, hresult⟩ := setWithPath_value (.obj value) hl ho hreg (by simp)
    exact ⟨c', hset, _, hresult, rfl, fun _ => rfl⟩
  | getns getter ns key =>
    refine ⟨c, ?_, none, StepResult.unchanged hl ho, rfl, fun _ => rfl⟩
    cases getter <;>
      · obtain ⟨ret, hget⟩ := hl.configGetValue_ok (hreg _ rfl) key _ _
        exact congrArg ((fun _ => c) <$> ·) hget
  | get getter path =>
    cases getter <;>
      · obtain ⟨c', ret, hget, hresult⟩ := getWithPath_result hl ho hreg
        exact ⟨c', congrArg (Prod.fst <$> ·) hget, none, hresult, rfl, fun _ => rfl⟩

/-! ## Calls on unregistered namespaces -/

theorem getWithPath_unregistered {α : Type} {absent : α} {read : ConfigValue → α}
    (hl : Linked c.heap.next c) {p : Key × Key} (hparts : pathParts path = some p)
    (hns : ¬ c.Registered p.1) :
    getWithPath c path absent (fun c ns key => configGetValue c ns key absent read) =
      .error (.assert "NULL table") := by
  obtain ⟨hcolon, rfl⟩ := eq_configPath_of_pathParts hparts
  rw [getWithPath_path (Nat.ne_of_gt hl.bound_pos) hcolon]
  unfold configGetValue
  rw [hl.configGetCommon_unregistered hns]
  rfl

theorem setWithPath_unregistered {call : Config → Key → Key → Except Fault Config} {fault : Fault}
    (hl : Linked c.heap.next c) {p : Key × Key} (hparts : pathParts path = some p)
    (hcall : call c.parsing p.1 p.2 = .error fault) :
    setWithPath c path call = .error fault := by
  obtain ⟨hcolon, rfl⟩ := eq_configPath_of_pathParts hparts
  unfold setWithPath
  rw [withPath_path (Nat.ne_of_gt hl.bound_pos) hcolon, hcall]
  rfl

/-- A call on an unregistered namespace fails an assertion. -/
theorem configStep_unregistered {op : ConfigOp StrArg} (hl : Linked c.heap.next c)
    {p : Key × Key} (hpair : (op.map c.text).pair = some p) (hns : ¬ c.Registered p.1) :
    configStep c op = .error (.assert "NULL table") := by
  have hext : Extends c.heap.next c c.parsing := extends_parsing
  have hlp := hext.linked hl
  have hnsp : ¬ c.parsing.Registered p.1 := fun h => hns (hext.registered_iff.mp h)
  cases op with
  | newns name => cases hpair
  | setstrns ns key value stale =>
    cases hpair
    exact configSetstrns_unregistered hl hns
  | setintns ns key value =>
    cases hpair
    exact configSetValue_unregistered hl hns
  | setobjns ns key value =>
    cases hpair
    exact configSetValue_unregistered hl hns
  | setstr path value stale =>
    exact setWithPath_unregistered hl hpair (configSetstrns_unregistered hlp hnsp)
  | setint path value =>
    exact setWithPath_unregistered hl hpair (configSetValue_unregistered hlp hnsp)
  | setobj path value =>
    exact setWithPath_unregistered hl hpair (configSetValue_unregistered hlp hnsp)
  | getns getter ns key =>
    cases hpair
    have hget := hl.configGetCommon_unregistered hns key
    cases getter <;>
      · change _ <$> configGetValue .. = _
        unfold configGetValue
        rw [hget]
        rfl
  | get getter path =>
    cases getter <;>
      exact congrArg (Prod.fst <$> ·) (getWithPath_unregistered hl hpair hns)

end Step

/-! ## Paths that are answered -/

section Answered

variable {c : Config} {path : Key}

/-- The namespace of the path is registered. -/
def Config.RegisteredPath (c : Config) (path : Key) : Prop :=
  ∃ p, pathParts path = some p ∧ c.Registered p.1

/-- The key that the path names exists. -/
def Config.HasPath (c : Config) (path : Key) : Prop :=
  ∃ p x, pathParts path = some p ∧ c.Has p.1 p.2 x

/-- A getter returns, and returns `absent` unless the key exists. -/
def Answers {α : Type} (call : Except Fault (Config × α)) (exist : Prop) (absent : α) : Prop :=
  ∃ c' ret, call = .ok (c', ret) ∧ (¬ exist → ret = absent)

/-- The two stores cannot be told apart by a getter. -/
def SameStore (c c' : Config) : Prop := ∀ ns key x, Reads c ns key x ↔ Reads c' ns key x

/-- The path forms return on the path: the getters with 0 or `NULL` if the key does
not exist, the setters without an effect if the namespace is not registered. -/
structure PathAnswered (c : Config) (path : Key) : Prop where
  existence : Answers (configExists c path) (c.HasPath path) 0
  gettype : Answers (configGettype c path) (c.HasPath path) 0
  getstr : Answers (configGetstr c path) (c.HasPath path) 0
  getint : Answers (configGetint c path) (c.HasPath path) 0
  getobj : Answers (configGetobj c path) (c.HasPath path) 0
  setstr : ¬ c.RegisteredPath path → ∀ value stale,
    ∃ c', configSetstr c path value stale = .ok c' ∧ SameStore c c'
  setint : ¬ c.RegisteredPath path → ∀ value,
    ∃ c', configSetint c path value = .ok c' ∧ SameStore c c'
  setobj : ¬ c.RegisteredPath path → ∀ value,
    ∃ c', configSetobj c path value = .ok c' ∧ SameStore c c'

/-- Where the namespace of the path is registered, if it has one, a getter's path
form answers. -/
theorem Linked.answers {α : Type} {absent : α} {read : ConfigValue → α}
    (hl : Linked c.heap.next c) (hreg : ∀ p, pathParts path = some p → c.Registered p.1) :
    Answers (getWithPath c path absent fun c ns key => configGetValue c ns key absent read)
      (c.HasPath path) absent := by
  rcases path_cases path with hpath | ⟨ns, key, hns, rfl⟩
  · refine ⟨c, absent, ?_, fun _ => rfl⟩
    unfold getWithPath
    rw [withPath_none hpath]
  · have hparts := pathParts_path hns key
    rw [getWithPath_path (Nat.ne_of_gt hl.bound_pos) hns]
    unfold configGetValue
    rcases hl.configGetCommon_eq (hreg _ hparts) key with ⟨v, hget, hne, hval⟩ | ⟨hget, -⟩
    · refine ⟨c.parsed, read (c.values v), ?_, fun hnot => absurd ?_ hnot⟩
      · rw [hget, ok_bind, if_neg hne]
        rfl
      · exact ⟨_, _, hparts, v, hval, rfl⟩
    · refine ⟨c.parsed, absent, ?_, fun _ => rfl⟩
      rw [hget]
      rfl

theorem Linked.pathAnswered_iff (hl : Linked c.heap.next c) :
    PathAnswered c path ↔ ∀ p, pathParts path = some p → c.Registered p.1 := by
  constructor
  · intro h p hparts
    by_contra hns
    obtain ⟨c', ret, hget, -⟩ := h.existence
    have hfault : configExists c path = _ := getWithPath_unregistered hl hparts hns
    rw [hfault] at hget
    cases hget
  · intro hreg
    have hsetter : ∀ call, ¬ c.RegisteredPath path →
        ∃ c', setWithPath c path call = .ok c' ∧ SameStore c c' := by
      intro call hnot
      rcases path_cases path with hpath | ⟨ns, key, hns, rfl⟩
      · refine ⟨c, ?_, fun _ _ _ => Iff.rfl⟩
        unfold setWithPath
        rw [withPath_none hpath]
        rfl
      · have hparts := pathParts_path hns key
        exact absurd ⟨_, hparts, hreg _ hparts⟩ hnot
    exact ⟨hl.answers hreg, hl.answers hreg, hl.answers hreg, hl.answers hreg, hl.answers hreg,
      fun hnot _ _ => hsetter _ hnot, fun hnot _ => hsetter _ hnot, fun hnot _ => hsetter _ hnot⟩

end Answered

/-! ## Runs -/

section Runs

variable {c c' : Config} {ns key : Key}

/-- Every store that a run reaches is linked. -/
theorem configRun_linked {ops : List (ConfigOp StrArg)} (hl : Linked c.heap.next c)
    (hrun : configRun c ops = .ok c') : Linked c'.heap.next c' := by
  induction ops generalizing c with
  | nil =>
    cases hrun
    exact hl
  | cons op rest ih =>
    rw [configRun, List.foldlM_cons] at hrun
    obtain ⟨c₁, hstep, hrest⟩ := bind_eq_ok hrun
    exact ih (configStep_linked hl hstep) hrest

/-- The store of a fresh heap and memory. -/
def emptyConfig : Config :=
  configInit ⟨1, []⟩ (fun _ => ⟨[], 0, 0, 0⟩) (fun _ => .int 0) fun _ => ⟨[], nul_not_mem_nil⟩

/-- In every state of every run, the path forms answer on a path if and only if it
has no `:`, or the namespace in front of its first `:` is registered. -/
theorem configRun_pathAnswered_iff (heap : LiveBlocks) (tables : Nat → Htbl)
    (values : Nat → ConfigValue) (strings : Nat → Key) (ops : List (ConfigOp StrArg)) {c : Config}
    (hrun : configRun (configInit heap tables values strings) ops = .ok c) (path : Key) :
    PathAnswered c path ↔ ∀ p, pathParts path = some p → c.Registered p.1 :=
  (configRun_linked (configInit_good heap tables values strings).1 hrun).pathAnswered_iff

/-- With `a` registered, `a:` is answered. -/
theorem configRun_pathAnswered_iff_registered :
    ∃ c, configRun emptyConfig [.newns ⟨[97], by decide⟩] = .ok c ∧
      (PathAnswered c ⟨[97, 58], by decide⟩ ↔
        ∀ p, pathParts ⟨[97, 58], by decide⟩ = some p → c.Registered p.1) := by
  obtain ⟨c, hrun⟩ : ∃ c, configRun emptyConfig [.newns ⟨[97], by decide⟩] = .ok c := ⟨_, rfl⟩
  exact ⟨c, hrun, configRun_pathAnswered_iff _ _ _ _ _ hrun _⟩

/-- In the empty store `config_exists("a:k")` fails an assertion. -/
theorem emptyConfig_not_answered : ¬ PathAnswered emptyConfig ⟨[97, 58, 107], by decide⟩ := by
  intro h
  obtain ⟨c', ret, hget, -⟩ := h.existence
  have hfault : configExists emptyConfig ⟨[97, 58, 107], by decide⟩ =
      .error (.assert "NULL table") := rfl
  rw [hfault] at hget
  cases hget

/-- A call that returns does what its operation says. -/
theorem configStep_result {op : ConfigOp StrArg} (hl : Linked c.heap.next c) (ho : Owned c)
    (hfresh : c.FreshStep op) (h : configStep c op = .ok c') : OpResult c op c' := by
  by_cases hreg : ∀ p, (op.map c.text).pair = some p → c.Registered p.1
  · obtain ⟨c₁, hstep, hresult⟩ := configStep_spec hl ho hfresh hreg
    obtain rfl := Except.ok.inj (hstep.symm.trans h)
    exact hresult
  · push Not at hreg
    obtain ⟨p, hpair, hns⟩ := hreg
    rw [configStep_unregistered hl hpair hns] at h
    cases h

/-- A key that is set stays set. -/
theorem OpResult.has {op : ConfigOp StrArg} (h : OpResult c op c') {x : Setting}
    (hx : c.Shows ns key (some x)) : ∃ y, c'.Shows ns key (some y) := by
  obtain ⟨set, hresult, -⟩ := h
  have hshows := hresult.shows ns key _ hx
  cases set with
  | none => exact ⟨x, hshows⟩
  | some p =>
    by_cases heq : p.1 = (ns, key)
    · exact ⟨p.2, by simpa [settingAfter, heq] using hshows⟩
    · exact ⟨x, by simpa [settingAfter, heq] using hshows⟩

/-- A pair that the operation does not set is set as before. -/
theorem OpResult.kept {op : ConfigOp StrArg} (h : OpResult c op c') {x : Option Setting}
    (htarget : (op.map c.text).target ≠ some (ns, key)) (hx : c.Shows ns key x) :
    c'.Shows ns key x := by
  obtain ⟨set, hresult, hset, -⟩ := h
  have hshows := hresult.shows ns key _ hx
  cases set with
  | none => exact hshows
  | some p =>
    have hne : p.1 ≠ (ns, key) := fun heq => htarget (by rw [← hset, ← heq]; rfl)
    simpa [settingAfter, hne] using hshows

theorem OpResult.good {op : ConfigOp StrArg} (h : OpResult c op c') :
    Linked c'.heap.next c' ∧ Owned c' := by
  obtain ⟨set, hresult, -⟩ := h
  exact ⟨hresult.linked, hresult.owned⟩

/-- `config_exists` says whether the pair of the path is set. -/
theorem Linked.configExists_ne_zero_iff (hl : Linked c.heap.next c) {path : Key} :
    (∃ n, Prod.snd <$> configExists c path = .ok n ∧ n ≠ 0) ↔ c.HasPath path := by
  rcases path_cases path with hpath | ⟨ns, key, hns, rfl⟩
  · have hnone : configExists c path = .ok (c, 0) := by
      unfold configExists getWithPath
      rw [withPath_none hpath]
    unfold Config.HasPath
    rw [hnone, pathParts_none hpath]
    simp
  · have hparts := pathParts_path hns key
    have hform : configExists c (configPath ns key) = (c.parsed, ·) <$> configExistsns c ns key :=
      getWithPath_path (Nat.ne_of_gt hl.bound_pos) hns key 0
    unfold Config.HasPath
    rw [hform, hparts]
    by_cases hreg : c.Registered ns
    · obtain ⟨x, hreads, hx⟩ := hl.exists_reads hreg key
      rw [hreads.existsns]
      cases x with
      | none => simp [hx]
      | some x => simp [hx]
    · unfold configExistsns configGetValue
      rw [hl.configGetCommon_unregistered hreg]
      have hnot : ∀ x, ¬ c.Has ns key x := fun x ⟨v, hv, _⟩ => hreg ⟨_, hv.choose_spec.1⟩
      simp [hnot]

section Fresh

variable {ops : List (ConfigOp StrArg)} (hl : Linked c.heap.next c) (ho : Owned c)
  (hfresh : AllSteps configStep Config.FreshStep c ops) (hrun : configRun c ops = .ok c')
include hl ho hfresh hrun

/-- A run of fresh steps keeps the store linked and owned. -/
theorem configRun_good : Linked c'.heap.next c' ∧ Owned c' :=
  hfresh.invariant (fun c => Linked c.heap.next c ∧ Owned c)
    (fun _ _ _ h hP hstep => (configStep_result h.1 h.2 hP hstep).good) ⟨hl, ho⟩ hrun

/-- A pair that is set stays set. -/
theorem configRun_has {x : Setting} (hx : c.Shows ns key (some x)) :
    ∃ y, c'.Shows ns key (some y) := by
  have hset := hfresh.invariant
    (fun c => (Linked c.heap.next c ∧ Owned c) ∧ ∃ y, c.Shows ns key (some y))
    (fun c op c' h hP hstep => ?_) ⟨⟨hl, ho⟩, x, hx⟩ hrun
  · exact hset.2
  · have hresult := configStep_result h.1.1 h.1.2 hP hstep
    obtain ⟨y, hy⟩ := h.2
    exact ⟨hresult.good, hresult.has hy⟩

/-- A pair that no operation sets is set as before. -/
theorem configRun_kept {x : Option Setting} (hreg : c.Registered ns) (hx : c.Shows ns key x)
    (hother : AllSteps configStep (fun c op => (op.map c.text).target ≠ some (ns, key)) c ops) :
    c'.Registered ns ∧ c'.Shows ns key x := by
  have hkept := (hfresh.and hother).invariant
    (fun c => (Linked c.heap.next c ∧ Owned c) ∧ c.Registered ns ∧ c.Shows ns key x)
    (fun c op c' h hP hstep => ?_) ⟨⟨hl, ho⟩, hreg, hx⟩ hrun
  · exact hkept.2
  · have hresult := configStep_result h.1.1 h.1.2 hP.1 hstep
    refine ⟨hresult.good, ?_, hresult.kept hP.2 h.2.2⟩
    obtain ⟨set, hstepResult, -⟩ := hresult
    exact (hstepResult.registered ns).mpr (Or.inr h.2.1)

end Fresh

/-- In a run that registers no namespace again that holds a key, and frees no copy
that names its own pair, a key that exists exists from then on, and what a pair is
set to changes only through a setter of that pair. -/
theorem configRun_appendOnly (heap : LiveBlocks) (tables : Nat → Htbl)
    (values : Nat → ConfigValue) (strings : Nat → Key) {ops ops' : List (ConfigOp StrArg)}
    (hfresh : AllSteps configStep Config.FreshStep (configInit heap tables values strings)
      (ops ++ ops'))
    {c c' : Config} (hrun : configRun (configInit heap tables values strings) ops = .ok c)
    (hrun' : configRun c ops' = .ok c') :
    (∀ path, (∃ n, Prod.snd <$> configExists c path = .ok n ∧ n ≠ 0) →
      ∃ n, Prod.snd <$> configExists c' path = .ok n ∧ n ≠ 0) ∧
    ∀ ns key x, Reads c ns key x →
      AllSteps configStep (fun c op => (op.map c.text).target ≠ some (ns, key)) c ops' →
      Reads c' ns key x := by
  obtain ⟨hl₀, ho₀, -⟩ := configInit_good heap tables values strings
  obtain ⟨hl, ho⟩ := configRun_good hl₀ ho₀ hfresh.take hrun
  have hfresh' := hfresh.drop hrun
  obtain ⟨hl', -⟩ := configRun_good hl ho hfresh' hrun'
  refine ⟨fun path hpath => ?_, fun ns key x hx hother => ?_⟩
  · rw [hl.configExists_ne_zero_iff] at hpath
    rw [hl'.configExists_ne_zero_iff]
    obtain ⟨p, x, hparts, hx⟩ := hpath
    obtain ⟨y, hy⟩ := hl.exists_shows p.1 p.2
    obtain rfl := (hy x).mp hx
    obtain ⟨z, hz⟩ := configRun_has hl ho hfresh' hrun' hy
    exact ⟨p, z, hparts, (hz z).mpr rfl⟩
  · obtain ⟨hreg, hshows⟩ := hl.reads_iff.mp hx
    exact hl'.reads_iff.mpr (configRun_kept hl ho hfresh' hrun' hreg hshows hother)

/-- `a:k` is set, and set again. -/
theorem configRun_appendOnly_overwrite :
    ∃ c c' : Config,
      configRun emptyConfig [.newns ⟨[97], by decide⟩,
        .setint ⟨[97, 58, 107], by decide⟩ 1] = .ok c ∧
      configRun c [.setint ⟨[97, 58, 107], by decide⟩ 2] = .ok c' ∧
      (∀ path, (∃ n, Prod.snd <$> configExists c path = .ok n ∧ n ≠ 0) →
        ∃ n, Prod.snd <$> configExists c' path = .ok n ∧ n ≠ 0) ∧
      ∀ ns key x, Reads c ns key x →
        AllSteps configStep (fun c op => (op.map c.text).target ≠ some (ns, key)) c
          [.setint ⟨[97, 58, 107], by decide⟩ 2] →
        Reads c' ns key x := by
  have hnone : ∀ ns, ¬ emptyConfig.Registered ns := (configInit_good ..).2.2
  have hfresh : AllSteps configStep Config.FreshStep emptyConfig
      ([.newns ⟨[97], by decide⟩, .setint ⟨[97, 58, 107], by decide⟩ 1] ++
        [.setint ⟨[97, 58, 107], by decide⟩ 2]) :=
    ⟨fun key x ⟨v, hv, _⟩ => hnone _ ⟨_, hv.choose_spec.1⟩, trivial, trivial, trivial⟩
  obtain ⟨c, hrun⟩ : ∃ c, configRun emptyConfig [.newns ⟨[97], by decide⟩,
      .setint ⟨[97, 58, 107], by decide⟩ 1] = .ok c := ⟨_, rfl⟩
  obtain ⟨c', hrun'⟩ : ∃ c', configRun c [.setint ⟨[97, 58, 107], by decide⟩ 2] = .ok c' := by
    cases hrun
    exact ⟨_, rfl⟩
  exact ⟨c, c', hrun, hrun', configRun_appendOnly _ _ _ _ hfresh hrun hrun'⟩

/-- Registering `a` again deletes `a:k`. -/
theorem configNewns_deletes :
    ¬ ∀ (ops ops' : List (ConfigOp StrArg)) (c c' : Config),
      configRun emptyConfig ops = .ok c → configRun c ops' = .ok c' →
      ∀ path, (∃ n, Prod.snd <$> configExists c path = .ok n ∧ n ≠ 0) →
        ∃ n, Prod.snd <$> configExists c' path = .ok n ∧ n ≠ 0 := by
  intro h
  obtain ⟨n, hn, hne⟩ := h
    [.newns ⟨[97], by decide⟩, .setint ⟨[97, 58, 107], by decide⟩ 1] [.newns ⟨[97], by decide⟩]
    _ _ rfl rfl ⟨[97, 58, 107], by decide⟩ ⟨1, rfl, by decide⟩
  have hzero : n = 0 := (Except.ok.inj hn).symm
  exact hne hzero

end Runs

/-! ## Runs that register each namespace once -/

section Once

variable {c c₁ c₂ : Config} {ns key : Key}

/-- What the operations last set the pair to. -/
def lastSet (ops : List (ConfigOp Key)) (p : Key × Key) : Option Setting :=
  (ops.filterMap ConfigOp.sets).reverse.lookup p

/-- The operations register each namespace once, and before it is used; those in
`names` are registered. -/
def RegisteredOnce : List Key → List (ConfigOp Key) → Prop
  | _, [] => True
  | names, op :: ops => (∀ name ∈ op.newName, name ∉ names) ∧ (∀ p ∈ op.pair, p.1 ∈ names) ∧
    RegisteredOnce (op.newName.toList ++ names) ops

instance decidableRegisteredOnce :
    (names : List Key) → (ops : List (ConfigOp Key)) → Decidable (RegisteredOnce names ops)
  | _, [] => inferInstanceAs (Decidable True)
  | names, op :: ops =>
    have : Decidable (RegisteredOnce (op.newName.toList ++ names) ops) :=
      decidableRegisteredOnce _ ops
    inferInstanceAs (Decidable (_ ∧ _ ∧ _))

/-- The call with strings of the caller's own. -/
def ConfigOp.owned (op : ConfigOp Key) : ConfigOp StrArg := op.map .own

@[simp] theorem ConfigOp.map_owned (op : ConfigOp Key) : op.owned.map c.text = op := by
  cases op <;> rfl

theorem ConfigOp.freshValue_owned (op : ConfigOp Key) : c.FreshValue op.owned := by
  cases op with
  | setstrns ns key value stale => exact fresh_own _ _ _ value
  | setstr path value stale => exact fun p _ => fresh_own _ p.1 p.2 value
  | _ => exact trivial

/-- The two calls fail alike, or leave stores that no getter can tell apart. -/
def SameOutcome : Except Fault Config → Except Fault Config → Prop
  | .ok c₁, .ok c₂ => SameStore c₁ c₂
  | .error fault₁, .error fault₂ => fault₁ = fault₂
  | _, _ => False

/-- Every path form does on `ns:key` what its ns form does on the pair. -/
structure FormsAgree (c : Config) (ns key : Key) : Prop where
  existence : configExists c (configPath ns key) = (c.parsed, ·) <$> configExistsns c ns key
  gettype : configGettype c (configPath ns key) = (c.parsed, ·) <$> configGettypens c ns key
  getstr : configGetstr c (configPath ns key) = (c.parsed, ·) <$> configGetstrns c ns key
  getint : configGetint c (configPath ns key) = (c.parsed, ·) <$> configGetintns c ns key
  getobj : configGetobj c (configPath ns key) = (c.parsed, ·) <$> configGetobjns c ns key
  parsed : SameStore c c.parsed
  setstr : ∀ value stale stale', SameOutcome
    (configSetstr c (configPath ns key) (.own value) stale)
    (configSetstrns c (.own ns) (.own key) (.own value) stale')
  setint : ∀ value, SameOutcome (configSetint c (configPath ns key) value)
    (configSetintns c ns key value)
  setobj : ∀ value, SameOutcome (configSetobj c (configPath ns key) value)
    (configSetobjns c ns key value)

theorem SetResult.sameStore {x : Setting} (h₁ : SetResult c ns key x c₁)
    (h₂ : SetResult c ns key x c₂) : SameStore c₁ c₂ := by
  intro ns' key' y
  rw [h₁.linked.reads_iff, h₂.linked.reads_iff, h₁.registered, h₂.registered]
  unfold Config.Shows
  simp only [h₁.has, h₂.has]

/-- The two forms of a setter that makes no copy. -/
theorem configSetValue_forms {value : ConfigValue} (hl : Linked c.heap.next c) (ho : Owned c)
    (hns : 58 ∉ ns.val) (hvalue : ∀ s, value ≠ .str s) :
    SameOutcome (setWithPath c (configPath ns key) fun c ns key => configSetValue c ns key value)
      (configSetValue c ns key value) := by
  have hext : Extends c.heap.next c c.parsing := extends_parsing
  by_cases hreg : c.Registered ns
  · obtain ⟨c₁, hset₁, hresult₁⟩ := setWithPath_path
      (fun c ns key => configSetValue c ns key value) hl hns
      (configSetValue_spec value (hext.linked hl) (ho.parsing hl)
        (hext.registered_iff.mpr hreg) key hvalue)
    obtain ⟨c₂, hset₂, hresult₂, -⟩ := configSetValue_spec value hl ho hreg key hvalue
    rw [hset₁, hset₂]
    exact hresult₁.sameStore hresult₂
  · rw [configSetValue_unregistered hl hreg, setWithPath_unregistered hl (pathParts_path hns key)
      (configSetValue_unregistered (hext.linked hl) fun h => hreg (hext.registered_iff.mp h))]
    rfl

/-- The two forms of the setter of a string. -/
theorem configSetstr_forms (hl : Linked c.heap.next c) (ho : Owned c) (hns : 58 ∉ ns.val)
    (value stale : Key) (stale' : Stale) :
    SameOutcome (configSetstr c (configPath ns key) (.own value) stale)
      (configSetstrns c (.own ns) (.own key) (.own value) stale') := by
  have hext : Extends c.heap.next c c.parsing := extends_parsing
  by_cases hreg : c.Registered ns
  · obtain ⟨c₀, text₀, hset₀, hresult₀, hblocks₀, htext₀⟩ := configSetstrns_spec
      (hext.linked hl) (ho.parsing hl) (.own ns) (.own key) (.own value) ⟨ns, key, stale⟩
      (hext.registered_iff.mpr hreg) (fresh_own _ _ _ ns) (fresh_own _ _ _ key)
    obtain ⟨c₂, text₂, hset₂, hresult₂, -, htext₂⟩ := configSetstrns_spec hl ho (.own ns)
      (.own key) (.own value) stale' hreg (fresh_own _ _ _ ns) (fresh_own _ _ _ key)
    obtain rfl : text₀ = value := htext₀ (fresh_own _ _ _ value)
    obtain rfl : text₂ = text₀ := htext₂ (fresh_own _ _ _ text₀)
    obtain ⟨c₁, hset₁, hresult₁⟩ := setWithPath_path
      (fun c ns key => configSetstrns c (.own ns) (.own key) (.own text₂) ⟨ns, key, stale⟩)
      hl hns ⟨c₀, hset₀, hresult₀, hblocks₀⟩
    have hform : configSetstr c (configPath ns key) (.own text₂) stale = .ok c₁ := hset₁
    rw [hform, hset₂]
    exact hresult₁.sameStore hresult₂
  · have hreg' : ¬ c.Registered (c.text (.own ns)) := hreg
    have hregp : ¬ c.parsing.Registered (c.parsing.text (.own ns)) :=
      fun h => hreg (hext.registered_iff.mp h)
    have hform : configSetstr c (configPath ns key) (.own value) stale = _ :=
      setWithPath_unregistered hl (pathParts_path hns key)
        (configSetstrns_unregistered (hext.linked hl) hregp)
    rw [configSetstrns_unregistered hl hreg', hform]
    rfl

theorem formsAgree (hl : Linked c.heap.next c) (ho : Owned c) (hns : 58 ∉ ns.val) (key : Key) :
    FormsAgree c ns key where
  existence := getWithPath_path (Nat.ne_of_gt hl.bound_pos) hns key 0
  gettype := getWithPath_path (Nat.ne_of_gt hl.bound_pos) hns key 0
  getstr := getWithPath_path (Nat.ne_of_gt hl.bound_pos) hns key 0
  getint := getWithPath_path (Nat.ne_of_gt hl.bound_pos) hns key 0
  getobj := getWithPath_path (Nat.ne_of_gt hl.bound_pos) hns key 0
  parsed _ _ _ := ⟨fun h => ⟨h.existsns, h.gettypens, h.getintns, h.getobjns, h.getstrns⟩,
    fun h => ⟨h.existsns, h.gettypens, h.getintns, h.getobjns, h.getstrns⟩⟩
  setstr value stale stale' := configSetstr_forms hl ho hns value stale stale'
  setint _ := configSetValue_forms hl ho hns (by simp)
  setobj _ := configSetValue_forms hl ho hns (by simp)

/-- The store is what the operations so far say. -/
structure AfterOps (ops : List (ConfigOp Key)) (c : Config) : Prop where
  linked : Linked c.heap.next c
  owned : Owned c
  registered : ∀ ns, c.Registered ns ↔ ns ∈ ops.filterMap ConfigOp.newName
  shows : ∀ ns key, c.Shows ns key (lastSet ops (ns, key))

theorem lastSet_append (ops : List (ConfigOp Key)) (op : ConfigOp Key) (p : Key × Key) :
    lastSet (ops ++ [op]) p = settingAfter op.sets p (lastSet ops p) := by
  unfold lastSet
  rw [List.filterMap_append, List.reverse_append]
  cases hsets : op.sets with
  | none => simp [hsets, settingAfter]
  | some set =>
    obtain ⟨p', y⟩ := set
    by_cases heq : p' = p
    · simp [hsets, settingAfter, heq]
    · simp [hsets, settingAfter, List.lookup_cons, heq, beq_eq_false_iff_ne.mpr (Ne.symm heq)]

theorem registeredOnce_append {names : List Key} {ops : List (ConfigOp Key)} {op : ConfigOp Key} :
    RegisteredOnce names (ops ++ [op]) ↔ RegisteredOnce names ops ∧
      (∀ name ∈ op.newName, name ∉ names ∧ name ∉ ops.filterMap ConfigOp.newName) ∧
      ∀ p ∈ op.pair, p.1 ∈ names ∨ p.1 ∈ ops.filterMap ConfigOp.newName := by
  induction ops generalizing names with
  | nil => simp [RegisteredOnce]
  | cons first rest ih =>
    rw [List.cons_append, RegisteredOnce, RegisteredOnce, ih, List.filterMap_cons]
    cases first.newName <;> simp <;> grind

/-- One more call, on registered namespaces. -/
theorem AfterOps.step {ops : List (ConfigOp Key)} {op : ConfigOp Key} (h : AfterOps ops c)
    (hname : ∀ name ∈ op.newName, name ∉ [] ∧ name ∉ ops.filterMap ConfigOp.newName)
    (hpair : ∀ p ∈ op.pair, p.1 ∈ [] ∨ p.1 ∈ ops.filterMap ConfigOp.newName) :
    ∃ c', configStep c op.owned = .ok c' ∧ AfterOps (ops ++ [op]) c' := by
  have hfresh : c.FreshStep op.owned := by
    cases op with
    | newns name =>
      intro key x ⟨v, hv, _⟩
      exact (hname name rfl).2 ((h.registered name).mp ⟨_, hv.choose_spec.1⟩)
    | setstrns ns key value stale => exact ⟨fresh_own _ _ _ ns, fresh_own _ _ _ key⟩
    | _ => exact trivial
  obtain ⟨c', hstep, set, hresult, -, hset⟩ := configStep_spec h.linked h.owned hfresh
    (by
      intro p hp
      rw [ConfigOp.map_owned] at hp
      exact (h.registered p.1).mpr ((hpair p hp).resolve_left List.not_mem_nil))
  have hsets := hset op.freshValue_owned
  rw [ConfigOp.map_owned] at hsets
  subst hsets
  refine ⟨c', hstep, hresult.linked, hresult.owned, fun ns => ?_, fun ns key => ?_⟩
  · rw [hresult.registered, h.registered, List.filterMap_append, List.mem_append, or_comm]
    cases hnew : op.newName <;> simp [ConfigOp.owned, hnew, eq_comm]
  · rw [lastSet_append]
    exact hresult.shows ns key _ (h.shows ns key)

/-- A run that registers each namespace once, and before it is used, returns, and
its store is what its operations say. -/
theorem configRun_afterOps (heap : LiveBlocks) (tables : Nat → Htbl) (values : Nat → ConfigValue)
    (strings : Nat → Key) {ops : List (ConfigOp Key)} (hops : RegisteredOnce [] ops) :
    ∃ c, configRun (configInit heap tables values strings) (ops.map ConfigOp.owned) = .ok c ∧
      AfterOps ops c := by
  induction ops using List.reverseRecOn with
  | nil =>
    obtain ⟨hl, ho, hreg⟩ := configInit_good heap tables values strings
    refine ⟨_, rfl, hl, ho, fun ns => iff_of_false (hreg ns) (by simp), fun ns key y => ?_⟩
    exact iff_of_false (fun ⟨v, hv, _⟩ => hreg ns ⟨_, hv.choose_spec.1⟩) (by simp [lastSet])
  | append_singleton ops op ih =>
    obtain ⟨hfront, hname, hpair⟩ := registeredOnce_append.mp hops
    obtain ⟨c, hrun, hc⟩ := ih hfront
    obtain ⟨c', hstep, hc'⟩ := hc.step hname hpair
    refine ⟨c', ?_, hc'⟩
    rw [List.map_append]
    exact configRun_snoc hrun hstep

/-- In a run that registers each namespace once, and before it is used, every getter
returns what was last set on its pair, a call on another pair changes nothing, and
the path forms do what the ns forms do. -/
theorem configRun_reads_lastSet (heap : LiveBlocks) (tables : Nat → Htbl)
    (values : Nat → ConfigValue) (strings : Nat → Key) {ops : List (ConfigOp Key)}
    (hops : RegisteredOnce [] ops) :
    ∃ c, configRun (configInit heap tables values strings) (ops.map ConfigOp.owned) = .ok c ∧
      (∀ ns ∈ ops.filterMap ConfigOp.newName, ∀ key,
        Reads c ns key (lastSet ops (ns, key)) ∧
        ∀ op, RegisteredOnce [] (ops ++ [op]) → op.target ≠ some (ns, key) →
          ∃ c', configStep c op.owned = .ok c' ∧ Reads c' ns key (lastSet ops (ns, key))) ∧
      ∀ ns : Key, 58 ∉ ns.val → ∀ key, FormsAgree c ns key := by
  obtain ⟨c, hrun, hc⟩ := configRun_afterOps heap tables values strings hops
  refine ⟨c, hrun, fun ns hns key => ?_, fun ns hns key => formsAgree hc.linked hc.owned hns key⟩
  have hreads := hc.linked.reads_of_shows ((hc.registered ns).mpr hns) (hc.shows ns key)
  refine ⟨hreads, fun op hop htarget => ?_⟩
  obtain ⟨-, hname, hpair⟩ := registeredOnce_append.mp hop
  obtain ⟨c', hstep, hc'⟩ := hc.step hname hpair
  have hsame : lastSet (ops ++ [op]) (ns, key) = lastSet ops (ns, key) := by
    rw [lastSet_append]
    cases hsets : op.sets with
    | none => rfl
    | some set =>
      exact if_neg fun heq => htarget (by rw [ConfigOp.target, hsets, ← heq]; rfl)
  have hns' : ns ∈ (ops ++ [op]).filterMap ConfigOp.newName := by
    rw [List.filterMap_append]
    exact List.mem_append_left _ hns
  refine ⟨c', hstep, ?_⟩
  rw [← hsame]
  exact hc'.linked.reads_of_shows ((hc'.registered ns).mpr hns') (hc'.shows ns key)

/-- `a:k` is an integer first, and then a string. -/
theorem configRun_reads_lastSet_retyped :
    ∃ ops : List (ConfigOp Key), RegisteredOnce [] ops ∧
      lastSet ops (⟨[97], by decide⟩, ⟨[107], by decide⟩) = some (.str ⟨[118], by decide⟩) ∧
      ∃ c, configRun emptyConfig (ops.map ConfigOp.owned) = .ok c ∧
        (∀ ns ∈ ops.filterMap ConfigOp.newName, ∀ key,
          Reads c ns key (lastSet ops (ns, key)) ∧
          ∀ op, RegisteredOnce [] (ops ++ [op]) → op.target ≠ some (ns, key) →
            ∃ c', configStep c op.owned = .ok c' ∧ Reads c' ns key (lastSet ops (ns, key))) ∧
        ∀ ns : Key, 58 ∉ ns.val → ∀ key, FormsAgree c ns key :=
  ⟨[.newns ⟨[97], by decide⟩, .setintns ⟨[97], by decide⟩ ⟨[107], by decide⟩ 7,
    .setstr ⟨[97, 58, 107], by decide⟩ ⟨[118], by decide⟩ ⟨[], by decide⟩],
    by decide, by decide, configRun_reads_lastSet _ _ _ _ (by decide)⟩

end Once

end Microboot.Kern
