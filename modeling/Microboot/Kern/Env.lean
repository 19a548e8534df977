/-
  Kern/Env.lean --- the environment, kern/env.c.

  An environment is a table of 128 items that is searched from the first on, up
  to the mark `current`, which only grows.  A removed item is marked empty, and
  the next insertion takes the first empty item; only when there is none does the
  mark move.  A put that finds neither an empty item nor room above the mark is
  dropped with a warning.

  The refinement: `present` reads the items as a list of entries, and whatever
  puts and removes were made, that list maps every key to the value of the last
  accepted put that no remove follows.  `env_iterate` walks the same list.
-/
import Microboot.Foundation.History
import Microboot.Foundation.Run
import Microboot.Foundation.Slots
import Microboot.Kern.Stdlib

set_option autoImplicit false

namespace Microboot.Kern

open Microboot.Foundation

/-! ## The model -/

/-- `ENV_SIZE` -/
def envSize : Nat := 128

/-- `ENV_KEY_LEN` -/
def envKeyLen : Nat := 64

/-- `ENV_PRESENT` -/
def envPresent : UInt8 := (1 : UInt8) <<< 0

/-- `ENV_EMPTY` -/
def envEmpty : UInt8 := (1 : UInt8) <<< 1

/-- `struct env_item`; `key` is the string in the array of that name. -/
structure EnvItem where
  status : UInt8
  key : Key
  value : Nat
  deriving DecidableEq, Repr

/-- `struct env` -/
structure Env where
  max : Nat
  current : Nat
  items : List EnvItem
  deriving DecidableEq, Repr

/-- `env_init()`: the items are zeroed memory. -/
def envInit : Env :=
  { max := envSize
    current := 0
    items := List.replicate envSize { status := 0, key := ⟨[], nul_not_mem_nil⟩, value := 0 } }

/-- `env_index(env, key)`; -1 is `none`. -/
def envIndex (env : Env) (key : Key) : Option Nat :=
  (env.items.take env.current).findIdx? fun item =>
    item.status &&& envPresent ≠ 0 ∧ strcmp key.val item.key.val = 0

/-- `env_first_free(env)`; -1 is `none`. -/
def envFirstFree (env : Env) : Option Nat × Env :=
  match (env.items.take env.current).findIdx? fun item => item.status &&& envEmpty ≠ 0 with
  | some i => (some i, env)
  | none =>
    if env.current ≥ env.max then (none, env)
    else (some env.current, { env with current := env.current + 1 })

/-- `env_put(env, key, value)`, with the warning that it logs. -/
def envPut (env : Env) (key : Key) (value : Nat) : Except Fault (Env × Option String) :=
  match envIndex env key with
  | some index =>
    return ({ env with items := env.items.modify index ({ · with value := value }) }, none)
  | none => do
    require (key.val.length < envKeyLen) "Key too long for environment"
    match envFirstFree env with
    | (some index, env) =>
      return ({ env with
        items := env.items.set index { status := envPresent, key := key, value := value } }, none)
    | (none, env) => return (env, some "env tried to put to full environment")

/-- `env_remove(env, key)`: the index of the item whose address it returns; `NULL`
is `none`. -/
def envRemove (env : Env) (key : Key) : Env × Option Nat :=
  match envIndex env key with
  | some index =>
    ({ env with items := env.items.modify index ({ · with status := envEmpty }) }, some index)
  | none => (env, none)

/-- `_env_get(env, key)`; 0 is `NULL`. -/
def envGet (env : Env) (key : Key) : Nat :=
  match envIndex env key with
  | some index => (env.items[index]?.map EnvItem.value).getD 0
  | none => 0

/-- The key and value that `env_iterate` passes on for an item. -/
def EnvItem.entry (item : EnvItem) : Option (Key × Nat) :=
  if item.status &&& envPresent ≠ 0 then some (item.key, item.value) else none

/-- `env_iterate(env, iter)`: the calls of `iter`, in order. -/
def envIterate (env : Env) : List (Key × Nat) :=
  (env.items.take env.current).filterMap EnvItem.entry

/-! ## The invariant -/

/-- The entries of the items below the mark. -/
def present (env : Env) : List (Key × Nat) := entries EnvItem.entry (env.items.take env.current)

theorem envIterate_eq (env : Env) : envIterate env = present env := rfl

/-- Every item below the mark is present or empty, and no key is in two present
items. -/
structure EnvInv (env : Env) : Prop where
  max_eq : env.max = envSize
  length_eq : env.items.length = envSize
  current_le : env.current ≤ envSize
  used : ∀ item ∈ env.items.take env.current, item.status = envPresent ∨ item.status = envEmpty
  keys : KeysNodup (present env)

theorem envInv_init : EnvInv envInit where
  max_eq := rfl
  length_eq := List.length_replicate
  current_le := Nat.zero_le _
  used := by simp [envInit]
  keys := List.nodup_nil

section Spec

variable {env : Env} {key : Key} {v i : Nat} {item : EnvItem}

@[simp] theorem entry_present (k : Key) (v : Nat) :
    EnvItem.entry { status := envPresent, key := k, value := v } = some (k, v) :=
  if_pos (show envPresent &&& envPresent ≠ 0 by decide)

theorem entry_of_empty (hstatus : item.status = envEmpty) : item.entry = none := by
  rw [EnvItem.entry, hstatus]
  rfl

theorem EnvItem.entry_eq_some {e : Key × Nat} (h : item.entry = some e) :
    item.status &&& envPresent ≠ 0 ∧ e = (item.key, item.value) := by
  unfold EnvItem.entry at h
  split at h
  · next hstatus =>
    cases h
    exact ⟨hstatus, rfl⟩
  · cases h

/-- An item below the mark that is not empty is present. -/
theorem EnvInv.entry_of_not_empty (h : EnvInv env) (hmem : item ∈ env.items.take env.current)
    (hnot : ¬ item.status &&& envEmpty ≠ 0) : item.entry = some (item.key, item.value) := by
  rcases h.used item hmem with hstatus | hstatus
  · rw [EnvItem.entry, hstatus]
    rfl
  · rw [hstatus] at hnot
    exact absurd (by decide) hnot

/-- What `env_index` finds is the item of the key. -/
theorem envIndex_eq_some (h : envIndex env key = some i) : ∃ item, i < env.current ∧
    env.items[i]? = some item ∧ item.entry = some (key, item.value) := by
  obtain ⟨hlt, hfound, -⟩ := List.findIdx?_eq_some_iff_getElem.mp h
  have hfound := of_decide_eq_true hfound
  have hlen := List.length_take .. ▸ hlt
  have hi : i < env.items.length := by omega
  refine ⟨env.items[i], by omega, List.getElem?_eq_getElem hi, ?_⟩
  rw [List.getElem_take] at hfound
  rw [EnvItem.entry, if_pos hfound.1, strcmp_key_eq_zero_iff.mp hfound.2]

/-- If `env_index` finds nothing, the key is not present. -/
theorem envIndex_eq_none (h : envIndex env key = none) (v : Nat) : (key, v) ∉ present env := by
  intro hmem
  obtain ⟨item, hitem, hentry⟩ := mem_entries.mp hmem
  obtain ⟨hstatus, hpair⟩ := EnvItem.entry_eq_some hentry
  cases hpair
  have hnot := of_decide_eq_false (List.findIdx?_eq_none_iff.mp h item hitem)
  exact hnot ⟨hstatus, strcmp_key_eq_zero_iff.mpr rfl⟩

theorem mem_present (hlt : i < env.current) (hi : env.items[i]? = some item) {e : Key × Nat}
    (hentry : item.entry = some e) : e ∈ present env := by
  refine mem_entries.mpr ⟨item, List.mem_of_getElem? (i := i) ?_, hentry⟩
  rw [List.getElem?_take_of_lt hlt, hi]

/-- `_env_get` returns the value of a present key. -/
theorem envGet_of_mem (h : EnvInv env) {v : Nat} (hmem : (key, v) ∈ present env) :
    envGet env key = v := by
  cases hindex : envIndex env key with
  | none => exact absurd hmem (envIndex_eq_none hindex v)
  | some i =>
    obtain ⟨item, hlt, hi, hentry⟩ := envIndex_eq_some hindex
    have hv : item.value = v := h.keys.unique (mem_present hlt hi hentry) hmem
    simp [envGet, hindex, hi, hv]

/-- `_env_get` returns `NULL` for a key that is not present. -/
theorem envGet_of_not_mem (hnot : ∀ v, (key, v) ∉ present env) : envGet env key = 0 := by
  cases hindex : envIndex env key with
  | none => simp [envGet, hindex]
  | some i =>
    obtain ⟨item, hlt, hi, hentry⟩ := envIndex_eq_some hindex
    exact absurd (mem_present hlt hi hentry) (hnot _)

/-! ## Writing an item -/

/-- One item below the mark is written: the environment stays in order, and maps the
key of the item, before or now, to what the item says now. -/
theorem EnvInv.set (h : EnvInv env) (hlt : i < env.current) (hi : env.items[i]? = some item)
    (key : Key) (new : EnvItem) (hstatus : new.status = envPresent ∨ new.status = envEmpty)
    (hold : ∀ e ∈ item.entry, e.1 = key) (hnew : ∀ e ∈ new.entry, e.1 = key)
    (hnot : item.entry = none → ∀ w, (key, w) ∉ present env) :
    EnvInv { env with items := env.items.set i new } ∧
      MapsBut (present env) (present { env with items := env.items.set i new }) key
        (new.entry.map Prod.snd) := by
  have hitem : (env.items.take env.current)[i]? = some item := by
    rw [List.getElem?_take_of_lt hlt, hi]
  have hpresent : present { env with items := env.items.set i new } =
      entries EnvItem.entry ((env.items.take env.current).set i new) := by
    rw [← List.take_set]
    rfl
  obtain ⟨hkeys, hmaps⟩ := KeysNodup.set h.keys hitem (y := new) hold hnew hnot
  rw [← hpresent] at hkeys hmaps
  refine ⟨⟨h.max_eq, (List.length_set ..).trans h.length_eq, h.current_le, fun c hmem => ?_,
    hkeys⟩, hmaps⟩
  rw [List.take_set] at hmem
  rcases List.mem_or_eq_of_mem_set hmem with hmem | rfl
  · exact h.used c hmem
  · exact hstatus

theorem modify_eq_set {f : EnvItem → EnvItem} (hi : env.items[i]? = some item) :
    env.items.modify i f = env.items.set i (f item) := by
  rw [List.modify_eq_set_getElem?, hi]
  rfl

/-- What `env_first_free` finds is an empty item, or the item at the mark, which it
moves up. -/
theorem envFirstFree_spec (h : EnvInv env) :
    (∃ i item, envFirstFree env = (some i, env) ∧ i < env.current ∧
      env.items[i]? = some item ∧ item.entry = none) ∨
    (envFirstFree env = (some env.current, { env with current := env.current + 1 }) ∧
      env.current < envSize) ∨
    (envFirstFree env = (none, env) ∧ (present env).length = envSize) := by
  unfold envFirstFree
  cases hempty : (env.items.take env.current).findIdx? fun item => item.status &&& envEmpty ≠ 0 with
  | some i =>
    obtain ⟨hlt, hfound, -⟩ := List.findIdx?_eq_some_iff_getElem.mp hempty
    have hfound := of_decide_eq_true hfound
    have hlen := List.length_take .. ▸ hlt
    rw [List.getElem_take] at hfound
    have hi : i < env.items.length := by omega
    refine Or.inl ⟨i, env.items[i], rfl, by omega, List.getElem?_eq_getElem hi, ?_⟩
    have hmem := List.getElem_mem hlt
    rw [List.getElem_take] at hmem
    rcases h.used _ hmem with hstatus | hstatus
    · rw [hstatus] at hfound
      exact absurd (by decide) hfound
    · exact entry_of_empty hstatus
  | none =>
    have hall : ∀ item ∈ env.items.take env.current, item.entry = some (item.key, item.value) :=
      fun item hmem => h.entry_of_not_empty hmem
        (of_decide_eq_false (List.findIdx?_eq_none_iff.mp hempty item hmem))
    by_cases hroom : env.current ≥ env.max
    · refine Or.inr (Or.inr ⟨if_pos hroom, ?_⟩)
      have hmax := h.max_eq
      have hcurrent := h.current_le
      have hlen : (present env).length = (env.items.take env.current).length :=
        List.filterMap_length_eq_length.mpr fun item hmem => by rw [hall item hmem]; rfl
      rw [hlen, List.length_take, h.length_eq]
      omega
    · have hmax := h.max_eq
      exact Or.inr (Or.inl ⟨if_neg hroom, by omega⟩)

/-! ## The operations -/

/-- An item at the mark is put below it. -/
theorem present_append (h : EnvInv env) (hlt : env.current < envSize) {new : EnvItem}
    (hnew : new.entry = some (key, v)) (hstatus : new.status = envPresent)
    (hnot : ∀ w, (key, w) ∉ present env) {env' : Env}
    (henv' : env' = { env with
      current := env.current + 1
      items := env.items.set env.current new }) :
    EnvInv env' ∧ MapsBut (present env) (present env') key (some v) := by
  subst henv'
  have hlen := h.length_eq
  have htake : (env.items.set env.current new).take (env.current + 1) =
      env.items.take env.current ++ [new] := by
    rw [List.take_add_one, List.take_set_of_le (Nat.le_refl _), List.getElem?_set_self (by omega)]
    rfl
  have hpresent : present { env with
      current := env.current + 1
      items := env.items.set env.current new } = present env ++ [(key, v)] := by
    unfold present
    rw [htake, entries_append]
    simp [entries, hnew]
  have hkeys : KeysNodup (present env ++ (none : Option (Key × Nat)).toList ++ []) := by
    simpa using h.keys
  have hone : ∀ e ∈ some (key, v), e.1 = key := by simp
  obtain ⟨hnodup, hmaps⟩ := hkeys.write nofun hone fun _ => by simpa using hnot
  simp only [Option.toList_none, Option.toList_some, List.append_nil] at hnodup hmaps
  refine ⟨⟨h.max_eq, (List.length_set ..).trans hlen, hlt, fun item hmem => ?_, ?_⟩, ?_⟩
  · rw [htake, List.mem_append, List.mem_singleton] at hmem
    rcases hmem with hold | rfl
    · exact h.used item hold
    · exact Or.inl hstatus
  · rw [hpresent]
    exact hnodup
  · rw [hpresent]
    exact hmaps

/-- A put of a key that is present: the key has the value now. -/
theorem envPut_of_index (h : EnvInv env) (hindex : envIndex env key = some i) (v : Nat) :
    ∃ env', envPut env key v = .ok (env', none) ∧ EnvInv env' ∧
      MapsBut (present env) (present env') key (some v) := by
  obtain ⟨item, hlt, hi, hentry⟩ := envIndex_eq_some hindex
  have hvalue : EnvItem.entry { item with value := v } = some (key, v) := by
    obtain ⟨hstatus, hpair⟩ := EnvItem.entry_eq_some hentry
    cases hpair
    exact if_pos hstatus
  have hused := h.used item (List.mem_of_getElem? (i := i) (by
    rw [List.getElem?_take_of_lt hlt, hi]))
  have hset := h.set hlt hi key { item with value := v } hused (by simp [hentry])
    (by simp [hvalue]) (by simp [hentry])
  rw [hvalue] at hset
  unfold envPut
  rw [hindex]
  refine ⟨_, rfl, ?_⟩
  rw [modify_eq_set hi]
  exact hset

/-- A put of a short key: the key has the value now, or the put was dropped with a
warning, when all items were present with other keys. -/
theorem envPut_spec (h : EnvInv env) (hkey : key.val.length < envKeyLen) (v : Nat) :
    (∃ env', envPut env key v = .ok (env', none) ∧ EnvInv env' ∧
      MapsBut (present env) (present env') key (some v)) ∨
    (∃ warning, envPut env key v = .ok (env, some warning) ∧
      (present env).length = envSize ∧ ∀ w, (key, w) ∉ present env) := by
  cases hindex : envIndex env key with
  | some i => exact Or.inl (envPut_of_index h hindex v)
  | none =>
    unfold envPut
    rw [hindex]
    have hnot := envIndex_eq_none hindex
    simp only [require_of _ hkey, ok_bind]
    rcases envFirstFree_spec h with
      ⟨i, item, hfree, hlt, hi, hentry⟩ | ⟨hfree, hlt⟩ | ⟨hfree, hfull⟩
    · rw [hfree]
      have hset := h.set hlt hi key { status := envPresent, key := key, value := v } (Or.inl rfl)
        (by simp [hentry]) (by simp [entry_present]) fun _ => hnot
      rw [entry_present] at hset
      exact Or.inl ⟨_, rfl, hset⟩
    · rw [hfree]
      exact Or.inl ⟨_, rfl, present_append h hlt (entry_present key v) rfl hnot rfl⟩
    · rw [hfree]
      exact Or.inr ⟨"env tried to put to full environment", rfl, hfull, hnot⟩

/-- A put that returns, of whatever key, was stored or dropped. -/
theorem envPut_cases (h : EnvInv env) {env' : Env} {warning : Option String}
    (hput : envPut env key v = .ok (env', warning)) :
    (warning = none ∧ EnvInv env' ∧ MapsBut (present env) (present env') key (some v)) ∨
    (warning ≠ none ∧ env' = env ∧ (present env).length = envSize ∧
      ∀ w, (key, w) ∉ present env) := by
  cases hindex : envIndex env key with
  | some i =>
    obtain ⟨env₁, hok, hinv, hmaps⟩ := envPut_of_index h hindex v
    cases hput.symm.trans hok
    exact Or.inl ⟨rfl, hinv, hmaps⟩
  | none =>
    have hkey : key.val.length < envKeyLen := by
      unfold envPut at hput
      rw [hindex] at hput
      obtain ⟨u, hkey, -⟩ := bind_eq_ok hput
      exact require_eq_ok hkey
    rcases envPut_spec h hkey v with ⟨env₁, hok, hstored⟩ | ⟨warning', hok, hfull⟩
    · cases hput.symm.trans hok
      exact Or.inl ⟨rfl, hstored⟩
    · cases hput.symm.trans hok
      exact Or.inr ⟨Option.some_ne_none _, rfl, hfull⟩

/-- A put that returns keeps the environment in order. -/
theorem EnvInv.put (h : EnvInv env) {env' : Env} {warning : Option String}
    (hput : envPut env key v = .ok (env', warning)) : EnvInv env' := by
  rcases envPut_cases h hput with ⟨-, hinv, -⟩ | ⟨-, rfl, -⟩
  · exact hinv
  · exact h

/-- A remove: the key is not present any more. -/
theorem envRemove_spec (h : EnvInv env) (key : Key) :
    EnvInv (envRemove env key).1 ∧
      MapsBut (present env) (present (envRemove env key).1) key none := by
  unfold envRemove
  cases hindex : envIndex env key with
  | some i =>
    obtain ⟨item, hlt, hi, hentry⟩ := envIndex_eq_some hindex
    have hempty : EnvItem.entry { item with status := envEmpty } = none := entry_of_empty rfl
    have hset := h.set hlt hi key { item with status := envEmpty } (Or.inr rfl)
      (by simp [hentry]) (by simp [hempty]) (by simp [hentry])
    rw [hempty] at hset
    simp only [modify_eq_set hi]
    exact hset
  | none =>
    refine ⟨h, fun k v => ?_⟩
    have hnot := envIndex_eq_none hindex
    by_cases hk : k = key
    · subst hk
      simp [hnot]
    · simp [hk]

end Spec

/-! ## Any sequence of puts and removes -/

/-- A call that changes an environment. -/
inductive EnvCall where
  | put (key : Key) (value : Nat)
  | remove (key : Key)
  deriving DecidableEq, Repr

/-- A call that was made, with the warning that it logged: a put with a warning was
dropped. -/
abbrev EnvEvent : Type := EnvCall × Option String

/-- One call, with the events so far. -/
def envStep (s : Env × List EnvEvent) (call : EnvCall) : Except Fault (Env × List EnvEvent) :=
  match call with
  | .put key value => do
    let (env, warning) ← envPut s.1 key value
    return (env, s.2 ++ [(call, warning)])
  | .remove key => return ((envRemove s.1 key).1, s.2 ++ [(call, none)])

/-- The calls, one after the other, on a new environment. -/
def envRun (calls : List EnvCall) : Except Fault (Env × List EnvEvent) :=
  calls.foldlM envStep (envInit, [])

/-- The event decides what the environment holds for the key: an accepted put of
it, or a remove. -/
def EnvEvent.Decides (key : Key) (event : EnvEvent) : Prop :=
  event.1 = .remove key ∨ ∃ value, event = (.put key value, none)

/-- The last accepted put of the key is a put of the value, and no remove of the key
follows it. -/
def Held (history : List EnvEvent) (key : Key) (value : Nat) : Prop :=
  Last (EnvEvent.Decides key) history (.put key value, none)

/-- The environment is in order and holds what its history says. -/
structure EnvHolds (history : List EnvEvent) (env : Env) : Prop where
  inv : EnvInv env
  held : ∀ k v, (k, v) ∈ present env ↔ Held history k v

theorem envHolds_init : EnvHolds [] envInit where
  inv := envInv_init
  held k v := by
    refine iff_of_false (fun hmem => ?_) not_last_nil
    simp [present, entries, envInit] at hmem

section Run

variable {history : List EnvEvent} {env : Env} {k : Key}

theorem EnvHolds.put (h : EnvHolds history env) {env' : Env} {v : Nat} (hinv : EnvInv env')
    (hmaps : MapsBut (present env) (present env') k (some v)) :
    EnvHolds (history ++ [(.put k v, none)]) env' where
  inv := hinv
  held k' v' := by
    rw [hmaps k' v', h.held k' v']
    unfold Held
    rw [last_snoc]
    by_cases hk : k' = k
    · subst hk
      simp [EnvEvent.Decides, eq_comm]
    · simp [EnvEvent.Decides, hk, Ne.symm hk]

theorem EnvHolds.dropped (h : EnvHolds history env) {v : Nat} {warning : String} :
    EnvHolds (history ++ [(.put k v, some warning)]) env where
  inv := h.inv
  held k' v' := by
    have hnot : ¬ EnvEvent.Decides k' (.put k v, some warning) := by simp [EnvEvent.Decides]
    rw [h.held k' v', Held, Held, last_snoc_of_not hnot]

theorem EnvHolds.remove (h : EnvHolds history env) (k : Key) :
    EnvHolds (history ++ [(.remove k, none)]) (envRemove env k).1 := by
  obtain ⟨hinv, hmaps⟩ := envRemove_spec h.inv k
  refine ⟨hinv, fun k' v' => ?_⟩
  rw [hmaps k' v', h.held k' v']
  unfold Held
  rw [last_snoc]
  by_cases hk : k' = k
  · subst hk
    simp [EnvEvent.Decides]
  · simp [EnvEvent.Decides, hk, Ne.symm hk]

/-- One call with a short key. -/
theorem EnvHolds.step (h : EnvHolds history env) (call : EnvCall)
    (hshort : ∀ k v, call = .put k v → k.val.length < envKeyLen) :
    ∃ env' warning, envStep (env, history) call = .ok (env', history ++ [(call, warning)]) ∧
      EnvHolds (history ++ [(call, warning)]) env' := by
  cases call with
  | put k v =>
    rcases envPut_spec h.inv (hshort k v rfl) v with
      ⟨env', hput, hinv, hmaps⟩ | ⟨warning, hput, -, -⟩
    · exact ⟨env', none, by simp [envStep, hput], h.put hinv hmaps⟩
    · exact ⟨env, some warning, by simp [envStep, hput], h.dropped⟩
  | remove k => exact ⟨_, none, rfl, h.remove k⟩

/-- Any calls with short keys. -/
theorem envRun_holds (calls : List EnvCall)
    (hshort : ∀ k v, .put k v ∈ calls → k.val.length < envKeyLen) :
    ∃ env history, envRun calls = .ok (env, history) ∧ history.map Prod.fst = calls ∧
      EnvHolds history env := by
  obtain ⟨⟨env, history⟩, hrun, hcalls, hholds⟩ : ∃ t, calls.foldlM envStep (envInit, []) = .ok t ∧
      t.2.map Prod.fst = calls ∧ EnvHolds t.2 t.1 := by
    refine foldlM_ok (fun done (t : Env × List EnvEvent) => t.2.map Prod.fst = done ∧ EnvHolds t.2 t.1)
      ⟨rfl, envHolds_init⟩ fun done call s hmem ⟨hdone, hs⟩ => ?_
    obtain ⟨env', warning, hstep, h'⟩ := hs.step call fun k v hput => hshort k v (hput ▸ hmem)
    exact ⟨_, hstep, by simp [hdone], h'⟩
  exact ⟨env, history, hrun, hcalls, hholds⟩

/-- `keys` lists the present keys, each once. -/
def PresentKeys (history : List EnvEvent) (keys : List Key) : Prop :=
  keys.Nodup ∧ ∀ k, k ∈ keys ↔ ∃ v, Held history k v

theorem EnvHolds.presentKeys (h : EnvHolds history env) :
    PresentKeys history ((present env).map Prod.fst) := by
  refine ⟨h.inv.keys, fun k => ?_⟩
  rw [List.mem_map]
  constructor
  · intro ⟨⟨_, v⟩, hmem, hk⟩
    subst hk
    exact ⟨v, (h.held _ v).mp hmem⟩
  · intro ⟨v, hv⟩
    exact ⟨(k, v), (h.held k v).mpr hv, rfl⟩

/-- After any puts of short keys and any removes: `_env_get` returns the value of the
last accepted put that no remove follows, and `NULL` if there is none;
`env_iterate` passes on each present key once, with that value; and a put that is
dropped leaves the environment as it is, with 128 keys present and its own not
among them. -/
theorem envRun_refines (calls : List EnvCall)
    (hshort : ∀ k v, .put k v ∈ calls → k.val.length < envKeyLen) :
    ∃ env history, envRun calls = .ok (env, history) ∧ history.map Prod.fst = calls ∧
      (∀ k v, Held history k v → envGet env k = v) ∧
      (∀ k, (¬ ∃ v, Held history k v) → envGet env k = 0) ∧
      PresentKeys history ((envIterate env).map Prod.fst) ∧
      (∀ k v, (k, v) ∈ envIterate env ↔ Held history k v) ∧
      ∀ k v env' warning, k.val.length < envKeyLen →
        envPut env k v = .ok (env', some warning) →
        env' = env ∧ (¬ ∃ w, Held history k w) ∧
        ∃ keys, PresentKeys history keys ∧ keys.length = 128 := by
  obtain ⟨env, history, hrun, hcalls, h⟩ := envRun_holds calls hshort
  refine ⟨env, history, hrun, hcalls, fun k v hv => ?_, fun k hnot => ?_, h.presentKeys, h.held,
    fun k v env' warning hkey hput => ?_⟩
  · exact envGet_of_mem h.inv ((h.held k v).mpr hv)
  · exact envGet_of_not_mem fun v hv => hnot ⟨v, (h.held k v).mp hv⟩
  · rcases envPut_spec h.inv hkey v with ⟨env₁, hok, -, -⟩ | ⟨warning', hdrop, hlen, hnot⟩
    · rw [hput] at hok
      cases hok
    · rw [hput] at hdrop
      cases hdrop
      refine ⟨rfl, fun ⟨w, hw⟩ => hnot w ((h.held k w).mpr hw), _, h.presentKeys, ?_⟩
      rw [List.length_map]
      exact hlen

/-- Three calls: a key is put and removed, and another is put in its place. -/
theorem envRun_refines_reuse :
    ∃ env history, envRun [.put ⟨[97], by decide⟩ 1, .remove ⟨[97], by decide⟩,
        .put ⟨[98], by decide⟩ 2] = .ok (env, history) ∧
      envGet env ⟨[97], by decide⟩ = 0 ∧ envIterate env = [(⟨[98], by decide⟩, 2)] := by
  obtain ⟨env, history, hrun, -⟩ := envRun_refines
    [.put ⟨[97], by decide⟩ 1, .remove ⟨[97], by decide⟩, .put ⟨[98], by decide⟩ 2] (by
      intro k v hmem
      simp only [List.mem_cons, EnvCall.put.injEq, List.not_mem_nil, or_false] at hmem
      rcases hmem with ⟨rfl, -⟩ | hmem | ⟨rfl, -⟩
      · decide
      · cases hmem
      · decide)
  cases hrun
  exact ⟨_, _, rfl, by decide, by decide⟩

end Run

/-! ## What a remove returns -/

/-- `sizeof(env_item_t)` -/
def envItemSize : Nat := 72

/-- `&env->items[index]`, of an array at `items`. -/
def envItemAddr (items index : Nat) : Nat := wrap (items + index * envItemSize)

/-- The pointer that `env_remove(env, key)` returns, of an environment whose array is
at `items`. -/
def envRemoved (items : Nat) (env : Env) (key : Key) : Nat :=
  match (envRemove env key).2 with
  | some index => envItemAddr items index
  | none => 0

/-- A remove does what its comment says: it returns the value that the key had, the key
is gone, and all others have the values that they had. -/
structure RemovesValue (items : Nat) (env : Env) (key : Key) : Prop where
  returns : envRemoved items env key = envGet env key
  removed : envGet (envRemove env key).1 key = 0
  others : ∀ k, k ≠ key → envGet (envRemove env key).1 k = envGet env k

/-- The key is absent, or its value is the address of its own item. -/
def ValueIsItem (items : Nat) (env : Env) (key : Key) : Prop :=
  ∀ i, envIndex env key = some i → envGet env key = envItemAddr items i

section Removed

variable {calls : List EnvCall} {history : List EnvEvent} {env env' : Env} {k key : Key}

/-- Calls that return, of whatever keys, leave the environment in order. -/
theorem envRun_inv (hrun : envRun calls = .ok (env, history)) : EnvInv env := by
  refine foldlM_invariant (fun s => EnvInv s.1) (fun s call s' h hstep => ?_) envInv_init hrun
  cases call with
  | put k v =>
    obtain ⟨⟨env₁, warning⟩, hput, hs⟩ := bind_eq_ok hstep
    cases hs
    exact h.put hput
  | remove k =>
    cases hstep
    exact (envRemove_spec h k).1

/-- What is present for a key decides what `_env_get` returns. -/
theorem envGet_congr (h : EnvInv env) (h' : EnvInv env')
    (hsame : ∀ v, (k, v) ∈ present env' ↔ (k, v) ∈ present env) : envGet env' k = envGet env k := by
  by_cases hpresent : ∃ v, (k, v) ∈ present env
  · obtain ⟨v, hv⟩ := hpresent
    rw [envGet_of_mem h hv, envGet_of_mem h' ((hsame v).mpr hv)]
  · rw [not_exists] at hpresent
    rw [envGet_of_not_mem hpresent,
      envGet_of_not_mem fun v hv => hpresent v ((hsame v).mp hv)]

/-- What `env_remove` returns is the address of the item, not its value. -/
theorem envRemoved_eq_iff (items : Nat) :
    envRemoved items env key = envGet env key ↔ ValueIsItem items env key := by
  unfold envRemoved envRemove ValueIsItem
  cases hindex : envIndex env key with
  | none => simp [envGet, hindex]
  | some i => simp [eq_comm]

/-- After any calls, a remove does what its comment says exactly if the key is absent or
its value is the address of its own item. -/
theorem envRemove_removesValue_iff (items : Nat) (hrun : envRun calls = .ok (env, history))
    (key : Key) : RemovesValue items env key ↔ ValueIsItem items env key := by
  have h := envRun_inv hrun
  obtain ⟨h', hmaps⟩ := envRemove_spec h key
  constructor
  · intro hremoves
    exact (envRemoved_eq_iff items).mp hremoves.returns
  · intro hitem
    refine ⟨(envRemoved_eq_iff items).mpr hitem, ?_, fun k hk => ?_⟩
    · refine envGet_of_not_mem fun v hv => ?_
      rw [hmaps key v] at hv
      simp at hv
    · refine envGet_congr h h' fun v => ?_
      rw [hmaps k v]
      simp [hk]

/-- The key `a` is put with the value 5, in an environment with its items at 4096. -/
def putA : List EnvCall := [.put ⟨[97], nul_not_mem_a⟩ 5]

theorem envRemove_removesValue_absent :
    ∃ env history, envRun putA = .ok (env, history) ∧
      RemovesValue 4096 env ⟨[98], by decide⟩ := by
  have hrun : envRun putA = .ok _ := rfl
  refine ⟨_, _, hrun, (envRemove_removesValue_iff 4096 hrun _).mpr fun i hi => ?_⟩
  exact absurd (hi.symm.trans (by decide)) (Option.some_ne_none i)

/-- A remove of the key returns the address 4096 of its item. -/
theorem not_removesValue_putA :
    ¬ ∀ env history, envRun putA = .ok (env, history) →
      RemovesValue 4096 env ⟨[97], by decide⟩ := by
  intro h
  have hreturns := (h _ _ rfl).returns
  revert hreturns
  decide

end Removed

end Microboot.Kern
