/-
  Kern/EnvText.lean --- reading an environment from a text, kern/env.c.

  `env_kvp_lines_add` cuts a text into its lines with `strtok`, and
  `env_kvp_str_add` cuts a line at its first `=` and puts the part in front as a
  key, with a pointer to the part behind as its value.  The text is cut in place,
  so what the pointers read as is a statement about the memory afterwards.

  The loop stops at the first line without `=`.  It does not stop at a put that
  `env_put` drops, and does not report it: `envKvpLinesAdd_faithful_iff` says for
  which environments and texts that makes no difference.
-/
import Mathlib.Data.Finset.Card
import Mathlib.Data.Finset.Dedup
import Mathlib.Data.List.Forall2
import Microboot.Kern.Env

set_option autoImplicit false

namespace Microboot.Kern

open Microboot.Foundation

/-! ## The model -/

/-- `"\n"` -/
def newlineDelim : List UInt8 := [10]

/-- The string at `p`. -/
def keyAt (m : Mem) (p : Nat) : Option Key :=
  match cstr m p with
  | some s => if h : (0 : UInt8) ∉ s then some ⟨s, h⟩ else none
  | none => none

/-- `env_kvp_str_add(env, kvp_string)`: the environment with the puts so far, the
memory, and what is returned. -/
def envKvpStrAdd (s : Env × List EnvEvent) (m : Mem) (kvpString : Nat) :
    Except Fault ((Env × List EnvEvent) × Mem × Nat) :=
  match (cstr m kvpString).map fun text => strchr text 61 with
  | none => throw .hang
  | some none => return (s, m, 0)
  | some (some offset) =>
    let mid := kvpString + offset
    let m := m.store8 mid 0
    match keyAt m kvpString with
    | none => throw .hang
    | some key => do
      let s ← envStep s (.put key (mid + 1))
      return (s, m, 1)

/-- The loop of `env_kvp_lines_add`, from a call `strtok(str, "\n")` on. -/
def envKvpLoop : Nat → Env × List EnvEvent → Mem → Nat → Nat →
    Except Fault ((Env × List EnvEvent) × Mem × Nat)
  | 0, _, _, _, _ => throw .hang
  | fuel + 1, s, m, str, saveptr =>
    match strtokR m str newlineDelim saveptr with
    | none => throw .hang
    | some (m, token, saveptr) =>
      if token = 0 then return (s, m, 1)
      else do
        let (s, m, added) ← envKvpStrAdd s m token
        if added = 0 then return (s, m, 0)
        else envKvpLoop fuel s m 0 saveptr

/-- `env_kvp_lines_add(env, kvp_lines)`; `saveptr` is what `strtok` keeps from its
last call. -/
def envKvpLinesAdd (env : Env) (m : Mem) (kvpLines saveptr : Nat) :
    Except Fault ((Env × List EnvEvent) × Mem × Nat) :=
  envKvpLoop addrSpace (env, []) m kvpLines saveptr

/-! ## Lines -/

/-- The lines that are not empty. -/
def kvpLines (text : List UInt8) : List (List UInt8) := words (isDelim newlineDelim) text

/-- The part of a line in front of its first `=`, and the part behind it. -/
def lineKey (line : List UInt8) : List UInt8 := line.takeWhile (· ≠ 61)
def lineValue (line : List UInt8) : List UInt8 := (line.dropWhile (· ≠ 61)).tail

/-- The lines in front of the first without `=`. -/
def goodLines (lines : List (List UInt8)) : List (List UInt8) :=
  lines.takeWhile fun line => 61 ∈ line

section Lines

variable {k v line : List UInt8} {lines : List (List UInt8)}

theorem ne_of_not_mem (hk : 61 ∉ k) : ∀ c ∈ k, decide (c ≠ 61) = true := fun _ hc =>
  decide_eq_true fun heq => hk (heq ▸ hc)

theorem lineKey_append (hk : 61 ∉ k) : lineKey (k ++ 61 :: v) = k := by
  unfold lineKey
  rw [List.takeWhile_append_of_pos (ne_of_not_mem hk)]
  simp

theorem lineValue_append (hk : 61 ∉ k) : lineValue (k ++ 61 :: v) = v := by
  unfold lineValue
  rw [List.dropWhile_append_of_pos (ne_of_not_mem hk)]
  simp

theorem goodLines_cons (h : 61 ∈ line) : goodLines (line :: lines) = line :: goodLines lines :=
  List.takeWhile_cons_of_pos (decide_eq_true h)

theorem goodLines_cons_bad (h : 61 ∉ line) : goodLines (line :: lines) = [] :=
  List.takeWhile_cons_of_neg (by simpa using h)

theorem goodLines_eq_self (h : ∀ line ∈ lines, 61 ∈ line) : goodLines lines = lines :=
  List.takeWhile_eq_self_iff.mpr fun line hline => decide_eq_true (h line hline)

end Lines

/-! ## The puts that the loop makes -/

/-- The puts of the items, in order. -/
def putAll (s : Env × List EnvEvent) (items : List (Key × Nat)) :
    Except Fault (Env × List EnvEvent) :=
  items.foldlM (fun s item => envStep s (.put item.1 item.2)) s

/-- The item has the key of the line, and points to its value. -/
structure ItemAt (m : Mem) (item : Key × Nat) (line : List UInt8) : Prop where
  key : item.1.val = lineKey line
  value : StrAt m item.2 (lineValue line)

/-- What the loop returns: non-zero if all lines have a `=`. -/
def kvpRet (lines : List (List UInt8)) : Nat := if ∀ line ∈ lines, 61 ∈ line then 1 else 0

section Loop

variable {m : Mem} {p : Nat} {k v w : List UInt8}

theorem keyAt_eq {s : List UInt8} (h : StrAt m p s) : keyAt m p = some ⟨s, h.nulFree⟩ := by
  unfold keyAt
  rw [cstr_eq h]
  exact dif_pos h.nulFree

/-- A line without `=` is not added. -/
theorem envKvpStrAdd_bad (h : StrAt m p w) (hw : 61 ∉ w) (s : Env × List EnvEvent) :
    envKvpStrAdd s m p = .ok (s, m, 0) := by
  unfold envKvpStrAdd
  rw [cstr_eq h, Option.map_some, (strchr_eq_none_iff (by decide)).mpr hw]
  rfl

/-- A line with `=` is cut there, and put. -/
theorem envKvpStrAdd_good (h : StrAt m p (k ++ 61 :: v)) (hk : 61 ∉ k) :
    ∃ key : Key, key.val = k ∧ ∀ s, envKvpStrAdd s m p =
      (fun s' => (s', m.store8 (p + k.length) 0, 1)) <$>
        envStep s (.put key (p + k.length + 1)) := by
  refine ⟨⟨k, h.cut.1.nulFree⟩, rfl, fun s => ?_⟩
  unfold envKvpStrAdd
  rw [cstr_eq h, Option.map_some, strchr_append hk]
  dsimp only
  rw [keyAt_eq h.cut.1]
  dsimp only
  cases envStep s (.put ⟨k, h.cut.1.nulFree⟩ (p + k.length + 1)) <;> rfl

/-- The loop on a text at `strtok`'s pointer: it makes the puts of the good lines, cuts the
text in place and touches nothing else. -/
def LoopReads (fuel : Nat) (text : List UInt8) : Prop :=
  ∀ (m : Mem) (str saveptr : Nat), tokSource str saveptr ≠ 0 →
    StrAt m (tokSource str saveptr) text →
    ∃ m' items, (∀ s, envKvpLoop fuel s m str saveptr =
        (fun s' => (s', m', kvpRet (kvpLines text))) <$> putAll s items) ∧
      List.Forall₂ (ItemAt m') items (goodLines (kvpLines text)) ∧
      ∀ x, x < tokSource str saveptr ∨ tokSource str saveptr + text.length ≤ x → m' x = m x

theorem loopReads_blank {text : List UInt8} (htext : Blank (isDelim newlineDelim) text)
    (fuel : Nat) : LoopReads (fuel + 1) text := by
  intro m str saveptr hp h
  have hlines : kvpLines text = [] := words_of_blank htext
  refine ⟨m, [], fun s => ?_, ?_, fun _ _ => rfl⟩
  · unfold envKvpLoop
    rw [strtokR_blank newlineDelim str saveptr hp h htext, hlines]
    rfl
  · rw [hlines]
    exact .nil

theorem kvpRet_bad {lines : List (List UInt8)} (hw : 61 ∉ w) : kvpRet (w :: lines) = 0 :=
  if_neg fun h => hw (h w List.mem_cons_self)

theorem kvpRet_good {lines : List (List UInt8)} (hw : 61 ∈ w) :
    kvpRet (w :: lines) = kvpRet lines := by
  unfold kvpRet
  simp [hw]

/-- One round: `strtok` has found the line `w` at `token`, and the rest of the text is at `q`. -/
theorem loopReads_token {fuel str saveptr token q : Nat} {m₁ : Mem} {rest : List UInt8}
    (htok : strtokR m str newlineDelim saveptr = some (m₁, token, q)) (htoken : token ≠ 0)
    (hw : StrAt m₁ token w) (hrest : StrAt m₁ q rest) (hq : token + w.length ≤ q)
    (hend : token + w.length < q ∨ rest = []) (ih : LoopReads fuel rest) :
    ∃ m' items, (∀ s, envKvpLoop (fuel + 1) s m str saveptr =
        (fun s' => (s', m', kvpRet (w :: kvpLines rest))) <$> putAll s items) ∧
      List.Forall₂ (ItemAt m') items (goodLines (w :: kvpLines rest)) ∧
      ∀ x, x < token ∨ q + rest.length ≤ x → m' x = m₁ x := by
  have hround : ∀ s, envKvpLoop (fuel + 1) s m str saveptr = (do
      let (s, m, added) ← envKvpStrAdd s m₁ token
      if added = 0 then return (s, m, 0)
      else envKvpLoop fuel s m 0 q) := by
    intro s
    rw [envKvpLoop, htok]
    exact if_neg htoken
  by_cases hsep : 61 ∈ w
  · obtain ⟨k, v, rfl, hk⟩ := List.eq_append_cons_of_mem hsep
    rw [List.length_append, List.length_cons] at hq hend
    obtain ⟨key, hkey, hadd⟩ := envKvpStrAdd_good hw hk
    obtain ⟨-, hvalue⟩ := hw.cut
    -- the rest is behind the line
    have hrest' : StrAt (m₁.store8 (token + k.length) 0) q rest :=
      hrest.congr fun x hx _ => Mem.store8_apply_of_ne _ _ (by have := hrest.fits; omega) (by omega)
    obtain ⟨m', items, hrun, hitems, hframe⟩ := ih _ 0 q (by rw [tokSource_null]; omega) hrest'
    rw [tokSource_null] at hframe
    refine ⟨m', (key, token + k.length + 1) :: items, fun s => ?_, ?_, fun x hx => ?_⟩
    · rw [hround, hadd, kvpRet_good hsep]
      unfold putAll
      rw [List.foldlM_cons]
      cases envStep s (.put key (token + k.length + 1)) with
      | error fault => rfl
      | ok s₁ => exact hrun s₁
    · rw [goodLines_cons hsep]
      refine .cons ⟨?_, ?_⟩ hitems
      · rw [lineKey_append hk]
        exact hkey
      · rw [lineValue_append hk]
        refine hvalue.congr fun x _ hx => hframe x ?_
        rcases hend with hlt | rfl
        · omega
        · rw [List.length_nil]
          omega
    · rw [hframe x (by omega)]
      exact Mem.store8_apply_of_ne _ _ (by have := hrest.fits; omega) (by omega)
  · refine ⟨m₁, [], fun s => ?_, ?_, fun _ _ => rfl⟩
    · rw [hround, envKvpStrAdd_bad hw hsep, kvpRet_bad hsep]
      rfl
    · rw [goodLines_cons_bad hsep]
      exact .nil

theorem loopReads (text : List UInt8) : ∀ fuel, text.length < fuel → LoopReads fuel text := by
  induction text using wordInduction (isDelim newlineDelim) with
  | blank text htext =>
    intro fuel hfuel
    obtain ⟨fuel, rfl⟩ := Nat.exists_eq_add_one_of_ne_zero (by omega : fuel ≠ 0)
    exact loopReads_blank htext fuel
  | last lead w hl hw =>
    intro fuel hfuel m str saveptr hp h
    have hpos : 0 < w.length := List.length_pos_of_ne_nil hw.1
    rw [List.length_append] at hfuel
    -- one round for the line, one more that finds nothing
    obtain ⟨fuel, rfl⟩ : ∃ k, fuel = k + 2 := ⟨fuel - 2, by omega⟩
    have htok := strtokR_last newlineDelim str saveptr hp h hl hw
    have hend : StrAt m (tokSource str saveptr + lead.length + w.length) [] :=
      StrAt.drop (v := []) (by simpa using h.drop)
    have hnil : kvpLines [] = [] := rfl
    obtain ⟨m', items, hrun, hitems, hframe⟩ := loopReads_token htok (by omega) h.drop hend
      (Nat.le_refl _) (Or.inr rfl) (loopReads_blank (by simp [Blank]) fuel)
    rw [kvpLines, words_append_blank hl, words_of_isWord hw]
    rw [hnil] at hrun hitems
    refine ⟨m', items, hrun, hitems, fun x hx => hframe x ?_⟩
    rw [List.length_append] at hx
    rw [List.length_nil]
    omega
  | cons lead w d rest hl hw hd ih =>
    intro fuel hfuel m str saveptr hp h
    have hfits := h.fits
    simp only [List.length_append, List.length_cons] at hfuel hfits
    obtain ⟨fuel, rfl⟩ := Nat.exists_eq_add_one_of_ne_zero (by omega : fuel ≠ 0)
    have htok := strtokR_cons newlineDelim str saveptr hp h hl hw hd
    -- the delimiter after the line becomes its terminator
    obtain ⟨hline, hrest⟩ := h.drop.cut
    obtain ⟨m', items, hrun, hitems, hframe⟩ := loopReads_token htok (by omega) hline hrest
      (by omega) (Or.inl (by omega)) (ih fuel (by omega))
    rw [kvpLines, words_append_blank hl, words_cons hw hd]
    refine ⟨m', items, hrun, hitems, fun x hx => ?_⟩
    simp only [List.length_append, List.length_cons] at hx
    rw [hframe x (by omega)]
    exact Mem.store8_apply_of_ne _ _ (by omega) (by omega)

/-- `env_kvp_lines_add` makes the puts of the lines in front of the first without `=`, and
returns non-zero if all lines have one. -/
theorem envKvpLinesAdd_eq {text : List UInt8} {kvpLines : Nat} (h : StrAt m kvpLines text)
    (hp : kvpLines ≠ 0) (env : Env) (saveptr : Nat) :
    ∃ m' items, envKvpLinesAdd env m kvpLines saveptr =
        (fun s => (s, m', kvpRet (Kern.kvpLines text))) <$> putAll (env, []) items ∧
      List.Forall₂ (ItemAt m') items (goodLines (Kern.kvpLines text)) := by
  have hfits := h.fits
  rw [← tokSource_of_ne hp saveptr] at h hp
  obtain ⟨m', items, hrun, hitems, -⟩ :=
    loopReads text addrSpace (by unfold addrSpace; omega) m kvpLines saveptr hp h
  exact ⟨m', items, hrun (env, []), hitems⟩

end Loop

/-! ## What the environment makes of the puts -/

/-- The puts of the items take `env` to `env'`. -/
inductive PutsTo : Env → List (Key × Nat) → Env → List EnvEvent → Prop where
  | nil (env : Env) : PutsTo env [] env []
  | cons {env env₁ env' : Env} {k : Key} {v : Nat} {warning : Option String}
      {items : List (Key × Nat)} {events : List EnvEvent} :
      envPut env k v = .ok (env₁, warning) → PutsTo env₁ items env' events →
      PutsTo env ((k, v) :: items) env' ((.put k v, warning) :: events)

/-- The keys that are present. -/
def envKeys (env : Env) : Finset (List UInt8) :=
  ((envIterate env).map fun entry => entry.1.val).toFinset

/-- The keys of the items. -/
def itemKeys (items : List (Key × Nat)) : Finset (List UInt8) :=
  (items.map fun item => item.1.val).toFinset

/-- The put was not dropped. -/
def EnvEvent.Stored (event : EnvEvent) : Prop := event.2 = none

section Puts

variable {env env₁ env' : Env} {k key : Key} {v : Nat} {items : List (Key × Nat)}
  {events stored lost : List EnvEvent}

theorem mem_envKeys : k.val ∈ envKeys env ↔ ∃ w, (k, w) ∈ present env := by
  rw [envKeys, List.mem_toFinset, List.mem_map]
  constructor
  · intro ⟨⟨k', w⟩, hmem, hk⟩
    cases Subtype.ext hk
    exact ⟨w, hmem⟩
  · intro ⟨w, hmem⟩
    exact ⟨(k, w), hmem, rfl⟩

theorem card_envKeys (h : EnvInv env) : (envKeys env).card = (present env).length := by
  have hnodup : ((present env).map fun entry => entry.1.val).Nodup := by
    have := h.keys.map Subtype.val_injective
    rwa [List.map_map] at this
  rw [envKeys, envIterate_eq, List.toFinset_card_of_nodup hnodup, List.length_map]

theorem card_envKeys_le (h : EnvInv env) : (envKeys env).card ≤ envSize := by
  have hpresent : (present env).length ≤ (env.items.take env.current).length :=
    List.length_filterMap_le ..
  have hcurrent := h.current_le
  rw [List.length_take] at hpresent
  rw [card_envKeys h]
  omega

theorem itemKeys_cons : itemKeys ((k, v) :: items) = insert k.val (itemKeys items) :=
  List.toFinset_cons

theorem PutsTo.putAll (h : PutsTo env items env' events) (history : List EnvEvent) :
    Kern.putAll (env, history) items = .ok (env', history ++ events) := by
  induction h generalizing history with
  | nil => rw [List.append_nil]; rfl
  | @cons env env₁ env' k v warning items events hput _ ih =>
    have hstep : envStep (env, history) (.put k v) =
        .ok (env₁, history ++ [(.put k v, warning)]) := by simp [envStep, hput]
    unfold Kern.putAll at ih ⊢
    rw [List.foldlM_cons, hstep, ok_bind, ih, List.append_assoc]
    rfl

/-- Puts of short keys return. -/
theorem exists_putsTo (h : EnvInv env) (hshort : ∀ item ∈ items, item.1.val.length < envKeyLen) :
    ∃ env' events, PutsTo env items env' events := by
  induction items generalizing env with
  | nil => exact ⟨env, [], .nil env⟩
  | cons item items ih =>
    have hrest : ∀ item ∈ items, item.1.val.length < envKeyLen := fun c hc =>
      hshort c (List.mem_cons_of_mem item hc)
    obtain ⟨k, v⟩ := item
    rcases envPut_spec h (hshort (k, v) List.mem_cons_self) v with
      ⟨env₁, hput, hinv, -⟩ | ⟨warning, hput, -, -⟩
    · obtain ⟨env', events, hputs⟩ := ih hinv hrest
      exact ⟨env', _, .cons hput hputs⟩
    · obtain ⟨env', events, hputs⟩ := ih h hrest
      exact ⟨env', _, .cons hput hputs⟩

/-- One put, on the keys: it is stored if at most 128 keys are present then. -/
theorem envPut_keys (h : EnvInv env) {warning : Option String}
    (hput : envPut env k v = .ok (env₁, warning)) :
    (warning = none ∧ EnvInv env₁ ∧ MapsBut (present env) (present env₁) k (some v) ∧
      envKeys env₁ = insert k.val (envKeys env)) ∨
    (warning ≠ none ∧ env₁ = env ∧ (envKeys env).card = envSize ∧ k.val ∉ envKeys env) := by
  rcases envPut_cases h hput with ⟨hnone, hinv, hmaps⟩ | ⟨hsome, rfl, hfull, hnot⟩
  · refine Or.inl ⟨hnone, hinv, hmaps, ?_⟩
    ext s
    rw [Finset.mem_insert]
    constructor
    · intro hs
      obtain ⟨⟨k', w⟩, hmem, rfl⟩ := List.mem_map.mp (List.mem_toFinset.mp hs)
      rcases (hmaps k' w).mp hmem with ⟨hk, -⟩ | ⟨-, hold⟩
      · exact Or.inl (congrArg Subtype.val hk)
      · exact Or.inr (mem_envKeys.mpr ⟨w, hold⟩)
    · intro hs
      by_cases hk : s = k.val
      · rw [hk]
        exact mem_envKeys.mpr ⟨v, (hmaps k v).mpr (Or.inl ⟨rfl, rfl⟩)⟩
      · obtain ⟨⟨k', w⟩, hmem, rfl⟩ := List.mem_map.mp (List.mem_toFinset.mp (hs.resolve_left hk))
        have hne : k' ≠ k := fun heq => hk (congrArg Subtype.val heq)
        exact mem_envKeys.mpr ⟨w, (hmaps k' w).mpr (Or.inr ⟨hne, hmem⟩)⟩
  · refine Or.inr ⟨hsome, rfl, (card_envKeys h).trans hfull, fun hk => ?_⟩
    obtain ⟨w, hw⟩ := mem_envKeys.mp hk
    exact hnot w hw

theorem PutsTo.inv (hputs : PutsTo env items env' events) (h : EnvInv env) : EnvInv env' := by
  induction hputs with
  | nil => exact h
  | cons hput _ ih => exact ih (h.put hput)

/-- If all puts are stored, the keys of the items are present too. -/
theorem PutsTo.envKeys_of_stored (hputs : PutsTo env items env' events) (h : EnvInv env)
    (hstored : ∀ event ∈ events, event.Stored) : envKeys env' = envKeys env ∪ itemKeys items := by
  induction hputs with
  | nil => exact (Finset.union_empty _).symm
  | cons hput _ ih =>
    have hrest : ∀ event ∈ _, EnvEvent.Stored event := fun e he =>
      hstored e (List.mem_cons_of_mem _ he)
    rcases envPut_keys h hput with ⟨-, hinv, -, hkeys⟩ | ⟨hsome, -⟩
    · rw [ih hinv hrest, hkeys, itemKeys_cons, Finset.insert_union, Finset.union_insert]
    · exact absurd (hstored _ List.mem_cons_self) hsome

/-- All puts are stored if and only if there are 128 keys at most, of the environment and
the items together. -/
theorem PutsTo.stored_iff (hputs : PutsTo env items env' events) (h : EnvInv env) :
    (∀ event ∈ events, event.Stored) ↔ (envKeys env ∪ itemKeys items).card ≤ envSize := by
  constructor
  · intro hstored
    rw [← hputs.envKeys_of_stored h hstored]
    exact card_envKeys_le (hputs.inv h)
  · intro hroom
    induction hputs with
    | nil => simp
    | cons hput _ ih =>
      rw [itemKeys_cons, Finset.union_insert, ← Finset.insert_union] at hroom
      rcases envPut_keys h hput with ⟨hnone, hinv, -, hkeys⟩ | ⟨-, -, hfull, hnot⟩
      · rw [← hkeys] at hroom
        exact List.forall_mem_cons.mpr ⟨hnone, ih hinv hroom⟩
      · -- the new key would be one of 129
        have hle := (Finset.card_le_card Finset.subset_union_left).trans hroom
        rw [Finset.card_insert_of_notMem hnot] at hle
        omega

/-- No put is stored if and only if there are 128 keys present, and the key of no item
among them. -/
theorem PutsTo.dropped_iff (hputs : PutsTo env items env' events) (h : EnvInv env) :
    (∀ event ∈ events, ¬ event.Stored) ↔ items = [] ∨
      ((envKeys env).card = envSize ∧ ∀ s ∈ itemKeys items, s ∉ envKeys env) := by
  induction hputs with
  | nil => simp
  | cons hput _ ih =>
    rw [List.forall_mem_cons, itemKeys_cons, Finset.forall_mem_insert]
    rcases envPut_keys h hput with ⟨hnone, hinv, -, hkeys⟩ | ⟨hsome, rfl, hfull, hnot⟩
    · refine iff_of_false (fun hall => hall.1 hnone) (not_or.mpr ⟨List.cons_ne_nil _ _, ?_⟩)
      intro ⟨hfull, hnot, _⟩
      have hle := card_envKeys_le hinv
      rw [hkeys, Finset.card_insert_of_notMem hnot] at hle
      omega
    · rw [ih h]
      constructor
      · intro ⟨_, hrest⟩
        refine Or.inr ⟨hfull, hnot, ?_⟩
        rcases hrest with rfl | ⟨-, hrest⟩
        · simp [itemKeys]
        · exact hrest
      · intro hall
        obtain ⟨-, -, hrest⟩ := hall.resolve_left (List.cons_ne_nil _ _)
        exact ⟨hsome, Or.inr ⟨hfull, hrest⟩⟩

/-- Puts that are all dropped leave the environment as it is. -/
theorem PutsTo.eq_of_dropped (hputs : PutsTo env items env' events) (h : EnvInv env)
    (hdropped : ∀ event ∈ events, ¬ event.Stored) : env' = env := by
  induction hputs with
  | nil => rfl
  | cons hput _ ih =>
    rw [List.forall_mem_cons] at hdropped
    rcases envPut_keys h hput with ⟨hnone, -⟩ | ⟨-, rfl, -⟩
    · exact absurd hnone hdropped.1
    · exact ih h hdropped.2

/-- Puts that are all stored: an entry is that of the last item with its key, or it was there
and no item has its key. -/
theorem PutsTo.mem_present (hputs : PutsTo env items env' events) (h : EnvInv env)
    (hstored : ∀ event ∈ events, event.Stored) (key : Key) (w : Nat) :
    (key, w) ∈ present env' ↔ Last (fun item => item.1 = key) items (key, w) ∨
      ((∀ item ∈ items, item.1 ≠ key) ∧ (key, w) ∈ present env) := by
  induction hputs with
  | nil => simp [not_last_nil]
  | @cons env env₁ env' k v warning items events hput _ ih =>
    rw [List.forall_mem_cons] at hstored
    rcases envPut_keys h hput with ⟨-, hinv, hmaps, -⟩ | ⟨hsome, -⟩
    · rw [ih hinv hstored.2, hmaps, last_cons, List.forall_mem_cons]
      by_cases hk : key = k
      · subst hk
        simp [eq_comm]
      · simp [hk, Ne.symm hk]
    · exact absurd hstored.1 hsome

/-- The first puts, and those behind them. -/
theorem PutsTo.split (hputs : PutsTo env items env' events) (n : Nat) :
    ∃ env₁, PutsTo env (items.take n) env₁ (events.take n) ∧
      PutsTo env₁ (items.drop n) env' (events.drop n) := by
  induction hputs generalizing n with
  | nil env =>
    refine ⟨env, ?_, ?_⟩
    · rw [List.take_nil, List.take_nil]
      exact .nil env
    · rw [List.drop_nil, List.drop_nil]
      exact .nil env
  | @cons env _ _ _ _ _ _ _ hput hrest ih =>
    cases n with
    | zero => exact ⟨env, .nil env, .cons hput hrest⟩
    | succ n =>
      obtain ⟨env₁, hfront, hback⟩ := ih n
      exact ⟨env₁, .cons hput hfront, hback⟩

end Puts

/-! ## What the text says -/

/-- The event is the put of the line. -/
def PutAt (m : Mem) (event : EnvEvent) (line : List UInt8) : Prop :=
  ∃ key value, event.1 = .put key value ∧ ItemAt m (key, value) line

/-- The lines were applied to `env`: each key has the part behind the `=` of the last line
with it, and the value that it had if there is none. -/
structure Applied (m : Mem) (env env' : Env) (lines : List (List UInt8)) : Prop where
  last : ∀ (key : Key) line, Last (fun line => lineKey line = key.val) lines line →
    StrAt m (envGet env' key) (lineValue line)
  kept : ∀ key : Key, (∀ line ∈ lines, lineKey line ≠ key.val) → envGet env' key = envGet env key

/-- What the comment of `env_kvp_lines_add` says: it returns non-zero if all lines were added,
and else the lines in front of the first that failed were. -/
structure AddsLines (m : Mem) (env env' : Env) (lines : List (List UInt8))
    (events : List EnvEvent) (ret : Nat) : Prop where
  made : List.Forall₂ (PutAt m) events (goodLines lines)
  returns : ret ≠ 0 ↔ (∀ line ∈ lines, 61 ∈ line) ∧ ∀ event ∈ events, event.Stored
  success : ret ≠ 0 → Applied m env env' lines
  failure : ret = 0 → ∃ before failing after stored lost,
    lines = before ++ failing :: after ∧ events = stored ++ lost ∧
    stored.length = before.length ∧ (61 ∉ failing ∨ lost ≠ []) ∧
    (∀ event ∈ stored, event.Stored) ∧ (∀ event ∈ lost, ¬ event.Stored) ∧
    Applied m env env' before

/-- The keys of the lines. -/
def lineKeys (lines : List (List UInt8)) : Finset (List UInt8) := (lines.map lineKey).toFinset

/-- The keys that are present and those of the lines, up to the first without `=`, are 128
at most; or a line without `=` follows, and the lines whose keys find 128 others present
are the last in front of it. -/
def LinesFit (env : Env) (lines : List (List UInt8)) : Prop :=
  ∃ stored lost, goodLines lines = stored ++ lost ∧
    (envKeys env ∪ lineKeys stored).card ≤ envSize ∧
    (lost = [] ∨ (envKeys env ∪ lineKeys stored).card = envSize ∧
      (∀ key ∈ lineKeys lost, key ∉ envKeys env ∪ lineKeys stored) ∧ ∃ line ∈ lines, 61 ∉ line)

section Text

variable {m : Mem} {env env' : Env} {items : List (Key × Nat)} {events : List EnvEvent}
  {lines : List (List UInt8)}

theorem PutsTo.made (hputs : PutsTo env items env' events)
    (hitems : List.Forall₂ (ItemAt m) items lines) : List.Forall₂ (PutAt m) events lines := by
  induction hputs generalizing lines with
  | nil =>
    cases hitems
    exact .nil
  | cons _ _ ih =>
    cases hitems with
    | cons hitem hitems => exact .cons ⟨_, _, rfl, hitem⟩ (ih hitems)

theorem itemKeys_eq (hitems : List.Forall₂ (ItemAt m) items lines) :
    itemKeys items = lineKeys lines := by
  have hkeys : items.map (fun item => item.1.val) = lines.map lineKey := by
    induction hitems with
    | nil => rfl
    | cons hitem _ ih => rw [List.map_cons, List.map_cons, hitem.key, ih]
  rw [itemKeys, hkeys, lineKeys]

/-- Puts of the items of the lines, all stored, apply the lines. -/
theorem PutsTo.applied (hputs : PutsTo env items env' events) (h : EnvInv env)
    (hstored : ∀ event ∈ events, event.Stored) (hitems : List.Forall₂ (ItemAt m) items lines) :
    Applied m env env' lines := by
  have h' := hputs.inv h
  have hkind : ∀ key : Key, ∀ item line, ItemAt m item line →
      (item.1 = key ↔ lineKey line = key.val) := by
    intro key item line hitem
    rw [← hitem.key, Subtype.ext_iff]
  refine ⟨fun key line hlast => ?_, fun key hnone => ?_⟩
  · obtain ⟨⟨k, v⟩, hlast, hitem⟩ := exists_last_of_forall₂ hitems (hkind key) hlast
    obtain rfl : k = key := hlast.1
    rw [envGet_of_mem h' ((hputs.mem_present h hstored k v).mpr (Or.inl hlast))]
    exact hitem.value
  · have hnot : ∀ item ∈ items, item.1 ≠ key := by
      intro item hmem heq
      obtain ⟨line, hline, hitem⟩ := exists_of_mem_forall₂ hitems hmem
      exact hnone line hline ((hkind key item line hitem).mp heq)
    refine envGet_congr h h' fun v => ?_
    rw [hputs.mem_present h hstored key v]
    constructor
    · intro hmem
      rcases hmem with hlast | ⟨-, hmem⟩
      · exact absurd hlast.1 (hnot _ hlast.mem)
      · exact hmem
    · intro hmem
      exact Or.inr ⟨hnot, hmem⟩

theorem kvpRet_ne_zero_iff : kvpRet lines ≠ 0 ↔ ∀ line ∈ lines, 61 ∈ line := by
  unfold kvpRet
  split
  · next h => exact iff_of_true one_ne_zero h
  · next h => exact iff_of_false (fun hne => hne rfl) h

theorem kvpRet_eq_zero_iff : kvpRet lines = 0 ↔ ∃ line ∈ lines, 61 ∉ line := by
  rw [← not_iff_not, ← ne_eq, kvpRet_ne_zero_iff]
  simp

/-- The line behind the good ones has no `=`. -/
theorem eq_goodLines_append (h : ∃ line ∈ lines, 61 ∉ line) :
    ∃ bad after, 61 ∉ bad ∧ lines = goodLines lines ++ bad :: after := by
  obtain ⟨line, hline, hbad⟩ := h
  have hsplit : goodLines lines ++ lines.dropWhile (fun line => 61 ∈ line) = lines :=
    List.takeWhile_append_dropWhile
  cases hrest : lines.dropWhile (fun line => 61 ∈ line) with
  | nil =>
    have hgood := List.dropWhile_eq_nil_iff.mp hrest line hline
    exact absurd (of_decide_eq_true hgood) hbad
  | cons bad after =>
    rw [hrest] at hsplit
    exact ⟨bad, after, by simpa using head_dropWhile_of_cons hrest, hsplit.symm⟩

/-- The first `n` puts are stored and the others dropped, exactly if the lines fit so. -/
theorem PutsTo.split_iff (hputs : PutsTo env items env' events) (h : EnvInv env)
    (hitems : List.Forall₂ (ItemAt m) items lines) (n : Nat) :
    ((∀ event ∈ events.take n, event.Stored) ∧ ∀ event ∈ events.drop n, ¬ event.Stored) ↔
      (envKeys env ∪ lineKeys (lines.take n)).card ≤ envSize ∧
      (lines.drop n = [] ∨ (envKeys env ∪ lineKeys (lines.take n)).card = envSize ∧
        ∀ key ∈ lineKeys (lines.drop n), key ∉ envKeys env ∪ lineKeys (lines.take n)) := by
  obtain ⟨env₁, hfront, hback⟩ := hputs.split n
  have hitemsBack := List.forall₂_drop n hitems
  have hkeys := itemKeys_eq (List.forall₂_take n hitems)
  have hnil : items.drop n = [] ↔ lines.drop n = [] := by
    rw [← List.length_eq_zero_iff, hitemsBack.length_eq, List.length_eq_zero_iff]
  rw [hfront.stored_iff h, hkeys]
  refine and_congr_right fun hroom => ?_
  rw [← hkeys] at hroom
  have hstored := (hfront.stored_iff h).mpr hroom
  rw [hback.dropped_iff (hfront.inv h), hfront.envKeys_of_stored h hstored, hkeys, hnil,
    itemKeys_eq hitemsBack]

/-- The lines up to the first put that is dropped are applied. -/
theorem PutsTo.applied_take (hputs : PutsTo env items env' events) (h : EnvInv env)
    (hitems : List.Forall₂ (ItemAt m) items lines) {n : Nat}
    (hfront : ∀ event ∈ events.take n, event.Stored)
    (hback : ∀ event ∈ events.drop n, ¬ event.Stored) : Applied m env env' (lines.take n) := by
  obtain ⟨env₁, hputs₁, hputs₂⟩ := hputs.split n
  rw [hputs₂.eq_of_dropped (hputs₁.inv h) hback]
  exact hputs₁.applied h hfront (List.forall₂_take n hitems)

/-- The puts of the lines, when the lines fit. -/
theorem PutsTo.addsLines (hputs : PutsTo env items env' events) (h : EnvInv env)
    (hitems : List.Forall₂ (ItemAt m) items (goodLines lines)) (hfit : LinesFit env lines) :
    AddsLines m env env' lines events (kvpRet lines) := by
  obtain ⟨stored, lost, hgood, hroom, hlost⟩ := hfit
  have htake : (goodLines lines).take stored.length = stored := by rw [hgood, List.take_left]
  have hdrop : (goodLines lines).drop stored.length = lost := by rw [hgood, List.drop_left]
  obtain ⟨hfront, hback⟩ := (hputs.split_iff h hitems stored.length).mpr (by
    rw [htake, hdrop]
    exact ⟨hroom, hlost.imp_right fun ⟨hfull, hnot, _⟩ => ⟨hfull, hnot⟩⟩)
  have hlen := (hputs.made hitems).length_eq
  have hlenGood := congrArg List.length hgood
  rw [List.length_append] at hlenGood
  have hmade := hputs.made hitems
  -- if all lines are good, none is lost
  have hall : (∀ line ∈ lines, 61 ∈ line) → ∀ event ∈ events, event.Stored := by
    intro hlines
    rcases hlost with rfl | ⟨-, -, line, hline, hbad⟩
    · rw [List.length_nil] at hlenGood
      rwa [List.take_of_length_le (by omega)] at hfront
    · exact absurd (hlines line hline) hbad
  refine ⟨hmade, ?_, fun hret => ?_, fun hret => ?_⟩
  · rw [kvpRet_ne_zero_iff]
    exact ⟨fun hlines => ⟨hlines, hall hlines⟩, And.left⟩
  · have hlines := kvpRet_ne_zero_iff.mp hret
    rw [goodLines_eq_self hlines] at hitems
    exact hputs.applied h (hall hlines) hitems
  · obtain ⟨bad, after, hbad, hlines⟩ := eq_goodLines_append (kvpRet_eq_zero_iff.mp hret)
    have happlied := hputs.applied_take h hitems hfront hback
    rw [htake] at happlied
    have hlenTake : (events.take stored.length).length = stored.length := by
      rw [List.length_take]
      omega
    -- the first line that fails is the first that is lost, or the one without `=`
    cases lost with
    | nil =>
      rw [hgood, List.append_nil] at hlines
      exact ⟨stored, bad, after, _, _, hlines, (List.take_append_drop ..).symm, hlenTake,
        Or.inl hbad, hfront, hback, happlied⟩
    | cons failing lost =>
      rw [hgood, List.append_assoc] at hlines
      refine ⟨stored, failing, lost ++ bad :: after, _, _, hlines,
        (List.take_append_drop ..).symm, hlenTake, Or.inr ?_, hfront, hback, happlied⟩
      rw [ne_eq, List.drop_eq_nil_iff]
      rw [List.length_cons] at hlenGood
      omega

/-- The puts of the lines do what the comment says exactly if the lines fit. -/
theorem PutsTo.addsLines_iff (hputs : PutsTo env items env' events) (h : EnvInv env)
    (hitems : List.Forall₂ (ItemAt m) items (goodLines lines)) :
    AddsLines m env env' lines events (kvpRet lines) ↔ LinesFit env lines := by
  refine ⟨fun hadds => ?_, hputs.addsLines h hitems⟩
  by_cases hlines : ∀ line ∈ lines, 61 ∈ line
  · obtain ⟨-, hstored⟩ := hadds.returns.mp (kvpRet_ne_zero_iff.mpr hlines)
    refine ⟨goodLines lines, [], (List.append_nil _).symm, ?_, Or.inl rfl⟩
    rw [← itemKeys_eq hitems]
    exact (hputs.stored_iff h).mp hstored
  · rw [← kvpRet_ne_zero_iff, ne_eq, not_not] at hlines
    obtain ⟨before, failing, after, stored, lost, -, rfl, -, -, hstored, hlost, -⟩ :=
      hadds.failure hlines
    obtain ⟨hroom, hback⟩ := (hputs.split_iff h hitems stored.length).mp (by
      rw [List.take_left, List.drop_left]
      exact ⟨hstored, hlost⟩)
    exact ⟨_, _, (List.take_append_drop ..).symm, hroom, hback.imp_right fun ⟨hfull, hnot⟩ =>
      ⟨hfull, hnot, kvpRet_eq_zero_iff.mp hlines⟩⟩

/-- The call returns, after the puts of the good lines. -/
theorem envKvpLinesAdd_run {text : List UInt8} {p : Nat} (henv : EnvInv env)
    (h : StrAt m p text) (hp : p ≠ 0) (saveptr : Nat)
    (hkeys : ∀ line ∈ kvpLines text, 61 ∈ line → (lineKey line).length < envKeyLen) :
    ∃ m' env' items events, envKvpLinesAdd env m p saveptr =
        .ok ((env', events), m', kvpRet (kvpLines text)) ∧
      PutsTo env items env' events ∧
      List.Forall₂ (ItemAt m') items (goodLines (kvpLines text)) := by
  obtain ⟨m', items, hrun, hitems⟩ := envKvpLinesAdd_eq h hp env saveptr
  have hshort : ∀ item ∈ items, item.1.val.length < envKeyLen := by
    intro item hmem
    obtain ⟨line, hline, hitem⟩ := exists_of_mem_forall₂ hitems hmem
    have hgood := List.mem_takeWhile_imp (p := fun line => decide (61 ∈ line)) hline
    rw [hitem.key]
    exact hkeys line ((List.takeWhile_sublist _).mem hline) (of_decide_eq_true hgood)
  obtain ⟨env', events, hputs⟩ := exists_putsTo henv hshort
  rw [hputs.putAll [], List.nil_append] at hrun
  exact ⟨m', env', items, events, hrun, hputs, hitems⟩

/-- After any calls: reading a text whose keys are short does what its comment says, exactly
if the lines fit. -/
theorem envKvpLinesAdd_addsLines_iff {calls : List EnvCall} {history : List EnvEvent}
    {text : List UInt8} {p : Nat} (hcalls : envRun calls = .ok (env, history))
    (h : StrAt m p text) (hp : p ≠ 0) (saveptr : Nat)
    (hkeys : ∀ line ∈ kvpLines text, 61 ∈ line → (lineKey line).length < envKeyLen) :
    (∃ env' events m' ret, envKvpLinesAdd env m p saveptr = .ok ((env', events), m', ret) ∧
      AddsLines m' env env' (kvpLines text) events ret) ↔ LinesFit env (kvpLines text) := by
  have henv := envRun_inv hcalls
  obtain ⟨m', env', items, events, hrun, hputs, hitems⟩ :=
    envKvpLinesAdd_run henv h hp saveptr hkeys
  rw [← hputs.addsLines_iff henv hitems]
  constructor
  · intro ⟨env₁, events₁, m₁, ret, hrun₁, hadds⟩
    cases hrun.symm.trans hrun₁
    exact hadds
  · intro hadds
    exact ⟨env', events, m', _, hrun, hadds⟩

/-- The text `a=1`, a line without `=`, and `b=2`, in a new environment. -/
theorem envKvpLinesAdd_addsLines_new :
    ∃ env' events m' ret, envKvpLinesAdd envInit
        (stringMem 4096 [97, 61, 49, 10, 97, 10, 98, 61, 50]) 4096 0 =
          .ok ((env', events), m', ret) ∧
      AddsLines m' envInit env' [[97, 61, 49], [97], [98, 61, 50]] events ret := by
  have hlines : kvpLines [97, 61, 49, 10, 97, 10, 98, 61, 50] =
      [[97, 61, 49], [97], [98, 61, 50]] := by decide
  have hnew : envRun [] = .ok (envInit, []) := rfl
  have htext : StrAt (stringMem 4096 [97, 61, 49, 10, 97, 10, 98, 61, 50]) 4096
      [97, 61, 49, 10, 97, 10, 98, 61, 50] := strAt_stringMem (by decide) (by decide)
  have hiff := envKvpLinesAdd_addsLines_iff hnew htext (by decide) 0 (by rw [hlines]; decide)
  rw [hlines] at hiff
  exact hiff.mpr ⟨[[97, 61, 49]], [], by decide, by decide, Or.inl rfl⟩

/-- The keys `aa` to `hp`. -/
def fullKey (i : Fin 128) : Key :=
  ⟨[UInt8.ofNat (97 + i.val / 16), UInt8.ofNat (97 + i.val % 16)], by decide +kernel +revert⟩

def fullItems : List (Key × Nat) := (List.finRange 128).map fun i => (fullKey i, 0)

theorem fullKey_injective : Function.Injective fullKey := by
  intro i j h
  have hbytes := Subtype.ext_iff.mp h
  simp only [fullKey, List.cons.injEq] at hbytes
  have hhigh := congrArg UInt8.toNat hbytes.1
  have hlow := congrArg UInt8.toNat hbytes.2.1
  rw [UInt8.toNat_ofNat', UInt8.toNat_ofNat'] at hhigh hlow
  omega

theorem itemKeys_fullItems :
    itemKeys fullItems = ((List.finRange 128).map fun i => (fullKey i).val).toFinset := by
  rw [itemKeys, fullItems, List.map_map]
  rfl

theorem card_fullItems : (itemKeys fullItems).card = 128 := by
  have hnodup := (List.nodup_finRange 128).map (Subtype.val_injective.comp fullKey_injective)
  rw [itemKeys_fullItems]
  exact (List.toFinset_card_of_nodup hnodup).trans (by rw [List.length_map, List.length_finRange])

/-- Puts of the items in a new environment. -/
theorem envRun_items (hputs : PutsTo envInit items env events) :
    envRun (items.map fun item => .put item.1 item.2) = .ok (env, events) := by
  unfold envRun
  rw [List.foldlM_map]
  exact hputs.putAll []

/-- `x=1` in an environment with 128 keys: the put is dropped, and the call returns
non-zero. -/
theorem not_addsLines_full :
    ¬ ∀ env history, envRun (fullItems.map fun item => .put item.1 item.2) =
        .ok (env, history) →
      ∃ env' events m' ret, envKvpLinesAdd env (stringMem 4096 [120, 61, 49]) 4096 0 =
          .ok ((env', events), m', ret) ∧
        AddsLines m' env env' [[120, 61, 49]] events ret := by
  intro hclaim
  have hnew : [120] ∉ itemKeys fullItems := by simp [itemKeys_fullItems, fullKey]
  have hempty : envKeys envInit = ∅ := rfl
  have hshort : ∀ item ∈ fullItems, item.1.val.length < envKeyLen := by
    simp [fullItems, fullKey, envKeyLen]
  obtain ⟨env, history, hputs⟩ := exists_putsTo envInv_init hshort
  have hstored := (hputs.stored_iff envInv_init).mpr (by
    rw [hempty, Finset.empty_union, card_fullItems]
    rfl)
  have hkeys := hputs.envKeys_of_stored envInv_init hstored
  rw [hempty, Finset.empty_union] at hkeys
  have henv := hputs.inv envInv_init
  obtain ⟨env', events, m', ret, hrun, hadds⟩ := hclaim env history (envRun_items hputs)
  obtain ⟨m₁, env₁, items, events₁, hrun₁, hputs₁, hitems⟩ := envKvpLinesAdd_run henv
    (strAt_stringMem (p := 4096) (s := [120, 61, 49]) (by decide) (by decide)) (by decide) 0
    (by decide)
  have hlines : kvpLines [120, 61, 49] = [[120, 61, 49]] := by decide
  rw [hlines] at hrun₁ hitems
  cases hrun₁.symm.trans hrun
  obtain ⟨stored, lost, hgood, hroom, hlost⟩ := (hputs₁.addsLines_iff henv hitems).mp hadds
  -- no line without `=` follows, so none is lost; but the key is one of 129
  rcases hlost with rfl | ⟨-, -, line, hline, hbad⟩
  · rw [List.append_nil] at hgood
    have hkey : lineKeys stored = {[120]} := by rw [← hgood]; decide
    rw [hkeys, hkey, Finset.union_singleton, Finset.card_insert_of_notMem hnew,
      card_fullItems] at hroom
    exact absurd hroom (by decide)
  · rw [List.mem_singleton] at hline
    subst hline
    exact hbad (by decide)

end Text

end Microboot.Kern
