/-
  Kern/Ksymtab.lean --- the symbol table of the kernel, kern/mod.c at boot.

  `mod_init` makes the lists, `mod_ksymtab_early_init` calls the functions of the
  early init symbols, `mod_ksymtab_add` those of the init symbols, and lists the
  rest in `exports`, a list in memory with nodes from `kalloc`.

  What the init functions do and which memory `kalloc` gives is not modelled: both
  are parameters.  They are asked to leave the kernel's constants alone, and
  what the list `exports` uses.
-/
import Microboot.Kern.Mod

set_option autoImplicit false

namespace Microboot.Kern.Ksymtab

open Microboot.Foundation Microboot.Kern Microboot.Kern.Exe

/-! ## The model -/

/-- The heap, and the functions that were called so far. -/
structure Boot where
  heap : Heap
  calls : List Nat

section Model

variable (run : List Nat → Nat → Heap → Heap) (kalloc : Heap → Option (Heap × Region))

/-- `fn();` -/
def Boot.call (s : Boot) (fn : Nat) : Boot where
  heap := run s.calls fn s.heap
  calls := s.calls ++ [fn]

/-- `mod_init()` -/
def modInit (h : Heap) (exports modules : Nat) : Except Fault Heap := do
  let m ← listInit h.mem exports
  let m ← listInit m modules
  return { h with mem := m }

/-- `list_node(data)` -/
def listNode (h : Heap) (data : Nat) : Except Fault (Heap × Nat) :=
  match kalloc h with
  | some (h, node) => .ok ({ h with mem := setValue h.mem node.start data }, node.start)
  | none => .error (.assert "Out of memory, cannot allocate")

/-- `module_sym_add(sym)` -/
def moduleSymAdd (exports : Nat) (s : Boot) (sym : Nat) : Except Fault Boot := do
  let (h, node) ← listNode kalloc s.heap sym
  let m ← listAppend h.mem exports node
  return { s with heap := { h with mem := m } }

/-- The loop of `mod_ksymtab_early_init` from `sym` on, with that many records. -/
def earlyInitFrom : Nat → Nat → Boot → Boot
  | _, 0, s => s
  | sym, n + 1, s =>
    let s :=
      if hasPrefix s.heap.mem exportModEarlyInitPrefix sym then s.call run (symFn s.heap.mem sym)
      else s
    earlyInitFrom (sym + symbolSize) n s

/-- `mod_ksymtab_early_init(symtab, symtab_size)` -/
def modKsymtabEarlyInit (symtab symtabSize : Nat) (s : Boot) : Boot :=
  earlyInitFrom run symtab (symtabSize / symbolSize) s

/-- The loop of `mod_ksymtab_add` from `sym` on, with that many records. -/
def addFrom (exports : Nat) : Nat → Nat → Boot → Except Fault Boot
  | _, 0, s => .ok s
  | sym, n + 1, s => do
    let s ←
      if hasPrefix s.heap.mem exportModInitPrefix sym then
        pure (s.call run (symFn s.heap.mem sym))
      else if hasPrefix s.heap.mem exportModEarlyInitPrefix sym = false then
        moduleSymAdd kalloc exports s sym
      else pure s
    addFrom exports (sym + symbolSize) n s

/-- `mod_ksymtab_add(symtab, symtab_size)` -/
def modKsymtabAdd (exports symtab symtabSize : Nat) (s : Boot) : Except Fault Boot :=
  addFrom run kalloc exports symtab (symtabSize / symbolSize) s

/-- The three, as `kernel_main` calls them. -/
def modBoot (exports modules symtab symtabSize : Nat) (h : Heap) : Except Fault Boot := do
  let h ← modInit h exports modules
  modKsymtabAdd run kalloc exports symtab symtabSize
    (modKsymtabEarlyInit run symtab symtabSize { heap := h, calls := [] })

end Model

/-- The loop of `mod_sym_get(name)` behind `current`; `none` if it does not end within
the fuel. -/
def symGetFrom (m : Mem) (name : List UInt8) : Nat → Nat → Option Nat
  | 0, _ => none
  | fuel + 1, current =>
    let current := listNext m current
    if current ≠ 0 ∧ listNext m current ≠ 0 then
      let sym := listValue m current
      if sameString m (symName m sym) name then some (symFn m sym)
      else symGetFrom m name fuel current
    else some 0

/-- `mod_sym_get(name)`, where NULL is 0. -/
def modSymGet (fuel : Nat) (m : Mem) (exports : Nat) (name : List UInt8) : Option Nat :=
  symGetFrom m name fuel (headNode exports)

/-! ## Symbol tables -/

/-- A record of the table: its name and its function. -/
structure KSymbol where
  name : Key
  fn : Nat
  deriving DecidableEq

namespace KSymbol

/-- The name starts with `EXPORT_MOD_EARLY_INIT_PREFIX`. -/
def EarlyInit (sym : KSymbol) : Prop := exportModEarlyInitPrefix <+: sym.name.val

/-- The name starts with `EXPORT_MOD_INIT_PREFIX`. -/
def Init (sym : KSymbol) : Prop := exportModInitPrefix <+: sym.name.val

/-- Neither of the two. -/
def Exported (sym : KSymbol) : Prop := ¬ sym.EarlyInit ∧ ¬ sym.Init

instance (sym : KSymbol) : Decidable sym.EarlyInit := inferInstanceAs (Decidable (_ <+: _))
instance (sym : KSymbol) : Decidable sym.Init := inferInstanceAs (Decidable (_ <+: _))
instance (sym : KSymbol) : Decidable sym.Exported := inferInstanceAs (Decidable (_ ∧ _))

end KSymbol

/-- The record of the symbol is at `a`, and it and the name are inside `kernel`. -/
structure SymbolAt (m : Mem) (kernel : Region) (a : Nat) (sym : KSymbol) : Prop where
  start_le : kernel.start ≤ a
  stop_le : a + symbolSize ≤ kernel.start + kernel.size
  fn : symFn m a = sym.fn
  name : StrAt m (symName m a) sym.name.val
  name_start : kernel.start ≤ symName m a
  name_stop : symName m a + sym.name.val.length < kernel.start + kernel.size

/-- The records of the symbols are one behind the other from `symtab` on. -/
def SymbolTable (m : Mem) (kernel : Region) : Nat → List KSymbol → Prop
  | _, [] => True
  | symtab, sym :: symbols =>
    SymbolAt m kernel symtab sym ∧ SymbolTable m kernel (symtab + symbolSize) symbols

/-- The symbols with the addresses of their records. -/
def placed : Nat → List KSymbol → List (Nat × KSymbol)
  | _, [] => []
  | symtab, sym :: symbols => (symtab, sym) :: placed (symtab + symbolSize) symbols

/-- The addresses of the symbols to be listed. -/
def exportedAt (symtab : Nat) (symbols : List KSymbol) : List (Nat × KSymbol) :=
  (placed symtab symbols).filter fun a => a.2.Exported

/-! ## Strings in memory -/

section Strings

variable {m : Mem} {p : Nat} {s : List UInt8}

/-- The comparison with a prefix, of which only the bytes up to the first difference
are read. -/
theorem strncmp_prefix {start : List UInt8} (hstart : (0 : UInt8) ∉ start) (hs : StrAt m p s) :
    strncmp start (bytesAt m p start.length) start.length = 0 ↔ start <+: s := by
  induction start generalizing p s with
  | nil => simp [strncmp]
  | cons c start ih =>
    have hc : c ≠ 0 := fun h => hstart (by simp [h])
    rw [List.length_cons, bytesAt, strncmp, List.headD_cons, List.tail_cons]
    cases s with
    | nil =>
      have hnul : m.load8 p = 0 := hs.nul
      rw [hnul, if_neg fun h => hc h.2]
      simpa using toNat_ne_zero hc
    | cons d s =>
      have hd : m.load8 p = d := hs.seg.1
      have hrest : StrAt m (p + 1) s := StrAt.drop (u := [d]) hs
      rw [hd, List.cons_prefix_cons]
      by_cases hcd : c = d
      · rw [if_pos ⟨hc, hcd⟩, ih (fun h => hstart (List.mem_cons_of_mem _ h)) hrest]
        simp [hcd]
      · rw [if_neg fun h => hcd h.2]
        exact iff_of_false (toNat_sub_ne_zero hcd) fun h => hcd h.1

theorem sameString_iff {t : List UInt8} (ht : (0 : UInt8) ∉ t) (hs : StrAt m p s) :
    sameString m p t = true ↔ s = t := by
  induction t generalizing p s with
  | nil =>
    rw [sameString, decide_eq_true_iff]
    exact hs.load8_eq_zero
  | cons c t ih =>
    have hc : c ≠ 0 := fun h => ht (by simp [h])
    rw [sameString, Bool.and_eq_true, decide_eq_true_iff]
    cases s with
    | nil =>
      have hnul : m.load8 p = 0 := hs.nul
      rw [hnul]
      simpa using fun h : (0 : UInt8) = c => absurd h.symm hc
    | cons d s =>
      have hd : m.load8 p = d := hs.seg.1
      have hrest : StrAt m (p + 1) s := StrAt.drop (u := [d]) hs
      rw [hd, ih (fun h => ht (List.mem_cons_of_mem _ h)) hrest, List.cons.injEq]

end Strings

/-! ## The table -/

section Table

variable {m m' : Mem} {kernel : Region} {a symtab : Nat} {sym : KSymbol} {symbols : List KSymbol}

theorem SymbolAt.early_iff (h : SymbolAt m kernel a sym) :
    hasPrefix m exportModEarlyInitPrefix a = true ↔ sym.EarlyInit := by
  rw [hasPrefix, decide_eq_true_iff]
  exact strncmp_prefix (by decide) h.name

theorem SymbolAt.init_iff (h : SymbolAt m kernel a sym) :
    hasPrefix m exportModInitPrefix a = true ↔ sym.Init := by
  rw [hasPrefix, decide_eq_true_iff]
  exact strncmp_prefix (by decide) h.name

/-- The two prefixes differ in their third byte. -/
theorem KSymbol.Init.not_early (h : sym.Init) : ¬ sym.EarlyInit := by
  intro he
  have hprefix := List.prefix_of_prefix_length_le h he (by decide)
  revert hprefix
  decide

/-- The table depends on the memory of the kernel only. -/
theorem SymbolAt.congr (h : SymbolAt m kernel a sym)
    (hfits : kernel.start + kernel.size ≤ 2 ^ 32)
    (hsame : ∀ x, kernel.Has x → m' x = m x) : SymbolAt m' kernel a sym := by
  have hstart := h.start_le
  have hstop := h.stop_le
  have hname := h.name_start
  have hname' := h.name_stop
  unfold symbolSize at hstop
  unfold Region.Has at hsame
  have hrecord : symName m' a = symName m a :=
    Mem.load32_congr (by omega) fun x h1 h2 => hsame x (by omega)
  have hfn : symFn m' a = symFn m a :=
    Mem.load32_congr (by omega) fun x h1 h2 => hsame x (by omega)
  refine ⟨hstart, h.stop_le, by rw [hfn, h.fn], ?_, by rw [hrecord]; exact hname,
    by rw [hrecord]; exact hname'⟩
  rw [hrecord]
  exact h.name.congr fun x h1 h2 => hsame x (by omega)

theorem SymbolTable.congr (h : SymbolTable m kernel symtab symbols)
    (hfits : kernel.start + kernel.size ≤ 2 ^ 32)
    (hsame : ∀ x, kernel.Has x → m' x = m x) : SymbolTable m' kernel symtab symbols := by
  induction symbols generalizing symtab with
  | nil => trivial
  | cons sym symbols ih => exact ⟨h.1.congr hfits hsame, ih h.2⟩

theorem SymbolTable.placed (h : SymbolTable m kernel symtab symbols) :
    ∀ a ∈ placed symtab symbols, SymbolAt m kernel a.1 a.2 := by
  induction symbols generalizing symtab with
  | nil => simp [Ksymtab.placed]
  | cons sym symbols ih => exact List.forall_mem_cons.mpr ⟨h.1, ih h.2⟩

end Table

/-! ## Init functions and the allocator -/

/-- The function, whenever it is called, leaves alone what the kernel region and the list
`exports` use. -/
def Spares (run : List Nat → Nat → Heap → Heap) (exports : Nat) (kernel : Region) (fn : Nat) :
    Prop :=
  ∀ calls h items, h.Ok → kernel ∈ h.live → ListIn h exports items →
    Heap.Held (kernel :: listRegions exports items) h (run calls fn h) ∧ (run calls fn h).Ok

/-- What `kalloc` returns is memory that was not in use. -/
def Allocates (kalloc : Heap → Option (Heap × Region)) : Prop :=
  ∀ h h' node, h.Ok → kalloc h = some (h', node) →
    h.Alloc listNodeSize h' node ∧ node.start ≠ 0

/-- The assertion that `kalloc` fails. -/
def outOfMemory : Fault := .assert "Out of memory, cannot allocate"

/-- The table is in memory, and `exports` lists the records of `listed`. -/
structure Booted (exports : Nat) (kernel : Region) (table listed : List (Nat × KSymbol))
    (s : Boot) : Prop where
  ok : s.heap.Ok
  live : kernel ∈ s.heap.live
  table : ∀ a ∈ table, SymbolAt s.heap.mem kernel a.1 a.2
  list : ∃ items, ListIn s.heap exports items ∧ kernel ∉ listRegions exports items ∧
    items.map ListItem.value = listed.map Prod.fst

section Boot

variable {run : List Nat → Nat → Heap → Heap} {kalloc : Heap → Option (Heap × Region)}
  {exports : Nat} {kernel : Region} {table listed : List (Nat × KSymbol)} {s s' : Boot}
  {symtab : Nat} {symbols : List KSymbol}

/-- An init function is called. -/
theorem Booted.call (h : Booted exports kernel table listed s) {fn : Nat}
    (hfn : Spares run exports kernel fn) : Booted exports kernel table listed (s.call run fn) := by
  obtain ⟨items, hin, hnot, hvalues⟩ := h.list
  obtain ⟨hheld, hok⟩ := hfn s.calls s.heap items h.ok h.live hin
  obtain ⟨hlive, hsame⟩ := hheld kernel List.mem_cons_self
  exact ⟨hok, hlive, fun a ha => (h.table a ha).congr (h.ok.fits kernel h.live) hsame,
    items, hin.held (hheld.mono fun r hr => List.mem_cons_of_mem _ hr), hnot, hvalues⟩

/-- A record of the table is listed, unless the memory is used up. -/
theorem Booted.add (h : Booted exports kernel table listed s) (hkalloc : Allocates kalloc)
    {a : Nat × KSymbol} (ha : a ∈ table) :
    moduleSymAdd kalloc exports s a.1 = .error outOfMemory ∨
      ∃ s', moduleSymAdd kalloc exports s a.1 = .ok s' ∧
        Booted exports kernel table (listed ++ [a]) s' ∧ s'.calls = s.calls := by
  unfold moduleSymAdd listNode
  cases hnode : kalloc s.heap with
  | none => exact Or.inl rfl
  | some node =>
    obtain ⟨h', node⟩ := node
    obtain ⟨halloc, hnull⟩ := hkalloc s.heap h' node h.ok hnode
    obtain ⟨items, hin, hnot, hvalues⟩ := h.list
    have hfits := h.ok.fits kernel h.live
    have hvalue : a.1 < 2 ^ 32 := by
      have := (h.table a ha).stop_le
      unfold symbolSize at this
      omega
    have hitem : s.heap.Alloc listNodeSize h' (ListItem.mk node a.1).node := halloc
    obtain ⟨m, hm, hin', hframe⟩ := hin.append h.ok hitem hnull hvalue
    refine Or.inr ⟨{ s with heap := { h' with mem := m } }, ?_, ⟨(halloc.ok h.ok).congr rfl, ?_,
      fun b hb => (h.table b hb).congr hfits (hframe kernel h.live hnot), _, hin', ?_, ?_⟩, rfl⟩
    · simp only [ok_bind]
      rw [hm]
      rfl
    · exact halloc.live ▸ List.mem_cons_of_mem _ h.live
    · intro hmem
      rw [listRegions, List.map_append, ← List.cons_append] at hmem
      rcases List.mem_append.mp hmem with hmem | hmem
      · exact hnot hmem
      · obtain rfl : kernel = node := List.mem_singleton.mp hmem
        exact halloc.fresh h.live
    · rw [List.map_append, List.map_append, hvalues]
      rfl

/-- `mod_ksymtab_early_init` calls the early init functions, in order. -/
theorem Booted.earlyInitFrom (h : Booted exports kernel table listed s)
    (htable : ∀ a ∈ placed symtab symbols, a ∈ table)
    (hrun : ∀ sym ∈ symbols, sym.EarlyInit → Spares run exports kernel sym.fn) :
    Booted exports kernel table listed (earlyInitFrom run symtab symbols.length s) ∧
      (earlyInitFrom run symtab symbols.length s).calls =
        s.calls ++ (symbols.filter fun sym => sym.EarlyInit).map KSymbol.fn := by
  induction symbols generalizing symtab s with
  | nil => exact ⟨h, by simp [Ksymtab.earlyInitFrom]⟩
  | cons sym symbols ih =>
    have hat := h.table _ (htable (symtab, sym) List.mem_cons_self)
    have hrest : ∀ a ∈ placed (symtab + symbolSize) symbols, a ∈ table :=
      fun a ha => htable a (List.mem_cons_of_mem _ ha)
    have hrun' : ∀ sym' ∈ symbols, sym'.EarlyInit → Spares run exports kernel sym'.fn :=
      fun sym' hsym => hrun sym' (List.mem_cons_of_mem _ hsym)
    rw [List.length_cons, Ksymtab.earlyInitFrom]
    by_cases hearly : sym.EarlyInit
    · have hcalled := h.call (hrun sym List.mem_cons_self hearly)
      rw [if_pos (hat.early_iff.mpr hearly), hat.fn]
      obtain ⟨hbooted, hcalls⟩ := ih hcalled hrest hrun'
      refine ⟨hbooted, hcalls.trans ?_⟩
      simp [Boot.call, hearly]
    · rw [if_neg fun hp => hearly (hat.early_iff.mp hp)]
      obtain ⟨hbooted, hcalls⟩ := ih h hrest hrun'
      refine ⟨hbooted, hcalls.trans ?_⟩
      simp [hearly]

/-- `mod_ksymtab_add` calls the init functions, and lists what is left, in order. -/
theorem Booted.addFrom (h : Booted exports kernel table listed s) (hkalloc : Allocates kalloc)
    (htable : ∀ a ∈ placed symtab symbols, a ∈ table)
    (hrun : ∀ sym ∈ symbols, sym.Init → Spares run exports kernel sym.fn) :
    addFrom run kalloc exports symtab symbols.length s = .error outOfMemory ∨
      ∃ s', addFrom run kalloc exports symtab symbols.length s = .ok s' ∧
        Booted exports kernel table (listed ++ exportedAt symtab symbols) s' ∧
        s'.calls = s.calls ++ (symbols.filter fun sym => sym.Init).map KSymbol.fn := by
  induction symbols generalizing symtab s listed with
  | nil => exact Or.inr ⟨s, rfl, by simpa [exportedAt, placed] using h, by simp⟩
  | cons sym symbols ih =>
    have hat := h.table _ (htable (symtab, sym) List.mem_cons_self)
    have hrest : ∀ a ∈ placed (symtab + symbolSize) symbols, a ∈ table :=
      fun a ha => htable a (List.mem_cons_of_mem _ ha)
    have hrun' : ∀ sym' ∈ symbols, sym'.Init → Spares run exports kernel sym'.fn :=
      fun sym' hsym => hrun sym' (List.mem_cons_of_mem _ hsym)
    rw [List.length_cons, Ksymtab.addFrom]
    by_cases hinit : sym.Init
    · -- its function is called
      have hcalled := h.call (hrun sym List.mem_cons_self hinit)
      have hexported : ¬ sym.Exported := fun he => he.2 hinit
      rw [if_pos (hat.init_iff.mpr hinit), hat.fn]
      refine (ih hcalled hrest hrun').imp_right fun ⟨s', hs', hbooted, hcalls⟩ =>
        ⟨s', hs', ?_, hcalls.trans ?_⟩
      · simpa [exportedAt, placed, hexported] using hbooted
      · simp [Boot.call, hinit]
    · rw [if_neg fun hp => hinit (hat.init_iff.mp hp)]
      by_cases hearly : sym.EarlyInit
      · -- its function was called before
        have hexported : ¬ sym.Exported := fun he => he.1 hearly
        have hprefix : ¬ hasPrefix s.heap.mem exportModEarlyInitPrefix symtab = false := by
          rw [hat.early_iff.mpr hearly]
          decide
        rw [if_neg hprefix]
        refine (ih h hrest hrun').imp_right fun ⟨s', hs', hbooted, hcalls⟩ =>
          ⟨s', hs', ?_, hcalls.trans ?_⟩
        · simpa [exportedAt, placed, hexported] using hbooted
        · simp [hinit]
      · -- it is listed
        have hexported : sym.Exported := ⟨hearly, hinit⟩
        have hprefix : hasPrefix s.heap.mem exportModEarlyInitPrefix symtab = false :=
          Bool.eq_false_of_not_eq_true fun hp => hearly (hat.early_iff.mp hp)
        rw [if_pos hprefix]
        rcases h.add hkalloc (htable (symtab, sym) List.mem_cons_self) with
          herror | ⟨s₁, hs₁, hlisted, hsame⟩
        · rw [herror]
          exact Or.inl rfl
        · rw [hs₁, ok_bind]
          refine (ih hlisted hrest hrun').imp_right fun ⟨s', hs', hbooted, hcalls⟩ =>
            ⟨s', hs', ?_, hcalls.trans ?_⟩
          · simpa [exportedAt, placed, hexported] using hbooted
          · simp [hinit, hsame]

end Boot

/-! ## Lookups -/

section Lookup

variable {m : Mem} {name : List UInt8} {exports : Nat} {kernel : Region} {current : Nat}

/-- The loop of `mod_sym_get` looks at the nodes that `LIST_FOREACH` visits. -/
theorem symGetFrom_eq {fuel : Nat} {nodes : List Nat}
    (h : walk (listNext m) 0 fuel (listNext m current) = some nodes) :
    symGetFrom m name fuel current =
      some ((((nodes.map (listValue m)).find? fun sym => sameString m (symName m sym) name).map
        (symFn m)).getD 0) := by
  induction fuel generalizing current nodes with
  | zero => cases h
  | succ fuel ih =>
    rw [walk] at h
    rw [symGetFrom]
    dsimp only
    split at h
    · next hne =>
      obtain ⟨rest, hrest, rfl⟩ := Option.map_eq_some_iff.mp h
      rw [if_pos hne, List.map_cons, List.find?_cons, ih hrest]
      split
      · next heq => rw [heq]; rfl
      · next heq => rw [Bool.eq_false_of_not_eq_true heq]
    · next hne =>
      cases h
      rw [if_neg hne]
      rfl

theorem placed_snd (symtab : Nat) (symbols : List KSymbol) :
    (placed symtab symbols).map Prod.snd = symbols := by
  induction symbols generalizing symtab with
  | nil => rfl
  | cons sym symbols ih => rw [placed, List.map_cons, ih]

theorem exportedAt_snd (symtab : Nat) (symbols : List KSymbol) :
    (exportedAt symtab symbols).map Prod.snd = symbols.filter fun sym => sym.Exported := by
  have hfilter := List.filter_map (f := Prod.snd) (p := fun sym : KSymbol => decide sym.Exported)
    (l := placed symtab symbols)
  rw [placed_snd] at hfilter
  rw [exportedAt, hfilter]
  rfl

/-- Among records in memory the search finds the first with the name. -/
theorem find_record {listed : List (Nat × KSymbol)}
    (hlisted : ∀ a ∈ listed, SymbolAt m kernel a.1 a.2) (name : Key) :
    ((listed.map Prod.fst).find? fun sym => sameString m (symName m sym) name.val).map (symFn m) =
      ((listed.map Prod.snd).find? fun sym => sym.name = name).map KSymbol.fn := by
  induction listed with
  | nil => rfl
  | cons a listed ih =>
    have hat := hlisted a List.mem_cons_self
    have hsame : sameString m (symName m a.1) name.val = decide (a.2.name = name) := by
      rw [Bool.eq_iff_iff, sameString_iff name.property hat.name, decide_eq_true_iff,
        Subtype.ext_iff]
    rw [List.map_cons, List.map_cons, List.find?_cons, List.find?_cons, hsame]
    by_cases heq : a.2.name = name
    · simp [heq, hat.fn]
    · simpa [heq] using ih fun b hb => hlisted b (List.mem_cons_of_mem _ hb)

end Lookup

/-! ## The boot -/

/-- The kernel in memory, with its lists and its table, which are apart. -/
structure Image (h : Heap) (kernel : Region) (exports modules symtab : Nat)
    (symbols : List KSymbol) : Prop where
  ok : h.Ok
  kernel_live : kernel ∈ h.live
  exports_live : ⟨exports, listSize⟩ ∈ h.live
  modules_live : ⟨modules, listSize⟩ ∈ h.live
  exports_ne : exports ≠ 0
  modules_ne : modules ≠ 0
  apart : exports ≠ modules
  kernel_exports : kernel ≠ ⟨exports, listSize⟩
  kernel_modules : kernel ≠ ⟨modules, listSize⟩
  table : SymbolTable h.mem kernel symtab symbols

section ModBoot

variable {run : List Nat → Nat → Heap → Heap} {kalloc : Heap → Option (Heap × Region)} {h : Heap}
  {kernel : Region} {exports modules symtab symtabSize : Nat} {symbols : List KSymbol}

/-- `mod_init` makes an empty list of exports, and writes nothing of the kernel. -/
theorem Image.modInit (himage : Image h kernel exports modules symtab symbols) :
    ∃ h', modInit h exports modules = .ok h' ∧
      Booted exports kernel (placed symtab symbols) [] { heap := h', calls := [] } := by
  have hfits := himage.ok.fits kernel himage.kernel_live
  obtain ⟨m, hm, -, -⟩ := ListAt.init himage.exports_ne (himage.ok.fits _ himage.exports_live) h.mem
  obtain ⟨hin, hframe⟩ := ListIn.init himage.ok himage.exports_live hm
  have hok : Heap.Ok { h with mem := m } := himage.ok.congr rfl
  obtain ⟨m', hm', -, -⟩ := ListAt.init himage.modules_ne (himage.ok.fits _ himage.modules_live) m
  obtain ⟨-, hframe'⟩ := ListIn.init hok himage.modules_live hm'
  have hown : ∀ r ∈ listRegions exports [], r ≠ ⟨modules, listSize⟩ := by
    intro r hr heq
    rw [List.mem_singleton.mp hr, Region.mk.injEq] at heq
    exact himage.apart heq.1
  refine ⟨{ h with mem := m' }, by rw [Ksymtab.modInit, hm, ok_bind, hm']; rfl, ⟨hok.congr rfl,
    himage.kernel_live, fun a ha => ?_, [], hin.held fun r hr => ?_, fun hmem => ?_, rfl⟩⟩
  · have hat := (himage.table.placed a ha).congr hfits
      (hframe kernel himage.kernel_live himage.kernel_exports)
    exact hat.congr hfits (hframe' kernel himage.kernel_live himage.kernel_modules)
  · exact ⟨hin.live r hr, hframe' r (hin.live r hr) (hown r hr)⟩
  · exact himage.kernel_exports (List.mem_singleton.mp hmem)

/-- After `mod_init`, `mod_ksymtab_early_init` and `mod_ksymtab_add`, unless the memory is
used up: the functions of the early init symbols and then those of the init symbols
were called, each once and in the order of the table; `exports` lists the other
symbols in that order; and `mod_sym_get` finds the first of them with a name, or none. -/
theorem modBoot_exports (himage : Image h kernel exports modules symtab symbols)
    (hsize : symtabSize / symbolSize = symbols.length)
    (hrun : ∀ sym ∈ symbols, sym.EarlyInit ∨ sym.Init → Spares run exports kernel sym.fn)
    (hkalloc : Allocates kalloc) :
    modBoot run kalloc exports modules symtab symtabSize h = .error outOfMemory ∨
      ∃ s, modBoot run kalloc exports modules symtab symtabSize h = .ok s ∧
        s.calls = (symbols.filter fun sym => sym.EarlyInit).map KSymbol.fn ++
          (symbols.filter fun sym => sym.Init).map KSymbol.fn ∧
        ∀ fuel > (symbols.filter fun sym => sym.Exported).length,
          (listForeach fuel s.heap.mem exports).map (List.map (listValue s.heap.mem)) =
            some ((exportedAt symtab symbols).map Prod.fst) ∧
          ∀ name : Key, modSymGet fuel s.heap.mem exports name.val =
            some ((((symbols.filter fun sym => sym.Exported).find? fun sym => sym.name = name).map
              KSymbol.fn).getD 0) := by
  obtain ⟨h', hinit, hbooted⟩ := himage.modInit
  have hself : ∀ a ∈ placed symtab symbols, a ∈ placed symtab symbols := fun _ ha => ha
  obtain ⟨hearly, hcalls⟩ := hbooted.earlyInitFrom hself
    fun sym hsym he => hrun sym hsym (Or.inl he)
  rw [modBoot, hinit, ok_bind, modKsymtabAdd, modKsymtabEarlyInit, hsize]
  refine (hearly.addFrom hkalloc hself fun sym hsym hi => hrun sym hsym (Or.inr hi)).imp_right ?_
  rintro ⟨s, hs, hadded, hcalls'⟩
  refine ⟨s, hs, by rw [hcalls', hcalls]; rfl, fun fuel hfuel => ?_⟩
  obtain ⟨items, hin, -, hvalues⟩ := hadded.list
  rw [List.nil_append] at hvalues
  -- the values of the nodes are the records listed
  have hnodes : (nodesOf items).map (listValue s.heap.mem) =
      (exportedAt symtab symbols).map Prod.fst := by
    rw [← hvalues, nodesOf, List.map_map]
    exact List.map_congr_left fun item hitem => hin.values item hitem
  have hlength : (nodesOf items).length = (symbols.filter fun sym => sym.Exported).length := by
    rw [← List.length_map (listValue s.heap.mem), hnodes, List.length_map, ← exportedAt_snd symtab,
      List.length_map]
  have hforeach := hin.list.foreach (hlength ▸ hfuel)
  refine ⟨by rw [hforeach, Option.map_some, hnodes], fun name => ?_⟩
  have hlisted : ∀ a ∈ exportedAt symtab symbols, SymbolAt s.heap.mem kernel a.1 a.2 :=
    fun a ha => hadded.table a (List.mem_of_mem_filter ha)
  rw [modSymGet, symGetFrom_eq hforeach, hnodes, find_record hlisted name, exportedAt_snd]

end ModBoot

/-! ## A table of four symbols -/

/-- `"__einit$"`, `"__init$"` and twice `"a"`. -/
def smallSymbols : List KSymbol :=
  [⟨⟨exportModEarlyInitPrefix, by decide⟩, 1⟩, ⟨⟨exportModInitPrefix, by decide⟩, 2⟩,
    ⟨⟨[97], by decide⟩, 3⟩, ⟨⟨[97], by decide⟩, 4⟩]

/-- The records, with the names behind them. -/
def smallMem : Mem :=
  stringMem 4096 ([32, 16, 0, 0, 1, 0, 0, 0, 41, 16, 0, 0, 2, 0, 0, 0, 49, 16, 0, 0, 3, 0, 0, 0,
    49, 16, 0, 0, 4, 0, 0, 0] ++ exportModEarlyInitPrefix ++ 0 :: exportModInitPrefix ++ [0, 97])

/-- The kernel, `exports` and `modules`. -/
def smallHeap : Heap := ⟨smallMem, [⟨4096, 256⟩, ⟨12288, 24⟩, ⟨12320, 24⟩]⟩

theorem smallHeap_image : Image smallHeap ⟨4096, 256⟩ 12288 12320 4096 smallSymbols where
  ok := ⟨by decide, by decide, by decide⟩
  kernel_live := by decide
  exports_live := by decide
  modules_live := by decide
  exports_ne := by decide
  modules_ne := by decide
  apart := by decide
  kernel_exports := by decide
  kernel_modules := by decide
  table := by
    refine ⟨?_, ?_, ?_, ?_, trivial⟩ <;>
      exact ⟨by decide, by decide, by decide,
        ⟨seg_of_load8 (by decide), by decide, by decide, by decide⟩, by decide, by decide⟩

/-- An allocator with two blocks. -/
def smallKalloc (h : Heap) : Option (Heap × Region) :=
  ([⟨16384, 16⟩, ⟨16448, 16⟩].find? fun node : Region =>
    node ∉ h.live ∧ ∀ r ∈ h.live, node.Apart r).map fun node => (h.give node, node)

theorem smallKalloc_allocates : Allocates smallKalloc := by
  intro h h' node _ hnode
  obtain ⟨node', hfind, heq⟩ := Option.map_eq_some_iff.mp hnode
  cases heq
  have hfound := List.find?_some hfind
  obtain ⟨hfresh, hapart⟩ := of_decide_eq_true hfound
  have hblocks : ∀ r ∈ ([⟨16384, 16⟩, ⟨16448, 16⟩] : List Region),
      listNodeSize ≤ r.size ∧ r.start + r.size ≤ 2 ^ 32 ∧ r.start ≠ 0 := by decide
  obtain ⟨hroom, hfits, hnull⟩ := hblocks node (List.mem_of_find?_eq_some hfind)
  exact ⟨Heap.give_alloc hroom hfresh hfits hapart, hnull⟩

/-- Functions that do nothing. -/
theorem spares_nothing (exports : Nat) (kernel : Region) (fn : Nat) :
    Spares (fun _ _ h => h) exports kernel fn := by
  refine fun _ h items hok hlive hin => ⟨fun r hr => ⟨?_, fun _ _ => rfl⟩, hok⟩
  rcases List.mem_cons.mp hr with rfl | hr
  · exact hlive
  · exact hin.live r hr

/-- The kernel boots: the two functions are called, the first `"a"` is found, and
`"__init$"` is not. -/
theorem modBoot_exports_small : ∃ s,
    modBoot (fun _ _ h => h) smallKalloc 12288 12320 4096 32 smallHeap = .ok s ∧
      s.calls = [1, 2] ∧ modSymGet 3 s.heap.mem 12288 [97] = some 3 ∧
      modSymGet 3 s.heap.mem 12288 exportModInitPrefix = some 0 := by
  have hok : (modBoot (fun _ _ h => h) smallKalloc 12288 12320 4096 32 smallHeap).isOk = true := by
    decide +kernel
  have hsize : 32 / symbolSize = smallSymbols.length := rfl
  rcases modBoot_exports smallHeap_image hsize
    (fun sym _ _ => spares_nothing 12288 ⟨4096, 256⟩ sym.fn) smallKalloc_allocates with
    herror | ⟨s, hs, hcalls, hlookups⟩
  · rw [herror] at hok
    cases hok
  · obtain ⟨-, hget⟩ := hlookups 3 (by decide)
    refine ⟨s, hs, hcalls, ?_, ?_⟩
    · exact hget ⟨[97], by decide⟩
    · exact hget ⟨exportModInitPrefix, by decide⟩

end Microboot.Kern.Ksymtab
