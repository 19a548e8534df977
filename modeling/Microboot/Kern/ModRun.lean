/-
  Kern/ModRun.lean --- what the lists of symbols point to, over whole runs.

  Loading a module that exports symbols leaves pointers into its file, which is
  freed behind it.  As long as no module with exports is loaded the lists have the
  symbols of the kernel only, and nothing that they lead to is ever freed.
-/
import Microboot.Foundation.Run
import Microboot.Kern.Mod

set_option autoImplicit false

namespace Microboot.Kern

open Microboot.Foundation Microboot.Kern.Exe

/-! ## What the lists lead to -/

/-- The record, the name and the function of the symbol are at addresses with `P`. -/
structure SymIn (P : Nat → Prop) (m : Mem) (sym : Nat) : Prop where
  record : ∀ x, sym ≤ x → x < sym + symbolSize → P x
  name : ∃ str, StrAt m (symName m sym) str ∧
    ∀ x, symName m sym ≤ x → x ≤ symName m sym + str.length → P x
  fn : P (symFn m sym)

/-- All that the lists lead to is in use. -/
structure SymbolsLive (s : ModSystem) : Prop where
  nodes : ∀ n ∈ s.listed, n.node ∈ s.heap.live
  symbols : ∀ n ∈ s.listed, SymIn s.heap.Live s.heap.mem n.sym

/-- The file has a section of exported symbols. -/
def HasExports (file : List UInt8) : Prop :=
  (findExports (stringMem 0 file) 0 (0 + shoff (stringMem 0 file) 0)).isSome = true

instance (file : List UInt8) : Decidable (HasExports file) :=
  inferInstanceAs (Decidable (_ = true))

/-- The file of the command. -/
def Command.file : Command → List UInt8
  | ldmod file => file
  | exec file => file

/-- The command loads a module with exported symbols. -/
def Command.LoadsExports : Command → Prop
  | ldmod file => HasExports file
  | exec _ => False

/-- The command is for a well-formed file. -/
def Command.WellFormed (c : Command) : Prop :=
  Exe.WellFormed (stringMem 0 c.file) 0 c.file.length

theorem SymIn.congr {P P' : Nat → Prop} {m m' : Mem} {sym : Nat} (h : SymIn P m sym)
    (hlt : ∀ x, P x → x < 2 ^ 32) (hsame : ∀ x, P x → m' x = m x) (hsub : ∀ x, P x → P' x) :
    SymIn P' m' sym := by
  obtain ⟨hrecord, ⟨str, hstr, hname⟩, hfn⟩ := h
  have hend := hlt _ (hrecord (sym + 7) (by omega) (by unfold symbolSize; omega))
  have hname' : symName m' sym = symName m sym :=
    Mem.load32_congr (by omega) fun x hx hx' =>
      hsame x (hrecord x hx (by unfold symbolSize; omega))
  have hfn' : symFn m' sym = symFn m sym :=
    Mem.load32_congr (by omega) fun x hx hx' =>
      hsame x (hrecord x (by omega) (by unfold symbolSize; omega))
  refine ⟨fun x hx hx' => hsub x (hrecord x hx hx'), ⟨str, ?_, fun x hx hx' => ?_⟩, ?_⟩
  · rw [hname']
    exact hstr.congr fun x hx hx' => hsame x (hname x hx hx')
  · rw [hname'] at hx hx'
    exact hsub x (hname x hx hx')
  · rw [hfn']
    exact hsub _ hfn

/-! ## What is kept -/

/-- The lists, their nodes and the held regions are as they were. -/
structure Untouched (held : List Region) (s s' : ModSystem) : Prop where
  exports : s'.exports = s.exports
  modules : s'.modules = s.modules
  held : Heap.Held (held ++ s.nodes) s.heap s'.heap
  ok : s'.heap.Ok

section Untouched

variable {held held' : List Region} {s s' s'' : ModSystem} {h h' : Heap} {image buffer : Region}
  {n : Nat} {tmp : SectionHeader}

theorem Untouched.listed (h : Untouched held s s') : s'.listed = s.listed := by
  rw [ModSystem.listed, ModSystem.listed, h.exports, h.modules]

theorem Untouched.nodes (h : Untouched held s s') : s'.nodes = s.nodes := by
  rw [ModSystem.nodes, ModSystem.nodes, h.listed]

theorem Untouched.trans (h : Untouched held s s') (h' : Untouched held s' s'') :
    Untouched held s s'' where
  exports := h'.exports.trans h.exports
  modules := h'.modules.trans h.modules
  held := h.held.trans (h.nodes ▸ h'.held)
  ok := h'.ok

theorem Untouched.mono (h : Untouched held s s') (hsub : ∀ r ∈ held', r ∈ held) :
    Untouched held' s s' := by
  refine ⟨h.exports, h.modules, h.held.mono fun r hr => ?_, h.ok⟩
  rcases List.mem_append.mp hr with hheld | hnode
  · exact List.mem_append_left _ (hsub r hheld)
  · exact List.mem_append_right _ hnode

theorem Foreign.untouched (h : Foreign held s s') (hok : s.heap.Ok) : Untouched held s s' :=
  ⟨h.exports, h.modules, h.held, h.ok hok⟩

/-- Code that does nothing. -/
theorem Foreign.refl (hheld : ∀ r ∈ held ++ s.nodes, r ∈ s.heap.live) : Foreign held s s :=
  ⟨rfl, rfl, fun r hr => ⟨hheld r hr, fun _ _ => rfl⟩, id⟩

/-- A block is freed that is not held. -/
theorem Untouched.free (h : Untouched held s s') (hfree : s'.heap.Free image h')
    (himage : image ∉ held ++ s.nodes) : Untouched held s { s' with heap := h' } where
  exports := h.exports
  modules := h.modules
  held := h.held.trans (hfree.held (fun r hr => (h.held r hr).1) himage)
  ok := hfree.ok h.ok

/-- Loading writes into the image only. -/
theorem load_untouched (hok : s.heap.Ok) (hheld : ∀ r ∈ held ++ s.nodes, r ∈ s.heap.live)
    (hbuffer : buffer ∈ s.heap.live) (hroom : n ≤ buffer.size)
    (hwf : WellFormed s.heap.mem buffer.start n)
    (halloc : s.heap.Alloc (getElfSize s.heap.mem buffer.start) h image) :
    Untouched held s (s.load h buffer.start image) ∧
      SameFile n s.heap.mem buffer.start (s.load h buffer.start image).heap.mem buffer.start := by
  have hfits : buffer.start + n ≤ 2 ^ 32 := by
    have hfits := hok.fits buffer hbuffer
    omega
  have hhas : ∀ x, buffer.start ≤ x → x < buffer.start + n → buffer.Has x := by
    intro x hx hx'
    unfold Region.Has
    omega
  have hfile : SameFile n s.heap.mem buffer.start h.mem buffer.start := by
    intro i hi
    rw [Mem.load8_eq _ (by omega), Mem.load8_eq _ (by omega)]
    exact halloc.keeps buffer hbuffer _ (hhas _ (by omega) (by omega))
  have hroom' : getElfSize h.mem buffer.start ≤ image.size := by
    rw [hfile.getElfSize hwf.header hwf.phdrsFit]
    exact halloc.room
  have happart : ∀ r ∈ s.heap.live, ∀ x, r.Has x → ¬ image.Has x := fun r hr x hx hx' =>
    (halloc.apart r hr).not_has hx' hx
  have houtside := loadSegments_sameOutside (hfile.wellFormed hwf) hfits halloc.fits hroom'
    fun x hx hx' => happart buffer hbuffer x (hhas x hx hx')
  rw [hfile.phoff hwf.header] at houtside
  have hsame : ∀ r ∈ s.heap.live, ∀ x, r.Has x →
      (s.load h buffer.start image).heap.mem x = s.heap.mem x := fun r hr x hx =>
    (houtside x (happart r hr x hx)).trans (halloc.keeps r hr x hx)
  refine ⟨⟨rfl, rfl, fun r hr => ⟨?_, hsame r (hheld r hr)⟩, (halloc.ok hok).congr rfl⟩,
    fun i hi => ?_⟩
  · exact (halloc.held hheld r hr).1
  · rw [Mem.load8_eq _ (by omega), Mem.load8_eq _ (by omega)]
    exact hsame buffer hbuffer _ (hhas _ (by omega) (by omega))

/-- A module without exports leaves nothing behind. -/
theorem ElfLoadMod.untouched (hload : ElfLoadMod held s buffer.start s') (hok : s.heap.Ok)
    (hheld : ∀ r ∈ held ++ s.nodes, r ∈ s.heap.live) (hbuffer : buffer ∈ s.heap.live)
    (hroom : n ≤ buffer.size) (hwf : WellFormed s.heap.mem buffer.start n)
    (hnone : findExports s.heap.mem buffer.start (buffer.start + shoff s.heap.mem buffer.start) =
      none) : Untouched held s s' := by
  obtain ⟨halloc, -, hadd, hentry, hfree⟩ := hload
  obtain ⟨hloaded, hfile⟩ := load_untouched hok hheld hbuffer hroom hwf halloc
  have hfind := hfile.findExports hwf
  rw [hfile.shoff hwf.header, hnone] at hfind
  rw [AddExports, hfind] at hadd
  subst hadd
  refine (hloaded.trans (hentry.untouched hloaded.ok)).free hfree fun hmem => ?_
  exact halloc.fresh (hheld _ hmem)

theorem ElfRun.untouched (hrun : ElfRun held s buffer.start s') (hok : s.heap.Ok)
    (hheld : ∀ r ∈ held ++ s.nodes, r ∈ s.heap.live) (hbuffer : buffer ∈ s.heap.live)
    (hroom : n ≤ buffer.size) (hwf : WellFormed s.heap.mem buffer.start n) :
    Untouched held s s' := by
  obtain ⟨halloc, hentry, hfree⟩ := hrun
  obtain ⟨hloaded, -⟩ := load_untouched hok hheld hbuffer hroom hwf halloc
  refine (hloaded.trans (hentry.untouched hloaded.ok)).free hfree fun hmem => ?_
  exact halloc.fresh (hheld _ hmem)

end Untouched

/-! ## What a module with exports leaves behind -/

section Exports

variable {held : List Region} {s s' : ModSystem} {buffer : Region} {n base sym count : Nat}
  {tmp : SectionHeader}

theorem SymsAdd.spec (hadd : SymsAdd base sym count s s') :
    s'.modules = s.modules ∧ (s.heap.Ok → s'.heap.Ok) := by
  induction hadd with
  | done => exact ⟨rfl, id⟩
  | next halloc _ ih => exact ⟨ih.1, fun hok => ih.2 (halloc.ok (hok.congr rfl))⟩

theorem ModSymtabAdd.spec {szsymtab : Nat} (hadd : ModSymtabAdd base sym szsymtab s s')
    (hok : s.heap.Ok) : (∃ node ∈ s'.modules, node.sym = sym) ∧ s'.heap.Ok := by
  obtain ⟨halloc, hsyms⟩ := hadd
  obtain ⟨hmodules, hok'⟩ := hsyms.spec
  refine ⟨?_, hok' (halloc.ok (hok.congr rfl))⟩
  rw [hmodules]
  exact ⟨_, List.mem_append_right _ (List.mem_singleton_self _), rfl⟩

/-- The record of the module, in the file, is in the list of modules. -/
theorem ElfLoadMod.exported (hload : ElfLoadMod held s buffer.start s') (hok : s.heap.Ok)
    (hheld : ∀ r ∈ held ++ s.nodes, r ∈ s.heap.live) (hbuffer : buffer ∈ s.heap.live)
    (hroom : n ≤ buffer.size) (hwf : WellFormed s.heap.mem buffer.start n)
    (hsome : findExports s.heap.mem buffer.start (buffer.start + shoff s.heap.mem buffer.start) =
      some tmp) :
    (∃ node ∈ s'.modules, node.sym = buffer.start + tmp.offset) ∧ s'.heap.Ok := by
  obtain ⟨halloc, -, hadd, hentry, hfree⟩ := hload
  obtain ⟨hloaded, hfile⟩ := load_untouched hok hheld hbuffer hroom hwf halloc
  have hfind := hfile.findExports hwf
  rw [hfile.shoff hwf.header, hsome] at hfind
  rw [AddExports, hfind] at hadd
  obtain ⟨hmodule, hok'⟩ := hadd.spec hloaded.ok
  refine ⟨?_, hfree.ok (hentry.ok hok')⟩
  rw [← hentry.modules] at hmodule
  exact hmodule

end Exports

/-! ## Runs -/

/-- The nodes and the kernel are in use, and all listed symbols are the kernel's. -/
structure ModInv (kernel : Region) (s : ModSystem) : Prop where
  ok : s.heap.Ok
  kernelLive : kernel ∈ s.heap.live
  nodes : ∀ r ∈ s.nodes, r ∈ s.heap.live
  symbols : ∀ n ∈ s.listed, SymIn kernel.Has s.heap.mem n.sym

section Runs

variable {kernel buffer node : Region} {s s' s₀ s₁ : ModSystem} {c : Command}
  {file : List UInt8} {trace : List Command} {symtab szsymtab sym n : Nat} {h : Heap}

theorem ModInv.held (hinv : ModInv kernel s) : ∀ r ∈ [kernel] ++ s.nodes, r ∈ s.heap.live := by
  intro r hr
  rcases List.mem_cons.mp hr with rfl | hnode
  · exact hinv.kernelLive
  · exact hinv.nodes r hnode

theorem ModInv.kernel_lt (hinv : ModInv kernel s) {x : Nat} (hx : kernel.Has x) : x < 2 ^ 32 := by
  have hfits := hinv.ok.fits kernel hinv.kernelLive
  unfold Region.Has at hx
  omega

theorem ModInv.untouched (hinv : ModInv kernel s) (hu : Untouched [kernel] s s') :
    ModInv kernel s' where
  ok := hu.ok
  kernelLive := (hu.held kernel List.mem_cons_self).1
  nodes := by
    rw [hu.nodes]
    exact fun r hr => (hu.held r (List.mem_cons_of_mem _ hr)).1
  symbols := by
    rw [hu.listed]
    exact fun n hn => (hinv.symbols n hn).congr (fun _ hx => hinv.kernel_lt hx)
      (hu.held kernel List.mem_cons_self).2 fun _ hx => hx

/-- What is in the kernel is never freed. -/
theorem ModInv.symbolsLive (hinv : ModInv kernel s) : SymbolsLive s where
  nodes n hn := hinv.nodes n.node (List.mem_map.mpr ⟨n, hn, rfl⟩)
  symbols n hn := (hinv.symbols n hn).congr (fun _ hx => hinv.kernel_lt hx) (fun _ _ => rfl)
    fun _ hx => ⟨kernel, hinv.kernelLive, hx⟩

/-- A record of the kernel's table is listed. -/
theorem ModInv.add (hinv : ModInv kernel s) (halloc : s.heap.Alloc listNodeSize h node)
    (hsym : SymIn kernel.Has s.heap.mem sym) :
    ModInv kernel { s with heap := h, exports := s.exports ++ [⟨node, sym⟩] } := by
  have hheld := halloc.held hinv.held
  have hlisted : ∀ n ∈ ({ s with heap := h, exports := s.exports ++ [⟨node, sym⟩] } :
      ModSystem).listed, n ∈ s.listed ∨ n = ⟨node, sym⟩ := by
    intro n hn
    simp only [ModSystem.listed, List.mem_append, List.mem_singleton] at hn ⊢
    tauto
  have hsame := (hheld kernel List.mem_cons_self).2
  refine ⟨halloc.ok hinv.ok, (hheld kernel List.mem_cons_self).1, fun r hr => ?_, fun n hn => ?_⟩
  · obtain ⟨n, hn, rfl⟩ := List.mem_map.mp hr
    rcases hlisted n hn with hold | rfl
    · exact (hheld n.node (List.mem_cons_of_mem _ (List.mem_map.mpr ⟨n, hold, rfl⟩))).1
    · rw [halloc.live]
      exact List.mem_cons_self
  · rcases hlisted n hn with hold | rfl
    · exact (hinv.symbols n hold).congr (fun _ hx => hinv.kernel_lt hx) hsame fun _ hx => hx
    · exact hsym.congr (fun _ hx => hinv.kernel_lt hx) hsame fun _ hx => hx

/-- The kernel's table is added. -/
theorem ModKsymtabAdd.inv (hadd : ModKsymtabAdd [kernel] sym n s s') (hinv : ModInv kernel s)
    (htable : ∀ i < n, SymIn kernel.Has s.heap.mem (sym + symbolSize * i)) :
    ModInv kernel s' := by
  induction hadd with
  | done => exact hinv
  | @init sym n s s₁ s' _ hcall _ ih =>
    have hu := hcall.untouched hinv.ok
    refine ih (hinv.untouched hu) fun i hi => ?_
    have hsym := htable (i + 1) (Nat.succ_lt_succ hi)
    rw [Nat.mul_succ, Nat.add_comm _ symbolSize, ← Nat.add_assoc] at hsym
    exact hsym.congr (fun _ hx => hinv.kernel_lt hx) (hu.held kernel List.mem_cons_self).2
      fun _ hx => hx
  | @early sym n s s' _ _ _ ih =>
    refine ih hinv fun i hi => ?_
    have hsym := htable (i + 1) (Nat.succ_lt_succ hi)
    rwa [Nat.mul_succ, Nat.add_comm _ symbolSize, ← Nat.add_assoc] at hsym
  | @add sym n s s' h node _ _ halloc _ ih =>
    refine ih (hinv.add halloc (htable 0 (Nat.succ_pos n))) fun i hi => ?_
    have hsym := htable (i + 1) (Nat.succ_lt_succ hi)
    rw [Nat.mul_succ, Nat.add_comm _ symbolSize, ← Nat.add_assoc] at hsym
    exact hsym.congr (fun _ hx => hinv.kernel_lt hx) (halloc.keeps kernel hinv.kernelLive)
      fun _ hx => hx

theorem ReadsFile.sameFile (hreads : ReadsFile kernel s s₁ file buffer) (hok : s₁.heap.Ok) :
    SameFile file.length (stringMem 0 file) 0 s₁.heap.mem buffer.start := by
  have hfits := hok.fits buffer hreads.live
  have hroom := hreads.room
  exact sameFile_of_seg hreads.contents (by omega)

theorem ReadsFile.held (hreads : ReadsFile kernel s s₁ file buffer) (hinv : ModInv kernel s₁) :
    ∀ r ∈ [kernel, buffer] ++ s₁.nodes, r ∈ s₁.heap.live := by
  intro r hr
  rcases List.mem_cons.mp hr with rfl | hr
  · exact hinv.kernelLive
  · rcases List.mem_cons.mp hr with rfl | hnode
    · exact hreads.live
    · exact hinv.nodes r hnode

/-- A command that loads no exports leaves the lists alone. -/
theorem ModStep.untouched (hstep : ModStep kernel s c s') (hinv : ModInv kernel s)
    (hwf : c.WellFormed) (hnone : ¬ c.LoadsExports) : Untouched [kernel] s s' := by
  -- what is between the file and the end of the command leaves the kernel and the nodes alone
  have hclose : ∀ {file : List UInt8} {buffer : Region} {s₁ s₂ s₃ : ModSystem} {h : Heap},
      ReadsFile kernel s s₁ file buffer → Untouched [kernel, buffer] s₁ s₂ →
      Foreign [kernel, buffer] s₂ s₃ → s₃.heap.Free buffer h →
      Untouched [kernel] s { s₃ with heap := h } := by
    intro file buffer s₁ s₂ s₃ h hreads hload hfs hfree
    have hopen := hreads.foreign.untouched hinv.ok
    have hrest : Untouched [kernel] s₁ s₃ :=
      (hload.trans (hfs.untouched hload.ok)).mono (by simp)
    refine (hopen.trans hrest).free hfree ?_
    rw [← hopen.nodes]
    exact hreads.own
  cases hstep with
  | ldmod hreads hload hfs hfree =>
    have hopen := hinv.untouched (hreads.foreign.untouched hinv.ok)
    have hfile := hreads.sameFile hopen.ok
    refine hclose hreads (hload.untouched hopen.ok (hreads.held hopen) hreads.live hreads.room
      (hfile.wellFormed hwf) ?_) hfs hfree
    rw [hfile.findExports hwf]
    exact Option.not_isSome_iff_eq_none.mp hnone
  | exec hreads hrun hfs hfree =>
    have hopen := hinv.untouched (hreads.foreign.untouched hinv.ok)
    exact hclose hreads (hrun.untouched hopen.ok (hreads.held hopen) hreads.live hreads.room
      ((hreads.sameFile hopen.ok).wellFormed hwf)) hfs hfree

/-- A module with exports is listed, and its record is in the file that was freed. -/
theorem ModStep.dangles (hstep : ModStep kernel s c s') (hinv : ModInv kernel s)
    (hwf : c.WellFormed) (hexports : c.LoadsExports) : ¬ SymbolsLive s' := by
  cases hstep with
  | exec hreads hrun hfs hfree => exact hexports.elim
  | @ldmod file buffer s₁ s₂ s₃ h hreads hload hfs hfree =>
    have hopen := hinv.untouched (hreads.foreign.untouched hinv.ok)
    have hfile := hreads.sameFile hopen.ok
    obtain ⟨tmp, htmp⟩ := Option.isSome_iff_exists.mp hexports
    have hfind := hfile.findExports hwf
    rw [htmp] at hfind
    obtain ⟨⟨n, hn, hsym⟩, hok⟩ := hload.exported hopen.ok (hreads.held hopen) hreads.live
      hreads.room (hfile.wellFormed hwf) hfind
    obtain ⟨hsize, hinside⟩ := hwf.exports tmp htmp
    intro hlive
    have hlisted : n ∈ ({ s₃ with heap := h } : ModSystem).listed := by
      refine List.mem_append_right _ ?_
      rw [show ({ s₃ with heap := h } : ModSystem).modules = s₂.modules from hfs.modules]
      exact hn
    have hrecord := (hlive.symbols n hlisted).record n.sym (Nat.le_refl _)
      (by unfold symbolSize; omega)
    refine hfree.not_live (hfs.ok hok) ?_ hrecord
    have hroom := hreads.room
    have hlen : tmp.offset + tmp.size ≤ file.length := hinside
    rw [hsym]
    unfold Region.Has
    omega

/-- `mod_init` and `mod_ksymtab_add` list the symbols of the kernel. -/
theorem ModKsymtabAdd.boot (hboot : ModKsymtabAdd [kernel] symtab (szsymtab / symbolSize) s₀ s₁)
    (hok : s₀.heap.Ok) (hkernel : kernel ∈ s₀.heap.live) (hinit : s₀.listed = [])
    (htable : ∀ i < szsymtab / symbolSize,
      SymIn kernel.Has s₀.heap.mem (symtab + symbolSize * i)) : ModInv kernel s₁ := by
  refine hboot.inv ⟨hok, hkernel, fun r hr => ?_, fun n hn => ?_⟩ htable
  · rw [ModSystem.nodes, hinit] at hr
    cases hr
  · rw [hinit] at hn
    cases hn

/-- No function is found that is not in use. -/
theorem SymbolsLive.modSymGet (hlive : SymbolsLive s) {name : List UInt8} {fn : Nat}
    (hget : modSymGet s name = some fn) : s.heap.Live fn := by
  obtain ⟨n, hn, rfl⟩ := Option.map_eq_some_iff.mp hget
  exact (hlive.symbols n (List.mem_append_left _ (List.mem_of_find?_eq_some hn))).fn

/-- In a run of commands that load no exports all that the lists lead to is in use,
and what `mod_sym_get` finds; and the next command keeps it so exactly if it loads
none either. -/
theorem modRun_symbolsLive (hok : s₀.heap.Ok) (hkernel : kernel ∈ s₀.heap.live)
    (hinit : s₀.listed = [])
    (htable : ∀ i < szsymtab / symbolSize,
      SymIn kernel.Has s₀.heap.mem (symtab + symbolSize * i))
    (hboot : ModKsymtabAdd [kernel] symtab (szsymtab / symbolSize) s₀ s₁)
    (hrun : Run (fun s c s' => (c.WellFormed ∧ ¬ c.LoadsExports) ∧ ModStep kernel s c s')
      s₁ trace s) :
    SymbolsLive s ∧ (∀ name fn, modSymGet s name = some fn → s.heap.Live fn) ∧
      ∀ c s', ModStep kernel s c s' → c.WellFormed →
        (SymbolsLive s' ↔ ¬ c.LoadsExports) := by
  have hinv : ModInv kernel s := hrun.invariant (hboot.boot hok hkernel hinit htable)
    fun _ _ _ hinv hstep => hinv.untouched (hstep.2.untouched hinv hstep.1.1 hstep.1.2)
  refine ⟨hinv.symbolsLive, fun name fn => hinv.symbolsLive.modSymGet,
    fun c s' hstep hwf => ⟨fun hlive hexports => ?_, fun hnone => ?_⟩⟩
  · exact hstep.dangles hinv hwf hexports hlive
  · exact (hinv.untouched (hstep.untouched hinv hwf hnone)).symbolsLive

end Runs

/-! ## A module -/

section Module

/-- A half word and a word of a file. -/
def le16 (v : Nat) : List UInt8 := [UInt8.ofNat v, UInt8.ofNat (v / 256)]

def le32 (v : Nat) : List UInt8 := le16 v ++ le16 (v / 65536)

/-- An ELF file with one segment of 64 bytes, a string table and a section of exports
with the record of the module only. -/
def moduleFile : List UInt8 :=
  [0x7f, 0x45, 0x4c, 0x46, 1, 1, 1] ++ List.replicate 9 0 ++ le16 2 ++ le16 3 ++ le32 1 ++
    le32 0 ++ le32 52 ++ le32 84 ++ le32 0 ++ le16 52 ++ le16 32 ++ le16 1 ++ le16 40 ++ le16 3 ++
    le16 1 ++
  le32 1 ++ le32 0 ++ le32 0 ++ le32 0 ++ le32 0 ++ le32 64 ++ le32 0 ++ le32 0 ++
  List.replicate 40 0 ++
  le32 0 ++ le32 3 ++ List.replicate 8 0 ++ le32 204 ++ le32 9 ++ List.replicate 16 0 ++
  le32 1 ++ le32 1 ++ List.replicate 8 0 ++ le32 216 ++ le32 8 ++ List.replicate 16 0 ++
  [0] ++ exportsName ++ [0, 0, 0, 0] ++ le32 0 ++ le32 0

set_option maxRecDepth 4000 in
theorem moduleFile_length : moduleFile.length = 224 := by decide

set_option maxRecDepth 4000 in
theorem moduleFile_wellFormed (c : Command) (hc : c.file = moduleFile) : c.WellFormed := by
  rw [Command.WellFormed, hc]
  exact ⟨by decide, by decide, by decide, by decide, by decide, by decide⟩

set_option maxRecDepth 4000 in
theorem moduleFile_hasExports : HasExports moduleFile := by decide

/-- The kernel exports `"a"`, a function at 4112. -/
def kernelRegion : Region := ⟨4096, 4096⟩

def kernelMem : Mem := stringMem 4096 (le32 4104 ++ le32 4112 ++ [97, 0])

theorem kernelMem_symIn : SymIn kernelRegion.Has kernelMem 4096 where
  record x hx hx' := by
    unfold symbolSize at hx'
    simp only [Region.Has, kernelRegion]
    omega
  name := by
    have hname : symName kernelMem 4096 = 4104 := by decide
    rw [hname]
    refine ⟨[97], ⟨⟨by decide, trivial⟩, by decide, by decide, by decide⟩, fun x hx hx' => ?_⟩
    simp only [Region.Has, kernelRegion, List.length_singleton] at hx' ⊢
    omega
  fn := by decide

/-- `mod_init()` -/
def initSystem : ModSystem := { heap := ⟨kernelMem, [kernelRegion]⟩, exports := [], modules := [] }

theorem initSystem_table : ∀ i < 8 / symbolSize,
    SymIn kernelRegion.Has initSystem.heap.mem (4096 + symbolSize * i) := by
  intro i hi
  obtain rfl : i = 0 := by
    unfold symbolSize at hi
    omega
  exact kernelMem_symIn

/-- The block of the node for the symbol of the kernel. -/
def kernelNode : Region := ⟨8192, 64⟩

def bootSystem : ModSystem :=
  { initSystem with heap := initSystem.heap.give kernelNode, exports := [⟨kernelNode, 4096⟩] }

theorem initSystem_ok : initSystem.heap.Ok := ⟨by decide, by decide, by decide⟩

theorem bootSystem_boot : ModKsymtabAdd [kernelRegion] 4096 (8 / symbolSize) initSystem bootSystem :=
  .add (by decide) (by decide)
    (Heap.give_alloc (by decide) (by decide) (by decide) (by decide)) .done

/-- The block that the file is read into, the block of the image and that of the node
for the module. -/
def fileRegion : Region := ⟨16384, 256⟩

def imageRegion : Region := ⟨32768, 64⟩

def moduleNode : Region := ⟨36864, 64⟩

/-- The file was read. -/
def readSystem : ModSystem :=
  { bootSystem with
    heap :=
      { mem := fun x => if 16384 ≤ x then moduleFile.getD (x - 16384) 0 else kernelMem x
        live := fileRegion :: bootSystem.heap.live } }

theorem readSystem_readsFile :
    ReadsFile kernelRegion bootSystem readSystem moduleFile fileRegion where
  foreign := by
    refine ⟨rfl, rfl, fun r hr => ⟨?_, fun x hx => ?_⟩, fun _ => ⟨by decide, by decide, by decide⟩⟩
    · revert r
      decide
    · have hbelow : ∀ r ∈ [kernelRegion] ++ bootSystem.nodes, r.start + r.size ≤ 16384 := by decide
      have hr' := hbelow r hr
      unfold Region.Has at hx
      exact if_neg (by omega)
  live := by decide
  own := by decide
  room := by
    rw [moduleFile_length]
    decide
  contents := seg_of_load8 fun i hi => by
    have hlen := moduleFile_length
    change readSystem.heap.mem.load8 (16384 + i) = moduleFile[i]
    rw [Mem.load8_eq _ (by omega)]
    simp [readSystem, hi]

theorem readSystem_ok : readSystem.heap.Ok := ⟨by decide, by decide, by decide⟩

theorem readSystem_sameFile :
    SameFile moduleFile.length (stringMem 0 moduleFile) 0 readSystem.heap.mem fileRegion.start :=
  readSystem_readsFile.sameFile readSystem_ok

theorem moduleFile_wf : WellFormed (stringMem 0 moduleFile) 0 moduleFile.length :=
  moduleFile_wellFormed (.ldmod moduleFile) rfl

set_option maxRecDepth 4000 in
theorem readSystem_alloc :
    readSystem.heap.Alloc (getElfSize readSystem.heap.mem fileRegion.start)
      (readSystem.heap.give imageRegion) imageRegion := by
  refine Heap.give_alloc ?_ (by decide) (by decide) (by decide)
  rw [readSystem_sameFile.getElfSize moduleFile_wf.header moduleFile_wf.phdrsFit]
  decide

/-- The module is executed. -/
theorem moduleFile_exec : ∃ s, ModStep kernelRegion bootSystem (.exec moduleFile) s := by
  have hrun : ElfRun [kernelRegion, fileRegion] readSystem fileRegion.start _ :=
    .intro readSystem_alloc (Foreign.refl (by decide)) (Heap.take_free (by decide))
  exact ⟨_, .exec readSystem_readsFile hrun (Foreign.refl (by decide)) (Heap.take_free (by decide))⟩

/-- All that the lists lead to is in use behind `exec`. -/
theorem modRun_symbolsLive_exec : ∃ s,
    ModStep kernelRegion bootSystem (.exec moduleFile) s ∧ SymbolsLive s := by
  obtain ⟨s, hstep⟩ := moduleFile_exec
  exact ⟨s, hstep, (modRun_symbolsLive initSystem_ok (by decide) rfl initSystem_table bootSystem_boot
    (.snoc .nil ⟨⟨moduleFile_wellFormed _ rfl, id⟩, hstep⟩)).1⟩

/-- The segments are loaded. -/
def loadedSystem : ModSystem :=
  readSystem.load (readSystem.heap.give imageRegion) fileRegion.start imageRegion

theorem loadedSystem_sameFile :
    SameFile moduleFile.length (stringMem 0 moduleFile) 0 loadedSystem.heap.mem fileRegion.start := by
  have hfile := readSystem_sameFile
  have hnodes : ∀ r ∈ [] ++ readSystem.nodes, r ∈ readSystem.heap.live := by decide
  obtain ⟨-, hload⟩ := load_untouched readSystem_ok hnodes readSystem_readsFile.live
    readSystem_readsFile.room (hfile.wellFormed moduleFile_wf) readSystem_alloc
  exact fun i hi => (hload i hi).trans (hfile i hi)

/-- The record of the module is listed. -/
def listedSystem : ModSystem :=
  { loadedSystem with
    heap := (loadedSystem.write (relocateModule loadedSystem.heap.mem imageRegion.start
      (fileRegion.start + 216))).heap.give moduleNode
    modules := [⟨moduleNode, fileRegion.start + 216⟩] }

set_option maxRecDepth 4000 in
theorem listedSystem_addExports :
    AddExports fileRegion.start (fileRegion.start + shoff readSystem.heap.mem fileRegion.start)
      imageRegion.start loadedSystem listedSystem := by
  have hshoff : shoff readSystem.heap.mem fileRegion.start =
      shoff loadedSystem.heap.mem fileRegion.start := by
    rw [readSystem_sameFile.shoff moduleFile_wf.header,
      loadedSystem_sameFile.shoff moduleFile_wf.header]
  have hfind : findExports loadedSystem.heap.mem fileRegion.start
      (fileRegion.start + shoff loadedSystem.heap.mem fileRegion.start) = some ⟨1, 1, 216, 8⟩ := by
    rw [loadedSystem_sameFile.findExports moduleFile_wf]
    decide
  rw [hshoff, AddExports, hfind]
  have halloc : (loadedSystem.write (relocateModule loadedSystem.heap.mem imageRegion.start
      (fileRegion.start + 216))).heap.Alloc listNodeSize listedSystem.heap moduleNode :=
    Heap.give_alloc (by decide) (by decide) (by decide) (by decide)
  exact .intro halloc .done

set_option maxRecDepth 4000 in
/-- The module is loaded. -/
theorem moduleFile_ldmod : ∃ s, ModStep kernelRegion bootSystem (.ldmod moduleFile) s := by
  have hshoff : shoff readSystem.heap.mem fileRegion.start =
      shoff loadedSystem.heap.mem fileRegion.start := by
    rw [readSystem_sameFile.shoff moduleFile_wf.header,
      loadedSystem_sameFile.shoff moduleFile_wf.header]
  have hstrtab : shstrtabOff loadedSystem.heap.mem fileRegion.start
      (fileRegion.start + shoff readSystem.heap.mem fileRegion.start) ≠ 0 := by
    rw [hshoff, loadedSystem_sameFile.shstrtabOff moduleFile_wf.header moduleFile_wf.shdrsFit]
    decide
  have hload : ElfLoadMod [kernelRegion, fileRegion] readSystem fileRegion.start _ :=
    .intro readSystem_alloc hstrtab listedSystem_addExports (Foreign.refl (by decide))
      (Heap.take_free (by decide))
  exact ⟨_, .ldmod readSystem_readsFile hload (Foreign.refl (by decide))
    (Heap.take_free (by decide))⟩

/-- The lists lead into the file behind `ldmod`, which freed it. -/
theorem modRun_dangles :
    ¬ ∀ (kernel : Region) (symtab szsymtab : Nat) (s₀ s₁ : ModSystem), s₀.heap.Ok →
      kernel ∈ s₀.heap.live → s₀.listed = [] →
      (∀ i < szsymtab / symbolSize, SymIn kernel.Has s₀.heap.mem (symtab + symbolSize * i)) →
      ModKsymtabAdd [kernel] symtab (szsymtab / symbolSize) s₀ s₁ →
      ∀ trace s, Run (fun s c s' => c.WellFormed ∧ ModStep kernel s c s') s₁ trace s →
      SymbolsLive s := by
  intro h
  obtain ⟨s, hstep⟩ := moduleFile_ldmod
  have hinv : ModInv kernelRegion bootSystem :=
    bootSystem_boot.boot initSystem_ok (by decide) rfl initSystem_table
  refine hstep.dangles hinv (moduleFile_wellFormed _ rfl) moduleFile_hasExports ?_
  exact h kernelRegion 4096 8 initSystem bootSystem initSystem_ok (by decide) rfl initSystem_table
    bootSystem_boot _ s (.snoc .nil ⟨moduleFile_wellFormed _ rfl, hstep⟩)

end Module

end Microboot.Kern
