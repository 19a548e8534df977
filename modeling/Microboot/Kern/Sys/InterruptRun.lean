/-
  Kern/Sys/InterruptRun.lean --- interrupts after `interrupts_init`.

  Every gate leads to the stub with its number.  Handlers are registered, the last one
  under a number counts, and a bound handler counts more than one of low level.  A program
  that is interrupted goes on as if nothing had happened if its handler is bound, and with
  the registers of the frame if its handler has got the frame: a system call is one, and
  changes `%eax`.
-/
import Microboot.Foundation.History
import Microboot.Kern.Sys.InterruptReturn

set_option autoImplicit false

namespace Microboot.Kern.Sys

open Microboot.Foundation

variable {σ : Type}

/-! ## The gates -/

section Gates

variable {m m' : Mem} {p : Nat} {fn : UInt32} {dpl gateType : Nat} {stubs : Stubs}

/-- The fields of a byte are read as they were assigned. -/
theorem ofByte_byte (bits : GateBits) (htype : bits.gateType < 16)
    (hstorage : bits.storageSegment < 2) (hdpl : bits.dpl < 4) (hpresent : bits.present < 2) :
    GateBits.ofByte bits.byte = bits := by
  have hbyte : bits.byte.toNat = bits.gateType + 16 * bits.storageSegment + 32 * bits.dpl +
      128 * bits.present := by
    unfold GateBits.byte
    rw [UInt8.toNat_ofNat_of_lt']
    · omega
    · change _ < 256
      omega
  unfold GateBits.ofByte
  rw [hbyte]
  cases bits
  simp only [GateBits.mk.injEq]
  dsimp only at htype hstorage hdpl hpresent
  omega

/-- What is read from a byte fits its fields. -/
theorem ofByte_lt (b : UInt8) : (GateBits.ofByte b).gateType < 16 ∧
    (GateBits.ofByte b).storageSegment < 2 ∧ (GateBits.ofByte b).dpl < 4 ∧
      (GateBits.ofByte b).present < 2 := by
  have hb := b.toNat_lt
  unfold GateBits.ofByte
  dsimp only
  omega

/-- The halves of an address. -/
theorem toNat_lowHalf (x : UInt32) : (x &&& 0xffff).toUInt16.toNat = x.toNat % 65536 := by
  have hand : x.toNat &&& 65535 = x.toNat % 65536 := Nat.and_two_pow_sub_one_eq_mod _ 16
  rw [UInt32.toNat_toUInt16, UInt32.toNat_and]
  change (x.toNat &&& 65535) % 65536 = _
  rw [hand, Nat.mod_mod]

theorem toNat_highHalf (x : UInt32) :
    ((x &&& 0xffff0000) >>> 16).toUInt16.toNat = x.toNat / 65536 := by
  have hx := x.toNat_lt
  have hand : (x.toNat &&& 0xffff0000) >>> 16 = x.toNat / 65536 := by
    rw [Nat.shiftRight_and_distrib, Nat.shiftRight_eq_div_pow]
    change x.toNat / 65536 &&& (2 ^ 16 - 1) = _
    rw [Nat.and_two_pow_sub_one_eq_mod]
    omega
  rw [UInt32.toNat_toUInt16, UInt32.toNat_shiftRight, UInt32.toNat_and]
  change ((x.toNat &&& 0xffff0000) >>> 16) % 65536 = _
  rw [hand]
  omega

theorem setGateBits_load8 (m : Mem) (p : Nat) (f : GateBits → GateBits) :
    (setGateBits m p f).load8 (p + 5) = (f (.ofByte (m.load8 (p + 5)))).byte :=
  m.load8_store8_same _ _

theorem setGateBits_apply_of_ne {x : Nat} (f : GateBits → GateBits) (hp : p + 5 < 2 ^ 32)
    (hx : x ≠ p + 5) : setGateBits m p f x = m x := m.store8_apply_of_ne _ hp hx

/-- A gate is written into its eight bytes. -/
theorem makeGate_apply_of_disjoint {x : Nat} (hp : p + 8 ≤ 2 ^ 32) (hx : x < p ∨ p + 8 ≤ x) :
    makeGate m p fn dpl gateType x = m x := by
  unfold makeGate
  rw [Mem.storeBytes_apply_of_disjoint _ _ _ _ (by simp; omega) (by simp; omega),
    setGateBits_apply_of_ne _ (by omega) (by omega),
    setGateBits_apply_of_ne _ (by omega) (by omega),
    setGateBits_apply_of_ne _ (by omega) (by omega),
    Mem.store8_apply_of_ne _ _ (by omega) (by omega),
    Mem.storeBytes_apply_of_disjoint _ _ _ _ (by simp; omega) (by simp; omega),
    Mem.storeBytes_apply_of_disjoint _ _ _ _ (by simp; omega) (by simp; omega)]

/-- A gate depends only on its eight bytes. -/
theorem gateAt_congr (hp : p + 8 ≤ 2 ^ 32) (h : ∀ x, p ≤ x → x < p + 8 → m' x = m x) :
    gateAt m' p = gateAt m p := by
  have hbyte : ∀ i < 8, m'.load8 (p + i) = m.load8 (p + i) := by
    intro i hi
    rw [Mem.load8_eq _ (by omega), Mem.load8_eq _ (by omega), h (p + i) (by omega) (by omega)]
  have h0 := hbyte 0 (by decide)
  rw [Nat.add_zero] at h0
  unfold gateAt word16 Mem.load16
  rw [h0, hbyte 1 (by decide), hbyte 5 (by decide), hbyte 6 (by decide), hbyte 2 (by decide),
    Nat.add_assoc p 6, Nat.add_assoc p 2, hbyte 7 (by decide), hbyte 3 (by decide)]

/-- The gate that `make_gate` has made, as the processor reads it. -/
theorem gateAt_makeGate (hp : p + 8 ≤ 2 ^ 32) (hdpl : dpl < 4) (htype : gateType < 16) :
    gateAt (makeGate m p fn dpl gateType) p =
      ⟨fn, kernelCsel, ⟨gateType, (GateBits.ofByte (m.load8 (p + 5))).storageSegment, dpl, 1⟩⟩ := by
  obtain ⟨htypeOld, hstorage, -, hpresent⟩ := ofByte_lt (m.load8 (p + 5))
  -- the offset
  have hlow : Seg (makeGate m p fn dpl gateType) p (bytes16 (fn &&& 0xffff).toUInt16) := by
    refine (seg_storeBytes (m := m) (by simp; omega)).congr (by simp; omega) fun x hx hx' => ?_
    rw [length_bytes16] at hx'
    unfold makeGate
    rw [Mem.storeBytes_apply_of_disjoint _ _ _ _ (by simp; omega) (by simp; omega),
      setGateBits_apply_of_ne _ (by omega) (by omega),
      setGateBits_apply_of_ne _ (by omega) (by omega),
      setGateBits_apply_of_ne _ (by omega) (by omega),
      Mem.store8_apply_of_ne _ _ (by omega) (by omega),
      Mem.storeBytes_apply_of_disjoint _ _ _ _ (by simp; omega) (by simp; omega)]
  have hhigh : Seg (makeGate m p fn dpl gateType) (p + 6)
      (bytes16 ((fn &&& 0xffff0000) >>> 16).toUInt16) := by
    refine (seg_storeBytes (m := m.storeBytes p (bytes16 (fn &&& 0xffff).toUInt16))
      (by simp; omega)).congr (by simp; omega) fun x hx hx' => ?_
    rw [length_bytes16] at hx'
    unfold makeGate
    rw [Mem.storeBytes_apply_of_disjoint _ _ _ _ (by simp; omega) (by simp; omega),
      setGateBits_apply_of_ne _ (by omega) (by omega),
      setGateBits_apply_of_ne _ (by omega) (by omega),
      setGateBits_apply_of_ne _ (by omega) (by omega),
      Mem.store8_apply_of_ne _ _ (by omega) (by omega)]
  have hselector : Seg (makeGate m p fn dpl gateType) (p + 2) (bytes16 kernelCsel) :=
    seg_storeBytes (by simp; omega)
  -- the bit fields
  have hbits : GateBits.ofByte ((makeGate m p fn dpl gateType).load8 (p + 5)) =
      ⟨gateType, (GateBits.ofByte (m.load8 (p + 5))).storageSegment, dpl, 1⟩ := by
    unfold makeGate
    rw [load8_storeBytes_of_disjoint (by simp; omega) (by omega) (by simp), setGateBits_load8,
      setGateBits_load8, setGateBits_load8,
      Mem.load8_store8_of_ne _ _ (by omega) (by omega) (by omega),
      load8_storeBytes_of_disjoint (by simp; omega) (by omega) (by simp),
      load8_storeBytes_of_disjoint (by simp; omega) (by omega) (by simp),
      ofByte_byte ⟨_, _, dpl, _⟩ htypeOld hstorage hdpl hpresent,
      ofByte_byte ⟨gateType, _, dpl, _⟩ htype hstorage hdpl hpresent,
      ofByte_byte ⟨gateType, _, dpl, 1⟩ htype hstorage hdpl Nat.one_lt_two]
  have hoffset : UInt32.ofNat ((makeGate m p fn dpl gateType).load16 p +
      65536 * (makeGate m p fn dpl gateType).load16 (p + 6)) = fn := by
    have hfn := fn.toNat_lt
    apply UInt32.toNat_inj.mp
    rw [← toNat_word16, ← toNat_word16, hlow.word16, hhigh.word16, toNat_lowHalf, toNat_highHalf,
      UInt32.toNat_ofNat_of_lt']
    · omega
    · change _ < 2 ^ 32
      omega
  rw [gateAt, hoffset, hselector.word16, hbits]

end Gates

/-! ## The tables after interrupts_init -/

section Init

variable {stubs : Stubs} {idt : UInt32} {print : IntrFrame → σ → σ} {h₀ : Handlers σ}
  {m₀ : IntrMachine σ}

/-- What is registered under a number is found there. -/
theorem registerHandler_get (h : Handlers σ) (intNo : Int) (handler : Option (IntrHandler σ))
    {n : Nat} (hn : n < intrCount) :
    (registerHandler h intNo handler).bound[n]? =
      (if intNo = n then some handler else h.bound[n]?) ∧
    (registerHandler h intNo handler).llBound = h.llBound := by
  have hlt : n < 256 := hn
  have hcount : (intrCount : Int) = 256 := rfl
  unfold registerHandler
  by_cases heq : intNo = n
  · subst heq
    rw [if_pos ⟨by omega, by omega⟩, if_pos rfl]
    exact ⟨by simp [hn], rfl⟩
  · rw [if_neg heq]
    split
    · exact ⟨Vector.getElem?_setIfInBounds_ne (by omega), rfl⟩
    · exact ⟨rfl, rfl⟩

theorem registerLlHandler_get (h : Handlers σ) (intNo : Int) (handler : Option (LlIntrHandler σ))
    {n : Nat} (hn : n < intrCount) :
    (registerLlHandler h intNo handler).llBound[n]? =
      (if intNo = n then some handler else h.llBound[n]?) ∧
    (registerLlHandler h intNo handler).bound = h.bound := by
  have hlt : n < 256 := hn
  have hcount : (intrCount : Int) = 256 := rfl
  unfold registerLlHandler
  by_cases heq : intNo = n
  · subst heq
    rw [if_pos ⟨by omega, by omega⟩, if_pos rfl]
    exact ⟨by simp [hn], rfl⟩
  · rw [if_neg heq]
    split
    · exact ⟨Vector.getElem?_setIfInBounds_ne (by omega), rfl⟩
    · exact ⟨rfl, rfl⟩

/-- The gate of an interrupt leads to its stub; the segment is the kernel's, and the bit that is
not assigned is as in `m`. -/
def gateOf (stubs : Stubs) (m : Mem) (base n : Nat) : Gate :=
  ⟨stubs.addr n, kernelCsel,
    ⟨15, (GateBits.ofByte (m.load8 (base + 8 * n + 5))).storageSegment, 0, 1⟩⟩

/-- The loop has made the first `i` gates. -/
structure GatesMade (stubs : Stubs) (m : Mem) (base i : Nat) (s : Handlers σ × Mem) : Prop where
  bound : ∀ n < i, s.1.bound[n]? = some none
  llBound : ∀ n < i, s.1.llBound[n]? = some (some exception)
  gate : ∀ n < i, gateAt s.2 (base + 8 * n) = gateOf stubs m base n
  same : ∀ x, x < base ∨ base + 8 * i ≤ x → s.2 x = m x

theorem GatesMade.round {m : Mem} {base i : Nat} {s : Handlers σ × Mem} (hi : i < intrCount)
    (hfits : base + 2048 ≤ 2 ^ 32) (h : GatesMade stubs m base i s) :
    GatesMade stubs m base (i + 1) (initGate stubs base i s) := by
  have hlt : i < 256 := hi
  have hll := fun n hn => registerLlHandler_get (n := n)
    { s.1 with bound := s.1.bound.setIfInBounds i none } i (some exception) hn
  refine ⟨fun n hn => ?_, fun n hn => ?_, fun n hn => ?_, fun x hx => ?_⟩
  · have hset : (initGate stubs base i s).1.bound = s.1.bound.setIfInBounds i none :=
      (hll i hi).2
    rw [hset]
    rcases Nat.lt_succ_iff_lt_or_eq.mp hn with hn | rfl
    · rw [Vector.getElem?_setIfInBounds_ne (by omega)]
      exact h.bound n hn
    · simp [hi]
  · refine (hll n (by change n < 256; omega)).1.trans ?_
    rcases Nat.lt_succ_iff_lt_or_eq.mp hn with hn | rfl
    · rw [if_neg (by omega)]
      exact h.llBound n hn
    · rw [if_pos rfl]
  · rcases Nat.lt_succ_iff_lt_or_eq.mp hn with hn | rfl
    · -- the gates before are as they were
      rw [← h.gate n hn]
      exact gateAt_congr (by omega) fun x _ _ => makeGate_apply_of_disjoint (by omega) (by omega)
    · refine (gateAt_makeGate (by omega) (by decide) (by decide)).trans ?_
      rw [gateOf, Mem.load8_eq _ (by omega), h.same _ (by omega), ← Mem.load8_eq m (by omega)]
  · exact (makeGate_apply_of_disjoint (by omega) (by omega)).trans (h.same x (by omega))

theorem initGates_made {m : Mem} {base : Nat} (hfits : base + 2048 ≤ 2 ^ 32) :
    GatesMade stubs m base intrCount (initGates stubs base h₀ m) :=
  forUpto_inv (GatesMade stubs m base)
    ⟨fun n hn => absurd hn (Nat.not_lt_zero n), fun n hn => absurd hn (Nat.not_lt_zero n),
      fun n hn => absurd hn (Nat.not_lt_zero n), fun _ _ => rfl⟩
    fun _ hi _ h => h.round hi hfits

/-- The handlers that `interrupts_init` leaves: one that does nothing for the timer, the dump of
the registers for a breakpoint, and `exception` for every interrupt without one. -/
theorem interruptsInit_handlers (hidt : idt.toNat + 2048 ≤ 2 ^ 32) {n : Nat} (hn : n < intrCount) :
    (interruptsInit stubs idt print h₀ m₀).1.bound[n]? =
        some (if n = 32 then some doNothing else none) ∧
      (interruptsInit stubs idt print h₀ m₀).1.llBound[n]? =
        some (some (if n = 3 then dumpRegs print else exception)) := by
  have hmade : GatesMade stubs m₀.sys.mem idt.toNat intrCount
      (initGates stubs idt.toNat h₀ m₀.sys.mem) := initGates_made hidt
  have hbound := registerHandler_get (initGates stubs idt.toNat h₀ m₀.sys.mem).1 (irqToIntr 0)
    (some doNothing) hn
  have hll := registerLlHandler_get (registerHandler (initGates stubs idt.toNat h₀ m₀.sys.mem).1
    (irqToIntr 0) (some doNothing)) 3 (some (dumpRegs print)) hn
  have hirq : irqToIntr 0 = n ↔ n = 32 := by
    unfold irqToIntr
    omega
  have hthree : (3 : Int) = n ↔ n = 3 := by omega
  have hcli : (Instr.run m₀ .cli).sys.mem = m₀.sys.mem := rfl
  unfold interruptsInit
  dsimp only
  rw [hcli]
  constructor
  · rw [hll.2]
    refine hbound.1.trans ?_
    rw [hmade.bound n hn]
    simp only [hirq]
    split <;> rfl
  · refine hll.1.trans ?_
    rw [hbound.2, hmade.llBound n hn]
    simp only [hthree]
    split <;> rfl

variable (print h₀) in
/-- The table has the gates, and nothing else is written. -/
theorem interruptsInit_gates (hidt : idt.toNat + 2048 ≤ 2 ^ 32) :
    (∀ n < intrCount, gateAt (interruptsInit stubs idt print h₀ m₀).2.sys.mem (idt.toNat + 8 * n) =
      gateOf stubs m₀.sys.mem idt.toNat n) ∧
    ∀ x, x < idt.toNat ∨ idt.toNat + 2048 ≤ x →
      (interruptsInit stubs idt print h₀ m₀).2.sys.mem x = m₀.sys.mem x := by
  have hmade : GatesMade stubs m₀.sys.mem idt.toNat intrCount
      (initGates stubs idt.toNat h₀ m₀.sys.mem) := initGates_made hidt
  exact ⟨hmade.gate, hmade.same⟩

end Init

/-! ## Registrations -/

/-- A call of `register_handler` or `register_ll_handler`. -/
inductive Registration (σ : Type)
  | handler (intNo : Int) (handler : Option (IntrHandler σ))
  | llHandler (intNo : Int) (handler : Option (LlIntrHandler σ))

/-- One registration. -/
def Handlers.register (h : Handlers σ) : Registration σ → Handlers σ
  | .handler intNo handler => registerHandler h intNo handler
  | .llHandler intNo handler => registerLlHandler h intNo handler

/-- The registration of a handler under a number. -/
def Registration.Binds (n : Nat) : Registration σ → Prop
  | .handler intNo _ => intNo = n
  | .llHandler _ _ => False

/-- The registration of a handler of low level under a number. -/
def Registration.LlBinds (n : Nat) : Registration σ → Prop
  | .handler _ _ => False
  | .llHandler intNo _ => intNo = n

/-- The handler that counts, after the registrations behind `interrupts_init`. -/
def Bound (calls : List (Registration σ)) (n : Nat) (handler : Option (IntrHandler σ)) : Prop :=
  Last (Registration.Binds n) calls (.handler n handler) ∨
    (∀ c ∈ calls, ¬ c.Binds n) ∧ handler = if n = 32 then some doNothing else none

/-- The handler of low level that counts. -/
def LlBound (print : IntrFrame → σ → σ) (calls : List (Registration σ)) (n : Nat)
    (handler : Option (LlIntrHandler σ)) : Prop :=
  Last (Registration.LlBinds n) calls (.llHandler n handler) ∨
    (∀ c ∈ calls, ¬ c.LlBinds n) ∧ handler = some (if n = 3 then dumpRegs print else exception)

section Registrations

variable {stubs : Stubs} {idt : UInt32} {print : IntrFrame → σ → σ} {h₀ : Handlers σ}
  {m₀ : IntrMachine σ} {calls : List (Registration σ)} {n : Nat}

variable (stubs print h₀ m₀) in
/-- The last registration under a number is found in the table. -/
theorem foldl_register_bound (hidt : idt.toNat + 2048 ≤ 2 ^ 32) (hn : n < intrCount)
    {handler : Option (IntrHandler σ)} (h : Bound calls n handler) :
    (calls.foldl Handlers.register (interruptsInit stubs idt print h₀ m₀).1).bound[n]? =
      some handler := by
  induction calls using List.reverseRecOn generalizing handler with
  | nil =>
    rcases h with h | ⟨-, rfl⟩
    · exact absurd h not_last_nil
    · exact (interruptsInit_handlers hidt hn).1
  | append_singleton calls c ih =>
    rw [List.foldl_append, List.foldl_cons, List.foldl_nil]
    generalize calls.foldl Handlers.register _ = table at ih ⊢
    have hother : ¬ c.Binds n → table.bound[n]? = some handler := by
      intro hc
      rcases h with h | ⟨hnone, hhandler⟩
      · exact ih (.inl ((last_snoc_of_not hc).mp h))
      · exact ih (.inr ⟨fun d hd => hnone d (List.mem_append_left _ hd), hhandler⟩)
    cases c with
    | handler intNo f =>
      rw [Handlers.register, (registerHandler_get table intNo f hn).1]
      split
      next heq =>
        have hbinds : (Registration.handler intNo f).Binds n := heq
        rcases h with h | ⟨hnone, -⟩
        · cases (last_snoc_of hbinds).mp h
          rfl
        · exact absurd hbinds (hnone _ (List.mem_append_right _ List.mem_cons_self))
      next hne => exact hother hne
    | llHandler intNo f =>
      rw [Handlers.register, (registerLlHandler_get table intNo f hn).2]
      exact hother id

variable (stubs h₀ m₀) in
theorem foldl_register_llBound (hidt : idt.toNat + 2048 ≤ 2 ^ 32) (hn : n < intrCount)
    {handler : Option (LlIntrHandler σ)} (h : LlBound print calls n handler) :
    (calls.foldl Handlers.register (interruptsInit stubs idt print h₀ m₀).1).llBound[n]? =
      some handler := by
  induction calls using List.reverseRecOn generalizing handler with
  | nil =>
    rcases h with h | ⟨-, rfl⟩
    · exact absurd h not_last_nil
    · exact (interruptsInit_handlers hidt hn).2
  | append_singleton calls c ih =>
    rw [List.foldl_append, List.foldl_cons, List.foldl_nil]
    generalize calls.foldl Handlers.register _ = table at ih ⊢
    have hother : ¬ c.LlBinds n → table.llBound[n]? = some handler := by
      intro hc
      rcases h with h | ⟨hnone, hhandler⟩
      · exact ih (.inl ((last_snoc_of_not hc).mp h))
      · exact ih (.inr ⟨fun d hd => hnone d (List.mem_append_left _ hd), hhandler⟩)
    cases c with
    | handler intNo f =>
      rw [Handlers.register, (registerHandler_get table intNo f hn).2]
      exact hother id
    | llHandler intNo f =>
      rw [Handlers.register, (registerLlHandler_get table intNo f hn).1]
      split
      next heq =>
        have hbinds : (Registration.llHandler intNo f).LlBinds n := heq
        rcases h with h | ⟨hnone, -⟩
        · cases (last_snoc_of hbinds).mp h
          rfl
        · exact absurd hbinds (hnone _ (List.mem_append_right _ List.mem_cons_self))
      next hne => exact hother hne

end Registrations

/-! ## Interrupts after interrupts_init -/

/-- The kernel that `interrupts_init` has set up and handlers were registered with: the register
of the table, and the table. -/
structure IntrReady (stubs : Stubs) (idt : UInt32) (print : IntrFrame → σ → σ) (h₀ : Handlers σ)
    (m₀ m : IntrMachine σ) : Prop where
  fits : idt.toNat + 2048 ≤ 2 ^ 32
  storage : ∀ n < intrCount,
    (GateBits.ofByte (m₀.sys.mem.load8 (idt.toNat + 8 * n + 5))).storageSegment = 0
  idtr : m.idtr = (interruptsInit stubs idt print h₀ m₀).2.idtr
  table : ∀ x, idt.toNat ≤ x → x < idt.toNat + 2048 →
    m.sys.mem x = (interruptsInit stubs idt print h₀ m₀).2.sys.mem x

/-- What ends an interrupt of the controllers: a word to the first, and one to the second for
its lines. -/
def eoiOuts (n : Nat) : List (UInt16 × UInt8) :=
  if 0x20 ≤ n ∧ n < 0x30 then
    if n < 0x28 then [(0x20, 0x20)] else [(0x20, 0x20), (0xa0, 0x20)]
  else []

/-- `interrupts_handle_int` ends the interrupt that the frame names when the handler is back. -/
theorem interruptsHandleInt_eq (h : Handlers σ) (frame : Nat) (s : IntrSystem σ) :
    interruptsHandleInt h frame s = (callHandler h frame s).map fun s =>
      { s with outs := s.outs ++ eoiOuts (frameAt s.mem frame).intNo.toNat } := by
  unfold interruptsHandleInt
  cases callHandler h frame s with
  | none => rfl
  | some s =>
    have hge : (frameAt s.mem frame).intNo ≥ 0x20 ↔ 0x20 ≤ (frameAt s.mem frame).intNo.toNat :=
      UInt32.le_iff_toNat_le
    have hlt : (frameAt s.mem frame).intNo < 0x30 ↔ (frameAt s.mem frame).intNo.toNat < 0x30 :=
      UInt32.lt_iff_toNat_lt
    simp only [Option.bind_eq_bind, Option.bind_some, Option.map_some, hge, hlt]
    unfold eoiOuts
    split
    next hline =>
      have hint : (frameAt s.mem frame).intNo.toInt32.toInt = (frameAt s.mem frame).intNo.toNat :=
        BitVec.toInt_eq_toNat_of_lt (by
          change 2 * (frameAt s.mem frame).intNo.toNat < 2 ^ 32
          omega)
      unfold interruptsEoi IntrSystem.outb
      dsimp only
      rw [hint]
      split
      next hhigh =>
        rw [if_neg (by omega), List.append_assoc]
        rfl
      next hlow =>
        rw [if_pos (by omega)]
        rfl
    next =>
      rw [List.append_nil]
      rfl

/-- A bound handler is called with the number and the error code. -/
theorem callHandler_bound {h : Handlers σ} {frame n : Nat} {s : IntrSystem σ} {f : IntrHandler σ}
    (hn : (frameAt s.mem frame).intNo.toNat = n) (hbound : h.bound[n]? = some (some f)) :
    callHandler h frame s =
      f (frameAt s.mem frame).intNo (frameAt s.mem frame).errCode s := by
  unfold callHandler
  simp [hn, hbound]

/-- A handler of low level is called with the frame, if no handler is bound. -/
theorem callHandler_ll {h : Handlers σ} {frame n : Nat} {s : IntrSystem σ} {f : LlIntrHandler σ}
    (hn : (frameAt s.mem frame).intNo.toNat = n) (hbound : h.bound[n]? = some none)
    (hll : h.llBound[n]? = some (some f)) : callHandler h frame s = f frame s := by
  unfold callHandler
  simp [hn, hbound, hll]

/-- The frame of a program holds its registers. -/
theorem context_intrFrame (m : IntrMachine σ) (n : Nat) (errCode : UInt32) :
    (m.intrFrame n errCode).context (m.ctx.reg .esp) = m.ctx := by
  have hcs : m.ctx.cs.toUInt32.toUInt16 = m.ctx.cs := by simp
  refine Context.ext ?_ ?_ rfl hcs rfl
  · funext r
    cases r <;> rfl
  · funext s
    cases s <;> rfl

section Results

variable {stubs : Stubs} {idt : UInt32} {print : IntrFrame → σ → σ} {h₀ : Handlers σ}
  {m₀ m : IntrMachine σ} {calls : List (Registration σ)} {n : Nat} {errCode : Option UInt32}
  {scratch : Scratch} {sys : IntrSystem σ}

/-- What keeps the register of the table and the table keeps the kernel ready. -/
theorem IntrReady.congr {m' : IntrMachine σ} (h : IntrReady stubs idt print h₀ m₀ m)
    (hidtr : m'.idtr = m.idtr)
    (htable : ∀ x, idt.toNat ≤ x → x < idt.toNat + 2048 → m'.sys.mem x = m.sys.mem x) :
    IntrReady stubs idt print h₀ m₀ m' where
  fits := h.fits
  storage := h.storage
  idtr := hidtr.trans h.idtr
  table x hx hx' := (htable x hx hx').trans (h.table x hx hx')

/-- The gate of an interrupt is the one that `interrupts_init` has made. -/
theorem IntrReady.gate_eq (h : IntrReady stubs idt print h₀ m₀ m) (hn : n < intrCount) :
    m.gate? n = some (gateOf stubs m₀.sys.mem idt.toNat n) := by
  have hfits := h.fits
  have hlt : n < 256 := hn
  have hgate : gateAt m.sys.mem (idt.toNat + 8 * n) = gateOf stubs m₀.sys.mem idt.toNat n := by
    rw [← (interruptsInit_gates print h₀ hfits).1 n hn]
    exact gateAt_congr (by omega) fun x hx hx' => h.table x (by omega) (by omega)
  have hidtr : m.idtr = ⟨0x7ff, idt⟩ := h.idtr
  unfold IntrMachine.gate?
  rw [hidtr]
  dsimp only
  rw [hgate]
  refine if_pos ⟨?_, rfl, h.storage n hn, .inr rfl⟩
  change 8 * n + 7 ≤ 2047
  omega

/-- Every interrupt goes to its stub. -/
theorem IntrReady.arrives (h : IntrReady stubs idt print h₀ m₀ m) (hn : n < intrCount)
    (herr : errCode.isSome = true ↔ n ∈ errVectors) (hroom : 66 ≤ m.sp) :
    Arrives stubs n errCode m :=
  ⟨hn, ⟨gateOf stubs m₀.sys.mem idt.toNat n, h.gate_eq hn, rfl⟩, herr, hroom⟩

/-- The number in the frame. -/
theorem intNo_toNat (hn : n < intrCount) : (UInt32.ofNat n).toNat = n :=
  UInt32.toNat_ofNat_of_lt' (Nat.lt_trans hn (by decide))

/-- A frame depends only on its bytes. -/
theorem frameAt_congr {mem mem' : Mem} {p : Nat} (hp : p + 62 ≤ 2 ^ 32)
    (h : ∀ x, p ≤ x → x < p + 62 → mem' x = mem x) : frameAt mem' p = frameAt mem p := by
  unfold frameAt
  congr 1 <;>
    first
    | exact word16_congr (by omega) fun x hx hx' => h x (by omega) (by omega)
    | exact word32_congr (by omega) fun x hx hx' => h x (by omega) (by omega)

/-- What is on the stack between the pointer to the frame and the place where the program's
stack ends is as it was. -/
def KeepsStack (m : IntrMachine σ) (mem mem' : Mem) : Prop :=
  ∀ x, m.sp - 66 ≤ x → x < m.sp → mem' x = mem x

theorem KeepsStack.frame {s : IntrSystem σ} (h : KeepsStack m s.mem sys.mem) (hroom : 66 ≤ m.sp) :
    frameAt sys.mem m.framePtr = frameAt s.mem m.framePtr := by
  have hlt : m.sp < 2 ^ 32 := (m.ctx.reg .esp).toNat_lt
  unfold IntrMachine.framePtr
  exact frameAt_congr (by omega) fun x hx hx' => h x (by omega) (by omega)

theorem KeepsStack.pointers {e : UInt32} (h : KeepsStack m (m.saved n e).mem sys.mem)
    (hroom : 66 ≤ m.sp) : KeepsPointers m sys.mem := by
  have hlt : m.sp < 2 ^ 32 := (m.ctx.reg .esp).toNat_lt
  constructor
  · rw [word32_congr (m := (m.saved n e).mem) (by omega) fun x hx hx' => h x hx (by omega)]
    exact (seg_append.mp (saved_seg n e hroom)).1.word32
  · rw [h.frame hroom, frameAt_saved n e hroom]
    rfl

variable (scratch) in
/-- An interrupt with a bound handler that leaves the stack of the interrupt alone. -/
theorem interrupt_bound {h : Handlers σ} {f : IntrHandler σ}
    (harrives : Arrives stubs n errCode m) (hentry : h.bound[n]? = some (some f))
    (hrun : f (UInt32.ofNat n) (errCode.getD 0) (m.saved n (errCode.getD 0)) = some sys)
    (hkeeps : KeepsStack m (m.saved n (errCode.getD 0)).mem sys.mem) :
    interrupt stubs h scratch n errCode m =
      some { m with sys := { sys with outs := sys.outs ++ eoiOuts n } } := by
  have hroom := harrives.room
  have hframe := frameAt_saved (m := m) n (errCode.getD 0) hroom
  have hnum : (m.intrFrame n (errCode.getD 0)).intNo.toNat = n := intNo_toNat harrives.lt
  have hcall : callHandler h m.framePtr (m.saved n (errCode.getD 0)) = some sys := by
    rw [callHandler_bound (by rw [hframe, hnum]) hentry, hframe]
    exact hrun
  have hkept : frameAt sys.mem m.framePtr = m.intrFrame n (errCode.getD 0) :=
    (hkeeps.frame hroom).trans hframe
  have hhandled : interruptsHandleInt h m.framePtr (m.saved n (errCode.getD 0)) =
      some { sys with outs := sys.outs ++ eoiOuts n } := by
    rw [interruptsHandleInt_eq, hcall, Option.map_some, hkept, hnum]
  rw [interrupt_eq harrives, hhandled, Option.map_some]
  · unfold IntrMachine.resume
    rw [hkept, context_intrFrame]
  · intro sys' hsys'
    cases hhandled.symm.trans hsys'
    exact hkeeps.pointers hroom

/-- A program goes on behind an interrupt with the registers it had, if the handler is bound
and leaves the stack of the interrupt alone; the handler has been called with the number and
the error code, and the interrupt has been ended. -/
theorem interrupt_resumes {f : IntrHandler σ} (hready : IntrReady stubs idt print h₀ m₀ m)
    (hn : n < intrCount) (herr : errCode.isSome = true ↔ n ∈ errVectors) (hroom : 66 ≤ m.sp)
    (hbound : Bound calls n (some f))
    (hrun : f (UInt32.ofNat n) (errCode.getD 0) (m.saved n (errCode.getD 0)) = some sys)
    (hkeeps : KeepsStack m (m.saved n (errCode.getD 0)).mem sys.mem) :
    interrupt stubs (calls.foldl Handlers.register (interruptsInit stubs idt print h₀ m₀).1)
      scratch n errCode m = some { m with sys := { sys with outs := sys.outs ++ eoiOuts n } } := by
  have harrives : Arrives stubs n errCode m := hready.arrives hn herr hroom
  have hentry := foldl_register_bound stubs print h₀ m₀ hready.fits hn hbound
  exact interrupt_bound scratch harrives hentry hrun hkeeps

variable (scratch) in
/-- An interrupt whose handler of low level is called. -/
theorem interrupt_llBound {h : Handlers σ} {f : LlIntrHandler σ}
    (harrives : Arrives stubs n errCode m) (hentry : h.bound[n]? = some none)
    (hllEntry : h.llBound[n]? = some (some f))
    (hrun : f m.framePtr (m.saved n (errCode.getD 0)) = some sys)
    (hkeeps : KeepsPointers m sys.mem) :
    interrupt stubs h scratch n errCode m = some {
      ctx := (frameAt sys.mem m.framePtr).context (m.ctx.reg .esp)
      idtr := m.idtr
      sys := { sys with
        outs := sys.outs ++ eoiOuts (frameAt sys.mem m.framePtr).intNo.toNat } } := by
  have hframe := frameAt_saved (m := m) n (errCode.getD 0) harrives.room
  have hnum : (m.intrFrame n (errCode.getD 0)).intNo.toNat = n := intNo_toNat harrives.lt
  have hhandled : interruptsHandleInt h m.framePtr (m.saved n (errCode.getD 0)) =
      some { sys with
        outs := sys.outs ++ eoiOuts (frameAt sys.mem m.framePtr).intNo.toNat } := by
    rw [interruptsHandleInt_eq, callHandler_ll (by rw [hframe, hnum]) hentry hllEntry, hrun,
      Option.map_some]
  rw [interrupt_eq harrives, hhandled, Option.map_some]
  · rfl
  · intro sys' hsys'
    cases hhandled.symm.trans hsys'
    exact hkeeps

/-- A handler of low level gets the frame, with the registers of the program.  If it leaves the
pointers alone, the program goes on with the registers that are in the frame then, and the
interrupt that the frame names has been ended. -/
theorem interrupt_handsFrame {f : LlIntrHandler σ} (hready : IntrReady stubs idt print h₀ m₀ m)
    (hn : n < intrCount) (herr : errCode.isSome = true ↔ n ∈ errVectors) (hroom : 66 ≤ m.sp)
    (hbound : Bound calls n none) (hll : LlBound print calls n (some f))
    (hrun : f m.framePtr (m.saved n (errCode.getD 0)) = some sys)
    (hkeeps : KeepsPointers m sys.mem) :
    frameAt (m.saved n (errCode.getD 0)).mem m.framePtr = m.intrFrame n (errCode.getD 0) ∧
    interrupt stubs (calls.foldl Handlers.register (interruptsInit stubs idt print h₀ m₀).1)
      scratch n errCode m = some {
        ctx := (frameAt sys.mem m.framePtr).context (m.ctx.reg .esp)
        idtr := m.idtr
        sys := { sys with
          outs := sys.outs ++ eoiOuts (frameAt sys.mem m.framePtr).intNo.toNat } } := by
  have harrives : Arrives stubs n errCode m := hready.arrives hn herr hroom
  have hentry := foldl_register_bound stubs print h₀ m₀ hready.fits hn hbound
  have hllEntry := foldl_register_llBound stubs h₀ m₀ hready.fits hn hll
  exact ⟨frameAt_saved n _ hroom, interrupt_llBound scratch harrives hentry hllEntry hrun hkeeps⟩

/-- Stubs at `0x1000`, `0x1010` and so on. -/
def bareStubs : Stubs where
  addrs := (List.range 256).map fun n => UInt32.ofNat (0x1000 + 16 * n)
  length_eq := by simp [intrCount]
  nodup := by
    refine List.Nodup.map_on (fun i hi j hj heq => ?_) List.nodup_range
    have hi := List.mem_range.mp hi
    have hj := List.mem_range.mp hj
    have hnat := congrArg UInt32.toNat heq
    rw [UInt32.toNat_ofNat_of_lt' (by change _ < 2 ^ 32; omega),
      UInt32.toNat_ofNat_of_lt' (by change _ < 2 ^ 32; omega)] at hnat
    omega

/-- Tables without a handler. -/
def bareHandlers : Handlers σ where
  bound := .replicate _ none
  llBound := .replicate _ none

/-- A machine with an empty memory and its stack below `0x7000`. -/
def bareMachine (world : σ) : IntrMachine σ where
  ctx := {
    reg := fun r => if r = .esp then 0x7000 else 2
    seg := fun _ => 0x10
    eip := 0x500
    cs := 8
    eflags := 2 }
  idtr := ⟨0, 0⟩
  sys := { mem := fun _ => 0, outs := [], world := world }

/-- The bare machine behind `interrupts_init`. -/
def startedKernel (world : σ) : IntrMachine σ :=
  (interruptsInit bareStubs 0x8000 (fun _ w => w) bareHandlers (bareMachine world)).2

/-- Its handlers, after registrations. -/
def startedTables (world : σ) (calls : List (Registration σ)) : Handlers σ :=
  calls.foldl Handlers.register
    (interruptsInit bareStubs 0x8000 (fun _ w => w) bareHandlers (bareMachine world)).1

/-- The bare kernel has nothing else. -/
abbrev bareKernel : IntrMachine Unit := startedKernel ()

abbrev bareTables (calls : List (Registration Unit)) : Handlers Unit := startedTables () calls

theorem startedKernel_ready (world : σ) :
    IntrReady bareStubs 0x8000 (fun _ w => w) bareHandlers (bareMachine world)
      (startedKernel world) where
  fits := by decide
  storage _ _ := by
    change (GateBits.ofByte 0).storageSegment = 0
    rfl
  idtr := rfl
  table _ _ _ := rfl

theorem startedKernel_reg (world : σ) :
    (startedKernel world).ctx.reg = (bareMachine ()).ctx.reg := rfl

theorem startedKernel_sp (world : σ) : (startedKernel world).sp = 0x7000 := by
  unfold IntrMachine.sp
  rw [startedKernel_reg]
  rfl

theorem bareKernel_room : 66 ≤ bareKernel.sp := by
  rw [startedKernel_sp]
  decide

/-- The timer interrupts the bare kernel. -/
theorem interrupt_resumes_timer :
    interrupt bareStubs (bareTables []) ⟨0, 0, 0, 0⟩ 32 none bareKernel =
      some { bareKernel with
        sys := { bareKernel.saved 32 0 with
          outs := (bareKernel.saved 32 0).outs ++ eoiOuts 32 } } := by
  have hbound : Bound ([] : List (Registration Unit)) 32 (some doNothing) := .inr ⟨by simp, rfl⟩
  have hrun : doNothing (UInt32.ofNat 32) 0 (bareKernel.saved 32 0) =
      some (bareKernel.saved 32 0) := rfl
  exact interrupt_resumes (startedKernel_ready ()) (by decide) (by decide) bareKernel_room hbound
    hrun fun _ _ _ => rfl

/-- A breakpoint in the bare kernel. -/
theorem interrupt_handsFrame_breakpoint :
    frameAt (bareKernel.saved 3 0).mem bareKernel.framePtr = bareKernel.intrFrame 3 0 ∧
    interrupt bareStubs (bareTables []) ⟨0, 0, 0, 0⟩ 3 none bareKernel = some {
      ctx := (frameAt (bareKernel.saved 3 0).mem bareKernel.framePtr).context
        (bareKernel.ctx.reg .esp)
      idtr := bareKernel.idtr
      sys := { bareKernel.saved 3 0 with
        outs := (bareKernel.saved 3 0).outs ++
          eoiOuts (frameAt (bareKernel.saved 3 0).mem bareKernel.framePtr).intNo.toNat } } := by
  have hrun : dumpRegs (fun _ w => w) bareKernel.framePtr (bareKernel.saved 3 0) =
      some (bareKernel.saved 3 0) := rfl
  have hkeeps : KeepsStack bareKernel (bareKernel.saved 3 0).mem (bareKernel.saved 3 0).mem :=
    fun _ _ _ => rfl
  have hbound : Bound ([] : List (Registration Unit)) 3 none := .inr ⟨by simp, rfl⟩
  have hll : LlBound (fun _ w => w) ([] : List (Registration Unit)) 3
      (some (dumpRegs fun _ w => w)) := .inr ⟨by simp, rfl⟩
  have herr : (none : Option UInt32).isSome = true ↔ 3 ∈ errVectors := by decide
  have hpointers : KeepsPointers bareKernel (bareKernel.saved 3 0).mem :=
    hkeeps.pointers bareKernel_room
  have hreturns := @interrupt_handsFrame Unit _ _ _ _ _ _ _ _ _ ⟨0, 0, 0, 0⟩ _ _
    (startedKernel_ready ()) (by decide) herr bareKernel_room hbound hll hrun hpointers
  exact hreturns

end Results

/-! ## System calls -/

/-- `syscall_handle`, for the table as it is at the call.  Of a call that is not known the field
`eax` is stored as it was read. -/
def syscallHandler (s : Syscalls (IntrSystem σ)) : LlIntrHandler σ := fun frame w =>
  let (f, w) := syscallHandle s (frameAt w.mem frame) w
  some { w with mem := w.mem.storeBytes (frame + 34) (bytes32 f.eax) }

section Syscall

variable {stubs : Stubs} {idt : UInt32} {print : IntrFrame → σ → σ} {h₀ : Handlers σ}
  {m₀ m : IntrMachine σ} {calls : List (Registration σ)} {scratch : Scratch} {sys : IntrSystem σ}
  {syscalls : List (SyscallCall (IntrSystem σ))} {result : UInt32}

/-- A frame whose field `eax` has been stored. -/
theorem frameAt_storeEax {mem : Mem} {p : Nat} (hp : p + 62 ≤ 2 ^ 32) :
    frameAt (mem.storeBytes (p + 34) (bytes32 result)) p =
      { frameAt mem p with eax := result } := by
  have hfits : p + 34 + (bytes32 result).length ≤ 2 ^ 32 := by
    rw [length_bytes32]
    omega
  have hsegs : ∀ q, q + 2 ≤ p + 34 →
      word16 (mem.storeBytes (p + 34) (bytes32 result)) q = word16 mem q :=
    fun q hq => word16_storeBytes_of_disjoint hfits (by omega) (.inl hq)
  have hbelow : ∀ q, q + 4 ≤ p + 34 →
      word32 (mem.storeBytes (p + 34) (bytes32 result)) q = word32 mem q :=
    fun q hq => word32_storeBytes_of_disjoint hfits (by omega) (.inl hq)
  have habove : ∀ q, p + 38 ≤ q → q + 4 ≤ p + 62 →
      word32 (mem.storeBytes (p + 34) (bytes32 result)) q = word32 mem q :=
    fun q hq hq' => word32_storeBytes_of_disjoint hfits (by omega) (.inr (by
      rw [length_bytes32]
      omega))
  unfold frameAt
  rw [word32_storeBytes_same (by omega)]
  simp (disch := omega) only [hsegs, hbelow, habove]

theorem context_eax (m : IntrMachine σ) (n : Nat) (errCode : UInt32) :
    ({ m.intrFrame n errCode with eax := result }).context (m.ctx.reg .esp) =
      { m.ctx with reg := Function.update m.ctx.reg .eax result } := by
  have hcs : m.ctx.cs.toUInt32.toUInt16 = m.ctx.cs := by simp
  refine Context.ext ?_ ?_ rfl hcs rfl
  · funext r
    cases r <;> rfl
  · funext s
    cases s <;> rfl

variable (scratch) in
/-- A system call with a function. -/
theorem interrupt_syscall {h : Handlers σ} {name : Key} {func : SyscallFn (IntrSystem σ)}
    (harrives : Arrives stubs 128 none m) (hentry : h.bound[128]? = some none)
    (hllEntry : h.llBound[128]? = some (some (syscallHandler (syscallRun syscalls).1)))
    (hreg : Registered (syscallRun syscalls).2 (m.ctx.reg .eax).toNat name func)
    (hfunc : func [m.ctx.reg .ecx, m.ctx.reg .edx, m.ctx.reg .ebx, m.ctx.reg .esi, m.ctx.reg .edi]
      (m.saved 128 0) = (result, sys))
    (hkeeps : KeepsStack m (m.saved 128 0).mem sys.mem) :
    interrupt stubs h scratch 128 none m = some {
      ctx := { m.ctx with reg := Function.update m.ctx.reg .eax result }
      idtr := m.idtr
      sys := { sys with
        mem := sys.mem.storeBytes (m.framePtr + 34) (bytes32 result) } } := by
  have hroom := harrives.room
  have hlt : m.sp < 2 ^ 32 := (m.ctx.reg .esp).toNat_lt
  have hframe := frameAt_saved (m := m) 128 0 hroom
  have hfits : m.framePtr + 62 ≤ 2 ^ 32 := by
    unfold IntrMachine.framePtr
    omega
  have hhandled : syscallHandler (syscallRun syscalls).1 m.framePtr (m.saved 128 0) =
      some { sys with mem := sys.mem.storeBytes (m.framePtr + 34) (bytes32 result) } := by
    have hargs : func [(m.intrFrame 128 0).ecx, (m.intrFrame 128 0).edx, (m.intrFrame 128 0).ebx,
        (m.intrFrame 128 0).esi, (m.intrFrame 128 0).edi] (m.saved 128 0) = (result, sys) := hfunc
    unfold syscallHandler
    rw [hframe, (syscallRun_holds syscalls).1.syscallHandle_of_registered hreg, hargs]
  have hstored : frameAt (sys.mem.storeBytes (m.framePtr + 34) (bytes32 result)) m.framePtr =
      { m.intrFrame 128 0 with eax := result } := by
    rw [frameAt_storeEax hfits, hkeeps.frame hroom, hframe]
  have hpointers : KeepsPointers m (sys.mem.storeBytes (m.framePtr + 34) (bytes32 result)) := by
    refine ⟨?_, congrArg IntrFrame.esp hstored⟩
    have hdown : m.sp - 66 + 4 = m.framePtr := by
      unfold IntrMachine.framePtr
      omega
    rw [word32_storeBytes_of_disjoint (by rw [length_bytes32]; omega) (by omega)
      (.inl (by omega))]
    exact (hkeeps.pointers hroom).arg
  have hreturns := interrupt_llBound scratch harrives hentry hllEntry hhandled hpointers
  have hnum : (m.intrFrame 128 0).intNo.toNat = 128 := rfl
  rw [hreturns, hstored, context_eax, hnum]
  simp [eoiOuts]

variable (scratch) in
/-- A system call without a function. -/
theorem interrupt_syscall_not {h : Handlers σ} (harrives : Arrives stubs 128 none m)
    (hentry : h.bound[128]? = some none)
    (hllEntry : h.llBound[128]? = some (some (syscallHandler (syscallRun syscalls).1)))
    (hnot : ∀ name func, ¬ Registered (syscallRun syscalls).2 (m.ctx.reg .eax).toNat name func) :
    interrupt stubs h scratch 128 none m = some { m with sys := m.saved 128 0 } := by
  have hroom := harrives.room
  have hlt : m.sp < 2 ^ 32 := (m.ctx.reg .esp).toNat_lt
  have hframe := frameAt_saved (m := m) 128 0 hroom
  have hfits : m.framePtr + 62 ≤ 2 ^ 32 := by
    unfold IntrMachine.framePtr
    omega
  have hhandled : syscallHandler (syscallRun syscalls).1 m.framePtr (m.saved 128 0) =
      some (m.saved 128 0) := by
    have hseg : Seg (m.saved 128 0).mem (m.framePtr + 34) (bytes32 (m.intrFrame 128 0).eax) := by
      rw [← hframe]
      exact seg_word32
    unfold syscallHandler
    rw [hframe, (syscallRun_holds syscalls).1.syscallHandle_of_not_registered hnot]
    dsimp only
    rw [storeBytes_eq_self hseg (by rw [length_bytes32]; omega)]
  have hreturns := interrupt_llBound scratch harrives hentry hllEntry hhandled
    (KeepsStack.pointers (e := 0) (fun _ _ _ => rfl) hroom)
  have hnum : (m.intrFrame 128 0).intNo.toNat = 128 := rfl
  rw [hreturns, hframe, context_intrFrame, hnum]
  simp [eoiOuts]

/-- After any registrations of handlers and of functions: a program that makes a system call goes
on behind it with the registers it had, but for `%eax`, in which the result of the function
is that was last registered under the number in `%eax`.  The function has got the registers
that hold the arguments.  A number without a function leaves everything as it was but for
what is below the stack pointer. -/
theorem syscall_returns (hready : IntrReady stubs idt print h₀ m₀ m) (hroom : 66 ≤ m.sp)
    (hbound : Bound calls 128 none)
    (hll : LlBound print calls 128 (some (syscallHandler (syscallRun syscalls).1))) :
    (∀ name func, Registered (syscallRun syscalls).2 (m.ctx.reg .eax).toNat name func →
      func [m.ctx.reg .ecx, m.ctx.reg .edx, m.ctx.reg .ebx, m.ctx.reg .esi, m.ctx.reg .edi]
        (m.saved 128 0) = (result, sys) → KeepsStack m (m.saved 128 0).mem sys.mem →
      interrupt stubs (calls.foldl Handlers.register (interruptsInit stubs idt print h₀ m₀).1)
        scratch 128 none m = some {
          ctx := { m.ctx with reg := Function.update m.ctx.reg .eax result }
          idtr := m.idtr
          sys := { sys with
            mem := sys.mem.storeBytes (m.framePtr + 34) (bytes32 result) } }) ∧
    ((∀ name func, ¬ Registered (syscallRun syscalls).2 (m.ctx.reg .eax).toNat name func) →
      interrupt stubs (calls.foldl Handlers.register (interruptsInit stubs idt print h₀ m₀).1)
        scratch 128 none m = some { m with sys := m.saved 128 0 }) := by
  have hn : 128 < intrCount := by decide
  have harrives : Arrives stubs 128 none m := hready.arrives hn (by decide) hroom
  have hentry := foldl_register_bound stubs print h₀ m₀ hready.fits hn hbound
  have hllEntry := foldl_register_llBound stubs h₀ m₀ hready.fits hn hll
  exact ⟨fun _ _ hreg hfunc hkeeps =>
      interrupt_syscall scratch harrives hentry hllEntry hreg hfunc hkeeps,
    fun hnot => interrupt_syscall_not scratch harrives hentry hllEntry hnot⟩

/-- A function that adds two of its arguments. -/
def addCall : SyscallCall (IntrSystem Unit) where
  name := ⟨[97], nul_not_mem_a⟩
  func := fun args w => (args.getD 0 0 + args.getD 1 0, w)
  nr := some 2

/-- It is called by the bare kernel, with 2 in every register. -/
theorem syscall_returns_add :
    interrupt bareStubs
        (bareTables [.llHandler 128 (some (syscallHandler (syscallRun [addCall]).1))])
        ⟨0, 0, 0, 0⟩ 128 none bareKernel =
      some {
        ctx := { bareKernel.ctx with reg := Function.update bareKernel.ctx.reg .eax 4 }
        idtr := bareKernel.idtr
        sys := { bareKernel.saved 128 0 with
          mem := (bareKernel.saved 128 0).mem.storeBytes (bareKernel.framePtr + 34)
            (bytes32 4) } } := by
  have hbound : Bound [.llHandler 128 (some (syscallHandler (syscallRun [addCall]).1))] 128 none :=
    .inr ⟨by simp [Registration.Binds], rfl⟩
  have hll : LlBound (fun _ w => w)
      [.llHandler 128 (some (syscallHandler (syscallRun [addCall]).1))] 128
      (some (syscallHandler (syscallRun [addCall]).1)) := .inl ⟨rfl, [], [], rfl, by simp⟩
  have hreg : Registered (syscallRun [addCall]).2 (bareKernel.ctx.reg .eax).toNat addCall.name
      addCall.func := by
    rw [startedKernel_reg]
    exact ⟨⟨addCall, some 2⟩, ⟨rfl, [], [], rfl, by simp⟩, rfl, rfl⟩
  have hfunc : addCall.func [bareKernel.ctx.reg .ecx, bareKernel.ctx.reg .edx,
      bareKernel.ctx.reg .ebx, bareKernel.ctx.reg .esi, bareKernel.ctx.reg .edi]
        (bareKernel.saved 128 0) = (4, bareKernel.saved 128 0) := by
    rw [startedKernel_reg]
    rfl
  exact (syscall_returns (startedKernel_ready ()) bareKernel_room hbound hll).1 _ _ hreg hfunc
    fun _ _ _ => rfl

end Syscall

end Microboot.Kern.Sys
