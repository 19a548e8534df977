/-
  Kern/Quoted.lean --- `setenv` and `setconf` on a memory, kern/main.c.

  Both commands join their arguments with `strcat` in a buffer of `kallocz` and look
  at its first character and at the one in front of the terminator.  The size of the
  buffer, the joined text and the index of the closing quote are computed apart; they
  agree as soon as there is one argument to join.

  With none the size is 0, `kallocz` returns `NULL`, and `strcat` writes from there on.
  A text that is one quote alone is both the first and the last character: the
  commands store the empty string.  Those are the only calls that do not what they
  should.
-/
import Microboot.Foundation.Accesses
import Microboot.Foundation.Handler
import Microboot.Foundation.Regions
import Microboot.Kern.ConfigRun
import Microboot.Kern.EnvText
import Microboot.Kern.OwnCalls
import Microboot.Kern.Shell

set_option autoImplicit false

namespace Microboot.Kern

open Microboot.Foundation

/-! ## strcat -/

/-- `while ( *dst) dst++;` -/
def seekEnd : Nat → Nat → DevM Logged Nat
  | 0, _ => fun _ => none
  | fuel + 1, dst => do
    if (← readByte dst) ≠ 0 then seekEnd fuel (dst + 1) else return dst

/-- `while (( *dst++ = *src++));` -/
def copyOn : Nat → Nat → Nat → DevM Logged Unit
  | 0, _, _ => fun _ => none
  | fuel + 1, dst, src => do
    let c ← readByte src
    writeByte dst c
    if c ≠ 0 then copyOn fuel (dst + 1) (src + 1) else return ()

/-- `strcat(dst, src)` -/
def strcat (dst src : Nat) : DevM Logged Unit := do
  copyOn addrSpace (← seekEnd addrSpace dst) src

/-- The copy of a string literal, which lies apart from all else. -/
def copyText : List UInt8 → Nat → DevM Logged Unit
  | [], dst => writeByte dst 0
  | c :: text, dst => do
    writeByte dst c
    copyText text (dst + 1)

/-- `strcat(dst, text)` of a string literal. -/
def strcatText (dst : Nat) (text : List UInt8) : DevM Logged Unit := do
  copyText text (← seekEnd addrSpace dst)

section Strcat

variable {m : Mem} {dst src : Nat} {u v : List UInt8}

/-- What is written is written in the region. -/
def WritesIn (r : Region) : Access → Prop
  | .read _ => True
  | .write a => r.Has a

theorem WritesIn.mono {r r' : Region} (hsub : ∀ a, r.Has a → r'.Has a) (e : Access)
    (h : WritesIn r e) : WritesIn r' e := by
  cases e with
  | read a => trivial
  | write a => exact hsub a h

theorem seekEnd_leaves {P : Access → Prop} (hread : ∀ a, P (.read a)) :
    ∀ (fuel : Nat) (u : List UInt8) (dst : Nat), StrAt m dst u → u.length < fuel →
      Leaves P (seekEnd fuel dst) m (dst + u.length) m := by
  intro fuel
  induction fuel with
  | zero => intro u dst _ hfuel; exact absurd hfuel (Nat.not_lt_zero _)
  | succ fuel ih =>
    intro u dst h hfuel
    refine .bind (.read (hread dst)) ?_
    cases u with
    | nil =>
      rw [if_neg (not_not.mpr (show m.load8 dst = 0 from h.nul))]
      exact .pure _
    | cons c u =>
      have hc : m.load8 dst ≠ 0 := fun h0 => by cases h.load8_eq_zero.mp h0
      have hrest : StrAt m (dst + 1) u := h.drop (u := [c])
      have hlen : dst + 1 + u.length = dst + (c :: u).length := by
        rw [List.length_cons]
        omega
      rw [if_pos hc, ← hlen]
      exact ih u (dst + 1) hrest (Nat.lt_of_succ_lt_succ hfuel)

/-- The copy of a string that the copy does not run into. -/
theorem copyOn_leaves : ∀ (fuel : Nat) (v : List UInt8) (m : Mem) (dst src : Nat),
    StrAt m src v → v.length < fuel → dst + v.length < 2 ^ 32 →
    (src + v.length < dst ∨ dst + v.length < src) →
    Leaves (WritesIn ⟨dst, v.length + 1⟩) (copyOn fuel dst src) m ()
      (m.storeBytes dst (v ++ [0])) := by
  intro fuel
  induction fuel with
  | zero => intro v m dst src _ hfuel; exact absurd hfuel (Nat.not_lt_zero _)
  | succ fuel ih =>
    intro v m dst src h hfuel hdst hapart
    refine .bind (.read trivial) (.bind (.write _ (Region.has_start dst v.length)) ?_)
    cases v with
    | nil =>
      have hnul : m.load8 src = 0 := h.nul
      rw [hnul, if_neg (not_not.mpr rfl)]
      exact .pure _
    | cons c v =>
      rw [List.length_cons] at hfuel hdst hapart
      have hc : m.load8 src = c := h.seg.1
      have hne : c ≠ 0 := fun h0 => h.nulFree (by simp [h0])
      have hrest : StrAt (m.store8 dst c) (src + 1) v :=
        (h.drop (u := [c])).congr fun x h1 h2 => by
          rw [List.length_singleton] at h1 h2
          exact Mem.store8_apply_of_ne m c (by omega) (by omega)
      rw [hc, if_pos hne]
      exact (ih v (m.store8 dst c) (dst + 1) (src + 1) hrest (by omega) (by omega)
        (by omega)).mono (WritesIn.mono fun a => Region.Has.of_next)

theorem copyText_leaves (v : List UInt8) : ∀ (m : Mem) (dst : Nat),
    Leaves (WritesIn ⟨dst, v.length + 1⟩) (copyText v dst) m () (m.storeBytes dst (v ++ [0])) := by
  induction v with
  | nil => exact fun m dst => .write 0 (Region.has_start dst 0)
  | cons c v ih =>
    intro m dst
    exact .bind (.write c (Region.has_start dst (v.length + 1)))
      ((ih (m.store8 dst c) (dst + 1)).mono (WritesIn.mono fun a => Region.Has.of_next))

theorem strcat_leaves (h : StrAt m dst u) (hsrc : StrAt m src v)
    (hfits : dst + u.length + v.length < 2 ^ 32)
    (hapart : src + v.length < dst + u.length ∨ dst + u.length + v.length < src) :
    Leaves (WritesIn ⟨dst + u.length, v.length + 1⟩) (strcat dst src) m ()
      (m.storeBytes (dst + u.length) (v ++ [0])) := by
  have hu := h.fits
  have hv := hsrc.fits
  exact .bind (seekEnd_leaves (fun _ => trivial) addrSpace u dst h (by unfold addrSpace; omega))
    (copyOn_leaves addrSpace v m (dst + u.length) src hsrc (by unfold addrSpace; omega) hfits
      hapart)

theorem strcatText_leaves (h : StrAt m dst u) (v : List UInt8) :
    Leaves (WritesIn ⟨dst + u.length, v.length + 1⟩) (strcatText dst v) m ()
      (m.storeBytes (dst + u.length) (v ++ [0])) := by
  have hu := h.fits
  exact .bind (seekEnd_leaves (fun _ => trivial) addrSpace u dst h (by unfold addrSpace; omega))
    (copyText_leaves v m (dst + u.length))

theorem seekEnd_appends : ∀ (fuel dst : Nat), Appends (seekEnd fuel dst) := by
  intro fuel
  induction fuel with
  | zero => exact fun _ => .fail
  | succ fuel ih =>
    refine fun dst => .bind (.read dst) fun c => ?_
    split
    · exact ih (dst + 1)
    · exact .pure dst

theorem copyOn_appends : ∀ (fuel dst src : Nat), Appends (copyOn fuel dst src) := by
  intro fuel
  induction fuel with
  | zero => exact fun _ _ => .fail
  | succ fuel ih =>
    refine fun dst src => .bind (.read src) fun c => .bind (.write dst c) fun _ => ?_
    split
    · exact ih (dst + 1) (src + 1)
    · exact .pure ()

theorem copyText_appends (text : List UInt8) : ∀ dst, Appends (copyText text dst) := by
  induction text with
  | nil => exact fun dst => .write dst 0
  | cons c text ih => exact fun dst => .bind (.write dst c) fun _ => ih (dst + 1)

theorem strcat_appends (dst src : Nat) : Appends (strcat dst src) :=
  .bind (seekEnd_appends addrSpace dst) fun dst => copyOn_appends addrSpace dst src

theorem strcatText_appends (dst : Nat) (text : List UInt8) : Appends (strcatText dst text) :=
  .bind (seekEnd_appends addrSpace dst) fun dst => copyText_appends text dst

/-- A copy writes a terminator at least. -/
theorem copyOn_writes {fuel : Nat} {w w' : Logged} (h : copyOn fuel dst src w = some ((), w')) :
    ∃ a, .write a ∈ w'.log := by
  cases fuel with
  | zero => cases h
  | succ fuel =>
    refine ⟨dst, ?_⟩
    rw [copyOn] at h
    obtain ⟨c, w₁, -, h⟩ := exists_of_bind_run h
    obtain ⟨_, w₂, hwrite, h⟩ := exists_of_bind_run h
    cases hwrite
    have happends : Appends (if c ≠ 0 then copyOn fuel (dst + 1) (src + 1) else pure ()) := by
      split
      · exact copyOn_appends fuel (dst + 1) (src + 1)
      · exact .pure ()
    exact happends _ _ _ h _ (List.mem_append_right _ (List.mem_singleton.mpr rfl))

theorem strcat_writes {w w' : Logged} (h : strcat dst src w = some ((), w')) :
    ∃ a, .write a ∈ w'.log := by
  obtain ⟨dst', w₁, -, hcopy⟩ := exists_of_bind_run h
  exact copyOn_writes hcopy

end Strcat

/-! ## The joined text -/

/-- The texts, each with a space behind it. -/
def spaced (texts : List (List UInt8)) : List UInt8 := texts.flatMap (· ++ [32])

/-- The texts, joined by single spaces. -/
def joined (texts : List (List UInt8)) : List UInt8 := [32].intercalate texts

section Joined

variable {texts : List (List UInt8)}

theorem joined_concat (front : List (List UInt8)) (last : List UInt8) :
    joined (front ++ [last]) = spaced front ++ last := by
  unfold joined spaced
  induction front with
  | nil => exact List.intercalate_singleton
  | cons text front ih =>
    obtain ⟨next, rest, heq⟩ : ∃ next rest, front ++ [last] = next :: rest :=
      List.exists_cons_of_ne_nil (by simp)
    rw [List.cons_append, List.flatMap_cons, List.append_assoc, ← ih, heq,
      List.intercalate_cons_cons, List.append_assoc]

theorem joined_eq {k : Nat} (hk : k + 1 = texts.length) :
    joined texts = spaced (texts.take k) ++ texts[k] := by
  have hall := List.take_succ_eq_append_getElem (l := texts) (i := k) (by omega)
  rw [hk, List.take_length] at hall
  exact (congrArg joined hall).trans (joined_concat _ _)

/-- The size that is computed has room for the joined text and its terminator. -/
theorem length_spaced (hne : texts ≠ []) :
    (spaced texts).length = (joined texts).length + 1 := by
  obtain ⟨front, last, rfl⟩ := List.eq_nil_or_concat' texts |>.resolve_left hne
  rw [joined_concat, spaced, List.flatMap_append, List.flatMap_singleton, ← List.append_assoc,
    List.length_append, List.length_singleton]
  rfl

theorem spaced_take_succ {k : Nat} (hk : k < texts.length) :
    spaced (texts.take (k + 1)) = spaced (texts.take k) ++ texts[k] ++ [32] := by
  rw [List.take_succ_eq_append_getElem hk, spaced, List.flatMap_append, List.flatMap_singleton,
    ← List.append_assoc]
  rfl

theorem length_spaced_take_le (texts : List (List UInt8)) (k : Nat) :
    (spaced (texts.take k)).length ≤ (spaced texts).length := by
  conv_rhs => rw [← List.take_append_drop k texts, spaced, List.flatMap_append, List.length_append]
  exact Nat.le_add_right _ _

end Joined

namespace Shell

/-! ## What the calls do -/

/-- An argument: the pointer in `argv`, and the string it points to. -/
structure Argument where
  ptr : Nat
  text : List UInt8
  deriving DecidableEq, Repr

/-- What a command works on.  The heap is the one of the configuration; `buffers` are
the regions that the command has allocated, with their blocks. -/
structure World where
  memory : Logged
  buffers : List (Nat × Region)
  env : Env
  config : Config
  printed : List String

/-- The world in front of a command. -/
def World.start (m : Mem) (env : Env) (config : Config) : World :=
  { memory := ⟨m, []⟩, buffers := [], env := env, config := config, printed := [] }

/-- What a program does to the memory of the world. -/
def onMemory {α : Type} (x : DevM Logged α) : DevM World α := fun w =>
  (x w.memory).map fun r => (r.1, { w with memory := r.2 })

/-- `kalloc(size)`; `place` has the address of a block. -/
def kallocAt (place : Nat → Nat) (size : Nat) : DevM World Nat := fun w =>
  if alignedSize size = 0 then some (0, w)
  else
    let (block, heap) := w.config.heap.kalloc
    some (place block, { w with
      buffers := (block, ⟨place block, size⟩) :: w.buffers
      config := { w.config with heap := heap } })

/-- `memset(memory, 0, len)` -/
def clearBytes (memory len : Nat) : DevM Logged Unit := fun w =>
  some ((), ⟨memset w.mem memory 0 len, w.log ++ (List.range len).map fun i => .write (memory + i)⟩)

/-- `kallocz(size)` -/
def kalloczAt (place : Nat → Nat) (size : Nat) : DevM World Int := do
  let data ← kallocAt place size
  onMemory (clearBytes data size)
  return data

/-- `kfree(ptr)` of a buffer. -/
def kfreeAt (ptr : Nat) : DevM World Int := fun w => do
  let buffer ← w.buffers.find? fun buffer => buffer.2.start = ptr
  let heap ← (w.config.heap.kfreeChecked buffer.1).toOption
  return (0, { w with config := { w.config with heap := heap } })

/-- `env_put(get_rootenv(), key, value)`, with the pointers. -/
def envPutAt (key value : Nat) : DevM World Int := fun w => do
  let key ← keyAt w.memory.mem key
  let put ← (envPut w.env key value).toOption
  return (0, { w with env := put.1 })

/-- `config_setstr(key, value)`, with the pointers; the value is not a copy of the store's. -/
def configSetstrAt (key value : Nat) : DevM World Int := fun w => do
  let path ← keyAt w.memory.mem key
  let text ← keyAt w.memory.mem value
  let config ← (configSetstr w.config path (.own text) text).toOption
  return (0, { w with config := config })

/-- What the accesses of `setenv` and `setconf` do, and what they are answered with. -/
def handle (place : Nat → Nat) (argv : List Argument) : Access → DevM World Int
  | .readArgv i => fun w =>
    if 0 ≤ i then argv[i.toNat]?.map fun arg => ((arg.ptr : Int), w) else none
  | .load address => onMemory do
    let c ← readByte address.toNat
    return (c.toNat : Int)
  | .store address v => onMemory do
    writeByte address.toNat (UInt8.ofInt v)
    return 0
  | .call .strlen [.value str] => fun w =>
    (strlen w.memory.mem str.toNat).map fun n => ((n : Int), w)
  | .call .strcat [.value dst, .value src] => onMemory do
    Kern.strcat dst.toNat src.toNat
    return 0
  | .call .strcat [.value dst, .text text] => onMemory do
    strcatText dst.toNat (chars text)
    return 0
  | .call .kallocz [.value size] => kalloczAt place size.toNat
  | .call .kfree [.value ptr] => kfreeAt ptr.toNat
  | .call .printf (.text format :: _) => fun w =>
    some (0, { w with printed := w.printed ++ [format] })
  | .call .getRootenv [] => fun w => some (0, w)
  | .call .envPut [_, .value key, .value value] => envPutAt key.toNat value.toNat
  | .call .configSetstr [.value key, .value value] => configSetstrAt key.toNat value.toNat
  | _ => fun _ => none

/-- `argv[2]` to the last argument. -/
def valueTexts (argv : List Argument) : List (List UInt8) := (argv.drop 2).map Argument.text

/-- The text that the arguments are joined to. -/
def valueText (argv : List Argument) : List UInt8 := joined (valueTexts argv)

/-- The buffer that a command allocates. -/
def bufferOf (place : Nat → Nat) (argv : List Argument) (config : Config) : Region :=
  ⟨place config.heap.next, (valueText argv).length + 1⟩

/-- A command is called.  The block that the heap hands out next is in the address space, and
apart from the arguments. -/
structure Called (place : Nat → Nat) (argv : List Argument) (m : Mem) (env : Env) (config : Config) :
    Prop where
  argc : 2 ≤ argv.length
  strings : ∀ arg ∈ argv, StrAt m arg.ptr arg.text
  env : EnvInv env
  linked : Linked config.heap.next config
  owned : Owned config
  size_le : (valueText argv).length + 1 ≤ 2 ^ 32 - 64
  start_pos : 0 < (bufferOf place argv config).start
  fits : (bufferOf place argv config).start + (bufferOf place argv config).size ≤ 2 ^ 32
  apart : ∀ arg ∈ argv,
    Region.Apart ⟨arg.ptr, arg.text.length + 1⟩ (bufferOf place argv config)

/-! ## The steps of a run -/

section Steps

variable {place : Nat → Nat} {argv : List Argument} {arg : Argument} {w w₀ : World} {r : Region}
  {u v : List UInt8} {m : Mem}

theorem ends_readArgv {i : Int} {n : Nat} (hi : i = n) (harg : argv[n]? = some arg) :
    (readArgv i).Ends (handle place argv) w arg.ptr w := by
  refine .request ?_
  subst hi
  change (if (0 : Int) ≤ n then argv[(n : Int).toNat]?.map fun arg => ((arg.ptr : Int), w)
    else none) = _
  rw [if_pos (Int.natCast_nonneg n), Int.toNat_natCast, harg]
  rfl

theorem ends_strlen {p : Nat} (h : StrAt w.memory.mem p u) :
    (call .strlen [.value p]).Ends (handle place argv) w u.length w := by
  refine .request ?_
  change (strlen w.memory.mem (p : Int).toNat).map (fun n => ((n : Int), w)) = _
  rw [Int.toNat_natCast, strlen_eq h]
  rfl

theorem ends_printf (format : String) :
    (printf format []).Ends (handle place argv) w ()
      { w with printed := w.printed ++ [format] } :=
  .bind (.request rfl) (.pure () _)

/-- From `w₀` on the command has only worked on the memory; the buffer `r` has the string `u`,
and what was written was written there. -/
structure Filled (w₀ : World) (r : Region) (u : List UInt8) (w : World) : Prop where
  text : StrAt w.memory.mem r.start u
  frame : ∀ x, ¬ r.Has x → w.memory.mem x = w₀.memory.mem x
  writes : ∀ a, .write a ∈ w.memory.log → r.Has a
  rest : w = { w₀ with memory := w.memory }

/-- A program on the memory that returns, in the world. -/
theorem exists_onMemory (place : Nat → Nat) (argv : List Argument) {P : Foundation.Access → Prop}
    {x : DevM Logged Unit} {m' : Mem} (hx : Leaves P x w.memory.mem () m') (i : Access)
    (hi : handle place argv i = onMemory do
      x
      return 0) :
    ∃ new, (Dialogue.request i).Ends (handle place argv) w (0 : Int)
        { w with memory := ⟨m', w.memory.log ++ new⟩ } ∧ ∀ e ∈ new, P e := by
  obtain ⟨new, hrun, hnew⟩ := hx w.memory.log
  refine ⟨new, .request ?_, hnew⟩
  rw [hi]
  change ((x >>= fun _ => pure (0 : Int)) w.memory).map _ = _
  rw [bind_run hrun]
  rfl

/-- A string is put behind the one in the buffer. -/
theorem Filled.append (place : Nat → Nat) (argv : List Argument) (h : Filled w₀ r u w)
    (hfits : r.start + r.size ≤ 2 ^ 32)
    (hroom : u.length + v.length < r.size) (hv : 0 ∉ v) {x : DevM Logged Unit} (i : Access)
    (hx : Leaves (WritesIn ⟨r.start + u.length, v.length + 1⟩) x w.memory.mem ()
      (w.memory.mem.storeBytes (r.start + u.length) (v ++ [0])))
    (hi : handle place argv i = onMemory do
      x
      return 0) :
    ∃ w', (Dialogue.request i).Ends (handle place argv) w (0 : Int) w' ∧
      Filled w₀ r (u ++ v) w' := by
  have hin : ∀ a, Region.Has ⟨r.start + u.length, v.length + 1⟩ a → r.Has a := fun a ha =>
    ⟨Nat.le_trans (Nat.le_add_right _ _) ha.1, Nat.lt_of_lt_of_le ha.2 (by
      dsimp only
      omega)⟩
  obtain ⟨new, hends, hnew⟩ := exists_onMemory place argv hx i hi
  refine ⟨_, hends, h.text.storeBytes hv (by omega), fun a ha => ?_, fun a ha => ?_, ?_⟩
  · have hlen : (v ++ [0]).length = v.length + 1 := by simp
    have hout : a < r.start + u.length ∨ r.start + u.length + (v ++ [0]).length ≤ a := by
      by_contra hcon
      exact ha (hin a ⟨by dsimp only; omega, by dsimp only; omega⟩)
    exact (Mem.storeBytes_apply_of_disjoint _ _ _ _ (by omega) hout).trans (h.frame a ha)
  · rcases List.mem_append.mp ha with hold | hmem
    · exact h.writes a hold
    · exact hin a (hnew _ hmem)
  · rw [h.rest]

theorem Filled.strcat (h : Filled w₀ r u w) (hfits : r.start + r.size ≤ 2 ^ 32)
    (hroom : u.length + v.length < r.size) {src : Nat} (hsrc : StrAt w.memory.mem src v)
    (hapart : Region.Apart ⟨src, v.length + 1⟩ r) :
    ∃ w', (perform .strcat [.value r.start, .value src]).Ends (handle place argv) w () w' ∧
      Filled w₀ r (u ++ v) w' := by
  have hlow : src + v.length < r.start + u.length ∨ r.start + u.length + v.length < src := by
    unfold Region.Apart at hapart
    dsimp only at hapart
    omega
  obtain ⟨w', hends, h'⟩ := h.append place argv hfits hroom hsrc.nulFree
    (.call .strcat [.value r.start, .value src])
    (strcat_leaves h.text hsrc (by omega) hlow) rfl
  exact ⟨w', hends.bind (.pure () w'), h'⟩

theorem Filled.space (h : Filled w₀ r u w) (hfits : r.start + r.size ≤ 2 ^ 32)
    (hroom : u.length + 1 < r.size) :
    ∃ w', (perform .strcat [.value r.start, .text " "]).Ends (handle place argv) w () w' ∧
      Filled w₀ r (u ++ [32]) w' := by
  obtain ⟨w', hends, h'⟩ := h.append place argv hfits (v := [32]) hroom (by decide)
    (.call .strcat [.value r.start, .text " "]) (strcatText_leaves h.text [32]) rfl
  exact ⟨w', hends.bind (.pure () w'), h'⟩

/-- A string that lies apart from the buffer is still there. -/
theorem Filled.strAt (h : Filled w₀ r u w) {p : Nat} (hp : StrAt w₀.memory.mem p v)
    (hapart : Region.Apart ⟨p, v.length + 1⟩ r) : StrAt w.memory.mem p v :=
  hp.congr fun x h1 h2 => h.frame x (hapart.not_has ⟨h1, Nat.lt_succ_of_le h2⟩)

/-- A byte of the buffer is read. -/
theorem Filled.load (place : Nat → Nat) (argv : List Argument) (h : Filled w₀ r u w) (a : Nat)
    {address : Int} (ha : address = a) :
    ∃ w', (load address).Ends (handle place argv) w (w.memory.mem.load8 a).toNat w' ∧
      w'.memory.mem = w.memory.mem ∧ Filled w₀ r u w' := by
  subst ha
  let w' : World := { w with memory := ⟨w.memory.mem, w.memory.log ++ [.read a]⟩ }
  have hread : (Dialogue.request (.load (a : Int))).Ends (handle place argv) w
      ((w.memory.mem.load8 a).toNat : Int) w' := .request rfl
  have hbyte : ((w.memory.mem.load8 a).toNat : Int) % 2 ^ 8 = (w.memory.mem.load8 a).toNat := by
    have hlt := (w.memory.mem.load8 a).toNat_lt
    omega
  refine ⟨w', hread.bind ?_, rfl, h.text, h.frame, fun x hx => ?_, ?_⟩
  · rw [hbyte]
    exact .pure _ w'
  · rcases List.mem_append.mp hx with hold | hmem
    · exact h.writes x hold
    · simp at hmem
  · change { w with memory := _ } = _
    rw [h.rest]

end Steps

/-! ## The loops -/

section Loops

variable {place : Nat → Nat} {argv : List Argument} {w w₀ : World} {r : Region}

theorem length_valueTexts (argv : List Argument) : (valueTexts argv).length = argv.length - 2 := by
  rw [valueTexts, List.length_map, List.length_drop]

theorem exists_argument {k : Nat} (hk : k < (valueTexts argv).length) :
    ∃ arg ∈ argv, argv[2 + k]? = some arg ∧ (valueTexts argv)[k] = arg.text := by
  have hlen := length_valueTexts argv
  have hlt : 2 + k < argv.length := by omega
  refine ⟨argv[2 + k], List.getElem_mem hlt, List.getElem?_eq_getElem hlt, ?_⟩
  simp [valueTexts]

/-- The invariant rule of a counting loop. -/
theorem ends_forInt {β : Type} {lo hi : Int} {body : Int → β → ShellM β} {acc : β} {n : Nat}
    (hn : (hi - lo).toNat = n) (P : Nat → β → World → Prop)
    (hround : ∀ k < n, ∀ acc w, P k acc w → ∃ acc' w',
      (body (lo + k) acc).Ends (handle place argv) w acc' w' ∧ P (k + 1) acc' w')
    (h : P 0 acc w) : ∃ acc' w',
      (forInt lo hi acc body).Ends (handle place argv) w acc' w' ∧ P n acc' w' := by
  have hrange : (List.range n).length = n := List.length_range
  obtain ⟨acc', w', hends, h'⟩ := Dialogue.Ends.foldlM (l := List.range n) P
    (fun k hk acc w h => by
      rw [hrange] at hk
      rw [List.getElem_range]
      exact hround k hk acc w h) h
  rw [hrange] at h'
  refine ⟨acc', w', ?_, h'⟩
  unfold forInt
  rw [hn]
  exact hends

/-- A counting loop that leaves the world alone. -/
theorem ends_forInt_pure {β : Type} {lo hi : Int} {body : Int → β → ShellM β} {n : Nat}
    (hn : (hi - lo).toNat = n) (f : Nat → β)
    (hround : ∀ k < n, (body (lo + k) (f k)).Ends (handle place argv) w (f (k + 1)) w) :
    (forInt lo hi (f 0) body).Ends (handle place argv) w (f n) w := by
  have hloop : ∃ acc' w', (forInt lo hi (f 0) body).Ends (handle place argv) w acc' w' ∧
      acc' = f n ∧ w' = w := by
    refine ends_forInt hn (fun k acc w' => acc = f k ∧ w' = w) (fun k hk acc w' h => ?_)
      ⟨rfl, rfl⟩
    rw [h.1, h.2]
    exact ⟨f (k + 1), w, hround k hk, rfl, rfl⟩
  obtain ⟨acc, w', hends, hacc, hw⟩ := hloop
  rwa [hacc, hw] at hends

/-- A counting loop for its effects. -/
theorem ends_forInt_unit {lo hi : Int} {body : Int → Unit → ShellM Unit} {n : Nat}
    (hn : (hi - lo).toNat = n) (P : Nat → World → Prop)
    (hround : ∀ k < n, ∀ w, P k w → ∃ w',
      (body (lo + k) ()).Ends (handle place argv) w () w' ∧ P (k + 1) w')
    (h : P 0 w) : ∃ w', (forInt lo hi () body).Ends (handle place argv) w () w' ∧ P n w' := by
  have hloop : ∃ acc w', (forInt lo hi () body).Ends (handle place argv) w acc w' ∧ P n w' := by
    refine ends_forInt hn (fun k _ w' => P k w') (fun k hk acc w h => ?_) h
    obtain ⟨w', hends, h'⟩ := hround k hk w h
    exact ⟨(), w', hends, h'⟩
  obtain ⟨acc, w', hends, h'⟩ := hloop
  exact ⟨w', hends, h'⟩

/-- The first loop: the size of the texts with a byte for each behind it. -/
theorem ends_bufsz (hstrings : ∀ arg ∈ argv, StrAt w.memory.mem arg.ptr arg.text)
    (hsize : (spaced (valueTexts argv)).length < 2 ^ 32) :
    (forInt 2 argv.length 0 fun i bufsz => do
      return word (bufsz + (← call .strlen [.value (← readArgv i)]) + 1)).Ends
        (handle place argv) w (spaced (valueTexts argv)).length w := by
  have hrounds : ((argv.length : Int) - 2).toNat = (valueTexts argv).length := by
    rw [length_valueTexts]
    omega
  let f := fun k => ((spaced ((valueTexts argv).take k)).length : Int)
  have hlast : ((spaced (valueTexts argv)).length : Int) = f (valueTexts argv).length := by
    simp only [f, List.take_length]
  rw [hlast]
  refine ends_forInt_pure hrounds f fun k hk => ?_
  obtain ⟨arg, hmem, harg, htext⟩ := exists_argument hk
  have hnext := congrArg List.length (spaced_take_succ hk)
  have hle := length_spaced_take_le (valueTexts argv) (k + 1)
  rw [htext, List.length_append, List.length_append, List.length_singleton] at hnext
  have hword : word (f k + arg.text.length + 1) = f (k + 1) := by
    simp only [f, word]
    omega
  rw [← hword]
  exact (ends_readArgv (by omega) harg).bind
    ((ends_strlen (hstrings arg hmem)).bind (.pure _ w))

/-- The second loop: all texts but the last, each with a space behind it. -/
theorem Filled.spaced (h : Filled w₀ r [] w) (hfits : r.start + r.size ≤ 2 ^ 32)
    (hsize : r.size = (Kern.spaced (valueTexts argv)).length)
    (hstrings : ∀ arg ∈ argv, StrAt w₀.memory.mem arg.ptr arg.text ∧
      Region.Apart ⟨arg.ptr, arg.text.length + 1⟩ r) :
    ∃ w', (forInt 2 (argv.length - 1) () fun i _ => do
        perform .strcat [.value r.start, .value (← readArgv i)]
        perform .strcat [.value r.start, .text " "]).Ends (handle place argv) w () w' ∧
      Filled w₀ r (Kern.spaced ((valueTexts argv).take (argv.length - 3))) w' := by
  have hrounds : ((argv.length : Int) - 1 - 2).toNat = argv.length - 3 := by omega
  have hlen := length_valueTexts argv
  refine ends_forInt_unit hrounds
    (fun k w' => Filled w₀ r (Kern.spaced ((valueTexts argv).take k)) w') (fun k hk w h => ?_) h
  -- a text follows, if an empty one
  have hk₁ : k < (valueTexts argv).length := by omega
  have hk₂ : k + 1 < (valueTexts argv).length := by omega
  obtain ⟨arg, hmem, harg, htext⟩ := exists_argument hk₁
  obtain ⟨hstr, hapart⟩ := hstrings arg hmem
  have hnext := spaced_take_succ hk₁
  have hlater := spaced_take_succ hk₂
  have hle := length_spaced_take_le (valueTexts argv) (k + 2)
  have hcount := congrArg List.length hnext
  rw [hlater] at hle
  rw [htext] at hnext hcount
  simp only [List.length_append, List.length_singleton] at hle hcount
  obtain ⟨w₁, hends₁, h₁⟩ := h.strcat hfits (by omega) (h.strAt hstr hapart) hapart
  obtain ⟨w₂, hends₂, h₂⟩ := h₁.space hfits (by
    rw [List.length_append]
    omega)
  rw [hnext]
  exact ⟨w₂, (ends_readArgv (Nat.cast_add 2 k).symm harg).bind (hends₁.bind hends₂), h₂⟩

end Loops

/-! ## The joined text in the buffer -/

/-- `quotedValue` behind the join. -/
def checkQuotes (buf bufsz : Int) : ShellM (Option Int) := do
  if (← load buf) ≠ quoteChar then
    printf "value must start with quote\n" []
    perform .kfree [.value buf]
    return none
  else if (← load (word (buf + word (bufsz - 2)))) ≠ quoteChar then
    printf "value must end with quote\n" []
    perform .kfree [.value buf]
    return none
  else
    store (word (buf + word (bufsz - 2))) 0
    return some buf

theorem quotedValue_eq (argc : Int) : quotedValue argc = (do
    let bufsz ← forInt 2 argc 0 fun i bufsz => do
      return word (bufsz + (← call .strlen [.value (← readArgv i)]) + 1)
    let buf ← call .kallocz [.value bufsz]
    forInt 2 (argc - 1) () fun i _ => do
      perform .strcat [.value buf, .value (← readArgv i)]
      perform .strcat [.value buf, .text " "]
    perform .strcat [.value buf, .value (← readArgv (argc - 1))]
    checkQuotes buf bufsz) := rfl

/-- The world behind `kallocz`. -/
def allocated (place : Nat → Nat) (argv : List Argument) (m : Mem) (env : Env)
    (config : Config) : World :=
  let r := bufferOf place argv config
  { memory := ⟨memset m r.start 0 r.size, (List.range r.size).map fun i => .write (r.start + i)⟩
    buffers := [(config.heap.next, r)]
    env := env
    config := { config with heap := config.heap.kalloc.2 }
    printed := [] }

namespace Called

variable {place : Nat → Nat} {argv : List Argument} {m : Mem} {env : Env} {config : Config}

theorem kallocz (h : Called place argv m env config) :
    (call .kallocz [.value (bufferOf place argv config).size]).Ends (handle place argv)
      (World.start m env config) (bufferOf place argv config).start
      (allocated place argv m env config) := by
  have hne : alignedSize (bufferOf place argv config).size ≠ 0 :=
    alignedSize_ne_zero (Nat.succ_pos _) h.size_le
  refine .request ?_
  change kalloczAt place (bufferOf place argv config).size (World.start m env config) = _
  unfold kalloczAt
  rw [bind_run (show kallocAt place _ (World.start m env config) = _ from if_neg hne)]
  rfl

theorem filled (h : Called place argv m env config) :
    Filled (allocated place argv m env config) (bufferOf place argv config) []
      (allocated place argv m env config) := by
  have hfits := h.fits
  have hzero := Mem.fill_apply 0 _ m (bufferOf place argv config).start 0 hfits (Nat.succ_pos _)
  have hsize : (bufferOf place argv config).size = (valueText argv).length + 1 := rfl
  refine ⟨⟨trivial, ?_, List.not_mem_nil, ?_⟩, fun _ _ => rfl, fun a ha => ?_, rfl⟩
  · rw [List.length_nil, Mem.load8_eq _ (by omega)]
    exact hzero
  · rw [List.length_nil]
    omega
  · obtain ⟨i, hi, heq⟩ := List.mem_map.mp ha
    cases heq
    exact ⟨Nat.le_add_right _ _, Nat.add_lt_add_left (List.mem_range.mp hi) _⟩

/-- The memory outside of the buffer is as it was. -/
theorem allocated_mem (h : Called place argv m env config) {x : Nat}
    (hx : ¬ (bufferOf place argv config).Has x) :
    (allocated place argv m env config).memory.mem x = m x := by
  refine Mem.fill_apply_of_disjoint 0 _ m _ x h.fits ?_
  by_contra hin
  rw [not_or] at hin
  exact hx ⟨Nat.le_of_not_lt hin.1, Nat.lt_of_not_le hin.2⟩

theorem allocated_strings (h : Called place argv m env config) : ∀ arg ∈ argv,
    StrAt (allocated place argv m env config).memory.mem arg.ptr arg.text ∧
      Region.Apart ⟨arg.ptr, arg.text.length + 1⟩ (bufferOf place argv config) := by
  intro arg hmem
  have hapart := h.apart arg hmem
  exact ⟨(h.strings arg hmem).congr fun x h1 h2 =>
    h.allocated_mem (hapart.not_has ⟨h1, Nat.lt_succ_of_le h2⟩), hapart⟩

/-- With an argument to join, the buffer comes to have the joined text. -/
theorem joins (h : Called place argv m env config) (hargc : 3 ≤ argv.length) :
    ∃ w, Filled (allocated place argv m env config) (bufferOf place argv config)
        (valueText argv) w ∧
      ∀ o w', (checkQuotes (bufferOf place argv config).start
          (bufferOf place argv config).size).Ends (handle place argv) w o w' →
        (quotedValue argv.length).Ends (handle place argv) (World.start m env config) o w' := by
  have hlen := length_valueTexts argv
  have hne : valueTexts argv ≠ [] := List.ne_nil_of_length_pos (by omega)
  have hsize : (spaced (valueTexts argv)).length = (bufferOf place argv config).size :=
    length_spaced hne
  have hsmall := h.size_le
  obtain ⟨w₁, hends₁, h₁⟩ := h.filled.spaced h.fits hsize.symm h.allocated_strings
  -- the last argument
  have hk : argv.length - 3 < (valueTexts argv).length := by omega
  obtain ⟨arg, hmem, harg, htext⟩ := exists_argument hk
  obtain ⟨hstr, hapart⟩ := h.allocated_strings arg hmem
  have hjoined : valueText argv =
      spaced ((valueTexts argv).take (argv.length - 3)) ++ arg.text := by
    rw [← htext]
    exact joined_eq (by omega)
  obtain ⟨w, hends, h'⟩ := h₁.strcat h.fits (by
    rw [← List.length_append, ← hjoined]
    exact Nat.lt_succ_self _) (h₁.strAt hstr hapart) hapart
  rw [← hjoined] at h'
  refine ⟨w, h', fun o w' hcheck => ?_⟩
  rw [quotedValue_eq]
  refine (ends_bufsz h.strings ?_).bind ?_
  · rw [hsize]
    exact Nat.lt_of_le_of_lt hsmall (by decide)
  rw [hsize]
  exact h.kallocz.bind (hends₁.bind ((ends_readArgv (by omega) harg).bind (hends.bind hcheck)))

end Called

/-! ## The quotes -/

section Quotes

variable {place : Nat → Nat} {argv : List Argument} {w w₀ : World} {r : Region}
  {t u : List UInt8} {c : UInt8} {block : Nat}

/-- The messages of `quotedValue`. -/
def rejections : List String := ["value must start with quote\n", "value must end with quote\n"]

/-- The text was rejected with a message, and the buffer freed. -/
structure Rejected (w₀ : World) (r : Region) (block : Nat) (w : World) : Prop where
  message : ∃ message ∈ rejections, w.printed = w₀.printed ++ [message]
  writes : ∀ a, .write a ∈ w.memory.log → r.Has a
  buffers : w.buffers = w₀.buffers
  env : w.env = w₀.env
  config : w.config = { w₀.config with heap := w₀.config.heap.kfree block }

theorem ends_kfree (hbuffers : w.buffers = [(block, r)]) (hblock : block ≠ 0)
    (hlive : block ∈ w.config.heap.live) :
    (perform .kfree [.value r.start]).Ends (handle place argv) w ()
      { w with config := { w.config with heap := w.config.heap.kfree block } } := by
  have hfind : (w.buffers.find? fun buffer => buffer.2.start = r.start) = some (block, r) := by
    rw [hbuffers]
    simp
  have hfree : kfreeAt r.start w = some ((0 : Int),
      { w with config := { w.config with heap := w.config.heap.kfree block } }) := by
    unfold kfreeAt
    rw [hfind]
    change ((w.config.heap.kfreeChecked block).toOption >>= _) = _
    rw [LiveBlocks.kfreeChecked_eq_ok hblock hlive]
    rfl
  have hcall : (call .kfree [.value r.start]).Ends (handle place argv) w (0 : Int) _ :=
    .request hfree
  exact hcall.bind (.pure () _)

/-- The message, and the end. -/
theorem Filled.reject (place : Nat → Nat) (argv : List Argument) (h : Filled w₀ r t w)
    (hbuffers : w₀.buffers = [(block, r)])
    (hblock : block ≠ 0) (hlive : block ∈ w₀.config.heap.live) (message : String)
    (hmem : message ∈ rejections) :
    ∃ w', (do
        printf message []
        perform .kfree [.value r.start]
        return none : ShellM (Option Int)).Ends (handle place argv) w none w' ∧
      Rejected w₀ r block w' := by
  have hrest := h.rest
  let w₁ : World := { w with printed := w.printed ++ [message] }
  have hbuffers' : w₁.buffers = [(block, r)] := by
    change w.buffers = _
    rw [hrest]
    exact hbuffers
  have hlive' : block ∈ w₁.config.heap.live := by
    change block ∈ w.config.heap.live
    rw [hrest]
    exact hlive
  refine ⟨_, (ends_printf message).bind ((ends_kfree hbuffers' hblock hlive').bind
    (.pure none _)), ⟨message, hmem, ?_⟩, h.writes, ?_, ?_, ?_⟩
  all_goals
    dsimp only [w₁]
    rw [hrest]

/-- The index of the last character. -/
theorem word_index (hsize : r.size = u.length + 2) (hfits : r.start + r.size ≤ 2 ^ 32) :
    word (r.start + word ((r.size : Int) - 2)) = ((r.start + u.length : Nat) : Int) := by
  unfold word
  omega

/-- A byte that is read is the quote. -/
theorem byte_eq_quoteChar_iff : ((c.toNat : Nat) : Int) = quoteChar ↔ c = 34 := by
  unfold quoteChar
  rw [← UInt8.toNat_inj]
  norm_cast

theorem Filled.rejects (h : Filled w₀ r t w) (hfits : r.start + r.size ≤ 2 ^ 32)
    (hsize : r.size = t.length + 1) (hbuffers : w₀.buffers = [(block, r)])
    (hblock : block ≠ 0) (hlive : block ∈ w₀.config.heap.live)
    (hnot : ¬ (t.head? = some 34 ∧ t.getLast? = some 34)) :
    ∃ w', (checkQuotes r.start r.size).Ends (handle place argv) w none w' ∧
      Rejected w₀ r block w' := by
  obtain ⟨w₁, hends₁, -, h₁⟩ := h.load place argv r.start rfl
  by_cases hhead : t.head? = some 34
  · obtain ⟨u, c, rfl⟩ : ∃ u c, t = u ++ [c] := by
      rcases List.eq_nil_or_concat' t with rfl | ⟨u, c, rfl⟩
      · cases hhead
      · exact ⟨u, c, rfl⟩
    have hc : c ≠ 34 := by
      rintro rfl
      exact hnot ⟨hhead, List.getLast?_concat⟩
    obtain ⟨w₂, hends₂, -, h₂⟩ := h₁.load place argv
      (r.start + u.length) (word_index (by rw [hsize, List.length_append, List.length_singleton]) hfits)
    obtain ⟨w', hends, hrejected⟩ := h₂.reject place argv hbuffers hblock hlive
      "value must end with quote\n" (by decide)
    have hbyte : w₁.memory.mem.load8 (r.start + u.length) = c := (seg_append.mp h₁.text.seg).2.1
    refine ⟨w', hends₁.bind ?_, hrejected⟩
    rw [if_neg (not_not.mpr (byte_eq_quoteChar_iff.mpr
      ((h.text.load8_eq_iff (by decide)).mpr hhead)))]
    refine hends₂.bind ?_
    rw [hbyte, if_pos fun heq => hc (byte_eq_quoteChar_iff.mp heq)]
    exact hends
  · obtain ⟨w', hends, hrejected⟩ := h₁.reject place argv hbuffers hblock hlive
      "value must start with quote\n" (by decide)
    refine ⟨w', hends₁.bind ?_, hrejected⟩
    rw [if_pos fun heq => hhead ((h.text.load8_eq_iff (by decide)).mp
      (byte_eq_quoteChar_iff.mp heq))]
    exact hends

/-- The last character is overwritten. -/
theorem Filled.close (place : Nat → Nat) (argv : List Argument) (h : Filled w₀ r (u ++ [c]) w)
    (hfits : r.start + r.size ≤ 2 ^ 32) (hsize : r.size = u.length + 2) {address : Int}
    (haddress : address = ((r.start + u.length : Nat) : Int)) :
    ∃ w', (store address 0).Ends (handle place argv) w () w' ∧ Filled w₀ r u w' ∧
      StrAt w'.memory.mem (r.start + u.length + 1) [] := by
  subst haddress
  have hin : r.Has (r.start + u.length) := ⟨Nat.le_add_right _ _, by omega⟩
  have hwrite : Leaves (WritesIn r) (writeByte (r.start + u.length) 0) w.memory.mem ()
      (w.memory.mem.store8 (r.start + u.length) 0) := .write 0 hin
  obtain ⟨new, hends, hnew⟩ := exists_onMemory place argv hwrite
    (.store ((r.start + u.length : Nat) : Int) 0) rfl
  obtain ⟨hfront, hback⟩ := h.text.cut
  refine ⟨_, hends.bind (.pure () _), ⟨hfront, fun x hx => ?_, fun a ha => ?_, ?_⟩, hback⟩
  · refine (Mem.store8_apply_of_ne _ _ (by omega) fun heq => hx ?_).trans (h.frame x hx)
    rwa [heq]
  · rcases List.mem_append.mp ha with hold | hmem
    · exact h.writes a hold
    · exact hnew _ hmem
  · rw [h.rest]

theorem Filled.accepts (place : Nat → Nat) (argv : List Argument)
    (h : Filled w₀ r (u ++ [34]) w) (hfits : r.start + r.size ≤ 2 ^ 32)
    (hsize : r.size = u.length + 2) (hhead : (u ++ [34]).head? = some 34) :
    ∃ w', (checkQuotes r.start r.size).Ends (handle place argv) w (some r.start) w' ∧
      Filled w₀ r u w' ∧ StrAt w'.memory.mem (r.start + 1) u.tail := by
  obtain ⟨w₁, hends₁, hmem₁, h₁⟩ := h.load place argv r.start rfl
  obtain ⟨w₂, hends₂, -, h₂⟩ := h₁.load place argv (r.start + u.length) (word_index hsize hfits)
  obtain ⟨w', hends, h', hlast⟩ := h₂.close place argv hfits hsize (word_index hsize hfits)
  have hbyte : w₁.memory.mem.load8 (r.start + u.length) = 34 := (seg_append.mp h₁.text.seg).2.1
  refine ⟨w', hends₁.bind ?_, h', ?_⟩
  · rw [if_neg (not_not.mpr (byte_eq_quoteChar_iff.mpr
      ((h.text.load8_eq_iff (by decide)).mpr hhead)))]
    refine hends₂.bind ?_
    rw [if_neg (not_not.mpr (byte_eq_quoteChar_iff.mpr hbyte))]
    exact hends.bind (.pure _ w')
  · cases u with
    | nil => exact hlast
    | cons d v => exact h'.text.drop (u := [d])

end Quotes

/-! ## The commands -/

/-- A command on the text of a quoted value. -/
def afterQuoted (rest : Int → ShellM Unit) (argc : Int) : ShellM Unit := do
  match ← quotedValue argc with
  | none => return ()
  | some buf => rest buf

/-- `setenv` behind its checks. -/
def putValue (buf : Int) : ShellM Unit := do
  let rootenv ← call .getRootenv []
  perform .envPut [.value rootenv, .value (← readArgv 1), .value (buf + 1)]

/-- `setconf` behind its checks. -/
def setValue (buf : Int) : ShellM Unit := do
  perform .configSetstr [.value (← readArgv 1), .value (buf + 1)]
  perform .kfree [.value buf]

theorem setenv_eq {argc : Int} (hargc : 2 ≤ argc) : setenv argc = afterQuoted putValue argc :=
  if_neg (Int.not_lt.mpr hargc)

theorem setconf_eq {argc : Int} (hargc : 2 ≤ argc) : setconf argc = afterQuoted setValue argc :=
  if_neg (Int.not_lt.mpr hargc)

/-- The environment and the configuration say the same. -/
structure SameStores (w w' : World) : Prop where
  env : present w'.env = present w.env
  config : ∀ ns key x, w'.config.Has ns key x ↔ w.config.Has ns key x

/-- What a command should have done with the text `t`: a value in quotes is stored, any other
text rejected with a message, and what was written was written in the buffers. -/
structure StoresQuoted (t : List UInt8) (Stored : List UInt8 → World → Prop) (w w' : World) :
    Prop where
  writes : ∀ a, .write a ∈ w'.memory.log → ∃ buffer ∈ w'.buffers, buffer.2.Has a
  stores : ∀ v, t = 34 :: (v ++ [34]) → Stored v w'
  rejects : (∀ v, t ≠ 34 :: (v ++ [34])) →
    SameStores w w' ∧ ∃ message ∈ rejections, w'.printed = [message]

/-- Only the requests that allocate no buffer. -/
def NotKallocz (i : Access) : Prop := ∀ args, i ≠ .call .kallocz args

/-- Something was written, and no buffer allocated. -/
def WroteOutside (w : World) : Prop := w.buffers = [] ∧ ∃ a, .write a ∈ w.memory.log

section Commands

variable {place : Nat → Nat} {argv : List Argument} {m : Mem} {env : Env} {config : Config}
  {w w' : World} {answer : Int} {rest : Int → ShellM Unit}

theorem WroteOutside.onMemory {x : DevM Logged Int} (h : WroteOutside w) (hx : Appends x)
    (hrun : Shell.onMemory x w = some (answer, w')) : WroteOutside w' := by
  obtain ⟨hbuffers, a, ha⟩ := h
  obtain ⟨⟨b, memory⟩, hmemory, heq⟩ := Option.map_eq_some_iff.mp hrun
  cases heq
  exact ⟨hbuffers, a, hx _ _ _ hmemory _ ha⟩

/-- Without `kallocz` it stays so. -/
theorem WroteOutside.handle {i : Access} (hi : NotKallocz i) (h : WroteOutside w)
    (hrun : Shell.handle place argv i w = some (answer, w')) : WroteOutside w' := by
  unfold Shell.handle at hrun
  split at hrun
  · split at hrun
    · obtain ⟨arg, -, heq⟩ := Option.map_eq_some_iff.mp hrun
      cases heq
      exact h
    · cases hrun
  · exact h.onMemory (.bind (.read _) fun _ => .pure _) hrun
  · exact h.onMemory (.bind (.write _ _) fun _ => .pure _) hrun
  · obtain ⟨n, -, heq⟩ := Option.map_eq_some_iff.mp hrun
    cases heq
    exact h
  · exact h.onMemory (.bind (strcat_appends _ _) fun _ => .pure _) hrun
  · exact h.onMemory (.bind (strcatText_appends _ _) fun _ => .pure _) hrun
  · exact absurd rfl (hi _)
  · obtain ⟨buffer, -, hrun⟩ := Option.bind_eq_some_iff.mp hrun
    obtain ⟨heap, -, hrun⟩ := Option.bind_eq_some_iff.mp hrun
    cases hrun
    exact h
  · cases hrun
    exact h
  · cases hrun
    exact h
  · obtain ⟨key, -, hrun⟩ := Option.bind_eq_some_iff.mp hrun
    obtain ⟨put, -, hrun⟩ := Option.bind_eq_some_iff.mp hrun
    cases hrun
    exact h
  · obtain ⟨path, -, hrun⟩ := Option.bind_eq_some_iff.mp hrun
    obtain ⟨text, -, hrun⟩ := Option.bind_eq_some_iff.mp hrun
    obtain ⟨config, -, hrun⟩ := Option.bind_eq_some_iff.mp hrun
    cases hrun
    exact h
  · cases hrun

/-- With two arguments there is nothing to join: the buffer is `NULL`, and `argv[1]` is written
from the first terminator of the memory on. -/
theorem afterQuoted_two (hargc : argv.length = 2)
    (hrest : ∀ buf, (rest buf).Every NotKallocz fun _ => True)
    (h : (afterQuoted rest argv.length).Ends (Shell.handle place argv)
      (World.start m env config) () w') : WroteOutside w' := by
  rw [hargc] at h
  obtain ⟨o, w₁, hquoted, hend⟩ := h.of_bind
  rw [quotedValue_eq] at hquoted
  have hbufsz : (forInt 2 (2 : Nat) 0 fun i bufsz => do
      return word (bufsz + (← call .strlen [.value (← readArgv i)]) + 1)).Ends
        (Shell.handle place argv) (World.start m env config) 0 (World.start m env config) := rfl
  have hkallocz : (call .kallocz [.value 0]).Ends (Shell.handle place argv)
      (World.start m env config) 0 (World.start m env config) := rfl
  have hjoin : (forInt 2 ((2 : Nat) - 1) () fun i _ => do
      perform .strcat [.value 0, .value (← readArgv i)]
      perform .strcat [.value 0, .text " "]).Ends (Shell.handle place argv)
        (World.start m env config) () (World.start m env config) := rfl
  replace hquoted := hbufsz.bind_iff.mp hquoted
  replace hquoted := hkallocz.bind_iff.mp hquoted
  replace hquoted := hjoin.bind_iff.mp hquoted
  have hread : (readArgv ((2 : Nat) - 1)).Ends (Shell.handle place argv)
      (World.start m env config) (argv[1].ptr : Int) (World.start m env config) :=
    ends_readArgv rfl (List.getElem?_eq_getElem (by omega))
  replace hquoted := hread.bind_iff.mp hquoted
  obtain ⟨_, w₂, hstrcat, hcheck⟩ := hquoted.of_bind
  have hwrote : WroteOutside w₂ := by
    obtain ⟨answer, w₃, hcall, hdone⟩ := hstrcat.of_bind
    cases hdone
    have hrun := Dialogue.Ends.request_iff.mp hcall
    obtain ⟨⟨b, memory⟩, hmemory, heq⟩ := Option.map_eq_some_iff.mp hrun
    cases heq
    obtain ⟨_, _, hwrites, hreturn⟩ := exists_of_bind_run hmemory
    cases hreturn
    exact ⟨rfl, strcat_writes hwrites⟩
  have hkeeps : ∀ i, NotKallocz i → ∀ w answer w', Shell.handle place argv i w = some (answer, w') →
      WroteOutside w → WroteOutside w' := fun i hi w answer w' hrun h => h.handle hi hrun
  have hchecks : (checkQuotes 0 0).Every NotKallocz fun _ => True := by
    simp [checkQuotes, NotKallocz, load, store, printf, perform, call]
  have hwrote' := (hchecks.ends hkeeps hwrote hcheck).2
  cases o with
  | none =>
    cases hend
    exact hwrote'
  | some buf => exact ((hrest buf).ends hkeeps hwrote' hend).2

/-- A command that returns behind accepted quotes, without a message and without writing, does
what it should exactly if there is an argument to join and the text is not a quote alone. -/
theorem Called.afterQuoted_iff (h : Called place argv m env config)
    {Stored : List UInt8 → World → Prop} (hquiet : ∀ buf, (rest buf).Every NotKallocz fun _ => True)
    (hrest : ∀ u v w, Filled (allocated place argv m env config) (bufferOf place argv config) u w →
      StrAt w.memory.mem ((bufferOf place argv config).start + 1) v →
      v.length + 1 < (bufferOf place argv config).size →
      ∃ w', (rest (bufferOf place argv config).start).Ends (Shell.handle place argv) w () w' ∧
        w'.memory = w.memory ∧ w'.buffers = w.buffers ∧ w'.printed = w.printed ∧ Stored v w') :
    (∃ w', (afterQuoted rest argv.length).Ends (Shell.handle place argv)
        (World.start m env config) () w' ∧
      StoresQuoted (valueText argv) Stored (World.start m env config) w') ↔
      3 ≤ argv.length ∧ valueText argv ≠ [34] := by
  have hargc := h.argc
  have hsize : (bufferOf place argv config).size = (valueText argv).length + 1 := rfl
  have hmem : (config.heap.next, bufferOf place argv config) ∈
      (allocated place argv m env config).buffers := List.mem_cons_self
  -- behind accepted quotes
  have haccepted : ∀ u, 3 ≤ argv.length → valueText argv = u ++ [34] →
      (u ++ [34]).head? = some 34 → ∃ w', (afterQuoted rest argv.length).Ends
        (Shell.handle place argv) (World.start m env config) () w' ∧
      (∀ a, .write a ∈ w'.memory.log → ∃ buffer ∈ w'.buffers, buffer.2.Has a) ∧
      w'.printed = [] ∧ Stored u.tail w' := by
    intro u hargc htext hhead
    obtain ⟨w, hfilled, hjoins⟩ := h.joins hargc
    rw [htext, List.length_append, List.length_singleton] at hsize
    rw [htext] at hfilled
    obtain ⟨w₁, hcheck, hfilled₁, hvalue⟩ := hfilled.accepts place argv h.fits hsize hhead
    obtain ⟨w', hends, hmemory, hbuffers, hprinted, hstored⟩ := hrest u u.tail w₁ hfilled₁ hvalue
      (by rw [List.length_tail]; omega)
    refine ⟨w', (hjoins _ _ hcheck).bind hends, fun a ha => ?_, ?_, hstored⟩
    · rw [hmemory] at ha
      rw [hbuffers, hfilled₁.rest]
      exact ⟨_, hmem, hfilled₁.writes a ha⟩
    · rw [hprinted, hfilled₁.rest]
      rfl
  constructor
  · intro ⟨w', hends, hstores⟩
    by_cases htwo : argv.length = 2
    · obtain ⟨hbuffers, a, ha⟩ := afterQuoted_two htwo hquiet hends
      obtain ⟨buffer, hbuffer, -⟩ := hstores.writes a ha
      rw [hbuffers] at hbuffer
      cases hbuffer
    refine ⟨by omega, fun htext => ?_⟩
    obtain ⟨w₁, hends₁, -, hprinted, -⟩ := haccepted [] (by omega) htext rfl
    obtain ⟨-, rfl⟩ := hends.unique hends₁
    obtain ⟨-, message, -, hmessage⟩ := hstores.rejects fun v hv => by
      rw [htext] at hv
      simp at hv
    rw [hprinted] at hmessage
    cases hmessage
  · intro ⟨hargc, htext⟩
    by_cases hquotes : (valueText argv).head? = some 34 ∧ (valueText argv).getLast? = some 34
    · obtain ⟨u, hu⟩ := List.getLast?_eq_some_iff.mp hquotes.2
      rw [hu] at hquotes
      obtain ⟨v, rfl⟩ : ∃ v, u = 34 :: v := by
        cases u with
        | nil => exact absurd hu htext
        | cons c v =>
          cases hquotes.1
          exact ⟨v, rfl⟩
      obtain ⟨w', hends, hwrites, -, hstored⟩ := haccepted (34 :: v) hargc hu rfl
      refine ⟨w', hends, hwrites, fun v' hv' => ?_, fun hnot => absurd hu (hnot v)⟩
      have heq : v' = v := by
        rw [hu, List.cons_append, List.cons.injEq] at hv'
        exact (List.append_cancel_right hv'.2).symm
      rw [heq]
      exact hstored
    · obtain ⟨w, hfilled, hjoins⟩ := h.joins hargc
      have hpos := h.linked.bound_pos
      obtain ⟨w', hcheck, hrejected⟩ := hfilled.rejects h.fits hsize rfl (Nat.ne_of_gt hpos)
        List.mem_cons_self hquotes
      refine ⟨w', (hjoins _ _ hcheck).bind (.pure () w'), fun a ha => ?_, fun v hv => ?_,
        fun _ => ⟨⟨?_, fun ns key x => ?_⟩, hrejected.message⟩⟩
      · rw [hrejected.buffers]
        exact ⟨_, hmem, hrejected.writes a ha⟩
      · refine absurd ⟨?_, ?_⟩ hquotes
        · rw [hv]
          rfl
        · rw [hv, ← List.cons_append]
          exact List.getLast?_concat
      · rw [hrejected.env]
        rfl
      · rw [hrejected.config]
        exact Iff.rfl

/-- The environment has a pointer to the value under the key; the string lies in a buffer that is
not freed.  Nothing else is changed. -/
def EnvStored (key : Key) (w : World) (v : List UInt8) (w' : World) : Prop :=
  (∀ ns key x, w'.config.Has ns key x ↔ w.config.Has ns key x) ∧
    ∃ p, MapsBut (present w.env) (present w'.env) key (some p) ∧ StrAt w'.memory.mem p v ∧
      ∃ buffer ∈ w'.buffers, buffer.1 ∈ w'.config.heap.live ∧ buffer.2.Has p ∧
        buffer.2.Has (p + v.length)

/-- The pair is set to the value.  Nothing else is changed. -/
def ConfStored (ns key : Key) (w : World) (v : List UInt8) (w' : World) : Prop :=
  present w'.env = present w.env ∧
    ∃ text : Key, text.val = v ∧ ∀ ns' key' x, w'.config.Has ns' key' x ↔
      (ns' = ns ∧ key' = key ∧ x = .str text) ∨
        (¬ (ns' = ns ∧ key' = key) ∧ w.config.Has ns' key' x)

/-- The name that a command is given. -/
def NameIs (argv : List Argument) (name : Key) : Prop :=
  ∃ arg, argv[1]? = some arg ∧ arg.text = name.val

theorem ends_putValue (h : Called place argv m env config) {name : Key} (hname : NameIs argv name)
    (hshort : name.val.length < envKeyLen) (hroom : (present env).length < envSize)
    {u v : List UInt8}
    (hfilled : Filled (allocated place argv m env config) (bufferOf place argv config) u w)
    (hvalue : StrAt w.memory.mem ((bufferOf place argv config).start + 1) v)
    (hsize : v.length + 1 < (bufferOf place argv config).size) :
    ∃ w', (putValue (bufferOf place argv config).start).Ends (Shell.handle place argv) w () w' ∧
      w'.memory = w.memory ∧ w'.buffers = w.buffers ∧ w'.printed = w.printed ∧
      EnvStored name (World.start m env config) v w' := by
  obtain ⟨arg, harg, htext⟩ := hname
  obtain ⟨hstr, hapart⟩ := h.allocated_strings arg (List.mem_of_getElem? harg)
  have hkey : keyAt w.memory.mem arg.ptr = some name := by
    rw [keyAt_eq (hfilled.strAt hstr hapart)]
    exact congrArg some (Subtype.ext htext)
  have henv : w.env = env := by rw [hfilled.rest]; rfl
  obtain ⟨env', hput, -, hmaps⟩ := (envPut_spec h.env hshort
    ((bufferOf place argv config).start + 1)).resolve_right fun ⟨_, _, hfull, _⟩ =>
      Nat.ne_of_lt hroom hfull
  have hcall : (call .envPut [.value 0, .value arg.ptr,
      .value ((bufferOf place argv config).start + 1)]).Ends (Shell.handle place argv) w 0
        { w with env := env' } := by
    refine .request ?_
    change envPutAt arg.ptr ((bufferOf place argv config).start + 1) w = _
    unfold envPutAt
    rw [hkey]
    change ((envPut w.env name ((bufferOf place argv config).start + 1)).toOption >>= _) = _
    rw [henv, hput]
    rfl
  have hroot : (call .getRootenv []).Ends (Shell.handle place argv) w 0 w := .request rfl
  refine ⟨{ w with env := env' }, hroot.bind ((ends_readArgv rfl harg).bind
    (hcall.bind (.pure () _))), rfl, rfl, rfl, fun ns key x => ?_, _, hmaps, hvalue, ?_⟩
  · change w.config.Has ns key x ↔ _
    rw [hfilled.rest]
    exact Iff.rfl
  · refine ⟨(config.heap.next, bufferOf place argv config), ?_, ?_, ?_⟩
    · change _ ∈ w.buffers
      rw [hfilled.rest]
      exact List.mem_cons_self
    · change _ ∈ w.config.heap.live
      rw [hfilled.rest]
      exact List.mem_cons_self
    · unfold Region.Has
      dsimp only
      omega

/-- A string is set by its path, and the blocks from `bound` on are still live. -/
theorem configSetstr_live {bound : Nat} {c : Config} {ns : Key} (hl : Linked bound c)
    (ho : Owned c) (hns : 58 ∉ ns.val) (hreg : c.Registered ns) (key value stale : Key) :
    ∃ c', configSetstr c (configPath ns key) (.own value) stale = .ok c' ∧
      (∀ ns' key' x, c'.Has ns' key' x ↔ (ns' = ns ∧ key' = key ∧ x = .str value) ∨
        (¬ (ns' = ns ∧ key' = key) ∧ c.Has ns' key' x)) ∧
      ∀ b ∈ c.heap.live, bound ≤ b → b < c.heap.next → b ∈ c'.heap.live := by
  have hbound := hl.bound_le
  have hnext := hl.mono hbound
  have hext : Extends bound c c.parsing := extends_parsing
  obtain ⟨c₁, text, hset, hresult, hblocks, htext⟩ := configSetstrns_spec (hext.linked hl)
    (ho.parsing hl) (.own ns) (.own key) (.own value) ⟨ns, key, stale⟩
    (hext.registered_iff.mpr hreg) (fresh_own _ _ _ ns) (fresh_own _ _ _ key)
  obtain rfl : text = value := htext (fresh_own _ _ _ value)
  have hwide : SetBlocks c.heap.next c.parsing c₁ :=
    ⟨fun b hb hge => hblocks.keeps b hb (Nat.le_trans hbound hge), fun ns' key' s hs =>
      (hblocks.copy ns' key' s hs).imp_left fun hlt => Nat.lt_of_lt_of_le hlt hbound⟩
  obtain ⟨c', hpath, hpathResult⟩ := setWithPath_path
    (fun c ns key => configSetstrns c (.own ns) (.own key) (.own text) ⟨ns, key, stale⟩)
    hnext hns ⟨c₁, hset, hresult, hwide⟩
  have hreturns := setWithPath_returns
    (fun c ns key => configSetstrns c (.own ns) (.own key) (.own text) ⟨ns, key, stale⟩)
    hnext.bound_pos hns hset hwide.keeps
  refine ⟨c', hpath, hpathResult.has, fun b hb hge hlt => ?_⟩
  cases hpath.symm.trans hreturns
  have hparsing : b ∈ c.parsing.heap.live := List.mem_cons_of_mem _ (List.mem_cons_of_mem _ hb)
  have hkept := hblocks.keeps b hparsing hge
  exact (List.mem_erase_of_ne (by omega)).mpr ((List.mem_erase_of_ne (by omega)).mpr hkept)

theorem ends_setValue (h : Called place argv m env config) {ns key : Key} (hns : 58 ∉ ns.val)
    (hname : NameIs argv (configPath ns key)) (hreg : config.Registered ns) {u v : List UInt8}
    (hfilled : Filled (allocated place argv m env config) (bufferOf place argv config) u w)
    (hvalue : StrAt w.memory.mem ((bufferOf place argv config).start + 1) v) :
    ∃ w', (setValue (bufferOf place argv config).start).Ends (Shell.handle place argv) w () w' ∧
      w'.memory = w.memory ∧ w'.buffers = w.buffers ∧ w'.printed = w.printed ∧
      ConfStored ns key (World.start m env config) v w' := by
  obtain ⟨arg, harg, htext⟩ := hname
  obtain ⟨hstr, hapart⟩ := h.allocated_strings arg (List.mem_of_getElem? harg)
  have hpath : keyAt w.memory.mem arg.ptr = some (configPath ns key) := by
    rw [keyAt_eq (hfilled.strAt hstr hapart)]
    exact congrArg some (Subtype.ext htext)
  let c : Config := { config with heap := config.heap.kalloc.2 }
  have hconfig : w.config = c := by rw [hfilled.rest]; rfl
  have hext : Extends config.heap.next config c :=
    ⟨Nat.le_succ _, rfl, rfl, fun _ _ => rfl, fun _ _ => rfl⟩
  have howned : Owned c := hext.ownedOn h.linked h.owned LiveBlocks.kalloc_keeps
    fun _ _ _ _ _ => List.not_mem_nil
  obtain ⟨c', hset, hhas, hlive⟩ := configSetstr_live (hext.linked h.linked) howned hns
    (hext.registered_iff.mpr hreg) key ⟨v, hvalue.nulFree⟩ ⟨v, hvalue.nulFree⟩
  have hcall : (call .configSetstr [.value arg.ptr,
      .value ((bufferOf place argv config).start + 1)]).Ends (Shell.handle place argv) w 0
        { w with config := c' } := by
    refine .request ?_
    change configSetstrAt arg.ptr ((bufferOf place argv config).start + 1) w = _
    unfold configSetstrAt
    rw [hpath, keyAt_eq hvalue]
    change ((configSetstr w.config (configPath ns key) (.own ⟨v, _⟩) ⟨v, _⟩).toOption >>= _) = _
    rw [hconfig, hset]
    rfl
  have hbuffers : w.buffers = [(config.heap.next, bufferOf place argv config)] := by
    rw [hfilled.rest]
    rfl
  have hfree : (perform .kfree [.value (bufferOf place argv config).start]).Ends
      (Shell.handle place argv) { w with config := c' } () _ :=
    ends_kfree hbuffers (Nat.ne_of_gt h.linked.bound_pos)
      (hlive config.heap.next List.mem_cons_self (Nat.le_refl _) (Nat.lt_succ_self _))
  refine ⟨_, (ends_readArgv rfl harg).bind ((hcall.bind (.pure () _)).bind hfree), rfl, rfl, rfl,
    ?_, ⟨v, hvalue.nulFree⟩, rfl, hhas⟩
  change present w.env = _
  rw [hfilled.rest]
  rfl

/-- `setenv` stores a quoted value and rejects any other, writing in its buffer only. -/
def SetenvMeets (place : Nat → Nat) (argv : List Argument) (m : Mem) (env : Env)
    (config : Config) (name : Key) : Prop :=
  ∃ w', (setenv argv.length).Ends (Shell.handle place argv) (World.start m env config) () w' ∧
    StoresQuoted (valueText argv) (EnvStored name (World.start m env config))
      (World.start m env config) w'

/-- `setconf` stores a quoted value and rejects any other, writing in its buffer only. -/
def SetconfMeets (place : Nat → Nat) (argv : List Argument) (m : Mem) (env : Env)
    (config : Config) (ns key : Key) : Prop :=
  ∃ w', (setconf argv.length).Ends (Shell.handle place argv) (World.start m env config) () w' ∧
    StoresQuoted (valueText argv) (ConfStored ns key (World.start m env config))
      (World.start m env config) w'

theorem setenvMeets_iff (h : Called place argv m env config) {name : Key}
    (hname : NameIs argv name) (hshort : name.val.length < envKeyLen)
    (hroom : (present env).length < envSize) :
    SetenvMeets place argv m env config name ↔ 3 ≤ argv.length ∧ valueText argv ≠ [34] := by
  unfold SetenvMeets
  rw [setenv_eq (by exact_mod_cast h.argc)]
  refine h.afterQuoted_iff (fun buf => ?_) fun u v w hfilled hvalue hsize =>
    ends_putValue h hname hshort hroom hfilled hvalue hsize
  simp [putValue, NotKallocz, readArgv, perform, call]

theorem setconfMeets_iff (h : Called place argv m env config) {ns key : Key}
    (hns : 58 ∉ ns.val) (hname : NameIs argv (configPath ns key))
    (hreg : config.Registered ns) :
    SetconfMeets place argv m env config ns key ↔
      3 ≤ argv.length ∧ valueText argv ≠ [34] := by
  unfold SetconfMeets
  rw [setconf_eq (by exact_mod_cast h.argc)]
  refine h.afterQuoted_iff (fun buf => ?_) fun u v w hfilled hvalue _ =>
    ends_setValue h hns hname hreg hfilled hvalue
  simp [setValue, NotKallocz, readArgv, perform, call]

/-- The commands do so exactly if there is an argument to join and the joined text is not a
quote alone. -/
theorem setenv_setconf_iff (h : Called place argv m env config) :
    (∀ name, NameIs argv name → name.val.length < envKeyLen → (present env).length < envSize →
      (SetenvMeets place argv m env config name ↔ 3 ≤ argv.length ∧ valueText argv ≠ [34])) ∧
    ∀ ns key, 58 ∉ ns.val → NameIs argv (configPath ns key) → config.Registered ns →
      (SetconfMeets place argv m env config ns key ↔
        3 ≤ argv.length ∧ valueText argv ≠ [34]) :=
  ⟨fun _ hname hshort hroom => setenvMeets_iff h hname hshort hroom,
    fun _ _ hns hname hreg => setconfMeets_iff h hns hname hreg⟩

end Commands

/-! ## A line of three words -/

section Line

/-- The arguments of the line `setenv s:k`, a space and the value. -/
def lineArgv (value : List UInt8) : List Argument :=
  [⟨4096, chars "setenv"⟩, ⟨4103, chars "s:k"⟩, ⟨4107, value⟩]

def lineMem (value : List UInt8) : Mem :=
  stringMem 4096 (chars "setenv" ++ 0 :: chars "s:k" ++ 0 :: value ++ [0])

theorem nul_not_mem_k : 0 ∉ [(107 : UInt8)] := by decide

/-- The namespace `s` and the key `k`. -/
def lineNs : Key := ⟨[115], by decide⟩
def lineKeyPart : Key := ⟨[107], nul_not_mem_k⟩

/-- The block that is handed out next. -/
def linePlace : Nat → Nat := fun _ => 8192

theorem valueText_lineArgv (value : List UInt8) : valueText (lineArgv value) = value :=
  (List.intercalate_singleton : [(32 : UInt8)].intercalate [value] = value)

theorem nameIs_lineArgv (value : List UInt8) :
    NameIs (lineArgv value) (configPath lineNs lineKeyPart) := ⟨_, rfl, rfl⟩

theorem called_line (value : List UInt8) {config : Config} (hnul : 0 ∉ value)
    (hlen : value.length < 1024) (hl : Linked config.heap.next config) (ho : Owned config) :
    Called linePlace (lineArgv value) (lineMem value) envInit config := by
  have htext := valueText_lineArgv value
  have hstart : (bufferOf linePlace (lineArgv value) config).start = 8192 := rfl
  have hsize : (bufferOf linePlace (lineArgv value) config).size = value.length + 1 := by
    unfold bufferOf
    rw [htext]
  refine ⟨Nat.le_succ 2, fun arg hmem => ?_, envInv_init, hl, ho, by rw [htext]; omega, by
    rw [hstart]
    exact Nat.succ_pos _, by omega, fun arg hmem => ?_⟩
  · simp only [lineArgv, List.mem_cons, List.not_mem_nil, or_false] at hmem
    rcases hmem with rfl | rfl | rfl
    · have hat := strAt_stringMem_append (p := 4096) (s := chars "setenv") []
        (chars "s:k" ++ 0 :: value ++ [0]) (by decide) (by decide)
      simpa [lineMem] using hat
    · have hat := strAt_stringMem_append (p := 4096) (s := chars "s:k") (chars "setenv" ++ [0])
        (value ++ [0]) (by decide) (by decide)
      have heq : 4096 + (chars "setenv" ++ [0]).length = 4103 := by decide
      rw [heq] at hat
      simpa [lineMem] using hat
    · have heq : 4096 + (chars "setenv" ++ 0 :: chars "s:k" ++ [0]).length = 4107 := by decide
      have hat := strAt_stringMem_append (p := 4096) (s := value)
        (chars "setenv" ++ 0 :: chars "s:k" ++ [0]) [] hnul (by omega)
      rw [heq] at hat
      simpa [lineMem] using hat
  · have hchars : (chars "setenv").length = 6 ∧ (chars "s:k").length = 3 := by decide
    unfold Region.Apart
    simp only [lineArgv, List.mem_cons, List.not_mem_nil, or_false] at hmem
    rcases hmem with rfl | rfl | rfl <;> dsimp only <;> omega

/-- A store with the namespace `s`. -/
theorem exists_lineConfig :
    ∃ config, Linked config.heap.next config ∧ Owned config ∧ config.Registered lineNs := by
  have heap : LiveBlocks := ⟨1, []⟩
  obtain ⟨hl, ho, -⟩ := configInit_good heap (fun _ => (htblCreate heap).2.2)
    (fun _ => .int 0) fun _ => lineNs
  obtain ⟨config, -, hresult⟩ := configNewns_spec hl lineNs
  exact ⟨config, hresult.linked, hresult.owned ho, (hresult.registered lineNs).mpr (Or.inl rfl)⟩

/-- The lines `setenv s:k "a"` and `setconf s:k "a"`. -/
theorem setenv_setconf_iff_line : ∃ config,
    SetenvMeets linePlace (lineArgv [34, 97, 34]) (lineMem [34, 97, 34]) envInit config
        (configPath lineNs lineKeyPart) ∧
      SetconfMeets linePlace (lineArgv [34, 97, 34]) (lineMem [34, 97, 34]) envInit config
        lineNs lineKeyPart := by
  obtain ⟨config, hl, ho, hreg⟩ := exists_lineConfig
  have hquoted : 3 ≤ (lineArgv [34, 97, 34]).length ∧ valueText (lineArgv [34, 97, 34]) ≠ [34] := by
    rw [valueText_lineArgv]
    decide
  obtain ⟨henv, hconf⟩ := setenv_setconf_iff
    (called_line [34, 97, 34] (by decide) (by decide) hl ho)
  exact ⟨config, (henv _ (nameIs_lineArgv _) (by decide) (by decide)).mpr hquoted,
    (hconf _ _ (by decide) (nameIs_lineArgv _) hreg).mpr hquoted⟩

/-- The line `setenv s:k "`: the text is one quote, and the empty string is stored. -/
theorem setenv_quote_alone :
    ¬ ∀ place argv m env config, Called place argv m env config →
      (∀ name, NameIs argv name → name.val.length < envKeyLen → (present env).length < envSize →
        SetenvMeets place argv m env config name) ∧
      ∀ ns key, 58 ∉ ns.val → NameIs argv (configPath ns key) → config.Registered ns →
        SetconfMeets place argv m env config ns key := by
  intro hclaim
  obtain ⟨config, hl, ho, -⟩ := exists_lineConfig
  have hcalled := called_line [34] (by decide) (by decide) hl ho
  have hmeets := (hclaim _ _ _ _ _ hcalled).1 _ (nameIs_lineArgv _) (by decide) (by decide)
  have hquoted := (setenvMeets_iff hcalled (nameIs_lineArgv _) (by decide) (by decide)).mp hmeets
  exact hquoted.2 (valueText_lineArgv [34])

end Line

end Shell

end Microboot.Kern
