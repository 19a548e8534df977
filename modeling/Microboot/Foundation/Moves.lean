/-
  Foundation/Moves.lean --- moving data in units of several bytes.

  An instruction that moves a word reads all of its bytes before it writes the
  first one.  `Copies x dst src n a` says that the program `x` accesses nothing but the
  two ranges of `n` bytes, writes each byte of the one, and leaves what the ascending
  copy leaves if the ranges are apart.  A unit of any size is such a program, and
  two programs that copy adjacent parts copy the whole; how a range is divided into
  units has then no influence on what is left.
-/
import Microboot.Foundation.Accesses
import Microboot.Foundation.CString
import Microboot.Foundation.Regions

set_option autoImplicit false

namespace Microboot.Foundation

/-! ## Units -/

/-- Reading `n` bytes. -/
def readBytes (a : Nat) : Nat → DevM Logged (List UInt8)
  | 0 => pure []
  | n + 1 => do
    let c ← readByte a
    let u ← readBytes (a + 1) n
    return c :: u

/-- Writing bytes. -/
def writeBytes (a : Nat) : List UInt8 → DevM Logged Unit
  | [] => pure ()
  | c :: u => do
    writeByte a c
    writeBytes (a + 1) u

/-- What is read is read in `src`, and what is written is written in `dst`. -/
def Between (src dst : Region) : Access → Prop
  | .read a => src.Has a
  | .write a => dst.Has a

theorem Between.mono {src src' dst dst' : Region} {e : Access} (h : Between src dst e)
    (hsrc : ∀ a, src.Has a → src'.Has a) (hdst : ∀ a, dst.Has a → dst'.Has a) :
    Between src' dst' e := by
  cases e with
  | read a => exact hsrc a h
  | write a => exact hdst a h

/-- An address of a part. -/
theorem Region.Has.of_part {p k n len x : Nat} (h : Region.Has ⟨p + k, n⟩ x) (hle : k + n ≤ len) :
    Region.Has ⟨p, len⟩ x := by
  obtain ⟨hstart, hend⟩ := h
  rw [Nat.add_assoc] at hend
  exact ⟨Nat.le_of_add_right_le hstart, Nat.lt_of_lt_of_le hend (Nat.add_le_add_left hle p)⟩

section Units

variable {m : Mem} {a n k : Nat} {u v : List UInt8}

@[simp] theorem length_bytesAt (m : Mem) (a n : Nat) : (bytesAt m a n).length = n := by
  induction n generalizing a with
  | zero => rfl
  | succ n ih => rw [bytesAt, List.length_cons, ih]

theorem bytesAt_add : bytesAt m a (k + n) = bytesAt m a k ++ bytesAt m (a + k) n := by
  induction k generalizing a with
  | zero => rw [Nat.zero_add]; rfl
  | succ k ih =>
    rw [Nat.add_right_comm, bytesAt, bytesAt, ih, List.cons_append, Nat.add_right_comm,
      Nat.add_assoc a]

/-- Ranges that have the same bytes. -/
theorem bytesAt_eq {m' : Mem} {a' : Nat} (h : ∀ i < n, m'.load8 (a' + i) = m.load8 (a + i)) :
    bytesAt m' a' n = bytesAt m a n := by
  induction n generalizing a a' with
  | zero => rfl
  | succ n ih =>
    have hfirst := h 0 (Nat.succ_pos n)
    rw [bytesAt, bytesAt, ih fun i hi => ?_]
    · rw [Nat.add_zero, Nat.add_zero] at hfirst
      rw [hfirst]
    · have hnext := h (i + 1) (Nat.succ_lt_succ hi)
      rwa [Nat.add_right_comm a', Nat.add_assoc a', Nat.add_right_comm a, Nat.add_assoc a]

/-- Bytes depend only on their own range. -/
theorem bytesAt_congr {m' : Mem} (hfits : a + n ≤ 2 ^ 32)
    (hsame : ∀ x, a ≤ x → x < a + n → m' x = m x) : bytesAt m' a n = bytesAt m a n := by
  refine bytesAt_eq fun i hi => ?_
  rw [Mem.load8_eq _ (by omega), Mem.load8_eq _ (by omega)]
  exact hsame (a + i) (by omega) (by omega)

theorem storeBytes_append :
    m.storeBytes a (u ++ v) = (m.storeBytes a u).storeBytes (a + u.length) v := by
  induction u generalizing m a with
  | nil => rfl
  | cons c u ih =>
    rw [List.cons_append, Mem.storeBytes, ih, Mem.storeBytes, List.length_cons, Nat.add_assoc,
      Nat.add_comm 1]

/-- What is stored changes no other byte, wherever it lies. -/
theorem storeBytes_apply_of_ne {y : Nat} (hy : ∀ i < u.length, y ≠ wrap (a + i)) :
    m.storeBytes a u y = m y := by
  induction u generalizing m a with
  | nil => rfl
  | cons c u ih =>
    have hfirst : y ≠ wrap a := hy 0 (Nat.succ_pos _)
    rw [Mem.storeBytes, ih fun i hi => ?_]
    · exact if_neg hfirst
    · rw [Nat.add_assoc, Nat.add_comm 1]
      exact hy (i + 1) (Nat.succ_lt_succ hi)

theorem readBytes_run (w : Logged) :
    readBytes a n w =
      some (bytesAt w.mem a n, { w with log := w.log ++ (List.range' a n).map .read }) := by
  induction n generalizing a w with
  | zero => rw [List.range'_zero, List.map_nil, List.append_nil]; rfl
  | succ n ih =>
    rw [readBytes, readByte_bind, bind_run (ih _), List.range'_succ, List.map_cons,
      List.append_cons w.log _ (List.map _ _)]
    rfl

theorem writeBytes_run (w : Logged) :
    writeBytes a u w =
      some ((), ⟨w.mem.storeBytes a u, w.log ++ (List.range' a u.length).map .write⟩) := by
  induction u generalizing a w with
  | nil => rw [List.length_nil, List.range'_zero, List.map_nil, List.append_nil]; rfl
  | cons c u ih =>
    rw [writeBytes, List.length_cons, List.range'_succ, List.map_cons,
      List.append_cons w.log _ (List.map _ _)]
    exact ih _

end Units

/-! ## Copies -/

/-- Two ranges of `n` bytes that are apart, inside the address space. -/
structure Movable (dst src n : Nat) : Prop where
  dstFits : dst + n ≤ 2 ^ 32
  srcFits : src + n ≤ 2 ^ 32
  apart : dst + n ≤ src ∨ src + n ≤ dst

namespace Movable

variable {dst src n k : Nat}

/-- There is no room for two of more. -/
theorem lt (h : Movable dst src n) : n < 2 ^ 32 := by
  obtain ⟨hdst, hsrc, hapart⟩ := h
  omega

theorem front (h : Movable dst src (k + n)) : Movable dst src k := by
  obtain ⟨hdst, hsrc, hapart⟩ := h
  exact ⟨by omega, by omega, by omega⟩

theorem rest (h : Movable dst src (k + n)) : Movable (dst + k) (src + k) n := by
  obtain ⟨hdst, hsrc, hapart⟩ := h
  exact ⟨by omega, by omega, by omega⟩

/-- Between ranges that are apart it is the same to read all bytes first. -/
theorem storeBytes_bytesAt {m : Mem} (h : Movable dst src n) :
    m.storeBytes dst (bytesAt m src n) = m.copy dst src n := by
  induction n generalizing m dst src with
  | zero => rfl
  | succ n ih =>
    obtain ⟨hdst, hsrc, hapart⟩ := h
    have hsame : bytesAt (m.store8 dst (m.load8 src)) (src + 1) n = bytesAt m (src + 1) n :=
      bytesAt_congr (by omega) fun x h1 h2 =>
        Mem.store8_apply_of_ne m _ (by omega) (by omega)
    rw [bytesAt, Mem.storeBytes, Mem.copy, ← hsame]
    exact ih ⟨by omega, by omega, by omega⟩

/-- What is copied between ranges that are apart is the source, and nothing else changes. -/
theorem contents {m : Mem} (h : Movable dst src n) :
    (∀ i < n, m.copy dst src n (dst + i) = m (src + i)) ∧
      ∀ y, ¬ Region.Has ⟨dst, n⟩ y → m.copy dst src n y = m y := by
  refine ⟨fun i hi => Mem.copy_apply n m dst src i h.dstFits h.srcFits h.apart hi, fun y hy => ?_⟩
  refine Mem.copy_apply_of_disjoint n m dst src y h.dstFits ?_
  by_contra hout
  exact hy (And.intro (show dst ≤ y by omega) (show y < dst + n by omega))

end Movable

theorem Mem.copy_add {m : Mem} {dst src k n : Nat} :
    m.copy dst src (k + n) = (m.copy dst src k).copy (dst + k) (src + k) n := by
  induction k generalizing m dst src with
  | zero => rw [Nat.zero_add]; rfl
  | succ k ih =>
    rw [Nat.add_right_comm, Mem.copy, ih, Mem.copy, Nat.add_assoc dst, Nat.add_assoc src,
      Nat.add_comm 1]

/-- The program returns `a`, reads in `src` only, writes all of `dst` and changes nothing
else.  Between ranges that are apart it copies. -/
def Copies {α : Type} (x : DevM Logged α) (dst src n : Nat) (a : α) : Prop :=
  ∀ w, ∃ m' new, x w = some (a, ⟨m', w.log ++ new⟩) ∧
    (∀ e ∈ new, Between ⟨src, n⟩ ⟨dst, n⟩ e) ∧ (∀ i < n, .write (dst + i) ∈ new) ∧
    (∀ y, (∀ i < n, y ≠ wrap (dst + i)) → m' y = w.mem y) ∧
    (Movable dst src n → m' = w.mem.copy dst src n)

namespace Copies

variable {α β : Type} {x : DevM Logged α} {f : α → DevM Logged β} {dst src n k : Nat} {m : Mem}
  {a : α} {b : β}

/-- Nothing is copied. -/
theorem pure (dst src : Nat) (a : α) : Copies (Pure.pure a) dst src 0 a := by
  intro w
  refine ⟨w.mem, [], ?_, by simp, by simp, fun _ _ => rfl, fun _ => rfl⟩
  rw [List.append_nil]
  rfl

/-- All bytes are read, and then they are written. -/
theorem of_run (hrun : ∀ w, x w = some (a, ⟨w.mem.storeBytes dst (bytesAt w.mem src n),
    w.log ++ ((List.range' src n).map .read ++ (List.range' dst n).map .write)⟩)) :
    Copies x dst src n a := by
  intro w
  refine ⟨_, _, hrun w, fun e he => ?_, fun i hi => ?_, fun y hy => ?_,
    fun h => h.storeBytes_bytesAt⟩
  · rcases List.mem_append.mp he with he | he
    · obtain ⟨y, hy, rfl⟩ := List.mem_map.mp he
      exact List.mem_range'_1.mp hy
    · obtain ⟨y, hy, rfl⟩ := List.mem_map.mp he
      exact List.mem_range'_1.mp hy
  · have hmem : dst + i ∈ List.range' dst n := List.mem_range'_1.mpr ⟨by omega, by omega⟩
    exact List.mem_append_right _ (List.mem_map_of_mem hmem)
  · exact storeBytes_apply_of_ne (by rwa [length_bytesAt])

/-- One unit. -/
theorem unit (dst src n : Nat) :
    Copies (readBytes src n >>= writeBytes dst) dst src n () := by
  refine of_run fun w => ?_
  rw [bind_run (readBytes_run w), writeBytes_run, length_bytesAt, List.append_assoc]

theorem byte (dst src : Nat) : Copies (readByte src >>= writeByte dst) dst src 1 () := by
  refine of_run fun w => ?_
  rw [List.range'_one, List.range'_one, List.map_singleton, List.map_singleton, readByte_bind,
    writeByte, List.append_assoc]
  rfl

/-- Adjacent parts. -/
theorem bind (hx : Copies x dst src k a) (hf : Copies (f a) (dst + k) (src + k) n b) :
    Copies (x >>= f) dst src (k + n) b := by
  intro w
  obtain ⟨m₁, front, hrun₁, hfront, hall₁, hkeep₁, hcopy₁⟩ := hx w
  obtain ⟨m₂, rest, hrun₂, hrest, hall₂, hkeep₂, hcopy₂⟩ := hf ⟨m₁, w.log ++ front⟩
  refine ⟨m₂, front ++ rest, ?_, fun e he => ?_, fun i hi => ?_, fun y hy => ?_, fun h => ?_⟩
  · rw [bind_run hrun₁, hrun₂, List.append_assoc]
  · rcases List.mem_append.mp he with he | he
    · exact (hfront e he).mono (fun _ h => h.of_part (k := 0) (by omega))
        (fun _ h => h.of_part (k := 0) (by omega))
    · exact (hrest e he).mono (fun _ h => h.of_part (Nat.le_refl _))
        (fun _ h => h.of_part (Nat.le_refl _))
  · by_cases hk : i < k
    · exact List.mem_append_left _ (hall₁ i hk)
    · have hmem := hall₂ (i - k) (by omega)
      rw [Nat.add_assoc, Nat.add_sub_cancel' (Nat.le_of_not_lt hk)] at hmem
      exact List.mem_append_right _ hmem
  · have hrest : ∀ i < n, y ≠ wrap (dst + k + i) := by
      intro i hi
      rw [Nat.add_assoc]
      exact hy (k + i) (by omega)
    exact (hkeep₂ y hrest).trans (hkeep₁ y fun i hi => hy i (by omega))
  · rw [hcopy₂ h.rest, hcopy₁ h.front, Mem.copy_add]

/-- Behind a copy something is returned. -/
theorem bind_pure (hx : Copies x dst src n a) (b : β) :
    Copies (x >>= fun _ => Pure.pure b) dst src n b :=
  bind (n := 0) hx (pure _ _ b)

/-- Between ranges that are apart. -/
theorem leaves (hx : Copies x dst src n a) (h : Movable dst src n) :
    Leaves (Between ⟨src, n⟩ ⟨dst, n⟩) x m a (m.copy dst src n) := by
  intro log
  obtain ⟨m', new, hrun, hnew, -, -, hcopy⟩ := hx ⟨m, log⟩
  rw [hcopy h] at hrun
  exact ⟨new, hrun, hnew⟩

end Copies

end Microboot.Foundation
