/-
  Foundation/Memory.lean --- a flat byte-addressed 32-bit memory.

  Pointers are natural numbers read modulo `2 ^ 32`, so an access past the top
  of the address space wraps to the bottom exactly as it does on the machine.
  The file has the byte and little-endian word accesses, the bulk operations
  every C program leans on (`fill`, the ascending byte copy and `storeBytes`),
  and the frame rules that say which bytes each of them leaves alone.

  Nothing here mentions a program: a client names its own layout and uses the
  frame rules to keep its structures apart.
-/
import Mathlib.Data.List.Basic
import Mathlib.Tactic.Ring

set_option autoImplicit false

namespace Microboot.Foundation

/-! ## Bytes -/

/-- What holds of each of the 256 bytes holds of every byte. -/
theorem byte_all {P : UInt8 → Prop} (h : ∀ n : Fin 256, P (UInt8.ofNat n)) (c : UInt8) : P c := by
  have hc := h ⟨c.toNat, c.toNat_lt⟩
  rwa [UInt8.ofNat_toNat] at hc

/-- A memory assigns a byte to every address. -/
abbrev Mem : Type := Nat → UInt8

/-- The address a pointer names once its arithmetic is cut to 32 bits. -/
def wrap (a : Nat) : Nat := a % 2 ^ 32

theorem wrap_eq {a : Nat} (h : a < 2 ^ 32) : wrap a = a := Nat.mod_eq_of_lt h

namespace Mem

/-- Read the byte at `a`. -/
def load8 (m : Mem) (a : Nat) : UInt8 := m (wrap a)

/-- Write the byte `v` at `a`. -/
def store8 (m : Mem) (a : Nat) (v : UInt8) : Mem :=
  fun x => if x = wrap a then v else m x

theorem load8_eq (m : Mem) {a : Nat} (h : a < 2 ^ 32) : m.load8 a = m a := by
  rw [load8, wrap_eq h]

@[simp] theorem load8_store8_same (m : Mem) (a : Nat) (v : UInt8) :
    (m.store8 a v).load8 a = v := by
  simp [load8, store8]

theorem store8_apply_of_ne (m : Mem) {a x : Nat} (v : UInt8) (ha : a < 2 ^ 32)
    (h : x ≠ a) : m.store8 a v x = m x := by
  simp only [store8, wrap_eq ha, if_neg h]

theorem load8_store8_of_ne (m : Mem) {a b : Nat} (v : UInt8) (ha : a < 2 ^ 32)
    (hb : b < 2 ^ 32) (h : b ≠ a) : (m.store8 a v).load8 b = m.load8 b := by
  rw [load8_eq _ hb, load8_eq _ hb, store8_apply_of_ne m v ha h]

theorem load8_store8_offset (m : Mem) (p : Nat) (v : UInt8) {i j : Nat} (hi : i < 2 ^ 32)
    (hj : j < 2 ^ 32) (hne : i ≠ j) : (m.store8 (p + i) v).load8 (p + j) = m.load8 (p + j) := by
  refine if_neg fun heq => hne ?_
  unfold wrap at heq
  omega

/-! ## Words -/

/-- Read the little-endian 16-bit word at `a`. -/
def load16 (m : Mem) (a : Nat) : Nat := (m.load8 a).toNat + 256 * (m.load8 (a + 1)).toNat

/-- Read the little-endian 32-bit word at `a`. -/
def load32 (m : Mem) (a : Nat) : Nat :=
  (m.load8 a).toNat + 256 * (m.load8 (a + 1)).toNat +
    65536 * (m.load8 (a + 2)).toNat + 16777216 * (m.load8 (a + 3)).toNat

/-- Write the low 32 bits of `v` at `a`, least significant byte first. -/
def store32 (m : Mem) (a v : Nat) : Mem :=
  (((m.store8 a (UInt8.ofNat v)).store8 (a + 1) (UInt8.ofNat (v / 256))).store8
    (a + 2) (UInt8.ofNat (v / 65536))).store8 (a + 3) (UInt8.ofNat (v / 16777216))

theorem load32_lt (m : Mem) (a : Nat) : m.load32 a < 2 ^ 32 := by
  have h0 := (m.load8 a).toNat_lt
  have h1 := (m.load8 (a + 1)).toNat_lt
  have h2 := (m.load8 (a + 2)).toNat_lt
  have h3 := (m.load8 (a + 3)).toNat_lt
  unfold load32
  omega

/-- A word depends only on its four bytes. -/
theorem load32_congr {m m' : Mem} {a : Nat} (ha : a + 4 ≤ 2 ^ 32)
    (h : ∀ x, a ≤ x → x < a + 4 → m' x = m x) : m'.load32 a = m.load32 a := by
  simp only [load32]
  rw [load8_eq m (by omega : a < 2 ^ 32), load8_eq m' (by omega : a < 2 ^ 32),
    load8_eq m (by omega : a + 1 < 2 ^ 32), load8_eq m' (by omega : a + 1 < 2 ^ 32),
    load8_eq m (by omega : a + 2 < 2 ^ 32), load8_eq m' (by omega : a + 2 < 2 ^ 32),
    load8_eq m (by omega : a + 3 < 2 ^ 32), load8_eq m' (by omega : a + 3 < 2 ^ 32),
    h a (by omega) (by omega), h (a + 1) (by omega) (by omega),
    h (a + 2) (by omega) (by omega), h (a + 3) (by omega) (by omega)]

/-- A word store leaves every byte outside its four alone. -/
theorem store32_apply_of_disjoint (m : Mem) {a x : Nat} (v : Nat) (ha : a + 4 ≤ 2 ^ 32)
    (h : x < a ∨ a + 4 ≤ x) : m.store32 a v x = m x := by
  rw [store32, store8_apply_of_ne _ _ (by omega) (by omega),
    store8_apply_of_ne _ _ (by omega) (by omega),
    store8_apply_of_ne _ _ (by omega) (by omega),
    store8_apply_of_ne _ _ (by omega) (by omega)]

/-- Reading back a stored word, wherever it lies: the low 32 bits. -/
theorem load32_store32 (m : Mem) (a v : Nat) : (m.store32 a v).load32 a = v % 2 ^ 32 := by
  have hne : ∀ i j, i < j → j < 4 → wrap (a + i) ≠ wrap (a + j) := by
    intro i j hlt hj
    unfold wrap
    omega
  have h01 := hne 0 1 (by omega) (by omega)
  have h02 := hne 0 2 (by omega) (by omega)
  have h03 := hne 0 3 (by omega) (by omega)
  have h12 := hne 1 2 (by omega) (by omega)
  have h13 := hne 1 3 (by omega) (by omega)
  have h23 := hne 2 3 (by omega) (by omega)
  rw [Nat.add_zero] at h01 h02 h03
  simp only [load32, store32, load8, store8, if_true, if_neg h01, if_neg h02, if_neg h03,
    if_neg h12, if_neg h13, if_neg h23, UInt8.toNat_ofNat']
  omega

theorem load32_store32_same (m : Mem) {a v : Nat} (hv : v < 2 ^ 32) :
    (m.store32 a v).load32 a = v := (load32_store32 m a v).trans (Nat.mod_eq_of_lt hv)

/-- The first byte of a stored word, wherever it lies. -/
theorem load8_store32 (m : Mem) (a v : Nat) : (m.store32 a v).load8 a = UInt8.ofNat v := by
  have hne : ∀ k, 0 < k → k < 4 → wrap a ≠ wrap (a + k) := by
    intro k hpos hlt
    unfold wrap
    omega
  simp [store32, load8, store8, hne 1, hne 2, hne 3]

/-- A word store does not disturb a word it does not overlap. -/
theorem load32_store32_of_disjoint (m : Mem) {a b : Nat} (v : Nat)
    (ha : a + 4 ≤ 2 ^ 32) (hb : b + 4 ≤ 2 ^ 32) (h : b + 4 ≤ a ∨ a + 4 ≤ b) :
    (m.store32 a v).load32 b = m.load32 b :=
  load32_congr hb fun _ _ _ => store32_apply_of_disjoint m v ha (by omega)

/-- The low bytes of a word are those in front. -/
theorem load32_mod_eq_iff {m m' : Mem} {a a' n : Nat} (hn : n = 1 ∨ n = 2 ∨ n = 3 ∨ n = 4) :
    m'.load32 a' % 2 ^ (8 * n) = m.load32 a % 2 ^ (8 * n) ↔
      ∀ j < n, m'.load8 (a' + j) = m.load8 (a + j) := by
  have h0 := (m.load8 a).toNat_lt
  have h1 := (m.load8 (a + 1)).toNat_lt
  have h2 := (m.load8 (a + 2)).toNat_lt
  have h3 := (m.load8 (a + 3)).toNat_lt
  have h0' := (m'.load8 a').toNat_lt
  have h1' := (m'.load8 (a' + 1)).toNat_lt
  have h2' := (m'.load8 (a' + 2)).toNat_lt
  have h3' := (m'.load8 (a' + 3)).toNat_lt
  unfold load32
  rcases hn with rfl | rfl | rfl | rfl
  all_goals
    simp only [Nat.forall_lt_succ_right, Nat.not_lt_zero, false_implies, implies_true, true_and,
      ← UInt8.toNat_inj, Nat.add_zero]
    omega

/-! ## Bulk operations -/

/-- Set `len` bytes from `p` to `v`, in ascending order. -/
def fill (m : Mem) (p : Nat) (v : UInt8) : Nat → Mem
  | 0 => m
  | len + 1 => (m.store8 p v).fill (p + 1) v len

/-- Copy `len` bytes from `src` to `dst`, one byte at a time in ascending
order, each read from the memory the previous writes left. -/
def copy (m : Mem) (dst src : Nat) : Nat → Mem
  | 0 => m
  | len + 1 => (m.store8 dst (m.load8 src)).copy (dst + 1) (src + 1) len

/-- Store the bytes `u` from `p` on, in ascending order. -/
def storeBytes (m : Mem) (p : Nat) : List UInt8 → Mem
  | [] => m
  | c :: u => (m.store8 p c).storeBytes (p + 1) u

/-- `fill` writes its own range only. -/
theorem fill_apply_of_disjoint (v : UInt8) : ∀ (len : Nat) (m : Mem) (p x : Nat),
    p + len ≤ 2 ^ 32 → (x < p ∨ p + len ≤ x) → m.fill p v len x = m x := by
  intro len
  induction len with
  | zero => intro m p x _ _; rfl
  | succ len ih =>
    intro m p x hp hx
    rw [fill, ih _ (p + 1) x (by omega) (by omega),
      store8_apply_of_ne m v (by omega) (by omega)]

/-- `fill` sets every byte of its range. -/
theorem fill_apply (v : UInt8) : ∀ (len : Nat) (m : Mem) (p i : Nat),
    p + len ≤ 2 ^ 32 → i < len → m.fill p v len (p + i) = v := by
  intro len
  induction len with
  | zero => intro m p i _ hi; omega
  | succ len ih =>
    intro m p i hp hi
    rw [fill]
    cases i with
    | zero =>
      have hfirst := load8_store8_same m p v
      rw [load8_eq _ (by omega : p < 2 ^ 32)] at hfirst
      rw [Nat.add_zero, fill_apply_of_disjoint v len _ _ _ (by omega) (by omega)]
      exact hfirst
    | succ i =>
      rw [show p + (i + 1) = p + 1 + i by omega, ih _ _ _ (by omega) (by omega)]

/-- Filling changes nothing exactly if the range holds the value already. -/
theorem fill_eq_iff (v : UInt8) {len p : Nat} (m : Mem) (hp : p + len ≤ 2 ^ 32) :
    m.fill p v len = m ↔ ∀ i < len, m (p + i) = v := by
  constructor
  · intro h i hi
    rw [← h, fill_apply v len m p i hp hi]
  · intro h
    funext x
    by_cases hx : x < p ∨ p + len ≤ x
    · exact fill_apply_of_disjoint v len m p x hp hx
    · obtain ⟨i, rfl⟩ := Nat.exists_eq_add_of_le (by omega : p ≤ x)
      rw [fill_apply v len m p i hp (by omega), h i (by omega)]

/-- `copy` writes its destination range only. -/
theorem copy_apply_of_disjoint : ∀ (len : Nat) (m : Mem) (dst src x : Nat),
    dst + len ≤ 2 ^ 32 → (x < dst ∨ dst + len ≤ x) → m.copy dst src len x = m x := by
  intro len
  induction len with
  | zero => intro m dst src x _ _; rfl
  | succ len ih =>
    intro m dst src x hd hx
    rw [copy, ih _ (dst + 1) (src + 1) x (by omega) (by omega),
      store8_apply_of_ne m _ (by omega) (by omega)]

/-- `storeBytes` writes its own range only. -/
theorem storeBytes_apply_of_disjoint : ∀ (u : List UInt8) (m : Mem) (p x : Nat),
    p + u.length ≤ 2 ^ 32 → (x < p ∨ p + u.length ≤ x) → m.storeBytes p u x = m x := by
  intro u
  induction u with
  | nil => intro m p x _ _; rfl
  | cons c u ih =>
    intro m p x hp hx
    rw [List.length_cons] at hp hx
    rw [storeBytes, ih _ (p + 1) x (by omega) (by omega),
      store8_apply_of_ne m c (by omega) (by omega)]

/-- Between disjoint ranges `copy` reproduces the source in the destination. -/
theorem copy_apply : ∀ (len : Nat) (m : Mem) (dst src i : Nat),
    dst + len ≤ 2 ^ 32 → src + len ≤ 2 ^ 32 →
    (dst + len ≤ src ∨ src + len ≤ dst) → i < len →
    m.copy dst src len (dst + i) = m (src + i) := by
  intro len
  induction len with
  | zero => intro m dst src i _ _ _ hi; omega
  | succ len ih =>
    intro m dst src i hd hs hdis hi
    rw [copy]
    cases i with
    | zero =>
      have hfirst := load8_store8_same m dst (m.load8 src)
      rw [load8_eq _ (by omega : dst < 2 ^ 32)] at hfirst
      simp only [Nat.add_zero]
      rw [copy_apply_of_disjoint len _ _ _ _ (by omega) (by omega), hfirst,
        load8_eq _ (by omega : src < 2 ^ 32)]
    | succ i =>
      have hrest := ih (m.store8 dst (m.load8 src)) (dst + 1) (src + 1) i
        (by omega) (by omega) (by omega) (by omega)
      rw [show dst + (i + 1) = dst + 1 + i by omega, hrest,
        store8_apply_of_ne m _ (by omega) (by omega)]
      congr 1
      omega

end Mem

end Microboot.Foundation
