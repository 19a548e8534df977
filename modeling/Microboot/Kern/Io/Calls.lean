/-
  Kern/Io/Calls.lean --- what console.c does with a driver's state, whatever the
  driver.

  console.c reaches the driver's state only through the table of operations: what
  every operation keeps, `console_putc` keeps up to its last call, which is always
  `set_cursor`; and where no operation fails, only an assertion of `console_erase`
  does.
-/
import Microboot.Kern.Io.Console

set_option autoImplicit false

namespace Microboot.Kern.Io

open Microboot.Foundation

variable {π : Type} {ops : ConsoleOps π} {P : π → Prop} {con con' : Console π}

/-! ## What is kept -/

/-- The drawing operations keep `P`. -/
structure Keeps (ops : ConsoleOps π) (P : π → Prop) : Prop where
  putXy : ∀ (con : Console π) {x y : Int} {c : UInt8} {p : π}, P con.priv →
    ops.putXy con x y c = .ok p → P p
  scroll : ∀ (con : Console π) {p : π}, P con.priv → ops.scroll con = .ok p → P p
  invalidate : ∀ (con : Console π) {x y a b : Int} {p : π}, P con.priv →
    ops.invalidate con x y a b = .ok p → P p

/-- A driver's `scroll` keeps `P` in the row clear it ends with. -/
theorem consoleClearRow_keeps {putXy : Console π → Int → Int → UInt8 → Except Fault π}
    {invalidate : Console π → Int → Int → Int → Int → Except Fault π} {row : Int} {p : π}
    (h : consoleClearRow putXy invalidate con row = .ok p) (hP : P con.priv)
    (hput : ∀ (con : Console π) {x y : Int} {c : UInt8} {p : π}, P con.priv →
      putXy con x y c = .ok p → P p)
    (hflush : ∀ (con : Console π) {x y a b : Int} {p : π}, P con.priv →
      invalidate con x y a b = .ok p → P p) : P p := by
  obtain ⟨p₁, hrow, hlast⟩ := bind_eq_ok h
  exact hflush { con with priv := p₁ }
    (forUptoM_inv P hP (fun _ t _ ht => hput { con with priv := t } ht) hrow) hlast

theorem consoleDraw_keeps (K : Keeps ops P) (con : Console π) {c : UInt8} (hP : P con.priv)
    (h : consoleDraw ops con c = .ok con') : P con'.priv := by
  obtain ⟨con₁, hput, hflush⟩ := bind_eq_ok h
  obtain ⟨p, hp, rfl⟩ := Console.after_eq_ok hput
  obtain ⟨p', hp', rfl⟩ := Console.after_eq_ok hflush
  exact K.invalidate _ (K.putXy con hP hp) hp'

theorem consoleNextRow_keeps (K : Keeps ops P) (con : Console π) (hP : P con.priv)
    (h : consoleNextRow ops con = .ok con') : P con'.priv := by
  simp only [consoleNextRow] at h
  split at h
  · obtain ⟨con₁, hscroll, hflush⟩ := bind_eq_ok h
    obtain ⟨p, hp, rfl⟩ := Console.after_eq_ok hscroll
    obtain ⟨p', hp', rfl⟩ := Console.after_eq_ok hflush
    exact K.invalidate _ (K.scroll { con with xPos := 0, yPos := con.yPos + 1 - 1 } hP hp) hp'
  · cases h
    exact hP

theorem consoleErase_keeps (K : Keeps ops P) (con : Console π) (hP : P con.priv)
    (h : consoleErase ops con = .ok con') : P con'.priv := by
  rw [consoleErase] at h
  split at h
  · exact consoleDraw_keeps K { con with xPos := con.xPos - 1 } hP h
  · obtain ⟨_, -, h⟩ := bind_eq_ok h
    obtain ⟨_, -, h⟩ := bind_eq_ok h
    exact consoleDraw_keeps K { con with yPos := con.yPos - 1, xPos := con.width - 1 } hP h

/-- `console_putc` keeps `P` until it sets the cursor, which it does last. -/
theorem consolePutc_keeps (K : Keeps ops P) {c : UInt8} (hP : P con.priv)
    (h : consolePutc ops con c = .ok con') :
    ∃ con₁, P con₁.priv ∧ consoleShowCursor ops con₁ = .ok con' := by
  rw [consolePutc] at h
  split at h
  · obtain ⟨con₁, hnext, hshow⟩ := bind_eq_ok h
    exact ⟨con₁, consoleNextRow_keeps K con hP hnext, hshow⟩
  · split at h
    · obtain ⟨con₁, herase, hshow⟩ := bind_eq_ok h
      exact ⟨con₁, consoleErase_keeps K con hP herase, hshow⟩
    · split at h
      · exact ⟨{ con with xPos := 0 }, hP, h⟩
      · obtain ⟨con₁, hdraw, h⟩ := bind_eq_ok h
        have hP₁ := consoleDraw_keeps K con hP hdraw
        simp only at h
        split at h
        · obtain ⟨con₂, hnext, hshow⟩ := bind_eq_ok h
          exact ⟨con₂, consoleNextRow_keeps K { con₁ with xPos := con₁.xPos + 1 } hP₁ hnext, hshow⟩
        · exact ⟨{ con₁ with xPos := con₁.xPos + 1 }, hP₁, h⟩

theorem consoleClear_keeps (K : Keeps ops P)
    (hclear : ∀ {con : Console π} {p : π}, P con.priv → ops.clear con = .ok p → P p)
    (hP : P con.priv) (h : consoleClear ops con = .ok con') : P con'.priv := by
  obtain ⟨con₁, hblank, h⟩ := bind_eq_ok h
  obtain ⟨p, hp, rfl⟩ := Console.after_eq_ok hblank
  obtain ⟨con₂, hcl, h⟩ := bind_eq_ok h
  obtain ⟨p₂, hp₂, rfl⟩ := Console.after_eq_ok hcl
  obtain ⟨con₃, hflush, h⟩ := bind_eq_ok h
  obtain ⟨p₃, hp₃, rfl⟩ := Console.after_eq_ok hflush
  cases h
  have hPp : P p := forUptoM_inv P hP
    (fun y t t' ht hrow => forUptoM_inv P ht (fun x u u' hu hput => K.putXy _ hu hput) hrow) hp
  exact K.invalidate _ (hclear hPp hp₂) hp₃

/-! ## What fails -/

/-- No operation fails. -/
structure Total (ops : ConsoleOps π) : Prop where
  putXy : ∀ con x y c, ∃ p, ops.putXy con x y c = .ok p
  setCursor : ∀ con x y, ∃ p, ops.setCursor con x y = .ok p
  scroll : ∀ con, ∃ p, ops.scroll con = .ok p
  invalidate : ∀ con x y a b, ∃ p, ops.invalidate con x y a b = .ok p
  clear : ∀ con, ∃ p, ops.clear con = .ok p

theorem Total.after {con : Console π} {r : Except Fault π} (h : ∃ p, r = .ok p) :
    ∃ con', con.after r = .ok con' := by
  obtain ⟨p, rfl⟩ := h
  exact ⟨_, rfl⟩

/-- A sequence of parts that return returns. -/
theorem bind_returns {α β : Type} {x : Except Fault α} {f : α → Except Fault β}
    (hx : ∃ a, x = .ok a) (hf : ∀ a, ∃ b, f a = .ok b) : ∃ b, (x >>= f) = .ok b := by
  obtain ⟨a, rfl⟩ := hx
  exact hf a

theorem consoleNextRow_total (T : Total ops) (con : Console π) :
    ∃ con', consoleNextRow ops con = .ok con' := by
  simp only [consoleNextRow]
  split
  · exact bind_returns (Total.after (T.scroll _)) fun _ => Total.after (T.invalidate _ _ _ _ _)
  · exact ⟨_, rfl⟩

/-- A row clear returns if the two operations it calls do. -/
theorem consoleClearRow_total {putXy : Console π → Int → Int → UInt8 → Except Fault π}
    {invalidate : Console π → Int → Int → Int → Int → Except Fault π}
    (hput : ∀ con x y c, ∃ p, putXy con x y c = .ok p)
    (hflush : ∀ con x y a b, ∃ p, invalidate con x y a b = .ok p) (con : Console π) (row : Int) :
    ∃ p, consoleClearRow putXy invalidate con row = .ok p := by
  obtain ⟨p, hp, -⟩ := forUptoM_ok (n := con.width.toNat) (s := con.priv)
    (f := fun x priv => putXy { con with priv := priv } x row space) (fun _ _ => True) trivial
    fun x _ t _ => (hput { con with priv := t } x row space).imp fun _ h => ⟨h, trivial⟩
  rw [consoleClearRow, hp]
  exact hflush _ _ _ _ _

theorem consoleDraw_total (T : Total ops) (con : Console π) (c : UInt8) :
    ∃ con', consoleDraw ops con c = .ok con' :=
  bind_returns (Total.after (T.putXy _ _ _ _)) fun _ => Total.after (T.invalidate _ _ _ _ _)

/-- `console_erase` returns if there is a cell to step back to. -/
theorem consoleErase_total (T : Total ops) (hback : 0 < con.xPos ∨ con.xPos = 0 ∧ 0 < con.yPos) :
    ∃ con', consoleErase ops con = .ok con' := by
  rw [consoleErase]
  split
  · exact consoleDraw_total T _ space
  · rw [require_of _ (by omega), require_of _ (by omega)]
    exact consoleDraw_total T _ space

theorem consolePutc_total (T : Total ops) (con : Console π) (c : UInt8)
    (hback : c = backspace → 0 < con.xPos ∨ con.xPos = 0 ∧ 0 < con.yPos) :
    ∃ con', consolePutc ops con c = .ok con' := by
  have hshow : ∀ con, ∃ con', consoleShowCursor ops con = .ok con' := fun con =>
    Total.after (T.setCursor con con.xPos con.yPos)
  rw [consolePutc]
  split
  · exact bind_returns (consoleNextRow_total T con) hshow
  · split
    next hbs => exact bind_returns (consoleErase_total T (hback hbs)) hshow
    next =>
      split
      · exact hshow _
      · refine bind_returns (consoleDraw_total T con c) fun con₁ => ?_
        simp only
        split
        · exact bind_returns (consoleNextRow_total T _) hshow
        · exact hshow _

/-- `console_clear` returns. -/
theorem consoleClear_total (T : Total ops) (con : Console π) :
    ∃ con', consoleClear ops con = .ok con' := by
  have hblank : ∃ p, consoleBlank ops con = .ok p := by
    obtain ⟨p, hp, -⟩ := forUptoM_grid_ok (s := con.priv) (h := con.height.toNat)
      (w := con.width.toNat)
      (f := fun y x priv => ops.putXy { con with priv := priv } x y space)
      (fun _ _ _ => True) trivial
      (fun y x _ _ t _ => (T.putXy { con with priv := t } x y space).imp fun _ h => ⟨h, trivial⟩)
      fun _ _ _ _ => trivial
    exact ⟨p, hp⟩
  refine bind_returns (Total.after hblank) fun _ => bind_returns (Total.after (T.clear _)) fun _ =>
    bind_returns (Total.after (T.invalidate _ _ _ _ _)) fun _ => ⟨_, rfl⟩

/-- A backspace in the first cell fails an assertion, whatever the driver. -/
theorem consolePutc_origin (ops : ConsoleOps π) (hx : con.xPos = 0) (hy : con.yPos = 0) :
    consolePutc ops con backspace = .error (.assert "Zero con->y_pos on erase") := by
  rw [consolePutc, if_neg (by decide), if_pos rfl, consoleErase, if_neg (by omega),
    require_of _ hx, require, if_neg (by omega)]
  rfl

end Microboot.Kern.Io
