/-
  Foundation/Device.lean --- programs that run against a device.

  A device's state is opaque to the program, changes with every access, and an
  access may fail.  `DevM σ α` is a program over a device state `σ` that either
  returns an `α` or never returns (it faults, or loops for ever).  `Returns x a`
  says that `x` returns `a` whatever state the device is in; it is closed under
  sequencing, so what a program returns on a device that answers every access
  from fixed contents is computed without a word about the device's state.
  `Yields x Q` is the weaker statement, for a device that does not always answer
  alike: `x` returns, and what it returns satisfies `Q`.  `Keeps f x` says what `x`
  does not touch.

  The second half has the one fact about data laid out in blocks of one size
  that reading it block by block needs: dropping whole blocks of the
  concatenation is dropping them from the list.
-/
import Mathlib.Data.List.Basic

set_option autoImplicit false

namespace Microboot.Foundation

/-! ## Programs over a device state -/

/-- A program that runs against a device with state `σ`; `none` if it never
returns. -/
abbrev DevM (σ α : Type) : Type := StateT σ Option α

/-- Behind a part that returns, a program goes on from the state that it left. -/
theorem bind_run {σ α β : Type} {x : DevM σ α} {f : α → DevM σ β} {a : α} {s s₁ : σ}
    (hx : x s = some (a, s₁)) : (x >>= f) s = f a s₁ := by
  change (x s >>= fun p => f p.1 p.2) = _
  rw [hx]
  rfl

/-- A sequence that returns has parts that return. -/
theorem exists_of_bind_run {σ α β : Type} {x : DevM σ α} {f : α → DevM σ β} {b : β} {s s' : σ}
    (h : (x >>= f) s = some (b, s')) : ∃ a s₁, x s = some (a, s₁) ∧ f a s₁ = some (b, s') := by
  obtain ⟨⟨a, s₁⟩, hx, hf⟩ := Option.bind_eq_some_iff.mp h
  exact ⟨a, s₁, hx, hf⟩

/-- `x` returns `a` in every state of the device. -/
def Returns {σ α : Type} (x : DevM σ α) (a : α) : Prop :=
  ∀ s, ∃ s', x s = some (a, s')

namespace Returns

variable {σ α β : Type}

theorem pure (a : α) : Returns (Pure.pure a : DevM σ α) a := fun s => ⟨s, rfl⟩

/-- What a sequence returns is what its second part returns on the result of the
first. -/
theorem bind {x : DevM σ α} {f : α → DevM σ β} {a : α} {b : β} (hx : Returns x a)
    (hf : Returns (f a) b) : Returns (x >>= f) b := by
  intro s
  obtain ⟨s₁, h₁⟩ := hx s
  obtain ⟨s₂, h₂⟩ := hf s₁
  exact ⟨s₂, (bind_run h₁).trans h₂⟩

/-- A program returns at most one value. -/
theorem unique [Nonempty σ] {x : DevM σ α} {a b : α} (ha : Returns x a) (hb : Returns x b) :
    a = b := by
  obtain ⟨s⟩ := ‹Nonempty σ›
  obtain ⟨s₁, h₁⟩ := ha s
  obtain ⟨s₂, h₂⟩ := hb s
  rw [h₁] at h₂
  cases h₂
  rfl

end Returns

/-- `x` returns in every state of the device. -/
def Total {σ α : Type} (x : DevM σ α) : Prop := ∀ s, ∃ a s', x s = some (a, s')

namespace Total

variable {σ α β : Type}

theorem pure (a : α) : Total (Pure.pure a : DevM σ α) := fun s => ⟨a, s, rfl⟩

theorem bind {x : DevM σ α} {f : α → DevM σ β} (hx : Total x) (hf : ∀ a, Total (f a)) :
    Total (x >>= f) := by
  intro s
  obtain ⟨a, s₁, h₁⟩ := hx s
  obtain ⟨b, s₂, h₂⟩ := hf a s₁
  exact ⟨b, s₂, (bind_run h₁).trans h₂⟩

end Total

/-- In every state of the device `x` returns, and what it returns satisfies `Q`. -/
def Yields {σ α : Type} (x : DevM σ α) (Q : α → Prop) : Prop :=
  ∀ s, ∃ a s', x s = some (a, s') ∧ Q a

namespace Yields

variable {σ α β : Type} {Q : α → Prop} {R : β → Prop}

theorem pure {a : α} (ha : Q a) : Yields (Pure.pure a : DevM σ α) Q := fun s => ⟨a, s, rfl, ha⟩

theorem bind {x : DevM σ α} {f : α → DevM σ β} (hx : Yields x Q)
    (hf : ∀ a, Q a → Yields (f a) R) : Yields (x >>= f) R := by
  intro s
  obtain ⟨a, s₁, h₁, ha⟩ := hx s
  obtain ⟨b, s₂, h₂, hb⟩ := hf a ha s₁
  exact ⟨b, s₂, (bind_run h₁).trans h₂, hb⟩

theorem mono {Q' : α → Prop} {x : DevM σ α} (hx : Yields x Q) (hQ : ∀ a, Q a → Q' a) :
    Yields x Q' := by
  intro s
  obtain ⟨a, s', hrun, ha⟩ := hx s
  exact ⟨a, s', hrun, hQ a ha⟩

end Yields

/-- When `x` returns, the part `f` of the state is as it was. -/
def Keeps {σ α β : Type} (f : σ → β) (x : DevM σ α) : Prop :=
  ∀ s a s', x s = some (a, s') → f s' = f s

namespace Keeps

variable {σ α β γ : Type} {f : σ → γ}

theorem pure (a : α) : Keeps f (Pure.pure a : DevM σ α) := by
  intro s b s' hrun
  cases hrun
  rfl

theorem bind {x : DevM σ α} {g : α → DevM σ β} (hx : Keeps f x) (hg : ∀ a, Keeps f (g a)) :
    Keeps f (x >>= g) := by
  intro s b s' hrun
  obtain ⟨a, s₁, hfirst, hrest⟩ := exists_of_bind_run hrun
  exact (hg a s₁ b s' hrest).trans (hx s a s₁ hfirst)

end Keeps

/-! ## Data in blocks of one size -/

section Blocks

variable {α β : Type} {f : α → List β} {size : Nat}

theorem length_flatMap_blocks {l : List α} (h : ∀ a ∈ l, (f a).length = size) :
    (l.flatMap f).length = l.length * size := by
  induction l with
  | nil => simp
  | cons a l ih =>
    rw [List.flatMap_cons, List.length_append, h a (by simp),
      ih fun b hb => h b (by simp [hb]), List.length_cons, Nat.add_mul, Nat.one_mul,
      Nat.add_comm]

/-- Dropping `i` whole blocks of the data drops the first `i` blocks. -/
theorem drop_flatMap_blocks {l : List α} (h : ∀ a ∈ l, (f a).length = size) (i : Nat) :
    (l.flatMap f).drop (i * size) = (l.drop i).flatMap f := by
  induction i generalizing l with
  | zero => simp
  | succ i ih =>
    cases l with
    | nil => simp
    | cons a l =>
      have hlen := h a (by simp)
      have hdrop : (f a ++ l.flatMap f).drop ((i + 1) * size) = (l.flatMap f).drop (i * size) := by
        rw [Nat.add_mul, Nat.one_mul, Nat.add_comm, ← List.drop_drop, List.drop_left' hlen]
      rw [List.flatMap_cons, hdrop, ih fun b hb => h b (by simp [hb]), List.drop_succ_cons]

/-- Taking `i` whole blocks and some more of the data. -/
theorem take_flatMap_blocks {l : List α} (h : ∀ a ∈ l, (f a).length = size) {i : Nat}
    (hi : i ≤ l.length) (k : Nat) :
    (l.flatMap f).take (i * size + k) =
      (l.take i).flatMap f ++ ((l.drop i).flatMap f).take k := by
  have hlen : ((l.take i).flatMap f).length = i * size := by
    rw [length_flatMap_blocks fun a ha => h a (List.mem_of_mem_take ha), List.length_take,
      Nat.min_eq_left hi]
  calc (l.flatMap f).take (i * size + k)
      = ((l.take i).flatMap f ++ (l.drop i).flatMap f).take (i * size + k) := by
        rw [← List.flatMap_append, List.take_append_drop]
    _ = (l.take i).flatMap f ++ ((l.drop i).flatMap f).take k := by
        rw [List.take_append, hlen, Nat.add_sub_cancel_left,
          List.take_of_length_le (by rw [hlen]; exact Nat.le_add_right _ _)]

/-- From an offset on, the data is the rest of the block the offset is in, and
the blocks behind it. -/
theorem drop_flatMap_blocks_of_cons {l : List α} (h : ∀ a ∈ l, (f a).length = size)
    {o : Nat} {a : α} {as : List α} (hdrop : l.drop (o / size) = a :: as)
    (hsize : 0 < size) :
    (l.flatMap f).drop o = (f a).drop (o % size) ++ as.flatMap f := by
  have ha : a ∈ l := List.mem_of_mem_drop (i := o / size) (by rw [hdrop]; simp)
  calc (l.flatMap f).drop o
      = ((l.flatMap f).drop (o / size * size)).drop (o % size) := by
        rw [List.drop_drop, Nat.div_add_mod' o size]
    _ = (f a ++ as.flatMap f).drop (o % size) := by
        rw [drop_flatMap_blocks h, hdrop, List.flatMap_cons]
    _ = (f a).drop (o % size) ++ as.flatMap f := by
        rw [List.drop_append_of_le_length]
        rw [h a ha]
        exact Nat.le_of_lt (Nat.mod_lt o hsize)

end Blocks

end Microboot.Foundation
