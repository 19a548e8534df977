/-
  Foundation/Blits.lean --- copying some of the bytes of a buffer.

  `Blits x dst src T a` says that the program `x` copies the bytes at the offsets `T`
  from one buffer to the other: it accesses no others, changes no others, and each of
  the bytes at the destination is the one of the source, if no byte is both.  Which
  offsets these are may have any shape, a range, a rectangle or single bytes; programs
  that are run one after the other copy the offsets of both.
-/
import Microboot.Foundation.Moves

set_option autoImplicit false

namespace Microboot.Foundation

/-- No offset of the source is one of the destination. -/
def OffsetsApart (dst src : Nat) (T : Nat → Prop) : Prop :=
  ∀ t t', T t → T t' → wrap (src + t) ≠ wrap (dst + t')

/-- The bytes at the offsets `T` were copied, and no others changed. -/
structure Blitted (dst src : Nat) (T : Nat → Prop) (m m' : Mem) : Prop where
  keeps : ∀ y, (∀ t, T t → y ≠ wrap (dst + t)) → m' y = m y
  copies : OffsetsApart dst src T → ∀ t, T t → m' (wrap (dst + t)) = m (wrap (src + t))

section Copied

variable {dst src n : Nat} {T : Nat → Prop} {m m' m'' : Mem}

/-- Offsets in two buffers that are apart. -/
theorem Movable.offsetsApart (h : Movable dst src n) (hT : ∀ t, T t → t < n) :
    OffsetsApart dst src T := by
  obtain ⟨hdst, hsrc, hapart⟩ := h
  intro t t' ht ht'
  have hlt := hT t ht
  have hlt' := hT t' ht'
  rw [wrap_eq (by omega), wrap_eq (by omega)]
  omega

namespace Blitted

/-- Which bytes are copied says all of what is left. -/
theorem unique (hapart : OffsetsApart dst src T) (h' : Blitted dst src T m m')
    (h'' : Blitted dst src T m m'') : m' = m'' := by
  funext z
  by_cases hz : ∃ t, T t ∧ z = wrap (dst + t)
  · obtain ⟨t, ht, rfl⟩ := hz
    rw [h'.copies hapart t ht, h''.copies hapart t ht]
  · have hout : ∀ t, T t → z ≠ wrap (dst + t) := fun t ht heq => hz ⟨t, ht, heq⟩
    rw [h'.keeps z hout, h''.keeps z hout]

/-- A byte behind or in front of the buffer. -/
theorem outside (h : Blitted dst src T m m') (hdst : dst + n ≤ 2 ^ 32) (hT : ∀ t, T t → t < n)
    {z : Nat} (hz : ¬ Region.Has ⟨dst, n⟩ z) : m' z = m z := by
  refine h.keeps z fun t ht heq => hz ?_
  have hlt := hT t ht
  rw [wrap_eq (by omega)] at heq
  exact And.intro (show dst ≤ z by omega) (show z < dst + n by omega)

end Blitted

end Copied

/-- The program returns `a`.  It copies the bytes at the offsets `T`, and accesses nothing
else. -/
def Blits {α : Type} (x : DevM Logged α) (dst src : Nat) (T : Nat → Prop) (a : α) : Prop :=
  ∀ w, ∃ m' new, x w = some (a, ⟨m', w.log ++ new⟩) ∧
    (∀ e ∈ new, ∃ t, T t ∧ (e = .read (src + t) ∨ e = .write (dst + t))) ∧
    Blitted dst src T w.mem m'

namespace Blits

variable {α β : Type} {x : DevM Logged α} {f : α → DevM Logged β} {dst src o n : Nat}
  {T T' : Nat → Prop} {a : α} {b : β}

theorem pure (dst src : Nat) (a : α) : Blits (Pure.pure a) dst src (fun _ => False) a := by
  intro w
  refine ⟨w.mem, [], ?_, by simp, fun _ _ => rfl, fun _ _ h => h.elim⟩
  rw [List.append_nil]
  rfl

theorem congr (hx : Blits x dst src T a) (h : ∀ t, T t ↔ T' t) : Blits x dst src T' a := by
  obtain rfl : T = T' := funext fun t => propext (h t)
  exact hx

/-- One byte. -/
theorem byte (dst src t : Nat) :
    Blits (readByte (src + t) >>= writeByte (dst + t)) dst src (· = t) () := by
  intro w
  refine ⟨w.mem.store8 (dst + t) (w.mem.load8 (src + t)), [.read (src + t), .write (dst + t)],
    ?_, by simp, fun y hy => if_neg (hy t rfl), fun _ t' ht' => ?_⟩
  · rw [readByte_bind, writeByte, List.append_assoc]
    rfl
  · obtain rfl : t' = t := ht'
    exact if_pos rfl

/-- A copy of a part. -/
theorem of_copies (hx : Copies x (dst + o) (src + o) n a) (hdst : dst + o + n ≤ 2 ^ 32)
    (hsrc : src + o + n ≤ 2 ^ 32) : Blits x dst src (fun t => o ≤ t ∧ t < o + n) a := by
  intro w
  obtain ⟨m', new, hrun, hnew, -, hkeep, hcopy⟩ := hx w
  refine ⟨m', new, hrun, fun e he => ?_, fun y hy => ?_, fun hapart t ⟨hlow, hhigh⟩ => ?_⟩
  · cases e with
    | read p =>
      obtain ⟨hstart, hend⟩ := hnew _ he
      dsimp only at hstart hend
      exact ⟨p - src, by omega, .inl (congrArg Access.read (by omega))⟩
    | write p =>
      obtain ⟨hstart, hend⟩ := hnew _ he
      dsimp only at hstart hend
      exact ⟨p - dst, by omega, .inr (congrArg Access.write (by omega))⟩
  · refine hkeep y fun i hi => ?_
    rw [Nat.add_assoc]
    exact hy (o + i) (by omega)
  · -- the first byte of the part that is behind would be in the other part
    have hmove : Movable (dst + o) (src + o) n := by
      refine ⟨hdst, hsrc, ?_⟩
      by_contra hover
      rcases Nat.le_total src dst with hle | hle
      · refine hapart (o + (dst - src)) o (by omega) (by omega) (congrArg wrap ?_)
        omega
      · refine hapart o (o + (src - dst)) (by omega) (by omega) (congrArg wrap ?_)
        omega
    have hbyte := hmove.contents (m := w.mem) |>.1 (t - o) (by omega)
    rw [hcopy hmove, wrap_eq (by omega), wrap_eq (by omega)]
    rwa [Nat.add_assoc, Nat.add_sub_cancel' hlow, Nat.add_assoc, Nat.add_sub_cancel' hlow] at hbyte

/-- Two programs one after the other. -/
theorem bind (hx : Blits x dst src T a) (hf : Blits (f a) dst src T' b) :
    Blits (x >>= f) dst src (fun t => T t ∨ T' t) b := by
  intro w
  obtain ⟨m₁, front, hrun₁, hfront, hkeep₁, hcopy₁⟩ := hx w
  obtain ⟨m₂, rest, hrun₂, hrest, hkeep₂, hcopy₂⟩ := hf ⟨m₁, w.log ++ front⟩
  refine ⟨m₂, front ++ rest, ?_, fun e he => ?_, fun y hy => ?_, fun hapart t ht => ?_⟩
  · rw [bind_run hrun₁, hrun₂, List.append_assoc]
  · rcases List.mem_append.mp he with he | he
    · obtain ⟨t, ht, hacc⟩ := hfront e he
      exact ⟨t, .inl ht, hacc⟩
    · obtain ⟨t, ht, hacc⟩ := hrest e he
      exact ⟨t, .inr ht, hacc⟩
  · exact (hkeep₂ y fun t ht => hy t (.inr ht)).trans (hkeep₁ y fun t ht => hy t (.inl ht))
  · -- the sources of the second program are as they were
    have hsource : ∀ t', T t' ∨ T' t' → m₁ (wrap (src + t')) = w.mem (wrap (src + t')) :=
      fun t' ht' => hkeep₁ _ fun t₁ ht₁ => hapart t' t₁ ht' (.inl ht₁)
    by_cases hagain : ∃ t', T' t' ∧ wrap (dst + t') = wrap (dst + t)
    · obtain ⟨t', ht', hsame⟩ := hagain
      have hsame' : wrap (src + t') = wrap (src + t) := by
        unfold wrap at hsame ⊢
        omega
      rw [← hsame, hcopy₂ (fun t₁ t₂ h₁ h₂ => hapart t₁ t₂ (.inr h₁) (.inr h₂)) t' ht', ← hsame']
      exact hsource t' (.inr ht')
    · have hfirst : T t := ht.resolve_right fun ht' => hagain ⟨t, ht', rfl⟩
      rw [hkeep₂ _ fun t' ht' hsame => hagain ⟨t', ht', hsame.symm⟩]
      exact hcopy₁ (fun t₁ t₂ h₁ h₂ => hapart t₁ t₂ (.inl h₁) (.inl h₂)) t hfirst

/-- What it leaves on a memory, and which accesses it makes. -/
theorem leaves {P : Access → Prop} (hx : Blits x dst src T a) (hapart : OffsetsApart dst src T)
    (hP : ∀ t, T t → P (.read (src + t)) ∧ P (.write (dst + t))) (m : Mem) :
    ∃ m', Blitted dst src T m m' ∧ Leaves P x m a m' := by
  obtain ⟨m', -, -, -, hblit⟩ := hx ⟨m, []⟩
  refine ⟨m', hblit, fun log => ?_⟩
  obtain ⟨m'', new, hrun, hnew, hblit'⟩ := hx ⟨m, log⟩
  obtain rfl : m' = m'' := hblit.unique hapart hblit'
  refine ⟨new, hrun, fun e he => ?_⟩
  obtain ⟨t, ht, rfl | rfl⟩ := hnew e he
  · exact (hP t ht).1
  · exact (hP t ht).2

/-- A loop: the offsets of its rounds. -/
theorem rounds (loop : Nat → Nat → DevM Logged Unit) (round : Nat → DevM Logged Unit)
    {R : Nat → Nat → Prop} (hzero : ∀ s, loop 0 s = Pure.pure ())
    (hsucc : ∀ n s, loop (n + 1) s = round s >>= fun _ => loop n (s + 1)) {n s : Nat}
    (hround : ∀ k, s ≤ k → k < s + n → Blits (round k) dst src (R k) ()) :
    Blits (loop n s) dst src (fun t => ∃ k, s ≤ k ∧ k < s + n ∧ R k t) () := by
  induction n generalizing s with
  | zero =>
    rw [hzero]
    refine (pure dst src ()).congr fun t => ⟨False.elim, ?_⟩
    rintro ⟨k, hlow, hhigh, -⟩
    omega
  | succ n ih =>
    have hrest := ih (s := s + 1) fun k hlow hhigh => hround k (by omega) (by omega)
    rw [hsucc]
    refine (bind (hround s (Nat.le_refl s) (by omega)) hrest).congr fun t => ?_
    constructor
    · rintro (h | ⟨k, hlow, hhigh, h⟩)
      · exact ⟨s, Nat.le_refl s, by omega, h⟩
      · exact ⟨k, by omega, by omega, h⟩
    · rintro ⟨k, hlow, hhigh, h⟩
      rcases Nat.eq_or_lt_of_le hlow with rfl | hlt
      · exact .inl h
      · exact .inr ⟨k, hlt, by omega, h⟩

end Blits

end Microboot.Foundation
