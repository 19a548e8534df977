/-
  Foundation/Trace.lean --- programs that leave a log of what they access.

  The state of a program keeps a log; `log` reads it.  `Issues` bounds what a
  program adds to its log, together with what it returns, so that the bound of a
  program is put together from the bounds of its parts.

  A program that can stop keeps the log it has made until then: `IssuesUntil` is
  the bound for such a program, whether it returns or stops.  That it does return,
  and in which state, is said of one state by `ReturnsIn`; `EndsIn` says what
  is left if it returns, and for which reasons it may stop.
-/
import Microboot.Foundation.Device

set_option autoImplicit false

namespace Microboot.Foundation

variable {ω ε φ α β : Type} {log : ω → List ε} {P : ε → Prop} {Q : α → Prop} {R : β → Prop}

/-! ## Programs that return -/

/-- When `x` returns, all that it has added to the log satisfies `P`, and what it
returns satisfies `Q`. -/
def Issues (log : ω → List ε) (P : ε → Prop) (x : DevM ω α) (Q : α → Prop) : Prop :=
  ∀ w a w', x w = some (a, w') → (∃ new, log w' = log w ++ new ∧ ∀ e ∈ new, P e) ∧ Q a

namespace Issues

theorem pure {a : α} (ha : Q a) : Issues log P (Pure.pure a) Q := by
  intro w b w' hx
  cases hx
  exact ⟨⟨[], by simp, by simp⟩, ha⟩

/-- A step that adds one access. -/
theorem one {x : DevM ω α}
    (hx : ∀ w a w', x w = some (a, w') → (∃ e, log w' = log w ++ [e] ∧ P e) ∧ Q a) :
    Issues log P x Q := by
  intro w a w' hw
  obtain ⟨⟨e, hlog, he⟩, ha⟩ := hx w a w' hw
  exact ⟨⟨[e], hlog, by simpa using he⟩, ha⟩

/-- A step that leaves the log alone. -/
theorem quiet {x : DevM ω α} (hx : ∀ w a w', x w = some (a, w') → log w' = log w ∧ Q a) :
    Issues log P x Q := by
  intro w a w' hw
  obtain ⟨hlog, ha⟩ := hx w a w' hw
  exact ⟨⟨[], by simpa using hlog, by simp⟩, ha⟩

theorem bind {x : DevM ω α} {f : α → DevM ω β} (hx : Issues log P x Q)
    (hf : ∀ a, Q a → Issues log P (f a) R) : Issues log P (x >>= f) R := by
  intro w b w' hw
  obtain ⟨⟨a, w₁⟩, hfirst, hrest⟩ := Option.bind_eq_some_iff.mp hw
  obtain ⟨⟨new, hlog, hnew⟩, ha⟩ := hx w a w₁ hfirst
  obtain ⟨⟨new', hlog', hnew'⟩, hb⟩ := hf a ha w₁ b w' hrest
  refine ⟨⟨new ++ new', by rw [hlog', hlog, List.append_assoc], fun e he => ?_⟩, hb⟩
  rcases List.mem_append.mp he with hmem | hmem
  · exact hnew e hmem
  · exact hnew' e hmem

/-- What a program returns may be forgotten. -/
theorem mono {Q' : α → Prop} {x : DevM ω α} (hx : Issues log P x Q) (hQ : ∀ a, Q a → Q' a) :
    Issues log P x Q' := by
  intro w a w' hw
  obtain ⟨hlog, ha⟩ := hx w a w' hw
  exact ⟨hlog, hQ a ha⟩

end Issues

/-! ## Programs that stop -/

/-- The result, if there is one, satisfies `Q`. -/
def OkIf (Q : α → Prop) : Except φ α → Prop
  | .ok a => Q a
  | .error _ => True

/-- Whether `x` returns or stops, all that it has added to the log satisfies `P`;
if it returns, what it returns satisfies `Q`. -/
def IssuesUntil (log : ω → List ε) (P : ε → Prop) (x : ExceptT φ (DevM ω) α) (Q : α → Prop) :
    Prop :=
  Issues log P x.run (OkIf Q)

namespace IssuesUntil

theorem pure {a : α} (ha : Q a) : IssuesUntil log P (Pure.pure a : ExceptT φ (DevM ω) α) Q :=
  Issues.pure ha

theorem stop (stopped : φ) : IssuesUntil log P (throw stopped : ExceptT φ (DevM ω) α) Q :=
  Issues.pure trivial

/-- A program that leaves the log alone, returning or stopping. -/
theorem quiet {x : ExceptT φ (DevM ω) α}
    (hx : ∀ w result w', x.run w = some (result, w') → log w' = log w) :
    IssuesUntil log P x fun _ => True := by
  refine Issues.quiet fun w result w' hw => ⟨hx w result w' hw, ?_⟩
  cases result with
  | ok a => trivial
  | error stopped => trivial

theorem lift {x : DevM ω α} (hx : Issues log P x Q) :
    IssuesUntil log P (ExceptT.lift x : ExceptT φ (DevM ω) α) Q := by
  change Issues log P (Except.ok <$> x) (OkIf Q)
  rw [← bind_pure_comp]
  exact Issues.bind hx fun _ ha => Issues.pure ha

theorem bind {x : ExceptT φ (DevM ω) α} {f : α → ExceptT φ (DevM ω) β}
    (hx : IssuesUntil log P x Q) (hf : ∀ a, Q a → IssuesUntil log P (f a) R) :
    IssuesUntil log P (x >>= f) R := by
  refine Issues.bind hx fun result hresult => ?_
  cases result with
  | ok a => exact hf a hresult
  | error stopped => exact Issues.pure trivial

theorem mono {Q' : α → Prop} {x : ExceptT φ (DevM ω) α} (hx : IssuesUntil log P x Q)
    (hQ : ∀ a, Q a → Q' a) : IssuesUntil log P x Q' := by
  refine Issues.mono hx fun result hresult => ?_
  cases result with
  | ok a => exact hQ a hresult
  | error stopped => trivial

/-- The log of a run that starts with an empty one. -/
theorem all {x : ExceptT φ (DevM ω) α} (hx : IssuesUntil log P x Q) {w w' : ω}
    {result : Except φ α} (hempty : log w = []) (hrun : x.run w = some (result, w')) :
    ∀ e ∈ log w', P e := by
  obtain ⟨⟨new, hlog, hnew⟩, -⟩ := hx w result w' hrun
  rw [hlog, hempty, List.nil_append]
  exact hnew

end IssuesUntil

/-- Behind a part that returns, a program goes on from the state that the part left. -/
theorem run_bind_ok {x : ExceptT φ (DevM ω) α} {a : α} {w w₁ : ω} (f : α → ExceptT φ (DevM ω) β)
    (hx : x.run w = some (.ok a, w₁)) : (x >>= f).run w = (f a).run w₁ := by
  change (x.run w >>= fun p => ExceptT.bindCont f p.1 p.2) = _
  rw [hx]
  rfl

/-- A part that stops stops the program. -/
theorem run_bind_error {x : ExceptT φ (DevM ω) α} {stopped : φ} {w w₁ : ω}
    (f : α → ExceptT φ (DevM ω) β) (hx : x.run w = some (.error stopped, w₁)) :
    (x >>= f).run w = some (.error stopped, w₁) := by
  change (x.run w >>= fun p => ExceptT.bindCont f p.1 p.2) = _
  rw [hx]
  rfl

/-- In every state `x` returns or stops, and leaves the log alone. -/
def Silent (log : ω → List ε) (x : ExceptT φ (DevM ω) α) : Prop :=
  ∀ w, ∃ result w', x.run w = some (result, w') ∧ log w' = log w

namespace Silent

theorem pure (a : α) : Silent log (Pure.pure a : ExceptT φ (DevM ω) α) := fun w => ⟨_, w, rfl, rfl⟩

theorem stop (stopped : φ) : Silent log (throw stopped : ExceptT φ (DevM ω) α) :=
  fun w => ⟨_, w, rfl, rfl⟩

theorem bind {x : ExceptT φ (DevM ω) α} {f : α → ExceptT φ (DevM ω) β} (hx : Silent log x)
    (hf : ∀ a, Silent log (f a)) : Silent log (x >>= f) := by
  intro w
  obtain ⟨result, w₁, hrun, hlog⟩ := hx w
  cases result with
  | error stopped => exact ⟨.error stopped, w₁, run_bind_error f hrun, hlog⟩
  | ok a =>
    obtain ⟨result, w₂, hrun', hlog'⟩ := hf a w₁
    exact ⟨result, w₂, (run_bind_ok f hrun).trans hrun', hlog'.trans hlog⟩

theorem issues {x : ExceptT φ (DevM ω) α} (hx : Silent log x) :
    IssuesUntil log P x fun _ => True := by
  refine .quiet fun w result w' hrun => ?_
  obtain ⟨result', w'', hrun', hlog⟩ := hx w
  rw [hrun] at hrun'
  cases hrun'
  exact hlog

end Silent

/-! ## Programs that do not stop -/

/-- From the state `w`, `x` returns a value and a state that satisfy `Q`. -/
def ReturnsIn (x : ExceptT φ (DevM ω) α) (w : ω) (Q : α → ω → Prop) : Prop :=
  ∃ a w', x.run w = some (.ok a, w') ∧ Q a w'

namespace ReturnsIn

variable {w : ω} {Q : α → ω → Prop} {R : β → ω → Prop}

theorem pure {a : α} (ha : Q a w) : ReturnsIn (Pure.pure a : ExceptT φ (DevM ω) α) w Q :=
  ⟨a, w, rfl, ha⟩

theorem lift {x : DevM ω α} {a : α} {w' : ω} (hx : x w = some (a, w')) (ha : Q a w') :
    ReturnsIn (ExceptT.lift x : ExceptT φ (DevM ω) α) w Q := by
  refine ⟨a, w', ?_, ha⟩
  change (x w >>= fun p => some (Except.ok p.1, p.2)) = _
  rw [hx]
  rfl

theorem bind {x : ExceptT φ (DevM ω) α} {f : α → ExceptT φ (DevM ω) β}
    (hx : ReturnsIn x w Q) (hf : ∀ a w', Q a w' → ReturnsIn (f a) w' R) :
    ReturnsIn (x >>= f) w R := by
  obtain ⟨a, w₁, hfirst, ha⟩ := hx
  obtain ⟨b, w₂, hrest, hb⟩ := hf a w₁ ha
  refine ⟨b, w₂, ?_, hb⟩
  change (x.run w >>= fun p => ExceptT.bindCont f p.1 p.2) = _
  rw [hfirst]
  exact hrest

theorem mono {Q' : α → ω → Prop} {x : ExceptT φ (DevM ω) α} (hx : ReturnsIn x w Q)
    (hQ : ∀ a w', Q a w' → Q' a w') : ReturnsIn x w Q' := by
  obtain ⟨a, w', hrun, ha⟩ := hx
  exact ⟨a, w', hrun, hQ a w' ha⟩

end ReturnsIn

/-! ## Programs that may stop for some reasons only -/

/-- A value and the state satisfy `Q`, a reason to stop satisfies `E`. -/
def Outcome (E : φ → Prop) (Q : α → ω → Prop) : Except φ α → ω → Prop
  | .ok a, w => Q a w
  | .error stopped, _ => E stopped

/-- From the state `w`, `x` returns only values and states that satisfy `Q`, and stops only
for reasons that satisfy `E`. -/
def EndsIn (E : φ → Prop) (x : ExceptT φ (DevM ω) α) (w : ω) (Q : α → ω → Prop) : Prop :=
  ∀ result w', x.run w = some (result, w') → Outcome E Q result w'

namespace EndsIn

variable {E : φ → Prop} {w : ω} {Q : α → ω → Prop} {R : β → ω → Prop}

theorem pure {a : α} (ha : Q a w) : EndsIn E (Pure.pure a : ExceptT φ (DevM ω) α) w Q := by
  intro result w' hrun
  cases hrun
  exact ha

theorem stop {stopped : φ} (h : E stopped) :
    EndsIn E (throw stopped : ExceptT φ (DevM ω) α) w Q := by
  intro result w' hrun
  cases hrun
  exact h

theorem lift {x : DevM ω α} (hx : ∀ a w', x w = some (a, w') → Q a w') :
    EndsIn E (ExceptT.lift x : ExceptT φ (DevM ω) α) w Q := by
  intro result w' hrun
  obtain ⟨⟨a, w₁⟩, hfirst, hrest⟩ := Option.bind_eq_some_iff.mp hrun
  cases hrest
  exact hx a _ hfirst

theorem bind {x : ExceptT φ (DevM ω) α} {f : α → ExceptT φ (DevM ω) β}
    (hx : EndsIn E x w Q) (hf : ∀ a w', Q a w' → EndsIn E (f a) w' R) :
    EndsIn E (x >>= f) w R := by
  intro result w' hrun
  obtain ⟨⟨first, w₁⟩, hfirst, hrest⟩ := Option.bind_eq_some_iff.mp hrun
  have hmiddle := hx first w₁ hfirst
  cases first with
  | ok a => exact hf a w₁ hmiddle result w' hrest
  | error stopped =>
    cases hrest
    exact hmiddle

theorem mono {Q' : α → ω → Prop} {x : ExceptT φ (DevM ω) α} (hx : EndsIn E x w Q)
    (hQ : ∀ a w', Q a w' → Q' a w') : EndsIn E x w Q' := by
  intro result w' hrun
  have hend := hx result w' hrun
  cases result with
  | ok a => exact hQ a w' hend
  | error stopped => exact hend

theorem of_returns {x : ExceptT φ (DevM ω) α} (hx : ReturnsIn x w Q) : EndsIn E x w Q := by
  obtain ⟨a, w₁, hfirst, ha⟩ := hx
  intro result w' hrun
  cases hfirst.symm.trans hrun
  exact ha

end EndsIn

end Microboot.Foundation
