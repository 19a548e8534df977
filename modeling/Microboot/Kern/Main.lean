/-
  Kern/Main.lean --- the shell's command line, kern/main.c.

  `processCommandString` cuts the line at the first `#`, splits it in place at
  spaces and looks the first word up, first among the internal commands and,
  if none has that name, as an external program.  `ShellEvent` records what the
  function does to the world: the calls it makes, with the strings their
  pointers name at that moment, and the message for an unknown command.
-/
import Microboot.Kern.Tokens

set_option autoImplicit false

namespace Microboot.Kern

open Microboot.Foundation

/-! ## The model -/

/-- What a command is invoked with; `none` is a `NULL` pointer. -/
structure Invocation where
  name : Option (List UInt8)
  argc : Nat
  argv : List (Option (List UInt8))
  deriving DecidableEq, Repr

/-- An effect of `process_command_string`. -/
inductive ShellEvent where
  /-- `invoke_internal(name, argc, argv)` -/
  | invokeInternal (call : Invocation)
  /-- `invoke_external(name, argc, argv)` -/
  | invokeExternal (call : Invocation)
  /-- `printf("? %s\n", cmdbuf)` -/
  | notFound (cmdbuf : Option (List UInt8))
  deriving DecidableEq, Repr

/-- `'#'` -/
def commentChar : UInt8 := 35

/-- `for (i = 0; i < cmdbuf_len; i++) if (cmdbuf[i] == '#') { cmdbuf[i] = 0; break; }`,
with the number of characters left to look at. -/
def cutComment (m : Mem) (cmdbuf : Nat) : Nat → Nat → Mem
  | 0, _ => m
  | n + 1, i =>
    if m.load8 (cmdbuf + i) = commentChar then m.store8 (cmdbuf + i) 0
    else cutComment m cmdbuf n (i + 1)

/-- `if (!invoke_internal(..) && !invoke_external(..)) printf("? %s\n", cmdbuf);`,
given which invocations the two lookups accept. -/
def lookupCommand (internal external : Invocation → Bool) (call : Invocation)
    (cmdbuf : Option (List UInt8)) : List ShellEvent :=
  if internal call then [.invokeInternal call]
  else if external call then [.invokeInternal call, .invokeExternal call]
  else [.invokeInternal call, .invokeExternal call, .notFound cmdbuf]

/-- `process_command_string(cmdbuf)`, given which invocations the two lookups
accept.  Returns the memory, `strtok`'s static pointer and the effects. -/
def processCommandString (internal external : Invocation → Bool) (m : Mem)
    (cmdbuf saveptr : Nat) : Option (Mem × Nat × List ShellEvent) := do
  let cmdbufLen ← strlen m cmdbuf
  let m := cutComment m cmdbuf cmdbufLen 0
  -- it's possible the entire line could be a comment
  if m.load8 cmdbuf = 0 then
    return (m, saveptr, [])
  let split ← splitInPlace spaceDelim spaceDelim m cmdbuf saveptr
  let call : Invocation :=
    { name := argString split.mem split.token, argc := split.count, argv := split.args }
  return (split.mem, split.saveptr,
    lookupCommand internal external call (argString split.mem cmdbuf))

/-! ## What a line asks for -/

/-- The part of the line in front of the first comment character. -/
def beforeComment (line : List UInt8) : List UInt8 := line.takeWhile fun c => c ≠ commentChar

/-- The space character of the shell's words. -/
def isSpaceChar : UInt8 → Bool := isDelim spaceDelim

theorem isSpaceChar_iff (c : UInt8) : isSpaceChar c = true ↔ c = 32 := by
  simp [isSpaceChar, isDelim, spaceDelim]

/-- The words of a command line. -/
def lineWords (line : List UInt8) : List (List UInt8) := words isSpaceChar (beforeComment line)

/-- The lookups among a list of effects, one for each time the internal
commands are searched. -/
def lookups (events : List ShellEvent) : List Invocation :=
  events.filterMap fun
    | .invokeInternal call => some call
    | _ => none

/-- The lookups that a list of words asks for: one, of the first word, with all
of them as arguments, or none if there is no word. -/
def wordLookups : List (List UInt8) → List Invocation
  | [] => []
  | w :: ws => [{ name := some w, argc := (w :: ws).length, argv := (w :: ws).map some }]

/-- The line's words are looked up, and nothing else is, neither among the
internal commands nor as a program. -/
def RunsWords (line : List UInt8) (events : List ShellEvent) : Prop :=
  lookups events = wordLookups (lineWords line) ∧
    ∀ call, .invokeExternal call ∈ events → call ∈ lookups events

/-- The condition under which the two passes agree: nothing in front of the
comment, or at least one word and single spaces between the words. -/
def WellSpaced (line : List UInt8) : Prop :=
  beforeComment line = [] ∨
    (lineWords line ≠ [] ∧
      SingleSpaced 32 isSpaceChar ((beforeComment line).dropWhile isSpaceChar))

/-! ## The lookup -/

section Lookup

variable {internal external : Invocation → Bool} {call : Invocation}
  {cmdbuf : Option (List UInt8)}

@[simp] theorem lookups_lookupCommand :
    lookups (lookupCommand internal external call cmdbuf) = [call] := by
  unfold lookupCommand
  split
  · rfl
  · split <;> rfl

/-- Only what was looked up internally is looked up as a program. -/
theorem external_lookupCommand {call' : Invocation}
    (h : .invokeExternal call' ∈ lookupCommand internal external call cmdbuf) :
    call' ∈ lookups (lookupCommand internal external call cmdbuf) := by
  rw [lookups_lookupCommand]
  unfold lookupCommand at h
  split at h
  · simp at h
  · split at h <;> simpa using h

/-- A lookup runs the words of a line if it is the one they ask for. -/
theorem runsWords_lookupCommand {line : List UInt8} :
    RunsWords line (lookupCommand internal external call cmdbuf) ↔
      [call] = wordLookups (lineWords line) := by
  simp only [RunsWords, lookups_lookupCommand, and_iff_left_iff_imp]
  intro _ call' h
  simpa using external_lookupCommand h

end Lookup

/-! ## The comment -/

theorem cutComment_eq {m : Mem} {buf : Nat} : ∀ (s t : List UInt8),
    Seg m (buf + t.length) s → StrAt m buf (t ++ s) →
    StrAt (cutComment m buf s.length t.length) buf
      (t ++ s.takeWhile fun c => c ≠ commentChar) := by
  intro s
  induction s with
  | nil => intro t _ h; simpa [cutComment] using h
  | cons c s ih =>
    intro t hseg h
    rw [List.length_cons, cutComment, hseg.1]
    by_cases hc : c = commentChar
    · have htake : ((c :: s).takeWhile fun c => c ≠ commentChar) = [] := by simp [hc]
      rw [if_pos hc, htake, List.append_nil]
      exact h.cut.1
    · have htake : ((c :: s).takeWhile fun c => c ≠ commentChar) =
          c :: s.takeWhile fun c => c ≠ commentChar := by simp [hc]
      have hstep := ih (t ++ [c])
        (by simpa [Nat.add_assoc] using hseg.2) (by simpa using h)
      rw [if_neg hc, htake]
      simpa using hstep

/-- Cutting the comment leaves the part of the line in front of it. -/
theorem strAt_cutComment {m : Mem} {buf : Nat} {line : List UInt8} (h : StrAt m buf line) :
    StrAt (cutComment m buf line.length 0) buf (beforeComment line) := by
  simpa [beforeComment] using cutComment_eq line [] (by simpa using h.seg) (by simpa using h)

/-! ## Which lines run as their words -/

section Run

variable (internal external : Invocation → Bool) {m : Mem} {buf : Nat} (saveptr : Nat)
  {line : List UInt8}

/-- A line that is empty in front of its comment has no effect. -/
theorem processCommandString_empty (h : StrAt m buf line) (hline : beforeComment line = []) :
    ∃ m', processCommandString internal external m buf saveptr = some (m', saveptr, []) := by
  have hcut := strAt_cutComment h
  rw [hline] at hcut
  exact ⟨cutComment m buf line.length 0, by
    simp [processCommandString, strlen_eq h, hcut.load8_eq_zero.mpr rfl]⟩

/-- Any other line is split and looked up. -/
theorem processCommandString_split (h : StrAt m buf line) (hline : beforeComment line ≠ [])
    {r : Split}
    (hr : splitInPlace spaceDelim spaceDelim (cutComment m buf line.length 0) buf saveptr =
      some r) :
    processCommandString internal external m buf saveptr =
      some (r.mem, r.saveptr, lookupCommand internal external
        { name := argString r.mem r.token, argc := r.count, argv := r.args }
        (argString r.mem buf)) := by
  have hne : (cutComment m buf line.length 0).load8 buf ≠ 0 := fun h0 =>
    hline ((strAt_cutComment h).load8_eq_zero.mp h0)
  simp [processCommandString, strlen_eq h, hne, hr]

/-- A line that is not empty runs as its words exactly if its split is the one
they ask for. -/
theorem runsWords_of_split (h : StrAt m buf line) (hline : beforeComment line ≠ [])
    {r : Split}
    (hr : splitInPlace spaceDelim spaceDelim (cutComment m buf line.length 0) buf saveptr =
      some r) :
    (∃ m' saveptr' events,
      processCommandString internal external m buf saveptr = some (m', saveptr', events) ∧
        RunsWords line events) ↔
      [{ name := argString r.mem r.token, argc := r.count, argv := r.args }] =
        wordLookups (lineWords line) := by
  rw [processCommandString_split internal external saveptr h hline hr]
  constructor
  · rintro ⟨m', s', events, hsome, hruns⟩
    simp only [Option.some.injEq, Prod.mk.injEq] at hsome
    rw [← hsome.2.2] at hruns
    exact runsWords_lookupCommand.mp hruns
  · intro hcall
    exact ⟨_, _, _, rfl, runsWords_lookupCommand.mpr hcall⟩

/-- The command line runs as its words exactly when it is well spaced. -/
theorem processCommandString_runsWords_iff (h : StrAt m buf line) (hbuf : buf ≠ 0) :
    (∃ m' saveptr' events,
      processCommandString internal external m buf saveptr = some (m', saveptr', events) ∧
        RunsWords line events) ↔ WellSpaced line := by
  have hcut := strAt_cutComment h
  by_cases hnil : beforeComment line = []
  · obtain ⟨m', hrun⟩ := processCommandString_empty internal external saveptr h hnil
    have hwords : lineWords line = [] := words_of_blank (by simp [hnil, Blank])
    exact ⟨fun _ => Or.inl hnil,
      fun _ => ⟨m', saveptr, [], hrun, by simp [RunsWords, hwords, wordLookups, lookups]⟩⟩
  have hwell : WellSpaced line ↔ lineWords line ≠ [] ∧
      SingleSpaced 32 isSpaceChar ((beforeComment line).dropWhile isSpaceChar) := by
    simp [WellSpaced, hnil]
  rw [hwell]
  rcases word_cases isSpaceChar (beforeComment line) with
    hb | ⟨lead, w, hl, hw, hline⟩ | ⟨lead, w, d, rest, hl, hw, hd, hline⟩
  · -- only spaces: the lookup is made with a NULL name
    have hwords : lineWords line = [] := words_of_blank hb
    obtain ⟨saveptr', hr⟩ := splitInPlace_blank spaceDelim spaceDelim saveptr
      hcut hbuf hb
    rw [runsWords_of_split internal external saveptr h hnil hr, hwords]
    simp [wordLookups]
  · have hwords : lineWords line = [w] := by
      rw [lineWords, hline, words_append_blank hl, words_of_isWord hw]
    rw [hline] at hcut
    obtain ⟨r, hr, hcount, hargs, htok⟩ := splitInPlace_last spaceDelim spaceDelim
      saveptr hcut hbuf hl hw
    rw [runsWords_of_split internal external saveptr h hnil hr, hwords, hcount, hargs, htok]
    have hdrop : (beforeComment line).dropWhile isSpaceChar = [] ++ w := by
      simpa [hline] using dropWhile_append_word hl hw []
    rw [hdrop, singleSpaced_last (by simp [Blank]) hw]
    simp [wordLookups]
  · have hwords : lineWords line = w :: words isSpaceChar rest := by
      rw [lineWords, hline, words_append_blank hl, words_cons hw hd]
    have hd32 := (isSpaceChar_iff d).mp hd
    subst hd32
    rw [hline] at hcut
    obtain ⟨r, ps, hr, hps, hcount, hargs, htok⟩ := splitInPlace_cons spaceDelim spaceDelim
      saveptr hcut hbuf hl hw hd
    rw [runsWords_of_split internal external saveptr h hnil hr, hwords, hcount, hargs, htok]
    have hdrop : (beforeComment line).dropWhile isSpaceChar = [] ++ (w ++ 32 :: rest) := by
      simpa [hline] using dropWhile_append_word hl hw (32 :: rest)
    rw [hdrop, singleSpaced_cons isSpaceChar_iff (by simp [Blank]) hw,
      ← hps.take_eq_words_iff isSpaceChar_iff]
    simp only [wordLookups, List.map_cons, List.length_cons, List.cons.injEq,
      Invocation.mk.injEq, and_true, true_and]
    constructor
    · rintro ⟨_, heq⟩
      exact ⟨List.cons_ne_nil _ _, List.map_injective_iff.mpr (Option.some_injective _) heq⟩
    · rintro ⟨_, heq⟩
      exact ⟨Nat.add_comm _ _, congrArg (List.map some) heq⟩

end Run

/-- `ls a` is well spaced, and runs as its words. -/
theorem processCommandString_runsWords_ls :
    ∃ m' saveptr' events,
      processCommandString (fun _ => true) (fun _ => false) (stringMem 4096 [108, 115, 32, 97])
        4096 0 = some (m', saveptr', events) ∧ RunsWords [108, 115, 32, 97] events :=
  (processCommandString_runsWords_iff _ _ 0 (strAt_stringMem (by decide) (by simp))
    (by decide)).mpr (Or.inr ⟨by decide, 0, by decide⟩)

/-- Two spaces between `a` and `b`: the second argument keeps one of them. -/
theorem processCommandString_two_spaces :
    ¬ ∃ m' saveptr' events,
      processCommandString (fun _ => true) (fun _ => false) (stringMem 4096 [97, 32, 32, 98])
        4096 0 = some (m', saveptr', events) ∧ RunsWords [97, 32, 32, 98] events := by
  have hrun : (processCommandString (fun _ => true) (fun _ => false)
      (stringMem 4096 [97, 32, 32, 98]) 4096 0).map (fun r => lookups r.2.2) =
      some [{ name := some [97], argc := 2, argv := [some [97], some [32, 98]] }] := by
    decide +kernel
  rintro ⟨m', saveptr', events, h, hlook, _⟩
  rw [h, Option.map_some, hlook] at hrun
  revert hrun
  decide

end Microboot.Kern
