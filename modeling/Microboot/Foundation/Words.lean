/-
  Foundation/Words.lean --- the words of a list.

  `words sep s` is the list of maximal runs of non-separators of `s`.  Every
  list falls in exactly one of three shapes with respect to a separator: it is
  blank, it ends in its only word, or a first word is followed by a separator
  and a rest.  `wordInduction` is the induction over these shapes, `runs sep s` has
  the words with their offsets, and `Cut sep s ps` describes what a destructive
  tokenizer leaves of `s`: the pieces between the separators it overwrote, one after
  each word.
-/
import Mathlib.Data.List.Basic
import Mathlib.Data.List.Infix
import Mathlib.Data.List.TakeWhile

set_option autoImplicit false

namespace Microboot.Foundation

variable {α : Type}

/-- The maximal non-empty runs of elements that are not separators, in order. -/
def words (sep : α → Bool) (s : List α) : List (List α) :=
  (s.splitOnP sep).filter fun w => !w.isEmpty

/-- Only separators. -/
def Blank (sep : α → Bool) (s : List α) : Prop := ∀ c ∈ s, sep c = true

/-- A non-empty run without separators. -/
def IsWord (sep : α → Bool) (w : List α) : Prop := w ≠ [] ∧ ∀ c ∈ w, sep c = false

variable {sep : α → Bool}

/-! ## The three shapes -/

/-- A blank list can be stripped off the front. -/
theorem words_append_blank {lead : List α} (hlead : Blank sep lead) (s : List α) :
    words sep (lead ++ s) = words sep s := by
  induction lead with
  | nil => rfl
  | cons c lead ih =>
    have hc : sep c = true := hlead c (by simp)
    have hrest : Blank sep lead := fun x hx => hlead x (by simp [hx])
    rw [← ih hrest]
    simp [words, List.splitOnP_cons_eq_if_modifyHead, hc]

theorem words_of_blank {s : List α} (h : Blank sep s) : words sep s = [] := by
  have := words_append_blank h []
  rw [List.append_nil] at this
  rw [this]
  simp [words]

theorem words_of_isWord {w : List α} (h : IsWord sep w) : words sep w = [w] := by
  simp [words, List.splitOnP_eq_singleton h.2, h.1]

/-- The first word ends at the first separator after it. -/
theorem words_cons {w rest : List α} {d : α} (hw : IsWord sep w) (hd : sep d = true) :
    words sep (w ++ d :: rest) = w :: words sep rest := by
  rw [words, List.splitOnP_append_cons_of_forall_mem hw.2 d hd, List.filter_cons]
  simp [hw.1, words]

theorem head_dropWhile_of_cons {p : α → Bool} {s t : List α} {c : α}
    (h : s.dropWhile p = c :: t) : p c = false := by
  have := List.head?_dropWhile_not p s
  rw [h] at this
  simpa using this

/-- What starts with a word cannot start with a separator. -/
theorem lead_eq_nil {lead w t u : List α} (hl : Blank sep lead) (hw : IsWord sep w)
    (h : lead ++ t = w ++ u) : lead = [] := by
  cases lead with
  | nil => rfl
  | cons c lead =>
    cases w with
    | nil => exact absurd rfl hw.1
    | cons c' w =>
      simp only [List.cons_append, List.cons.injEq] at h
      have h1 := hl c (by simp)
      have h2 := hw.2 c' (by simp)
      rw [h.1, h2] at h1
      cases h1

/-- Dropping the separators in front of the first word. -/
theorem dropWhile_append_word {lead w : List α} (hlead : Blank sep lead) (hw : IsWord sep w)
    (t : List α) : (lead ++ (w ++ t)).dropWhile sep = w ++ t := by
  rw [List.dropWhile_append_of_pos hlead]
  cases w with
  | nil => exact absurd rfl hw.1
  | cons c w => simp [hw.2 c (by simp)]

/-- Every list has one of the three shapes. -/
theorem word_cases (sep : α → Bool) (s : List α) :
    Blank sep s ∨
    (∃ lead w, Blank sep lead ∧ IsWord sep w ∧ s = lead ++ w) ∨
    (∃ lead w d rest, Blank sep lead ∧ IsWord sep w ∧ sep d = true ∧
      s = lead ++ (w ++ d :: rest)) := by
  have hsplit : s.takeWhile sep ++ s.dropWhile sep = s := List.takeWhile_append_dropWhile
  have hlead : Blank sep (s.takeWhile sep) := fun c hc => List.mem_takeWhile_imp hc
  cases htail : s.dropWhile sep with
  | nil =>
    rw [htail, List.append_nil] at hsplit
    exact Or.inl (hsplit ▸ hlead)
  | cons c t =>
    have hc : sep c = false := head_dropWhile_of_cons htail
    have hsplit' : (c :: t).takeWhile (fun x => !sep x) ++
        (c :: t).dropWhile (fun x => !sep x) = c :: t := List.takeWhile_append_dropWhile
    have hword : IsWord sep ((c :: t).takeWhile fun x => !sep x) := by
      refine ⟨by simp [hc], fun x hx => ?_⟩
      simpa using List.mem_takeWhile_imp hx
    cases hrest : (c :: t).dropWhile (fun x => !sep x) with
    | nil =>
      rw [hrest, List.append_nil] at hsplit'
      refine Or.inr (Or.inl ⟨_, _, hlead, hword, ?_⟩)
      rw [hsplit', ← htail, hsplit]
    | cons d rest =>
      have hd : sep d = true := by simpa using head_dropWhile_of_cons hrest
      refine Or.inr (Or.inr ⟨_, _, d, rest, hlead, hword, hd, ?_⟩)
      rw [← hrest, hsplit', ← htail, hsplit]

/-- Induction over the words of a list. -/
theorem wordInduction (sep : α → Bool) {motive : List α → Prop}
    (blank : ∀ s, Blank sep s → motive s)
    (last : ∀ lead w, Blank sep lead → IsWord sep w → motive (lead ++ w))
    (cons : ∀ lead w d rest, Blank sep lead → IsWord sep w → sep d = true →
      motive rest → motive (lead ++ (w ++ d :: rest))) :
    ∀ s, motive s := by
  intro s
  induction hn : s.length using Nat.strongRecOn generalizing s with
  | ind n ih =>
    rcases word_cases sep s with h | ⟨lead, w, hl, hw, rfl⟩ | ⟨lead, w, d, rest, hl, hw, hd, rfl⟩
    · exact blank s h
    · exact last lead w hl hw
    · refine cons lead w d rest hl hw hd (ih rest.length ?_ rest rfl)
      simp only [List.length_append, List.length_cons] at hn
      omega

/-- The words of a list are words. -/
theorem isWord_of_mem_words : ∀ {s w : List α}, w ∈ words sep s → IsWord sep w := by
  intro s
  induction s using wordInduction sep with
  | blank s hs => intro w h; simp [words_of_blank hs] at h
  | last lead w hl hw =>
    intro u h
    rw [words_append_blank hl, words_of_isWord hw, List.mem_singleton] at h
    exact h ▸ hw
  | cons lead w d rest hl hw hd ih =>
    intro u h
    rw [words_append_blank hl, words_cons hw hd, List.mem_cons] at h
    rcases h with rfl | h
    · exact hw
    · exact ih h

/-- A list has at most as many words as elements. -/
theorem words_length_le (s : List α) : (words sep s).length ≤ s.length := by
  induction s using wordInduction sep with
  | blank s hs =>
    rw [words_of_blank hs]
    exact Nat.zero_le _
  | last lead w hl hw =>
    have hpos := List.length_pos_of_ne_nil hw.1
    rw [words_append_blank hl, words_of_isWord hw, List.length_append, List.length_singleton]
    omega
  | cons lead w d rest hl hw hd ih =>
    rw [words_append_blank hl, words_cons hw hd]
    simp only [List.length_append, List.length_cons]
    omega

/-- The first word of a list, if it starts one, is followed by a separator. -/
theorem sep_of_words_eq_cons {v t : List α} {c : α} {ws : List (List α)}
    (h : words sep (v ++ c :: t) = v :: ws) : sep c = true := by
  have hv : IsWord sep v := isWord_of_mem_words (h ▸ List.mem_cons_self)
  rcases word_cases sep (v ++ c :: t) with hb | ⟨lead, w, hl, hw, hs⟩ |
    ⟨lead, w, d, rest, hl, hw, hd, hs⟩
  · rw [words_of_blank hb] at h
    cases h
  · have hlead := lead_eq_nil hl hv hs.symm
    subst hlead
    rw [hs, List.nil_append, words_of_isWord hw, List.cons.injEq] at h
    rw [h.1, List.nil_append] at hs
    exact absurd (List.append_right_eq_self.mp hs) (List.cons_ne_nil c t)
  · have hlead := lead_eq_nil hl hv hs.symm
    subst hlead
    rw [hs, List.nil_append, words_cons hw hd, List.cons.injEq] at h
    rw [h.1, List.nil_append, List.append_cancel_left_eq, List.cons.injEq] at hs
    exact hs.1 ▸ hd

/-! ## Words and where they are -/

/-- The offsets of pieces that lie one behind the other, one element apart. -/
def placed (start : Nat) : List (List α) → List (Nat × List α)
  | [] => []
  | w :: ws => (start, w) :: placed (start + w.length + 1) ws

/-- The words of `s`, each with its offset. -/
def runs (sep : α → Bool) (s : List α) : List (Nat × List α) :=
  (placed 0 (s.splitOnP sep)).filter fun run => !run.2.isEmpty

/-- The same words further on. -/
def shift (k : Nat) (rs : List (Nat × List α)) : List (Nat × List α) :=
  rs.map fun run => (k + run.1, run.2)

theorem placed_add (k start : Nat) (ws : List (List α)) :
    placed (k + start) ws = shift k (placed start ws) := by
  induction ws generalizing start with
  | nil => rfl
  | cons w ws ih =>
    rw [placed, placed, shift, List.map_cons, ← shift, ← ih, Nat.add_assoc k, Nat.add_assoc k]

theorem filter_shift (k : Nat) (rs : List (Nat × List α)) :
    (shift k rs).filter (fun run => !run.2.isEmpty) =
      shift k (rs.filter fun run => !run.2.isEmpty) := by
  rw [shift, List.filter_map]
  rfl

theorem words_eq_map_runs (sep : α → Bool) (s : List α) : words sep s = (runs sep s).map (·.2) := by
  have hplaced : ∀ start (ws : List (List α)), (placed start ws).map (·.2) = ws := by
    intro start ws
    induction ws generalizing start with
    | nil => rfl
    | cons w ws ih => rw [placed, List.map_cons, ih]
  rw [words, runs, ← hplaced 0 (s.splitOnP sep), List.filter_map, hplaced]
  rfl

theorem shift_shift (j k : Nat) (rs : List (Nat × List α)) :
    shift j (shift k rs) = shift (j + k) rs := by
  simp [shift, Nat.add_assoc]

/-- The pieces behind a separator are so much further on. -/
theorem runs_append_sep {w rest : List α} {d : α} (hw : ∀ c ∈ w, sep c = false)
    (hd : sep d = true) : runs sep (w ++ d :: rest) =
      [(0, w)].filter (fun run => !run.2.isEmpty) ++ shift (w.length + 1) (runs sep rest) := by
  rw [runs, List.splitOnP_append_cons_of_forall_mem hw d hd, placed, ← List.singleton_append,
    List.filter_append, Nat.zero_add, ← Nat.add_zero (w.length + 1), placed_add, filter_shift]
  rfl

theorem runs_append_blank {lead : List α} (hlead : Blank sep lead) (s : List α) :
    runs sep (lead ++ s) = shift lead.length (runs sep s) := by
  induction lead with
  | nil => simp [shift]
  | cons c lead ih =>
    have hc : sep c = true := hlead c (by simp)
    have hrest : Blank sep lead := fun x hx => hlead x (by simp [hx])
    have hfirst : runs sep ([] ++ c :: (lead ++ s)) = _ :=
      runs_append_sep (fun _ hx => absurd hx List.not_mem_nil) hc
    rw [List.cons_append, ← List.nil_append (c :: (lead ++ s)), hfirst, ih hrest, shift_shift,
      List.length_cons, Nat.add_comm lead.length]
    rfl

theorem runs_of_blank {s : List α} (h : Blank sep s) : runs sep s = [] := by
  have hwords := words_eq_map_runs sep s
  rw [words_of_blank h] at hwords
  exact List.map_eq_nil_iff.mp hwords.symm

theorem runs_of_isWord {w : List α} (h : IsWord sep w) : runs sep w = [(0, w)] := by
  simp [runs, List.splitOnP_eq_singleton h.2, placed, h.1]

/-- The first word ends at the first separator after it. -/
theorem runs_cons {w rest : List α} {d : α} (hw : IsWord sep w) (hd : sep d = true) :
    runs sep (w ++ d :: rest) = (0, w) :: shift (w.length + 1) (runs sep rest) := by
  rw [runs_append_sep hw.2 hd]
  simp [hw.1]

/-- The words of two parts with a separator between them. -/
theorem runs_append {s t : List α} {d : α} (hd : sep d = true) :
    runs sep (s ++ d :: t) = runs sep s ++ shift (s.length + 1) (runs sep t) := by
  induction s using wordInduction sep with
  | blank s hs =>
    have hlead : Blank sep (s ++ [d]) := by
      intro c hc
      rcases List.mem_append.mp hc with hc | hc
      · exact hs c hc
      · exact List.mem_singleton.mp hc ▸ hd
    rw [List.append_cons, runs_append_blank hlead, runs_of_blank hs, List.length_append]
    rfl
  | last lead w hl hw =>
    rw [List.append_assoc, runs_append_blank hl, runs_append_blank hl, runs_cons hw hd,
      runs_of_isWord hw]
    simp [shift, Nat.add_assoc]
  | cons lead w e rest hl hw he ih =>
    rw [List.append_assoc, List.append_assoc, List.cons_append, runs_append_blank hl,
      runs_append_blank hl, runs_cons hw he, runs_cons hw he, ih]
    simp [shift, Nat.add_comm, Nat.add_left_comm]

/-- A run of non-separators at an offset that nothing can be added to. -/
structure RunAt (sep : α → Bool) (s : List α) (run : Nat × List α) : Prop where
  word : IsWord sep run.2
  split : ∃ before behind, s = before ++ (run.2 ++ behind) ∧ before.length = run.1 ∧
    (∀ c ∈ before.getLast?, sep c = true) ∧ ∀ c ∈ behind.head?, sep c = true

theorem RunAt.of_mem {s : List α} : ∀ run ∈ runs sep s, RunAt sep s run := by
  induction s using wordInduction sep with
  | blank s hs => simp [runs_of_blank hs]
  | last lead w hl hw =>
    intro run hrun
    rw [runs_append_blank hl, runs_of_isWord hw] at hrun
    obtain rfl : run = (lead.length, w) := by simpa [shift] using hrun
    exact ⟨hw, lead, [], by simp, rfl, fun c hc => hl c (List.mem_of_mem_getLast? hc), by simp⟩
  | cons lead w d rest hl hw hd ih =>
    intro run hrun
    rw [runs_append_blank hl, runs_cons hw hd, shift, List.map_cons, List.mem_cons] at hrun
    rcases hrun with rfl | hrun
    · exact ⟨hw, lead, d :: rest, rfl, rfl, fun c hc => hl c (List.mem_of_mem_getLast? hc),
        by simpa using hd⟩
    · rw [shift, List.map_map, List.mem_map] at hrun
      obtain ⟨run, hmem, rfl⟩ := hrun
      obtain ⟨hword, before, behind, rfl, hlen, hlast, hfirst⟩ := ih run hmem
      refine ⟨hword, lead ++ (w ++ d :: before), behind, by simp, ?_, fun c hc => ?_, hfirst⟩
      · simp [← hlen]
        omega
      · rw [← List.append_assoc, List.getLast?_append_of_ne_nil _ (List.cons_ne_nil d before),
          List.getLast?_cons] at hc
        cases hbefore : before.getLast? with
        | none =>
          rw [hbefore] at hc
          cases hc
          exact hd
        | some b =>
          rw [hbefore] at hc hlast
          cases hc
          exact hlast b rfl

theorem length_le_of_mem_words {s w : List α} (hw : w ∈ words sep s) : w.length ≤ s.length := by
  rw [words_eq_map_runs] at hw
  obtain ⟨run, hrun, rfl⟩ := List.mem_map.mp hw
  obtain ⟨before, behind, hsplit, -⟩ := (RunAt.of_mem run hrun).split
  rw [hsplit, List.length_append, List.length_append]
  omega

/-- The words are the maximal runs of non-separators. -/
theorem mem_runs_iff {s : List α} {run : Nat × List α} : run ∈ runs sep s ↔ RunAt sep s run := by
  refine ⟨RunAt.of_mem run, ?_⟩
  obtain ⟨i, w⟩ := run
  rintro ⟨hword, before, behind, rfl, rfl, hlast, hfirst⟩
  have hbehind : (0, w) ∈ runs sep (w ++ behind) := by
    cases behind with
    | nil => simp [runs_of_isWord hword]
    | cons d behind =>
      rw [runs_cons hword (hfirst d rfl)]
      exact List.mem_cons_self
  rcases List.eq_nil_or_concat before with rfl | ⟨before, d, rfl⟩
  · exact hbehind
  · rw [List.concat_eq_append] at hlast ⊢
    rw [List.append_assoc, List.singleton_append, runs_append (hlast d (by simp)),
      List.length_append]
    exact List.mem_append_right _ (List.mem_map.mpr ⟨(0, w), hbehind, rfl⟩)

/-- The words are in order, apart from each other. -/
theorem runs_pairwise (sep : α → Bool) (s : List α) :
    (runs sep s).Pairwise fun run run' => run.1 + run.2.length < run'.1 := by
  have hge : ∀ (ws : List (List α)) (start : Nat), ∀ run ∈ placed start ws, start ≤ run.1 := by
    intro ws
    induction ws with
    | nil => simp [placed]
    | cons w ws ih =>
      intro start run hrun
      rcases List.mem_cons.mp hrun with rfl | hrun
      · exact Nat.le_refl _
      · have := ih _ run hrun
        omega
  have hplaced : ∀ (ws : List (List α)) (start : Nat),
      (placed start ws).Pairwise fun run run' => run.1 + run.2.length < run'.1 := by
    intro ws
    induction ws with
    | nil => exact fun _ => List.Pairwise.nil
    | cons w ws ih => exact fun start => List.pairwise_cons.mpr ⟨hge ws _, ih _⟩
  exact (hplaced _ 0).sublist List.filter_sublist

/-! ## What a destructive tokenizer leaves -/

/-- `Cut sep s ps`: overwriting the separator that ends each word of `s` leaves
the pieces `ps`, a word together with the separators before it each time. -/
inductive Cut (sep : α → Bool) : List α → List (List α) → Prop
  | blank {s : List α} : Blank sep s → Cut sep s [s]
  | last {lead w : List α} : Blank sep lead → IsWord sep w → Cut sep (lead ++ w) [lead ++ w]
  | cons {lead w rest : List α} {d : α} {ps : List (List α)} :
      Blank sep lead → IsWord sep w → sep d = true → Cut sep rest ps →
      Cut sep (lead ++ (w ++ d :: rest)) ((lead ++ w) :: ps)

/-- There is a piece for every word. -/
theorem Cut.length_le {s : List α} {ps : List (List α)} (h : Cut sep s ps) :
    (words sep s).length ≤ ps.length := by
  induction h with
  | blank hb => simp [words_of_blank hb]
  | last hl hw => simp [words_append_blank hl, words_of_isWord hw]
  | cons hl hw hd _ ih => simpa [words_append_blank hl, words_cons hw hd] using ih

/-- A list without a separator behind its last word leaves one piece. -/
theorem Cut.eq_singleton {lead w : List α} {ps : List (List α)} (hl : Blank sep lead)
    (hw : IsWord sep w) (h : Cut sep (lead ++ w) ps) : ps = [lead ++ w] := by
  have hdrop : (lead ++ w).dropWhile sep = w := by
    simpa using dropWhile_append_word hl hw []
  generalize hs : lead ++ w = s at h hdrop
  cases h with
  | blank _ => rfl
  | last _ _ => rfl
  | cons hl' hw' hd' _ =>
    rw [dropWhile_append_word hl' hw'] at hdrop
    have hsep := hw.2 _ (hdrop ▸ List.mem_append_right _ List.mem_cons_self)
    rw [hd'] at hsep
    cases hsep

/-- When the pieces left by one separator are the words of another: nothing is
left, or a single piece that neither separator ends. -/
theorem Cut.take_eq_other_words_iff {sep' : α → Bool} {s : List α} {ps : List (List α)}
    (hne : ∀ c, sep c = true → sep' c = false) (h : Cut sep s ps) :
    ps.take (words sep s).length = words sep' s ↔
      s = [] ∨ ∃ lead w, Blank sep lead ∧ IsWord sep w ∧ (∀ c ∈ w, sep' c = false) ∧
        s = lead ++ w := by
  constructor
  · intro heq
    cases h with
    | blank hb =>
      left
      rw [words_of_blank hb, List.length_nil, List.take_zero] at heq
      cases s with
      | nil => rfl
      | cons c t =>
        have hword : IsWord sep' (c :: t) := ⟨by simp, fun x hx => hne x (hb x hx)⟩
        rw [words_of_isWord hword] at heq
        cases heq
    | @last lead w hl hw =>
      right
      rw [words_append_blank hl, words_of_isWord hw] at heq
      have hword : IsWord sep' (lead ++ w) :=
        isWord_of_mem_words (s := lead ++ w) (by rw [← heq]; exact List.mem_cons_self)
      exact ⟨lead, w, hl, hw, fun c hc => hword.2 c (List.mem_append_right _ hc), rfl⟩
    | cons hl hw hd _ =>
      exfalso
      rw [words_append_blank hl, words_cons hw hd, List.length_cons, List.take_succ_cons,
        ← List.append_assoc] at heq
      have hsep := sep_of_words_eq_cons heq.symm
      rw [hne _ hd] at hsep
      cases hsep
  · rintro (rfl | ⟨lead, w, hl, hw, hw', rfl⟩)
    · simp [words]
    · have hword : IsWord sep' (lead ++ w) := by
        refine ⟨by simp [hw.1], fun c hc => ?_⟩
        rcases List.mem_append.mp hc with hc | hc
        · exact hne c (hl c hc)
        · exact hw' c hc
      rw [h.eq_singleton hl hw, words_append_blank hl, words_of_isWord hw, words_of_isWord hword]
      rfl

/-! ## Words joined by single separators -/

/-- The words of `s` with exactly one `d` between two of them, none in front of
the first and any number behind the last. -/
def SingleSpaced (d : α) (sep : α → Bool) (s : List α) : Prop :=
  ∃ b, s = [d].intercalate (words sep s) ++ List.replicate b d

theorem singleSpaced_of_blank {d : α} {s : List α} (hd : ∀ c, sep c = true → c = d)
    (h : Blank sep s) : SingleSpaced d sep s := by
  refine ⟨s.length, ?_⟩
  rw [words_of_blank h, List.intercalate_nil, List.nil_append]
  exact List.eq_replicate_iff.mpr ⟨rfl, fun c hc => hd c (h c hc)⟩

theorem singleSpaced_last {d : α} {lead w : List α} (hl : Blank sep lead)
    (hw : IsWord sep w) : SingleSpaced d sep (lead ++ w) ↔ lead = [] := by
  have hwords : words sep (lead ++ w) = [w] := by
    rw [words_append_blank hl, words_of_isWord hw]
  constructor
  · rintro ⟨b, hb⟩
    rw [hwords, List.intercalate_singleton] at hb
    exact lead_eq_nil hl hw hb
  · rintro rfl
    refine ⟨0, ?_⟩
    rw [hwords]
    simp

theorem singleSpaced_cons {d : α} {lead w rest : List α}
    (hd : ∀ c, sep c = true ↔ c = d) (hl : Blank sep lead) (hw : IsWord sep w) :
    SingleSpaced d sep (lead ++ (w ++ d :: rest)) ↔ lead = [] ∧ SingleSpaced d sep rest := by
  have hwords : words sep (lead ++ (w ++ d :: rest)) = w :: words sep rest := by
    rw [words_append_blank hl, words_cons hw ((hd d).mpr rfl)]
  constructor
  · rintro ⟨b, hb⟩
    rw [hwords] at hb
    cases hrest : words sep rest with
    | nil =>
      -- nothing but separators behind the word
      rw [hrest, List.intercalate_singleton] at hb
      have hlead := lead_eq_nil hl hw hb
      subst hlead
      refine ⟨rfl, singleSpaced_of_blank (fun c => (hd c).mp) fun c hc => ?_⟩
      rw [List.nil_append, List.append_cancel_left_eq] at hb
      have hmem : c ∈ List.replicate b d := hb ▸ List.mem_cons_of_mem d hc
      exact (hd c).mpr (List.eq_of_mem_replicate hmem)
    | cons w' ws =>
      rw [hrest, List.intercalate_cons_cons, List.append_assoc, List.append_assoc] at hb
      have hlead := lead_eq_nil hl hw hb
      subst hlead
      refine ⟨rfl, b, ?_⟩
      rw [List.nil_append, List.append_cancel_left_eq] at hb
      rw [hrest]
      simpa using hb
  · rintro ⟨rfl, b, hb⟩
    cases hrest : words sep rest with
    | nil =>
      rw [hrest, List.intercalate_nil, List.nil_append] at hb
      refine ⟨b + 1, ?_⟩
      rw [hwords, hrest, hb, List.intercalate_singleton, List.replicate_succ, List.nil_append]
    | cons w' ws =>
      refine ⟨b, ?_⟩
      rw [hwords, hrest, List.intercalate_cons_cons]
      conv_lhs => rw [hb, hrest]
      simp

/-- The pieces a tokenizer leaves are the words exactly when the words are
joined by single separators. -/
theorem Cut.take_eq_words_iff {d : α} {s : List α} {ps : List (List α)}
    (hd : ∀ c, sep c = true ↔ c = d) (h : Cut sep s ps) :
    ps.take (words sep s).length = words sep s ↔ SingleSpaced d sep s := by
  induction h with
  | blank hb =>
    simp only [words_of_blank hb, List.length_nil, List.take_zero, true_iff]
    exact singleSpaced_of_blank (fun c => (hd c).mp) hb
  | last hl hw =>
    rw [singleSpaced_last hl hw, words_append_blank hl, words_of_isWord hw]
    simp
  | cons hl hw hdel _ ih =>
    have hdd := (hd _).mp hdel
    subst hdd
    rw [singleSpaced_cons hd hl hw, words_append_blank hl, words_cons hw hdel]
    simp [ih]

end Microboot.Foundation
