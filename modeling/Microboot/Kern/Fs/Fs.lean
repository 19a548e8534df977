/-
  Kern/Fs/Fs.lean --- opening a path, kern/fs/fs.c.

  `fsOpen` duplicates the path, splits the duplicate in place and hands the
  parts to the filesystem's `open`.  The first component ends at `/`, but the
  remaining ones are counted with `strtok(NULL, " ")`: the number of parts is
  one more than the number of space-separated words behind the first component.
-/
import Microboot.Kern.Tokens

set_option autoImplicit false

namespace Microboot.Kern.Fs

open Microboot.Foundation

/-! ## The model -/

/-- `FS_PATH_SEPARATOR`, `"/"`. -/
def fsPathSeparator : List UInt8 := [47]

/-- What the filesystem's `open` is called with; `none` is a `NULL` part. -/
structure OpenCall where
  parts : List (Option (List UInt8))
  pathlen : Nat
  deriving DecidableEq, Repr

/-- What `fs_open` leaves: the memory, `strtok`'s static pointer, the call it
made and the file that the call returned, which the handle is made of. -/
structure OpenResult (File : Type) where
  mem : Mem
  saveptr : Nat
  call : OpenCall
  file : Option File

/-- `fs_open(path)`, with the address that `kalloc` gives to the duplicate of
the path and the `open` operation of the default filesystem. -/
def fsOpen {File : Type} (open_ : OpenCall → Option File) (m : Mem)
    (path pathbuf saveptr : Nat) : Option (OpenResult File) := do
  let m ← strdup m path pathbuf
  let split ← splitInPlace fsPathSeparator spaceDelim m pathbuf saveptr
  let call : OpenCall := { parts := split.args, pathlen := split.count }
  return { mem := split.mem, saveptr := split.saveptr, call := call, file := open_ call }

/-! ## The components of a path -/

/-- The separator of path components. -/
def isSlash : UInt8 → Bool := isDelim fsPathSeparator

theorem isSlash_iff (c : UInt8) : isSlash c = true ↔ c = 47 := by
  simp [isSlash, isDelim, fsPathSeparator]

/-- The components of a path: its maximal non-empty runs without a separator. -/
def components (path : List UInt8) : List (List UInt8) := words isSlash path

/-- The call a list of components asks for: all of them in order, or a single
`NULL` part if there is none. -/
def componentCall : List (List UInt8) → OpenCall
  | [] => { parts := [none], pathlen := 1 }
  | c :: cs => { parts := (c :: cs).map some, pathlen := (c :: cs).length }

/-- What is left of a path behind its first component. -/
def behindFirst (path : List UInt8) : List UInt8 :=
  (path.dropWhile isSlash).dropWhile fun c => !isSlash c

/-- The condition under which the two passes of `fs_open` agree: behind the
first component there is nothing, a single separator, or a separator, any number
of spaces and one run without spaces and separators. -/
def Splittable (path : List UInt8) : Prop :=
  behindFirst path = [] ∨ ∃ tail, behindFirst path = 47 :: tail ∧
    (tail = [] ∨ ∃ lead w, Blank (isDelim spaceDelim) lead ∧ IsWord (isDelim spaceDelim) w ∧
      (∀ c ∈ w, isSlash c = false) ∧ tail = lead ++ w)

theorem behindFirst_word {lead w t : List UInt8} (hl : Blank isSlash lead)
    (hw : IsWord isSlash w) (ht : t.dropWhile (fun c => !isSlash c) = t) :
    behindFirst (lead ++ (w ++ t)) = t := by
  rw [behindFirst, dropWhile_append_word hl hw,
    List.dropWhile_append_of_pos fun c hc => by simp [hw.2 c hc], ht]

/-! ## Which paths are split into their components -/

section Open

variable {File : Type} (open_ : OpenCall → Option File) {m : Mem} {path pathbuf : Nat}
  (saveptr : Nat) {s : List UInt8}

/-- The call that `fs_open` makes is the split of the duplicate. -/
theorem fsOpen_call_iff {m' : Mem} {r : Split} {call : OpenCall}
    (hdup : strdup m path pathbuf = some m')
    (hr : splitInPlace fsPathSeparator spaceDelim m' pathbuf saveptr = some r) :
    (∃ res, fsOpen open_ m path pathbuf saveptr = some res ∧ res.call = call) ↔
      { parts := r.args, pathlen := r.count } = call := by
  simp [fsOpen, hdup, hr]

/-- `fs_open` calls `open` with the components of the path exactly when the path
is splittable. -/
theorem fsOpen_components_iff (h : StrAt m path s) (hbuf : pathbuf ≠ 0)
    (hfits : pathbuf + s.length < 2 ^ 32)
    (hdis : pathbuf + s.length < path ∨ path + s.length < pathbuf) :
    (∃ r, fsOpen open_ m path pathbuf saveptr = some r ∧
      r.call = componentCall (components s)) ↔ Splittable s := by
  obtain ⟨m', hdup, hcopy⟩ := strdup_spec h hbuf hfits hdis
  rcases word_cases isSlash s with
    hb | ⟨lead, w, hl, hw, rfl⟩ | ⟨lead, w, d, tail, hl, hw, hd, rfl⟩
  · -- no component: the token is NULL and nothing is counted
    obtain ⟨saveptr', hr⟩ := splitInPlace_blank fsPathSeparator spaceDelim saveptr hcopy hbuf hb
    have hbehind : behindFirst s = [] := by
      rw [behindFirst, List.dropWhile_eq_nil_iff.mpr hb, List.dropWhile_nil]
    rw [fsOpen_call_iff open_ saveptr hdup hr, components, words_of_blank hb]
    simp [componentCall, Split.args, argString, Splittable, hbehind]
  · -- a single component up to the end
    obtain ⟨r, hr, hcount, hargs, _⟩ :=
      splitInPlace_last fsPathSeparator spaceDelim saveptr hcopy hbuf hl hw
    have hbehind : behindFirst (lead ++ w) = [] := by
      simpa using behindFirst_word (t := []) hl hw rfl
    rw [fsOpen_call_iff open_ saveptr hdup hr, components, words_append_blank hl,
      words_of_isWord hw, hcount, hargs]
    simp [componentCall, Splittable, hbehind]
  · -- the rest is counted by spaces and named by its pieces
    obtain ⟨r, ps, hr, hps, hcount, hargs, _⟩ :=
      splitInPlace_cons fsPathSeparator spaceDelim saveptr hcopy hbuf hl hw hd
    have hd47 := (isSlash_iff d).mp hd
    subst hd47
    have hbehind : behindFirst (lead ++ (w ++ 47 :: tail)) = 47 :: tail :=
      behindFirst_word hl hw (by simp [hd])
    have hne : ∀ c, isDelim spaceDelim c = true → isSlash c = false := by
      intro c hc
      have h32 : c = 32 := by simpa [isDelim, spaceDelim] using hc
      subst h32
      rfl
    have htake := hps.take_eq_other_words_iff hne
    have hsplit : Splittable (lead ++ (w ++ 47 :: tail)) ↔
        ps.take (words (isDelim spaceDelim) tail).length = words isSlash tail := by
      rw [htake, Splittable, hbehind]
      simp
    rw [fsOpen_call_iff open_ saveptr hdup hr, components, words_append_blank hl,
      words_cons hw hd, hsplit, hcount, hargs]
    simp only [componentCall, OpenCall.mk.injEq, List.map_cons, List.cons.injEq, true_and,
      List.length_cons]
    constructor
    · rintro ⟨heq, _⟩
      exact List.map_injective_iff.mpr (Option.some_injective _) heq
    · intro heq
      have hlen := congrArg List.length heq
      rw [List.length_take, Nat.min_eq_left hps.length_le] at hlen
      exact ⟨congrArg (List.map some) heq, by omega⟩

end Open

/-- `a/b` is splittable, and is opened as its components. -/
theorem fsOpen_components_pair :
    ∃ r, fsOpen (fun _ => some ()) (stringMem 4096 [97, 47, 98]) 4096 8192 0 = some r ∧
      r.call = componentCall (components [97, 47, 98]) :=
  (fsOpen_components_iff _ 0 (strAt_stringMem (by decide) (by simp)) (by decide) (by simp)
    (by simp)).mpr
    (Or.inr ⟨[98], rfl, Or.inr ⟨[], [98], by simp [Blank],
      ⟨by simp, by simp [isDelim, spaceDelim]⟩,
      by simp [isSlash, isDelim, fsPathSeparator], rfl⟩⟩)

/-- `a/b/c` is opened as `a` and `b/c`. -/
theorem fsOpen_three_components :
    ¬ ∃ r, fsOpen (fun _ => some ()) (stringMem 4096 [97, 47, 98, 47, 99]) 4096 8192 0 = some r ∧
      r.call = componentCall (components [97, 47, 98, 47, 99]) := by
  have hrun : (fsOpen (fun _ => some ()) (stringMem 4096 [97, 47, 98, 47, 99]) 4096 8192 0).map
      OpenResult.call = some { parts := [some [97], some [98, 47, 99]], pathlen := 2 } := by
    decide +kernel
  rintro ⟨r, h, hcall⟩
  rw [h, Option.map_some, hcall] at hrun
  revert hrun
  decide

end Microboot.Kern.Fs
