/-
  Kern/Fs/DirEnt.lean --- finding an entry of a directory, kern/fs/fat.c.

  `find_dir_ent` goes through the entries of a buffer up to the first that ends the
  directory or bears the name.  Only behind an entry that does neither it compares
  its pointer with the end of the buffer, and it goes on as long as the pointer is
  not past the end: behind the last entry it is not.  So the call stays inside the
  buffer exactly if one of the entries decides.

  `LoopsTo` is the loop as a relation between its rounds; `Decides` says which
  rounds are the last.
-/
import Mathlib.Data.Nat.Find
import Microboot.Foundation.Trace
import Microboot.Kern.Fs.DirName
import Microboot.Kern.Fs.FatSectors

set_option autoImplicit false

namespace Microboot.Kern.Fs

open Microboot.Foundation

/-! ## Entries -/

/-- The entry `i` of a directory. -/
def entryAt (data : List UInt8) (i : Nat) : List UInt8 :=
  fit fatDirSize (data.drop (fatDirSize * i))

/-- The entry ends the directory. -/
def Terminator (dir : List UInt8) : Prop := byteOf dir 0 = 0

instance (dir : List UInt8) : Decidable (Terminator dir) := inferInstanceAs (Decidable (_ = _))

/-- The search for a name ends at the entry. -/
def Decides (namebuf dir : List UInt8) : Prop := Terminator dir ∨ Bears namebuf dir

instance (namebuf dir : List UInt8) : Decidable (Decides namebuf dir) :=
  inferInstanceAs (Decidable (_ ∨ _))

section Entry

variable {σ : Type} (platform : Platform σ) {buf : Buf} {data : List UInt8} {i : Nat}

/-- An entry inside of the data does not depend on what is behind. -/
theorem entryAt_append (h : fatDirSize * (i + 1) ≤ data.length) (behind : List UInt8) :
    fit fatDirSize ((data ++ behind).drop (fatDirSize * i)) = entryAt data i := by
  have hle : fatDirSize * i + fatDirSize ≤ data.length := by rwa [Nat.mul_add, Nat.mul_one] at h
  rw [entryAt, List.drop_append_of_le_length (by omega), fit_of_le, fit_of_le,
    List.take_append_of_le_length]
  all_goals
    simp only [List.length_append, List.length_drop]
    omega

/-- Looking at an entry changes nothing of the heap. -/
theorem entry_run (buf : Buf) (i : Nat) (w : FatWorld σ) :
    ∃ behind s, (FatM.entry platform buf i).run w =
      some (.ok (fit fatDirSize ((buf.bytes ++ behind).drop (fatDirSize * i))),
        { w with dev := s }) :=
  ⟨_, _, rfl⟩

/-- An entry of the buffer. -/
theorem entry_inside (h : fatDirSize * (i + 1) ≤ buf.bytes.length) (w : FatWorld σ) :
    ∃ s, (FatM.entry platform buf i).run w =
      some (.ok (entryAt buf.bytes i), { w with dev := s }) := by
  obtain ⟨behind, s, hrun⟩ := entry_run platform buf i w
  rw [entryAt_append h] at hrun
  exact ⟨s, hrun⟩

end Entry

/-! ## The loop -/

section Loop

variable {σ : Type} (platform : Platform σ) (name : List UInt8) (buf : Buf) (bufsz : Nat)

/-- From the entry `i` the loop comes to the entry `j`: the entries between neither end
the directory nor bear the name, and the pointer behind them is not past the end. -/
inductive LoopsTo : Nat → FatWorld σ → Nat → FatWorld σ → Prop
  | here (i : Nat) (w : FatWorld σ) : LoopsTo i w i w
  | next {i j : Nat} {w w₁ w' : FatWorld σ} {dir namebuf : List UInt8} :
      (FatM.entry platform buf i).run w = some (.ok dir, w₁) → ¬ Terminator dir →
      nameBuf name = .ok namebuf → ¬ Bears namebuf dir → ¬ fatDirSize * (i + 1) > bufsz →
      LoopsTo (i + 1) w₁ j w' → LoopsTo i w j w'

/-- The call looks at the entry `j`. -/
def Examines (w : FatWorld σ) (j : Nat) : Prop :=
  ∃ w', LoopsTo platform name buf bufsz 0 w j w'

variable {platform name buf bufsz} {i j fuel : Nat} {w w₁ w' : FatWorld σ}
  {dir namebuf : List UInt8}

/-- A round of the loop. -/
theorem findDirEntLoop_round (h : (FatM.entry platform buf i).run w = some (.ok dir, w₁)) :
    (findDirEntLoop platform name buf bufsz (fuel + 1) i).run w =
      if Terminator dir then some (.ok none, w₁)
      else match nameBuf name with
        | .error stop => some (.error stop, w₁)
        | .ok namebuf =>
          if Bears namebuf dir then some (.ok (some i), w₁)
          else if fatDirSize * (i + 1) > bufsz then some (.ok none, w₁)
          else (findDirEntLoop platform name buf bufsz fuel (i + 1)).run w₁ := by
  rw [findDirEntLoop, run_bind_ok _ h]
  change (if Terminator dir then _ else _ : FatM σ (Option Nat)).run w₁ = _
  split
  · rfl
  cases nameBuf name with
  | error stop => rfl
  | ok namebuf =>
    change (if Bears namebuf dir then _ else _ : FatM σ (Option Nat)).run w₁ = _
    dsimp only
    split
    · rfl
    split
    · rfl
    · rfl

/-- The rounds of `LoopsTo` are those of the loop. -/
theorem LoopsTo.run (h : LoopsTo platform name buf bufsz i w j w') (fuel : Nat) :
    i ≤ j ∧ (findDirEntLoop platform name buf bufsz (fuel + (j - i)) i).run w =
      (findDirEntLoop platform name buf bufsz fuel j).run w' := by
  induction h with
  | here i w => exact ⟨Nat.le_refl i, by rw [Nat.sub_self, Nat.add_zero]⟩
  | @next i j w w₁ w' dir namebuf hentry hterm hname hbears hbound _ ih =>
    obtain ⟨hle, hrun⟩ := ih
    refine ⟨by omega, ?_⟩
    rw [show fuel + (j - i) = fuel + (j - (i + 1)) + 1 by omega, findDirEntLoop_round hentry,
      if_neg hterm, hname]
    dsimp only
    rw [if_neg hbears, if_neg hbound, hrun]

/-- Through entries of the buffer that do not decide the loop goes on. -/
theorem loopsTo_of_undecided (platform : Platform σ) (hname : nameBuf name = .ok namebuf)
    (hsize : bufsz ≤ buf.bytes.length) (hij : i ≤ j) (hj : fatDirSize * j ≤ bufsz)
    (hpass : ∀ k, i ≤ k → k < j → ¬ Decides namebuf (entryAt buf.bytes k)) (w : FatWorld σ) :
    ∃ s, LoopsTo platform name buf bufsz i w j { w with dev := s } := by
  induction hij using Nat.decreasingInduction generalizing w with
  | self => exact ⟨w.dev, .here j w⟩
  | of_succ i hlt ih =>
    have hfits : fatDirSize * (i + 1) ≤ bufsz := Nat.le_trans (Nat.mul_le_mul_left _ hlt) hj
    obtain ⟨s₁, hentry⟩ :=
      entry_inside platform (Nat.le_trans hfits hsize) w
    obtain ⟨s, hrest⟩ := ih (fun k hk hkj => hpass k (by omega) hkj) { w with dev := s₁ }
    have hundecided := hpass i (Nat.le_refl i) hlt
    exact ⟨s, .next hentry (fun h => hundecided (.inl h)) hname (fun h => hundecided (.inr h))
      (by omega) hrest⟩

/-- The loop does not pass an entry of the buffer that decides. -/
theorem LoopsTo.le_of_decides (h : LoopsTo platform name buf bufsz i w j w') {k : Nat}
    (hk : fatDirSize * (k + 1) ≤ buf.bytes.length) (hik : i ≤ k)
    (hdecides : Terminator (entryAt buf.bytes k) ∨
      ∃ namebuf, nameBuf name = .ok namebuf ∧ Decides namebuf (entryAt buf.bytes k)) :
    j ≤ k := by
  induction h with
  | here i w => exact hik
  | @next i j w w₁ w' dir namebuf hentry hterm hname hbears _ _ ih =>
    by_cases heq : i = k
    · exfalso
      subst heq
      obtain ⟨s, hinside⟩ := entry_inside platform hk w
      rw [hinside] at hentry
      cases hentry
      rcases hdecides with hend | ⟨nb, hnb, hend | hend⟩
      · exact hterm hend
      · exact hterm hend
      · rw [hname, Except.ok.injEq] at hnb
        exact hbears (hnb ▸ hend)
    · exact ih (by omega)

end Loop

/-! ## find_dir_ent -/

/-- One of the first `n` entries ends the directory or bears the name, for which the
name is built, unless the first entry ends the directory. -/
def EndsInside (name data : List UInt8) (n : Nat) : Prop :=
  (0 < n ∧ Terminator (entryAt data 0)) ∨
    ∃ namebuf, nameBuf name = .ok namebuf ∧ ∃ i < n, Decides namebuf (entryAt data i)

section Find

variable {σ : Type} (platform : Platform σ) {name namebuf : List UInt8} {buf : Buf} {n k : Nat}
  {w : FatWorld σ}

/-- The first round, if the first entry ends the directory. -/
theorem findDirEnt_empty (name : List UInt8) (hlen : buf.bytes.length = fatDirSize * n) (hn : 0 < n)
    (hterm : Terminator (entryAt buf.bytes 0)) (w : FatWorld σ) :
    ∃ s, (findDirEnt platform name buf (fatDirSize * n)).run w =
      some (.ok none, { w with dev := s }) := by
  have hfits : fatDirSize * (0 + 1) ≤ buf.bytes.length := by
    rw [hlen]
    exact Nat.mul_le_mul_left _ hn
  obtain ⟨s, hentry⟩ := entry_inside platform hfits w
  exact ⟨s, by rw [findDirEnt, findDirEntLoop_round hentry, if_pos hterm]⟩

/-- The first entry that decides gives the result. -/
theorem findDirEnt_decided (hlen : buf.bytes.length = fatDirSize * n)
    (hname : nameBuf name = .ok namebuf) (hk : k < n)
    (hfirst : ∀ i < k, ¬ Decides namebuf (entryAt buf.bytes i))
    (hdecides : Decides namebuf (entryAt buf.bytes k)) (w : FatWorld σ) :
    ∃ s, (findDirEnt platform name buf (fatDirSize * n)).run w =
      some (.ok (if Terminator (entryAt buf.bytes k) then none else some k),
        { w with dev := s }) := by
  have hfits : fatDirSize * (k + 1) ≤ fatDirSize * n := Nat.mul_le_mul_left _ hk
  obtain ⟨s₁, hloops⟩ := loopsTo_of_undecided platform hname (Nat.le_of_eq hlen.symm)
    (Nat.zero_le k) (Nat.le_trans (Nat.mul_le_mul_left _ (Nat.le_succ k)) hfits)
    (fun i _ hi => hfirst i hi) w
  have hrun := (hloops.run (n - k + 1)).2
  obtain ⟨s, hentry⟩ :=
    entry_inside platform (hlen ▸ hfits) ({ w with dev := s₁ } : FatWorld σ)
  have hfuel : fatDirSize * n / fatDirSize + 1 = n - k + 1 + (k - 0) := by
    rw [Nat.mul_div_cancel_left n (by decide)]
    omega
  refine ⟨s, ?_⟩
  rw [findDirEnt, hfuel, hrun, findDirEntLoop_round hentry]
  by_cases hterm : Terminator (entryAt buf.bytes k)
  · rw [if_pos hterm, if_pos hterm]
  · rw [if_neg hterm, if_neg hterm, hname]
    dsimp only
    rw [if_pos (hdecides.resolve_left hterm)]

/-- If no entry decides, the loop looks behind the last one. -/
theorem examines_end (hlen : buf.bytes.length = fatDirSize * n)
    (hname : nameBuf name = .ok namebuf)
    (hpass : ∀ i < n, ¬ Decides namebuf (entryAt buf.bytes i)) (w : FatWorld σ) :
    Examines platform name buf (fatDirSize * n) w n := by
  obtain ⟨s, hloops⟩ := loopsTo_of_undecided platform hname (Nat.le_of_eq hlen.symm)
    (Nat.zero_le n) (Nat.le_refl _) (fun i _ hi => hpass i hi) w
  exact ⟨_, hloops⟩

/-- Without a name the call stops, unless the first entry ends the directory. -/
theorem findDirEnt_unnamed (hlen : buf.bytes.length = fatDirSize * n) (hn : 0 < n)
    (hterm : ¬ Terminator (entryAt buf.bytes 0)) (hfits : ¬ FitsNameBuf name) (w : FatWorld σ) :
    ∃ w', (findDirEnt platform name buf (fatDirSize * n)).run w =
      some (.error .undefined, w') := by
  have hfirst : fatDirSize * (0 + 1) ≤ buf.bytes.length := by
    rw [hlen]
    exact Nat.mul_le_mul_left _ hn
  obtain ⟨s, hentry⟩ := entry_inside platform hfirst w
  refine ⟨{ w with dev := s }, ?_⟩
  rw [findDirEnt, findDirEntLoop_round hentry, if_neg hterm, nameBuf_eq_error hfits]

/-- In a buffer of `n` entries, `find_dir_ent` looks at no other and returns NULL or one
of them exactly if one of them ends the directory or bears the name. -/
theorem findDirEnt_inside_iff (hlen : buf.bytes.length = fatDirSize * n) :
    ((∀ j, Examines platform name buf (fatDirSize * n) w j → j < n) ∧
      ∃ found w', (findDirEnt platform name buf (fatDirSize * n)).run w = some (.ok found, w') ∧
        ∀ i ∈ found, i < n) ↔ EndsInside name buf.bytes n := by
  constructor
  · rintro ⟨hexamines, found, w', hrun, -⟩
    have hn : 0 < n := hexamines 0 ⟨w, .here 0 w⟩
    by_cases hterm : Terminator (entryAt buf.bytes 0)
    · exact .inl ⟨hn, hterm⟩
    by_cases hfits : FitsNameBuf name
    · obtain ⟨namebuf, hname⟩ := nameBuf_of_fits hfits
      refine .inr ⟨namebuf, hname, ?_⟩
      by_contra hnone
      have hend := examines_end platform hlen hname
        (fun i hi hdecides => hnone ⟨i, hi, hdecides⟩) w
      exact absurd (hexamines n hend) (Nat.lt_irrefl n)
    · obtain ⟨w₁, herror⟩ := findDirEnt_unnamed platform hlen hn hterm hfits w
      rw [herror] at hrun
      cases hrun
  · -- the first entry that decides is the last that is looked at
    have hbound : ∀ k < n, fatDirSize * (k + 1) ≤ buf.bytes.length := by
      intro k hk
      rw [hlen]
      exact Nat.mul_le_mul_left _ hk
    rintro (⟨hn, hterm⟩ | ⟨namebuf, hname, hdecided⟩)
    · obtain ⟨s, hrun⟩ := findDirEnt_empty platform name hlen hn hterm w
      refine ⟨fun j ⟨w', hj⟩ => ?_, none, _, hrun, nofun⟩
      have := hj.le_of_decides (hbound 0 hn) (Nat.le_refl 0) (.inl hterm)
      omega
    · obtain ⟨hk, hdecides⟩ := Nat.find_spec hdecided
      have hfirst : ∀ i < Nat.find hdecided, ¬ Decides namebuf (entryAt buf.bytes i) :=
        fun i hi h => Nat.find_min hdecided hi ⟨Nat.lt_trans hi hk, h⟩
      obtain ⟨s, hrun⟩ := findDirEnt_decided platform hlen hname hk hfirst hdecides w
      refine ⟨fun j ⟨w', hj⟩ => ?_, _, _, hrun, fun i hi => ?_⟩
      · have := hj.le_of_decides (hbound _ hk) (Nat.zero_le _) (.inr ⟨namebuf, hname, hdecides⟩)
        omega
      · split at hi
        · cases hi
        · cases hi
          exact hk

end Find

/-- The entry of a file without contents, with this name. -/
def emptyEntry (name : List UInt8) : List UInt8 := name.take 11 ++ List.replicate 21 0

/-- A directory of one entry, the file `A`, which fills its buffer. -/
def fullDir : Buf :=
  { ptr := some ⟨4096, 32⟩, bytes := emptyEntry ([65] ++ List.replicate 10 32) }

theorem fullDir_length : fullDir.bytes.length = fatDirSize * 1 := by decide

/-- The search for `A` stays inside. -/
theorem findDirEnt_inside_fullDir :
    ((∀ j, Examines (diskPlatform fun _ => []) [65] fullDir (fatDirSize * 1) ⟨(), [], []⟩ j →
        j < 1) ∧
      ∃ found w', (findDirEnt (diskPlatform fun _ => []) [65] fullDir (fatDirSize * 1)).run
        ⟨(), [], []⟩ = some (.ok found, w') ∧ ∀ i ∈ found, i < 1) ↔
      EndsInside [65] fullDir.bytes 1 :=
  findDirEnt_inside_iff (diskPlatform fun _ => []) fullDir_length

/-- The search for `B` looks at the entry behind the only one. -/
theorem findDirEnt_overruns :
    ¬∀ (σ : Type) (platform : Platform σ) (name : List UInt8) (buf : Buf) (n : Nat)
      (w : FatWorld σ), buf.bytes.length = fatDirSize * n →
      (∀ j, Examines platform name buf (fatDirSize * n) w j → j < n) ∧
        ∃ found w', (findDirEnt platform name buf (fatDirSize * n)).run w = some (.ok found, w') ∧
          ∀ i ∈ found, i < n := by
  intro h
  obtain ⟨namebuf, hname⟩ : ∃ namebuf, nameBuf [66] = .ok namebuf := nameBuf_of_fits (by decide)
  have hpass : ∀ i < 1, ¬ Decides namebuf (entryAt fullDir.bytes i) := by
    cases hname
    decide
  have hend := examines_end (diskPlatform fun _ => []) fullDir_length hname hpass ⟨(), [], []⟩
  have hinside := h Unit (diskPlatform fun _ => []) [66] fullDir 1 ⟨(), [], []⟩ fullDir_length
  exact absurd (hinside.1 1 hend) (by decide)

/-! ## Strings that are no names -/

/-- The component is a base of up to 8 characters and, behind the only dot, an extension
of up to 3, or it has up to 11 characters and no dot. -/
def IsName (name : List UInt8) : Prop :=
  if 46 ∈ name then (baseOf name).length ≤ 8 ∧ (extOf name).length ≤ 3 ∧ 46 ∉ extOf name
  else name.length ≤ 11

/-- In every search for the component all writes to `namebuf` are inside of it, and no
entry is found if the component is no name. -/
def NameSafe (name : List UInt8) : Prop :=
  ∀ (σ : Type) (platform : Platform σ) (buf : Buf) (bufsz : Nat) (w w' : FatWorld σ)
    (result : Except Stop (Option Nat)),
    (findDirEnt platform name buf bufsz).run w = some (result, w') →
      result ≠ .error .undefined ∧ (¬ IsName name → ∀ i, result ≠ .ok (some i))

section Names

variable {name namebuf : List UInt8}

/-- What a search ends with, round by round. -/
theorem findDirEntLoop_safe {σ : Type} {platform : Platform σ} {buf : Buf} {bufsz fuel i : Nat}
    {w w' : FatWorld σ} {result : Except Stop (Option Nat)} (hname : nameBuf name = .ok namebuf)
    (hnone : ¬ IsName name → ∀ dir, ¬ Bears namebuf dir)
    (hrun : (findDirEntLoop platform name buf bufsz fuel i).run w = some (result, w')) :
    result ≠ .error .undefined ∧ (¬ IsName name → ∀ k, result ≠ .ok (some k)) := by
  induction fuel generalizing i w with
  | zero =>
    cases hrun
    exact ⟨by simp, fun _ k h => by cases h⟩
  | succ fuel ih =>
    obtain ⟨behind, s, hentry⟩ := entry_run platform buf i w
    rw [findDirEntLoop_round hentry, hname] at hrun
    split at hrun
    · cases hrun
      exact ⟨by simp, fun _ k h => by cases h⟩
    dsimp only at hrun
    split at hrun
    · rename_i hbears
      cases hrun
      exact ⟨by simp, fun hno => absurd hbears (hnone hno _)⟩
    split at hrun
    · cases hrun
      exact ⟨by simp, fun _ k h => by cases h⟩
    · exact ih hrun

/-- The entry with the bytes of `namebuf` does not end a directory, and has the name. -/
theorem NameBytes.decides_emptyEntry (h : NameBytes namebuf) (hlast : namebuf[11]? = some 0) :
    ¬ Terminator (emptyEntry namebuf) ∧ Bears namebuf (emptyEntry namebuf) := by
  have htake : (emptyEntry namebuf).take 11 = namebuf.take 11 := by
    rw [emptyEntry, List.take_left']
    rw [List.length_take, h.length]
    rfl
  refine ⟨fun hzero => ?_, by rw [h.bears_iff hlast, htake]⟩
  have hlt : 0 < namebuf.length := by rw [h.length]; decide
  have hhead : (emptyEntry namebuf)[0]? = namebuf[0]? := by
    rw [emptyEntry, List.getElem?_append_left (by rw [List.length_take, h.length]; decide),
      List.getElem?_take_of_lt (by decide)]
  rw [Terminator, byteOf, List.getD_eq_getElem?_getD, hhead, List.getElem?_eq_getElem hlt,
    Option.getD_some] at hzero
  refine h.front 0 (by decide) ?_
  rw [List.getElem?_eq_getElem hlt]
  exact congrArg some (UInt8.toNat.inj hzero)

theorem NameBytes.length_emptyEntry (h : NameBytes namebuf) :
    (emptyEntry namebuf).length = fatDirSize := by
  rw [emptyEntry, List.length_append, List.length_take, h.length, List.length_replicate]
  rfl

/-- That entry is found. -/
theorem findDirEnt_emptyEntry (hname : nameBuf name = .ok namebuf) (hbytes : NameBytes namebuf)
    (hlast : namebuf[11]? = some 0) {σ : Type} (platform : Platform σ) (w : FatWorld σ) :
    ∃ w', (findDirEnt platform name { ptr := none, bytes := emptyEntry namebuf }
      (fatDirSize * 1)).run w = some (.ok (some 0), w') := by
  have hlen : (emptyEntry namebuf).length = fatDirSize * 1 := hbytes.length_emptyEntry
  have hentry : entryAt (emptyEntry namebuf) 0 = emptyEntry namebuf := fit_eq_self hlen
  obtain ⟨hterm, hbears⟩ := hbytes.decides_emptyEntry hlast
  rw [← hentry] at hterm hbears
  obtain ⟨s, hrun⟩ := findDirEnt_decided platform
    (show ({ ptr := none, bytes := emptyEntry namebuf } : Buf).bytes.length = _ from hlen) hname
    Nat.one_pos nofun (.inr hbears) w
  rw [if_neg hterm] at hrun
  exact ⟨_, hrun⟩

/-- The writes stay inside and no other string than a name is found exactly if all
characters fit, and the string is a name or takes all of the buffer, terminator
included. -/
theorem nameSafe_iff (hnul : 0 ∉ name) :
    NameSafe name ↔ FitsNameBuf name ∧ (IsName name ∨ ¬ LeavesNul name) := by
  constructor
  · intro hsafe
    have hfits : FitsNameBuf name := by
      by_contra hfits
      obtain ⟨w', hrun⟩ := findDirEnt_unnamed (diskPlatform fun _ => []) fullDir_length
        (by decide) (by decide) hfits ⟨(), [], []⟩
      exact (hsafe _ _ _ _ _ _ _ hrun).1 rfl
    refine ⟨hfits, ?_⟩
    by_contra hneither
    rw [not_or, not_not] at hneither
    obtain ⟨namebuf, hname⟩ := nameBuf_of_fits hfits
    obtain ⟨hbytes, hlast⟩ := nameBuf_spec hnul hname
    obtain ⟨w', hrun⟩ := findDirEnt_emptyEntry hname hbytes (hlast.mpr hneither.2)
      (diskPlatform fun _ => []) ⟨(), [], []⟩
    exact (hsafe _ _ _ _ _ _ _ hrun).2 hneither.1 0 rfl
  · rintro ⟨hfits, hname⟩ σ platform buf bufsz w w' result hrun
    obtain ⟨namebuf, hbuf⟩ := nameBuf_of_fits hfits
    obtain ⟨hbytes, hlast⟩ := nameBuf_spec hnul hbuf
    refine findDirEntLoop_safe hbuf (fun hno dir => ?_) hrun
    exact hbytes.not_bears fun h => hname.resolve_left hno (hlast.mp h)

/-- The command `a` as the name of a program. -/
theorem nameSafe_iff_program :
    NameSafe [97, 46, 101, 108, 102] ↔ FitsNameBuf [97, 46, 101, 108, 102] ∧
      (IsName [97, 46, 101, 108, 102] ∨ ¬ LeavesNul [97, 46, 101, 108, 102]) :=
  nameSafe_iff (by decide)

/-- A base of 13 characters leaves `namebuf`; one of 9 runs into the extension, and the
entry of another file is found. -/
theorem findDirEnt_longNames :
    (¬ NameSafe (List.replicate 13 65 ++ [46])) ∧
      ¬ NameSafe ([65, 66, 67, 68, 69, 70, 71, 72] ++ [73, 46, 84, 88]) := by
  constructor
  · intro hsafe
    obtain ⟨w', hrun⟩ := findDirEnt_unnamed (diskPlatform fun _ => []) fullDir_length
      (by decide) (by decide) (show ¬ FitsNameBuf (List.replicate 13 65 ++ [46]) by decide)
      ⟨(), [], []⟩
    exact (hsafe _ _ _ _ _ _ _ hrun).1 rfl
  · intro hsafe
    have hname : nameBuf ([65, 66, 67, 68, 69, 70, 71, 72] ++ [73, 46, 84, 88]) =
        .ok [65, 66, 67, 68, 69, 70, 71, 72, 84, 88, 32, 0] := by decide
    obtain ⟨w', hrun⟩ := findDirEnt_emptyEntry hname
      (nameBuf_spec (by decide) hname).1 (by decide) (diskPlatform fun _ => []) ⟨(), [], []⟩
    exact (hsafe _ _ _ _ _ _ _ hrun).2 (by unfold IsName; decide) 0 rfl

end Names

/-! ## Names in 8.3 form -/

/-- An ASCII letter in lower case, any other byte as it is. -/
def foldCase (c : UInt8) : UInt8 := if 65 ≤ c ∧ c ≤ 90 then c + 32 else c

/-- The bytes are equal but for the case of ASCII letters. -/
def SameName (a b : List UInt8) : Prop := a.map foldCase = b.map foldCase

instance (a b : List UInt8) : Decidable (SameName a b) := inferInstanceAs (Decidable (_ = _))

/-- The component of a path with this base and extension. -/
structure Name83 (base ext name : List UInt8) : Prop where
  base_pos : 0 < base.length
  base_le : base.length ≤ 8
  ext_le : ext.length ≤ 3
  chars : ∀ c ∈ base ++ ext, c ≠ 0 ∧ c ≠ 46 ∧ c ≠ 32
  name_eq : (name = base ∧ ext = []) ∨ name = base ++ 46 :: ext

/-- The 11 bytes of an entry: the base and the extension, filled up with blanks. -/
def padName (base ext : List UInt8) : List UInt8 :=
  base ++ List.replicate (8 - base.length) 32 ++ (ext ++ List.replicate (3 - ext.length) 32)

section Names83

variable {base ext name : List UInt8}

theorem tolower_eq : ∀ c : UInt8, tolower c = foldCase c :=
  byte_all (by decide +kernel)

namespace Name83

theorem length_padName (h : Name83 base ext name) : (padName base ext).length = 11 := by
  have := h.base_le
  have := h.ext_le
  simp only [padName, List.length_append, List.length_replicate]
  omega

/-- `namebuf` holds the padded name. -/
theorem nameBuf_eq (h : Name83 base ext name) : nameBuf name = .ok (padName base ext ++ [0]) := by
  have hbase := h.base_le
  have hext := h.ext_le
  have hdot : 46 ∉ base := fun hmem => (h.chars 46 (List.mem_append_left _ hmem)).2.1 rfl
  have hfirst : overwrite (List.replicate 11 32 ++ [0]) 0 base =
      base ++ List.replicate (8 - base.length) 32 ++ (List.replicate 3 32 ++ [0]) := by
    have hsplit : (List.replicate 11 32 ++ [0] : List UInt8) =
        [] ++ (List.replicate 8 32 ++ (List.replicate 3 32 ++ [0])) := rfl
    have hwrite := overwrite_append [] (List.replicate 8 32) (List.replicate 3 32 ++ [0])
      (show base.length ≤ (List.replicate 8 (32 : UInt8)).length by
        rw [List.length_replicate]; exact hbase)
    rw [List.drop_replicate, List.nil_append] at hwrite
    rw [hsplit]
    exact hwrite
  rcases h.name_eq with ⟨rfl, rfl⟩ | rfl
  · rw [nameBuf_plain hdot, if_pos (by omega), hfirst, padName]
    simp
  · have hlen : (base ++ List.replicate (8 - base.length) (32 : UInt8)).length = 8 := by
      rw [List.length_append, List.length_replicate]
      omega
    have hsecond := overwrite_append (base ++ List.replicate (8 - base.length) 32)
      (List.replicate 3 32) [0] (show ext.length ≤ (List.replicate 3 (32 : UInt8)).length by
        rw [List.length_replicate]; exact hext)
    rw [hlen, List.drop_replicate] at hsecond
    rw [nameBuf_dotted hdot, if_pos ⟨by omega, by omega⟩, hfirst, hsecond, padName]
    simp only [List.append_assoc]

theorem nameBytes (h : Name83 base ext name) : NameBytes (padName base ext ++ [0]) := by
  have hnul : 0 ∉ name := by
    have hparts : 0 ∉ base ++ ext := fun hmem => (h.chars 0 hmem).1 rfl
    rw [List.mem_append, not_or] at hparts
    rcases h.name_eq with ⟨rfl, -⟩ | rfl
    · exact hparts.1
    · simp [hparts]
  exact (nameBuf_spec hnul h.nameBuf_eq).1

theorem last_eq (h : Name83 base ext name) : (padName base ext ++ [0])[11]? = some 0 := by
  have hlen := h.length_padName
  rw [List.getElem?_append_right (by omega), hlen]
  rfl

/-- An entry bears the name if its 11 bytes are the padded name, whatever the case. -/
theorem bears_iff (h : Name83 base ext name) (dir : List UInt8) :
    Bears (padName base ext ++ [0]) dir ↔ SameName (padName base ext) (dir.take 11) := by
  rw [h.nameBytes.bears_iff h.last_eq, List.take_left' h.length_padName, SameName,
    funext tolower_eq]

end Name83

/-- In a directory with a terminator, `find_dir_ent` returns the first entry in front of
it that has the padded name, whatever the case of letters, or NULL. -/
theorem findDirEnt_first {σ : Type} {platform : Platform σ} {buf : Buf} {n t : Nat}
    {w : FatWorld σ} (h : Name83 base ext name) (hlen : buf.bytes.length = fatDirSize * n)
    (ht : t < n) (hterm : Terminator (entryAt buf.bytes t))
    (hfirst : ∀ i < t, ¬ Terminator (entryAt buf.bytes i)) :
    ∃ w', (findDirEnt platform name buf (fatDirSize * n)).run w =
      some (.ok ((List.range t).find? fun i =>
        SameName (padName base ext) ((entryAt buf.bytes i).take 11)), w') := by
  cases hfind : (List.range t).find? fun i =>
      SameName (padName base ext) ((entryAt buf.bytes i).take 11) with
  | none =>
    have hpass : ∀ i < t, ¬ Decides (padName base ext ++ [0]) (entryAt buf.bytes i) := by
      intro i hi hdecides
      have hno := List.find?_eq_none.mp hfind i (List.mem_range.mpr hi)
      rcases hdecides with hend | hbears
      · exact hfirst i hi hend
      · exact hno (decide_eq_true ((h.bears_iff _).mp hbears))
    obtain ⟨s, hrun⟩ := findDirEnt_decided platform hlen h.nameBuf_eq ht hpass
      (.inl hterm) w
    rw [if_pos hterm] at hrun
    exact ⟨_, hrun⟩
  | some i =>
    obtain ⟨hsame, hi, hbefore⟩ := List.find?_range_eq_some.mp hfind
    have hi' : i < t := List.mem_range.mp hi
    have hpass : ∀ j < i, ¬ Decides (padName base ext ++ [0]) (entryAt buf.bytes j) := by
      intro j hj hdecides
      rcases hdecides with hend | hbears
      · exact hfirst j (by omega) hend
      · have hno := hbefore j hj
        simp [(h.bears_iff _).mp hbears] at hno
    obtain ⟨s, hrun⟩ := findDirEnt_decided platform hlen h.nameBuf_eq (by omega) hpass
      (.inr ((h.bears_iff _).mpr (of_decide_eq_true hsame))) w
    rw [if_neg (hfirst i hi')] at hrun
    exact ⟨_, hrun⟩

/-- The file `A`, and behind it the end of the directory. -/
def endedDir : Buf :=
  { ptr := some ⟨4096, 64⟩, bytes := fullDir.bytes ++ List.replicate 32 0 }

/-- The component `a` finds the file. -/
theorem findDirEnt_first_endedDir :
    ∃ w', (findDirEnt (diskPlatform fun _ => []) [97] endedDir (fatDirSize * 2)).run
        ⟨(), [], []⟩ =
      some (.ok ((List.range 1).find? fun i =>
        SameName (padName [97] []) ((entryAt endedDir.bytes i).take 11)), w') :=
  findDirEnt_first ⟨by decide, by decide, by decide, by decide +kernel, .inl ⟨rfl, rfl⟩⟩ (by decide)
    (by decide) (by decide) (by decide)

end Names83

end Microboot.Kern.Fs
