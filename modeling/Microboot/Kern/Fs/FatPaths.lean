/-
  Kern/Fs/FatPaths.lean --- opening a path, kern/fs/fat.c.

  `find_dir` does not look at the attributes of the entries on its way: it takes what
  the chain of any of them holds for the entries of a directory.  Of a file without
  contents there is no buffer, and the call stops when it frees it.

  `Volume.Names` says which paths lead to an entry; `Volume.Misses` is the way down
  that the code takes, up to contents that end without an entry of the name.  There
  the call returns NULL.  If a path neither names an entry nor misses one, it depends
  on what is behind the buffers what the call does.
-/
import Mathlib.Data.List.GetD
import Microboot.Kern.Fs.FatRoot

set_option autoImplicit false

namespace Microboot.Kern.Fs

open Microboot.Foundation

/-! ## Names in a directory -/

/-- The component is a name in 8.3 form. -/
def Is83 (name : List UInt8) : Prop := Name83 (baseOf name) (extOf name) name

/-- The 11 bytes of an entry with the name. -/
def entryName (name : List UInt8) : List UInt8 := padName (baseOf name) (extOf name)

/-- The entry has the name, whatever the case of letters. -/
def HasName (name dir : List UInt8) : Prop := SameName (entryName name) (dir.take 11)

/-- In front of the entry `i` no entry ends the directory or has the name. -/
def Passes (name data : List UInt8) (i : Nat) : Prop :=
  ∀ j < i, ¬ Terminator (entryAt data j) ∧ ¬ HasName name (entryAt data j)

/-- The first entry with the name, in front of the end of the directory, is `dir`. -/
def Finds (name data dir : List UInt8) : Prop :=
  ∃ i, fatDirSize * (i + 1) ≤ data.length ∧ Passes name data i ∧
    ¬ Terminator (entryAt data i) ∧ HasName name (entryAt data i) ∧ dir = entryAt data i

/-- The directory ends, and no entry in front of its end has the name. -/
def Lacks (name data : List UInt8) : Prop :=
  ∃ i, fatDirSize * (i + 1) ≤ data.length ∧ Passes name data i ∧ Terminator (entryAt data i)

instance (name dir : List UInt8) : Decidable (HasName name dir) :=
  inferInstanceAs (Decidable (SameName _ _))

/-! ## Paths -/

namespace Volume

/-- From the entries of a directory on the path names an entry: each component but the
last that of a directory, whose clusters have the entries of the next. -/
inductive Names (v : Volume) : List UInt8 → List (List UInt8) → Prop
  | last {data name dir : List UInt8} : Finds name data dir → v.Names data [name]
  | down {data name dir : List UInt8} {names : List (List UInt8)} {c : Nat} {cs : List Nat} :
      Finds name data dir → (FatDir.ofEntry dir).attrs &&& fatAttrDir ≠ 0 →
      (FatDir.ofEntry dir).clusterLow = c → v.Chain (c :: cs) →
      v.Names ((c :: cs).flatMap v.clusterBytes) names → v.Names data (name :: names)

/-- Going down the path from contents to contents, whatever the entries are of, leads to
contents that end without an entry of the next name. -/
inductive Misses (v : Volume) : List UInt8 → List (List UInt8) → Prop
  | here {data name : List UInt8} {names : List (List UInt8)} : Lacks name data →
      v.Misses data (name :: names)
  | down {data name dir bytes : List UInt8} {names : List (List UInt8)} :
      Finds name data dir → v.HoldsFrom (FatDir.ofEntry dir).clusterLow bytes →
      v.Misses bytes names → v.Misses data (name :: names)

end Volume

/-- Whatever the platform on which the disk is, a handle is returned only for a path that
names an entry, and NULL is returned for any other. -/
def OpensNamed (v : Volume) (path : List PathPart) : Prop :=
  ∀ (σ : Type) (platform : Platform σ) (fuel : Nat) (w : FatWorld σ),
    v.OnDisk platform.blkdev → HasRoom platform (2 ^ 32 - 64) → 2 ^ 16 ≤ fuel →
    (∀ handle w', (fatOpen platform v.priv fuel path).run w = some (.ok (some handle), w') →
      v.Names v.rootDir (path.map PathPart.str)) ∧
    (¬ v.Names v.rootDir (path.map PathPart.str) →
      ∃ w', (fatOpen platform v.priv fuel path).run w = some (.ok none, w'))

/-! ## Searching a directory -/

section Search

variable {σ : Type} (platform : Platform σ) {name data dir : List UInt8} {buf : Buf} {i n : Nat}

theorem Is83.nameBuf_eq (h : Is83 name) : nameBuf name = .ok (entryName name ++ [0]) :=
  Name83.nameBuf_eq h

theorem Is83.bears_iff (h : Is83 name) (dir : List UInt8) :
    Bears (entryName name ++ [0]) dir ↔ HasName name dir := Name83.bears_iff h dir

theorem Passes.undecided (h83 : Is83 name) (h : Passes name data i) :
    ∀ j < i, ¬ Decides (entryName name ++ [0]) (entryAt data j) := by
  rintro j hj (hterm | hbears)
  · exact (h j hj).1 hterm
  · exact (h j hj).2 ((h83.bears_iff _).mp hbears)

/-- The search for a name that is found. -/
theorem findDirEnt_finds (h83 : Is83 name) (hbuf : buf.bytes = data)
    (hlen : data.length = fatDirSize * n) (h : Finds name data dir) :
    ∃ i, fatDirSize * (i + 1) ≤ data.length ∧ dir = entryAt data i ∧ ∀ w : FatWorld σ,
      ∃ s, (findDirEnt platform name buf data.length).run w =
        some (.ok (some i), { w with dev := s }) := by
  subst hbuf
  obtain ⟨i, hi, hpass, hterm, hname, rfl⟩ := h
  refine ⟨i, hi, rfl, fun w => ?_⟩
  have hlt : i < n := Nat.lt_of_mul_lt_mul_left (Nat.lt_of_lt_of_le
    (Nat.mul_lt_mul_of_pos_left (Nat.lt_succ_self i) (by decide)) (hlen ▸ hi))
  obtain ⟨s, hrun⟩ := findDirEnt_decided platform hlen h83.nameBuf_eq hlt
    (hpass.undecided h83) (.inr ((h83.bears_iff _).mpr hname)) w
  rw [if_neg hterm, ← hlen] at hrun
  exact ⟨s, hrun⟩

/-- The search for a name that the directory lacks. -/
theorem findDirEnt_lacks (h83 : Is83 name) (hbuf : buf.bytes = data)
    (hlen : data.length = fatDirSize * n) (h : Lacks name data) (w : FatWorld σ) :
    ∃ s, (findDirEnt platform name buf data.length).run w =
      some (.ok none, { w with dev := s }) := by
  subst hbuf
  obtain ⟨i, hi, hpass, hterm⟩ := h
  have hlt : i < n := Nat.lt_of_mul_lt_mul_left (Nat.lt_of_lt_of_le
    (Nat.mul_lt_mul_of_pos_left (Nat.lt_succ_self i) (by decide)) (hlen ▸ hi))
  obtain ⟨s, hrun⟩ := findDirEnt_decided platform hlen h83.nameBuf_eq hlt
    (hpass.undecided h83) (.inl hterm) w
  rw [if_pos hterm, ← hlen] at hrun
  exact ⟨s, hrun⟩

/-- A directory has the name, lacks it, or is full of other entries. -/
theorem search_cases (name : List UInt8) (hlen : data.length = fatDirSize * n) :
    Lacks name data ∨ (∃ dir, Finds name data dir) ∨ Passes name data n := by
  by_cases hdecided : ∃ i, i < n ∧ (Terminator (entryAt data i) ∨ HasName name (entryAt data i))
  · obtain ⟨hi, hends⟩ := Nat.find_spec hdecided
    have hpass : Passes name data (Nat.find hdecided) := by
      intro j hj
      have hno := Nat.find_min hdecided hj
      exact ⟨fun h => hno ⟨by omega, .inl h⟩, fun h => hno ⟨by omega, .inr h⟩⟩
    have hfits : fatDirSize * (Nat.find hdecided + 1) ≤ data.length := by
      rw [hlen]
      exact Nat.mul_le_mul_left _ hi
    by_cases hterm : Terminator (entryAt data (Nat.find hdecided))
    · exact .inl ⟨_, hfits, hpass, hterm⟩
    · exact .inr (.inl ⟨_, _, hfits, hpass, hterm, hends.resolve_left hterm, rfl⟩)
  · refine .inr (.inr fun j hj => ⟨fun h => ?_, fun h => ?_⟩)
    · exact hdecided ⟨j, hj, .inl h⟩
    · exact hdecided ⟨j, hj, .inr h⟩

end Search

/-! ## Paths that miss -/

section Misses

variable {σ : Type} {platform : Platform σ} {v : Volume} {fuel : Nat} {w : FatWorld σ}
  {data : List UInt8} {names : List (List UInt8)} {parts : List PathPart} {buf : Buf}
  {block : Region} {others : List Region}

/-- The loop on a directory that lacks the first name. -/
theorem findDirLoop_lacks {part : PathPart} {sz : Nat}
    (hfind : ReturnsIn (findDirEnt platform part.str buf sz) w fun found w' =>
      found = none ∧ w'.live = w.live)
    (hptr : buf.ptr = some block) (howns : Owns (some block) others w) :
    ReturnsIn (findDirLoop platform v.priv fuel buf sz (part :: parts)) w fun r _ => r = none := by
  have hrest : ∀ w' : FatWorld σ, w'.live = w.live →
      ReturnsIn (do FatM.kfree buf.ptr; return none :
        FatM σ (Option (Option Region × List UInt8))) w' fun r _ => r = none := by
    intro w' hlive
    have howns' : Owns (some block) others w' := by rwa [Owns, hlive]
    rw [hptr]
    exact (kfree_returns howns').bind fun _ _ _ => .pure rfl
  cases parts with
  | nil =>
    refine hfind.bind fun found w' h => ?_
    obtain rfl := h.1
    exact hrest w' h.2
  | cons next parts =>
    refine hfind.bind fun found w' h => ?_
    obtain rfl := h.1
    exact hrest w' h.2

/-- The loop goes down to the contents that end without the name. -/
theorem findDirLoop_misses (hdev : v.OnDisk platform.blkdev)
    (hroom : HasRoom platform (2 ^ 32 - 64)) (hfuel : 2 ^ 16 ≤ fuel) (h : v.Misses data names)
    (hparts : parts.map PathPart.str = names) (h83 : ∀ part ∈ parts, Is83 part.str)
    (hbuf : buf.bytes = data) (hlen : fatDirSize ∣ data.length) (hptr : buf.ptr = some block)
    (howns : Owns (some block) others w) :
    ReturnsIn (findDirLoop platform v.priv fuel buf data.length parts) w fun r _ => r = none := by
  induction h generalizing parts buf block others w with
  | here hlacks =>
    obtain ⟨n, hlen⟩ := hlen
    obtain ⟨part, parts, rfl, rfl, -⟩ := List.map_eq_cons_iff.mp hparts
    obtain ⟨s, hrun⟩ :=
      findDirEnt_lacks platform (h83 part List.mem_cons_self) hbuf hlen hlacks w
    exact findDirLoop_lacks ⟨_, _, hrun, rfl, rfl⟩ hptr howns
  | @down data name dir bytes names hfinds hholds hmisses ih =>
    obtain ⟨n, hlen⟩ := hlen
    obtain ⟨part, parts, rfl, rfl, hrest⟩ := List.map_eq_cons_iff.mp hparts
    obtain ⟨i, hi, rfl, hrun⟩ :=
      findDirEnt_finds platform (h83 part List.mem_cons_self) hbuf hlen hfinds
    obtain ⟨s, hrun⟩ := hrun w
    cases parts with
    | nil =>
      subst hrest
      cases hmisses
    | cons next parts =>
      unfold findDirLoop
      have hfound : ReturnsIn (findDirEnt platform part.str buf data.length) w fun found w' =>
          found = some i ∧ w'.live = w.live := ⟨_, _, hrun, rfl, rfl⟩
      refine hfound.bind fun found w₁ h₁ => ?_
      obtain ⟨rfl, hlive₁⟩ := h₁
      have howns₁ : Owns (some block) others w₁ := by rwa [Owns, hlive₁]
      rw [hptr]
      refine (kfree_returns howns₁).bind fun _ w₂ _ => ?_
      subst hbuf
      refine (entry_returns hi).bind fun dir w₃ h₃ => ?_
      obtain ⟨rfl, -⟩ := h₃
      refine (readClusterChain_holds hdev hholds hroom hfuel _ w₃).bind fun r w₄ h₄ => ?_
      obtain ⟨hbytes, hsize, block', hptr', howns'⟩ := h₄
      obtain ⟨buf', sz'⟩ := r
      dsimp only at hbytes hsize hptr' ⊢
      subst hsize
      exact ih hrest (fun part hpart => h83 part (List.mem_cons_of_mem _ hpart)) hbytes
        hholds.dvd_length hptr' howns'

end Misses

/-! ## Paths that do not miss -/

/-- The disk, a heap that does not run out, and the same bytes wherever the driver looks
behind a buffer. -/
def Volume.stray (v : Volume) (behind : List UInt8) : Platform Unit :=
  { v.platform with peek := fun _ _ => (behind, ()) }

/-- An entry with the name. -/
def strayEntry (name : List UInt8) : List UInt8 := emptyEntry (entryName name ++ [0])

section Stray

variable {σ : Type} {platform : Platform σ} {v : Volume} {fuel i n sz : Nat}
  {name dir data : List UInt8} {part : PathPart} {parts path : List PathPart} {buf : Buf}

theorem length_strayEntry (h83 : Is83 name) : (strayEntry name).length = fatDirSize :=
  (Name83.nameBytes h83).length_emptyEntry

theorem decides_strayEntry (h83 : Is83 name) :
    ¬ Terminator (strayEntry name) ∧ Bears (entryName name ++ [0]) (strayEntry name) :=
  (Name83.nameBytes h83).decides_emptyEntry (Name83.last_eq h83)

/-- It is the entry of a file without clusters. -/
theorem clusterLow_strayEntry (h83 : Is83 name) :
    (FatDir.ofEntry (strayEntry name)).clusterLow = 0 := by
  have hlen : (entryName name).length = 11 := Name83.length_padName h83
  have hzero : ∀ i, 11 ≤ i → byteOf (strayEntry name) i = 0 := by
    intro i hi
    rw [byteOf, strayEntry, emptyEntry, List.take_left' hlen,
      List.getD_append_right _ _ _ _ (by omega), List.getD_eq_getElem?_getD,
      List.getElem?_getD_replicate_default_eq]
    rfl
  change byteOf (strayEntry name) 26 + 256 * byteOf (strayEntry name) (26 + 1) = 0
  rw [hzero 26 (by decide), hzero (26 + 1) (by decide)]

theorem entry_stray (h83 : Is83 name) (hlen : buf.bytes.length = fatDirSize * n)
    (w : FatWorld Unit) : ∃ s, (FatM.entry (v.stray (strayEntry name)) buf n).run w =
      some (.ok (strayEntry name), { w with dev := s }) := by
  refine ⟨(), ?_⟩
  change some (Except.ok (fit fatDirSize ((buf.bytes ++ strayEntry name).drop (fatDirSize * n))),
    _) = _
  rw [List.drop_left' hlen, fit_eq_self (length_strayEntry h83)]

/-- Behind a directory that is full of other entries the name is found. -/
theorem findDirEnt_stray (h83 : Is83 name) (hbuf : buf.bytes = data)
    (hlen : data.length = fatDirSize * n) (hpass : Passes name data n) (w : FatWorld Unit) :
    ∃ s, (findDirEnt (v.stray (strayEntry name)) name buf data.length).run w =
      some (.ok (some n), { w with dev := s }) := by
  subst hbuf
  obtain ⟨s, hloops⟩ := loopsTo_of_undecided (v.stray (strayEntry name)) h83.nameBuf_eq
    (Nat.le_refl _) (Nat.zero_le n) (Nat.le_of_eq hlen.symm)
    (fun j _ hj => hpass.undecided h83 j hj) w
  have hrun := (hloops.run 1).2
  obtain ⟨s', hentry⟩ := entry_stray (v := v) h83 hlen { w with dev := s }
  obtain ⟨hterm, hbears⟩ := decides_strayEntry h83
  have hfuel : buf.bytes.length / fatDirSize + 1 = 1 + (n - 0) := by
    rw [hlen, Nat.mul_div_cancel_left n (by decide)]
    omega
  refine ⟨s', ?_⟩
  rw [findDirEnt, hfuel, hrun, findDirEntLoop_round hentry, if_neg hterm, h83.nameBuf_eq]
  dsimp only
  rw [if_pos hbears]

/-- A buffer that is NULL cannot be freed, found or not. -/
theorem findDirLoop_null (hnull : buf.ptr = none) (path : List PathPart) :
    v.priv.Reads (findDirLoop platform v.priv fuel buf sz path) fun _ => False := by
  cases path with
  | nil => exact .stop _
  | cons part parts =>
    cases parts with
    | nil =>
      refine (findDirEnt_reads _ _ _).bind fun found _ => ?_
      cases found with
      | none =>
        rw [hnull]
        exact kfree_null_issues.bind fun _ (h : False) => h.elim
      | some i =>
        rw [hnull]
        refine (kalloc_reads _).bind fun ret _ => (entry_reads _ _).bind fun dir _ => ?_
        exact kfree_null_issues.bind fun _ (h : False) => h.elim
    | cons next parts =>
      refine (findDirEnt_reads _ _ _).bind fun found _ => ?_
      rw [hnull]
      cases found with
      | none => exact kfree_null_issues.bind fun _ (h : False) => h.elim
      | some i => exact kfree_null_issues.bind fun _ (h : False) => h.elim

/-- From an entry that is found the loop goes on to what the disk holds of it. -/
theorem findDirLoop_found (hdev : v.OnDisk platform.blkdev)
    (hfind : v.priv.Reads (findDirEnt platform part.str buf sz) fun found => found = some i)
    (hentry : v.priv.Reads (FatM.entry platform buf i) fun found => found = dir)
    (hrest : ∀ buf' : Buf, v.HoldsFrom (FatDir.ofEntry dir).clusterLow buf'.bytes →
      v.priv.Reads (findDirLoop platform v.priv fuel buf' buf'.bytes.length parts)
        fun r => r ≠ none) :
    v.priv.Reads (findDirLoop platform v.priv fuel buf sz (part :: parts)) fun r => r ≠ none := by
  cases parts with
  | nil =>
    refine hfind.bind fun found hfound => ?_
    subst hfound
    refine (kalloc_reads _).bind fun ret _ => (entry_reads _ _).bind fun dir _ => ?_
    exact (kfree_reads _).bind fun _ _ => .pure nofun
  | cons next parts =>
    refine hfind.bind fun found hfound => ?_
    subst hfound
    refine (kfree_reads _).bind fun _ _ => hentry.bind fun found hfound => ?_
    subst hfound
    refine (readClusterChain_holdsOnly hdev (wordOf_lt _ _) _).bind fun r hr => ?_
    obtain ⟨buf', sz'⟩ := r
    obtain ⟨hsize, -, -, hholds⟩ := hr
    dsimp only at hsize hholds ⊢
    subst hsize
    by_cases hnull : buf'.ptr = none
    · exact (findDirLoop_null hnull _).mono fun _ (h : False) => h.elim
    · exact hrest buf' (hholds hnull)

/-- For a path that does not miss there are bytes behind the buffers with which NULL is
not returned. -/
theorem exists_stray (h83 : ∀ part ∈ parts, Is83 part.str) (hlen : fatDirSize ∣ data.length)
    (hmiss : ¬ v.Misses data (parts.map PathPart.str)) :
    ∃ behind, ∀ fuel (buf : Buf), buf.bytes = data →
      v.priv.Reads (findDirLoop (v.stray behind) v.priv fuel buf data.length parts)
        fun r => r ≠ none := by
  induction parts generalizing data with
  | nil => exact ⟨[], fun fuel buf _ => .stop _⟩
  | cons part parts ih =>
    obtain ⟨n, hn⟩ := hlen
    have hpart := h83 part List.mem_cons_self
    have hdev : ∀ behind, v.OnDisk (v.stray behind).blkdev := fun _ => v.onDisk_device
    rcases search_cases part.str hn with hlacks | ⟨dir, hfinds⟩ | hpass
    · exact absurd (.here hlacks) hmiss
    · have hdown : ∀ behind, (∀ fuel (buf : Buf),
          v.HoldsFrom (FatDir.ofEntry dir).clusterLow buf.bytes →
          v.priv.Reads (findDirLoop (v.stray behind) v.priv fuel buf buf.bytes.length parts)
            fun r => r ≠ none) → ∀ fuel (buf : Buf), buf.bytes = data →
          v.priv.Reads (findDirLoop (v.stray behind) v.priv fuel buf data.length (part :: parts))
            fun r => r ≠ none := by
        intro behind hrest fuel buf hbuf
        obtain ⟨i, hi, rfl, hrun⟩ := findDirEnt_finds (v.stray behind) hpart hbuf hn hfinds
        subst hbuf
        exact findDirLoop_found (hdev behind) (reads_of_run hrun) (entry_issues hi) (hrest fuel)
      by_cases hholds : ∃ bytes, v.HoldsFrom (FatDir.ofEntry dir).clusterLow bytes
      · obtain ⟨bytes, hholds⟩ := hholds
        obtain ⟨behind, hrest⟩ := ih (fun p hp => h83 p (List.mem_cons_of_mem _ hp))
          hholds.dvd_length fun h => hmiss (.down hfinds hholds h)
        refine ⟨behind, hdown behind fun fuel buf hbuf => ?_⟩
        rw [hbuf.unique hholds]
        exact hrest fuel buf (hbuf.unique hholds)
      · exact ⟨[], hdown [] fun fuel buf hbuf => absurd ⟨_, hbuf⟩ hholds⟩
    · refine ⟨strayEntry part.str, fun fuel buf hbuf => ?_⟩
      refine findDirLoop_found (hdev _) (reads_of_run (findDirEnt_stray hpart hbuf hn hpass))
        (reads_of_run (entry_stray hpart (hbuf ▸ hn))) fun buf' hholds => ?_
      have hfollow := hholds.followed
      rw [clusterLow_strayEntry hpart] at hfollow
      exact absurd hfollow.1 (Nat.lt_irrefl 0)

end Stray

/-! ## fat_open -/

section Open

variable {σ : Type} {platform : Platform σ} {v : Volume} {fuel : Nat} {path : List PathPart}
  {w : FatWorld σ}

/-- A path with components. -/
theorem findDir_path {priv : FatPriv} (hpath : ∀ part ∈ path, part.ptr ≠ 0) :
    findDir platform priv fuel path = (do
      let (cldata, clsize) ← readRootDir platform priv
      findDirLoop platform priv fuel cldata clsize path) := by
  have hroot : path.map PathPart.ptr ≠ [0] := by
    intro h
    obtain ⟨part, hpart, hzero⟩ := List.mem_map.mp (h ▸ List.mem_singleton_self 0)
    exact hpath part hpart hzero
  unfold findDir
  simp only [if_neg hroot]

theorem Volume.dvd_length_rootDir : fatDirSize ∣ v.rootDir.length := by
  rw [length_rootDir, bytesPerSector_priv]
  exact Nat.dvd_mul_right_of_dvd (by decide) _

/-- Contents that decide about a name are not empty. -/
theorem Volume.Misses.ne_nil {data : List UInt8} {names : List (List UInt8)}
    (h : v.Misses data names) : data ≠ [] := by
  rintro rfl
  cases h with
  | here hlacks =>
    obtain ⟨i, hi, -⟩ := hlacks
    exact absurd hi (by unfold fatDirSize; simp)
  | down hfinds _ _ =>
    obtain ⟨i, hi, -⟩ := hfinds
    exact absurd hi (by unfold fatDirSize; simp)

/-- For a path that misses NULL is returned. -/
theorem fatOpen_misses (hdev : v.OnDisk platform.blkdev) (hroom : HasRoom platform (2 ^ 32 - 64))
    (hfuel : 2 ^ 16 ≤ fuel) (hpath : ∀ part ∈ path, part.ptr ≠ 0 ∧ Is83 part.str)
    (h : v.Misses v.rootDir (path.map PathPart.str)) :
    ReturnsIn (fatOpen platform v.priv fuel path) w fun handle _ => handle = none := by
  have hfind : ReturnsIn (findDir platform v.priv fuel path) w fun r _ => r = none := by
    rw [findDir_path fun part hpart => (hpath part hpart).1]
    refine (readRootDir_root hdev h.ne_nil hroom w).bind fun r w₁ h₁ => ?_
    obtain ⟨hbytes, hsize, block, hptr, howns⟩ := h₁
    obtain ⟨buf, sz⟩ := r
    dsimp only at hbytes hsize hptr ⊢
    subst hsize
    exact findDirLoop_misses hdev hroom hfuel h rfl (fun part hpart => (hpath part hpart).2) hbytes
      Volume.dvd_length_rootDir hptr howns
  unfold fatOpen
  refine hfind.bind fun r w₁ hr => ?_
  subst hr
  exact .pure rfl

/-- Where an entry is found no call returns NULL. -/
theorem fatOpen_only (hdev : v.OnDisk platform.blkdev)
    (hfind : v.priv.Reads (findDir platform v.priv fuel path) fun r => r ≠ none) :
    v.priv.Reads (fatOpen platform v.priv fuel path) fun handle => handle ≠ none := by
  unfold fatOpen
  refine hfind.bind fun r hr => ?_
  obtain ⟨⟨block, dir⟩, rfl⟩ := Option.ne_none_iff_exists'.mp hr
  refine (kalloc_reads _).bind fun file _ => ?_
  by_cases hlists : (FatDir.ofEntry dir).attrs &&& (fatAttrDir ||| fatAttrVolid) = 0
  · rw [if_pos hlists]
    refine (kfree_reads _).bind fun _ _ => .pure ?_
    rw [FatFile.ofDir, if_pos hlists]
    exact Option.some_ne_none _
  rw [if_neg hlists]
  have hread : v.priv.Reads (readDir platform v.priv fuel (FatDir.ofEntry dir)
      ((FatDir.ofEntry dir).attrs &&& fatAttrVolid ≠ 0)) fun r => r.2 < 2 ^ 32 := by
    unfold readDir
    split
    · have hle := Volume.length_rootDir_le (v := v)
      refine (readRootDir_only hdev).mono fun r h => ?_
      have hsize := h.2.1
      omega
    · exact (readClusterChain_holdsOnly hdev (wordOf_lt _ _) 0).mono fun r h => h.2.1
  refine (getDirContents_only hread fun r h => h).bind fun listed h => ?_
  obtain ⟨⟨l, rfl⟩, -⟩ := h
  refine (kfree_reads _).bind fun _ _ => .pure ?_
  rw [FatFile.ofDir, if_neg hlists]
  exact Option.some_ne_none _

/-- For a path that does not miss there is a platform on which NULL is not returned. -/
theorem exists_fatOpen_ne_none (hpath : ∀ part ∈ path, part.ptr ≠ 0 ∧ Is83 part.str)
    (h : ¬ v.Misses v.rootDir (path.map PathPart.str)) :
    ∃ behind, ∀ fuel, v.priv.Reads (fatOpen (v.stray behind) v.priv fuel path)
      fun handle => handle ≠ none := by
  obtain ⟨behind, hloop⟩ := exists_stray (fun part hpart => (hpath part hpart).2)
    Volume.dvd_length_rootDir h
  have hdev : v.OnDisk (v.stray behind).blkdev := v.onDisk_device
  refine ⟨behind, fun fuel => fatOpen_only hdev ?_⟩
  rw [findDir_path fun part hpart => (hpath part hpart).1]
  refine (readRootDir_only hdev).bind fun r hr => ?_
  obtain ⟨buf, sz⟩ := r
  obtain ⟨hbytes, hsize, -⟩ := hr
  dsimp only at hbytes hsize ⊢
  subst hsize
  exact hloop fuel buf hbytes

/-- A handle is returned only for a path that names an entry, and NULL for any other,
exactly if the path names an entry, or misses one. -/
theorem fatOpen_opensNamed_iff (hpath : ∀ part ∈ path, part.ptr ≠ 0 ∧ Is83 part.str) :
    OpensNamed v path ↔ v.Names v.rootDir (path.map PathPart.str) ∨
      v.Misses v.rootDir (path.map PathPart.str) := by
  constructor
  · intro h
    by_contra hneither
    rw [not_or] at hneither
    obtain ⟨behind, hreads⟩ := exists_fatOpen_ne_none hpath hneither.2
    obtain ⟨w', hrun⟩ := (h Unit (v.stray behind) (2 ^ 16) ⟨(), [], []⟩ v.onDisk_device
      (v.hasRoom_platform (Nat.le_refl _)) (Nat.le_refl _)).2 hneither.1
    exact (hreads (2 ^ 16) _ _ w' hrun).2 rfl
  · rintro (hnames | hmisses) σ platform fuel w hdev hroom hfuel
    · exact ⟨fun _ _ _ => hnames, fun h => absurd hnames h⟩
    · obtain ⟨handle, w', hrun, rfl⟩ := fatOpen_misses (w := w) hdev hroom hfuel hpath hmisses
      refine ⟨fun handle w'' hrun' => ?_, fun _ => ⟨w', hrun⟩⟩
      rw [hrun] at hrun'
      cases hrun'

end Open

/-! ## A path through a file -/

/-- The path `A/B`. -/
def throughFile : List PathPart := [{ ptr := 4096, str := [65] }, { ptr := 4100, str := [66] }]

theorem is83_throughFile : ∀ part ∈ throughFile, part.ptr ≠ 0 ∧ Is83 part.str := by
  have ha : Is83 [65] :=
    ⟨by decide, by decide, by decide, by decide +kernel, .inl ⟨by decide, by decide⟩⟩
  have hb : Is83 [66] :=
    ⟨by decide, by decide, by decide, by decide +kernel, .inl ⟨by decide, by decide⟩⟩
  simp [throughFile, ha, hb]

/-- The path on the volume on which `A` is an empty file. -/
theorem fatOpen_opensNamed_noLabel :
    OpensNamed noLabel throughFile ↔
      noLabel.Names noLabel.rootDir (throughFile.map PathPart.str) ∨
        noLabel.Misses noLabel.rootDir (throughFile.map PathPart.str) :=
  fatOpen_opensNamed_iff is83_throughFile

/-- It names no entry, but an assertion fails. -/
theorem fatOpen_through_file :
    ¬∀ (v : Volume) (path : List PathPart), path ≠ [] →
      (∀ part ∈ path, part.ptr ≠ 0 ∧ Is83 part.str) → OpensNamed v path := by
  intro h
  have hopens := h noLabel throughFile (by decide) is83_throughFile
  have hnames : ¬ noLabel.Names noLabel.rootDir (throughFile.map PathPart.str) := by
    rintro (_ | ⟨⟨i, -, hpass, -, -, rfl⟩, hdir, -, -, -⟩)
    have hfirst : i = 0 := by
      by_contra hne
      exact (hpass 0 (Nat.pos_of_ne_zero hne)).2 (by decide +kernel)
    subst hfirst
    exact hdir (by decide +kernel)
  obtain ⟨w', hrun⟩ := (hopens Unit noLabel.platform (2 ^ 16) ⟨(), [], []⟩ noLabel.onDisk_device
    (noLabel.hasRoom_platform (Nat.le_refl _)) (Nat.le_refl _)).2 hnames
  have hfault : ((fatOpen noLabel.platform noLabel.priv (2 ^ 16) throughFile).run
      ⟨(), [], []⟩).map Prod.fst =
        some (.error (.fault (.assert "Tried to free invalid address"))) := by decide +kernel
  rw [hrun] at hfault
  cases hfault

end Microboot.Kern.Fs
