/-
  Kern/FormatSinks.lean --- where a text goes, kern/printf.c.

  `printf` and `fctprintf` hand each character of the text to a function, except NUL.
  `sprintf` and `snprintf` leave the text in a buffer, cut to the buffer and terminated.
  Whatever the format and the arguments are, nothing else is written.

  A format that is cut off inside a conversion is read on behind its terminator.
-/
import Microboot.Foundation.Moves
import Microboot.Kern.FormatText

set_option autoImplicit false

namespace Microboot.Kern.Printf

open Microboot.Foundation

section Engine

variable {σ : Type} {f : OutFct σ} {maxlen : UInt32} {P : σ → Prop}
  {strings : UInt32 → Option (List UInt8)} {u u' t : List UInt8} {va va' : VaList}
  {r r' : Formatted} {p buffer : Nat}

/-! ## Formats that are whole and formats that are cut off -/

/-- The loop ends at the terminator of its format. -/
theorem formatLoop_stop {fuel : Nat} {s : Printed σ} (hnul : (f.mem s.state).load8 p = 0) :
    formatLoop f maxlen (fuel + 1) p va s = some s := by
  rw [formatLoop]
  simp [hnul]

theorem formatLoop_whole {s : Printed σ} (hstr : ∀ s, P s → StringsAt strings (f.mem s))
    (hformat : ∀ s, P s → StrAt (f.mem s) p u) (htext : formatText strings u va = some r)
    (hcut : r.cut = false) (hstays : Stays f maxlen P s r.text) {fuel : Nat}
    (hfuel : u.length < fuel) :
    formatLoop f maxlen fuel p va s = some (s.puts f maxlen r.text) := by
  obtain ⟨k, hk, hloop⟩ := formatLoop_eq hstr hformat htext hstays
  have hend := (hformat _ (hstays r.text (List.prefix_refl _))).nul
  obtain ⟨n, rfl⟩ := Nat.exists_eq_add_of_lt (Nat.lt_of_le_of_lt hk hfuel)
  rw [Nat.add_assoc, hloop, hcut]
  exact formatLoop_stop hend

/-- `_vsnprintf` puts the text of a whole format out. -/
theorem vsnprintfOut_eq {s : σ} (hbuffer : buffer ≠ 0)
    (hstr : ∀ s, P s → StringsAt strings (f.mem s)) (hformat : ∀ s, P s → StrAt (f.mem s) p u)
    (htext : formatText strings u va = some r) (hcut : r.cut = false)
    (hstays : Stays f maxlen P ⟨0, s⟩ r.text) :
    vsnprintfOut f maxlen buffer p va s =
      some ((Printed.puts f maxlen r.text ⟨0, s⟩).terminate f maxlen) := by
  have hlen := length_lt_addrSpace (hformat _ hstays.start)
  unfold vsnprintfOut
  rw [if_neg hbuffer]
  dsimp only
  rw [formatLoop_whole hstr hformat htext hcut hstays hlen]
  rfl

/-- A format that is cut off goes on with the string behind its terminator. -/
theorem vsnprintfOut_cut {s : σ} (hbuffer : buffer ≠ 0)
    (hstr : ∀ s, P s → StringsAt strings (f.mem s)) (hformat : ∀ s, P s → StrAt (f.mem s) p u)
    (hbehind : ∀ s, P s → StrAt (f.mem s) (p + u.length + 1) u')
    (htext : formatText strings u va = some r) (hcut : r.cut = true)
    (htext' : formatText strings u' r.va = some r') (hcut' : r'.cut = false)
    (hstays : Stays f maxlen P ⟨0, s⟩ (r.text ++ r'.text)) :
    vsnprintfOut f maxlen buffer p va s =
      some ((Printed.puts f maxlen (r.text ++ r'.text) ⟨0, s⟩).terminate f maxlen) := by
  have hfits := (hbehind _ hstays.start).fits
  obtain ⟨k, hk, hloop⟩ := formatLoop_eq hstr hformat htext hstays.left
  have hrest := formatLoop_whole hstr hbehind htext' hcut' hstays.right
    (show u'.length < addrSpace - k by unfold addrSpace; omega)
  have hfuel : addrSpace = k + (addrSpace - k) := by
    unfold addrSpace
    omega
  unfold vsnprintfOut
  rw [if_neg hbuffer]
  dsimp only
  rw [hfuel, hloop, hcut, if_pos rfl, hrest, ← Printed.puts_append]
  rfl

/-! ## Nothing but characters is put out -/

section Puts

variable {s s' : Printed σ} {spec : Spec} {c : UInt8}

/-- Some characters have been put out. -/
def PutsSome (f : OutFct σ) (maxlen : UInt32) (s s' : Printed σ) : Prop :=
  ∃ t, s' = s.puts f maxlen t

theorem PutsSome.refl : PutsSome f maxlen s s := ⟨[], rfl⟩

theorem PutsSome.trans {s'' : Printed σ} :
    PutsSome f maxlen s s' → PutsSome f maxlen s' s'' → PutsSome f maxlen s s'' := by
  rintro ⟨t, rfl⟩ ⟨t', rfl⟩
  exact ⟨t ++ t', Printed.puts_append.symm⟩

theorem putsSome_put : PutsSome f maxlen s (s.put f maxlen c) := ⟨[c], rfl⟩

theorem putsSome_spaces {n : Nat} : PutsSome f maxlen s (s.spaces f maxlen n) := ⟨_, rfl⟩

theorem outString_puts {flags : Flags} {fuel precision : Nat}
    (h : outString f maxlen flags fuel p precision s = some s') : PutsSome f maxlen s s' := by
  induction fuel generalizing p precision s with
  | zero => cases h
  | succ fuel ih =>
    rw [outString] at h
    split at h
    · exact putsSome_put.trans (ih h)
    · cases h
      exact .refl

theorem convertInteger_puts (h : convertInteger f maxlen s c spec va = some (s', va')) :
    PutsSome f maxlen s s' := by
  unfold convertInteger at h
  dsimp only at h
  split at h
  · cases h
    exact .refl
  · obtain ⟨⟨w, va₁⟩, -, h⟩ := Option.bind_eq_some_iff.mp h
    dsimp only at h
    split at h <;> cases h <;> exact ⟨_, ntoaLong_eq⟩

theorem convertChar_puts (h : convertChar f maxlen s spec va = some (s', va')) :
    PutsSome f maxlen s s' := by
  unfold convertChar at h
  obtain ⟨⟨w, va₁⟩, -, h⟩ := Option.bind_eq_some_iff.mp h
  cases h
  cases hleft : spec.flags.left with
  | true => simpa [hleft] using putsSome_put.trans putsSome_spaces
  | false => simpa [hleft] using putsSome_spaces.trans putsSome_put

theorem convertString_puts (h : convertString f maxlen s spec va = some (s', va')) :
    PutsSome f maxlen s s' := by
  unfold convertString at h
  obtain ⟨⟨w, va₁⟩, -, h⟩ := Option.bind_eq_some_iff.mp h
  obtain ⟨s₁, hout, h⟩ := Option.bind_eq_some_iff.mp h
  cases h
  have hshown := outString_puts hout
  cases hleft : spec.flags.left with
  | true =>
    simp only [hleft, not_true_eq_false, if_false, if_true] at hshown ⊢
    exact hshown.trans putsSome_spaces
  | false =>
    simp only [hleft, Bool.false_eq_true, not_false_eq_true, if_false, if_true] at hshown ⊢
    exact putsSome_spaces.trans hshown

theorem convert_puts (h : convert f maxlen s c spec va = some (s', va')) :
    PutsSome f maxlen s s' := by
  unfold convert at h
  split at h
  · exact convertInteger_puts h
  · split at h
    · exact convertChar_puts h
    · split at h
      · exact convertString_puts h
      · split at h
        · obtain ⟨⟨w, va₁⟩, -, h⟩ := Option.bind_eq_some_iff.mp h
          cases h
          exact ⟨_, ntoaLong_eq⟩
        · cases h
          exact putsSome_put

/-- Whatever lies at the format, the loop does nothing but put characters out. -/
theorem formatLoop_puts {fuel : Nat} (h : formatLoop f maxlen fuel p va s = some s') :
    PutsSome f maxlen s s' := by
  induction fuel generalizing p va s with
  | zero => cases h
  | succ fuel ih =>
    rw [formatLoop] at h
    dsimp only at h
    split at h
    · cases h
      exact .refl
    · split at h
      · exact putsSome_put.trans (ih h)
      · obtain ⟨⟨spec, q, va₁⟩, -, h⟩ := Option.bind_eq_some_iff.mp h
        obtain ⟨⟨s₁, va₂⟩, hconv, h⟩ := Option.bind_eq_some_iff.mp h
        exact (convert_puts hconv).trans (ih h)

end Puts

end Engine

/-! ## Functions -/

section Functions

variable {σ : Type} {mem : σ → Mem} {P : σ → Prop} {strings : UInt32 → Option (List UInt8)}
  {u : List UInt8} {va : VaList} {r : Formatted} {p : Nat}

/-- A function is given the characters that are not NUL. -/
theorem state_puts_outFct (fct : UInt8 → σ → σ) (maxlen : UInt32) (t : List UInt8)
    (s : Printed σ) :
    (s.puts (outFct fct mem) maxlen t).state =
      (t.filter (· ≠ 0)).foldl (fun s c => fct c s) s.state := by
  induction t generalizing s with
  | nil => rfl
  | cons c t ih =>
    rw [Printed.puts_cons, ih]
    by_cases hc : c = 0 <;> simp [Printed.put, outFct, hc]

/-- The text of `"a%%"`. -/
theorem formatText_percent : formatText (fun _ => none) [97, 37, 37] [] =
    some ⟨[97, 37], [], false⟩ := by
  rw [formatText_char (by decide), formatText_conversion
    (show readSpec [37] [] = some (⟨{}, 0, 0⟩, [37], []) from rfl)]
  simp [conversionText, formatText_nil, Formatted.behind]

end Functions

/-! ## Buffers -/

section Buffers

variable {m : Mem} {buffer : Nat} {count : UInt32} {t T : List UInt8}

/-- What a buffer of `count` bytes is left with of a text. -/
def kept (count : UInt32) (t : List UInt8) : List UInt8 :=
  if count = 0 then [] else t.take (count.toNat - 1) ++ [0]

theorem length_kept : (kept count t).length = min (t.length + 1) count.toNat := by
  unfold kept
  split
  · rename_i h
    simp [h]
  · rename_i h
    have hpos : count.toNat ≠ 0 := fun h0 => h (UInt32.toNat_inj.mp h0)
    rw [List.length_append, List.length_take, List.length_singleton]
    omega

theorem state_puts_outBuffer {s : Printed Mem} (hlen : s.idx.toNat + t.length < 2 ^ 32) :
    (s.puts (outBuffer buffer) count t).state =
      s.state.storeBytes (buffer + s.idx.toNat) (t.take (count.toNat - s.idx.toNat)) := by
  induction t generalizing s with
  | nil => simp [Mem.storeBytes]
  | cons c t ih =>
    rw [List.length_cons] at hlen
    have hidx : (s.put (outBuffer buffer) count c).idx.toNat = s.idx.toNat + 1 := by
      change (s.idx + 1).toNat = _
      rw [UInt32.toNat_add]
      exact Nat.mod_eq_of_lt (by change s.idx.toNat + 1 < _; omega)
    rw [Printed.puts_cons, ih (by omega), hidx]
    by_cases hlt : s.idx < count
    · obtain ⟨k, hk⟩ := Nat.exists_eq_add_of_lt (UInt32.lt_iff_toNat_lt.mp hlt)
      rw [show count.toNat - s.idx.toNat = k + 1 by omega,
        show count.toNat - (s.idx.toNat + 1) = k by omega, List.take_succ_cons, Mem.storeBytes]
      simp [Printed.put, outBuffer, hlt, Nat.add_assoc]
    · have hle := Nat.le_of_not_lt (mt UInt32.lt_iff_toNat_lt.mpr hlt)
      rw [Nat.sub_eq_zero_of_le hle, Nat.sub_eq_zero_of_le (by omega)]
      simp [Printed.put, outBuffer, hlt, Mem.storeBytes]

/-- The text in the buffer, with its terminator. -/
theorem terminate_outBuffer (hlen : t.length < 2 ^ 32) :
    (Printed.puts (outBuffer buffer) count t ⟨0, m⟩).terminate (outBuffer buffer) count =
      (m.storeBytes buffer (kept count t), (UInt32.ofNat t.length).toInt32) := by
  have hstate : (Printed.puts (outBuffer buffer) count t ⟨0, m⟩).state =
      m.storeBytes buffer (t.take count.toNat) := state_puts_outBuffer (by simpa using hlen)
  have hidx : (UInt32.ofNat t.length).toNat = t.length := UInt32.toNat_ofNat_of_lt' hlen
  have hcount := count.toNat_lt
  unfold Printed.terminate
  rw [hstate, Printed.idx_puts, UInt32.zero_add]
  refine Prod.ext ?_ rfl
  dsimp only [outBuffer]
  unfold kept
  by_cases hzero : count = 0
  · simp [hzero, Mem.storeBytes]
  have hpos : count.toNat ≠ 0 := fun h0 => hzero (UInt32.toNat_inj.mp h0)
  have hlast : (count - 1).toNat = count.toNat - 1 :=
    UInt32.toNat_sub_of_le _ _ (UInt32.le_iff_toNat_le.mpr (Nat.one_le_iff_ne_zero.mpr hpos))
  rw [if_neg hzero, storeBytes_append, List.length_take]
  by_cases hlt : UInt32.ofNat t.length < count
  · -- there is room for the terminator
    have hle := UInt32.lt_iff_toNat_lt.mp hlt
    rw [if_pos hlt, if_pos hlt, hidx, List.take_of_length_le (by omega),
      List.take_of_length_le (by omega), Nat.min_eq_right (by omega)]
    rfl
  · -- the terminator takes the place of the last character
    have hle := Nat.le_of_not_lt (mt UInt32.lt_iff_toNat_lt.mpr hlt)
    rw [hidx] at hle
    have hpred : count - 1 < count := UInt32.lt_iff_toNat_lt.mpr (by omega)
    obtain ⟨k, hk⟩ := Nat.exists_eq_succ_of_ne_zero hpos
    rw [if_neg hlt, if_pos hpred, hlast, hk, Nat.succ_sub_one, Nat.min_eq_left (by omega),
      List.take_succ_eq_append_getElem (by omega), storeBytes_append, List.length_take,
      Nat.min_eq_left (by omega)]
    funext x
    simp only [Mem.storeBytes, Mem.store8]
    split <;> rfl

/-- The memory outside a range. -/
def SameOutside (m : Mem) (buffer n : Nat) (m' : Mem) : Prop :=
  ∀ x, x < buffer ∨ buffer + n ≤ x → m' x = m x

/-- While a text goes to a buffer, only its range there changes. -/
theorem stays_outBuffer (hlen : t.length < 2 ^ 32)
    (hfits : buffer + (kept count t).length ≤ 2 ^ 32) :
    Stays (outBuffer buffer) count (SameOutside m buffer (kept count t).length) ⟨0, m⟩ t := by
  intro t' ht' x hx
  have hle := ht'.length_le
  have hstate : (Printed.puts (outBuffer buffer) count t' ⟨0, m⟩).state =
      m.storeBytes buffer (t'.take count.toNat) :=
    state_puts_outBuffer (by rw [UInt32.toNat_zero, Nat.zero_add]; omega)
  rw [length_kept] at hfits hx
  rw [hstate]
  exact Mem.storeBytes_apply_of_disjoint _ _ _ _ (by rw [List.length_take]; omega)
    (by rw [List.length_take]; omega)

/-- A string outside a range. -/
def Outside (buffer n p : Nat) (s : List UInt8) : Prop := p + s.length < buffer ∨ buffer + n ≤ p

theorem Outside.mono {n n' p : Nat} {s : List UInt8} (h : Outside buffer n p s) (hle : n' ≤ n) :
    Outside buffer n' p s := by
  unfold Outside at h ⊢
  omega

theorem SameOutside.strAt {m' : Mem} {n p : Nat} {s : List UInt8}
    (h : SameOutside m buffer n m') (hs : StrAt m p s) (hout : Outside buffer n p s) :
    StrAt m' p s := hs.congr fun x h1 h2 => h x (by unfold Outside at hout; omega)

end Buffers

/-- A character that goes to a buffer goes into its range. -/
theorem SameOutside.out_outBuffer {m m' : Mem} {buffer : Nat} {count idx : UInt32} {c : UInt8}
    (h : SameOutside m buffer count.toNat m') (hfits : buffer + count.toNat ≤ 2 ^ 32) :
    SameOutside m buffer count.toNat ((outBuffer buffer).out c idx count m') := by
  intro x hx
  change (if idx < count then m'.store8 (buffer + idx.toNat) c else m') x = m x
  split
  · rename_i hlt
    have hlt := UInt32.lt_iff_toNat_lt.mp hlt
    rw [Mem.store8_apply_of_ne _ _ (by omega) (by omega)]
    exact h x hx
  · exact h x hx

section Snprintf

variable {m : Mem} {buffer p : Nat} {strings : UInt32 → Option (List UInt8)} {u u' : List UInt8}
  {va : VaList} {r r' : Formatted}

/-- The run of `snprintf` on a whole format. -/
theorem vsnprintf_run (count : UInt32) (hbuffer : buffer ≠ 0) (hstr : StringsAt strings m)
    (hformat : StrAt m p u) (htext : formatText strings u va = some r) (hcut : r.cut = false)
    (hlen : r.text.length < 2 ^ 32) (hfits : buffer + (kept count r.text).length ≤ 2 ^ 32)
    (hout : Outside buffer (kept count r.text).length p u)
    (hstrOut : ∀ w t, strings w = some t →
      Outside buffer (kept count r.text).length w.toNat t) :
    vsnprintf m buffer count p va =
      some (m.storeBytes buffer (kept count r.text), (UInt32.ofNat r.text.length).toInt32) := by
  unfold vsnprintf
  rw [vsnprintfOut_eq (P := SameOutside m buffer (kept count r.text).length) hbuffer
    (fun m' h w t hw => h.strAt (hstr w t hw) (hstrOut w t hw)) (fun m' h => h.strAt hformat hout)
    htext hcut (stays_outBuffer hlen hfits), terminate_outBuffer hlen]

/-- `snprintf` leaves the text in the buffer, cut to it and terminated, leaves the rest of
the memory alone and returns the length of the whole text. -/
theorem vsnprintf_text (count : UInt32) (hbuffer : buffer ≠ 0) (hcount : count ≠ 0)
    (hfits : buffer + count.toNat ≤ 2 ^ 32) (hstr : StringsAt strings m) (hformat : StrAt m p u)
    (hout : Outside buffer count.toNat p u)
    (hstrOut : ∀ w t, strings w = some t → Outside buffer count.toNat w.toNat t)
    (htext : formatText strings u va = some r) (hcut : r.cut = false)
    (hlen : r.text.length < 2 ^ 32) :
    ∃ m', vsnprintf m buffer count p va = some (m', (UInt32.ofNat r.text.length).toInt32) ∧
      Seg m' buffer (r.text.take (count.toNat - 1) ++ [0]) ∧
      SameOutside m buffer count.toNat m' := by
  have hle : (kept count r.text).length ≤ count.toNat := by
    rw [length_kept]
    exact Nat.min_le_right _ _
  have hkept : kept count r.text = r.text.take (count.toNat - 1) ++ [0] := if_neg hcount
  refine ⟨_, vsnprintf_run count hbuffer hstr hformat htext hcut hlen (by omega)
    (hout.mono hle) (fun w t hw => (hstrOut w t hw).mono hle), ?_, ?_⟩
  · rw [← hkept]
    exact seg_storeBytes (by omega)
  · intro x hx
    exact Mem.storeBytes_apply_of_disjoint _ _ _ _ (by omega) (by omega)

theorem vsnprintf_text_percent :
    ∃ m', vsnprintf (stringMem 100 [97, 37, 37]) 4096 2 100 [] = some (m', 2) ∧
      Seg m' 4096 [97, 0] ∧ SameOutside (stringMem 100 [97, 37, 37]) 4096 2 m' :=
  vsnprintf_text (r := ⟨[97, 37], [], false⟩) 2 (by decide) (by decide) (by decide) stringsAt_none
    (strAt_stringMem (by decide) (by decide)) (.inl (by decide)) (fun _ _ h => by cases h)
    formatText_percent rfl (by decide)

/-- `sprintf` leaves the text in the buffer, and its terminator. -/
theorem sprintf_run (hbuffer : buffer ≠ 0) (hstr : StringsAt strings m) (hformat : StrAt m p u)
    (htext : formatText strings u va = some r) (hcut : r.cut = false)
    (hfits : buffer + r.text.length < 2 ^ 32) (hout : Outside buffer (r.text.length + 1) p u)
    (hstrOut : ∀ w t, strings w = some t → Outside buffer (r.text.length + 1) w.toNat t) :
    sprintf m buffer p va =
      some (m.storeBytes buffer (r.text ++ [0]), (UInt32.ofNat r.text.length).toInt32) := by
  have hlast : (0xffffffff : UInt32).toNat - 1 = 2 ^ 32 - 2 := rfl
  have hkept : kept 0xffffffff r.text = r.text ++ [0] := by
    rw [kept, if_neg (by decide), hlast, List.take_of_length_le (by omega)]
  have hlen : (kept 0xffffffff r.text).length = r.text.length + 1 := by
    rw [hkept, List.length_append, List.length_singleton]
  rw [← hkept]
  rw [← hlen] at hout hstrOut
  exact vsnprintf_run 0xffffffff hbuffer hstr hformat htext hcut (by omega) (by omega) hout hstrOut

/-- A text without NUL is a string in the buffer. -/
theorem sprintf_string (hbuffer : buffer ≠ 0) (hstr : StringsAt strings m)
    (hformat : StrAt m p u) (htext : formatText strings u va = some r) (hcut : r.cut = false)
    (hnul : (0 : UInt8) ∉ r.text) (hfits : buffer + r.text.length < 2 ^ 32)
    (hout : Outside buffer (r.text.length + 1) p u)
    (hstrOut : ∀ w t, strings w = some t → Outside buffer (r.text.length + 1) w.toNat t) :
    ∃ m' n, sprintf m buffer p va = some (m', n) ∧ StrAt m' buffer r.text ∧
      SameOutside m buffer (r.text.length + 1) m' := by
  have hlen : (r.text ++ [0]).length = r.text.length + 1 := by
    rw [List.length_append, List.length_singleton]
  refine ⟨_, _, sprintf_run hbuffer hstr hformat htext hcut hfits hout hstrOut, ?_, fun x hx => ?_⟩
  · have hseg : Seg (m.storeBytes buffer (r.text ++ [0])) buffer (r.text ++ [0]) :=
      seg_storeBytes (by omega)
    obtain ⟨htext, hend, -⟩ := seg_append.mp hseg
    exact ⟨htext, hend, hnul, hfits⟩
  · exact Mem.storeBytes_apply_of_disjoint _ _ _ _ (by omega) (by omega)

/-- A format that is cut off prints its terminator and then the string behind it. -/
theorem vsnprintf_cut (count : UInt32) (hbuffer : buffer ≠ 0) (hstr : StringsAt strings m)
    (hformat : StrAt m p u) (hbehind : StrAt m (p + u.length + 1) u')
    (htext : formatText strings u va = some r) (hcut : r.cut = true)
    (htext' : formatText strings u' r.va = some r') (hcut' : r'.cut = false)
    (hlen : (r.text ++ r'.text).length < 2 ^ 32)
    (hfits : buffer + (kept count (r.text ++ r'.text)).length ≤ 2 ^ 32)
    (hout : Outside buffer (kept count (r.text ++ r'.text)).length p u)
    (hout' : Outside buffer (kept count (r.text ++ r'.text)).length (p + u.length + 1) u')
    (hstrOut : ∀ w t, strings w = some t →
      Outside buffer (kept count (r.text ++ r'.text)).length w.toNat t) :
    vsnprintf m buffer count p va =
      some (m.storeBytes buffer (kept count (r.text ++ r'.text)),
        (UInt32.ofNat (r.text ++ r'.text).length).toInt32) := by
  unfold vsnprintf
  rw [vsnprintfOut_cut (P := SameOutside m buffer (kept count (r.text ++ r'.text)).length) hbuffer
    (fun m' h w t hw => h.strAt (hstr w t hw) (hstrOut w t hw)) (fun m' h => h.strAt hformat hout)
    (fun m' h => h.strAt hbehind hout') htext hcut htext' hcut' (stays_outBuffer hlen hfits),
    terminate_outBuffer hlen]

/-- `"a%"` with `"b"` behind it. -/
theorem vsnprintf_cut_percent : vsnprintf (stringMem 100 [97, 37, 0, 98, 0]) 4096 16 100 [] =
    some ((stringMem 100 [97, 37, 0, 98, 0]).storeBytes 4096 [97, 0, 98, 0], 3) :=
  vsnprintf_cut (u := [97, 37]) (r := ⟨[97, 0], [], true⟩) 16 (by decide)
    stringsAt_none (strAt_stringMem_append (s := [97, 37]) [] [98, 0] (by decide) (by decide))
    (strAt_stringMem_append (s := [98]) [97, 37, 0] [] (by decide) (by decide))
    (by
      rw [formatText_char (c := 97) (by decide), formatText_cut
        (show readSpec [] [] = some (⟨{}, 0, 0⟩, [], []) from rfl)]
      rfl) rfl
    (show formatText _ [98] [] = some ⟨[98], [], false⟩ by
      rw [formatText_char (by decide), formatText_nil]
      rfl) rfl (by decide) (by decide)
    (.inl (by decide)) (.inl (by decide)) (fun _ _ h => by cases h)

/-- Whatever the format and the arguments are, `snprintf` writes nothing but bytes of its
buffer, and nothing at all to `NULL`. -/
theorem vsnprintf_frame {count : UInt32} {m' : Mem} {n : Int32}
    (hfits : buffer + count.toNat ≤ 2 ^ 32)
    (h : vsnprintf m buffer count p va = some (m', n)) :
    SameOutside m buffer (if buffer = 0 then 0 else count.toNat) m' := by
  obtain ⟨s', hloop, hend⟩ := Option.bind_eq_some_iff.mp h
  obtain ⟨t, rfl⟩ := formatLoop_puts hloop
  have hkeep : ∀ c idx m', SameOutside m buffer (if buffer = 0 then 0 else count.toNat) m' →
      SameOutside m buffer (if buffer = 0 then 0 else count.toNat)
        ((if buffer = 0 then outNull (outBuffer buffer) else outBuffer buffer).out
          c idx count m') := by
    intro c idx m' h
    by_cases hbuffer : buffer = 0
    · rw [if_pos hbuffer] at h ⊢
      rw [if_pos hbuffer]
      exact h
    · rw [if_neg hbuffer] at h ⊢
      rw [if_neg hbuffer]
      exact h.out_outBuffer hfits
  cases hend
  exact hkeep _ _ _ (stays_of_keeps hkeep (fun x _ => rfl) t (List.prefix_refl t))

theorem vsnprintf_frame_percent :
    ∃ m', vsnprintf (stringMem 100 [97, 37, 37]) 4096 2 100 [] = some (m', 2) ∧
      SameOutside (stringMem 100 [97, 37, 37]) 4096 2 m' := by
  have hrun : vsnprintf (stringMem 100 [97, 37, 37]) 4096 2 100 [] =
      some ((stringMem 100 [97, 37, 37]).storeBytes 4096 [97, 0], 2) :=
    vsnprintf_run (r := ⟨[97, 37], [], false⟩) 2 (by decide) stringsAt_none
      (strAt_stringMem (by decide) (by decide)) formatText_percent rfl (by decide) (by decide)
      (.inl (by decide)) (fun _ _ h => by cases h)
  exact ⟨_, hrun, vsnprintf_frame (by decide) hrun⟩

end Snprintf

end Microboot.Kern.Printf
