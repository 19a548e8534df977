/-
  Kern/Buffer.lean --- the ring buffer of bytes, kern/buffer.c.

  `head` is where the next byte is put, `tail` where the next is got, and when both
  are the same the flag `full` tells a full buffer from an empty one.  Putting a byte
  into a full buffer overwrites the oldest one.

  The refinement: the buffer is a queue that keeps the most recent `size` bytes, for
  every capacity from one byte on and every sequence of calls.
-/
import Microboot.Foundation.Loop
import Microboot.Foundation.Ring
import Microboot.Foundation.Run
import Microboot.Kern.Stdlib

set_option autoImplicit false

namespace Microboot.Kern

open Microboot.Foundation

/-! ## The model -/

/-- `struct ringbuffer`; `buffer` is the space behind the pointer of that name. -/
structure Ringbuffer where
  buffer : List UInt8
  head : UInt32
  tail : UInt32
  size : UInt32
  full : Bool
  deriving DecidableEq, Repr

/-- `ringbuffer_init(rbuf, buffer, max_size)` -/
def ringbufferInit (buffer : List UInt8) (maxSize : UInt32) : Ringbuffer :=
  { buffer := buffer
    size := maxSize
    head := 0
    tail := 0
    full := false }

/-- `ringbuffer_reset(rbuf)` -/
def ringbufferReset (rbuf : Ringbuffer) : Ringbuffer :=
  { rbuf with
    head := 0
    tail := 0
    full := false }

/-- `ringbuffer_empty(rbuf)` -/
def ringbufferEmpty (rbuf : Ringbuffer) : Bool := rbuf.head == rbuf.tail && !rbuf.full

/-- `increment_ptr(rbuf)` -/
def incrementPtr (rbuf : Ringbuffer) : Ringbuffer :=
  let rbuf := if rbuf.full then { rbuf with tail := (rbuf.tail + 1) % rbuf.size } else rbuf
  let rbuf := { rbuf with head := (rbuf.head + 1) % rbuf.size }
  { rbuf with full := rbuf.head == rbuf.tail }

/-- `decrement_ptr(rbuf)` -/
def decrementPtr (rbuf : Ringbuffer) : Ringbuffer :=
  let rbuf := { rbuf with full := false }
  { rbuf with tail := (rbuf.tail + 1) % rbuf.size }

/-- `ringbuffer_put(rbuf, data)` -/
def ringbufferPut (rbuf : Ringbuffer) (data : UInt8) : Ringbuffer :=
  incrementPtr { rbuf with buffer := rbuf.buffer.set rbuf.head.toNat data }

/-- `ringbuffer_get(rbuf)` -/
def ringbufferGet (rbuf : Ringbuffer) : Except Fault (Ringbuffer × UInt8) := do
  require (ringbufferEmpty rbuf = false) "Cannot get from empty buffer"
  let data := rbuf.buffer.getD rbuf.tail.toNat 0
  return (decrementPtr rbuf, data)

/-- `ringbuffer_get_obj(rbuf, out, size)`: the bytes that are stored at `out`. -/
def ringbufferGetObj (rbuf : Ringbuffer) (size : Nat) : Except Fault (Ringbuffer × List UInt8) :=
  forUptoM size (fun _ (rbuf, out) => do
    let (rbuf, data) ← ringbufferGet rbuf
    return (rbuf, out ++ [data])) (rbuf, [])

/-- The bytes of an object whose size is in the range of the `int` that counts them
in `ringbuffer_put_obj`. -/
abbrev ObjBytes : Type := { bytes : List UInt8 // bytes.length < 2 ^ 31 }

/-- `ringbuffer_put_obj(rbuf, data, size)` -/
def ringbufferPutObj (rbuf : Ringbuffer) (data : ObjBytes) : Ringbuffer :=
  forUpto data.val.length (fun i rbuf => ringbufferPut rbuf (data.val.getD i 0)) rbuf

/-- A call of a ring buffer. -/
inductive BufferCall where
  | put (data : UInt8)
  | putObj (data : ObjBytes)
  | get
  | getObj (size : Nat)
  | reset
  deriving DecidableEq, Repr

/-- One call, with the bytes that it gets. -/
def bufferCall (rbuf : Ringbuffer) : BufferCall → Except Fault (Ringbuffer × List UInt8)
  | .put data => return (ringbufferPut rbuf data, [])
  | .putObj data => return (ringbufferPutObj rbuf data, [])
  | .get => do
    let (rbuf, data) ← ringbufferGet rbuf
    return (rbuf, [data])
  | .getObj size => ringbufferGetObj rbuf size
  | .reset => return (ringbufferReset rbuf, [])

/-- The calls, one after the other, with the bytes that each of them gets. -/
def bufferCalls (rbuf : Ringbuffer) : List BufferCall → Except Fault (Ringbuffer × List (List UInt8))
  | [] => return (rbuf, [])
  | call :: calls => do
    let (rbuf, out) ← bufferCall rbuf call
    let (rbuf, outs) ← bufferCalls rbuf calls
    return (rbuf, out :: outs)

/-! ## The queue -/

/-- One call on a queue that keeps the most recent `max` bytes, with the bytes that it
gets; there is no answer to a call that gets more bytes than are kept. -/
def queueCall (max : Nat) (kept : List UInt8) : BufferCall → Option (List UInt8 × List UInt8)
  | .put data => some (keepLast max (kept ++ [data]), [])
  | .putObj data => some (keepLast max (kept ++ data.val), [])
  | .get => if 1 ≤ kept.length then some (kept.drop 1, kept.take 1) else none
  | .getObj size => if size ≤ kept.length then some (kept.drop size, kept.take size) else none
  | .reset => some ([], [])

/-- The calls, one after the other, with the bytes that each of them gets. -/
def queueCalls (max : Nat) (kept : List UInt8) :
    List BufferCall → Option (List UInt8 × List (List UInt8))
  | [] => some (kept, [])
  | call :: calls => do
    let (kept, out) ← queueCall max kept call
    let (kept, outs) ← queueCalls max kept calls
    return (kept, out :: outs)

/-! ## The invariant -/

/-- The bytes of the queue are in the buffer from `tail` on, and `head` and `full` say
how many they are. -/
structure BufferHolds (rbuf : Ringbuffer) (kept : List UInt8) : Prop where
  length : rbuf.buffer.length = rbuf.size.toNat
  tail_lt : rbuf.tail.toNat < rbuf.size.toNat
  ring : InRing rbuf.buffer rbuf.tail.toNat kept
  head : rbuf.head.toNat = (rbuf.tail.toNat + kept.length) % rbuf.size.toNat
  full : rbuf.full = true ↔ kept.length = rbuf.size.toNat

/-- The pointer behind another, around the end of the buffer. -/
theorem toNat_succ_mod {p size : UInt32} (h : p.toNat < size.toNat) :
    ((p + 1) % size).toNat = (p.toNat + 1) % size.toNat := by
  have hlt := size.toNat_lt
  have hadd : (p.toNat + 1) % 2 ^ 32 = p.toNat + 1 := Nat.mod_eq_of_lt (by omega)
  rw [UInt32.toNat_mod, UInt32.toNat_add, UInt32.toNat_one, hadd]

namespace BufferHolds

variable {rbuf : Ringbuffer} {kept : List UInt8}

theorem init {buffer : List UInt8} {maxSize : UInt32} (hlength : buffer.length = maxSize.toNat)
    (hpos : 1 ≤ maxSize.toNat) : BufferHolds (ringbufferInit buffer maxSize) [] where
  length := hlength
  tail_lt := hpos
  ring := InRing.nil _ _
  head := by simp [ringbufferInit]
  full := by
    simp only [ringbufferInit, Bool.false_eq_true, List.length_nil, false_iff]
    omega

theorem reset (h : BufferHolds rbuf kept) : BufferHolds (ringbufferReset rbuf) [] := by
  have hpos := Nat.zero_lt_of_lt h.tail_lt
  exact init h.length hpos

theorem kept_le (h : BufferHolds rbuf kept) : kept.length ≤ rbuf.size.toNat := h.length ▸ h.ring.fits

/-- The buffer is empty exactly when no byte is kept. -/
theorem empty_iff (h : BufferHolds rbuf kept) : ringbufferEmpty rbuf = true ↔ kept = [] := by
  have htail := h.tail_lt
  have hsame : rbuf.head = rbuf.tail ↔ kept.length = 0 ∨ kept.length = rbuf.size.toNat := by
    rw [← UInt32.toNat_inj, h.head]
    exact InRing.index_eq_iff htail h.kept_le
  have hnot : (!rbuf.full) = true ↔ kept.length ≠ rbuf.size.toNat := by
    rw [Bool.not_eq_true', ← Bool.not_eq_true, h.full]
  unfold ringbufferEmpty
  rw [Bool.and_eq_true, beq_iff_eq, hsame, hnot, ← List.length_eq_zero_iff]
  omega

/-- A get of one byte. -/
theorem get {data : UInt8} (h : BufferHolds rbuf (data :: kept)) :
    ringbufferGet rbuf = .ok (decrementPtr rbuf, data) ∧ BufferHolds (decrementPtr rbuf) kept := by
  obtain ⟨hcell, hring⟩ := h.ring.pop
  have htail := h.tail_lt
  have hle := h.kept_le
  rw [h.length] at hcell hring
  rw [List.length_cons] at hle
  rw [Nat.mod_eq_of_lt htail] at hcell
  have hnext : (decrementPtr rbuf).tail.toNat = (rbuf.tail.toNat + 1) % rbuf.size.toNat :=
    toNat_succ_mod htail
  constructor
  · have hempty : ringbufferEmpty rbuf = false := by
      rw [← Bool.not_eq_true, h.empty_iff]
      exact List.cons_ne_nil _ _
    rw [ringbufferGet, require_of _ hempty, ok_bind, List.getD_eq_getElem?_getD, hcell]
    rfl
  · refine ⟨h.length, ?_, hnext ▸ hring, ?_, ?_⟩
    · rw [hnext]
      exact Nat.mod_lt _ (Nat.zero_lt_of_lt htail)
    · calc (decrementPtr rbuf).head.toNat
          = (rbuf.tail.toNat + (data :: kept).length) % rbuf.size.toNat := h.head
        _ = ((rbuf.tail.toNat + 1) % rbuf.size.toNat + kept.length) % rbuf.size.toNat := by
          rw [Nat.mod_add_mod, List.length_cons, Nat.add_assoc, Nat.add_comm 1]
        _ = _ := by rw [hnext]; rfl
    · simp only [decrementPtr, Bool.false_eq_true, false_iff]
      omega

/-- A put into a buffer that is not full. -/
theorem put_of_room (h : BufferHolds rbuf kept) (hroom : kept.length < rbuf.size.toNat)
    (data : UInt8) : BufferHolds (ringbufferPut rbuf data) (kept ++ [data]) := by
  have htail := h.tail_lt
  have hnot : rbuf.full = false := by
    rw [← Bool.not_eq_true, h.full]
    exact Nat.ne_of_lt hroom
  have hput : ringbufferPut rbuf data =
      { rbuf with
        buffer := rbuf.buffer.set rbuf.head.toNat data
        head := (rbuf.head + 1) % rbuf.size
        full := (rbuf.head + 1) % rbuf.size == rbuf.tail } := by
    simp [ringbufferPut, incrementPtr, hnot]
  have hhead : ((rbuf.head + 1) % rbuf.size).toNat =
      (rbuf.tail.toNat + (kept ++ [data]).length) % rbuf.size.toNat := by
    have hlt : rbuf.head.toNat < rbuf.size.toNat := by
      rw [h.head]
      exact Nat.mod_lt _ (Nat.zero_lt_of_lt htail)
    rw [toNat_succ_mod hlt, h.head, Nat.mod_add_mod, List.length_append, List.length_singleton,
      Nat.add_assoc]
  rw [hput]
  refine ⟨(List.length_set ..).trans h.length, htail, ?_, hhead, ?_⟩
  · have hpush := h.ring.push (h.length ▸ hroom) data
    rw [h.length, ← h.head] at hpush
    exact hpush
  · simp only [beq_iff_eq]
    rw [← UInt32.toNat_inj, hhead, InRing.index_eq_iff htail (by simpa using Nat.succ_le_of_lt hroom)]
    simp

/-- A put into a full buffer drops the oldest byte first. -/
theorem put_of_full (hfull : rbuf.full = true) (data : UInt8) :
    ringbufferPut rbuf data = ringbufferPut (decrementPtr rbuf) data := by
  simp [ringbufferPut, incrementPtr, decrementPtr, hfull]

/-- A put of one byte. -/
theorem put (h : BufferHolds rbuf kept) (data : UInt8) :
    BufferHolds (ringbufferPut rbuf data) (keepLast rbuf.size.toNat (kept ++ [data])) := by
  have hle := h.kept_le
  have htail := h.tail_lt
  by_cases hroom : kept.length < rbuf.size.toNat
  · rw [keepLast_of_le (by simpa using Nat.succ_le_of_lt hroom)]
    exact h.put_of_room hroom data
  · have hfull : kept.length = rbuf.size.toNat := by omega
    obtain ⟨first, rest, rfl⟩ := List.exists_cons_of_length_pos (l := kept) (by omega)
    have hkeep : keepLast rbuf.size.toNat (first :: rest ++ [data]) = rest ++ [data] := by
      rw [keepLast, List.length_append, hfull, List.length_singleton, Nat.add_sub_cancel_left]
      rfl
    rw [List.length_cons] at hfull
    rw [hkeep, put_of_full (h.full.mpr hfull)]
    exact h.get.2.put_of_room (Nat.lt_of_succ_le (Nat.le_of_eq hfull)) data

theorem size_put (rbuf : Ringbuffer) (data : UInt8) : (ringbufferPut rbuf data).size = rbuf.size := by
  cases hfull : rbuf.full <;> simp [ringbufferPut, incrementPtr, hfull]

/-- A put of an object: the invariant of the loop is that the first bytes were put. -/
theorem putObj (h : BufferHolds rbuf kept) (data : ObjBytes) :
    BufferHolds (ringbufferPutObj rbuf data) (keepLast rbuf.size.toNat (kept ++ data.val)) ∧
      (ringbufferPutObj rbuf data).size = rbuf.size := by
  have hloop := forUpto_inv (n := data.val.length)
    (f := fun i rbuf => ringbufferPut rbuf (data.val.getD i 0)) (s := rbuf)
    (fun i r => BufferHolds r (keepLast rbuf.size.toNat (kept ++ data.val.take i)) ∧
      r.size = rbuf.size) (by simpa [keepLast_of_le h.kept_le] using h) fun i hi r ⟨hr, hsize⟩ => by
    have hput := hr.put (data.val.getD i 0)
    rw [hsize, keepLast_append, List.append_assoc] at hput
    have hbyte : data.val.getD i 0 = data.val[i] := by
      rw [List.getD_eq_getElem?_getD, List.getElem?_eq_getElem hi, Option.getD_some]
    rw [List.take_add_one, List.getElem?_eq_getElem hi, Option.toList_some, ← hbyte]
    exact ⟨hput, (size_put r _).trans hsize⟩
  rw [List.take_length] at hloop
  exact hloop

/-- A get of an object of bytes that are kept. -/
theorem getObj (h : BufferHolds rbuf kept) {size : Nat} (hsize : size ≤ kept.length) :
    ringbufferGetObj rbuf size = .ok (decrementPtr^[size] rbuf, kept.take size) ∧
      BufferHolds (decrementPtr^[size] rbuf) (kept.drop size) := by
  obtain ⟨⟨rbuf', out⟩, hloop, rfl, rfl, hholds⟩ := forUptoM_ok (n := size)
    (f := fun _ (s : Ringbuffer × List UInt8) => do
      let (rbuf, data) ← ringbufferGet s.1
      return (rbuf, s.2 ++ [data])) (s := (rbuf, []))
    (fun i s => s.2 = kept.take i ∧ s.1 = decrementPtr^[i] rbuf ∧ BufferHolds s.1 (kept.drop i))
    ⟨rfl, rfl, h⟩ fun i hi s ⟨hout, hptr, hs⟩ => by
      have hlt : i < kept.length := Nat.lt_of_lt_of_le hi hsize
      rw [List.drop_eq_getElem_cons hlt] at hs
      obtain ⟨hget, hnext⟩ := hs.get
      refine ⟨(decrementPtr s.1, s.2 ++ [kept[i]]), ?_, ?_, ?_, hnext⟩
      · rw [hget]
        rfl
      · rw [hout, List.take_add_one, List.getElem?_eq_getElem hlt]
        rfl
      · rw [Function.iterate_succ_apply', hptr]
  exact ⟨hloop, hholds⟩

/-- The same bytes, one get after the other. -/
theorem gets (h : BufferHolds rbuf kept) {size : Nat} (hsize : size ≤ kept.length) :
    bufferCalls rbuf (List.replicate size .get) =
      .ok (decrementPtr^[size] rbuf, (kept.take size).map fun data => [data]) := by
  induction size generalizing rbuf kept with
  | zero => rfl
  | succ size ih =>
    obtain ⟨data, rest, rfl⟩ := List.exists_cons_of_length_pos (Nat.zero_lt_of_lt hsize)
    obtain ⟨hget, hnext⟩ := h.get
    have hrest := ih hnext (Nat.le_of_succ_le_succ hsize)
    rw [List.replicate_succ, bufferCalls, bufferCall, hget, ok_bind]
    simp only [pure_bind]
    rw [hrest]
    rfl

theorem size_iterate (rbuf : Ringbuffer) (n : Nat) : (decrementPtr^[n] rbuf).size = rbuf.size := by
  induction n with
  | zero => rfl
  | succ n ih =>
    rw [Function.iterate_succ_apply']
    exact ih

end BufferHolds

/-! ## Any sequence of calls -/

section Calls

variable {rbuf : Ringbuffer} {kept kept' out : List UInt8} {outs : List (List UInt8)}

/-- Putting an object is putting its bytes in order. -/
theorem ringbufferPutObj_eq (rbuf : Ringbuffer) (data : ObjBytes) :
    ringbufferPutObj rbuf data = data.val.foldl ringbufferPut rbuf := by
  have hloop := forUpto_inv (n := data.val.length)
    (f := fun i rbuf => ringbufferPut rbuf (data.val.getD i 0)) (s := rbuf)
    (fun i r => r = (data.val.take i).foldl ringbufferPut rbuf) rfl fun i hi r hr => by
      rw [hr, List.take_add_one, List.getElem?_eq_getElem hi, List.foldl_append,
        List.getD_eq_getElem?_getD, List.getElem?_eq_getElem hi]
      rfl
  rw [List.take_length] at hloop
  exact hloop

/-- One call does to the buffer what it does to the queue. -/
theorem bufferCall_refines (h : BufferHolds rbuf kept) {call : BufferCall}
    (hqueue : queueCall rbuf.size.toNat kept call = some (kept', out)) :
    ∃ rbuf', bufferCall rbuf call = .ok (rbuf', out) ∧ BufferHolds rbuf' kept' ∧
      rbuf'.size = rbuf.size := by
  cases call with
  | put data =>
    cases hqueue
    exact ⟨_, rfl, h.put data, BufferHolds.size_put rbuf data⟩
  | putObj data =>
    cases hqueue
    obtain ⟨hholds, hsize⟩ := h.putObj data
    exact ⟨_, rfl, hholds, hsize⟩
  | get =>
    obtain ⟨hpos, hsome⟩ := Option.ite_none_right_eq_some.mp hqueue
    cases hsome
    obtain ⟨data, rest, rfl⟩ := List.exists_cons_of_length_pos hpos
    obtain ⟨hget, hnext⟩ := h.get
    exact ⟨decrementPtr rbuf, by rw [bufferCall, hget]; rfl, hnext, rfl⟩
  | getObj size =>
    obtain ⟨hsize, hsome⟩ := Option.ite_none_right_eq_some.mp hqueue
    cases hsome
    obtain ⟨hget, hholds⟩ := h.getObj hsize
    exact ⟨_, hget, hholds, BufferHolds.size_iterate rbuf size⟩
  | reset =>
    cases hqueue
    exact ⟨_, rfl, h.reset, rfl⟩

/-- Any calls do to the buffer what they do to the queue. -/
theorem bufferCalls_refines (calls : List BufferCall) (h : BufferHolds rbuf kept)
    (hqueue : queueCalls rbuf.size.toNat kept calls = some (kept', outs)) :
    ∃ rbuf', bufferCalls rbuf calls = .ok (rbuf', outs) ∧ BufferHolds rbuf' kept' := by
  induction calls generalizing rbuf kept outs with
  | nil =>
    cases hqueue
    exact ⟨rbuf, rfl, h⟩
  | cons call calls ih =>
    obtain ⟨⟨kept₁, out⟩, hcall, hrest⟩ := Option.bind_eq_some_iff.mp hqueue
    obtain ⟨⟨kept₂, outs₂⟩, hcalls, hsome⟩ := Option.bind_eq_some_iff.mp hrest
    cases hsome
    obtain ⟨rbuf₁, hfirst, h₁, hsize⟩ := bufferCall_refines h hcall
    obtain ⟨rbuf', hthen, h'⟩ := ih h₁ (hsize ▸ hcalls)
    refine ⟨rbuf', ?_, h'⟩
    rw [bufferCalls, hfirst, ok_bind]
    simp only
    rw [hthen]
    rfl

/-- A ring buffer of any capacity is a queue that keeps the most recent bytes: after any
calls that get no more than is kept, every get returned the oldest bytes that were
kept at its time, the buffer is empty exactly when nothing is kept, and the calls for
objects do what the calls for their bytes do in order. -/
theorem ringbuffer_refines {buffer : List UInt8} {maxSize : UInt32} (hpos : 1 ≤ maxSize.toNat)
    (hlength : buffer.length = maxSize.toNat) {calls : List BufferCall}
    (hqueue : queueCalls maxSize.toNat [] calls = some (kept, outs)) :
    ∃ rbuf, bufferCalls (ringbufferInit buffer maxSize) calls = .ok (rbuf, outs) ∧
      (ringbufferEmpty rbuf = true ↔ kept = []) ∧
      (∀ data, ringbufferPutObj rbuf data = data.val.foldl ringbufferPut rbuf) ∧
      ∀ size ≤ kept.length, ∃ rbuf' bytes, ringbufferGetObj rbuf size = .ok (rbuf', bytes) ∧
        bufferCalls rbuf (List.replicate size .get) =
          .ok (rbuf', bytes.map fun data => [data]) := by
  obtain ⟨rbuf, hcalls, h⟩ := bufferCalls_refines calls (BufferHolds.init hlength hpos) hqueue
  exact ⟨rbuf, hcalls, h.empty_iff, ringbufferPutObj_eq rbuf, fun size hsize =>
    ⟨_, _, (h.getObj hsize).1, h.gets hsize⟩⟩

/-- A buffer of two bytes: the first of three bytes is overwritten. -/
theorem ringbuffer_refines_overwritten :
    ∃ rbuf, bufferCalls (ringbufferInit [0, 0] 2) [.putObj ⟨[1, 2, 3], by decide⟩, .get] =
        .ok (rbuf, [[], [2]]) ∧ (ringbufferEmpty rbuf = true ↔ [(3 : UInt8)] = []) := by
  have hqueue : queueCalls (2 : UInt32).toNat [] [.putObj ⟨[1, 2, 3], by decide⟩, .get] =
      some ([3], [[], [2]]) := by decide
  have hlength : [(0 : UInt8), 0].length = (2 : UInt32).toNat := rfl
  obtain ⟨rbuf, hcalls, hempty, -⟩ := ringbuffer_refines (by decide) hlength hqueue
  exact ⟨rbuf, hcalls, hempty⟩

end Calls

end Microboot.Kern
