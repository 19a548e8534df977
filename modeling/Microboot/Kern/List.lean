/-
  Kern/List.lean --- the doubly linked list, kern/list.c.

  A `struct list` has two sentinels, and its nodes are in blocks of their own.  The
  list is empty in two ways: `list_init` leaves null pointers in the sentinels, and
  removing the last node leaves sentinels that point to each other; `list_append`
  tells the two apart by the pointer of the tail.

  `list_insert` is to put a node in front of another one.  It writes the pointers
  behind that one, and none of the new node.

  `ListAt` is the invariant, for both: the nodes, between the sentinels, are linked
  in both directions.  Every function of the file keeps it, the traversals visit
  the nodes in order, and whatever else runs may write everything but the nodes and
  the sentinels.
-/
import Microboot.Foundation.Links
import Microboot.Foundation.Regions
import Microboot.Foundation.Run
import Microboot.Kern.Stdlib

set_option autoImplicit false

namespace Microboot.Kern

open Microboot.Foundation

/-! ## The model -/

/-- `sizeof(struct list_node)` -/
def listNodeSize : Nat := 12

/-- `sizeof(struct list)` -/
def listSize : Nat := 24

/-- `list_next(item)` -/
def listNext (m : Mem) (item : Nat) : Nat := m.load32 item

/-- `list_prev(item)` -/
def listPrev (m : Mem) (item : Nat) : Nat := m.load32 (item + 4)

/-- `list_value(item)` -/
def listValue (m : Mem) (item : Nat) : Nat := m.load32 (item + 8)

/-- `item->next = next` -/
def setNext (m : Mem) (item next : Nat) : Mem := m.store32 item next

/-- `item->prev = prev` -/
def setPrev (m : Mem) (item prev : Nat) : Mem := m.store32 (item + 4) prev

/-- `item->value = data` -/
def setValue (m : Mem) (item data : Nat) : Mem := m.store32 (item + 8) data

/-- `&list->head` -/
def headNode (list : Nat) : Nat := list

/-- `&list->tail` -/
def tailNode (list : Nat) : Nat := list + listNodeSize

/-- `list_init(list)` -/
def listInit (m : Mem) (list : Nat) : Except Fault Mem := do
  require (list ≠ 0) "Initializing null list"
  let m := setPrev m (headNode list) 0
  let m := setNext m (headNode list) 0
  let m := setPrev m (tailNode list) 0
  return setNext m (tailNode list) 0

/-- `list_append(list, item)` -/
def listAppend (m : Mem) (list item : Nat) : Except Fault Mem :=
  if listPrev m (tailNode list) ≠ 0 then
    let prev := listPrev m (tailNode list)
    let m := setPrev m (tailNode list) item
    let m := setNext m prev item
    let m := setPrev m item prev
    return setNext m item (tailNode list)
  else do
    -- empty list scenario
    require (listNext m (headNode list) = 0) "Expected empty list"
    let m := setPrev m (tailNode list) item
    let m := setNext m (headNode list) item
    let m := setPrev m item (headNode list)
    return setNext m item (tailNode list)

/-- `list_remove(item)` in front of `kfree(item)`. -/
def listUnlink (m : Mem) (item : Nat) : Mem :=
  let prev := listPrev m item
  let next := listNext m item
  let m := setNext m prev next
  setPrev m next prev

/-- `list_insert(before, item)` -/
def listInsert (m : Mem) (before item : Nat) : Mem :=
  let oldnext := listNext m before
  let m := setNext m before item
  setPrev m oldnext item

/-- `list_head(list)` -/
def listHead (m : Mem) (list : Nat) : Nat := listNext m (headNode list)

/-- `list_tail(list)` -/
def listTail (m : Mem) (list : Nat) : Nat := listPrev m (tailNode list)

/-- `LIST_FOREACH(i, list)`: the nodes that `i` is, if the loop ends within the fuel. -/
def listForeach (fuel : Nat) (m : Mem) (list : Nat) : Option (List Nat) :=
  walk (listNext m) 0 fuel (listHead m list)

/-- The same loop from `list_tail` on with `list_prev`. -/
def listForeachBack (fuel : Nat) (m : Mem) (list : Nat) : Option (List Nat) :=
  walk (listPrev m) 0 fuel (listTail m list)

/-! ## Nodes that do not overlap -/

/-- The nodes are in the address space, and two of them are the same or apart. -/
structure Spaced (nodes : List Nat) : Prop where
  fits : ∀ p ∈ nodes, p + listNodeSize ≤ 2 ^ 32
  apart : ∀ p ∈ nodes, ∀ q ∈ nodes, p = q ∨ p + listNodeSize ≤ q ∨ q + listNodeSize ≤ p

namespace Spaced

variable {nodes nodes' : List Nat} {m : Mem} {p q x : Nat}

theorem mono (hs : Spaced nodes) (hsub : nodes' ⊆ nodes) : Spaced nodes' where
  fits p hp := hs.fits p (hsub hp)
  apart p hp q hq := hs.apart p (hsub hp) q (hsub hq)

theorem lt (hs : Spaced nodes) (hp : p ∈ nodes) : p < 2 ^ 32 := by
  have := hs.fits p hp
  unfold listNodeSize at this
  omega

/-- Reading one word of a node after another was written. -/
theorem load_store (hs : Spaced nodes) (hp : p ∈ nodes) (hq : q ∈ nodes) {i j : Nat}
    (hi : i + 4 ≤ listNodeSize) (hj : j + 4 ≤ listNodeSize)
    (hne : p ≠ q ∨ i + 4 ≤ j ∨ j + 4 ≤ i) :
    (m.store32 (p + i) x).load32 (q + j) = m.load32 (q + j) := by
  have hfits := hs.fits p hp
  have hfits' := hs.fits q hq
  have hapart := hs.apart p hp q hq
  unfold listNodeSize at *
  exact Mem.load32_store32_of_disjoint _ _ (by omega) (by omega) (by omega)

theorem next_setNext (hs : Spaced nodes) (hp : p ∈ nodes) (hq : q ∈ nodes) (hx : x < 2 ^ 32) :
    listNext (setNext m p x) q = if q = p then x else listNext m q := by
  have hfits := hs.fits p hp
  unfold listNodeSize at hfits
  split
  · next heq => rw [heq, listNext, setNext, Mem.load32_store32_same _ hx]
  · next hne =>
    exact hs.load_store (i := 0) (j := 0) hp hq (by decide) (by decide) (Or.inl (Ne.symm hne))

theorem next_setPrev (hs : Spaced nodes) (hp : p ∈ nodes) (hq : q ∈ nodes) :
    listNext (setPrev m p x) q = listNext m q :=
  hs.load_store (i := 4) (j := 0) hp hq (by decide) (by decide) (by omega)

theorem prev_setPrev (hs : Spaced nodes) (hp : p ∈ nodes) (hq : q ∈ nodes) (hx : x < 2 ^ 32) :
    listPrev (setPrev m p x) q = if q = p then x else listPrev m q := by
  have hfits := hs.fits p hp
  unfold listNodeSize at hfits
  split
  · next heq => rw [heq, listPrev, setPrev, Mem.load32_store32_same _ hx]
  · next hne =>
    exact hs.load_store (i := 4) (j := 4) hp hq (by decide) (by decide) (Or.inl (Ne.symm hne))

theorem prev_setNext (hs : Spaced nodes) (hp : p ∈ nodes) (hq : q ∈ nodes) :
    listPrev (setNext m p x) q = listPrev m q :=
  hs.load_store (i := 0) (j := 4) hp hq (by decide) (by decide) (by omega)

theorem value_setNext (hs : Spaced nodes) (hp : p ∈ nodes) (hq : q ∈ nodes) :
    listValue (setNext m p x) q = listValue m q :=
  hs.load_store (i := 0) (j := 8) hp hq (by decide) (by decide) (by omega)

theorem value_setPrev (hs : Spaced nodes) (hp : p ∈ nodes) (hq : q ∈ nodes) :
    listValue (setPrev m p x) q = listValue m q :=
  hs.load_store (i := 4) (j := 8) hp hq (by decide) (by decide) (by omega)

end Spaced

/-! ## What the stores do -/

/-- The four stores of `list_append`, between the nodes `prev` and `next`. -/
def linkBetween (m : Mem) (prev next item : Nat) : Mem :=
  setNext (setPrev (setNext (setPrev m next item) prev item) item prev) item next

section Stores

variable {cells : List Nat} {m : Mem} {a b item p x : Nat}

theorem next_linkBetween (hs : Spaced cells) (ha : a ∈ cells) (hb : b ∈ cells)
    (hitem : item ∈ cells) (hp : p ∈ cells) :
    listNext (linkBetween m a b item) p =
      if p = item then b else if p = a then item else listNext m p := by
  rw [linkBetween, hs.next_setNext hitem hp (hs.lt hb), hs.next_setPrev hitem hp,
    hs.next_setNext ha hp (hs.lt hitem), hs.next_setPrev hb hp]

theorem prev_linkBetween (hs : Spaced cells) (ha : a ∈ cells) (hb : b ∈ cells)
    (hitem : item ∈ cells) (hp : p ∈ cells) :
    listPrev (linkBetween m a b item) p =
      if p = item then a else if p = b then item else listPrev m p := by
  rw [linkBetween, hs.prev_setNext hitem hp, hs.prev_setPrev hitem hp (hs.lt ha),
    hs.prev_setNext ha hp, hs.prev_setPrev hb hp (hs.lt hitem)]

theorem value_linkBetween (hs : Spaced cells) (ha : a ∈ cells) (hb : b ∈ cells)
    (hitem : item ∈ cells) (hp : p ∈ cells) :
    listValue (linkBetween m a b item) p = listValue m p := by
  rw [linkBetween, hs.value_setNext hitem hp, hs.value_setPrev hitem hp, hs.value_setNext ha hp,
    hs.value_setPrev hb hp]

theorem next_listInsert (hs : Spaced cells) (ha : a ∈ cells) (hb : listNext m a ∈ cells)
    (hitem : item ∈ cells) (hp : p ∈ cells) :
    listNext (listInsert m a item) p = if p = a then item else listNext m p := by
  rw [listInsert, hs.next_setPrev hb hp, hs.next_setNext ha hp (hs.lt hitem)]

theorem prev_listInsert (hs : Spaced cells) (ha : a ∈ cells) (hb : listNext m a ∈ cells)
    (hitem : item ∈ cells) (hp : p ∈ cells) :
    listPrev (listInsert m a item) p = if p = listNext m a then item else listPrev m p := by
  rw [listInsert, hs.prev_setPrev hb hp (hs.lt hitem), hs.prev_setNext ha hp]

/-- Writing a pointer of a node writes the node only. -/
theorem setNext_apply (hs : Spaced cells) (ha : a ∈ cells) (v : Nat)
    (hx : x < a ∨ a + listNodeSize ≤ x) : setNext m a v x = m x := by
  have hfits := hs.fits a ha
  unfold listNodeSize at hfits hx
  exact Mem.store32_apply_of_disjoint _ _ (by omega) (by omega)

theorem setPrev_apply (hs : Spaced cells) (ha : a ∈ cells) (v : Nat)
    (hx : x < a ∨ a + listNodeSize ≤ x) : setPrev m a v x = m x := by
  have hfits := hs.fits a ha
  unfold listNodeSize at hfits hx
  exact Mem.store32_apply_of_disjoint _ _ (by omega) (by omega)

theorem linkBetween_apply (hs : Spaced cells) (ha : a ∈ cells) (hb : b ∈ cells)
    (hitem : item ∈ cells) (hx : ∀ p ∈ cells, x < p ∨ p + listNodeSize ≤ x) :
    linkBetween m a b item x = m x := by
  rw [linkBetween, setNext_apply hs hitem _ (hx item hitem),
    setPrev_apply hs hitem _ (hx item hitem), setNext_apply hs ha _ (hx a ha),
    setPrev_apply hs hb _ (hx b hb)]

end Stores

/-! ## The invariant -/

/-- The nodes between the sentinels. -/
def listCells (list : Nat) (nodes : List Nat) : List Nat :=
  headNode list :: (nodes ++ [tailNode list])

/-- The nodes of a list, cut behind some of them. -/
theorem listCells_cut (list : Nat) (front : List Nat) : ∃ start a,
    headNode list :: front = start ++ [a] ∧
    ∀ back, listCells list (front ++ back) = start ++ a :: (back ++ [tailNode list]) := by
  obtain ⟨start, a, hfront⟩ : ∃ start a, headNode list :: front = start ++ [a] :=
    ⟨_, _, (List.dropLast_concat_getLast (List.cons_ne_nil _ _)).symm⟩
  refine ⟨start, a, hfront, fun back => ?_⟩
  rw [listCells, List.append_assoc, ← List.cons_append, hfront, List.append_assoc]
  rfl

theorem listCells_perm (list : Nat) (front : List Nat) (item : Nat) (back : List Nat) :
    (listCells list (front ++ item :: back)).Perm (item :: listCells list (front ++ back)) := by
  have hmiddle : (headNode list :: front ++ item :: (back ++ [tailNode list])).Perm
      (item :: (headNode list :: front ++ (back ++ [tailNode list]))) := List.perm_middle
  simpa [listCells] using hmiddle

/-- The list has these nodes, in this order. -/
structure ListAt (m : Mem) (list : Nat) (nodes : List Nat) : Prop where
  list_ne : list ≠ 0
  null : ∀ p ∈ nodes, p ≠ 0
  nodup : (listCells list nodes).Nodup
  spaced : Spaced (listCells list nodes)
  head_prev : listPrev m (headNode list) = 0
  tail_next : listNext m (tailNode list) = 0
  links : (nodes = [] ∧ listNext m (headNode list) = 0 ∧ listPrev m (tailNode list) = 0) ∨
    Links (listNext m) (listPrev m) (listCells list nodes)

/-- The memory is `m'` and the list has the nodes `nodes'`: nothing was written but
nodes of `cells`, and the values of these are as they were. -/
structure ListChange (m m' : Mem) (list : Nat) (nodes' cells : List Nat) : Prop where
  list : ListAt m' list nodes'
  values : ∀ p ∈ cells, listValue m' p = listValue m p
  frame : ∀ x, (∀ p ∈ cells, x < p ∨ p + listNodeSize ≤ x) → m' x = m x

namespace ListAt

variable {m m' : Mem} {list item before : Nat} {nodes front back : List Nat}

/-- The list depends on its nodes and sentinels only. -/
theorem congr (h : ListAt m list nodes)
    (hsame : ∀ p ∈ listCells list nodes, ∀ x, p ≤ x → x < p + listNodeSize → m' x = m x) :
    ListAt m' list nodes := by
  have hnext : ∀ p ∈ listCells list nodes, listNext m' p = listNext m p := by
    intro p hp
    have hfits := h.spaced.fits p hp
    unfold listNodeSize at hfits hsame
    exact Mem.load32_congr (by omega) fun x h1 h2 => hsame p hp x h1 (by omega)
  have hprev : ∀ p ∈ listCells list nodes, listPrev m' p = listPrev m p := by
    intro p hp
    have hfits := h.spaced.fits p hp
    unfold listNodeSize at hfits hsame
    exact Mem.load32_congr (by omega) fun x h1 h2 => hsame p hp x (by omega) (by omega)
  have hhead : headNode list ∈ listCells list nodes := by simp [listCells]
  have htail : tailNode list ∈ listCells list nodes := by simp [listCells]
  refine ⟨h.list_ne, h.null, h.nodup, h.spaced, ?_, ?_, ?_⟩
  · rw [hprev _ hhead, h.head_prev]
  · rw [hnext _ htail, h.tail_next]
  · rcases h.links with ⟨hnil, hfirst, hlast⟩ | hlinks
    · exact Or.inl ⟨hnil, by rw [hnext _ hhead, hfirst], by rw [hprev _ htail, hlast]⟩
    · refine Or.inr (hlinks.congr (fun p hp => hnext p ?_) fun p hp => hprev p ?_)
      · exact List.dropLast_subset _ hp
      · exact List.mem_of_mem_tail hp

/-! ### Traversals -/

/-- `LIST_FOREACH` visits the nodes in order, and stops. -/
theorem foreach (h : ListAt m list nodes) {fuel : Nat} (hfuel : nodes.length < fuel) :
    listForeach fuel m list = some nodes := by
  unfold listForeach listHead
  rcases h.links with ⟨rfl, hfirst, -⟩ | hlinks
  · obtain ⟨fuel, rfl⟩ := Nat.exists_eq_succ_of_ne_zero (Nat.ne_of_gt hfuel)
    rw [hfirst, walk, if_neg fun hne => hne.1 rfl]
  · obtain ⟨hfirst, hrest⟩ := List.isChain_cons.mp hlinks
    obtain ⟨first, hstart⟩ : ∃ first, (nodes ++ [tailNode list]).head? = some first := by
      cases nodes <;> simp
    refine walk_eq h.tail_next (hrest.imp fun _ _ hab => hab.1) (fun p hp => ?_) hfuel
      ((hfirst first hstart).1 ▸ hstart)
    rcases List.mem_append.mp hp with hp | hp
    · exact h.null p hp
    · rw [List.mem_singleton.mp hp, tailNode, listNodeSize]
      omega

/-- The walk from the tail visits the same nodes in reverse, and stops. -/
theorem foreachBack (h : ListAt m list nodes) {fuel : Nat} (hfuel : nodes.length < fuel) :
    listForeachBack fuel m list = some nodes.reverse := by
  unfold listForeachBack listTail
  rcases h.links with ⟨rfl, -, hlast⟩ | hlinks
  · obtain ⟨fuel, rfl⟩ := Nat.exists_eq_succ_of_ne_zero (Nat.ne_of_gt hfuel)
    rw [hlast, walk, if_neg fun hne => hne.1 rfl]
    rfl
  · have hback : (tailNode list :: (nodes.reverse ++ [headNode list])).IsChain
        fun a b => listNext m b = a ∧ listPrev m a = b := by
      have hreverse := List.isChain_reverse.mpr hlinks
      simpa [listCells] using hreverse
    obtain ⟨hlast, hrest⟩ := List.isChain_cons.mp hback
    obtain ⟨last, hstart⟩ : ∃ last, (nodes.reverse ++ [headNode list]).head? = some last := by
      cases nodes.reverse <;> simp
    refine walk_eq h.head_prev (hrest.imp fun _ _ hab => hab.2) (fun p hp => ?_)
      (by simpa using hfuel) ((hlast last hstart).2 ▸ hstart)
    rcases List.mem_append.mp hp with hp | hp
    · exact h.null p (List.mem_reverse.mp hp)
    · rw [List.mem_singleton.mp hp]
      exact h.list_ne

/-- The neighbours of a node point to it. -/
theorem neighbours (h : ListAt m list nodes) {p : Nat} (hp : p ∈ nodes) :
    listNext m (listPrev m p) = p ∧ listPrev m (listNext m p) = p := by
  rcases h.links with ⟨rfl, -⟩ | hlinks
  · simp at hp
  · obtain ⟨front, back, rfl⟩ := List.append_of_mem hp
    obtain ⟨start, a, -, hcut⟩ := listCells_cut list front
    obtain ⟨b, rest, hback⟩ : ∃ b rest, back ++ [tailNode list] = b :: rest := by
      cases back <;> simp
    rw [hcut, List.cons_append, hback] at hlinks
    obtain ⟨hpa, hap, hpb, hbp⟩ := hlinks.interior
    rw [hpa, hpb]
    exact ⟨hap, hbp⟩

/-! ### Changes -/

/-- `list_init` makes an empty list. -/
theorem init {list : Nat} (hne : list ≠ 0) (hfits : list + listSize ≤ 2 ^ 32) (m : Mem) :
    ∃ m', listInit m list = .ok m' ∧ ListAt m' list [] ∧
      ∀ x, x < list ∨ list + listSize ≤ x → m' x = m x := by
  have hhead : headNode list ∈ listCells list [] := by simp [listCells]
  have htail : tailNode list ∈ listCells list [] := by simp [listCells]
  have hs : Spaced (listCells list []) := by
    unfold listSize at hfits
    constructor
    · intro p hp
      simp only [listCells, List.nil_append, List.mem_cons, List.not_mem_nil, or_false, headNode,
        tailNode, listNodeSize] at hp ⊢
      omega
    · intro p hp q hq
      simp only [listCells, List.nil_append, List.mem_cons, List.not_mem_nil, or_false, headNode,
        tailNode, listNodeSize] at hp hq ⊢
      omega
  have hapart : headNode list ≠ tailNode list := by
    unfold headNode tailNode listNodeSize
    omega
  refine ⟨_, by rw [listInit, require_of _ hne]; rfl,
    ⟨hne, by simp, ?_, hs, ?_, ?_, Or.inl ⟨rfl, ?_, ?_⟩⟩, fun x hx => ?_⟩
  · simpa [listCells] using hapart
  · rw [hs.prev_setNext htail hhead, hs.prev_setPrev htail hhead (by decide), if_neg hapart,
      hs.prev_setNext hhead hhead, hs.prev_setPrev hhead hhead (by decide), if_pos rfl]
  · rw [hs.next_setNext htail htail (by decide), if_pos rfl]
  · rw [hs.next_setNext htail hhead (by decide), if_neg hapart, hs.next_setPrev htail hhead,
      hs.next_setNext hhead hhead (by decide), if_pos rfl]
  · rw [hs.prev_setNext htail htail, hs.prev_setPrev htail htail (by decide), if_pos rfl]
  · have hx' : (x < headNode list ∨ headNode list + listNodeSize ≤ x) ∧
        (x < tailNode list ∨ tailNode list + listNodeSize ≤ x) := by
      unfold headNode tailNode listNodeSize
      unfold listSize at hx
      omega
    rw [setNext_apply hs htail _ hx'.2, setPrev_apply hs htail _ hx'.2,
      setNext_apply hs hhead _ hx'.1, setPrev_apply hs hhead _ hx'.1]

/-- `list_append` returns, and the node is behind the others. -/
theorem append (h : ListAt m list nodes) (hnull : item ≠ 0)
    (hnew : item ∉ listCells list nodes) (hs : Spaced (item :: listCells list nodes)) :
    ∃ m', listAppend m list item = .ok m' ∧
      ListChange m m' list (nodes ++ [item]) (item :: listCells list nodes) := by
  obtain ⟨start, a, hfirst, hcut⟩ := listCells_cut list nodes
  have hold : listCells list nodes = start ++ a :: [tailNode list] := by simpa using hcut []
  have hnodup := h.nodup
  rw [hold] at hnodup
  have hitem : item ∈ item :: listCells list nodes := List.mem_cons_self
  have ha : a ∈ item :: listCells list nodes := by simp [hold]
  have htail : tailNode list ∈ item :: listCells list nodes := by simp [hold]
  have hdistinct : a ≠ tailNode list := by
    have := (List.nodup_append.mp hnodup).2.1
    simpa using this
  have hnot : ∀ p ∈ listCells list nodes, p ≠ item := fun p hp heq => hnew (heq ▸ hp)
  -- the part up to the last node is linked, and `list_append` finds that node
  obtain ⟨hfront, happend⟩ : Links (listNext m) (listPrev m) (start ++ [a]) ∧
      listAppend m list item = .ok (linkBetween m a (tailNode list) item) := by
    rcases h.links with ⟨rfl, hnext, hprev⟩ | hlinks
    · rw [← List.nil_append [headNode list]] at hfirst
      obtain ⟨rfl, ha⟩ := List.append_inj' hfirst rfl
      cases ha
      refine ⟨List.isChain_singleton _, ?_⟩
      rw [listAppend, if_neg (not_not.mpr hprev), require_of _ hnext]
      rfl
    · rw [hold] at hlinks
      obtain ⟨hfront, ⟨-, hprev⟩, -⟩ := links_append_cons_cons.mp hlinks
      have hne : a ≠ 0 := by
        have hmem : a ∈ headNode list :: nodes := by simp [hfirst]
        rcases List.mem_cons.mp hmem with rfl | hmem
        · exact h.list_ne
        · exact h.null a hmem
      refine ⟨hfront, ?_⟩
      rw [listAppend, if_pos (by rw [hprev]; exact hne), hprev]
      rfl
  have hperm : (listCells list (nodes ++ [item])).Perm (item :: listCells list nodes) := by
    simpa using listCells_perm list nodes item []
  have hhead : headNode list ∈ listCells list nodes := List.mem_cons_self
  have hheadtail : headNode list ≠ tailNode list := by
    unfold headNode tailNode listNodeSize
    omega
  refine ⟨_, happend, ⟨h.list_ne, fun p hp => ?_, ?_, hs.mono hperm.subset, ?_, ?_, Or.inr ?_⟩,
    fun p hp => value_linkBetween hs ha htail hitem hp,
    fun x hx => linkBetween_apply hs ha htail hitem hx⟩
  · rcases List.mem_append.mp hp with hp | hp
    · exact h.null p hp
    · exact List.mem_singleton.mp hp ▸ hnull
  · exact hperm.nodup_iff.mpr (List.nodup_cons.mpr ⟨hnew, h.nodup⟩)
  · rw [prev_linkBetween hs ha htail hitem (List.mem_cons_of_mem _ hhead),
      if_neg (hnot _ hhead), if_neg hheadtail, h.head_prev]
  · have hmem : tailNode list ∈ listCells list nodes := by simp [hold]
    rw [next_linkBetween hs ha htail hitem htail, if_neg (hnot _ hmem), if_neg hdistinct.symm,
      h.tail_next]
  · have hold' : ∀ p ∈ start ++ a :: [tailNode list], p ∈ listCells list nodes := by simp [hold]
    rw [hcut [item]]
    refine hfront.insert (List.isChain_singleton _) hnodup (fun p hp hne => ?_)
      (fun p hp hne => ?_) ?_ ?_ ?_ ?_
    · rw [next_linkBetween hs ha htail hitem (List.mem_cons_of_mem _ (hold' p hp)),
        if_neg (hnot p (hold' p hp)), if_neg hne]
    · rw [prev_linkBetween hs ha htail hitem (List.mem_cons_of_mem _ (hold' p hp)),
        if_neg (hnot p (hold' p hp)), if_neg hne]
    · rw [next_linkBetween hs ha htail hitem ha, if_neg (hnot a (by simp [hold])), if_pos rfl]
    · rw [prev_linkBetween hs ha htail hitem htail, if_neg (hnot _ (by simp [hold])), if_pos rfl]
    · rw [next_linkBetween hs ha htail hitem hitem, if_pos rfl]
    · rw [prev_linkBetween hs ha htail hitem hitem, if_pos rfl]

/-- `list_remove` takes the node out. -/
theorem unlink (h : ListAt m list (front ++ item :: back)) :
    ListChange m (listUnlink m item) list (front ++ back)
      (listCells list (front ++ item :: back)) := by
  obtain ⟨start, a, hfirst, hcut⟩ := listCells_cut list front
  obtain ⟨b, rest, hback⟩ : ∃ b rest, back ++ [tailNode list] = b :: rest := by
    cases back <;> simp
  have hold : listCells list (front ++ item :: back) = start ++ a :: item :: b :: rest := by
    rw [hcut, List.cons_append, hback]
  have hnew : listCells list (front ++ back) = start ++ a :: b :: rest := by rw [hcut, hback]
  have hs := h.spaced
  have hperm := listCells_perm list front item back
  obtain ⟨hnot, hnodup⟩ := List.nodup_cons.mp (hperm.nodup_iff.mp h.nodup)
  have hsub : listCells list (front ++ back) ⊆ listCells list (front ++ item :: back) :=
    fun p hp => hperm.symm.subset (List.mem_cons_of_mem _ hp)
  have ha : a ∈ listCells list (front ++ item :: back) := by simp [hold]
  have hb : b ∈ listCells list (front ++ item :: back) := by simp [hold]
  have hapart : ∀ p ∈ start ++ [a], ∀ q ∈ b :: rest, p ≠ q := by
    rw [hnew, List.append_cons] at hnodup
    exact (List.nodup_append.mp hnodup).2.2
  have hlinks : Links (listNext m) (listPrev m) (start ++ a :: item :: b :: rest) := by
    rcases h.links with ⟨hnil, -⟩ | hlinks
    · simp at hnil
    · exact hold ▸ hlinks
  obtain ⟨hprev, -, hnext, -⟩ := hlinks.interior
  have hunlink : listUnlink m item = setPrev (setNext m a b) b a := by
    unfold listUnlink
    rw [hprev, hnext]
  have hread : ∀ p ∈ listCells list (front ++ item :: back),
      listNext (listUnlink m item) p = (if p = a then b else listNext m p) ∧
      listPrev (listUnlink m item) p = (if p = b then a else listPrev m p) := by
    intro p hp
    rw [hunlink, hs.next_setPrev hb hp, hs.next_setNext ha hp (hs.lt hb),
      hs.prev_setPrev hb hp (hs.lt ha), hs.prev_setNext ha hp]
    exact ⟨rfl, rfl⟩
  refine ⟨⟨h.list_ne, fun p hp => ?_, hnodup, hs.mono hsub, ?_, ?_, Or.inr ?_⟩, fun p hp => ?_,
    fun x hx => ?_⟩
  · exact h.null p (by
      rcases List.mem_append.mp hp with hp | hp
      · exact List.mem_append_left _ hp
      · exact List.mem_append_right _ (List.mem_cons_of_mem _ hp))
  · have hne : headNode list ≠ b := hapart _ (hfirst ▸ List.mem_cons_self) b List.mem_cons_self
    rw [(hread _ List.mem_cons_self).2, if_neg hne, h.head_prev]
  · have htail : tailNode list ∈ b :: rest := hback ▸ by simp
    have hne : tailNode list ≠ a := (hapart a (by simp) _ htail).symm
    rw [(hread _ (by simp [listCells])).1, if_neg hne, h.tail_next]
  · have hread' : ∀ p ∈ start ++ a :: b :: rest, p ∈ listCells list (front ++ item :: back) :=
      fun p hp => hsub (hnew ▸ hp)
    rw [hnew] at hnodup ⊢
    refine hlinks.remove hnodup (fun p hp hne => ?_) (fun p hp hne => ?_) ?_ ?_
    · rw [(hread p (hread' p hp)).1, if_neg hne]
    · rw [(hread p (hread' p hp)).2, if_neg hne]
    · rw [(hread a ha).1, if_pos rfl]
    · rw [(hread b hb).2, if_pos rfl]
  · rw [hunlink, hs.value_setPrev hb hp, hs.value_setNext ha hp]
  · rw [hunlink, setPrev_apply hs hb _ (hx b hb), setNext_apply hs ha _ (hx a ha)]

/-- The links around a node of the list. -/
theorem links_at (h : ListAt m list (front ++ before :: back)) : ∃ b rest,
    listCells list (front ++ before :: back) = headNode list :: front ++ before :: b :: rest ∧
    back ++ [tailNode list] = b :: rest ∧
    Links (listNext m) (listPrev m) (headNode list :: front ++ before :: b :: rest) := by
  obtain ⟨b, rest, hback⟩ : ∃ b rest, back ++ [tailNode list] = b :: rest := by
    cases back <;> simp
  have hold : listCells list (front ++ before :: back) =
      headNode list :: front ++ before :: b :: rest := by
    rw [listCells, List.append_assoc, List.cons_append, hback]
    rfl
  refine ⟨b, rest, hold, hback, ?_⟩
  rcases h.links with ⟨hnil, -⟩ | hlinks
  · simp at hnil
  · exact hold ▸ hlinks

end ListAt

/-- The list has `item` in front of `before`, as both traversals see it. -/
structure InsertedBefore (m : Mem) (list : Nat) (front : List Nat) (item before : Nat)
    (back : List Nat) : Prop where
  wellFormed : ∃ nodes, ListAt m list nodes
  foreach : ∃ fuel, listForeach fuel m list = some (front ++ item :: before :: back)
  foreachBack :
    ∃ fuel, listForeachBack fuel m list = some (front ++ item :: before :: back).reverse

section Insert

variable {m : Mem} {list item before : Nat} {front back : List Nat}

/-- `list_insert` puts the node behind the other one, and `LIST_FOREACH` does not see it in
front of it. -/
theorem not_insertedBefore_listInsert (h : ListAt m list (front ++ before :: back))
    (hnull : item ≠ 0) (hnew : item ∉ listCells list (front ++ before :: back))
    (hs : Spaced (item :: listCells list (front ++ before :: back))) :
    ¬ InsertedBefore (listInsert m before item) list front item before back := by
  rintro ⟨-, ⟨fuel, hwalk⟩, -⟩
  obtain ⟨b, rest, hold, -, hlinks⟩ := h.links_at
  obtain ⟨hfront, ⟨hnext, -⟩, -⟩ := links_append_cons_cons.mp hlinks
  have hitem : item ∈ item :: listCells list (front ++ before :: back) := List.mem_cons_self
  have hbefore : before ∈ item :: listCells list (front ++ before :: back) := by simp [hold]
  have hb : listNext m before ∈ item :: listCells list (front ++ before :: back) := by
    simp [hold, hnext]
  have hnodup := h.nodup
  rw [hold] at hnodup
  -- the chain from the head goes on from `before` to `item`
  have hchain : (headNode list :: front ++ before :: [item]).IsChain
      fun a b => listNext (listInsert m before item) a = b := by
    have hkept : Links (listNext (listInsert m before item)) (listPrev m)
        (headNode list :: front ++ [before]) := by
      refine hfront.congr (fun p hp => ?_) fun _ _ => rfl
      rw [List.dropLast_concat] at hp
      have hne : p ≠ before := (List.nodup_append.mp hnodup).2.2 p hp before List.mem_cons_self
      have hmem : p ∈ item :: listCells list (front ++ before :: back) := by
        rw [hold]
        exact List.mem_cons_of_mem _ (List.mem_append_left _ hp)
      rw [next_listInsert hs hbefore hb hitem hmem, if_neg hne]
    refine List.isChain_append_cons_cons.mpr
      ⟨hkept.imp fun _ _ hab => hab.1, ?_, List.isChain_singleton _⟩
    rw [next_listInsert hs hbefore hb hitem hbefore, if_pos rfl]
  rw [List.cons_append] at hchain
  obtain ⟨hfirst, hrest⟩ := List.isChain_cons.mp hchain
  rw [List.append_cons] at hfirst hrest
  obtain ⟨first, hstart⟩ : ∃ first, (front ++ [before] ++ [item]).head? = some first := by
    cases front <;> simp
  have hne : ∀ p ∈ front ++ [before] ++ [item], p ≠ 0 := by
    intro p hp
    rcases List.mem_append.mp hp with hp | hp
    · exact h.null p (by
        rw [List.append_cons]
        exact List.mem_append_left _ hp)
    · exact List.mem_singleton.mp hp ▸ hnull
  have hprefix := walk_prefix hrest hne
    (hstart.trans (congrArg some (hfirst first hstart).symm)) hwalk
  rw [List.prefix_append_right_inj, List.cons_prefix_cons] at hprefix
  obtain ⟨hitem, -⟩ := hprefix
  exact hnew (hitem ▸ by simp [hold])

/-- The list goes on behind `before` with `item` exactly if the pointers of `item` were set
in front of the call. -/
theorem listInsert_listAt_iff (h : ListAt m list (front ++ before :: back))
    (hnull : item ≠ 0) (hnew : item ∉ listCells list (front ++ before :: back))
    (hs : Spaced (item :: listCells list (front ++ before :: back))) :
    ListAt (listInsert m before item) list (front ++ before :: item :: back) ↔
      listNext m item = listNext m before ∧ listPrev m item = before := by
  obtain ⟨b, rest, hold, hback, hlinks⟩ := h.links_at
  obtain ⟨hfront, ⟨hnext, -⟩, hrest⟩ := links_append_cons_cons.mp hlinks
  have hitem : item ∈ item :: listCells list (front ++ before :: back) := List.mem_cons_self
  have hmem : ∀ p ∈ listCells list (front ++ before :: back),
      p ∈ item :: listCells list (front ++ before :: back) ∧ p ≠ item :=
    fun p hp => ⟨List.mem_cons_of_mem _ hp, fun heq => hnew (heq ▸ hp)⟩
  obtain ⟨hbefore, hbeforeItem⟩ := hmem before (by simp [hold])
  obtain ⟨hb, hbItem⟩ := hmem b (by simp [hold])
  have hnodup := h.nodup
  rw [hold] at hnodup
  have hbeforeb : before ≠ b := by
    have := (List.nodup_append.mp hnodup).2.1
    simp only [List.nodup_cons, List.mem_cons, not_or] at this
    exact this.1.1
  have hreadNext := fun p hp => next_listInsert (p := p) hs hbefore (hnext.symm ▸ hb) hitem hp
  have hreadPrev := fun p hp => prev_listInsert (p := p) hs hbefore (hnext.symm ▸ hb) hitem hp
  rw [hnext] at hreadPrev ⊢
  have hcut : listCells list (front ++ before :: item :: back) =
      headNode list :: front ++ before :: item :: b :: rest := by
    rw [listCells, List.append_assoc, List.cons_append, List.cons_append, hback]
    rfl
  constructor
  · intro h'
    have hlinks' : Links (listNext (listInsert m before item)) (listPrev (listInsert m before item))
        (headNode list :: front ++ before :: item :: b :: rest) := by
      rcases h'.links with ⟨hnil, -⟩ | hlinks'
      · simp at hnil
      · exact hcut ▸ hlinks'
    obtain ⟨hprev', -, hnext', -⟩ := hlinks'.interior
    rw [hreadPrev item hitem, if_neg hbItem.symm] at hprev'
    rw [hreadNext item hitem, if_neg hbeforeItem.symm] at hnext'
    exact ⟨hnext', hprev'⟩
  · rintro ⟨hitemNext, hitemPrev⟩
    have hperm : (listCells list (front ++ before :: item :: back)).Perm
        (item :: listCells list (front ++ before :: back)) := by
      simpa using listCells_perm list (front ++ [before]) item back
    refine ⟨h.list_ne, fun p hp => ?_, ?_, hs.mono hperm.subset, ?_, ?_, Or.inr ?_⟩
    · rw [List.append_cons] at hp
      rcases List.mem_cons.mp (List.perm_middle.subset hp) with rfl | hp
      · exact hnull
      · exact h.null p (by rwa [List.append_assoc] at hp)
    · exact hperm.nodup_iff.mpr (List.nodup_cons.mpr ⟨hnew, h.nodup⟩)
    · have hhead : headNode list ≠ b := (List.nodup_append.mp hnodup).2.2 _ List.mem_cons_self b
        (List.mem_cons_of_mem _ List.mem_cons_self)
      rw [hreadPrev _ (hmem _ List.mem_cons_self).1, if_neg hhead, h.head_prev]
    · have htail : tailNode list ∈ b :: rest := hback ▸ by simp
      have hne : tailNode list ≠ before := fun heq =>
        (List.nodup_cons.mp (List.nodup_append.mp hnodup).2.1).1 (heq ▸ htail)
      rw [hreadNext _ (hmem _ (by simp [listCells])).1, if_neg hne, h.tail_next]
    · rw [hcut]
      refine hfront.insert hrest hnodup (fun p hp hne => ?_) (fun p hp hne => ?_) ?_ ?_ ?_ ?_
      · rw [hreadNext p (hmem p (hold ▸ hp)).1, if_neg hne]
      · rw [hreadPrev p (hmem p (hold ▸ hp)).1, if_neg hne]
      · rw [hreadNext before hbefore, if_pos rfl]
      · rw [hreadPrev b hb, if_pos rfl]
      · rw [hreadNext item hitem, if_neg hbeforeItem.symm, hitemNext]
      · rw [hreadPrev item hitem, if_neg hbItem.symm, hitemPrev]

/-- A list with one node, in a memory of zeros. -/
theorem listAt_only : ListAt (linkBetween (fun _ => 0) 4096 4108 8192) 4096 [8192] := by
  have hempty : ListAt (fun _ => 0) 4096 [] :=
    ⟨by decide, by simp, by decide, ⟨by decide, by decide⟩, rfl, rfl, Or.inl ⟨rfl, rfl, rfl⟩⟩
  have hne : (8192 : Nat) ≠ 0 := by decide
  obtain ⟨m, happend, hchange⟩ := hempty.append hne (by decide) ⟨by decide, by decide⟩
  have hstores : listAppend (fun _ => 0) 4096 8192 = .ok (linkBetween (fun _ => 0) 4096 4108 8192) :=
    rfl
  rw [hstores] at happend
  cases happend
  exact hchange.list

theorem not_insertedBefore_listInsert_only :
    ¬ InsertedBefore (listInsert (linkBetween (fun _ => 0) 4096 4108 8192) 8192 12288) 4096
      [] 12288 8192 [] :=
  not_insertedBefore_listInsert listAt_only (by decide) (by decide) ⟨by decide, by decide⟩

/-- In front of the only node of a list: no traversal visits the new node. -/
theorem listInsert_only : ListAt (linkBetween (fun _ => 0) 4096 4108 8192) 4096 [8192] ∧
    listForeachBack 2 (listInsert (linkBetween (fun _ => 0) 4096 4108 8192) 8192 12288) 4096 =
      some [] ∧
    (∀ fuel, listForeach (fuel + 2)
      (listInsert (linkBetween (fun _ => 0) 4096 4108 8192) 8192 12288) 4096 = some [8192]) ∧
    ¬ InsertedBefore (listInsert (linkBetween (fun _ => 0) 4096 4108 8192) 8192 12288) 4096
      [] 12288 8192 [] := by
  have hforeach : ∀ fuel, listForeach (fuel + 2)
      (listInsert (linkBetween (fun _ => 0) 4096 4108 8192) 8192 12288) 4096 = some [8192] :=
    fun _ => rfl
  refine ⟨listAt_only, by decide +kernel, hforeach, ?_⟩
  rintro ⟨-, ⟨fuel, hwalk⟩, -⟩
  rcases fuel with _ | _ | fuel
  · cases hwalk
  · cases hwalk
  · rw [hforeach] at hwalk
    cases hwalk

end Insert

/-! ## Lists in a heap -/

/-- A node that was appended: its block and its value. -/
structure ListItem where
  node : Region
  value : Nat
  deriving DecidableEq, Repr

/-- The addresses of the nodes. -/
def nodesOf (items : List ListItem) : List Nat := items.map fun item => item.node.start

/-- What a list uses: the `struct list`, and the blocks of its nodes. -/
def listRegions (list : Nat) (items : List ListItem) : List Region :=
  ⟨list, listSize⟩ :: items.map ListItem.node

/-- The list in the heap has these nodes, in blocks that are in use. -/
structure ListIn (h : Heap) (list : Nat) (items : List ListItem) : Prop where
  live : ∀ r ∈ listRegions list items, r ∈ h.live
  room : ∀ item ∈ items, listNodeSize ≤ item.node.size
  list : ListAt h.mem list (nodesOf items)
  values : ∀ item ∈ items, listValue h.mem item.node.start = item.value

section ListIn

variable {h h' : Heap} {list : Nat} {items : List ListItem} {item : ListItem} {p : Nat}

theorem mem_listCells (hitem : item ∈ items) :
    item.node.start ∈ listCells list (nodesOf items) := by
  simp only [listCells, nodesOf, List.mem_cons, List.mem_append, List.mem_map]
  exact Or.inr (Or.inl ⟨item, hitem, rfl⟩)

/-- Every node of the list, and every sentinel, is inside what the list uses. -/
theorem ListIn.cell (hin : ListIn h list items) (hp : p ∈ listCells list (nodesOf items)) :
    ∃ r ∈ listRegions list items, r.start ≤ p ∧ p + listNodeSize ≤ r.start + r.size := by
  have hown : ⟨list, listSize⟩ ∈ listRegions list items := List.mem_cons_self
  rcases List.mem_cons.mp hp with hhead | hp
  · exact ⟨_, hown, by simp [hhead, headNode], by simp [hhead, headNode, listNodeSize, listSize]⟩
  · rcases List.mem_append.mp hp with hp | hp
    · obtain ⟨item, hitem, rfl⟩ := List.mem_map.mp hp
      have hroom := hin.room item hitem
      exact ⟨item.node, List.mem_cons_of_mem _ (List.mem_map.mpr ⟨item, hitem, rfl⟩),
        Nat.le_refl _, by omega⟩
    · have htail := List.mem_singleton.mp hp
      exact ⟨_, hown, by simp [htail, tailNode],
        by simp [htail, tailNode, listNodeSize, listSize]⟩

/-- What is held of the list stays a list. -/
theorem ListIn.held (hin : ListIn h list items)
    (hheld : Heap.Held (listRegions list items) h h') : ListIn h' list items where
  live r hr := (hheld r hr).1
  room := hin.room
  list := by
    refine hin.list.congr fun p hp x h1 h2 => ?_
    obtain ⟨r, hr, hstart, hstop⟩ := hin.cell hp
    exact (hheld r hr).2 x ⟨by omega, by omega⟩
  values item hitem := by
    have hmem : item.node ∈ listRegions list items :=
      List.mem_cons_of_mem _ (List.mem_map.mpr ⟨item, hitem, rfl⟩)
    have hfits := hin.list.spaced.fits _ (mem_listCells hitem)
    have hroom := hin.room item hitem
    unfold listNodeSize at hfits hroom
    rw [← hin.values item hitem]
    exact Mem.load32_congr (by omega) fun x h1 h2 => (hheld _ hmem).2 x ⟨by omega, by omega⟩

/-- A block that was just allocated is apart from the list. -/
theorem ListIn.fresh (hin : ListIn h list items) (halloc : h.Alloc listNodeSize h' item.node) :
    item.node.start ∉ listCells list (nodesOf items) ∧
      Spaced (item.node.start :: listCells list (nodesOf items)) := by
  have hroom := halloc.room
  have hapart : ∀ p ∈ listCells list (nodesOf items),
      item.node.start + listNodeSize ≤ p ∨ p + listNodeSize ≤ item.node.start := by
    intro p hp
    obtain ⟨r, hr, hstart, hstop⟩ := hin.cell hp
    have := halloc.apart r (hin.live r hr)
    unfold Region.Apart at this
    omega
  have hs := hin.list.spaced
  refine ⟨fun hmem => ?_, fun p hp => ?_, fun p hp q hq => ?_⟩
  · have := hapart _ hmem
    unfold listNodeSize at this
    omega
  · rcases List.mem_cons.mp hp with rfl | hp
    · have := halloc.fits
      omega
    · exact hs.fits p hp
  · rcases List.mem_cons.mp hp with rfl | hp
    · rcases List.mem_cons.mp hq with rfl | hq
      · exact Or.inl rfl
      · exact Or.inr (hapart q hq)
    · rcases List.mem_cons.mp hq with rfl | hq
      · exact Or.inr (hapart p hp).symm
      · exact hs.apart p hp q hq

theorem nodesOf_append (items : List ListItem) (item : ListItem) :
    nodesOf (items ++ [item]) = nodesOf items ++ [item.node.start] := by
  simp [nodesOf]

/-- A node with a value is appended, in a block that was just allocated: nothing else
in use is written. -/
theorem ListIn.append (hin : ListIn h list items) (hok : h.Ok)
    (halloc : h.Alloc listNodeSize h' item.node) (hnull : item.node.start ≠ 0)
    (hvalue : item.value < 2 ^ 32) :
    ∃ m, listAppend (setValue h'.mem item.node.start item.value) list item.node.start = .ok m ∧
      ListIn { h' with mem := m } list (items ++ [item]) ∧
      ∀ r ∈ h.live, r ∉ listRegions list items → ∀ x, r.Has x → m x = h.mem x := by
  obtain ⟨hnew, hs⟩ := hin.fresh halloc
  have hroom := halloc.room
  have hfits := halloc.fits
  have hlive : ∀ r ∈ h.live, r ∈ h'.live := fun r hr => halloc.live ▸ List.mem_cons_of_mem _ hr
  have hsame : ∀ r ∈ h.live, ∀ x, r.Has x →
      setValue h'.mem item.node.start item.value x = h.mem x := by
    intro r hr x hx
    have hapart := halloc.apart r hr
    unfold Region.Apart at hapart
    unfold Region.Has at hx
    unfold listNodeSize at hroom
    rw [← halloc.keeps r hr x hx]
    exact Mem.store32_apply_of_disjoint _ _ (by omega) (by omega)
  have hin₁ : ListIn { h' with mem := setValue h'.mem item.node.start item.value } list items :=
    hin.held fun r hr => ⟨hlive r (hin.live r hr), hsame r (hin.live r hr)⟩
  obtain ⟨m, hm, hchange⟩ := hin₁.list.append hnull hnew hs
  refine ⟨m, hm, ⟨fun r hr => ?_, fun item' hitem => ?_, ?_, fun item' hitem => ?_⟩,
    fun r hr hnot x hx => ?_⟩
  · rw [listRegions, List.map_append, ← List.cons_append, List.mem_append] at hr
    rcases hr with hr | hr
    · exact hlive r (hin.live r hr)
    · rw [List.map_singleton, List.mem_singleton] at hr
      rw [hr, halloc.live]
      exact List.mem_cons_self
  · rcases List.mem_append.mp hitem with hold | hlast
    · exact hin.room item' hold
    · rw [List.mem_singleton.mp hlast]
      exact hroom
  · rw [nodesOf_append]
    exact hchange.list
  · rcases List.mem_append.mp hitem with hold | hlast
    · rw [hchange.values _ (List.mem_cons_of_mem _ (mem_listCells hold)), hin₁.values _ hold]
    · rw [List.mem_singleton.mp hlast, hchange.values _ List.mem_cons_self]
      unfold listNodeSize at hroom
      exact Mem.load32_store32_same _ hvalue
  · rw [← hsame r hr x hx]
    refine hchange.frame x fun p hp => ?_
    unfold Region.Has at hx
    rcases List.mem_cons.mp hp with rfl | hp
    · have hapart := halloc.apart r hr
      unfold Region.Apart at hapart
      omega
    · obtain ⟨r', hr', hstart, hstop⟩ := hin.cell hp
      rcases hok.eq_or_apart hr (hin.live r' hr') with rfl | hapart
      · exact absurd hr' hnot
      · unfold Region.Apart at hapart
        omega

/-- A node is removed and its block freed. -/
theorem ListIn.remove (hin : ListIn h list items) (hitem : item ∈ items)
    (hfree : Heap.Free { h with mem := listUnlink h.mem item.node.start } item.node h') :
    ListIn h' list (items.erase item) := by
  obtain ⟨front, back, -, rfl, herase⟩ := List.exists_erase_eq hitem
  rw [herase]
  have hnodes : nodesOf (front ++ item :: back) =
      nodesOf front ++ item.node.start :: nodesOf back := by simp [nodesOf]
  have hlist := hin.list
  rw [hnodes] at hlist
  have hchange := hlist.unlink
  have hsub : ∀ item' ∈ front ++ back, item' ∈ front ++ item :: back := by
    intro item' hmem
    rw [List.mem_append] at hmem ⊢
    exact hmem.imp_right (List.mem_cons_of_mem _)
  -- the list without the node, when its block is not freed yet
  have hin₁ : ListIn { h with mem := listUnlink h.mem item.node.start } list (front ++ back) := by
    refine ⟨fun r hr => ?_, fun item' hmem => hin.room _ (hsub item' hmem), ?_, fun item' hmem => ?_⟩
    · rcases List.mem_cons.mp hr with rfl | hr
      · exact hin.live _ List.mem_cons_self
      · obtain ⟨item', hmem, rfl⟩ := List.mem_map.mp hr
        exact hin.live _ (List.mem_cons_of_mem _ (List.mem_map.mpr ⟨item', hsub _ hmem, rfl⟩))
    · simpa [nodesOf] using hchange.list
    · rw [hchange.values _ (hnodes ▸ mem_listCells (hsub item' hmem))]
      exact hin.values _ (hsub item' hmem)
  have hnot : item.node.start ∉ listCells list (nodesOf front ++ nodesOf back) :=
    (List.nodup_cons.mp ((listCells_perm ..).nodup_iff.mp hlist.nodup)).1
  refine hin₁.held (Heap.Free.held hfree hin₁.live fun hr => hnot ?_)
  rcases List.mem_cons.mp hr with hown | hr
  · rw [hown]
    exact List.mem_cons_self
  · obtain ⟨item', hmem, heq⟩ := List.mem_map.mp hr
    have hcell : item'.node.start ∈ listCells list (nodesOf (front ++ back)) := mem_listCells hmem
    rw [heq] at hcell
    simpa [nodesOf] using hcell

/-- `list_init` of a `struct list` that is in use: nothing else in use is written. -/
theorem ListIn.init (hok : h.Ok) (hown : ⟨list, listSize⟩ ∈ h.live) {m : Mem}
    (hinit : listInit h.mem list = .ok m) :
    ListIn { h with mem := m } list [] ∧
      ∀ r ∈ h.live, r ≠ ⟨list, listSize⟩ → ∀ x, r.Has x → m x = h.mem x := by
  have hne : list ≠ 0 := by
    obtain ⟨u, hu, -⟩ := bind_eq_ok hinit
    exact require_eq_ok hu
  obtain ⟨m', hm', hlist, hframe⟩ := ListAt.init hne (hok.fits _ hown) h.mem
  rw [hinit] at hm'
  cases hm'
  refine ⟨⟨fun r hr => ?_, by simp, hlist, by simp⟩, fun r hr hother x hx => hframe x ?_⟩
  · rw [List.mem_singleton.mp hr]
    exact hown
  · rcases hok.eq_or_apart hr hown with heq | hapart
    · exact absurd heq hother
    · unfold Region.Apart at hapart
      unfold Region.Has at hx
      simp only at hapart
      omega

end ListIn

/-! ## Any sequence of appends and removes -/

/-- What happens to a list.  Other code runs, too, and leaves what the list uses
alone. -/
inductive ListCall where
  | append (item : ListItem)
  | remove (item : ListItem)
  | other
  deriving DecidableEq, Repr

/-- The nodes that were appended and not removed, in the order of the appends. -/
def keptItems : List ListCall → List ListItem :=
  List.foldl (fun items call =>
    match call with
    | .append item => items ++ [item]
    | .remove item => items.erase item
    | .other => items) []

/-- A heap, and the nodes that are in the list. -/
structure ListSystem where
  heap : Heap
  items : List ListItem

/-- `list_append(list, list_node(value))`, `list_remove(item)` of a node in the list, or
other code. -/
inductive ListStep (list : Nat) (s : ListSystem) : ListCall → ListSystem → Prop
  | append {h : Heap} {item : ListItem} {m : Mem} :
      s.heap.Alloc listNodeSize h item.node → item.node.start ≠ 0 → item.value < 2 ^ 32 →
      listAppend (setValue h.mem item.node.start item.value) list item.node.start = .ok m →
      ListStep list s (.append item) ⟨{ h with mem := m }, s.items ++ [item]⟩
  | remove {h : Heap} {item : ListItem} : item ∈ s.items →
      Heap.Free { s.heap with mem := listUnlink s.heap.mem item.node.start } item.node h →
      ListStep list s (.remove item) ⟨h, s.items.erase item⟩
  | other {h : Heap} : Heap.Held (listRegions list s.items) s.heap h → h.Ok →
      ListStep list s .other ⟨h, s.items⟩

section Run

variable {list : Nat} {s s' s₀ : ListSystem} {call : ListCall} {trace : List ListCall}

/-- The heap is in order and the list in it has the nodes that it should have. -/
structure ListSystem.Inv (list : Nat) (s : ListSystem) : Prop where
  ok : s.heap.Ok
  list : ListIn s.heap list s.items

theorem ListStep.inv (h : s.Inv list) (hstep : ListStep list s call s') : s'.Inv list := by
  cases hstep with
  | append halloc hnull hvalue hm =>
    obtain ⟨m, hm', hin, -⟩ := h.list.append h.ok halloc hnull hvalue
    rw [hm] at hm'
    cases hm'
    exact ⟨(halloc.ok h.ok).congr rfl, hin⟩
  | remove hitem hfree => exact ⟨hfree.ok (h.ok.congr rfl), h.list.remove hitem hfree⟩
  | other hheld hok => exact ⟨hok, h.list.held hheld⟩

theorem ListStep.items (hstep : ListStep list s call s') (hitems : s.items = keptItems trace) :
    s'.items = keptItems (trace ++ [call]) := by
  rw [keptItems, List.foldl_append, ← keptItems, ← hitems]
  cases hstep with
  | append => rfl
  | remove => rfl
  | other => rfl

/-- The node of an allocation can be appended: no assertion of `list_append` fails. -/
theorem ListSystem.Inv.append_returns (h : s.Inv list) {h' : Heap} {item : ListItem}
    (halloc : s.heap.Alloc listNodeSize h' item.node) (hnull : item.node.start ≠ 0)
    (hvalue : item.value < 2 ^ 32) :
    ∃ m, listAppend (setValue h'.mem item.node.start item.value) list item.node.start = .ok m := by
  obtain ⟨m, hm, -⟩ := h.list.append h.ok halloc hnull hvalue
  exact ⟨m, hm⟩

/-- After `list_init` and any appends of new nodes and removes of nodes in the list,
with other code in between: `LIST_FOREACH` visits the nodes that were appended and
not removed, in the order of the appends, and stops; from the tail on they are
visited in reverse; the neighbours of every node point to it; and the next append
returns, too. -/
theorem listRun_traversals {h₀ : Heap} {m : Mem} (hok : h₀.Ok) (hown : ⟨list, listSize⟩ ∈ h₀.live)
    (hinit : listInit h₀.mem list = .ok m)
    (hrun : Run (ListStep list) ⟨{ h₀ with mem := m }, []⟩ trace s) :
    (∀ fuel > (keptItems trace).length,
      listForeach fuel s.heap.mem list = some (nodesOf (keptItems trace)) ∧
      listForeachBack fuel s.heap.mem list = some (nodesOf (keptItems trace)).reverse) ∧
    (∀ item ∈ keptItems trace,
      listNext s.heap.mem (listPrev s.heap.mem item.node.start) = item.node.start ∧
      listPrev s.heap.mem (listNext s.heap.mem item.node.start) = item.node.start ∧
      listValue s.heap.mem item.node.start = item.value ∧ item.node ∈ s.heap.live) ∧
    ∀ (h : Heap) (item : ListItem), s.heap.Alloc listNodeSize h item.node → item.node.start ≠ 0 →
      item.value < 2 ^ 32 →
      ∃ m, listAppend (setValue h.mem item.node.start item.value) list item.node.start = .ok m := by
  have hstart : ListSystem.Inv list ⟨{ h₀ with mem := m }, []⟩ :=
    ⟨hok.congr rfl, (ListIn.init hok hown hinit).1⟩
  have hinv : s.Inv list := hrun.invariant hstart fun _ _ _ h hstep => hstep.inv h
  have hitems : s.items = keptItems trace := by
    clear hinv
    induction hrun with
    | nil => rfl
    | snoc _ hstep ih => exact hstep.items ih
  have hin := hinv.list
  rw [hitems] at hin
  refine ⟨fun fuel hfuel => ⟨hin.list.foreach ?_, hin.list.foreachBack ?_⟩, fun item hitem => ?_,
    fun h item halloc hnull hvalue => hinv.append_returns halloc hnull hvalue⟩
  · simpa [nodesOf] using hfuel
  · simpa [nodesOf] using hfuel
  · have hmem : item.node.start ∈ nodesOf (keptItems trace) :=
      List.mem_map.mpr ⟨item, hitem, rfl⟩
    obtain ⟨hnext, hprev⟩ := hin.list.neighbours hmem
    exact ⟨hnext, hprev, hin.values item hitem,
      hin.live _ (List.mem_cons_of_mem _ (List.mem_map.mpr ⟨item, hitem, rfl⟩))⟩

/-- A list in an empty heap: one node is appended and removed again. -/
theorem listRun_traversals_emptied : ∃ (m : Mem) (s : ListSystem),
    listInit (fun _ => 0) 4096 = .ok m ∧
    Run (ListStep 4096) ⟨⟨m, [⟨4096, 24⟩]⟩, []⟩
      [.append ⟨⟨8192, 16⟩, 7⟩, .remove ⟨⟨8192, 16⟩, 7⟩] s ∧
    listForeach 1 s.heap.mem 4096 = some [] ∧ listForeachBack 1 s.heap.mem 4096 = some [] := by
  have hok : Heap.Ok ⟨fun _ => 0, [⟨4096, 24⟩]⟩ := ⟨by simp, by simp, by simp⟩
  have hown : (⟨4096, listSize⟩ : Region) ∈ (Heap.mk (fun _ => 0) [⟨4096, 24⟩]).live :=
    List.mem_singleton_self _
  have hsize : 4096 + listSize ≤ 2 ^ 32 := by decide
  obtain ⟨m, hinit, -, -⟩ := ListAt.init (by decide) hsize fun _ => 0
  have hin := (ListIn.init hok hown hinit).1
  have hinv : ListSystem.Inv 4096 ⟨⟨m, [⟨4096, 24⟩]⟩, []⟩ := ⟨hok.congr rfl, hin⟩
  have halloc : Heap.Alloc ⟨m, [⟨4096, 24⟩]⟩ listNodeSize
      (Heap.give ⟨m, [⟨4096, 24⟩]⟩ ⟨8192, 16⟩) (ListItem.mk ⟨8192, 16⟩ 7).node :=
    Heap.give_alloc (by decide) (by simp) (by decide) (by simp [Region.Apart])
  obtain ⟨m', happend⟩ := hinv.append_returns halloc (by decide) (by decide)
  have hfirst := Run.nil.snoc (ListStep.append (s := ⟨⟨m, [⟨4096, 24⟩]⟩, []⟩) halloc (by decide)
    (by decide) happend)
  have hmem : ListItem.mk ⟨8192, 16⟩ 7 ∈ ([] : List ListItem) ++ [⟨⟨8192, 16⟩, 7⟩] := by simp
  have hrun := hfirst.snoc (ListStep.remove hmem (Heap.take_free List.mem_cons_self))
  obtain ⟨hvisits, -⟩ := listRun_traversals hok hown hinit hrun
  exact ⟨m, _, hinit, hrun, hvisits 1 (by decide)⟩

end Run

end Microboot.Kern
