import Mathlib.Data.List.Nodup
import Mathlib.Logic.Function.Basic

/-!
# Singly Linked Lists on a Heap

A heap has nodes at some of its addresses, and a node has a link to the next one. `Segment` gives
the addresses that a program passes from one link to another, in order; a list that ends is the
segment up to the null link. The loops of C over such lists, and the assignment through a pointer to
a link, are functions on the heap, which fail when they meet an address without a node or run longer
than a given number of rounds.

## Main results

* `Chain.unique`, `Chain.nodup`: a link has one list, and no address comes twice.
* `walk_chain`: a loop over a list visits its nodes.
* `chain_unlink`: a node that was searched through its link is taken out of the list.
-/

namespace LinkedList

/-- What a loop does wrong: it reads an address without a node, or does not end in time. -/
inductive Fault where
  | dangling | endless
deriving DecidableEq, Repr

section

variable {ι ν σ : Type*} (next : ν → Option ι)

/-- The addresses from a link up to another link. -/
def Segment (heap : ι → Option ν) (stop : Option ι) : Option ι → List ι → Prop
  | link, [] => link = stop
  | link, i :: is => link = some i ∧ ∃ node, heap i = some node ∧ Segment heap stop (next node) is

/-- The addresses of a list, from a link to its end. -/
abbrev Chain (heap : ι → Option ν) (link : Option ι) (is : List ι) : Prop :=
  Segment next heap none link is

variable {next} {heap heap' : ι → Option ν} {link stop : Option ι} {is js xs ys : List ι} {i : ι}
  {node : ν}

theorem segment_append : Segment next heap stop link (xs ++ ys) ↔
    ∃ mid, Segment next heap mid link xs ∧ Segment next heap stop mid ys := by
  induction xs generalizing link with
  | nil =>
      constructor
      · exact fun h => ⟨link, rfl, h⟩
      · rintro ⟨mid, rfl, h⟩
        exact h
  | cons x xs ih =>
      constructor
      · rintro ⟨rfl, node, hnode, h⟩
        obtain ⟨mid, hxs, hys⟩ := ih.mp h
        exact ⟨mid, ⟨rfl, node, hnode, hxs⟩, hys⟩
      · rintro ⟨mid, ⟨rfl, node, hnode, hxs⟩, hys⟩
        exact ⟨rfl, node, hnode, ih.mpr ⟨mid, hxs, hys⟩⟩

/-- The heap may change where the links stay. -/
theorem Segment.congr (h : Segment next heap stop link is)
    (hsame : ∀ i ∈ is, (heap' i).map next = (heap i).map next) :
    Segment next heap' stop link is := by
  induction is generalizing link with
  | nil => exact h
  | cons i is ih =>
      obtain ⟨rfl, node, hnode, h⟩ := h
      have hlink := hsame i List.mem_cons_self
      rw [hnode, Option.map_some, Option.map_eq_some_iff] at hlink
      obtain ⟨node', hnode', hnext⟩ := hlink
      refine ⟨rfl, node', hnode', ?_⟩
      rw [hnext]
      exact ih h fun j hj => hsame j (List.mem_cons_of_mem _ hj)

/-- **A link has one list.** -/
theorem Chain.unique (h : Chain next heap link is) (h' : Chain next heap link js) : is = js := by
  induction is generalizing link js with
  | nil =>
      obtain rfl : link = none := h
      cases js with
      | nil => rfl
      | cons j js => cases h'.1
  | cons i is ih =>
      obtain ⟨rfl, node, hnode, h⟩ := h
      cases js with
      | nil => cases h'
      | cons j js =>
          obtain ⟨hij, node', hnode', h'⟩ := h'
          obtain rfl := Option.some.inj hij
          obtain rfl := Option.some.inj (hnode.symm.trans hnode')
          rw [ih h h']

/-- **No address comes twice**: its two lists would be the same. -/
theorem Chain.nodup (h : Chain next heap link is) : is.Nodup := by
  induction is generalizing link with
  | nil => exact List.nodup_nil
  | cons i is ih =>
      obtain ⟨rfl, node, hnode, hrest⟩ := h
      refine List.nodup_cons.mpr ⟨fun hi => ?_, ih hrest⟩
      obtain ⟨xs, ys, rfl⟩ := List.append_of_mem hi
      obtain ⟨mid, -, hys⟩ := segment_append.mp hrest
      obtain rfl : mid = some i := hys.1
      have hfirst : Chain next heap (some i) (i :: (xs ++ i :: ys)) := ⟨rfl, node, hnode, hrest⟩
      have hsame := hfirst.unique hys
      have hlength := congrArg List.length hsame
      simp only [List.length_cons, List.length_append] at hlength
      omega

/-- A node before the first. -/
theorem Chain.push (h : Chain next heap link is) (hnode : heap' i = some node)
    (hnext : next node = link) (hsame : ∀ j ∈ is, heap' j = heap j) :
    Chain next heap' (some i) (i :: is) := by
  refine ⟨rfl, node, hnode, ?_⟩
  rw [hnext]
  exact h.congr fun j hj => by rw [hsame j hj]

/-! ### Loops -/

variable (next)

/-- `for (i = link; i; i = i->next)`. -/
def walk (heap : ι → Option ν) (visit : ν → σ → σ) : ℕ → Option ι → σ → Except Fault σ
  | _, none, s => .ok s
  | 0, some _, _ => .error .endless
  | rounds + 1, some i, s =>
      match heap i with
      | none => .error .dangling
      | some node => walk heap visit rounds (next node) (visit node s)

variable {next}

/-- **A loop over a list** visits its nodes. -/
theorem walk_chain {visit : ν → σ → σ} {rounds : ℕ} (h : Chain next heap link is)
    (hrounds : is.length ≤ rounds) (s : σ) : walk next heap visit rounds link s =
      .ok ((is.filterMap heap).foldl (fun s node => visit node s) s) := by
  induction is generalizing link rounds s with
  | nil =>
      obtain rfl : link = none := h
      rw [walk]
      rfl
  | cons i is ih =>
      obtain ⟨rfl, node, hnode, h⟩ := h
      obtain ⟨rounds, rfl⟩ := Nat.exists_eq_add_of_le' (Nat.one_le_iff_ne_zero.mpr
        (Nat.ne_of_gt (Nat.lt_of_lt_of_le (Nat.succ_pos _) hrounds)))
      rw [walk, hnode, List.filterMap_cons_some hnode, List.foldl_cons]
      exact ih h (Nat.le_of_succ_le_succ hrounds) _

end

/-! ### Links through pointers -/

/-- What a pointer to a link points at: the head of the list or the link of a node. -/
inductive Place (ι : Type*) where
  | head
  | next (i : ι)
deriving DecidableEq, Repr

section

variable {ι ν : Type*} (next : ν → Option ι) (setNext : ν → Option ι → ν)

/-- `*place`. -/
def load (heap : ι → Option ν) (head : Option ι) : Place ι → Except Fault (Option ι)
  | .head => .ok head
  | .next i =>
      match heap i with
      | none => .error .dangling
      | some node => .ok (next node)

/-- Where a search is after these nodes. -/
def placeAfter : Place ι → List ι → Place ι
  | place, [] => place
  | _, i :: is => placeAfter (.next i) is

theorem placeAfter_append_singleton (place : Place ι) (is : List ι) (i : ι) :
    placeAfter place (is ++ [i]) = .next i := by
  induction is generalizing place with
  | nil => rfl
  | cons j is ih => exact ih (.next j)

/-- The link in that place is the one up to which the nodes go. -/
theorem load_placeAfter {next : ν → Option ι} {heap : ι → Option ν} {head link stop : Option ι}
    {is : List ι} {place : Place ι} (h : Segment next heap stop link is)
    (hload : load next heap head place = .ok link) :
    load next heap head (placeAfter place is) = .ok stop := by
  induction is generalizing link place with
  | nil => exact hload.trans (congrArg Except.ok h)
  | cons i is ih =>
      obtain ⟨rfl, node, hnode, h⟩ := h
      exact ih h (by rw [load, hnode])

variable [DecidableEq ι]

/-- `while (*place && *place != i) place = &(*place)->next`. -/
def seek (heap : ι → Option ν) (head : Option ι) (i : ι) : ℕ → Place ι → Except Fault (Place ι)
  | rounds, place =>
      match load next heap head place with
      | .error e => .error e
      | .ok none => .ok place
      | .ok (some j) =>
          if j = i then .ok place
          else
            match rounds with
            | 0 => .error .endless
            | rounds + 1 => seek heap head i rounds (.next j)

/-- `*place = link`. -/
def store (heap : ι → Option ν) (head link : Option ι) : Place ι → (ι → Option ν) × Option ι
  | .head => (heap, link)
  | .next i => (Function.update heap i ((heap i).map fun node => setNext node link), head)

variable {next} {heap : ι → Option ν} {head link stop : Option ι} {is js : List ι} {i : ι}
  {node : ν} {place : Place ι} {rounds : ℕ}

/-- **A search through links** stops in front of the address or at the end. -/
theorem seek_segment (h : Segment next heap stop link is) (hstop : stop = none ∨ stop = some i)
    (hi : i ∉ is) (hload : load next heap head place = .ok link) (hrounds : is.length ≤ rounds) :
    seek next heap head i rounds place = .ok (placeAfter place is) := by
  induction is generalizing link place rounds with
  | nil =>
      obtain rfl : link = stop := h
      rw [seek.eq_def]
      dsimp only
      rw [hload]
      rcases hstop with rfl | rfl
      · rfl
      · exact if_pos rfl
  | cons j is ih =>
      obtain ⟨rfl, node, hnode, h⟩ := h
      rw [List.mem_cons, not_or] at hi
      obtain ⟨rounds, rfl⟩ := Nat.exists_eq_add_of_le' (Nat.one_le_iff_ne_zero.mpr
        (Nat.ne_of_gt (Nat.lt_of_lt_of_le (Nat.succ_pos _) hrounds)))
      rw [seek.eq_def]
      dsimp only
      rw [hload]
      dsimp only
      rw [if_neg (Ne.symm hi.1)]
      exact ih h hi.2 (by rw [load, hnode]) (Nat.le_of_succ_le_succ hrounds)

/-- An assignment to a link keeps the nodes up to their links. -/
theorem store_eq (setNext : ν → Option ι → ν) (heap : ι → Option ν) (head link : Option ι)
    (place : Place ι) (i : ι) :
    (store setNext heap head link place).1 i = heap i ∨
      ∃ node, heap i = some node ∧
        (store setNext heap head link place).1 i = some (setNext node link) := by
  cases place with
  | head => exact Or.inl rfl
  | next j =>
      rw [store]
      dsimp only
      by_cases hij : i = j
      · subst hij
        rw [Function.update_self]
        cases heap i with
        | none => exact Or.inl rfl
        | some node => exact Or.inr ⟨node, rfl, rfl⟩
      · exact Or.inl (Function.update_of_ne hij ..)

/-- **A node is taken out of the list.** The link in front of it gets the link behind it. -/
theorem chain_unlink (setNext : ν → Option ι → ν)
    (hset : ∀ node link, next (setNext node link) = link)
    (h : Chain next heap head (is ++ i :: js)) (hnode : heap i = some node) :
    Chain next (store setNext heap head (next node) (placeAfter .head is)).1
      (store setNext heap head (next node) (placeAfter .head is)).2 (is ++ js) := by
  have hnodup := h.nodup
  obtain ⟨mid, his, hi⟩ := segment_append.mp h
  obtain ⟨rfl, node', hnode', hjs⟩ := hi
  obtain rfl := Option.some.inj (hnode.symm.trans hnode')
  rcases List.eq_nil_or_concat is with rfl | ⟨ks, k, rfl⟩
  · obtain rfl : head = some i := his
    exact hjs
  · rw [List.concat_eq_append] at his hnodup ⊢
    rw [placeAfter_append_singleton, store]
    dsimp only
    obtain ⟨mid, hks, rfl, prev, hprev, -⟩ := segment_append.mp his
    have hother : ∀ j ∈ ks ++ js, j ≠ k := by
      rintro j hj rfl
      simp only [List.append_assoc, List.singleton_append, List.nodup_append, List.nodup_cons,
        List.mem_cons] at hnodup
      rcases List.mem_append.mp hj with hj | hj
      · exact hnodup.2.2 j hj j (Or.inl rfl) rfl
      · exact hnodup.2.1.1 (Or.inr hj)
    have hkeep : ∀ j ∈ ks ++ js, (Function.update heap k
        ((heap k).map fun node' => setNext node' (next node)) j).map next =
          (heap j).map next := by
      intro j hj
      rw [Function.update_of_ne (hother j hj)]
    refine segment_append.mpr ⟨next node, segment_append.mpr ⟨some k, ?_, rfl, setNext prev
      (next node), ?_, hset prev (next node)⟩, ?_⟩
    · exact hks.congr fun j hj => hkeep j (List.mem_append_left _ hj)
    · rw [Function.update_self, hprev, Option.map_some]
    · exact hjs.congr fun j hj => hkeep j (List.mem_append_right _ hj)

end

end LinkedList
