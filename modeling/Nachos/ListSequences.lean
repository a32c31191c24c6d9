import Nachos.ListPointers
import Nachos.TransitionRuns

/-!
# Lists as sequences

The pointers of a list lead through a chain of elements, and the operations do to the chain
what `LinkedList` does to the sequence of its elements.  No operation uses a null or dangling
pointer or touches the elements of other lists, and every loop ends.
-/

namespace Nachos

open LinkedChains TransitionRuns

namespace LinkedList

variable {Item : Type}

/-- The operations on a sequence of items with their keys. -/
def perform (null : Item) (list : LinkedList Item) :
    ListCommand Item → ListReply Item × LinkedList Item
  | .append _ item => (.done, list.append item)
  | .prepend _ item => (.done, list.prepend item)
  | .remove => (.removed (list.remove.1.getD null) none, list.remove.2)
  | .sortedInsert _ item sortKey => (.done, list.sortedInsert item sortKey)
  | .sortedRemove keyPtr =>
      match list.sortedRemove with
      | (some (item, key), rest) => (.removed item (keyPtr.map fun _ => key), rest)
      | (none, rest) => (.removed null keyPtr, rest)

/-- The keys do not decrease. -/
def Ascending (list : LinkedList Item) : Prop :=
  list.elements.Pairwise fun first second => first.key ≤ second.key

/-- A new element comes after those whose keys are not larger, and before the others. -/
theorem insertElement_split (element : ListElement Item) {elements : List (ListElement Item)}
    (ascending : elements.Pairwise fun first second => first.key ≤ second.key) :
    ∃ before after, elements = before ++ after ∧
      insertElement element elements = before ++ element :: after ∧
      (∀ other ∈ before, other.key ≤ element.key) ∧
      ∀ other ∈ after, element.key < other.key := by
  induction elements with
  | nil => exact ⟨[], [], rfl, rfl, nofun, nofun⟩
  | cons first rest ih =>
      rcases List.pairwise_cons.mp ascending with ⟨least, restAscending⟩
      unfold insertElement
      by_cases here : element.key < first.key
      · rw [if_pos here]
        refine ⟨[], first :: rest, rfl, rfl, nofun, ?_⟩
        rw [List.forall_mem_cons]
        exact ⟨here, fun other member => Int.lt_of_lt_of_le here (least other member)⟩
      · rw [if_neg here]
        obtain ⟨before, after, split, inserted, smaller, larger⟩ := ih restAscending
        refine ⟨first :: before, after, by rw [split]; rfl, by rw [inserted]; rfl, ?_, larger⟩
        rw [List.forall_mem_cons]
        exact ⟨Int.not_lt.mp here, smaller⟩

/-- What `SortedInsert` and `SortedRemove` mean for a list whose keys do not decrease. -/
structure ServesInOrder (list : LinkedList Item) : Prop where
  inserts : ∀ (item : Item) (sortKey : Int), (list.sortedInsert item sortKey).Ascending ∧
    ∃ before after, list.elements = before ++ after ∧
      (list.sortedInsert item sortKey).elements = before ++ ⟨item, sortKey⟩ :: after ∧
      (∀ other ∈ before, other.key ≤ sortKey) ∧ ∀ other ∈ after, sortKey < other.key
  removes : ∀ (item : Item) (key : Int) (rest : LinkedList Item),
    list.sortedRemove = (some (item, key), rest) →
      list.elements = ⟨item, key⟩ :: rest.elements ∧ rest.Ascending ∧
        ∀ other ∈ rest.elements, key ≤ other.key

theorem Ascending.servesInOrder {list : LinkedList Item} (ascending : list.Ascending) :
    list.ServesInOrder where
  inserts item sortKey :=
    ⟨sorted_insertElement ⟨item, sortKey⟩ ascending,
      insertElement_split ⟨item, sortKey⟩ ascending⟩
  removes item key rest removed := by
    unfold Ascending at ascending
    unfold sortedRemove at removed
    cases elements : list.elements with
    | nil => simp [elements] at removed
    | cons first others =>
        rw [elements, List.pairwise_cons] at ascending
        rw [elements] at removed
        cases removed
        exact ⟨rfl, ascending.2, ascending.1⟩

end LinkedList

namespace ElementHeap

variable {Item : Type} {heap : ElementHeap Item} {address : Nat}
  {element : Cell Nat (ListElement Item)}

theorem lookup_insert_eq_update (heap : ElementHeap Item) (address : Nat)
    (element : Cell Nat (ListElement Item)) :
    (heap.insert address element).lookup = Function.update heap.lookup address (some element) := by
  funext other
  by_cases same : other = address
  · rw [same, Finmap.lookup_insert, Function.update_self]
  · rw [Finmap.lookup_insert_of_ne _ same, Function.update_of_ne same]

theorem lookup_erase_eq_update (heap : ElementHeap Item) (address : Nat) :
    (heap.erase address).lookup = Function.update heap.lookup address none := by
  funext other
  by_cases same : other = address
  · rw [same, Finmap.lookup_erase, Function.update_self]
  · rw [Finmap.lookup_erase_ne same, Function.update_of_ne same]

theorem deref_some (stored : heap.lookup address = some element) :
    deref heap (some address) = .ok element := by
  rw [deref, Option.bind_some, stored]

theorem setNext_some (stored : heap.lookup address = some element) (next : ElementPointer) :
    setNext heap (some address) next = .ok (heap.insert address { element with next := next }) := by
  rw [setNext, deref_some stored]
  rfl

theorem new_of_notMem (unused : address ∉ heap) (itemPtr : Item) (sortKey : Int) :
    new heap address itemPtr sortKey = .ok (heap.insert address ⟨⟨itemPtr, sortKey⟩, none⟩) :=
  if_neg unused

theorem delete_of_mem (stored : heap.lookup address = some element) :
    delete heap (some address) = .ok (heap.erase address) :=
  if_pos (Finmap.mem_of_lookup_eq_some stored)

/-- A chain is not longer than the memory. -/
theorem length_le_card {first last : ElementPointer} {chain : List (Nat × ListElement Item)}
    (chained : Chain heap.lookup first last chain) : chain.length ≤ heap.keys.card := by
  rw [← List.length_map Prod.fst, ← List.toFinset_card_of_nodup chained.nodup]
  apply Finset.card_le_card
  intro address member
  rw [List.mem_toFinset] at member
  obtain ⟨element, stored⟩ :=
    Option.ne_none_iff_exists'.mp (chained.links.allocated member)
  exact Finmap.mem_keys.mpr (Finmap.mem_of_lookup_eq_some stored)

/-- Where the loop of `SortedInsert` ends, and what the place means for the sequence. -/
theorem findPlace_cases {inserted : ListElement Item} {content : ListElement Item}
    {rest : List (Nat × ListElement Item)} {rounds : Nat}
    (linked : Linked heap.lookup (some address) ((address, content) :: rest) none)
    (behind : ¬ inserted.key < content.key) (enough : rest.length < rounds) :
    (findPlace heap inserted.key rounds (some address) = .ok none ∧
        LinkedList.insertElement inserted (content :: rest.map Prod.snd) =
          content :: rest.map Prod.snd ++ [inserted]) ∨
      ∃ before place placed follower after,
        (address, content) :: rest = before ++ (place, placed) :: follower :: after ∧
          findPlace heap inserted.key rounds (some address) = .ok (some place) ∧
          LinkedList.insertElement inserted (content :: rest.map Prod.snd) =
            before.map Prod.snd ++ placed :: inserted :: follower.2 :: after.map Prod.snd := by
  induction rest generalizing address content rounds with
  | nil =>
      obtain ⟨rounds, rfl⟩ := Nat.exists_eq_add_one_of_ne_zero (Nat.ne_zero_of_lt enough)
      obtain ⟨-, next, stored, ended⟩ := linked
      obtain rfl : next = none := ended
      left
      constructor
      · rw [findPlace, deref_some stored]
        rfl
      · simp [LinkedList.insertElement, behind]
  | cons follower rest ih =>
      obtain ⟨following, content'⟩ := follower
      obtain ⟨rounds, rfl⟩ := Nat.exists_eq_add_one_of_ne_zero (Nat.ne_zero_of_lt enough)
      obtain ⟨-, next, stored, later⟩ := linked
      obtain rfl : next = some following := later.1
      obtain ⟨beyond, storedNext, -⟩ := later.2
      have found : findPlace heap inserted.key (rounds + 1) (some address) =
          if inserted.key < content'.key then .ok (some address)
          else findPlace heap inserted.key rounds (some following) := by
        rw [findPlace, deref_some stored, ok_bind, if_neg (Option.some_ne_none _),
          deref_some storedNext]
        rfl
      have passes : LinkedList.insertElement inserted (content :: content' :: rest.map Prod.snd) =
          content :: LinkedList.insertElement inserted (content' :: rest.map Prod.snd) :=
        if_neg behind
      rw [found, List.map_cons, passes]
      by_cases here : inserted.key < content'.key
      · right
        refine ⟨[], address, content, (following, content'), rest, rfl, if_pos here, ?_⟩
        simp [LinkedList.insertElement, here]
      · rw [if_neg here]
        rcases ih later here (Nat.lt_of_succ_lt_succ enough) with
          ⟨ended, sequence⟩ | ⟨before, place, placed, next, after, split, ended, sequence⟩
        · exact Or.inl ⟨ended, by rw [sequence]; rfl⟩
        · right
          refine ⟨(address, content) :: before, place, placed, next, after, ?_, ended, ?_⟩
          · rw [split]
            rfl
          · rw [sequence]
            rfl

end ElementHeap

namespace ListPointers

open ElementHeap

variable {Item : Type} {heap : ElementHeap Item} {list : ListPointers}
  {chain : List (Nat × ListElement Item)} {address : Nat} {element : ListElement Item}

/-- An operation succeeds and replaces the chain of a list by a chain of the given
elements. -/
def Yields (heap : ElementHeap Item) (chain : List (Nat × ListElement Item))
    (outcome : Except HeapFault (ListPointers × ElementHeap Item))
    (elements : List (ListElement Item)) : Prop :=
  ∃ list' heap' chain', outcome = .ok (list', heap') ∧
    Becomes heap.lookup heap'.lookup chain list'.first list'.last chain' ∧
    chain'.map Prod.snd = elements

theorem isEmpty_eq_true_iff (chained : Chain heap.lookup list.first list.last chain) :
    list.isEmpty = true ↔ chain = [] :=
  decide_eq_true_iff.trans chained.null_iff.1

section Insertion

theorem yields_single (unused : address ∉ heap) :
    Yields heap [] (.ok (⟨some address, some address⟩, heap.insert address ⟨element, none⟩))
      [element] := by
  have fresh := Finmap.lookup_eq_none.mpr unused
  refine ⟨_, _, [(address, element)], rfl, ?_, rfl⟩
  rw [lookup_insert_eq_update]
  exact becomes_singleton fresh

variable (chained : Chain heap.lookup list.first list.last chain) (unused : address ∉ heap)
include chained unused

/-- Another element is not touched by `new`. -/
theorem lookup_new {place : Nat} (member : place ∈ chain.map Prod.fst)
    (cell : Cell Nat (ListElement Item)) :
    (heap.insert address cell).lookup place = heap.lookup place := by
  apply Finmap.lookup_insert_of_ne
  rintro rfl
  exact chained.links.allocated member (Finmap.lookup_eq_none.mpr unused)

/-- `element->next = first; first = element;`. -/
theorem yields_front (nonempty : chain ≠ []) :
    Yields heap chain
      (do
        let heap ← setNext (heap.insert address ⟨element, none⟩) (some address) list.first
        .ok ({ list with first := some address }, heap))
      (element :: chain.map Prod.snd) := by
  have fresh := Finmap.lookup_eq_none.mpr unused
  rw [setNext_some (Finmap.lookup_insert _), ok_bind, Finmap.insert_insert]
  refine ⟨_, _, (address, element) :: chain, rfl, ?_, rfl⟩
  rw [lookup_insert_eq_update]
  exact chained.cons nonempty fresh

/-- `last->next = element; last = element;`. -/
theorem yields_back (nonempty : chain ≠ []) :
    Yields heap chain
      (do
        let heap ← setNext (heap.insert address ⟨element, none⟩) list.last (some address)
        .ok ({ list with last := some address }, heap))
      (chain.map Prod.snd ++ [element]) := by
  have fresh := Finmap.lookup_eq_none.mpr unused
  obtain ⟨before, ⟨place, content⟩, rfl⟩ :=
    (List.eq_nil_or_concat' chain).resolve_left nonempty
  obtain ⟨next, followed⟩ := chained.links.stored
  have last : list.last = some place := chained.ends.trans (by simp)
  have link : (heap.insert address ⟨element, none⟩).lookup place = some ⟨content, next⟩ :=
    (lookup_new chained unused (by simp) _).trans followed
  rw [last, setNext_some link, ok_bind]
  refine ⟨_, _, before ++ [(place, content), (address, element)], rfl, ?_, by simp⟩
  rw [lookup_insert_eq_update, lookup_insert_eq_update]
  exact chained.concat fresh

/-- `element->next = ptr->next; ptr->next = element;`. -/
theorem yields_between {before after : List (Nat × ListElement Item)} {ptr : Nat}
    {content : ListElement Item} {follower : Nat × ListElement Item}
    (split : chain = before ++ (ptr, content) :: follower :: after) :
    Yields heap chain
      (do
        let place ← deref (heap.insert address ⟨element, none⟩) (some ptr)
        let heap ← setNext (heap.insert address ⟨element, none⟩) (some address) place.next
        let heap ← setNext heap (some ptr) (some address)
        .ok (list, heap))
      (before.map Prod.snd ++ content :: element :: follower.2 :: after.map Prod.snd) := by
  subst split
  have fresh := Finmap.lookup_eq_none.mpr unused
  obtain ⟨next, followed⟩ := chained.links.stored
  have read (link : ElementPointer) :
      (heap.insert address ⟨element, link⟩).lookup ptr = some ⟨content, next⟩ :=
    (lookup_new chained unused (by simp) _).trans followed
  rw [deref_some (read none), ok_bind, setNext_some (Finmap.lookup_insert _), ok_bind,
    Finmap.insert_insert, setNext_some (read next), ok_bind]
  refine ⟨_, _, before ++ (ptr, content) :: (address, element) :: follower :: after, rfl, ?_,
    by simp⟩
  rw [lookup_insert_eq_update, lookup_insert_eq_update]
  exact chained.insert fresh followed

theorem append_yields (item : Item) :
    Yields heap chain (list.append heap address item) (chain.map Prod.snd ++ [⟨item, 0⟩]) := by
  rw [append, new_of_notMem unused, ok_bind]
  by_cases empty : chain = []
  · subst empty
    rw [if_pos ((isEmpty_eq_true_iff chained).mpr rfl)]
    exact yields_single unused
  · rw [if_neg fun isEmpty => empty ((isEmpty_eq_true_iff chained).mp isEmpty)]
    exact yields_back chained unused empty

theorem prepend_yields (item : Item) :
    Yields heap chain (list.prepend heap address item) (⟨item, 0⟩ :: chain.map Prod.snd) := by
  rw [prepend, new_of_notMem unused, ok_bind]
  by_cases empty : chain = []
  · subst empty
    rw [if_pos ((isEmpty_eq_true_iff chained).mpr rfl)]
    exact yields_single unused
  · rw [if_neg fun isEmpty => empty ((isEmpty_eq_true_iff chained).mp isEmpty)]
    exact yields_front chained unused empty

theorem sortedInsert_yields (item : Item) (sortKey : Int) :
    Yields heap chain (list.sortedInsert heap address item sortKey)
      (LinkedList.insertElement ⟨item, sortKey⟩ (chain.map Prod.snd)) := by
  rw [sortedInsert, new_of_notMem unused, ok_bind]
  cases chain with
  | nil =>
      rw [if_pos ((isEmpty_eq_true_iff chained).mpr rfl)]
      exact yields_single unused
  | cons cell rest =>
      obtain ⟨place, content⟩ := cell
      have nonempty : (place, content) :: rest ≠ [] := List.cons_ne_nil _ _
      -- The chain is still there after `new`.
      have remains : Chain (heap.insert address ⟨⟨item, sortKey⟩, none⟩).lookup list.first
          list.last ((place, content) :: rest) :=
        chained.frame fun other member => lookup_new chained unused member _
      have enough := length_le_card remains
      have whole := remains.links
      obtain ⟨first, next, stored, -⟩ := whole
      have read : deref (heap.insert address ⟨⟨item, sortKey⟩, none⟩) list.first =
          .ok ⟨content, next⟩ := by
        rw [first]
        exact deref_some stored
      rw [if_neg fun isEmpty => nonempty ((isEmpty_eq_true_iff chained).mp isEmpty), read, ok_bind]
      by_cases front : sortKey < content.key
      · rw [if_pos front, List.map_cons, LinkedList.insertElement, if_pos front]
        exact yields_front chained unused nonempty
      · rw [if_neg front]
        have whole := remains.links
        rw [first] at whole
        have search := @findPlace_cases _ _ _ ⟨item, sortKey⟩ _ _ _ whole front enough
        rw [← first] at search
        rcases search with ⟨ended, sequence⟩ | ⟨before, ptr, placed, follower, after, split, ended,
          sequence⟩
        · rw [ended, ok_bind, if_pos rfl, List.map_cons, sequence]
          exact yields_back chained unused nonempty
        · rw [ended, ok_bind, if_neg (Option.some_ne_none _), List.map_cons, sequence]
          exact yields_between chained unused split

end Insertion

/-- An empty list stays as it is. -/
theorem sortedRemove_of_empty (null : Item) (chained : Chain heap.lookup list.first list.last [])
    (keyPtr : Option Int) :
    list.sortedRemove null heap keyPtr = .ok (null, keyPtr, list, heap) :=
  if_pos ((isEmpty_eq_true_iff chained).mpr rfl)

/-- The pointers to the first and the last element are the same in a list of one element. -/
theorem first_eq_last_iff
    (chained : Chain heap.lookup list.first list.last ((address, element) :: chain)) :
    list.first = list.last ↔ chain = [] := by
  have distinct := chained.nodup
  have ends := chained.ends
  obtain ⟨first, -⟩ := chained.links
  rw [first, ends]
  rcases List.eq_nil_or_concat' chain with rfl | ⟨before, ⟨place, content⟩, rfl⟩
  · exact iff_of_true rfl rfl
  · have apart : address ≠ place := by
      rintro rfl
      simp at distinct
    rw [← List.cons_append, List.getLast?_concat]
    simpa using apart

/-- Otherwise the first element goes. -/
theorem sortedRemove_of_cons (null : Item)
    (chained : Chain heap.lookup list.first list.last ((address, element) :: chain))
    (keyPtr : Option Int) :
    ∃ (list' : ListPointers) (heap' : ElementHeap Item), list.sortedRemove null heap keyPtr =
        .ok (element.item, keyPtr.map fun _ => element.key, list', heap') ∧
      Becomes heap.lookup heap'.lookup ((address, element) :: chain) list'.first list'.last
        chain := by
  have nonempty := (isEmpty_eq_true_iff chained).not.mpr (List.cons_ne_nil _ _)
  have single := first_eq_last_iff chained
  have whole := chained.links
  obtain ⟨first, next, stored, rest⟩ := whole
  have read : deref heap list.first = .ok ⟨element, next⟩ := by
    rw [first]
    exact deref_some stored
  have deleted : delete heap list.first = .ok (heap.erase address) := by
    rw [first]
    exact delete_of_mem stored
  rw [first] at chained
  have becomes := chained.tail stored
  rw [← lookup_erase_eq_update] at becomes
  rw [sortedRemove, if_neg nonempty, read, ok_bind, deleted, ok_bind]
  by_cases alone : chain = []
  · rw [if_pos (single.mpr alone)]
    rw [if_pos alone] at becomes
    obtain rfl : next = none := by rwa [alone] at rest
    exact ⟨⟨none, none⟩, _, rfl, becomes⟩
  · rw [if_neg (single.not.mpr alone)]
    rw [if_neg alone] at becomes
    exact ⟨_, _, rfl, becomes⟩

/-- An operation succeeds and does to the chain of a list what is expected of the
sequence. -/
def Follows (heap : ElementHeap Item) (chain : List (Nat × ListElement Item))
    (outcome : Except HeapFault (ListReply Item × ListPointers × ElementHeap Item))
    (expected : ListReply Item × LinkedList Item) : Prop :=
  ∃ list' heap' chain', outcome = .ok (expected.1, list', heap') ∧
    Becomes heap.lookup heap'.lookup chain list'.first list'.last chain' ∧
    chain'.map Prod.snd = expected.2.elements

/-- The operations that call `new`. -/
theorem Yields.follows {outcome : Except HeapFault (ListPointers × ElementHeap Item)}
    {sequence : LinkedList Item} (yields : Yields heap chain outcome sequence.elements) :
    Follows heap chain (outcome.map fun result => (.done, result)) (.done, sequence) := by
  obtain ⟨list', heap', chain', rfl, after⟩ := yields
  exact ⟨list', heap', chain', rfl, after⟩

theorem perform_follows (null : Item) (chained : Chain heap.lookup list.first list.last chain)
    {sequence : LinkedList Item} (contents : chain.map Prod.snd = sequence.elements)
    {command : ListCommand Item} (fresh : command.Fresh heap) :
    Follows heap chain (list.perform null heap command) (sequence.perform null command) := by
  cases command with
  | append address item =>
      apply Yields.follows
      unfold LinkedList.append
      rw [← contents]
      exact append_yields chained fresh item
  | prepend address item =>
      apply Yields.follows
      unfold LinkedList.prepend
      rw [← contents]
      exact prepend_yields chained fresh item
  | sortedInsert address item sortKey =>
      apply Yields.follows
      unfold LinkedList.sortedInsert
      rw [← contents]
      exact sortedInsert_yields chained fresh item sortKey
  | remove =>
      unfold perform remove LinkedList.perform LinkedList.remove LinkedList.sortedRemove
      dsimp only
      rw [← contents]
      cases chain with
      | nil =>
          rw [sortedRemove_of_empty null chained]
          exact ⟨list, heap, [], rfl, chained.stays, contents⟩
      | cons cell rest =>
          obtain ⟨list', heap', removed, becomes⟩ := sortedRemove_of_cons null chained none
          rw [removed]
          exact ⟨list', heap', rest, rfl, becomes, rfl⟩
  | sortedRemove keyPtr =>
      unfold perform LinkedList.perform LinkedList.sortedRemove
      dsimp only
      rw [← contents]
      cases chain with
      | nil =>
          rw [sortedRemove_of_empty null chained]
          exact ⟨list, heap, [], rfl, chained.stays, contents⟩
      | cons cell rest =>
          obtain ⟨list', heap', removed, becomes⟩ := sortedRemove_of_cons null chained keyPtr
          rw [removed]
          exact ⟨list', heap', rest, rfl, becomes, rfl⟩

end ListPointers

namespace ListMemory

variable {ι Item : Type}

section Chains

/-- The chains of the lists, which have no element in common, hold the sequences.  The
elements in use are those of the chains, and those that were in use before. -/
structure Holds (before : ElementHeap Item) (sequences : ι → LinkedList Item)
    (memory : ListMemory ι Item) (chains : ι → List (Nat × ListElement Item)) : Prop where
  layout : Layout before.lookup memory.heap.lookup (fun i => (memory.lists i).first)
    (fun i => (memory.lists i).last) chains
  contents : ∀ i, (chains i).map Prod.snd = (sequences i).elements

def Represents (before : ElementHeap Item) (sequences : ι → LinkedList Item)
    (memory : ListMemory ι Item) : Prop :=
  ∃ chains, Holds before sequences memory chains

variable {before : ElementHeap Item} {memory : ListMemory ι Item}
  {sequences : ι → LinkedList Item}

theorem represents_boot (before : ElementHeap Item) :
    Represents before (fun _ : ι => LinkedList.empty) (boot before) :=
  ⟨fun _ => [], layout_empty _, fun _ => rfl⟩

/-- What the chains say about the pointers. -/
theorem Holds.pointers {chains : ι → List (Nat × ListElement Item)}
    (holds : Holds before sequences memory chains) (i : ι) :
    ((chains i).map Prod.fst).Nodup ∧
      ((memory.lists i).first = none ↔ (sequences i).elements = []) ∧
      ((memory.lists i).last = none ↔ (sequences i).elements = []) := by
  have chained := holds.layout.chain i
  have empty : chains i = [] ↔ (sequences i).elements = [] := by
    rw [← holds.contents i, List.map_eq_nil_iff]
  exact ⟨chained.nodup, chained.null_iff.1.trans empty, chained.null_iff.2.trans empty⟩

end Chains

section Runs

variable [DecidableEq ι]

/-- An operation on one of the sequences. -/
def performOn (null : Item) (sequences : ι → LinkedList Item) (command : ι × ListCommand Item) :
    Except HeapFault (ListReply Item × (ι → LinkedList Item)) :=
  let (reply, sequence) := (sequences command.1).perform null command.2
  .ok (reply, Function.update sequences command.1 sequence)

variable {before : ElementHeap Item} {memory : ListMemory ι Item}
  {sequences : ι → LinkedList Item}

/-- An operation on one of the lists leaves the others as they are. -/
theorem Holds.replaced {chains : ι → List (Nat × ListElement Item)}
    (holds : Holds before sequences memory chains) {i : ι} {list : ListPointers}
    {heap : ElementHeap Item} {chain : List (Nat × ListElement Item)}
    {sequence : LinkedList Item}
    (becomes : Becomes memory.heap.lookup heap.lookup (chains i) list.first list.last chain)
    (contents : chain.map Prod.snd = sequence.elements) :
    Represents before (Function.update sequences i sequence)
      ⟨heap, Function.update memory.lists i list⟩ := by
  refine ⟨Function.update chains i chain, ?_, ?_⟩
  · refine holds.layout.replace i (by simpa using becomes) ?_
    intro j different
    simp [Function.update_of_ne different]
  · intro j
    by_cases same : j = i
    · subst same
      simpa using contents
    · simpa [Function.update_of_ne same] using holds.contents j

theorem perform_simulates (null : Item) (represents : Represents before sequences memory)
    {command : ι × ListCommand Item} (fresh : command.2.Fresh memory.heap) :
    SameOutcome (SameAnswers (Represents before)) (performOn null sequences command)
      (memory.perform null command) := by
  obtain ⟨i, command⟩ := command
  obtain ⟨chains, holds⟩ := represents
  obtain ⟨list, heap, chain, done, becomes, contents⟩ :=
    ListPointers.perform_follows null (holds.layout.chain i) (holds.contents i) fresh
  have expected : performOn null sequences (i, command) =
      .ok (((sequences i).perform null command).1,
        Function.update sequences i ((sequences i).perform null command).2) := rfl
  rw [perform, done, expected]
  exact .ok ⟨rfl, holds.replaced becomes contents⟩

/-- The operations on the sequences always succeed. -/
theorem run_performOn (null : Item) (state : List (ListReply Item) × (ι → LinkedList Item))
    (commands : List (ι × ListCommand Item)) :
    ∃ result, run (answering (performOn null)) state commands = .ok result := by
  induction commands generalizing state with
  | nil => exact ⟨state, rfl⟩
  | cons command commands ih => exact ih _

/-- `new` returns an address that is not in use, in every operation of a run. -/
def FreshRun (null : Item) (before : ElementHeap Item)
    (commands : List (ι × ListCommand Item)) : Prop :=
  RunRequested (answering (perform null)) (fun state command => command.2.Fresh state.2.heap)
    ([], boot before) commands

/-- A run gives the answers of the operations on the sequences.  Every chain ends without
coming back to an element, both pointers of a list are null exactly if it is empty, and a list
whose keys do not decrease serves in their order. -/
def RefinesSequences (null : Item) (before : ElementHeap Item)
    (commands : List (ι × ListCommand Item)) : Prop :=
  ∃ (replies : List (ListReply Item)) (memory : ListMemory ι Item)
    (sequences : ι → LinkedList Item) (chains : ι → List (Nat × ListElement Item)),
    run (answering (perform null)) ([], boot before) commands = .ok (replies, memory) ∧
    run (answering (performOn null)) ([], fun _ => .empty) commands =
      .ok (replies, sequences) ∧
    Holds before sequences memory chains ∧
    ∀ i, ((chains i).map Prod.fst).Nodup ∧
      ((memory.lists i).first = none ↔ (sequences i).elements = []) ∧
      ((memory.lists i).last = none ↔ (sequences i).elements = []) ∧
      ((sequences i).Ascending → (sequences i).ServesInOrder)

/-- The lists of a program are sequences, over every sequence of operations on any of
them. -/
theorem refines_sequences (null : Item) (before : ElementHeap Item)
    (commands : List (ι × ListCommand Item)) (fresh : FreshRun null before commands) :
    RefinesSequences null before commands := by
  have alike : SameOutcome (SameAnswers (Represents before))
      (run (answering (performOn null)) ([], fun _ : ι => .empty) commands)
      (run (answering (perform null)) ([], boot before) commands) :=
    sameAnswers_run (fun _ _ _ represents now => perform_simulates null represents now)
      (represents_boot before) fresh
  obtain ⟨⟨replies, sequences⟩, expected⟩ :=
    run_performOn null ([], fun _ : ι => .empty) commands
  unfold RefinesSequences
  rw [expected] at alike ⊢
  generalize run (answering (perform null)) ([], boot before) commands = result at alike ⊢
  cases alike with
  | @ok _ reached same =>
      obtain ⟨answers, memory⟩ := reached
      obtain rfl : replies = answers := same.answers
      obtain ⟨chains, holds⟩ := same.relates
      refine ⟨replies, memory, sequences, chains, rfl, rfl, holds, fun i => ?_⟩
      obtain ⟨acyclic, first, last⟩ := holds.pointers i
      exact ⟨acyclic, first, last, LinkedList.Ascending.servesInOrder⟩

/-- Two lists whose operations alternate. -/
theorem refines_sequences_alternately :
    RefinesSequences 0 (∅ : ElementHeap Nat)
      [(false, .append 1 10), (true, .sortedInsert 2 20 5), (false, .sortedInsert 3 30 (-1)),
        (true, .sortedInsert 4 40 5), (true, .sortedRemove (some 0)), (false, .remove),
        (true, .prepend 2 50)] :=
  refines_sequences 0 ∅ _ (by unfold FreshRun; decide +kernel)

end Runs

end ListMemory

end Nachos
