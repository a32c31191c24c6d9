import Mathlib.Data.List.TakeWhile
import Nachos.ListSequences

/-!
# Walking through lists and freeing them

`List::Mapcar` and `List::~List` of `threads/list.cc`, besides the other operations.  `Mapcar`
passes the items to a function, in order; the functions that it is given in this program leave
the lists alone, so that only these items matter.  The destructor calls `Remove` until that
returns `NULL`, which is also what it returns for an item that is `NULL`.
-/

namespace Nachos

open LinkedChains TransitionRuns

/-- What a list is used for. -/
inductive ListUse (Item : Type) where
  | operate (command : ListCommand Item)
  | mapcar
  | destroy

def ListUse.Fresh {Item : Type} (heap : ElementHeap Item) : ListUse Item → Prop
  | operate command => command.Fresh heap
  | mapcar | destroy => True

instance {Item : Type} (heap : ElementHeap Item) : (use : ListUse Item) → Decidable (use.Fresh heap)
  | .operate command => inferInstanceAs (Decidable (command.Fresh heap))
  | .mapcar | .destroy => inferInstanceAs (Decidable True)

inductive ListAnswer (Item : Type) where
  | reply (reply : ListReply Item)
  /-- The items that the function was called with. -/
  | passed (items : List Item)
  | destroyed
  deriving DecidableEq

namespace LinkedList

variable {Item : Type} [DecidableEq Item]

/-- What the destructor leaves: the elements behind the first one whose item is `NULL`. -/
def destroy (null : Item) (list : LinkedList Item) : LinkedList Item :=
  ⟨(list.elements.dropWhile fun element => element.item ≠ null).tail⟩

/-- The destructor leaves nothing of a list without such an item. -/
theorem elements_destroy (null : Item) {list : LinkedList Item}
    (proper : ∀ element ∈ list.elements, element.item ≠ null) :
    (list.destroy null).elements = [] := by
  have all : list.elements.dropWhile (fun element => element.item ≠ null) = [] :=
    List.dropWhile_eq_nil_iff.mpr (by simpa using proper)
  rw [destroy, all]
  rfl

def use (null : Item) (list : LinkedList Item) : ListUse Item → ListAnswer Item × LinkedList Item
  | .operate command =>
      let (reply, rest) := list.perform null command
      (.reply reply, rest)
  | .mapcar => (.passed list.items, list)
  | .destroy => (.destroyed, list.destroy null)

end LinkedList

namespace ListPointers

open ElementHeap

variable {Item : Type}

/-- The loop of `Mapcar`. -/
def walk (heap : ElementHeap Item) : Nat → ElementPointer → Except HeapFault (List Item)
  | _, none => .ok []
  | 0, some _ => .error .diverged
  | rounds + 1, some address => do
      let element ← deref heap (some address)
      let items ← walk heap rounds element.next
      .ok (element.content.item :: items)

def mapcar (list : ListPointers) (heap : ElementHeap Item) : Except HeapFault (List Item) :=
  walk heap heap.keys.card list.first

variable [DecidableEq Item]

/-- The loop of the destructor. -/
def removeAll (null : Item) : Nat → ListPointers → ElementHeap Item →
    Except HeapFault (ListPointers × ElementHeap Item)
  | 0, _, _ => .error .diverged
  | rounds + 1, list, heap => do
      let (thing, list, heap) ← list.remove null heap
      if thing = null then .ok (list, heap) else removeAll null rounds list heap

/-- `List::~List`.  There is one call of `Remove` for each element in memory at most, and the
last one. -/
def destroy (null : Item) (list : ListPointers) (heap : ElementHeap Item) :
    Except HeapFault (ListPointers × ElementHeap Item) :=
  removeAll null (heap.keys.card + 1) list heap

def use (null : Item) (list : ListPointers) (heap : ElementHeap Item) :
    ListUse Item → Except HeapFault (ListAnswer Item × ListPointers × ElementHeap Item)
  | .operate command =>
      (list.perform null heap command).map fun result => (.reply result.1, result.2)
  | .mapcar => (list.mapcar heap).map fun items => (.passed items, list, heap)
  | .destroy => (list.destroy null heap).map fun result => (.destroyed, result)

omit [DecidableEq Item] in
/-- The loop of `Mapcar` comes to every element of a chain. -/
theorem walk_linked {heap : ElementHeap Item} {start : ElementPointer}
    {chain : List (Nat × ListElement Item)} (linked : Linked heap.lookup start chain none)
    {rounds : Nat} (enough : chain.length ≤ rounds) :
    walk heap rounds start = .ok (chain.map fun cell => cell.2.item) := by
  induction chain generalizing start rounds with
  | nil =>
      obtain rfl : start = none := linked
      cases rounds <;> rfl
  | cons cell chain ih =>
      obtain ⟨rfl, next, stored, rest⟩ := linked
      cases rounds with
      | zero => exact absurd enough (Nat.not_succ_le_zero _)
      | succ rounds =>
          rw [walk, deref_some stored, ok_bind, ih rest (Nat.le_of_succ_le_succ enough)]
          rfl

/-- The destructor frees the elements up to the first one whose item is `NULL`. -/
theorem removeAll_chain (null : Item) {heap : ElementHeap Item} {list : ListPointers}
    {chain : List (Nat × ListElement Item)}
    (chained : Chain heap.lookup list.first list.last chain) {rounds : Nat}
    (enough : chain.length < rounds) :
    ∃ list' heap' chain', removeAll null rounds list heap = .ok (list', heap') ∧
      Becomes heap.lookup heap'.lookup chain list'.first list'.last chain' ∧
      chain'.map Prod.snd =
        ((chain.map Prod.snd).dropWhile fun element => element.item ≠ null).tail := by
  induction chain generalizing heap list rounds with
  | nil =>
      obtain ⟨rounds, rfl⟩ := Nat.exists_eq_succ_of_ne_zero (Nat.ne_zero_of_lt enough)
      refine ⟨list, heap, [], ?_, chained.stays, rfl⟩
      rw [removeAll, remove, sortedRemove_of_empty null chained]
      exact if_pos rfl
  | cons cell chain ih =>
      obtain ⟨rounds, rfl⟩ := Nat.exists_eq_succ_of_ne_zero (Nat.ne_zero_of_lt enough)
      obtain ⟨rest, left, removed, becomes⟩ := sortedRemove_of_cons null chained none
      rw [removeAll, remove, removed]
      simp only [ok_bind]
      by_cases isNull : cell.2.item = null
      · rw [if_pos isNull]
        exact ⟨rest, left, chain, rfl, becomes, by simp [isNull]⟩
      · rw [if_neg isNull]
        obtain ⟨list', heap', chain', done, later, contents⟩ :=
          ih becomes.now (Nat.lt_of_succ_lt_succ enough)
        exact ⟨list', heap', chain', done, becomes.trans later, by simp [isNull, contents]⟩

/-- A list in memory does what the sequence of its elements does. -/
theorem use_follows (null : Item) {heap : ElementHeap Item} {list : ListPointers}
    {chain : List (Nat × ListElement Item)}
    (chained : Chain heap.lookup list.first list.last chain) {sequence : LinkedList Item}
    (contents : chain.map Prod.snd = sequence.elements) {use : ListUse Item}
    (fresh : use.Fresh heap) :
    ∃ list' heap' chain', list.use null heap use =
        .ok ((sequence.use null use).1, list', heap') ∧
      Becomes heap.lookup heap'.lookup chain list'.first list'.last chain' ∧
      chain'.map Prod.snd = (sequence.use null use).2.elements := by
  have short := length_le_card chained
  cases use with
  | operate command =>
      obtain ⟨list', heap', chain', done, becomes, sequences⟩ :=
        perform_follows null chained contents fresh
      exact ⟨list', heap', chain', by rw [ListPointers.use, done]; rfl, becomes, sequences⟩
  | mapcar =>
      refine ⟨list, heap, chain, ?_, chained.stays, contents⟩
      rw [ListPointers.use, mapcar, walk_linked chained.links short]
      simp only [LinkedList.use, LinkedList.items, ← contents, List.map_map]
      rfl
  | destroy =>
      obtain ⟨list', heap', chain', done, becomes, sequences⟩ :=
        removeAll_chain null chained (Nat.lt_succ_of_le short)
      refine ⟨list', heap', chain', ?_, becomes, ?_⟩
      · rw [ListPointers.use, destroy, done]
        rfl
      · rw [sequences, contents]
        rfl

end ListPointers

namespace ListMemory

variable {ι Item : Type} [DecidableEq ι] [DecidableEq Item]

def use (null : Item) (memory : ListMemory ι Item) (use : ι × ListUse Item) :
    Except HeapFault (ListAnswer Item × ListMemory ι Item) :=
  ((memory.lists use.1).use null memory.heap use.2).map fun result =>
    (result.1, ⟨result.2.2, Function.update memory.lists use.1 result.2.1⟩)

/-- The use of one of the sequences. -/
def useOn (null : Item) (sequences : ι → LinkedList Item) (use : ι × ListUse Item) :
    Except HeapFault (ListAnswer Item × (ι → LinkedList Item)) :=
  let (answer, sequence) := (sequences use.1).use null use.2
  .ok (answer, Function.update sequences use.1 sequence)

variable {before : ElementHeap Item} {memory : ListMemory ι Item}
  {sequences : ι → LinkedList Item}

theorem use_simulates (null : Item) (represents : Represents before sequences memory)
    {use : ι × ListUse Item} (fresh : use.2.Fresh memory.heap) :
    SameOutcome (SameAnswers (Represents before)) (useOn null sequences use)
      (memory.use null use) := by
  obtain ⟨i, use⟩ := use
  obtain ⟨chains, holds⟩ := represents
  obtain ⟨list, heap, chain, done, becomes, contents⟩ :=
    ListPointers.use_follows null (holds.layout.chain i) (holds.contents i) fresh
  have expected : useOn null sequences (i, use) = .ok (((sequences i).use null use).1,
      Function.update sequences i ((sequences i).use null use).2) := rfl
  rw [ListMemory.use, done, expected]
  exact .ok ⟨rfl, holds.replaced becomes contents⟩

/-- The uses of the sequences always succeed. -/
theorem run_useOn (null : Item) (state : List (ListAnswer Item) × (ι → LinkedList Item))
    (uses : List (ι × ListUse Item)) :
    ∃ result, run (answering (useOn null)) state uses = .ok result := by
  induction uses generalizing state with
  | nil => exact ⟨state, rfl⟩
  | cons use uses ih => exact ih _

omit [DecidableEq ι] [DecidableEq Item] in
/-- When all lists are empty nothing that they allocated is left. -/
theorem Represents.heap_eq (represents : Represents before sequences memory)
    (empty : ∀ i, (sequences i).elements = []) : memory.heap = before := by
  obtain ⟨chains, holds⟩ := represents
  apply Finmap.ext_lookup
  intro address
  apply holds.layout.outside
  intro i
  have none : chains i = [] := List.map_eq_nil_iff.mp ((holds.contents i).trans (empty i))
  simp [none]

/-- `new` returns an address that is not in use, in every use of a run. -/
def FreshUses (null : Item) (before : ElementHeap Item) (uses : List (ι × ListUse Item)) : Prop :=
  RunRequested (answering (use null)) (fun state use => use.2.Fresh state.2.heap)
    ([], boot before) uses

/-- The lists of a program, over every sequence of operations, walks and destructor calls on any
of them, give the answers of the sequences, and the memory that is left is theirs. -/
theorem uses_as_sequences (null : Item) (before : ElementHeap Item)
    (uses : List (ι × ListUse Item)) (fresh : FreshUses null before uses) :
    ∃ (answers : List (ListAnswer Item)) (memory : ListMemory ι Item)
      (sequences : ι → LinkedList Item),
      run (answering (use null)) ([], boot before) uses = .ok (answers, memory) ∧
      run (answering (useOn null)) ([], fun _ => .empty) uses = .ok (answers, sequences) ∧
      Represents before sequences memory ∧
      ((∀ i, (sequences i).elements = []) → memory.heap = before) := by
  have alike : SameOutcome (SameAnswers (Represents before))
      (run (answering (useOn null)) ([], fun _ : ι => .empty) uses)
      (run (answering (use null)) ([], boot before) uses) :=
    sameAnswers_run (fun _ _ _ represents now => use_simulates null represents now)
      (represents_boot before) fresh
  obtain ⟨⟨answers, sequences⟩, expected⟩ := run_useOn null ([], fun _ : ι => .empty) uses
  rw [expected] at alike ⊢
  generalize run (answering (use null)) ([], boot before) uses = result at alike ⊢
  cases alike with
  | @ok _ reached same =>
      obtain ⟨others, memory⟩ := reached
      obtain rfl : answers = others := same.answers
      have represents : Represents before sequences memory := same.relates
      exact ⟨answers, memory, sequences, rfl, rfl, represents, represents.heap_eq⟩

/-- One list is walked through and freed, the other one has an item that is `NULL`. -/
def twoLists : List (Bool × ListUse Nat) :=
  [(false, .operate (.append 1 10)), (true, .operate (.append 2 20)),
    (false, .operate (.prepend 3 30)), (true, .operate (.append 4 0)),
    (true, .operate (.append 5 50)), (false, .mapcar), (false, .destroy), (true, .destroy),
    (true, .mapcar)]

theorem uses_as_sequences_freed :
    (run (answering (use 0)) ([], boot ∅) twoLists).map Prod.fst =
      .ok [.reply .done, .reply .done, .reply .done, .reply .done, .reply .done,
        .passed [30, 10], .destroyed, .destroyed, .passed [50]] ∧
    ∃ (answers : List (ListAnswer Nat)) (memory : ListMemory Bool Nat)
      (sequences : Bool → LinkedList Nat),
      run (answering (use 0)) ([], boot ∅) twoLists = .ok (answers, memory) ∧
      run (answering (useOn 0)) ([], fun _ => .empty) twoLists = .ok (answers, sequences) ∧
      Represents ∅ sequences memory ∧
      ((∀ i, (sequences i).elements = []) → memory.heap = ∅) :=
  ⟨by decide +kernel, uses_as_sequences 0 ∅ twoLists (by unfold FreshUses; decide +kernel)⟩

end ListMemory

end Nachos
