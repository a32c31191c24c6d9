import Mathlib.Data.Finmap
import Nachos.LinkedChains
import Nachos.LinkedList

/-!
# Lists with their pointers

`class List` of `threads/list.cc` with the list elements in memory.  The operations read and
write through pointers, which may be null or dangling, and `new` and `delete` elements.  Many
lists share the memory.

The address that `new` returns is an argument; it is not in use.
-/

namespace Nachos

open LinkedChains

/-- `ListElement *`, where `none` is `NULL`. -/
abbrev ElementPointer := Option Nat

/-- The list elements in memory. -/
abbrev ElementHeap (Item : Type) := Finmap fun _ : Nat => Cell Nat (ListElement Item)

/-- What an access to memory may come to. -/
inductive HeapFault where
  /-- A null or dangling pointer was used. -/
  | invalidPointer
  /-- `new` returns no such address. -/
  | addressInUse
  /-- A loop has not come to its end within the given number of rounds. -/
  | diverged
  deriving DecidableEq, Repr

namespace ElementHeap

variable {Item : Type}

/-- The element `*pointer`. -/
def deref (heap : ElementHeap Item) (pointer : ElementPointer) :
    Except HeapFault (Cell Nat (ListElement Item)) :=
  match pointer.bind heap.lookup with
  | some element => .ok element
  | none => .error .invalidPointer

/-- `pointer->next = next`. -/
def setNext (heap : ElementHeap Item) (pointer next : ElementPointer) :
    Except HeapFault (ElementHeap Item) :=
  match pointer with
  | none => .error .invalidPointer
  | some address => do
      let element ← deref heap pointer
      .ok (heap.insert address { element with next := next })

/-- `new ListElement(itemPtr, sortKey)`. -/
def new (heap : ElementHeap Item) (address : Nat) (itemPtr : Item) (sortKey : Int) :
    Except HeapFault (ElementHeap Item) :=
  if address ∈ heap then .error .addressInUse
  else .ok (heap.insert address ⟨⟨itemPtr, sortKey⟩, none⟩)

/-- `delete pointer`, which does nothing for `NULL`. -/
def delete (heap : ElementHeap Item) (pointer : ElementPointer) :
    Except HeapFault (ElementHeap Item) :=
  match pointer with
  | none => .ok heap
  | some address => if address ∈ heap then .ok (heap.erase address) else .error .invalidPointer

/-- The loop of `SortedInsert`: a pointer to the element behind which the new one belongs, or
`NULL` when the loop comes to its end. -/
def findPlace (heap : ElementHeap Item) (sortKey : Int) :
    Nat → ElementPointer → Except HeapFault ElementPointer
  | 0, _ => .error .diverged
  | rounds + 1, ptr => do
      let element ← deref heap ptr
      if element.next = none then .ok none
      else do
        let next ← deref heap element.next
        if sortKey < next.content.key then .ok ptr
        else findPlace heap sortKey rounds element.next

end ElementHeap

/-- `class List`. -/
structure ListPointers where
  first : ElementPointer
  last : ElementPointer
  deriving DecidableEq

namespace ListPointers

open ElementHeap

variable {Item : Type}

/-- `List::List`. -/
def empty : ListPointers :=
  ⟨none, none⟩

def isEmpty (list : ListPointers) : Bool :=
  list.first = none

def append (list : ListPointers) (heap : ElementHeap Item) (address : Nat) (item : Item) :
    Except HeapFault (ListPointers × ElementHeap Item) := do
  let heap ← new heap address item 0
  let element := some address
  if list.isEmpty then .ok (⟨element, element⟩, heap)
  else do
    let heap ← setNext heap list.last element
    .ok ({ list with last := element }, heap)

def prepend (list : ListPointers) (heap : ElementHeap Item) (address : Nat) (item : Item) :
    Except HeapFault (ListPointers × ElementHeap Item) := do
  let heap ← new heap address item 0
  let element := some address
  if list.isEmpty then .ok (⟨element, element⟩, heap)
  else do
    let heap ← setNext heap element list.first
    .ok ({ list with first := element }, heap)

/-- The loop ends after one round for each element that is in memory, unless the elements
form a cycle. -/
def sortedInsert (list : ListPointers) (heap : ElementHeap Item) (address : Nat) (item : Item)
    (sortKey : Int) : Except HeapFault (ListPointers × ElementHeap Item) := do
  let heap ← new heap address item sortKey
  let element := some address
  if list.isEmpty then .ok (⟨element, element⟩, heap)
  else do
    let first ← deref heap list.first
    if sortKey < first.content.key then do
      let heap ← setNext heap element list.first
      .ok ({ list with first := element }, heap)
    else do
      let ptr ← findPlace heap sortKey heap.keys.card list.first
      if ptr = none then do
        let heap ← setNext heap list.last element
        .ok ({ list with last := element }, heap)
      else do
        let place ← deref heap ptr
        let heap ← setNext heap element place.next
        let heap ← setNext heap ptr element
        .ok (list, heap)

/-- The item that is returned, and the variable that `keyPtr` points to, unless it is `NULL`.
`null` is the null pointer to an item. -/
def sortedRemove (null : Item) (list : ListPointers) (heap : ElementHeap Item)
    (keyPtr : Option Int) :
    Except HeapFault (Item × Option Int × ListPointers × ElementHeap Item) :=
  let element := list.first
  if list.isEmpty then .ok (null, keyPtr, list, heap)
  else do
    let first ← deref heap list.first
    let thing := first.content.item
    let list := if list.first = list.last then ⟨none, none⟩ else { list with first := first.next }
    let keyPtr := keyPtr.map fun _ => first.content.key
    let heap ← delete heap element
    .ok (thing, keyPtr, list, heap)

def remove (null : Item) (list : ListPointers) (heap : ElementHeap Item) :
    Except HeapFault (Item × ListPointers × ElementHeap Item) := do
  let (thing, _, list, heap) ← sortedRemove null list heap none
  .ok (thing, list, heap)

end ListPointers

/-- The lists of a program, and the memory that they share. -/
structure ListMemory (ι Item : Type) where
  heap : ElementHeap Item
  lists : ι → ListPointers

/-- What is asked of a list; the addresses are those that `new` returns. -/
inductive ListCommand (Item : Type) where
  | append (address : Nat) (item : Item)
  | prepend (address : Nat) (item : Item)
  | remove
  | sortedInsert (address : Nat) (item : Item) (sortKey : Int)
  | sortedRemove (keyPtr : Option Int)

/-- The address that `new` returns is not in use. -/
def ListCommand.Fresh {Item : Type} (heap : ElementHeap Item) : ListCommand Item → Prop
  | .append address _ | .prepend address _ | .sortedInsert address _ _ => address ∉ heap
  | .remove | .sortedRemove _ => True

instance {Item : Type} (heap : ElementHeap Item) (command : ListCommand Item) :
    Decidable (command.Fresh heap) := by
  cases command <;> unfold ListCommand.Fresh <;> infer_instance

/-- What it answers. -/
inductive ListReply (Item : Type) where
  | done
  | removed (thing : Item) (keyPtr : Option Int)
  deriving DecidableEq

namespace ListPointers

variable {Item : Type}

def perform (null : Item) (list : ListPointers) (heap : ElementHeap Item) :
    ListCommand Item → Except HeapFault (ListReply Item × ListPointers × ElementHeap Item)
  | .append address item => (list.append heap address item).map fun result => (.done, result)
  | .prepend address item => (list.prepend heap address item).map fun result => (.done, result)
  | .remove => (list.remove null heap).map fun result => (.removed result.1 none, result.2)
  | .sortedInsert address item sortKey =>
      (list.sortedInsert heap address item sortKey).map fun result => (.done, result)
  | .sortedRemove keyPtr => (list.sortedRemove null heap keyPtr).map fun result =>
      (.removed result.1 result.2.1, result.2.2)

end ListPointers

namespace ListMemory

variable {ι Item : Type} [DecidableEq ι]

/-- An operation on one of the lists. -/
def perform (null : Item) (memory : ListMemory ι Item) (command : ι × ListCommand Item) :
    Except HeapFault (ListReply Item × ListMemory ι Item) :=
  ((memory.lists command.1).perform null memory.heap command.2).map fun result =>
    (result.1, ⟨result.2.2, Function.update memory.lists command.1 result.2.1⟩)

/-- All lists are empty. -/
def boot (heap : ElementHeap Item) : ListMemory ι Item :=
  ⟨heap, fun _ => .empty⟩

end ListMemory

end Nachos
