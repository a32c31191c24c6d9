import Mathlib.Data.List.Basic

/-!
# Lists with sort keys

`class List` of `threads/list.cc`: the queue of the scheduler, of the mailboxes and of
everything else that waits in line.  The chain from `first` to `last` is kept as the
sequence of its elements.
-/

namespace Nachos

/-- `class ListElement` without its link. -/
structure ListElement (Item : Type) where
  item : Item
  key : Int
  deriving DecidableEq

/-- `class List`. -/
structure LinkedList (Item : Type) where
  elements : List (ListElement Item)
  deriving DecidableEq

namespace LinkedList

variable {Item : Type}

/-- `List::List`. -/
def empty : LinkedList Item :=
  ⟨[]⟩

/-- The items from the first one on. -/
def items (list : LinkedList Item) : List Item :=
  list.elements.map ListElement.item

def isEmpty (list : LinkedList Item) : Bool :=
  match list.elements with
  | [] => true
  | _ :: _ => false

def append (list : LinkedList Item) (item : Item) : LinkedList Item :=
  ⟨list.elements ++ [⟨item, 0⟩]⟩

def prepend (list : LinkedList Item) (item : Item) : LinkedList Item :=
  ⟨⟨item, 0⟩ :: list.elements⟩

/-- The place of a new element: before the first one with a larger key. -/
def insertElement (element : ListElement Item) : List (ListElement Item) → List (ListElement Item)
  | [] => [element]
  | first :: rest =>
      if element.key < first.key then element :: first :: rest
      else first :: insertElement element rest

def sortedInsert (list : LinkedList Item) (item : Item) (sortKey : Int) : LinkedList Item :=
  ⟨insertElement ⟨item, sortKey⟩ list.elements⟩

/-- The removed item with its key, or nothing if the list is empty. -/
def sortedRemove (list : LinkedList Item) : Option (Item × Int) × LinkedList Item :=
  match list.elements with
  | [] => (none, list)
  | first :: rest => (some (first.item, first.key), ⟨rest⟩)

def remove (list : LinkedList Item) : Option Item × LinkedList Item :=
  (list.sortedRemove.1.map Prod.fst, list.sortedRemove.2)

@[simp]
theorem items_empty : (empty : LinkedList Item).items = [] :=
  rfl

@[simp]
theorem items_append (list : LinkedList Item) (item : Item) :
    (list.append item).items = list.items ++ [item] := by
  simp [items, append]

@[simp]
theorem items_prepend (list : LinkedList Item) (item : Item) :
    (list.prepend item).items = item :: list.items := by
  simp [items, prepend]

theorem isEmpty_eq_true_iff {list : LinkedList Item} :
    list.isEmpty = true ↔ list.items = [] := by
  cases elements : list.elements <;> simp [isEmpty, items, elements]

theorem remove_eq_none_iff {list : LinkedList Item} :
    list.remove.1 = none ↔ list.items = [] := by
  cases elements : list.elements <;> simp [remove, sortedRemove, items, elements]

/-- What `Remove` does to the items. -/
theorem items_eq_remove {list : LinkedList Item} {item : Item}
    (removed : list.remove.1 = some item) : list.items = item :: list.remove.2.items := by
  cases elements : list.elements <;> simp_all [remove, sortedRemove, items]

theorem perm_insertElement (element : ListElement Item) (elements : List (ListElement Item)) :
    (insertElement element elements).Perm (element :: elements) := by
  induction elements with
  | nil => exact List.Perm.refl _
  | cons first rest ih =>
      unfold insertElement
      split
      · exact List.Perm.refl _
      · exact (ih.cons first).trans (List.Perm.swap _ _ _)

theorem mem_insertElement {element other : ListElement Item}
    {elements : List (ListElement Item)} :
    other ∈ insertElement element elements ↔ other = element ∨ other ∈ elements := by
  rw [(perm_insertElement element elements).mem_iff, List.mem_cons]

/-- `SortedInsert` keeps a list in the order of its keys. -/
theorem sorted_insertElement (element : ListElement Item) {elements : List (ListElement Item)}
    (sorted : elements.Pairwise fun first second => first.key ≤ second.key) :
    (insertElement element elements).Pairwise fun first second => first.key ≤ second.key := by
  induction elements with
  | nil => exact List.pairwise_singleton _ _
  | cons first rest ih =>
      obtain ⟨least, restSorted⟩ := List.pairwise_cons.mp sorted
      unfold insertElement
      split
      · next before =>
        apply List.pairwise_cons.mpr
        refine ⟨?_, sorted⟩
        intro other member
        rcases List.mem_cons.mp member with rfl | inRest
        · exact Int.le_of_lt before
        · exact Int.le_trans (Int.le_of_lt before) (least other inRest)
      · next behind =>
        apply List.pairwise_cons.mpr
        refine ⟨?_, ih restSorted⟩
        intro other member
        rcases mem_insertElement.mp member with rfl | inRest
        · exact Int.not_lt.mp behind
        · exact least other inRest

end LinkedList

end Nachos
