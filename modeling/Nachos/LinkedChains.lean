import Mathlib.Data.List.Nodup
import Mathlib.Logic.Function.Basic
import Mathlib.Tactic.Common

/-!
# Chains of linked cells

A heap maps addresses to cells, each with its content and the address of the next cell.  A
chain is a sequence of cells that are linked from the first one to the last one, after which
comes the null pointer.  This file describes how a chain changes when a cell is inserted or
removed, and keeps apart several chains in one heap.
-/

namespace LinkedChains

variable {Address α : Type*}

/-- A cell of a singly linked list. -/
structure Cell (Address α : Type*) where
  content : α
  next : Option Address
  deriving DecidableEq

/-- The cells at the addresses that are in use. -/
abbrev Cells (Address α : Type*) := Address → Option (Cell Address α)

section Links

variable {heap heap' : Cells Address α} {start middle finish next : Option Address}
  {chain before after : List (Address × α)}

/-- The cells that are linked from one pointer to another, with their addresses. -/
def Linked (heap : Cells Address α) :
    Option Address → List (Address × α) → Option Address → Prop
  | start, [], finish => start = finish
  | start, (address, content) :: rest, finish =>
      start = some address ∧
        ∃ next, heap address = some ⟨content, next⟩ ∧ Linked heap next rest finish

theorem linked_append_iff :
    Linked heap start (before ++ after) finish ↔
      ∃ middle, Linked heap start before middle ∧ Linked heap middle after finish := by
  induction before generalizing start with
  | nil => exact ⟨fun rest => ⟨start, rfl, rest⟩, fun ⟨_, same, rest⟩ => same ▸ rest⟩
  | cons cell before ih =>
      constructor
      · rintro ⟨here, next, stored, rest⟩
        obtain ⟨middle, first, second⟩ := ih.mp rest
        exact ⟨middle, ⟨here, next, stored, first⟩, second⟩
      · rintro ⟨middle, ⟨here, next, stored, first⟩, second⟩
        exact ⟨here, next, stored, ih.mpr ⟨middle, first, second⟩⟩

/-- The links only depend on the cells between them. -/
theorem Linked.frame (linked : Linked heap start chain finish)
    (kept : ∀ address ∈ chain.map Prod.fst, heap' address = heap address) :
    Linked heap' start chain finish := by
  induction chain generalizing start with
  | nil => exact linked
  | cons cell chain ih =>
      obtain ⟨here, next, stored, rest⟩ := linked
      rw [List.map_cons, List.forall_mem_cons] at kept
      exact ⟨here, next, kept.1.trans stored, ih rest kept.2⟩

theorem Linked.allocated (linked : Linked heap start chain finish) {address : Address}
    (member : address ∈ chain.map Prod.fst) : heap address ≠ none := by
  induction chain generalizing start with
  | nil => exact absurd member List.not_mem_nil
  | cons cell chain ih =>
      obtain ⟨-, next, stored, rest⟩ := linked
      rcases List.mem_cons.mp member with rfl | later
      · rw [stored]
        exact Option.some_ne_none _
      · exact ih rest later

/-- The pointers determine the cells up to the null pointer. -/
theorem Linked.unique {other : List (Address × α)} (linked : Linked heap start chain none)
    (also : Linked heap start other none) : chain = other := by
  induction chain generalizing start other with
  | nil =>
      obtain rfl : start = none := linked
      cases other with
      | nil => rfl
      | cons cell other => exact absurd also.1 (Option.some_ne_none _).symm
  | cons cell chain ih =>
      obtain ⟨rfl, next, stored, rest⟩ := linked
      cases other with
      | nil => exact absurd also (Option.some_ne_none _)
      | cons otherCell other =>
          obtain ⟨address, content⟩ := cell
          obtain ⟨otherAddress, otherContent⟩ := otherCell
          obtain ⟨same, otherNext, otherStored, otherRest⟩ := also
          obtain rfl : address = otherAddress := Option.some.inj same
          rw [stored, Option.some.injEq, Cell.mk.injEq] at otherStored
          obtain ⟨rfl, rfl⟩ := otherStored
          rw [ih rest otherRest]

/-- A chain that ends does not come back to any of its cells. -/
theorem Linked.nodup (linked : Linked heap start chain none) :
    (chain.map Prod.fst).Nodup := by
  induction chain generalizing start with
  | nil => exact List.nodup_nil
  | cons cell chain ih =>
      obtain ⟨address, content⟩ := cell
      obtain ⟨-, next, stored, rest⟩ := linked
      rw [List.map_cons, List.nodup_cons]
      refine ⟨fun again => ?_, ih rest⟩
      obtain ⟨⟨address, otherContent⟩, member, rfl⟩ := List.mem_map.mp again
      obtain ⟨before, after, rfl⟩ := List.append_of_mem member
      obtain ⟨middle, -, there⟩ := linked_append_iff.mp rest
      obtain rfl : middle = some address := there.1
      have whole : Linked heap (some address)
          ((address, content) :: (before ++ (address, otherContent) :: after)) none :=
        ⟨rfl, next, stored, rest⟩
      have lengths := congrArg List.length (whole.unique there)
      simp only [List.length_cons, List.length_append] at lengths
      omega

theorem Linked.stored {place : Address} {content : α}
    (linked : Linked heap start (before ++ (place, content) :: after) finish) :
    ∃ next, heap place = some ⟨content, next⟩ := by
  obtain ⟨middle, -, -, next, stored, -⟩ := linked_append_iff.mp linked
  exact ⟨next, stored⟩

section Insertion

variable [DecidableEq Address] {place added : Address} {content new : α}

/-- The heap after a new cell was linked behind another one. -/
def linkBehind (heap : Cells Address α) (place : Address) (content : α) (added : Address)
    (new : α) (next : Option Address) : Cells Address α :=
  Function.update (Function.update heap added (some ⟨new, next⟩)) place
    (some ⟨content, some added⟩)

theorem linkBehind_of_ne {other : Address} (notPlace : other ≠ place)
    (notAdded : other ≠ added) : linkBehind heap place content added new next other = heap other :=
  (Function.update_of_ne notPlace _ _).trans (Function.update_of_ne notAdded _ _)

theorem Linked.insert (linked : Linked heap start (before ++ (place, content) :: after) none)
    (fresh : heap added = none) (followed : heap place = some ⟨content, next⟩) :
    Linked (linkBehind heap place content added new next) start
      (before ++ (place, content) :: (added, new) :: after) none := by
  have distinct := linked.nodup
  have unused (address : Address)
      (member : address ∈ (before ++ (place, content) :: after).map Prod.fst) :
      address ≠ added := by
    rintro rfl
    exact linked.allocated member fresh
  rw [List.map_append, List.map_cons, List.nodup_append, List.nodup_cons] at distinct
  obtain ⟨-, ⟨notAfter, -⟩, apart⟩ := distinct
  rw [List.map_append, List.map_cons] at unused
  have placeUsed := unused place (List.mem_append_right _ List.mem_cons_self)
  obtain ⟨middle, first, second⟩ := linked_append_iff.mp linked
  obtain ⟨rfl, behind, stands, rest⟩ := second
  rw [followed, Option.some.injEq, Cell.mk.injEq] at stands
  obtain ⟨-, rfl⟩ := stands
  refine linked_append_iff.mpr ⟨some place, first.frame ?_, rfl, some added,
    Function.update_self _ _ _, rfl, next, ?_, rest.frame ?_⟩
  · intro address member
    exact linkBehind_of_ne (apart address member place List.mem_cons_self)
      (unused address (List.mem_append_left _ member))
  · exact (Function.update_of_ne placeUsed.symm _ _).trans (Function.update_self _ _ _)
  · intro address member
    refine linkBehind_of_ne ?_
      (unused address (List.mem_append_right _ (List.mem_cons_of_mem _ member)))
    rintro rfl
    exact notAfter member

end Insertion

end Links

section Changes

variable {heap heap' : Cells Address α} {first last next : Option Address}
  {chain chain' before after : List (Address × α)}

/-- A chain between the pointers to its first and its last cell. -/
structure Chain (heap : Cells Address α) (first last : Option Address)
    (chain : List (Address × α)) : Prop where
  links : Linked heap first chain none
  ends : last = chain.getLast?.map Prod.fst

/-- A chain becomes another one.  Other cells are not touched: those that are new to the chain
were not in use before, and those that are no longer in the chain are not in use after. -/
structure Becomes (heap heap' : Cells Address α) (chain : List (Address × α))
    (first last : Option Address) (chain' : List (Address × α)) : Prop where
  now : Chain heap' first last chain'
  kept : ∀ address, address ∉ chain.map Prod.fst → address ∉ chain'.map Prod.fst →
    heap' address = heap address
  fresh : ∀ address ∈ chain'.map Prod.fst, address ∉ chain.map Prod.fst → heap address = none
  freed : ∀ address ∈ chain.map Prod.fst, address ∉ chain'.map Prod.fst → heap' address = none

theorem Chain.nodup (chained : Chain heap first last chain) : (chain.map Prod.fst).Nodup :=
  chained.links.nodup

/-- Both pointers are null when there are no cells. -/
theorem Chain.null_iff (chained : Chain heap first last chain) :
    (first = none ↔ chain = []) ∧ (last = none ↔ chain = []) := by
  constructor
  · cases chain with
    | nil => exact iff_of_true chained.links rfl
    | cons cell chain =>
        obtain ⟨rfl, -⟩ := chained.links
        simp
  · rw [chained.ends]
    simp

theorem Chain.frame (chained : Chain heap first last chain)
    (kept : ∀ address ∈ chain.map Prod.fst, heap' address = heap address) :
    Chain heap' first last chain :=
  ⟨chained.links.frame kept, chained.ends⟩

/-- Nothing happens. -/
theorem Chain.stays (chained : Chain heap first last chain) :
    Becomes heap heap chain first last chain where
  now := chained
  kept _ _ _ := rfl
  fresh _ member outside := absurd member outside
  freed _ member outside := absurd member outside

/-- One change after another. -/
theorem Becomes.trans {heap'' : Cells Address α} {first' last' : Option Address}
    {chain'' : List (Address × α)} (becomes : Becomes heap heap' chain first last chain')
    (later : Becomes heap' heap'' chain' first' last' chain'') :
    Becomes heap heap'' chain first' last' chain'' where
  now := later.now
  kept address outside outside'' := by
    by_cases member : address ∈ chain'.map Prod.fst
    · rw [later.freed address member outside'', becomes.fresh address member outside]
    · rw [later.kept address member outside'', becomes.kept address outside member]
  fresh address member outside := by
    by_cases between : address ∈ chain'.map Prod.fst
    · exact becomes.fresh address between outside
    · rw [← becomes.kept address outside between]
      exact later.fresh address member between
  freed address member outside := by
    by_cases between : address ∈ chain'.map Prod.fst
    · exact later.freed address between outside
    · rw [later.kept address between outside]
      exact becomes.freed address member between

theorem becomes_of_added {added : Address} (now : Chain heap' first last chain')
    (members : ∀ address, address ∈ chain'.map Prod.fst ↔
      address = added ∨ address ∈ chain.map Prod.fst)
    (fresh : heap added = none)
    (kept : ∀ other, other ≠ added → other ∉ chain.map Prod.fst → heap' other = heap other) :
    Becomes heap heap' chain first last chain' where
  now := now
  kept address outside outside' := by
    rw [members, not_or] at outside'
    exact kept address outside'.1 outside
  fresh address member outside := by
    obtain rfl := ((members address).mp member).resolve_right outside
    exact fresh
  freed address member outside :=
    absurd ((members address).mpr (Or.inr member)) outside

variable [DecidableEq Address] {place added removed : Address} {content new : α}

/-- The first cell of an empty chain. -/
theorem becomes_singleton (fresh : heap added = none) :
    Becomes heap (Function.update heap added (some ⟨new, none⟩)) [] (some added) (some added)
      [(added, new)] := by
  refine becomes_of_added ⟨⟨rfl, none, Function.update_self _ _ _, rfl⟩, rfl⟩ (by simp) fresh ?_
  intro other different _
  exact Function.update_of_ne different _ _

/-- A new first cell of a chain that has cells already. -/
theorem Chain.cons (chained : Chain heap first last chain) (nonempty : chain ≠ [])
    (fresh : heap added = none) :
    Becomes heap (Function.update heap added (some ⟨new, first⟩)) chain (some added) last
      ((added, new) :: chain) := by
  refine becomes_of_added ⟨⟨rfl, first, Function.update_self _ _ _, ?_⟩, ?_⟩ (by simp) fresh ?_
  · apply chained.links.frame
    intro address member
    apply Function.update_of_ne
    rintro rfl
    exact chained.links.allocated member fresh
  · rw [chained.ends, List.getLast?_cons_of_ne_nil nonempty]
  · intro other different _
    exact Function.update_of_ne different _ _

/-- A new cell between two others. -/
theorem Chain.insert {follower : Address × α}
    (chained : Chain heap first last (before ++ (place, content) :: follower :: after))
    (fresh : heap added = none) (followed : heap place = some ⟨content, next⟩) :
    Becomes heap (linkBehind heap place content added new next)
      (before ++ (place, content) :: follower :: after) first last
      (before ++ (place, content) :: (added, new) :: follower :: after) := by
  refine becomes_of_added ⟨chained.links.insert fresh followed, chained.ends.trans ?_⟩ ?_ fresh ?_
  · simp [List.getLast?_append, List.getLast?_cons_cons]
  · intro address
    simp only [List.map_append, List.map_cons, List.mem_append, List.mem_cons]
    tauto
  · intro other different outside
    refine linkBehind_of_ne ?_ different
    rintro rfl
    simp at outside

/-- A new last cell. -/
theorem Chain.concat (chained : Chain heap first last (before ++ [(place, content)]))
    (fresh : heap added = none) :
    Becomes heap (linkBehind heap place content added new none) (before ++ [(place, content)])
      first (some added) (before ++ [(place, content), (added, new)]) := by
  obtain ⟨middle, -, -, next, followed, closed⟩ := linked_append_iff.mp chained.links
  obtain rfl : next = none := closed
  refine becomes_of_added ⟨chained.links.insert fresh followed, ?_⟩ ?_ fresh ?_
  · simp [List.getLast?_append]
  · intro address
    simp only [List.map_append, List.map_cons, List.map_nil, List.mem_append, List.mem_cons,
      List.not_mem_nil, or_false]
    tauto
  · intro other different outside
    refine linkBehind_of_ne ?_ different
    rintro rfl
    simp at outside

/-- A chain loses its first cell; the last pointer is null when there is no other. -/
theorem Chain.tail (chained : Chain heap first last ((removed, content) :: chain))
    (stored : heap removed = some ⟨content, next⟩) :
    Becomes heap (Function.update heap removed none) ((removed, content) :: chain) next
      (if chain = [] then none else last) chain := by
  have distinct := chained.nodup
  obtain ⟨-, behind, stands, rest⟩ := chained.links
  rw [stored, Option.some.injEq, Cell.mk.injEq] at stands
  obtain ⟨-, rfl⟩ := stands
  refine ⟨⟨rest.frame ?_, ?_⟩, ?_, ?_, ?_⟩
  · intro address member
    apply Function.update_of_ne
    rintro rfl
    exact (List.nodup_cons.mp distinct).1 member
  · split
    next empty =>
      rw [empty]
      rfl
    next nonempty => rw [chained.ends, List.getLast?_cons_of_ne_nil nonempty]
  · intro address outside _
    rw [List.map_cons, List.mem_cons, not_or] at outside
    exact Function.update_of_ne outside.1 _ _
  · intro address member outside
    exact absurd (List.mem_cons_of_mem _ member) outside
  · intro address member outside
    obtain rfl := (List.mem_cons.mp member).resolve_right outside
    exact Function.update_self _ _ _

end Changes

section Layouts

variable {ι : Type*} {background heap heap' : Cells Address α}
  {first last first' last' : ι → Option Address} {chains chains' : ι → List (Address × α)}

/-- Chains that have no cell in common, in a heap that had other contents before. -/
structure Layout (background heap : Cells Address α) (first last : ι → Option Address)
    (chains : ι → List (Address × α)) : Prop where
  chain : ∀ i, Chain heap (first i) (last i) (chains i)
  disjoint : ∀ i j, i ≠ j → ∀ address ∈ (chains i).map Prod.fst,
    address ∉ (chains j).map Prod.fst
  owned : ∀ i, ∀ address ∈ (chains i).map Prod.fst, background address = none
  outside : ∀ address, (∀ i, address ∉ (chains i).map Prod.fst) →
    heap address = background address

theorem layout_empty (heap : Cells Address α) :
    Layout heap heap (fun _ : ι => none) (fun _ => none) (fun _ => []) where
  chain _ := ⟨rfl, rfl⟩
  disjoint _ _ _ _ member := absurd member List.not_mem_nil
  owned _ _ member := absurd member List.not_mem_nil
  outside _ _ := rfl

/-- When one of the chains is replaced, the others stay as they are. -/
theorem Layout.replace (layout : Layout background heap first last chains) (i : ι)
    (becomes : Becomes heap heap' (chains i) (first' i) (last' i) (chains' i))
    (others : ∀ j, j ≠ i → first' j = first j ∧ last' j = last j ∧ chains' j = chains j) :
    Layout background heap' first' last' chains' := by
  -- A cell of another chain is neither one of the old chain nor a new one.
  have apart (j : ι) (different : j ≠ i) (address : Address)
      (member : address ∈ (chains j).map Prod.fst) : address ∉ (chains' i).map Prod.fst := by
    intro also
    have outside := layout.disjoint j i different address member
    exact (layout.chain j).links.allocated member (becomes.fresh address also outside)
  refine ⟨?_, ?_, ?_, ?_⟩
  · intro j
    by_cases same : j = i
    · exact same ▸ becomes.now
    · rw [(others j same).1, (others j same).2.1, (others j same).2.2]
      apply (layout.chain j).frame
      intro address member
      exact becomes.kept address (layout.disjoint j i same address member)
        (apart j same address member)
  · intro j k different address member
    by_cases first : j = i
    · subst first
      have second : k ≠ j := different.symm
      intro also
      rw [(others k second).2.2] at also
      exact apart k second address also member
    · rw [(others j first).2.2] at member
      by_cases second : k = i
      · exact second ▸ apart j first address member
      · rw [(others k second).2.2]
        exact layout.disjoint j k different address member
  · intro j address member
    by_cases same : j = i
    · subst same
      by_cases old : address ∈ (chains j).map Prod.fst
      · exact layout.owned j address old
      · have unused := becomes.fresh address member old
        rw [← layout.outside address fun k also =>
          (layout.chain k).links.allocated also unused]
        exact unused
    · rw [(others j same).2.2] at member
      exact layout.owned j address member
  · intro address outside
    by_cases old : address ∈ (chains i).map Prod.fst
    · rw [becomes.freed address old (outside i), layout.owned i address old]
    · rw [becomes.kept address old (outside i)]
      apply layout.outside
      intro j
      by_cases same : j = i
      · exact same ▸ old
      · rw [← (others j same).2.2]
        exact outside j

end Layouts

end LinkedChains
