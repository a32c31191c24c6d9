import Nachos.Disk
import Nachos.TransitionRuns
import Mathlib.Data.List.Nodup
import Mathlib.Data.List.Perm.Subperm
import Mathlib.Data.Nat.Cast.Basic

/-!
# The registry of threads

The constructor and the destructor of `class Thread` and the failing path of
`Thread::Fork` keep track of the threads in three global variables: `tid` says which IDs
are taken, `threadPort` lists the threads and `threadnum` counts them.  Both arrays have
128 cells, and an access outside of them is a fault.

Pointers to threads are numbers that are given out in the order of the constructor calls.
-/

namespace Nachos

open TransitionRuns

/-- Why an action is not carried out. -/
inductive Halt where
  /-- There is no such thread, or it is not in a position to do so. -/
  | impossible
  | fault (reason : Fault)
  deriving DecidableEq

/-- A thread that was not deleted. -/
structure ThreadObject where
  ref : Nat
  threadID : Int
  deriving DecidableEq

/-- The global variables, the threads that were not deleted and the number of constructor
calls. -/
structure ThreadRegistry where
  tid : Nat → Nat
  threadPort : Nat → Option Nat
  threadnum : Int
  currentThread : Option Nat
  live : List ThreadObject
  created : Nat

namespace ThreadRegistry

def maxThreadNum : Nat := 128

/-- The cell of an array that an index denotes. -/
def cell (index : Int) : Except Fault Nat :=
  if 0 ≤ index ∧ index < maxThreadNum then .ok index.toNat else .error .outOfBounds

/-- The loop of the constructor that looks for a free ID. -/
def firstFree (tid : Nat → Nat) : Option Nat :=
  (List.range maxThreadNum).find? fun index => tid index = 0

/-- `Thread::Thread`. -/
def construct (s : ThreadRegistry) : Except Fault ThreadRegistry := do
  let (tid, threadID) : (Nat → Nat) × Int :=
    match firstFree s.tid with
    | some index => (Function.update s.tid index 1, index)
    | none => (s.tid, -1)
  let index ← cell (s.threadnum + 1)
  return { s with
    tid := tid
    threadPort := Function.update s.threadPort index (some s.created)
    threadnum := s.threadnum + 1
    live := s.live ++ [⟨s.created, threadID⟩]
    created := s.created + 1 }

def freeThreadID (s : ThreadRegistry) (threadid : Int) : Except Fault ThreadRegistry := do
  let index ← cell threadid
  return { s with tid := Function.update s.tid index 0 }

/-- `Thread::~Thread`. -/
def destroy (s : ThreadRegistry) (thread : ThreadObject) : Except Fault ThreadRegistry :=
  if s.currentThread = some thread.ref then .error .assertion
  else do
    let s ← s.freeThreadID thread.threadID
    let index ← cell s.threadnum
    return { s with
      threadPort := Function.update s.threadPort index none
      threadnum := s.threadnum - 1
      live := s.live.filter fun other => other.ref ≠ thread.ref }

/-- `Thread::Fork`, as far as the registry is concerned. -/
def fork (s : ThreadRegistry) (thread : ThreadObject) : Except Fault ThreadRegistry :=
  if thread.threadID = -1 then { s with threadnum := s.threadnum - 1 }.destroy thread
  else .ok s

/-- The thread that a pointer points to. -/
def find (s : ThreadRegistry) (ref : Nat) : Except Halt ThreadObject :=
  match s.live.find? fun thread => thread.ref = ref with
  | some thread => .ok thread
  | none => .error .impossible

inductive Action where
  | construct
  | fork (ref : Nat)
  | delete (ref : Nat)
  /-- The processor is given to a thread. -/
  | dispatch (ref : Nat)

def step (s : ThreadRegistry) : Action → Except Halt ThreadRegistry
  | .construct => s.construct.mapError .fault
  | .fork ref => do
      let thread ← s.find ref
      (s.fork thread).mapError .fault
  | .delete ref => do
      let thread ← s.find ref
      (s.destroy thread).mapError .fault
  | .dispatch ref => do
      let thread ← s.find ref
      return { s with currentThread := some thread.ref }

/-- `Initialize` up to the constructor of the main thread. -/
def boot : ThreadRegistry where
  tid := fun _ => 0
  threadPort := fun _ => none
  threadnum := 0
  currentThread := none
  live := []
  created := 0

/-- The IDs are distinct and marked, the threads are counted, and `threadPort` lists them
from its second cell on. -/
structure Consistent (s : ThreadRegistry) : Prop where
  distinct : ∀ first ∈ s.live, ∀ second ∈ s.live,
    first.threadID = second.threadID → first.threadID ≠ -1 → first = second
  marked : ∀ index < maxThreadNum, s.tid index = 1 ↔ ∃ thread ∈ s.live, thread.threadID = index
  counted : s.threadnum = s.live.length
  filled : ∀ index : Nat, 1 ≤ index → (index : Int) ≤ s.threadnum →
    ∃ thread ∈ s.live, s.threadPort index = some thread.ref
  listed : ∀ thread ∈ s.live, ∃ index : Nat, 1 ≤ index ∧ (index : Int) ≤ s.threadnum ∧
    s.threadPort index = some thread.ref

/-- There is room for a new thread, and the thread to be deleted is the last one in
`threadPort`.  The running thread cannot be deleted. -/
def InOrder (s : ThreadRegistry) : Action → Prop
  | .construct => s.threadnum < maxThreadNum - 1
  | .delete ref => (∃ thread ∈ s.live, thread.ref = ref) → s.currentThread ≠ some ref →
      s.threadPort s.threadnum.toNat = some ref
  | .fork _ | .dispatch _ => True

variable {s next : ThreadRegistry}

theorem cell_eq_ok_iff {position : Int} {index : Nat} :
    cell position = .ok index ↔ position = index ∧ index < maxThreadNum := by
  unfold cell
  split
  · next inside =>
    rw [Except.ok.injEq]
    omega
  · next outside =>
    refine ⟨nofun, fun ⟨equal, small⟩ => absurd ⟨?_, ?_⟩ outside⟩ <;> omega

theorem cell_natCast {index : Nat} (inside : index < maxThreadNum) :
    cell index = .ok index :=
  cell_eq_ok_iff.mpr ⟨rfl, inside⟩

theorem mapError_eq_ok_iff {result : Except Fault ThreadRegistry} :
    result.mapError Halt.fault = .ok next ↔ result = .ok next := by
  cases result <;> simp [Except.mapError]

theorem mapError_eq_error_iff {result : Except Fault ThreadRegistry} {reason : Fault} :
    result.mapError Halt.fault = .error (.fault reason) ↔ result = .error reason := by
  cases result <;> simp [Except.mapError]

theorem find_cases (s : ThreadRegistry) (ref : Nat) :
    s.find ref = .error .impossible ∨
      ∃ thread ∈ s.live, thread.ref = ref ∧ s.find ref = .ok thread := by
  unfold find
  cases search : s.live.find? fun thread => thread.ref = ref with
  | none => exact Or.inl rfl
  | some thread =>
      exact Or.inr ⟨thread, List.mem_of_find?_eq_some search, by simpa using List.find?_some search,
        rfl⟩

section Identified

/-- What every run keeps: the pointers are distinct, and the marked IDs are those of the
threads. -/
structure Identified (s : ThreadRegistry) : Prop where
  refs : (s.live.map (·.ref)).Nodup
  fresh : ∀ thread ∈ s.live, thread.ref < s.created
  distinct : ∀ first ∈ s.live, ∀ second ∈ s.live,
    first.threadID = second.threadID → first.threadID ≠ -1 → first = second
  marks : ∀ index < maxThreadNum,
    (s.tid index = 0 ∧ ∀ thread ∈ s.live, thread.threadID ≠ index) ∨
      (s.tid index = 1 ∧ ∃ thread ∈ s.live, thread.threadID = index)

/-- Two threads with the same pointer are the same. -/
theorem Identified.eq_of_ref (identified : Identified s) {first second : ThreadObject}
    (firstLive : first ∈ s.live) (secondLive : second ∈ s.live)
    (same : first.ref = second.ref) : first = second :=
  List.inj_on_of_nodup_map identified.refs firstLive secondLive same

theorem Identified.marked (identified : Identified s) {index : Nat}
    (inside : index < maxThreadNum) :
    s.tid index = 1 ↔ ∃ thread ∈ s.live, thread.threadID = index := by
  rcases identified.marks index inside with ⟨clear, absent⟩ | ⟨set, present⟩
  · simpa [clear] using absent
  · simpa [set] using present

theorem firstFree_eq_some {tid : Nat → Nat} {index : Nat} (free : firstFree tid = some index) :
    index < maxThreadNum ∧ tid index = 0 :=
  ⟨List.mem_range.mp (List.mem_of_find?_eq_some free), by simpa using List.find?_some free⟩

/-- What the constructor does to the IDs. -/
theorem construct_eq_ok (done : s.construct = .ok next) :
    next.currentThread = s.currentThread ∧ next.created = s.created + 1 ∧
      ((next.tid = s.tid ∧ next.live = s.live ++ [⟨s.created, -1⟩]) ∨
        ∃ index < maxThreadNum, s.tid index = 0 ∧ next.tid = Function.update s.tid index 1 ∧
          next.live = s.live ++ [⟨s.created, index⟩]) := by
  unfold construct at done
  cases free : firstFree s.tid with
  | none =>
      simp only [free] at done
      obtain ⟨port, -, done⟩ := bind_eq_ok_iff.mp done
      cases done
      exact ⟨rfl, rfl, Or.inl ⟨rfl, rfl⟩⟩
  | some index =>
      simp only [free] at done
      obtain ⟨port, -, done⟩ := bind_eq_ok_iff.mp done
      cases done
      obtain ⟨inside, clear⟩ := firstFree_eq_some free
      exact ⟨rfl, rfl, Or.inr ⟨index, inside, clear, rfl, rfl⟩⟩

/-- What the destructor does to the IDs. -/
theorem destroy_eq_ok {thread : ThreadObject} (done : s.destroy thread = .ok next) :
    next.currentThread = s.currentThread ∧ next.created = s.created ∧
      next.live = s.live.filter (fun other => other.ref ≠ thread.ref) ∧
      ∃ index < maxThreadNum, thread.threadID = (index : Nat) ∧
        next.tid = Function.update s.tid index 0 := by
  unfold destroy at done
  split at done
  · cases done
  · obtain ⟨freed, marked, done⟩ := bind_eq_ok_iff.mp done
    obtain ⟨index, position, marked⟩ := bind_eq_ok_iff.mp marked
    obtain ⟨port, -, done⟩ := bind_eq_ok_iff.mp done
    cases marked
    cases done
    obtain ⟨id, inside⟩ := cell_eq_ok_iff.mp position
    exact ⟨rfl, rfl, rfl, index, inside, id, rfl⟩

/-- A thread without an ID is not forked: its deletion leaves the array `tid`. -/
theorem fork_eq_ok_iff {thread : ThreadObject} :
    s.fork thread = .ok next ↔ thread.threadID ≠ -1 ∧ next = s := by
  unfold fork
  split
  · next unnamed =>
    refine ⟨fun done => ?_, fun named => absurd unnamed named.1⟩
    obtain ⟨-, -, -, index, -, id, -⟩ := destroy_eq_ok done
    omega
  · next named =>
    rw [Except.ok.injEq]
    exact ⟨fun same => ⟨named, same.symm⟩, fun holds => holds.2.symm⟩

/-- A new thread with another ID changes nothing for a mark. -/
theorem mark_concat {mark : Nat} {threads : List ThreadObject} {thread : ThreadObject} {id : Int}
    (other : thread.threadID ≠ id)
    (marks : mark = 0 ∧ (∀ present ∈ threads, present.threadID ≠ id) ∨
      mark = 1 ∧ ∃ present ∈ threads, present.threadID = id) :
    mark = 0 ∧ (∀ present ∈ threads ++ [thread], present.threadID ≠ id) ∨
      mark = 1 ∧ ∃ present ∈ threads ++ [thread], present.threadID = id := by
  rcases marks with ⟨clear, absent⟩ | ⟨set, present, here, equal⟩
  · refine Or.inl ⟨clear, ?_⟩
    intro present here
    rcases List.mem_append.mp here with old | new
    · exact absent present old
    · rwa [List.mem_singleton.mp new]
  · exact Or.inr ⟨set, present, List.mem_append_left _ here, equal⟩

/-- A new thread gets a pointer of its own, and an ID of its own if there is one. -/
theorem Identified.construct (identified : Identified s) (done : s.construct = .ok next) :
    Identified next := by
  obtain ⟨-, created, ids⟩ := construct_eq_ok done
  obtain ⟨id, live, unused⟩ : ∃ id, next.live = s.live ++ [⟨s.created, id⟩] ∧
      (id ≠ -1 → ∀ thread ∈ s.live, thread.threadID ≠ id) := by
    rcases ids with ⟨-, live⟩ | ⟨index, inside, clear, -, live⟩
    · exact ⟨-1, live, fun named => absurd rfl named⟩
    · refine ⟨index, live, fun _ => ?_⟩
      rcases identified.marks index inside with ⟨-, absent⟩ | ⟨set, -⟩
      · exact absent
      · rw [clear] at set
        cases set
  have member : ∀ thread, thread ∈ next.live ↔ thread ∈ s.live ∨ thread = ⟨s.created, id⟩ := by
    simp [live]
  refine ⟨?_, fun thread here => ?_, fun first firstLive second secondLive same named => ?_,
    fun position bound => ?_⟩
  · rw [live, List.map_append, List.map_singleton, ← List.concat_eq_append]
    apply identified.refs.concat
    intro old
    obtain ⟨thread, present, equal⟩ := List.mem_map.mp old
    exact Nat.ne_of_lt (identified.fresh thread present) equal
  · rw [created]
    rcases (member thread).mp here with old | rfl
    · exact Nat.lt_succ_of_lt (identified.fresh thread old)
    · exact Nat.lt_succ_self _
  · rcases (member first).mp firstLive with firstOld | rfl
    · rcases (member second).mp secondLive with secondOld | rfl
      · exact identified.distinct first firstOld second secondOld same named
      · exact absurd same (unused (fun none => named (same.trans none)) first firstOld)
    · rcases (member second).mp secondLive with secondOld | rfl
      · exact absurd same.symm (unused named second secondOld)
      · rfl
  · have old := identified.marks position bound
    rcases ids with ⟨tid, live'⟩ | ⟨index, inside, clear, tid, live'⟩
    · rw [tid, live']
      apply mark_concat _ old
      change (-1 : Int) ≠ position
      omega
    · rw [tid, live']
      by_cases same : position = index
      · subst same
        exact Or.inr ⟨Function.update_self _ _ _, ⟨s.created, position⟩, by simp⟩
      · rw [Function.update_of_ne same]
        apply mark_concat _ old
        exact fun equal => same (Int.ofNat_inj.mp equal).symm

/-- A deleted thread gives its ID back. -/
theorem Identified.destroy (identified : Identified s) {thread : ThreadObject}
    (live : thread ∈ s.live) (done : s.destroy thread = .ok next) : Identified next := by
  obtain ⟨-, created, others, index, inside, id, tid⟩ := destroy_eq_ok done
  have member : ∀ other, other ∈ next.live ↔ other ∈ s.live ∧ other.ref ≠ thread.ref := by
    simp [others]
  refine ⟨?_, fun other here => ?_, fun first firstLive second secondLive same named => ?_,
    fun position bound => ?_⟩
  · rw [others]
    exact identified.refs.sublist ((List.filter_sublist (l := s.live)).map _)
  · rw [created]
    exact identified.fresh other ((member other).mp here).1
  · exact identified.distinct first ((member first).mp firstLive).1 second
      ((member second).mp secondLive).1 same named
  · rw [tid]
    by_cases same : position = index
    · subst same
      refine Or.inl ⟨Function.update_self _ _ _, fun other here equal => ?_⟩
      obtain ⟨present, different⟩ := (member other).mp here
      have single := identified.distinct other present thread live (equal.trans id.symm) (by omega)
      exact different (by rw [single])
    · rw [Function.update_of_ne same]
      refine (identified.marks position bound).imp
        (And.imp_right fun absent other here => absent other ((member other).mp here).1)
        (And.imp_right fun ⟨other, present, equal⟩ => ⟨other, (member other).mpr ⟨present, ?_⟩,
          equal⟩)
      intro sameRef
      rw [identified.eq_of_ref present live sameRef, id] at equal
      exact same (Int.ofNat_inj.mp equal).symm

theorem Identified.withCurrent (identified : Identified s) (current : Option Nat) :
    Identified { s with currentThread := current } :=
  ⟨identified.refs, identified.fresh, identified.distinct, identified.marks⟩

end Identified

/-- What runs keep whose actions are in order: every thread has an ID, and `threadPort`
lists the threads in the order in which they were made. -/
structure Ordered (s : ThreadRegistry) : Prop extends Identified s where
  ports : ∀ index < s.live.length, s.threadPort (index + 1) = s.live[index]?.map (·.ref)
  counted : s.threadnum = s.live.length
  room : s.live.length < maxThreadNum
  bounded : ∀ thread ∈ s.live, ∃ index < maxThreadNum, thread.threadID = (index : Nat)

theorem ordered_boot : Ordered boot := by
  refine ⟨⟨?_, ?_, ?_, ?_⟩, ?_, ?_, ?_, ?_⟩ <;> simp [boot, maxThreadNum]

theorem Identified.find_eq (identified : Identified s) {thread : ThreadObject}
    (live : thread ∈ s.live) : s.find thread.ref = .ok thread := by
  unfold find
  cases search : s.live.find? fun other => other.ref = thread.ref with
  | none =>
      rw [List.find?_eq_none] at search
      simpa using search thread live
  | some other =>
      have same : other.ref = thread.ref := by simpa using List.find?_some search
      rw [identified.eq_of_ref (List.mem_of_find?_eq_some search) live same]

theorem Ordered.consistent (ordered : Ordered s) : Consistent s where
  distinct := ordered.distinct
  marked _ inside := ordered.marked inside
  counted := ordered.counted
  filled index positive small := by
    have bound := ordered.counted
    have inside : index - 1 < s.live.length := by omega
    refine ⟨s.live[index - 1], List.getElem_mem inside, ?_⟩
    have port := ordered.ports (index - 1) inside
    rwa [Nat.sub_add_cancel positive, List.getElem?_eq_getElem inside] at port
  listed thread live := by
    obtain ⟨index, inside, rfl⟩ := List.getElem_of_mem live
    have bound := ordered.counted
    refine ⟨index + 1, by omega, by omega, ?_⟩
    rw [ordered.ports index inside, List.getElem?_eq_getElem inside]
    rfl

/-- While there are fewer than 128 threads there is a free ID. -/
theorem Ordered.exists_free (ordered : Ordered s) : ∃ index, firstFree s.tid = some index := by
  cases search : firstFree s.tid with
  | some index => exact ⟨index, rfl⟩
  | none =>
      have taken : (List.range maxThreadNum).map (fun index : Nat => (index : Int)) ⊆
          s.live.map (·.threadID) := by
        intro id member
        obtain ⟨index, inside, rfl⟩ := List.mem_map.mp member
        rw [List.mem_range] at inside
        have set : s.tid index ≠ 0 := by
          rw [firstFree, List.find?_eq_none] at search
          simpa using search index (List.mem_range.mpr inside)
        rcases ordered.marks index inside with ⟨clear, -⟩ | ⟨-, thread, live, same⟩
        · exact absurd clear set
        · exact List.mem_map.mpr ⟨thread, live, same⟩
      have distinct : ((List.range maxThreadNum).map fun index : Nat => (index : Int)).Nodup :=
        List.nodup_range.map fun _ _ => Int.ofNat_inj.mp
      have enough := (List.subperm_of_subset distinct taken).length_le
      have room := ordered.room
      simp only [List.length_map, List.length_range] at enough
      omega

/-- A thread is made while there is room in `threadPort`. -/
theorem Ordered.construct (ordered : Ordered s) (room : s.threadnum < maxThreadNum - 1) :
    ∃ next, s.construct = .ok next ∧ Ordered next := by
  obtain ⟨index, free⟩ := ordered.exists_free
  obtain ⟨inside, -⟩ := firstFree_eq_some free
  have counted := ordered.counted
  have last : cell (s.threadnum + 1) = .ok (s.live.length + 1) :=
    cell_eq_ok_iff.mpr ⟨by omega, by omega⟩
  let next : ThreadRegistry := { s with
    tid := Function.update s.tid index 1
    threadPort := Function.update s.threadPort (s.live.length + 1) (some s.created)
    threadnum := s.threadnum + 1
    live := s.live ++ [⟨s.created, index⟩]
    created := s.created + 1 }
  have done : s.construct = .ok next := by
    rw [ThreadRegistry.construct, free]
    dsimp only
    rw [last]
    rfl
  have length : next.live.length = s.live.length + 1 := by simp [next]
  refine ⟨next, done, ordered.toIdentified.construct done, fun position bound => ?_,
    by rw [length]; simp [next, counted], by omega, fun thread member => ?_⟩
  · change Function.update s.threadPort _ _ _ = (s.live ++ [_])[position]?.map _
    by_cases same : position = s.live.length
    · subst same
      simp
    · rw [Function.update_of_ne (by omega), List.getElem?_append_left (by omega)]
      exact ordered.ports position (by omega)
  · rcases List.mem_append.mp member with live | new
    · exact ordered.bounded thread live
    · rw [List.mem_singleton.mp new]
      exact ⟨index, inside, rfl⟩

/-- No deletion leaves the arrays. -/
theorem Ordered.destroy_eq (ordered : Ordered s) {thread : ThreadObject} (live : thread ∈ s.live)
    (idle : s.currentThread ≠ some thread.ref) :
    ∃ index < maxThreadNum, thread.threadID = (index : Nat) ∧ s.destroy thread = .ok { s with
      tid := Function.update s.tid index 0
      threadPort := Function.update s.threadPort s.live.length none
      threadnum := s.threadnum - 1
      live := s.live.filter fun other => other.ref ≠ thread.ref } := by
  obtain ⟨index, inside, id⟩ := ordered.bounded thread live
  refine ⟨index, inside, id, ?_⟩
  rw [destroy, if_neg idle, freeThreadID, id, cell_natCast inside, ok_bind]
  change cell s.threadnum >>= _ = _
  rw [ordered.counted, cell_natCast ordered.room]
  rfl

/-- The last thread in `threadPort` is the youngest one. -/
theorem Ordered.split_last (ordered : Ordered s) {thread : ThreadObject} (live : thread ∈ s.live)
    (last : s.threadPort s.threadnum.toNat = some thread.ref) :
    ∃ front, s.live = front ++ [thread] ∧
      s.live.filter (fun other => other.ref ≠ thread.ref) = front := by
  rcases List.eq_nil_or_concat s.live with empty | ⟨front, youngest, split⟩
  · simp [empty] at live
  · rw [List.concat_eq_append] at split
    have port := ordered.ports front.length (by simp [split])
    rw [ordered.counted, split] at last
    rw [split] at port
    simp only [List.length_append, List.length_singleton, Int.toNat_natCast] at last
    rw [last] at port
    have same : thread = youngest :=
      ordered.eq_of_ref live (by simp [split]) (by simpa using port)
    subst same
    have refs := ordered.refs
    rw [split, List.map_append, List.nodup_append] at refs
    refine ⟨front, split, ?_⟩
    rw [split, List.filter_append, List.filter_eq_self.mpr fun other member => ?_]
    · simp
    · simpa using refs.2.2 other.ref (List.mem_map_of_mem member) thread.ref (by simp)

theorem Ordered.destroy (ordered : Ordered s) {thread : ThreadObject} (live : thread ∈ s.live)
    (last : s.threadPort s.threadnum.toNat = some thread.ref)
    (idle : s.currentThread ≠ some thread.ref) :
    ∃ next, s.destroy thread = .ok next ∧ Ordered next := by
  obtain ⟨index, inside, id, done⟩ := ordered.destroy_eq live idle
  obtain ⟨front, split, others⟩ := ordered.split_last live last
  have identified := ordered.toIdentified.destroy live done
  rw [others] at done identified
  have counted := ordered.counted
  have room := ordered.room
  have length : s.live.length = front.length + 1 := by simp [split]
  refine ⟨_, done, identified, fun position bound => ?_, by dsimp only; omega,
    by dsimp only; omega, fun other member => ordered.bounded other ?_⟩
  swap
  · rw [split]
    exact List.mem_append_left _ member
  dsimp only at bound ⊢
  have port := ordered.ports position (by omega)
  rw [Function.update_of_ne (by omega), port, split, List.getElem?_append_left bound]

theorem Ordered.fork_eq (ordered : Ordered s) {thread : ThreadObject} (live : thread ∈ s.live) :
    s.fork thread = .ok s := by
  obtain ⟨index, -, id⟩ := ordered.bounded thread live
  exact fork_eq_ok_iff.mpr ⟨by omega, rfl⟩

theorem Ordered.dispatch (ordered : Ordered s) (current : Option Nat) :
    Ordered { s with currentThread := current } :=
  ⟨ordered.withCurrent current, ordered.ports, ordered.counted, ordered.room, ordered.bounded⟩

/-- An action that is in order keeps the registry in order, or is not possible, or would
delete the running thread. -/
theorem Ordered.step_cases (ordered : Ordered s) {action : Action} (inOrder : InOrder s action) :
    (∃ next, step s action = .ok next ∧ Ordered next) ∨ step s action = .error .impossible ∨
      step s action = .error (.fault .assertion) := by
  cases action with
  | construct =>
      obtain ⟨next, done, after⟩ := ordered.construct inOrder
      exact Or.inl ⟨next, mapError_eq_ok_iff.mpr done, after⟩
  | fork ref =>
      rcases s.find_cases ref with failed | ⟨thread, live, -, found⟩
      · exact Or.inr (Or.inl (by rw [step, failed]; rfl))
      · refine Or.inl ⟨s, ?_, ordered⟩
        rw [step, found, ok_bind, ordered.fork_eq live]
        rfl
  | delete ref =>
      rcases s.find_cases ref with failed | ⟨thread, live, rfl, found⟩
      · exact Or.inr (Or.inl (by rw [step, failed]; rfl))
      · by_cases running : s.currentThread = some thread.ref
        · refine Or.inr (Or.inr ?_)
          rw [step, found, ok_bind, ThreadRegistry.destroy, if_pos running]
          rfl
        · have last := inOrder ⟨thread, live, rfl⟩ running
          obtain ⟨next, done, after⟩ := ordered.destroy live last running
          refine Or.inl ⟨next, ?_, after⟩
          rw [step, found, ok_bind, done]
          rfl
  | dispatch ref =>
      rcases s.find_cases ref with failed | ⟨thread, live, -, found⟩
      · exact Or.inr (Or.inl (by rw [step, failed]; rfl))
      · refine Or.inl ⟨{ s with currentThread := some thread.ref }, ?_, ordered.dispatch _⟩
        rw [step, found]
        rfl

/-- Any other action leaves the arrays or the registry inconsistent. -/
theorem Ordered.step_breaks (ordered : Ordered s) {action : Action}
    (disorder : ¬ InOrder s action) :
    step s action = .error (.fault .outOfBounds) ∨
      ∃ next, step s action = .ok next ∧ ¬ Consistent next := by
  cases action with
  | construct =>
      have full : ¬ (0 ≤ s.threadnum + 1 ∧ s.threadnum + 1 < maxThreadNum) := by
        unfold InOrder at disorder
        omega
      obtain ⟨index, free⟩ := ordered.exists_free
      refine Or.inl (mapError_eq_error_iff.mpr ?_)
      rw [ThreadRegistry.construct, free]
      dsimp only
      rw [cell, if_neg full]
      rfl
  | fork ref | dispatch ref => exact absurd trivial disorder
  | delete ref =>
      simp only [InOrder, Classical.not_imp] at disorder
      obtain ⟨⟨thread, live, rfl⟩, idle, inside⟩ := disorder
      obtain ⟨index, -, -, done⟩ := ordered.destroy_eq live idle
      refine Or.inr ⟨_, by rw [step, ordered.find_eq live, ok_bind, done]; rfl, ?_⟩
      intro consistent
      obtain ⟨position, bound, equal⟩ := List.getElem_of_mem live
      have counted := ordered.counted
      have port : s.threadPort (position + 1) = some thread.ref := by
        rw [ordered.ports position bound, List.getElem?_eq_getElem bound, equal]
        rfl
      have notLast : position + 1 ≠ s.live.length := by
        intro last
        apply inside
        rw [counted, Int.toNat_natCast, ← last, port]
      obtain ⟨other, member, stale⟩ := consistent.filled (position + 1) (by omega)
        (by dsimp only; omega)
      dsimp only at stale member
      rw [Function.update_of_ne notLast, port] at stale
      rw [List.mem_filter] at member
      simp [Option.some.inj stale] at member

/-- A run keeps the registry consistent and stays inside of the arrays exactly when there
are at most 127 threads at once and each deletion is that of the youngest thread. -/
theorem consistent_iff (actions : List Action) :
    (AlongRun step Consistent boot actions ∧
      run step boot actions ≠ .error (.fault .outOfBounds)) ↔
    RunRequested step InOrder boot actions := by
  refine goodRun_iff_runRequested ?_ (fun _ ordered => ordered.consistent) ?_
    (fun _ _ ordered disorder => ordered.step_breaks disorder) ordered_boot
  · intro s action next ordered inOrder stepped
    rcases ordered.step_cases inOrder with ⟨after, done, holds⟩ | failed | failed
    · rw [stepped] at done
      cases done
      exact holds
    · rw [stepped] at failed
      cases failed
    · rw [stepped] at failed
      cases failed
  · intro s action ordered inOrder failed
    rcases ordered.step_cases inOrder with ⟨after, done, -⟩ | other | other
    · rw [failed] at done
      cases done
    · rw [failed] at other
      cases other
    · rw [failed] at other
      cases other

/-- Three threads are made and the second one is deleted: its pointer stays among the first
two of `threadPort`, and the pointer to the third one is lost. -/
theorem stale_pointer_after_deletion :
    ¬ (AlongRun step Consistent boot
        [.construct, .construct, .construct, .dispatch 0, .delete 1] ∧
      run step boot [.construct, .construct, .construct, .dispatch 0, .delete 1] ≠
        .error (.fault .outOfBounds)) := by
  rintro ⟨along, -⟩
  obtain ⟨last, reached, stale, counted, refs⟩ : ∃ last : ThreadRegistry,
      run step boot [.construct, .construct, .construct, .dispatch 0, .delete 1] = .ok last ∧
        last.threadPort 2 = some 1 ∧ last.threadnum = 2 ∧ last.live.map (·.ref) = [0, 2] :=
    ⟨_, rfl, rfl, rfl, rfl⟩
  obtain ⟨thread, live, port⟩ := (alongRun_last along reached).filled 2 (by omega) (by omega)
  have member : thread.ref ∈ last.live.map (·.ref) := List.mem_map_of_mem live
  rw [stale] at port
  rw [refs, ← Option.some.inj port] at member
  simp at member

end ThreadRegistry

end Nachos
