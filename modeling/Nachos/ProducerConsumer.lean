import Mathlib.Algebra.Order.BigOperators.Group.Finset
import Nachos.SynchProgress

/-!
# Producers and consumers

Threads put items into a buffer or take them out of it, each a given number of times, and
print a line whenever they did so.  What can be said of the output does not depend on how
they synchronise: if threads are left with the buffer full or empty, then the numbers of
lines are as large as the numbers of threads and the room in the buffer allow.
-/

namespace Nachos

/-- What a thread of the tests does. -/
inductive Role where
  | producer
  | consumer
  deriving DecidableEq

/-- The threads that a thread of this role waits for. -/
def Role.other : Role → Role
  | producer => consumer
  | consumer => producer

@[simp]
theorem Role.other_other (role : Role) : role.other.other = role := by
  cases role <;> rfl

theorem Role.ne_iff_eq_other {role other : Role} : role ≠ other ↔ role = other.other := by
  cases role <;> cases other <;> simp [Role.other]

/-- A line of output: who changed the buffer, and the numbers that are printed. -/
structure BufferLine (Thread Shown : Type) where
  role : Role
  thread : Thread
  shown : Shown
  deriving DecidableEq

namespace ProducerConsumer

variable {Thread Shown : Type}

/-- The number of lines of a thread. -/
def linesOf [DecidableEq Thread] (output : List (BufferLine Thread Shown)) (thread : Thread) :
    Nat :=
  output.countP fun line => decide (line.thread = thread)

/-- The number of lines of all producers, or of all consumers. -/
def linesAs (output : List (BufferLine Thread Shown)) (role : Role) : Nat :=
  output.countP fun line => decide (line.role = role)

@[simp]
theorem linesAs_append (output : List (BufferLine Thread Shown))
    (line : BufferLine Thread Shown) (role : Role) :
    linesAs (output ++ [line]) role =
      linesAs output role + if line.role = role then 1 else 0 := by
  simp [linesAs, List.countP_append, List.countP_singleton]

variable [DecidableEq Thread]

@[simp]
theorem linesOf_append (output : List (BufferLine Thread Shown))
    (line : BufferLine Thread Shown) (thread : Thread) :
    linesOf (output ++ [line]) thread =
      linesOf output thread + if line.thread = thread then 1 else 0 := by
  simp [linesOf, List.countP_append, List.countP_singleton]

/-- Where a thread is in its loop. -/
inductive Lap where
  | outside
  | before (role : Role)
  | after (role : Role)

/-- The role of the code that the thread is in. -/
def Lap.role : Lap → Option Role
  | outside => none
  | before role | after role => some role

/-- How many lines of its current lap the thread has printed. -/
def Lap.printed : Lap → Nat
  | after _ => 1
  | outside | before _ => 0

/-- A thread has printed one line in each of its laps. -/
structure Progress (roleOf : Thread → Role) (repetitions : Role → Nat)
    (output : List (BufferLine Thread Shown)) (laps : Thread → Nat) (thread : Thread)
    (lap : Lap) : Prop where
  lines : linesOf output thread = laps thread + lap.printed
  role : ∀ role, lap.role = some role → role = roleOf thread ∧ laps thread < repetitions role
  laps : laps thread ≤ repetitions (roleOf thread)

section Progress

variable {roleOf : Thread → Role} {repetitions : Role → Nat}
  {output : List (BufferLine Thread Shown)} {laps : Thread → Nat} {thread other : Thread}
  {lap : Lap} {role : Role}

theorem Progress.zero (roleOf : Thread → Role) (repetitions : Role → Nat) (thread : Thread) :
    Progress roleOf repetitions ([] : List (BufferLine Thread Shown)) (fun _ => 0) thread
      .outside :=
  ⟨rfl, nofun, Nat.zero_le _⟩

/-- The thread goes into the code for its role. -/
theorem Progress.start (progress : Progress roleOf repetitions output laps thread .outside)
    (left : laps thread < repetitions (roleOf thread)) :
    Progress roleOf repetitions output laps thread (.before (roleOf thread)) := by
  refine ⟨progress.lines, fun role here => ?_, progress.laps⟩
  obtain rfl := Option.some.inj here
  exact ⟨rfl, left⟩

/-- The thread prints a line. -/
theorem Progress.print (progress : Progress roleOf repetitions output laps thread (.before role))
    (shown : Shown) : Progress roleOf repetitions (output ++ [⟨role, thread, shown⟩]) laps thread
      (.after role) := by
  refine ⟨?_, progress.role, progress.laps⟩
  rw [linesOf_append, progress.lines, if_pos rfl]
  rfl

/-- The thread begins the next lap. -/
theorem Progress.next (progress : Progress roleOf repetitions output laps thread (.after role)) :
    Progress roleOf repetitions output (Function.update laps thread (laps thread + 1)) thread
      .outside := by
  obtain ⟨lines, isRole, -⟩ := progress
  obtain ⟨rfl, left⟩ := isRole role rfl
  refine ⟨?_, nofun, ?_⟩
  · rw [lines, Function.update_self]
    rfl
  · rw [Function.update_self]
    exact left

/-- Another thread prints a line. -/
theorem Progress.print_of_ne (progress : Progress roleOf repetitions output laps other lap)
    (different : other ≠ thread) (shown : Shown) :
    Progress roleOf repetitions (output ++ [⟨role, thread, shown⟩]) laps other lap := by
  refine ⟨?_, progress.role, progress.laps⟩
  rw [linesOf_append, progress.lines, if_neg (Ne.symm different), Nat.add_zero]

/-- Another thread begins the next lap. -/
theorem Progress.next_of_ne (progress : Progress roleOf repetitions output laps other lap)
    (different : other ≠ thread) (count : Nat) :
    Progress roleOf repetitions output (Function.update laps thread count) other lap := by
  have kept : Function.update laps thread count other = laps other :=
    Function.update_of_ne different _ _
  obtain ⟨lines, isRole, most⟩ := progress
  constructor
  · rwa [kept]
  · rwa [kept]
  · rwa [kept]

theorem Progress.lines_le (progress : Progress roleOf repetitions output laps thread lap) :
    linesOf output thread ≤ repetitions (roleOf thread) := by
  obtain ⟨lines, isRole, most⟩ := progress
  rw [lines]
  cases lap with
  | outside | before => exact most
  | after role =>
      obtain ⟨rfl, left⟩ := isRole role rfl
      exact left

end Progress

variable [Fintype Thread] {roleOf : Thread → Role} {output : List (BufferLine Thread Shown)}

/-- The number of threads with a role. -/
def workers (roleOf : Thread → Role) (role : Role) : Nat :=
  (Finset.univ.filter fun thread => roleOf thread = role).card

/-- Every line belongs to a thread with the role that it names. -/
theorem linesAs_eq_sum (agree : ∀ line ∈ output, line.role = roleOf line.thread)
    (role : Role) :
    linesAs output role =
      ∑ thread ∈ Finset.univ.filter fun thread => roleOf thread = role,
        linesOf output thread := by
  induction output using List.reverseRecOn with
  | nil => simp [linesAs, linesOf]
  | append_singleton output line ih =>
      have here := agree line (by simp)
      have before := ih fun earlier member => agree earlier (by simp [member])
      simp only [linesAs_append, linesOf_append, Finset.sum_add_distrib, before,
        Finset.sum_ite_eq, Finset.mem_filter, Finset.mem_univ, true_and, here]

theorem linesAs_le (agree : ∀ line ∈ output, line.role = roleOf line.thread) {role : Role}
    {limit : Nat} (bounded : ∀ thread, roleOf thread = role → linesOf output thread ≤ limit) :
    linesAs output role ≤ limit * workers roleOf role := by
  rw [linesAs_eq_sum agree, Nat.mul_comm]
  apply Finset.sum_le_card_nsmul
  intro thread member
  exact bounded thread (Finset.mem_filter.mp member).2

theorem linesAs_eq (agree : ∀ line ∈ output, line.role = roleOf line.thread) {role : Role}
    {limit : Nat} (finished : ∀ thread, roleOf thread = role → linesOf output thread = limit) :
    linesAs output role = limit * workers roleOf role := by
  rw [linesAs_eq_sum agree, Nat.mul_comm]
  exact Finset.sum_const_nat fun thread member =>
    finished thread (Finset.mem_filter.mp member).2

/-- When producers are only left with the buffer full, and consumers only with the buffer
empty, then as much was produced and consumed as there could be. -/
theorem totals_of_left {repetitions : Role → Nat} {capacity : Nat} (positive : 0 < capacity)
    (agree : ∀ line ∈ output, line.role = roleOf line.thread)
    (bounded : ∀ thread, linesOf output thread ≤ repetitions (roleOf thread))
    (fits : linesAs output .consumer ≤ linesAs output .producer ∧
      linesAs output .producer ≤ linesAs output .consumer + capacity)
    (full : ∀ thread, roleOf thread = .producer → linesOf output thread ≠
      repetitions .producer → linesAs output .producer = linesAs output .consumer + capacity)
    (empty : ∀ thread, roleOf thread = .consumer → linesOf output thread ≠
      repetitions .consumer → linesAs output .producer = linesAs output .consumer) :
    linesAs output .producer = min (repetitions .producer * workers roleOf .producer)
        (repetitions .consumer * workers roleOf .consumer + capacity) ∧
      linesAs output .consumer = min (repetitions .consumer * workers roleOf .consumer)
        (repetitions .producer * workers roleOf .producer) := by
  have most (role : Role) :
      linesAs output role ≤ repetitions role * workers roleOf role := by
    apply linesAs_le agree
    rintro thread rfl
    exact bounded thread
  have whole {role : Role} (finished : ¬ ∃ thread, roleOf thread = role ∧
      linesOf output thread ≠ repetitions role) :
      linesAs output role = repetitions role * workers roleOf role := by
    apply linesAs_eq agree
    intro thread isRole
    by_contra left
    exact finished ⟨thread, isRole, left⟩
  have produced := most .producer
  have consumed := most .consumer
  by_cases producers : ∃ thread, roleOf thread = .producer ∧
      linesOf output thread ≠ repetitions .producer
  · obtain ⟨thread, isProducer, left⟩ := producers
    have isFull := full thread isProducer left
    have consumers : ¬ ∃ thread, roleOf thread = .consumer ∧
        linesOf output thread ≠ repetitions .consumer := by
      rintro ⟨other, isConsumer, otherLeft⟩
      have isEmpty := empty other isConsumer otherLeft
      omega
    have all := whole consumers
    omega
  · have all := whole producers
    by_cases consumers : ∃ thread, roleOf thread = .consumer ∧
        linesOf output thread ≠ repetitions .consumer
    · obtain ⟨thread, isConsumer, left⟩ := consumers
      have isEmpty := empty thread isConsumer left
      omega
    · have others := whole consumers
      omega

end ProducerConsumer

end Nachos
