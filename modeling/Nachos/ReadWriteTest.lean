import Nachos.MonitorClients
import Nachos.RWLock
import Nachos.SynchProgress

/-!
# The test of the reader-writer lock

`ReadWriteTest` of `threads/synchtest.cc`, with any threads.  In each of its sections a writer
stores its name in a variable, and a reader prints the name that it finds there.  The lock is
used as it is; what the threads do in the sections, and how often, is added to its code.
-/

namespace Nachos

open MesaMonitor TransitionRuns ThreadCounting

/-- A line that a thread prints in a section: the name at its end. -/
structure ReadWriteLine (Thread : Type) where
  use : RWLock.Use
  thread : Thread
  shown : String
  deriving DecidableEq

/-- The lock, the variable `name`, the loop variables of the threads, and what they printed. -/
structure ReadWriteTest (Thread : Type) where
  rwlock : RWLock
  name : String
  laps : Thread → Nat
  output : List (ReadWriteLine Thread)

namespace ReadWriteTest

variable {Thread : Type}

/-- The bound of the loops. -/
def repetitions : Nat := 2

/-- The points of `Reader` and `Writer`; between the loop variable's test and its increment a
thread is in the code of the lock, or in its section. -/
inductive Pc where
  | loop
  | within (pc : RWLock.Pc) (inside : pc ≠ .outside)
  | next
  deriving DecidableEq

namespace Pc

/-- The point in the code of the lock. -/
def point : Pc → RWLock.Pc
  | loop | next => .outside
  | within pc _ => pc

/-- Where `unlock` returns to. -/
def back (pc : RWLock.Pc) : Pc :=
  if inside : pc ≠ .outside then within pc inside else next

@[simp]
theorem point_back (pc : RWLock.Pc) : (back pc).point = pc := by
  unfold back
  split
  · rfl
  · next outside => exact (not_not.mp outside).symm

end Pc

/-- The call that begins a section. -/
def lockCall : RWLock.Use → RWLock.Pc
  | .read => .readAcquire
  | .write => .writeAcquire

/-- What a thread does in its section. -/
def perform (nameOf : Thread → String) (use : RWLock.Use) (thread : Thread)
    (s : ReadWriteTest Thread) : ReadWriteTest Thread :=
  let s :=
    match use with
    | .read => s
    | .write => { s with name := nameOf thread }
  { s with output := s.output ++ [⟨use, thread, s.name⟩] }

section Perform

variable (nameOf : Thread → String) (use : RWLock.Use) (thread : Thread)
  (s : ReadWriteTest Thread)

@[simp]
theorem perform_laps : (s.perform nameOf use thread).laps = s.laps := by
  cases use <;> rfl

theorem perform_output : (s.perform nameOf use thread).output =
    s.output ++ [⟨use, thread, (s.perform nameOf use thread).name⟩] := by
  cases use <;> rfl

end Perform

section Program

variable [DecidableEq Thread]

/-- The code of a thread.  It calls `Yield` in its section and behind it, as it can at any
point. -/
def code (roleOf : Thread → RWLock.Use) (nameOf : Thread → String) :
    Pc → Instr Thread (ReadWriteTest Thread) Pc Empty Unit RWLock.Queue Unit Fault
  | .loop => .run fun thread _ s => .ok (s,
      if s.laps thread < repetitions then .back (lockCall (roleOf thread)) else .loop)
  | .within (.inSection use) _ => .run fun thread _ s =>
      .ok (s.perform nameOf use thread, .back (.unlockAcquire use))
  | .within pc _ => (RWLock.code pc).within rwlock (fun s rw => { s with rwlock := rw }) .back
      fun thread _ => roleOf thread
  | .next => .run fun thread _ s =>
      .ok ({ s with laps := Function.update s.laps thread (s.laps thread + 1) }, .loop)

def program (roleOf : Thread → RWLock.Use) (nameOf : Thread → String) :
    FlowChart Thread (ReadWriteTest Thread) Pc Empty Unit RWLock.Queue Unit Fault where
  code := code roleOf nameOf
  lockOf := fun _ => ()
  interrupt := fun _ _ => none

end Program

/-- The start of the test. -/
def new : ReadWriteTest Thread :=
  ⟨.new, "Hello I am Mr.Winner!", fun _ => 0, []⟩

def boot : SynchSystem Thread (ReadWriteTest Thread) Pc Empty Unit RWLock.Queue :=
  .boot new (fun sem => sem.elim) fun _ => .loop

/-- What the last writer stored. -/
def nameAfter (nameOf : Thread → String) (output : List (ReadWriteLine Thread)) : String :=
  output.foldl (fun name line =>
    match line.use with
    | .read => name
    | .write => nameOf line.thread) (new : ReadWriteTest Thread).name

/-- What the thread printed last. -/
def lastShown [DecidableEq Thread] (output : List (ReadWriteLine Thread)) (thread : Thread) :
    Option String :=
  (output.filter fun line => line.thread = thread).getLast?.map ReadWriteLine.shown

/-- How often the thread printed. -/
def linesOf [DecidableEq Thread] (output : List (ReadWriteLine Thread)) (thread : Thread) : Nat :=
  output.countP fun line => line.thread = thread

section Use

variable [DecidableEq Thread] (roleOf : Thread → RWLock.Use) (nameOf : Thread → String)

/-- The test uses the lock as it is. -/
theorem uses : Uses (program roleOf nameOf) RWLock.program (fun _ => True) rwlock Pc.point where
  lockOf := rfl
  interrupt := fun _ _ _ _ _ pending => by cases pending
  code pc := by
    have known : ∀ pc inside, ((RWLock.code pc).within rwlock
        (fun (s : ReadWriteTest Thread) rw => { s with rwlock := rw }) .back
        fun thread (_ : Unit) => roleOf thread).Refines (fun _ => True) rwlock Pc.point
          (.within pc inside) (RWLock.code pc) := fun pc inside =>
      Instr.refines_within _ (fun _ _ => rfl) (fun _ _ _ => trivial) Pc.point_back _ _
    match pc with
    | .loop =>
        intro thread input before after target _ done
        cases done
        refine ⟨trivial, ?_⟩
        split
        · refine Or.inr ⟨_, roleOf thread, rfl, ?_⟩
          rw [Pc.point_back]
          cases roleOf thread <;> rfl
        · exact Or.inl ⟨rfl, rfl⟩
    | .next =>
        intro thread input before after target _ done
        cases done
        exact ⟨trivial, Or.inl ⟨rfl, rfl⟩⟩
    | .within (.inSection use) inside =>
        intro thread input before after target _ done
        cases done
        refine ⟨trivial, Or.inr ⟨_, roleOf thread, rfl, ?_⟩⟩
        rw [Pc.point_back]
        cases use <;> rfl
    | .within .outside inside => exact absurd rfl inside
    | .within .readAcquire _ | .within .readEnter _ | .within .readTest _ | .within .readWait _
    | .within .readRelease _ | .within .writeAcquire _ | .within .writeEnter _
    | .within .writeTest _ | .within .writeWait _ | .within .writeRelease _
    | .within (.unlockAcquire _) _ | .within (.unlockTest _) _ | .within .unlockBroadcast _
    | .within .unlockSignal _ | .within .unlockRelease _ =>
        exact known _ _

theorem labelled : (program roleOf nameOf).Labelled (RWLock.critical ∘ Pc.point) :=
  (uses roleOf nameOf).labelled (fun _ => trivial) RWLock.labelled

end Use

section Places

/-- The use whose code a point of the lock belongs to, where the point says it. -/
def lockUse : RWLock.Pc → Option RWLock.Use
  | .readAcquire | .readEnter | .readTest | .readWait | .readRelease => some .read
  | .writeAcquire | .writeEnter | .writeTest | .writeWait | .writeRelease => some .write
  | .inSection use | .unlockAcquire use | .unlockTest use => some use
  | .outside | .unlockBroadcast | .unlockSignal | .unlockRelease => none

/-- How many lines of its lap a thread has printed that is at a point of the lock. -/
def lockPrinted : RWLock.Pc → Nat
  | .outside | .unlockAcquire _ | .unlockTest _ | .unlockBroadcast | .unlockSignal
  | .unlockRelease => 1
  | _ => 0

/-- How many lines of its lap a thread has printed. -/
def Pc.printed : Pc → Nat
  | loop => 0
  | within pc _ => lockPrinted pc
  | next => 1

@[simp]
theorem Pc.printed_back (pc : RWLock.Pc) : (Pc.back pc).printed = lockPrinted pc := by
  unfold Pc.back
  split
  · rfl
  · next outside =>
    obtain rfl := not_not.mp outside
    rfl

/-- A step in the code of the lock from one point to another. -/
structure LockMove (pc target : RWLock.Pc) : Prop where
  use : ∀ use, lockUse target = some use → lockUse pc = some use
  printed : lockPrinted target = lockPrinted pc
  noCall : ∀ use, target ≠ .unlockAcquire use

theorem lockMove_readTest (rw : RWLock) : LockMove .readTest rw.readTest.2 := by
  unfold RWLock.readTest
  split
  · exact ⟨fun _ same => same, rfl, nofun⟩
  · exact ⟨fun _ same => same, rfl, nofun⟩

theorem lockMove_writeTest (rw : RWLock) : LockMove .writeTest rw.writeTest.2 := by
  unfold RWLock.writeTest
  split
  · exact ⟨fun _ same => same, rfl, nofun⟩
  · exact ⟨fun _ same => same, rfl, nofun⟩

theorem lockMove_unlockTest (rw : RWLock) (use : RWLock.Use) :
    LockMove (.unlockTest use) rw.unlockTest.2 := by
  have leaves : ∀ target, lockUse target = none → lockPrinted target = 1 →
      LockMove (.unlockTest use) target := by
    intro target noUse printed
    refine ⟨fun other named => ?_, printed, fun other same => ?_⟩
    · rw [noUse] at named
      cases named
    · rw [same] at noUse
      cases noUse
  unfold RWLock.unlockTest
  split
  · dsimp only
    split
    · exact leaves _ rfl rfl
    · split <;> exact leaves _ rfl rfl
  · split
    · dsimp only
      split <;> exact leaves _ rfl rfl
    · exact leaves _ rfl rfl

end Places

section Effect

variable [DecidableEq Thread]

/-- What a thread can do to the variables and to its point. -/
inductive Effect (roleOf : Thread → RWLock.Use) (nameOf : Thread → String) (thread : Thread)
    (s : ReadWriteTest Thread) : Pc → ReadWriteTest Thread → Pc → Prop
  | stay (pc : Pc) : Effect roleOf nameOf thread s pc s pc
  | start (left : s.laps thread < repetitions) :
      Effect roleOf nameOf thread s .loop s (.back (lockCall (roleOf thread)))
  | lock {pc target : RWLock.Pc} (inside : pc ≠ .outside) (rw : RWLock)
      (move : LockMove pc target) :
      Effect roleOf nameOf thread s (.within pc inside) { s with rwlock := rw } (.back target)
  | perform (use : RWLock.Use) (inside : RWLock.Pc.inSection use ≠ .outside) :
      Effect roleOf nameOf thread s (.within (.inSection use) inside)
        (s.perform nameOf use thread) (.back (.unlockAcquire use))
  | next : Effect roleOf nameOf thread s .next
      { s with laps := Function.update s.laps thread (s.laps thread + 1) } .loop

variable {roleOf : Thread → RWLock.Use} {nameOf : Thread → String} {thread : Thread}
  {s after : ReadWriteTest Thread}

/-- A call in the code of the lock changes no variable. -/
theorem Effect.call {pc target : RWLock.Pc} (inside : pc ≠ .outside) {reached : Pc}
    (leads : after = s ∧ (reached = .within pc inside ∨ reached = .back target))
    (move : LockMove pc target) :
    Effect roleOf nameOf thread s (.within pc inside) after reached := by
  obtain ⟨rfl, rfl | rfl⟩ := leads
  · exact .stay _
  · exact .lock inside after.rwlock move

theorem effect_of_leads {pc reached : Pc}
    (leads : SynchSystem.Leads thread () s pc after reached (code roleOf nameOf pc)) :
    Effect roleOf nameOf thread s pc after reached := by
  match pc with
  | .loop =>
      cases leads
      split
      · next left => exact .start left
      · exact .stay _
  | .next =>
      cases leads
      exact .next
  | .within (.inSection use) inside =>
      cases leads
      exact .perform use inside
  | .within .outside inside => exact absurd rfl inside
  | .within .readEnter inside =>
      cases leads
      exact .lock inside _ ⟨fun _ same => same, rfl, nofun⟩
  | .within .writeEnter inside =>
      cases leads
      exact .lock inside _ ⟨fun _ same => same, rfl, nofun⟩
  | .within .readTest inside =>
      cases leads
      exact .lock inside _ (lockMove_readTest _)
  | .within .writeTest inside =>
      cases leads
      exact .lock inside _ (lockMove_writeTest _)
  | .within (.unlockTest use) inside =>
      cases leads
      exact .lock inside _ (lockMove_unlockTest _ use)
  | .within .readAcquire inside | .within .readWait inside | .within .readRelease inside
  | .within .writeAcquire inside | .within .writeWait inside | .within .writeRelease inside
  | .within (.unlockAcquire _) inside =>
      exact .call inside leads ⟨fun _ same => same, rfl, nofun⟩
  | .within .unlockBroadcast inside | .within .unlockSignal inside
  | .within .unlockRelease inside => exact .call inside leads ⟨nofun, rfl, nofun⟩

end Effect

section Output

variable [DecidableEq Thread] {roleOf : Thread → RWLock.Use} {nameOf : Thread → String}
  {text : List (ReadWriteLine Thread)} {line : ReadWriteLine Thread} {thread other : Thread}
  {s after : ReadWriteTest Thread} {pc place target : Pc} {use : RWLock.Use}

omit [DecidableEq Thread] in
theorem nameAfter_append (text : List (ReadWriteLine Thread)) (line : ReadWriteLine Thread) :
    nameAfter nameOf (text ++ [line]) =
      match line.use with
      | .read => nameAfter nameOf text
      | .write => nameOf line.thread := by
  rw [nameAfter, List.foldl_append]
  rfl

theorem linesOf_append (text : List (ReadWriteLine Thread)) (line : ReadWriteLine Thread)
    (thread : Thread) : linesOf (text ++ [line]) thread =
      linesOf text thread + if line.thread = thread then 1 else 0 := by
  simp [linesOf, List.countP_append, List.countP_singleton]

theorem lastShown_append (own : line.thread = thread) :
    lastShown (text ++ [line]) thread = some line.shown := by
  simp [lastShown, own]

theorem lastShown_append_of_ne (different : line.thread ≠ thread) :
    lastShown (text ++ [line]) thread = lastShown text thread := by
  simp [lastShown, different]

/-- The progress of a thread at a point.  What it printed in its section is still the name
when it calls `unlock`. -/
structure Reached (roleOf : Thread → RWLock.Use) (s : ReadWriteTest Thread) (thread : Thread)
    (pc : Pc) : Prop where
  lines : linesOf s.output thread = s.laps thread + pc.printed
  use : ∀ use, lockUse pc.point = some use → use = roleOf thread
  laps : s.laps thread ≤ repetitions
  left : pc ≠ .loop → s.laps thread < repetitions
  shown : ∀ use, pc.point = .unlockAcquire use → lastShown s.output thread = some s.name

/-- The output agrees with the variable. -/
structure Output (roleOf : Thread → RWLock.Use) (nameOf : Thread → String)
    (s : ReadWriteTest Thread) : Prop where
  agree : ∀ line ∈ s.output, line.use = roleOf line.thread
  shown : ∀ before line after, s.output = before ++ line :: after →
    line.shown = nameAfter nameOf (before ++ [line])
  name : s.name = nameAfter nameOf s.output

theorem Effect.reached (effect : Effect roleOf nameOf thread s pc after target)
    (reached : Reached roleOf s thread pc) : Reached roleOf after thread target := by
  obtain ⟨lines, isUse, laps, left, shown⟩ := reached
  cases effect with
  | stay => exact ⟨lines, isUse, laps, left, shown⟩
  | start more =>
      constructor
      · rw [lines, Pc.printed_back]
        cases roleOf thread <;> rfl
      · rw [Pc.point_back]
        cases roleOf thread <;> exact fun use same => (Option.some.inj same).symm
      · exact laps
      · exact fun _ => more
      · rw [Pc.point_back]
        cases roleOf thread <;> exact nofun
  | lock inside rw move =>
      constructor
      · rw [Pc.printed_back, move.printed]
        exact lines
      · rw [Pc.point_back]
        exact fun use named => isUse use (move.use use named)
      · exact laps
      · exact fun _ => left (by simp)
      · rw [Pc.point_back]
        exact fun use same => absurd same (move.noCall use)
  | perform use inside =>
      constructor
      · rw [perform_output, linesOf_append, lines, perform_laps, Pc.printed_back, if_pos rfl]
        rfl
      · rw [Pc.point_back]
        exact isUse
      · rwa [perform_laps]
      · rw [perform_laps]
        exact fun _ => left (by simp)
      · rw [perform_output]
        exact fun _ _ => lastShown_append rfl
  | next =>
      constructor
      · dsimp only
        rw [lines, Function.update_self]
        rfl
      · exact nofun
      · dsimp only
        rw [Function.update_self]
        exact left (by simp)
      · exact fun different => absurd rfl different
      · exact nofun

/-- A step of one thread is no progress of another, and does not change the name while the
other is about to call `unlock`. -/
theorem Effect.reached_of_ne (effect : Effect roleOf nameOf thread s pc after target)
    (reached : Reached roleOf s other place) (different : other ≠ thread)
    (alone : pc.point = .inSection .write → ∀ use, place.point ≠ .unlockAcquire use) :
    Reached roleOf after other place := by
  obtain ⟨lines, isUse, laps, left, shown⟩ := reached
  cases effect with
  | stay | start | lock => exact ⟨lines, isUse, laps, left, shown⟩
  | perform use inside =>
      refine ⟨?_, isUse, ?_, ?_, fun call calls => ?_⟩
      · rw [perform_output, linesOf_append, lines, perform_laps, if_neg different.symm,
          Nat.add_zero]
      · rwa [perform_laps]
      · rwa [perform_laps]
      · rw [perform_output, lastShown_append_of_ne different.symm]
        cases use with
        | read => exact shown call calls
        | write => exact absurd calls (alone rfl call)
  | next =>
      have kept : Function.update s.laps thread (s.laps thread + 1) other = s.laps other :=
        Function.update_of_ne different _ _
      refine ⟨?_, isUse, ?_, ?_, shown⟩ <;> dsimp only
      · rwa [kept]
      · rwa [kept]
      · rwa [kept]

omit [DecidableEq Thread] in
/-- A thread prints a line. -/
theorem Output.perform (output : Output roleOf nameOf s) (isRole : use = roleOf thread) :
    Output roleOf nameOf (s.perform nameOf use thread) := by
  obtain ⟨agree, shown, name⟩ := output
  have named : (s.perform nameOf use thread).name =
      nameAfter nameOf (s.perform nameOf use thread).output := by
    rw [perform_output, nameAfter_append]
    cases use with
    | read => exact name
    | write => rfl
  refine ⟨?_, ?_, named⟩
  · rw [perform_output]
    exact List.forall_mem_append.mpr ⟨agree, List.forall_mem_singleton.mpr isRole⟩
  · intro before line after parts
    rcases List.eq_nil_or_concat after with rfl | ⟨rest, last, rfl⟩
    · rw [← parts, ← named]
      rw [perform_output] at parts
      obtain ⟨-, lines⟩ := List.append_inj' parts rfl
      obtain rfl := List.singleton_inj.mp lines
      rfl
    · apply shown before line rest
      rw [perform_output, List.concat_eq_append, ← List.cons_append, ← List.append_assoc] at parts
      exact (List.append_inj' parts rfl).1

theorem Effect.output (effect : Effect roleOf nameOf thread s pc after target)
    (output : Output roleOf nameOf s) (reached : Reached roleOf s thread pc) :
    Output roleOf nameOf after := by
  cases effect with
  | perform use inside => exact output.perform (reached.use use rfl)
  | stay | start | lock | next => exact ⟨output.agree, output.shown, output.name⟩

end Output

section Runs

variable [Fintype Thread] [DecidableEq Thread] {roleOf : Thread → RWLock.Use}
  {nameOf : Thread → String}
  {s next : SynchSystem Thread (ReadWriteTest Thread) Pc Empty Unit RWLock.Queue}

/-- The counters of the lock count the threads that use it. -/
def LockInvariant (s : State Thread (ReadWriteTest Thread) Pc Empty Unit RWLock.Queue) : Prop :=
  RWLock.Invariant (s.map rwlock Pc.point)

theorem alongRun_lockInvariant (roleOf : Thread → RWLock.Use) (nameOf : Thread → String)
    (actions : List (SynchSystem.Action Thread Unit)) :
    AlongRun (SynchSystem.step (program roleOf nameOf)) (fun s =>
      SynchSystem.Sound (program roleOf nameOf) s ∧
      Exclusive (RWLock.critical ∘ Pc.point) s.monitor ∧ LockInvariant s.monitor)
      boot actions := by
  refine SynchSystem.alongRun_of_monitor (labelled roleOf nameOf) (fun _ => rfl)
    RWLock.invariant_start ?_ actions
  intro s next exclusive queued invariant step
  obtain ⟨-, same | moves⟩ := (uses roleOf nameOf).step trivial step
  · rwa [LockInvariant, same]
  · exact RWLock.Invariant.step invariant (exclusive_map exclusive)
      ((uses roleOf nameOf).queued queued) moves

omit [Fintype Thread] in
theorem stage_eq_active (sound : SynchSystem.Sound (program roleOf nameOf) s) {thread : Thread}
    {pc : RWLock.Pc} (here : (s.threads thread).pc.point = pc)
    (noWait : ∀ cond target, (@RWLock.program Thread).code pc ≠ .wait cond target) :
    (s.monitor.map rwlock Pc.point).stage thread = .active pc := by
  have active : s.monitor.stage thread = .active (s.threads thread).pc := by
    apply sound.stageOf_eq_active
    intro cond target isWait
    apply noWait cond target.point
    rw [← here]
    exact (uses roleOf nameOf).known isWait
  change (s.monitor.stage thread).map Pc.point = _
  rw [active, Stage.map_active, here]

/-- While a writer is in its section no other thread is about to call `unlock`. -/
theorem alone_of_writing (sound : SynchSystem.Sound (program roleOf nameOf) s)
    (invariant : LockInvariant s.monitor) {thread : Thread}
    (writing : (s.threads thread).pc.point = .inSection .write) (other : Thread)
    (use : RWLock.Use) : (s.threads other).pc.point ≠ .unlockAcquire use := by
  intro leaving
  have writer := census_pos thread (stage_eq_active sound writing nofun)
  have another := census_pos other (stage_eq_active sound leaving nofun)
  have counted := invariant.1.activeReaders
  cases use <;> simp only [RWLock.users] at counted <;> omega

/-- What holds of the threads and of the output. -/
structure Invariant (roleOf : Thread → RWLock.Use) (nameOf : Thread → String)
    (s : SynchSystem Thread (ReadWriteTest Thread) Pc Empty Unit RWLock.Queue) : Prop where
  threads : ∀ thread, Reached roleOf s.vars thread (s.threads thread).pc
  output : Output roleOf nameOf s.vars

omit [Fintype Thread] in
theorem Invariant.start : Invariant roleOf nameOf (boot : SynchSystem Thread _ _ _ _ _) where
  threads thread := ⟨rfl, nofun, Nat.zero_le _, fun different => absurd rfl different, nofun⟩
  output := by
    refine ⟨nofun, ?_, rfl⟩
    intro before line after parts
    cases before <;> cases parts

theorem Invariant.step (invariant : Invariant roleOf nameOf s)
    (sound : SynchSystem.Sound (program roleOf nameOf) s) (locked : LockInvariant s.monitor)
    {action : SynchSystem.Action Thread Unit}
    (done : SynchSystem.step (program roleOf nameOf) s action = .ok next) :
    Invariant roleOf nameOf next := by
  obtain ⟨threads, output⟩ := invariant
  cases action with
  | interrupt input => cases done
  | thread thread input =>
      obtain ⟨others, leads⟩ := SynchSystem.stepThread_leads done
      have effect := effect_of_leads leads
      refine ⟨?_, effect.output output (threads thread)⟩
      intro other
      by_cases same : other = thread
      · subst same
        exact effect.reached (threads other)
      · rw [others other same]
        exact effect.reached_of_ne (threads other) same fun writing use =>
          alone_of_writing sound locked writing other use

omit [Fintype Thread] in
theorem locksOnly (roleOf : Thread → RWLock.Use) (nameOf : Thread → String) :
    SynchSystem.LocksOnly (program roleOf nameOf) where
  noP pc sem := sem.elim
  noV pc sem := sem.elim
  runs pc body thread input vars isRun := by
    match pc with
    | .loop | .next | .within (.inSection _) _ | .within .readEnter _ | .within .writeEnter _
    | .within .readTest _ | .within .writeTest _ | .within (.unlockTest _) _ =>
        cases isRun
        exact ⟨_, rfl⟩
    | .within .outside inside => exact absurd rfl inside
    | .within .readAcquire _ | .within .readWait _ | .within .readRelease _
    | .within .writeAcquire _ | .within .writeWait _ | .within .writeRelease _
    | .within (.unlockAcquire _) _ | .within .unlockBroadcast _ | .within .unlockSignal _
    | .within .unlockRelease _ => cases isRun

/-- The thread has gone through its loop as often as it should. -/
def Ended (s : SynchSystem Thread (ReadWriteTest Thread) Pc Empty Unit RWLock.Queue)
    (thread : Thread) : Prop :=
  s.threads thread = ⟨.loop, .call⟩ ∧ s.vars.laps thread = repetitions

/-- Only threads that have ended can still be dispatched. -/
def Stalled (roleOf : Thread → RWLock.Use) (nameOf : Thread → String)
    (s : SynchSystem Thread (ReadWriteTest Thread) Pc Empty Unit RWLock.Queue) : Prop :=
  ∀ thread, Ended s thread ∨ ¬ SynchSystem.CanStep (program roleOf nameOf) s thread

/-- When nothing more can happen no thread is left in the lock. -/
theorem ended_of_stalled (sound : SynchSystem.Sound (program roleOf nameOf) s)
    (exclusive : Exclusive (RWLock.critical ∘ Pc.point) s.monitor)
    (invariant : LockInvariant s.monitor)
    (fits : ∀ thread, SynchSystem.PhaseFits (program roleOf nameOf) (s.threads thread))
    {initial : SemRef Empty Unit → Int}
    (safe : SynchSystem.SemsSafe (program roleOf nameOf) initial s.sems s.threads s.history)
    (stalled : Stalled roleOf nameOf s) (thread : Thread) : Ended s thread := by
  have away : ∀ thread, Ended s thread → (s.threads thread).phase = .call ∧
      (RWLock.critical ∘ Pc.point) (s.threads thread).pc = none := by
    rintro thread ⟨here, -⟩
    rw [here]
    exact ⟨rfl, rfl⟩
  have places := sound.sleepWait_of_stuck exclusive (labelled roleOf nameOf)
    (locksOnly roleOf nameOf) fits safe away stalled
  -- Nobody uses the lock, was notified, or is inside.
  have nobody : ∀ pc, pc ≠ .outside →
      census (s.monitor.map rwlock Pc.point).stage (.active pc) = 0 := by
    intro pc inside
    rw [census_eq_zero_iff]
    intro other active
    rcases places other with ⟨here, -⟩ | phase
    · simp only [State.map, SynchSystem.monitor, here, SynchSystem.stageOf_call,
        Stage.map_active, Pc.point, Stage.active.injEq] at active
      exact inside active.symm
    · simp [State.map, SynchSystem.monitor, SynchSystem.stageOf, phase] at active
  have noneSignalled : ∀ pc,
      census (s.monitor.map rwlock Pc.point).stage (.signalled pc) = 0 := by
    intro pc
    rw [census_eq_zero_iff]
    intro other signalled
    rcases places other with ⟨here, -⟩ | phase
    · simp [State.map, SynchSystem.monitor, here] at signalled
    · simp [State.map, SynchSystem.monitor, SynchSystem.stageOf, phase] at signalled
  obtain ⟨counted, awake⟩ := invariant
  have noUsers : ∀ use, RWLock.users use (census (s.monitor.map rwlock Pc.point).stage) = 0 := by
    intro use
    rw [RWLock.users, nobody use.entered (by cases use <;> decide), nobody _ (by simp),
      nobody _ (by simp), nobody _ (by simp)]
  have unused : s.vars.rwlock.activeReaders = 0 := by
    rcases counted.activeReaders with ⟨-, reading⟩ | ⟨writing, -, -⟩
    · rwa [noUsers] at reading
    · rw [noUsers] at writing
      cases writing
  refine (places thread).resolve_right fun phase => ?_
  have waits : s.monitor.stage thread = .waiting (s.threads thread).pc := by
    simp only [SynchSystem.monitor, SynchSystem.stageOf, phase]
  obtain ⟨queue, target, isWait⟩ := sound.queued.atWait thread _ (Or.inl waits)
  have waiter : 0 < census (s.monitor.map rwlock Pc.point).stage (.waiting queue.waits) := by
    apply census_pos thread
    rw [← RWLock.eq_waits _ _ ((uses roleOf nameOf).known isWait)]
    exact congrArg (Stage.map Pc.point) waits
  cases queue with
  | conReader =>
      have writing := awake.readersWait waiter
      rw [nobody .unlockBroadcast (by decide)] at writing
      change s.vars.rwlock.activeReaders < 0 ∨ _ at writing
      omega
  | conWriter =>
      have notified := awake.writersWait unused waiter
      rw [noneSignalled, noneSignalled, nobody .readTest (by decide),
        nobody .writeTest (by decide), nobody .unlockBroadcast (by decide),
        nobody .unlockSignal (by decide)] at notified
      omega

/-- In every state that a run of any readers and writers reaches, what a reader printed is what
the last writer before it had stored, no thread prints more than it should or in the section of
another role, no assertion fails, and while a thread is in its section the name is the one that
it printed.  When only threads that have ended can go on, all have printed all of their
lines. -/
theorem readWriteTest (roleOf : Thread → RWLock.Use) (nameOf : Thread → String)
    (actions : List (SynchSystem.Action Thread Unit)) :
    AlongRun (SynchSystem.step (program roleOf nameOf)) (fun s =>
      (∀ before line after, s.vars.output = before ++ line :: after →
        line.shown = nameAfter nameOf (before ++ [line])) ∧
      (∀ line ∈ s.vars.output, line.use = roleOf line.thread) ∧
      (∀ thread, linesOf s.vars.output thread ≤ repetitions) ∧
      (∀ thread use, (s.threads thread).pc.point = .unlockAcquire use →
        lastShown s.vars.output thread = some s.vars.name) ∧
      (∀ action reason,
        SynchSystem.step (program roleOf nameOf) s action ≠ .error (.fault reason)) ∧
      (Stalled roleOf nameOf s → ∀ thread, linesOf s.vars.output thread = repetitions))
      boot actions := by
  have locked := alongRun_lockInvariant roleOf nameOf actions
  have kept := locked.keeps (fun s action next ⟨sound, _, locked⟩ invariant done =>
    Invariant.step invariant sound locked done) Invariant.start
  have progress := (locked.and kept).and
    (SynchSystem.alongRun_progress new (fun sem => sem.elim) (fun _ => Pc.loop) actions)
  apply progress.mono
  rintro s ⟨⟨⟨sound, exclusive, locked⟩, threads, output⟩, initial, -, safe, fits⟩
  refine ⟨output.shown, output.agree, ?_, fun thread => (threads thread).shown, ?_, ?_⟩
  · intro thread
    obtain ⟨lines, -, laps, left, -⟩ := threads thread
    rw [lines]
    cases pc : (s.threads thread).pc with
    | loop => exact laps
    | next => exact left (by rw [pc]; nofun)
    | within point inside =>
        have more := left (by rw [pc]; nofun)
        cases point <;> simp only [Pc.printed, lockPrinted] <;> omega
  · intro action reason failed
    rcases sound.step_fault exclusive (labelled roleOf nameOf) failed with
      ⟨thread, input, body, -, isRun, -, failed⟩ | ⟨input, pending⟩
    · obtain ⟨result, done⟩ := (locksOnly roleOf nameOf).runs _ body thread input s.vars isRun
      rw [done] at failed
      cases failed
    · cases pending
  · intro stalled thread
    obtain ⟨here, laps⟩ := ended_of_stalled sound exclusive locked fits safe stalled thread
    have lines := (threads thread).lines
    rwa [here, laps] at lines

end Runs

end ReadWriteTest

end Nachos
