import Mathlib.Algebra.Ring.Int.Defs
import Nachos.BarrierRound
import Nachos.MonitorClients

/-!
# The test of the barrier

`BarrierTest` of `threads/synchtest.cc`, with any threads.  Each of them puts a number into an
array before it enters the barrier, which the threads fill without a lock; the first one to
leave prints the sum.  The barrier is used as it is: what it calls and what the threads do
around it is added to its code.
-/

namespace Nachos

open MesaMonitor TransitionRuns ThreadCounting

/-- A line of output: the announcement of a number, the sum that `BarrierProcess` prints, and the
line of a thread that crossed the barrier, whose `printf` is passed no number. -/
inductive BarrierLine (Thread : Type) where
  | putting (thread : Thread) (num : Int)
  | sum (cnt : Nat) (numbers : List Int) (total : Int)
  | crossed (thread : Thread)
  deriving DecidableEq

/-- The global variables that `BarrierProcess` works on, and the output. -/
structure BarrierTest (Thread : Type) where
  total : Int
  memnum : List Int
  cnt : Nat
  output : List (BarrierLine Thread)
  length : memnum.length = 20
  fits : cnt ≤ 20

namespace BarrierTest

variable {Thread : Type}

/-- The variables as they are when the program starts. -/
def new : BarrierTest Thread :=
  ⟨0, List.replicate 20 0, 0, [], List.length_replicate, Nat.zero_le 20⟩

/-- `BarrierProcess`.  The first number is printed before the loop over the others. -/
def barrierProcess (num : Int) (s : BarrierTest Thread) : Except Fault (BarrierTest Thread) :=
  if num = -1 then
    .ok { (new : BarrierTest Thread) with
      output := s.output ++ [.sum s.cnt (s.memnum.take (max 1 s.cnt)) s.total] }
  else if fits : s.cnt < 20 then
    .ok { s with
      total := s.total + num
      memnum := s.memnum.set s.cnt num
      cnt := s.cnt + 1
      length := by rw [List.length_set, s.length]
      fits := fits }
  else .error .outOfBounds

/-- What the barrier calls: with -1, so that the call does not fail. -/
def processFunction (num : Int) (s : BarrierTest Thread) : BarrierTest Thread :=
  match s.barrierProcess num with
  | .ok after => after
  | .error _ => s

def print (line : BarrierLine Thread) (s : BarrierTest Thread) : BarrierTest Thread :=
  { s with output := s.output ++ [line] }

/-- The points of `BarrierFunction`, in which a thread calls `enterBarrier` once. -/
inductive Pc where
  | put
  | enter
  | within (pc : Barrier.Pc) (inside : pc ≠ .outside)
  | cross
  | done
  deriving DecidableEq

namespace Pc

/-- The point in the code of the barrier. -/
def point : Pc → Barrier.Pc
  | put | enter | cross | done => .outside
  | within pc _ => pc

/-- Where `enterBarrier` returns to. -/
def back (pc : Barrier.Pc) : Pc :=
  if inside : pc ≠ .outside then within pc inside else cross

@[simp]
theorem point_back (pc : Barrier.Pc) : (back pc).point = pc := by
  unfold back
  split
  · rfl
  · next outside => exact (not_not.mp outside).symm

theorem back_ne (pc : Barrier.Pc) : back pc ≠ .put ∧ back pc ≠ .enter ∧ back pc ≠ .done := by
  unfold back
  split <;> exact ⟨nofun, nofun, nofun⟩

end Pc

section Program

variable [DecidableEq Thread]

/-- `BarrierFunction`. -/
def code (idOf : Thread → Int) :
    Pc → Instr Thread (Barrier.Vars Thread (BarrierTest Thread)) Pc Empty Unit Unit Unit Fault
  | .put => .run fun thread _ vars => do
      let num := 2 * idOf thread
      let world ← (vars.world.print (.putting thread num)).barrierProcess num
      return ({ vars with world := world }, .enter)
  | .enter => (Barrier.code 1 .outside).within id (fun _ vars => vars) .back fun _ input => input
  | .within pc _ => (Barrier.code 1 pc).within id (fun _ vars => vars) .back fun _ input => input
  | .cross => .run fun thread _ vars =>
      .ok ({ vars with world := vars.world.print (.crossed thread) }, .done)
  | .done => .run fun _ _ vars => .ok (vars, .done)

def program (idOf : Thread → Int) :
    FlowChart Thread (Barrier.Vars Thread (BarrierTest Thread)) Pc Empty Unit Unit Unit Fault where
  code := code idOf
  lockOf := fun _ => ()
  interrupt := fun _ _ => none

end Program

/-- The start of the test, with a barrier for all of its threads. -/
def boot [Fintype Thread] :
    SynchSystem Thread (Barrier.Vars Thread (BarrierTest Thread)) Pc Empty Unit Unit :=
  .boot (.new (Fintype.card Thread) (some processFunction) new) (fun sem => sem.elim) fun _ => .put

section Use

variable [DecidableEq Thread] (idOf : Thread → Int)

/-- The barrier, when it is forgotten what its function works on. -/
def idle (vars : Barrier.Vars Thread (BarrierTest Thread)) : Barrier.Vars Thread Unit where
  barrier := { vars.barrier with
    processFunction := vars.barrier.processFunction.map fun _ _ _ => () }
  world := ()
  calls := vars.calls
  arrivals := vars.arrivals
  returns := vars.returns

/-- The code of the barrier does not depend on what its function works on. -/
theorem refines_idle {pc : Pc} {known : Barrier.Pc} (here : pc.point = known) :
    ((Barrier.code 1 known).within id (fun _ vars => vars) Pc.back
      fun (_ : Thread) (input : Unit) => input).Refines (fun _ => True) (@idle Thread) Pc.point pc
        (Barrier.code 1 known) := by
  cases known with
  | acquire | wait | broadcast | release =>
      simp only [Barrier.code, Instr.within, Instr.Refines, Pc.point_back]
  | outside =>
      intro thread input before after target _ done
      dsimp only [id] at done
      by_cases first : before.calls thread < 1
      · rw [if_pos first] at done
        cases done
        refine ⟨trivial, Or.inr ⟨_, (), rfl, ?_⟩⟩
        rw [Pc.point_back]
        exact if_pos first
      · rw [if_neg first] at done
        cases done
        refine ⟨trivial, Or.inl ⟨rfl, ?_⟩⟩
        rw [Pc.point_back, here]
  | decrement | test | process | returned =>
      intro thread input before after target _ done
      cases done
      refine ⟨trivial, Or.inr ⟨_, (), rfl, ?_⟩⟩
      rw [Pc.point_back]
      rfl

/-- The test uses the barrier as it is. -/
theorem uses : Uses (program idOf) (Barrier.program 1) (fun _ => True) idle Pc.point where
  lockOf := rfl
  interrupt := fun _ _ _ _ _ pending => by cases pending
  code pc := by
    cases pc with
    | enter => exact refines_idle rfl
    | within pc inside => exact refines_idle rfl
    | put =>
        intro thread input before after target _ done
        obtain ⟨world, -, stored⟩ := bind_eq_ok_iff.mp done
        cases stored
        exact ⟨trivial, Or.inl ⟨rfl, rfl⟩⟩
    | cross | done =>
        intro thread input before after target _ done
        cases done
        exact ⟨trivial, Or.inl ⟨rfl, rfl⟩⟩

theorem labelled : (program idOf).Labelled (Barrier.critical ∘ Pc.point) :=
  (uses idOf).labelled (fun _ => trivial) Barrier.labelled

end Use

section Process

variable {idOf : Thread → Int} {s : BarrierTest Thread} {puts crossed : List Thread}
  {thread : Thread}

/-- The line that a thread prints with its number. -/
def putLine (idOf : Thread → Int) (thread : Thread) : BarrierLine Thread :=
  .putting thread (2 * idOf thread)

/-- The sum of the numbers of the threads, in the order in which they put them. -/
def sumLine (idOf : Thread → Int) (puts : List Thread) : BarrierLine Thread :=
  .sum puts.length (puts.map fun thread => 2 * idOf thread)
    (puts.map fun thread => 2 * idOf thread).sum

/-- The output once the sum was printed. -/
def outputOf (idOf : Thread → Int) (puts crossed : List Thread) : List (BarrierLine Thread) :=
  puts.map (putLine idOf) ++ sumLine idOf puts :: crossed.map .crossed

/-- The numbers of some threads are in the array. -/
structure Filled (idOf : Thread → Int) (s : BarrierTest Thread) (puts : List Thread) : Prop where
  output : s.output = puts.map (putLine idOf)
  cnt : s.cnt = puts.length
  numbers : s.memnum.take s.cnt = puts.map fun thread => 2 * idOf thread
  total : s.total = (puts.map fun thread => 2 * idOf thread).sum

theorem barrierProcess_put (room : s.cnt < 20) (thread : Thread) :
    ∃ after, s.barrierProcess (2 * idOf thread) = .ok after := by
  unfold barrierProcess
  rw [if_neg (by omega), dif_pos room]
  exact ⟨_, rfl⟩

/-- A thread puts its number. -/
theorem Filled.put (filled : Filled idOf s puts) {after : BarrierTest Thread}
    (done : (s.print (putLine idOf thread)).barrierProcess (2 * idOf thread) = .ok after) :
    Filled idOf after (puts ++ [thread]) := by
  obtain ⟨output, cnt, numbers, total⟩ := filled
  unfold barrierProcess at done
  rw [if_neg (by omega)] at done
  split at done
  · next room =>
    cases done
    have inside : s.cnt < s.memnum.length := by
      rw [s.length]
      exact room
    constructor
    · simp [print, output]
    · simp [print, cnt]
    · simp only [print, List.map_append, List.map_singleton]
      rw [List.take_add_one, List.getElem?_set_self inside, List.take_set_of_le (le_refl _),
        numbers]
      rfl
    · simp [print, total]
  · cases done

/-- The sum is printed, and the variables are reset. -/
theorem Filled.process (filled : Filled idOf s puts) (member : thread ∈ puts) :
    processFunction (-1) s =
      { (new : BarrierTest Thread) with output := outputOf idOf puts [] } := by
  obtain ⟨output, cnt, numbers, total⟩ := filled
  have some : 1 ≤ s.cnt := by
    rw [cnt]
    exact List.length_pos_of_mem member
  unfold processFunction barrierProcess
  rw [if_pos rfl]
  dsimp only
  rw [max_eq_right some, numbers, total, cnt, output]
  rfl

end Process

section Effect

variable [DecidableEq Thread]

/-- What a thread can do to the variables and to its point. -/
inductive Effect (idOf : Thread → Int) (thread : Thread)
    (s : Barrier.Vars Thread (BarrierTest Thread)) :
    Pc → Barrier.Vars Thread (BarrierTest Thread) → Pc → Prop
  | stay (pc : Pc) : Effect idOf thread s pc s pc
  | put {world : BarrierTest Thread}
      (done : (s.world.print (putLine idOf thread)).barrierProcess (2 * idOf thread) =
        .ok world) : Effect idOf thread s .put { s with world := world } .enter
  | enter (first : s.calls thread < 1) : Effect idOf thread s .enter
      { s with calls := Function.update s.calls thread (s.calls thread + 1) } (.back .acquire)
  | again (called : ¬ s.calls thread < 1) : Effect idOf thread s .enter s (.back .outside)
  | move {pc target : Barrier.Pc} {after : Barrier.Vars Thread (BarrierTest Thread)}
      (inside : pc ≠ .outside) (world : after.world = s.world) (calls : after.calls = s.calls)
      (function : after.barrier.processFunction = s.barrier.processFunction) :
      Effect idOf thread s (.within pc inside) after (.back target)
  | process (inside : Barrier.Pc.process ≠ .outside) :
      Effect idOf thread s (.within .process inside) s.process (.back .broadcast)
  | cross : Effect idOf thread s .cross
      { s with world := s.world.print (.crossed thread) } .done

variable {idOf : Thread → Int} {thread : Thread}
  {s after : Barrier.Vars Thread (BarrierTest Thread)}

/-- A call in the code of the barrier changes no variable. -/
theorem Effect.call {pc target : Barrier.Pc} (inside : pc ≠ .outside) {reached : Pc}
    (leads : after = s ∧ (reached = .within pc inside ∨ reached = .back target)) :
    Effect idOf thread s (.within pc inside) after reached := by
  obtain ⟨rfl, rfl | rfl⟩ := leads
  · exact .stay _
  · exact .move inside rfl rfl rfl

theorem effect_of_leads {pc reached : Pc}
    (leads : SynchSystem.Leads thread () s pc after reached (code idOf pc)) :
    Effect idOf thread s pc after reached := by
  match pc with
  | .put =>
      obtain ⟨world, done, stored⟩ := bind_eq_ok_iff.mp leads
      cases stored
      exact .put done
  | .enter =>
      by_cases first : s.calls thread < 1
      · simp only [SynchSystem.Leads, code, Instr.within, Barrier.code, id, if_pos first] at leads
        cases leads
        exact .enter first
      · simp only [SynchSystem.Leads, code, Instr.within, Barrier.code, id, if_neg first] at leads
        cases leads
        exact .again first
  | .cross =>
      cases leads
      exact .cross
  | .done =>
      cases leads
      exact .stay _
  | .within .process inside =>
      cases leads
      exact .process inside
  | .within .outside inside => exact absurd rfl inside
  | .within .decrement inside | .within .test inside | .within .returned inside =>
      cases leads
      exact .move inside rfl rfl rfl
  | .within .acquire inside | .within .wait inside | .within .broadcast inside
  | .within .release inside => exact .call inside leads

end Effect

section Invariant

variable [DecidableEq Thread] {idOf : Thread → Int} {thread other : Thread}
  {vars after : Barrier.Vars Thread (BarrierTest Thread)} {pc target : Pc}
  {puts crossed : List Thread}

/-- The barrier still has its function until the sum is printed. -/
inductive Text (idOf : Thread → Int) (vars : Barrier.Vars Thread (BarrierTest Thread))
    (puts : List Thread) : List Thread → Prop
  | filling (function : vars.barrier.processFunction = some processFunction)
      (filled : Filled idOf vars.world puts) : Text idOf vars puts []
  | printed {crossed : List Thread} (function : vars.barrier.processFunction = none)
      (all : ∀ thread, thread ∈ puts)
      (world : vars.world = { (new : BarrierTest Thread) with
        output := outputOf idOf puts crossed }) : Text idOf vars puts crossed

/-- What a thread at a point has printed, and whether it has called `enterBarrier`. -/
structure Reached (vars : Barrier.Vars Thread (BarrierTest Thread)) (puts crossed : List Thread)
    (thread : Thread) (pc : Pc) : Prop where
  puts : thread ∈ puts ↔ pc ≠ .put
  crossed : thread ∈ crossed ↔ pc = .done
  calls : vars.calls thread = if pc = .put ∨ pc = .enter then 0 else 1

omit [DecidableEq Thread] in
theorem Reached.back {known : Barrier.Pc} (member : thread ∈ puts) (inside : thread ∉ crossed)
    (called : vars.calls thread = 1) : Reached vars puts crossed thread (.back known) := by
  obtain ⟨noPut, noEnter, noDone⟩ := Pc.back_ne known
  refine ⟨iff_of_true member noPut, iff_of_false inside noDone, ?_⟩
  rw [called, if_neg (not_or.mpr ⟨noPut, noEnter⟩)]

omit [DecidableEq Thread] in
/-- Between its number and its end a thread has put the number and not crossed. -/
theorem Reached.between (reached : Reached vars puts crossed thread pc) (noPut : pc ≠ .put)
    (noDone : pc ≠ .done) : thread ∈ puts ∧ thread ∉ crossed :=
  ⟨reached.puts.mpr noPut, fun member => noDone (reached.crossed.mp member)⟩

/-- What holds of the threads and of the output, when some threads put their numbers and some
crossed the barrier. -/
structure Progress (idOf : Thread → Int) (vars : Barrier.Vars Thread (BarrierTest Thread))
    (place : Thread → Pc) (puts crossed : List Thread) : Prop where
  putsNodup : puts.Nodup
  crossedNodup : crossed.Nodup
  reached : ∀ thread, Reached vars puts crossed thread (place thread)
  text : Text idOf vars puts crossed

variable {place moved : Thread → Pc}

/-- A thread goes on, and the lists stay as they are. -/
theorem Progress.go (progress : Progress idOf vars place puts crossed)
    (others : ∀ other, other ≠ thread → moved other = place other)
    (calls : ∀ other, other ≠ thread → after.calls other = vars.calls other)
    (reached : Reached after puts crossed thread (moved thread))
    (text : Text idOf after puts crossed) : Progress idOf after moved puts crossed := by
  refine ⟨progress.putsNodup, progress.crossedNodup, fun other => ?_, text⟩
  by_cases same : other = thread
  · subst same
    exact reached
  · obtain ⟨isPut, isCrossed, called⟩ := progress.reached other
    rw [others other same]
    exact ⟨isPut, isCrossed, (calls other same).trans called⟩

/-- A thread puts its number. -/
theorem Progress.put (progress : Progress idOf vars place puts crossed)
    (others : ∀ other, other ≠ thread → moved other = place other) {world : BarrierTest Thread}
    (source : place thread = .put) (target : moved thread = .enter)
    (filling : vars.barrier.processFunction ≠ none)
    (done : (vars.world.print (putLine idOf thread)).barrierProcess (2 * idOf thread) =
      .ok world) :
    Progress idOf { vars with world := world } moved (puts ++ [thread]) crossed := by
  obtain ⟨putsNodup, crossedNodup, reached, text⟩ := progress
  obtain ⟨isPut, isCrossed, called⟩ := reached thread
  have fresh : thread ∉ puts := fun member => isPut.mp member source
  refine ⟨?_, crossedNodup, fun other => ?_, ?_⟩
  · rw [← List.concat_eq_append]
    exact putsNodup.concat fresh
  · by_cases same : other = thread
    · subst same
      rw [source] at isCrossed called
      rw [target]
      exact ⟨by simp, isCrossed.trans (by simp), called⟩
    · obtain ⟨isPut, isCrossed, called⟩ := reached other
      rw [others other same]
      exact ⟨by simpa [same] using isPut, isCrossed, called⟩
  · cases text with
    | filling function filled => exact .filling function (filled.put done)
    | printed function => exact absurd function filling

/-- A thread crosses the barrier. -/
theorem Progress.cross (progress : Progress idOf vars place puts crossed)
    (others : ∀ other, other ≠ thread → moved other = place other)
    (source : place thread = .cross) (target : moved thread = .done)
    (printed : vars.barrier.processFunction = none) :
    Progress idOf { vars with world := vars.world.print (.crossed thread) } moved puts
      (crossed ++ [thread]) := by
  obtain ⟨putsNodup, crossedNodup, reached, text⟩ := progress
  obtain ⟨isPut, isCrossed, called⟩ := reached thread
  have fresh := ((reached thread).between (by simp [source]) (by simp [source])).2
  rw [source] at isPut called
  refine ⟨putsNodup, ?_, fun other => ?_, ?_⟩
  · rw [← List.concat_eq_append]
    exact crossedNodup.concat fresh
  · by_cases same : other = thread
    · subst same
      rw [target]
      exact ⟨isPut.trans (by simp), by simp, called⟩
    · obtain ⟨isPut, isCrossed, called⟩ := reached other
      rw [others other same]
      exact ⟨isPut, by simpa [same] using isCrossed, called⟩
  · cases text with
    | filling function =>
        rw [function] at printed
        cases printed
    | printed function all world =>
        refine .printed function all ?_
        dsimp only
        rw [world]
        simp [print, outputOf]

omit [DecidableEq Thread] in
/-- The first thread to leave prints the sum. -/
theorem Text.process (text : Text idOf vars puts crossed) (member : thread ∈ puts)
    (all : vars.barrier.processFunction ≠ none → ∀ other, other ∈ puts) :
    Text idOf vars.process puts crossed := by
  cases text with
  | filling function filled =>
      refine .printed rfl (all (by simp [function])) ?_
      simp only [Barrier.Vars.process, function]
      exact filled.process member
  | printed function complete world =>
      refine .printed rfl complete ?_
      simp only [Barrier.Vars.process, function]
      exact world

/-- A step of a thread, where the barrier lets no thread put its number when it is open, print
the sum before all have put theirs, or cross before the sum. -/
theorem Progress.effect (progress : Progress idOf vars place puts crossed)
    (others : ∀ other, other ≠ thread → moved other = place other)
    (effect : Effect idOf thread vars (place thread) after (moved thread))
    (filling : place thread = .put → vars.barrier.processFunction ≠ none)
    (all : (place thread).point = .process → vars.barrier.processFunction ≠ none →
      ∀ other, other ∈ puts)
    (printed : place thread = .cross → vars.barrier.processFunction = none) :
    ∃ puts crossed, Progress idOf after moved puts crossed := by
  have text := progress.text
  have between := (progress.reached thread).between
  obtain ⟨isPut, isCrossed, called⟩ := progress.reached thread
  generalize source : place thread = pc at effect filling all printed between isPut isCrossed called
  generalize there : moved thread = target at effect
  have goes : ∀ {after}, (∀ other, other ≠ thread → after.calls other = vars.calls other) →
      Reached after puts crossed thread target → Text idOf after puts crossed →
        ∃ puts crossed, Progress idOf after moved puts crossed := by
    intro after calls reached text
    rw [← there] at reached
    exact ⟨puts, crossed, progress.go others calls reached text⟩
  cases effect with
  | stay =>
      exact goes (fun _ _ => rfl) ⟨isPut, isCrossed, called⟩ text
  | put done => exact ⟨_, _, progress.put others source there (filling rfl) done⟩
  | cross => exact ⟨_, _, progress.cross others source there (printed rfl)⟩
  | enter first =>
      obtain ⟨member, uncrossed⟩ := between (by simp) (by simp)
      refine goes ?_ ?_ ?_
      · exact fun other different => Function.update_of_ne different _ _
      · refine .back member uncrossed ?_
        dsimp only
        rw [Function.update_self, called]
        rfl
      · cases text with
        | filling function filled => exact .filling function filled
        | printed function complete world => exact .printed function complete world
  | again more =>
      rw [called] at more
      exact absurd (by decide) more
  | move inside world calls function =>
      obtain ⟨member, uncrossed⟩ := between (by simp) (by simp)
      refine goes (fun other _ => congrFun calls other) ?_ ?_
      · refine .back member uncrossed ?_
        rw [calls, called]
        rfl
      · cases text with
        | filling filling filled =>
            exact .filling (function.trans filling) (by rwa [world])
        | printed printed complete text =>
            exact .printed (function.trans printed) complete (world.trans text)
  | process inside =>
      obtain ⟨member, uncrossed⟩ := between (by simp) (by simp)
      exact goes (fun _ _ => rfl) (.back member uncrossed called) (text.process member (all rfl))

end Invariant

section Runs

variable [Fintype Thread] [DecidableEq Thread] {idOf : Thread → Int}
  {s next : SynchSystem Thread (Barrier.Vars Thread (BarrierTest Thread)) Pc Empty Unit Unit}
  {thread : Thread}

/-- The barrier is in its first round. -/
def RoundInvariant
    (s : State Thread (Barrier.Vars Thread (BarrierTest Thread)) Pc Empty Unit Unit) : Prop :=
  Barrier.RoundInvariant (fun _ _ => ()) () (s.map idle Pc.point)

theorem alongRun_roundInvariant (idOf : Thread → Int)
    (actions : List (SynchSystem.Action Thread Unit)) :
    AlongRun (SynchSystem.step (program idOf)) (fun s =>
      SynchSystem.Sound (program idOf) s ∧
      Exclusive (Barrier.critical ∘ Pc.point) s.monitor ∧ RoundInvariant s.monitor)
      boot actions := by
  refine SynchSystem.alongRun_of_monitor (labelled idOf) (fun _ => rfl) ?_ ?_ actions
  · exact ⟨Barrier.Invariant.start 1 (some fun _ _ => ()) (), Barrier.Round.start _ _ ()⟩
  · intro s next exclusive queued invariant step
    obtain ⟨-, same | moves⟩ := (uses idOf).step trivial step
    · rwa [RoundInvariant, same]
    · obtain ⟨invariant, round⟩ := invariant
      exact ⟨invariant.step moves,
        round.step invariant (exclusive_map exclusive) ((uses idOf).queued queued) moves⟩

omit [Fintype Thread] in
theorem stage_eq_active (sound : SynchSystem.Sound (program idOf) s) {pc : Barrier.Pc}
    (here : (s.threads thread).pc.point = pc)
    (noWait : ∀ cond target,
      (Barrier.program 1 : FlowChart Thread (Barrier.Vars Thread Unit) _ _ _ _ _ _).code pc ≠
        .wait cond target) :
    (s.monitor.map idle Pc.point).stage thread = .active pc := by
  have active : s.monitor.stage thread = .active (s.threads thread).pc := by
    apply sound.stageOf_eq_active
    intro cond target isWait
    apply noWait cond target.point
    rw [← here]
    exact (uses idOf).known isWait
  change (s.monitor.stage thread).map Pc.point = _
  rw [active, Stage.map_active, here]

omit [DecidableEq Thread] in
/-- While the count is used up all threads have arrived. -/
theorem calls_pos (round : RoundInvariant s.monitor) (last : s.vars.barrier.remaining ≤ 0)
    (thread : Thread) : 1 ≤ s.vars.calls thread := by
  obtain ⟨invariant, -⟩ := round
  have arrived := invariant.arrived (le_refl 1) last thread
  have bound := (invariant.threads thread).arrivals
  change 1 ≤ s.vars.arrivals thread at arrived
  change s.vars.arrivals thread + _ ≤ s.vars.calls thread at bound
  omega

omit [DecidableEq Thread] in
/-- The barrier has its function as long as some thread has not called. -/
theorem function_of_early (round : RoundInvariant s.monitor) (early : s.vars.calls thread = 0) :
    s.vars.barrier.processFunction ≠ none := by
  intro none
  rcases round.2.function with uncalled | called
  · have function : s.vars.barrier.processFunction.map (fun _ _ _ => ()) = some fun _ _ => () :=
      uncalled.function
    rw [none] at function
    cases function
  · have late := calls_pos round called.remaining thread
    omega

omit [DecidableEq Thread] in
/-- A thread that has returned leaves the barrier without its function. -/
theorem function_of_returned (round : RoundInvariant s.monitor)
    (outside : (s.monitor.map idle Pc.point).stage thread = .active .outside)
    (called : s.vars.calls thread = 1) : s.vars.barrier.processFunction = none := by
  have recorded := (round.2.recorded thread).returns
  rw [outside] at recorded
  change s.vars.returns thread + 0 = s.vars.calls thread at recorded
  rcases round.2.function with uncalled | reset
  · have returns : s.vars.returns thread = 0 := uncalled.returns thread
    omega
  · exact Option.map_eq_none_iff.mp reset.function

/-- What holds of the threads and of the output. -/
def Invariant (idOf : Thread → Int)
    (s : SynchSystem Thread (Barrier.Vars Thread (BarrierTest Thread)) Pc Empty Unit Unit) :
    Prop :=
  ∃ puts crossed, Progress idOf s.vars (fun thread => (s.threads thread).pc) puts crossed

omit [DecidableEq Thread] in
theorem Invariant.start : Invariant idOf (boot : SynchSystem Thread _ _ _ _ _) := by
  refine ⟨[], [], List.nodup_nil, List.nodup_nil, fun thread => ?_, ?_⟩
  · exact ⟨by simp [boot, SynchSystem.boot], by simp [boot, SynchSystem.boot], rfl⟩
  · exact .filling rfl ⟨rfl, rfl, rfl, rfl⟩

theorem Invariant.step (invariant : Invariant idOf s)
    (sound : SynchSystem.Sound (program idOf) s) (round : RoundInvariant s.monitor)
    {action : SynchSystem.Action Thread Unit}
    (done : SynchSystem.step (program idOf) s action = .ok next) : Invariant idOf next := by
  obtain ⟨puts, crossed, progress⟩ := invariant
  cases action with
  | interrupt input => cases done
  | thread thread input =>
      obtain ⟨others, leads⟩ := SynchSystem.stepThread_leads done
      apply progress.effect others (effect_of_leads leads)
      · intro atPut
        have called := (progress.reached thread).calls
        rw [if_pos (Or.inl atPut)] at called
        exact function_of_early round called
      · intro atProcess _ other
        have active := stage_eq_active sound atProcess nofun
        have passed := (round.1.threads thread).passed
        rw [active] at passed
        have called := calls_pos round (passed (Or.inl rfl)) other
        obtain ⟨isPut, -, calls⟩ := progress.reached other
        apply isPut.mpr
        intro atPut
        rw [if_pos (Or.inl atPut)] at calls
        omega
      · intro atCross
        have called := (progress.reached thread).calls
        rw [if_neg (by rw [atCross]; decide)] at called
        have here : (s.threads thread).pc.point = .outside := by
          rw [atCross]
          rfl
        exact function_of_returned round (stage_eq_active sound here nofun) called

/-- Straight-line code of a thread completes: there is room for its number. -/
theorem completes_of_invariant (idOf : Thread → Int) (small : Fintype.card Thread ≤ 20)
    (invariant : Invariant idOf s) {thread : Thread} {input : Unit}
    {body : Thread → Unit → Barrier.Vars Thread (BarrierTest Thread) →
      Except Fault (Barrier.Vars Thread (BarrierTest Thread) × Pc)}
    (round : RoundInvariant s.monitor)
    (isRun : (program idOf).code (s.threads thread).pc = .run body) :
    ∃ result, body thread input s.vars = .ok result := by
  obtain ⟨puts, crossed, putsNodup, -, reached, text⟩ := invariant
  obtain ⟨isPut, -, called⟩ := reached thread
  generalize (s.threads thread).pc = pc at *
  match pc with
  | .put =>
      cases isRun
      cases text with
      | printed function =>
          exact absurd function (function_of_early round called)
      | filling function filled =>
          have fresh : thread ∉ puts := fun member => isPut.mp member rfl
          have fewer : (thread :: puts).length ≤ Fintype.card Thread :=
            (List.nodup_cons.mpr ⟨fresh, putsNodup⟩).length_le_card
          obtain ⟨world, done⟩ := @barrierProcess_put _ idOf
            (s.vars.world.print (putLine idOf thread)) (by
              change s.vars.world.cnt < 20
              rw [filled.cnt]
              exact Nat.lt_of_lt_of_le fewer small) thread
          refine ⟨_, bind_eq_ok_iff.mpr ⟨world, done, rfl⟩⟩
  | .enter =>
      cases isRun
      dsimp only [id]
      split <;> exact ⟨_, rfl⟩
  | .cross | .done | .within .decrement _ | .within .test _ | .within .process _
  | .within .returned _ =>
      cases isRun
      exact ⟨_, rfl⟩
  | .within .outside inside => exact absurd rfl inside
  | .within .acquire _ | .within .wait _ | .within .broadcast _ | .within .release _ =>
      cases isRun

/-- The thread is at the end of its function. -/
def Ended (s : SynchSystem Thread (Barrier.Vars Thread (BarrierTest Thread)) Pc Empty Unit Unit)
    (thread : Thread) : Prop :=
  s.threads thread = ⟨.done, .call⟩

/-- Only threads that have ended can still be dispatched. -/
def Stalled (idOf : Thread → Int)
    (s : SynchSystem Thread (Barrier.Vars Thread (BarrierTest Thread)) Pc Empty Unit Unit) :
    Prop :=
  ∀ thread, Ended s thread ∨ ¬ SynchSystem.CanStep (program idOf) s thread

/-- When nothing more can happen nobody is left at the barrier. -/
theorem ended_of_stalled (small : Fintype.card Thread ≤ 20)
    (sound : SynchSystem.Sound (program idOf) s)
    (exclusive : Exclusive (Barrier.critical ∘ Pc.point) s.monitor)
    (round : RoundInvariant s.monitor) (invariant : Invariant idOf s)
    (fits : ∀ thread, SynchSystem.PhaseFits (program idOf) (s.threads thread))
    {initial : SemRef Empty Unit → Int}
    (safe : SynchSystem.SemsSafe (program idOf) initial s.sems s.threads s.history)
    (stalled : Stalled idOf s) (thread : Thread) : Ended s thread := by
  have away : ∀ thread, Ended s thread → (s.threads thread).phase = .call ∧
      (Barrier.critical ∘ Pc.point) (s.threads thread).pc = none := by
    intro thread here
    rw [here]
    exact ⟨rfl, rfl⟩
  have places : ∀ thread, Ended s thread ∨ ∃ pc, s.monitor.stage thread = .waiting pc := by
    intro thread
    have completes : ∀ thread body, (program idOf).code (s.threads thread).pc = .run body →
        ∃ input result, body thread input s.vars = .ok result := fun thread body isRun =>
      ⟨(), completes_of_invariant idOf small invariant round isRun⟩
    apply (sound.sleepWait_of_completes exclusive (labelled idOf) (fun _ sem => sem.elim)
      (fun _ sem => sem.elim) completes fits safe away stalled thread).imp_right
    intro phase
    exact ⟨(s.threads thread).pc, by simp [SynchSystem.monitor, SynchSystem.stageOf, phase]⟩
  obtain ⟨puts, crossed, -, -, reached, -⟩ := invariant
  obtain ⟨counted, round⟩ := round
  have outside : ∀ {thread}, Ended s thread →
      (s.monitor.map idle Pc.point).stage thread = .active .outside ∧ s.vars.calls thread = 1 := by
    intro thread here
    have called := (reached thread).calls
    rw [here] at called
    refine ⟨?_, called⟩
    change (SynchSystem.stageOf (s.threads thread)).map Pc.point = _
    rw [here]
    rfl
  have waits : ∀ {thread pc}, s.monitor.stage thread = .waiting pc →
      (s.monitor.map idle Pc.point).stage thread = .waiting pc.point :=
    fun {thread pc} asleep => congrArg (Stage.map Pc.point) asleep
  by_contra left
  obtain ⟨pc, asleep⟩ := (places thread).resolve_left left
  by_cases last : s.vars.barrier.remaining ≤ 0
  · obtain ⟨other, notifying⟩ := round.notified last thread pc.point (waits asleep)
    rcases places other with ended | ⟨place, otherAsleep⟩
    · rw [(outside ended).1] at notifying
      cases notifying
    · rw [waits otherAsleep] at notifying
      cases notifying
  · apply last
    apply Int.le_of_eq
    apply counted.remaining_eq_zero
    intro other
    have recorded := round.recorded other
    have bound := (counted.threads other).calls_le
    rcases places other with ended | ⟨place, otherAsleep⟩
    · obtain ⟨stage, called⟩ := outside ended
      have arrivals := recorded.arrivals
      rw [stage] at arrivals
      exact arrivals.trans called
    · obtain ⟨arrivals, returns⟩ := recorded
      rw [waits otherAsleep] at arrivals returns
      simp only [Barrier.early, Barrier.busy] at arrivals returns
      omega

/-- In every state that a run of any threads reaches, as many as the array has room for, nothing
fails and the threads have put their numbers in some order, each once; then, only
when all have done so, the sum of all of them was printed, once, and the variables were reset;
then threads crossed the barrier, each once.  When only threads that have ended can go on, all
have crossed. -/
theorem barrierTest (idOf : Thread → Int) (small : Fintype.card Thread ≤ 20)
    (actions : List (SynchSystem.Action Thread Unit)) :
    AlongRun (SynchSystem.step (program idOf)) (fun s =>
      (∀ action reason, SynchSystem.step (program idOf) s action ≠ .error (.fault reason)) ∧
      ∃ puts crossed : List Thread, puts.Nodup ∧ crossed.Nodup ∧
        (crossed = [] ∧ s.vars.world.output = puts.map (putLine idOf) ∨
          (∀ thread, thread ∈ puts) ∧ s.vars.world = { (new : BarrierTest Thread) with
            output := outputOf idOf puts crossed }) ∧
        (Stalled idOf s → ∀ thread, thread ∈ puts ∧ thread ∈ crossed)) boot actions := by
  have locked := alongRun_roundInvariant idOf actions
  have kept := locked.keeps (fun s action next ⟨sound, _, round⟩ invariant done =>
    Invariant.step invariant sound round done) Invariant.start
  have progress := (locked.and kept).and
    (SynchSystem.alongRun_progress _ (fun sem => sem.elim) (fun _ => Pc.put) actions)
  apply progress.mono
  rintro s ⟨⟨⟨sound, exclusive, round⟩, invariant⟩, initial, -, safe, fits⟩
  refine ⟨?_, ?_⟩
  · intro action reason failed
    rcases sound.step_fault exclusive (labelled idOf) failed with
      ⟨thread, input, body, -, isRun, -, failed⟩ | ⟨input, pending⟩
    · obtain ⟨result, done⟩ := completes_of_invariant idOf small invariant round isRun
      rw [done] at failed
      cases failed
    · cases pending
  · have ended := ended_of_stalled small sound exclusive round invariant fits safe
    obtain ⟨puts, crossed, putsNodup, crossedNodup, reached, text⟩ := invariant
    refine ⟨puts, crossed, putsNodup, crossedNodup, ?_, ?_⟩
    · cases text with
      | filling function filled => exact Or.inl ⟨rfl, filled.output⟩
      | printed function complete world => exact Or.inr ⟨complete, world⟩
    · intro stalled thread
      obtain ⟨isPut, isCrossed, -⟩ := reached thread
      have here := ended stalled thread
      rw [here] at isPut isCrossed
      exact ⟨isPut.mpr nofun, isCrossed.mpr rfl⟩

/-- The first of two threads waits, the second one does not. -/
def twoThreads : List (SynchSystem.Action Bool Unit) :=
  (List.replicate 6 false ++ List.replicate 10 true ++ List.replicate 7 false).map
    fun thread => .thread thread ()

theorem barrierTest_two :
    (run (SynchSystem.step (program fun thread : Bool => thread.toNat)) boot twoThreads).map
        (fun s => s.vars.world.output) =
      .ok [.putting false 0, .putting true 2, .sum 2 [0, 2] 2, .crossed true, .crossed false] ∧
    AlongRun (SynchSystem.step (program fun thread : Bool => thread.toNat)) (fun s =>
      (∀ action reason, SynchSystem.step (program fun thread : Bool => thread.toNat) s action ≠
        .error (.fault reason)) ∧
      ∃ puts crossed : List Bool, puts.Nodup ∧ crossed.Nodup ∧
        (crossed = [] ∧
          s.vars.world.output = puts.map (putLine fun thread : Bool => thread.toNat) ∨
          (∀ thread, thread ∈ puts) ∧ s.vars.world = { (new : BarrierTest Bool) with
            output := outputOf (fun thread : Bool => thread.toNat) puts crossed }) ∧
        (Stalled (fun thread : Bool => thread.toNat) s →
          ∀ thread, thread ∈ puts ∧ thread ∈ crossed)) boot twoThreads :=
  ⟨by rfl, barrierTest (fun thread : Bool => thread.toNat) (by decide) twoThreads⟩

end Runs

end BarrierTest

end Nachos
