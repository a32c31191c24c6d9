import Nachos.MonitorRuns

/-!
# Serialised disk access

`class Disk` of `machine/disk.cc` reads or writes a sector at once and schedules an
interrupt that reports the completion.  `class SynchDisk` of `filesys/synchdisk.cc`
makes a request inside a lock and waits there for the interrupt handler's `V`.

The requests are numbered in the order in which the device gets them.  The numbers, the
log of the requests, the completions and the calls that have returned are recorded
beside the device; no code reads them.
-/

namespace Nachos

open MesaMonitor TransitionRuns

namespace SynchDisk

/-- A call of `ReadSector` or `WriteSector` on a valid sector. -/
inductive Call where
  | read (sectorNumber : Fin Disk.numSectors)
  | write (sectorNumber : Fin Disk.numSectors) (data : Sector)

/-- A call whose request was issued under a number, and the bytes that were read. -/
structure Reply where
  call : Call
  request : Nat
  data : List Byte

/-- The device, with the requests whose completions are scheduled, and the record. -/
structure Device where
  disk : Disk
  active : Bool
  scheduled : List Nat
  log : List Call
  completed : List Nat
  returned : List Reply

/-- The end of a request: `active = TRUE` and the call of `interrupt->Schedule`. -/
def Device.schedule (device : Device) (call : Call) : Device :=
  { device with
    active := true
    scheduled := device.scheduled ++ [device.log.length]
    log := device.log ++ [call] }

/-- `Disk::ReadRequest`. -/
def Device.readRequest (device : Device) (sectorNumber : Fin Disk.numSectors) :
    Except Fault (Device × List Byte) :=
  if device.active then .error .assertion
  else do
    let data ← device.disk.readSector sectorNumber
    return (device.schedule (.read sectorNumber), data)

/-- `Disk::WriteRequest`. -/
def Device.writeRequest (device : Device) (sectorNumber : Fin Disk.numSectors) (data : Sector) :
    Except Fault Device :=
  if device.active then .error .assertion
  else do
    let disk ← device.disk.writeSector sectorNumber data.bytes
    return { device with disk := disk }.schedule (.write sectorNumber data)

/-- `Disk::HandleInterrupt` for the scheduled completion at an index; the semaphore's `V`
in the handler is left to the system. -/
def Device.handleInterrupt (device : Device) (index : Nat) : Option Device :=
  device.scheduled[index]?.map fun request =>
    { device with
      active := false
      scheduled := device.scheduled.eraseIdx index
      completed := device.completed ++ [request] }

/-- The points of `ReadSector` and `WriteSector`, and of a thread that calls them. -/
inductive Pc where
  | outside
  | acquire (call : Call)
  | request (call : Call)
  | wait (reply : Reply)
  | release (reply : Reply)
  | returned (reply : Reply)

/-- The next call of a thread, and the next completion. -/
structure Choice where
  call : Call
  completion : Nat

/-- The request of a call, and what its thread waits for. -/
def Device.issue (device : Device) : Call → Except Fault (Device × Pc)
  | .read sectorNumber => do
      let (issued, data) ← device.readRequest sectorNumber
      return (issued, .wait ⟨.read sectorNumber, device.log.length, data⟩)
  | .write sectorNumber data => do
      let issued ← device.writeRequest sectorNumber data
      return (issued, .wait ⟨.write sectorNumber data, device.log.length, []⟩)

variable {Thread : Type}

def code : Pc → Instr Thread Device Pc Unit Unit Empty Choice Fault
  | .outside => .run fun _ choice device => .ok (device, .acquire choice.call)
  | .acquire call => .acquire () (.request call)
  | .request call => .run fun _ _ device => device.issue call
  | .wait reply => .p () (.release reply)
  | .release reply => .release () (.returned reply)
  | .returned reply => .run fun _ _ device =>
      .ok ({ device with returned := device.returned ++ [reply] }, .outside)

/-- `DiskRequestDone` calls `RequestDone`, which is a `V` of the semaphore. -/
def program : FlowChart Thread Device Pc Unit Unit Empty Choice Fault where
  code := code
  lockOf := fun cond => cond.elim
  interrupt := fun choice device =>
    (device.handleInterrupt choice.completion).map fun device => .ok (device, [()])

/-- A device that was not used yet. -/
def Device.new (disk : Disk) : Device :=
  ⟨disk, false, [], [], [], []⟩

/-- The semaphore has the value 0, and no thread has called. -/
def boot (disk : Disk) : SynchSystem Thread Device Pc Unit Unit Empty :=
  .boot (.new disk) (fun _ => 0) fun _ => .outside

/-- The points where the lock is held. -/
def critical : Pc → Option Unit
  | .outside | .acquire _ | .returned _ => none
  | _ => some ()

/-- The data of the writes to a sector, the last one at the end. -/
def writes (log : List Call) (sectorNumber : Fin Disk.numSectors) : List Sector :=
  log.filterMap fun
    | .read _ => none
    | .write other data => if other = sectorNumber then some data else none

/-- What the last write to a sector has put there. -/
def lastWritten (initial : Disk) (log : List Call) (sectorNumber : Fin Disk.numSectors) :
    Sector :=
  (writes log sectorNumber).getLast?.getD (initial sectorNumber)

/-- The reply is that of its own request: a read has the bytes of the last write to its
sector that was issued before it. -/
def Answers (initial : Disk) (log : List Call) (reply : Reply) : Prop :=
  log[reply.request]? = some reply.call ∧
    match reply.call with
    | .read sectorNumber =>
        reply.data = (lastWritten initial (log.take reply.request) sectorNumber).bytes
    | .write _ _ => True

theorem Answers.append {initial : Disk} {log : List Call} {reply : Reply}
    (answers : Answers initial log reply) (more : List Call) :
    Answers initial (log ++ more) reply := by
  obtain ⟨entry, data⟩ := answers
  have bound : reply.request < log.length := by
    by_contra beyond
    rw [List.getElem?_eq_none (by omega)] at entry
    cases entry
  refine ⟨by rw [List.getElem?_append_left bound, entry], ?_⟩
  rwa [List.take_append_of_le_length (by omega)]

@[simp]
theorem lastWritten_nil (initial : Disk) (sectorNumber : Fin Disk.numSectors) :
    lastWritten initial [] sectorNumber = initial sectorNumber :=
  rfl

@[simp]
theorem lastWritten_read (initial : Disk) (log : List Call)
    (other sectorNumber : Fin Disk.numSectors) :
    lastWritten initial (log ++ [.read other]) sectorNumber =
      lastWritten initial log sectorNumber := by
  simp [lastWritten, writes]

theorem lastWritten_write (initial : Disk) (log : List Call)
    (other sectorNumber : Fin Disk.numSectors) (data : Sector) :
    lastWritten initial (log ++ [.write other data]) sectorNumber =
      if other = sectorNumber then data else lastWritten initial log sectorNumber := by
  by_cases same : other = sectorNumber <;> simp [lastWritten, writes, same]

theorem labelled : (program : FlowChart Thread _ _ _ _ _ _ _).Labelled critical := by
  intro pc
  cases pc with
  | outside | returned =>
      intro thread choice device result done
      cases done
      rfl
  | request call =>
      intro thread choice device result done
      cases call with
      | read sectorNumber =>
          obtain ⟨_, -, done⟩ := bind_eq_ok_iff.mp done
          cases done
          rfl
      | write sectorNumber data =>
          obtain ⟨_, -, done⟩ := bind_eq_ok_iff.mp done
          cases done
          rfl
  | wait => rfl
  | acquire | release => exact ⟨rfl, rfl⟩

section Invariant

/-- The reply that a thread waits for. -/
def waitsFor : Stage Pc → Option Reply
  | .active (.wait reply) => some reply
  | _ => none

/-- The reply that a thread is about to return. -/
def hasReply : Stage Pc → Option Reply
  | .active (.release reply) | .active (.returned reply) => some reply
  | _ => none

/-- There is no request. -/
structure Idle (device : Device) (value : Int) : Prop where
  active : device.active = false
  scheduled : device.scheduled = []
  value : value = 0

/-- The given request is the only one: it is scheduled to complete, or has completed and
the semaphore has a unit for the thread that waits. -/
def Outstanding (device : Device) (value : Int) (request : Nat) : Prop :=
  (device.active = true ∧ device.scheduled = [request] ∧ value = 0) ∨
    (device.active = false ∧ device.scheduled = [] ∧ value = 1 ∧ request ∈ device.completed)

/-- The request of the reply has completed, and the reply is its own. -/
def Finished (initial : Disk) (device : Device) (reply : Reply) : Prop :=
  reply.request ∈ device.completed ∧ Answers initial device.log reply

structure Invariant (initial : Disk) (s : State Thread Device Pc Unit Unit Empty) : Prop where
  idle : (∀ thread, waitsFor (s.stage thread) = none) → Idle s.vars (s.value ())
  waiting : ∀ thread reply, waitsFor (s.stage thread) = some reply →
    Outstanding s.vars (s.value ()) reply.request ∧ Answers initial s.vars.log reply
  finished : ∀ thread reply, hasReply (s.stage thread) = some reply →
    Finished initial s.vars reply
  returned : ∀ reply ∈ s.vars.returned, Finished initial s.vars reply
  disk : ∀ sectorNumber : Fin Disk.numSectors,
    s.vars.disk sectorNumber = lastWritten initial s.vars.log sectorNumber

variable {initial : Disk} {device : Device}

/-- A request that is made while the device is idle does not fail. -/
theorem issue_ok (inactive : device.active = false)
    (disk : ∀ sectorNumber : Fin Disk.numSectors,
      device.disk sectorNumber = lastWritten initial device.log sectorNumber) (call : Call) :
    ∃ after data,
      device.issue call = .ok ({ device with disk := after }.schedule call,
        .wait ⟨call, device.log.length, data⟩) ∧
      (∀ sectorNumber : Fin Disk.numSectors,
        after sectorNumber = lastWritten initial (device.log ++ [call]) sectorNumber) ∧
      Answers initial (device.log ++ [call]) ⟨call, device.log.length, data⟩ := by
  cases call with
  | read sectorNumber =>
      have bytes := device.disk.readSector_of_lt sectorNumber.isLt
      refine ⟨device.disk, (device.disk sectorNumber).bytes, ?_, ?_, ?_, ?_⟩
      · simp [Device.issue, Device.readRequest, inactive, bytes]
        rfl
      · simpa using disk
      · simp
      · simp [disk]
  | write sectorNumber data =>
      have enough : Disk.sectorSize ≤ data.bytes.length := by rw [data.length_bytes]
      have whole : Sector.ofBytes data.bytes enough = data := by
        apply Sector.ext
        rw [Sector.bytes_ofBytes, ← data.length_bytes, List.take_length]
      have written := device.disk.writeSector_of_lt sectorNumber.isLt enough
      rw [whole] at written
      refine ⟨Function.update device.disk sectorNumber data, [], ?_, fun other => ?_, ?_, trivial⟩
      · simp [Device.issue, Device.writeRequest, inactive, written]
      · rw [lastWritten_write]
        by_cases same : sectorNumber = other
        · subst same
          simp
        · have different : (other : Nat) ≠ sectorNumber := fun equal => same (Fin.ext equal.symm)
          rw [if_neg same, Function.update_of_ne different, disk]
      · simp

variable [DecidableEq Thread] {s next : State Thread Device Pc Unit Unit Empty}

theorem Finished.mono {changed : Device} {reply : Reply} (finished : Finished initial device reply)
    (completed : device.completed ⊆ changed.completed) {more : List Call}
    (log : changed.log = device.log ++ more) : Finished initial changed reply := by
  refine ⟨completed finished.1, ?_⟩
  rw [log]
  exact finished.2.append more

omit [DecidableEq Thread] in
/-- A thread that waits is inside, and alone there. -/
theorem waitsFor_of_ne (exclusive : Exclusive critical s) {thread : Thread} {pc : Pc}
    (here : s.stage thread = .active pc) (inside : critical pc = some ()) {other : Thread}
    (different : other ≠ thread) : waitsFor (s.stage other) = none := by
  cases waiting : waitsFor (s.stage other) with
  | none => rfl
  | some reply =>
      have alsoInside : MesaMonitor.inside critical (s.stage other) = some () := by
        unfold waitsFor at waiting
        split at waiting
        · next stage =>
          rw [stage]
          rfl
        · cases waiting
      apply absurd _ different
      apply exclusive.eq_of_inside alsoInside
      rw [here]
      exact inside

/-- A thread goes on that neither waited nor has to wait now. -/
theorem Invariant.goto (invariant : Invariant initial s) {thread : Thread}
    {source target : Stage Pc} (here : s.stage thread = source)
    (before : waitsFor source = none) (after : waitsFor target = none)
    (reply : ∀ reply, hasReply target = some reply → hasReply source = some reply) :
    Invariant initial { s with stage := Function.update s.stage thread target } := by
  obtain ⟨idle, waiting, finished, returned, disk⟩ := invariant
  refine ⟨fun nobody => idle fun other => ?_, fun other request waits => ?_,
    fun other request has => ?_, returned, disk⟩
  · by_cases same : other = thread
    · subst same
      rw [here, before]
    · simpa [Function.update_of_ne same] using nobody other
  · by_cases same : other = thread
    · subst same
      simp [after] at waits
    · exact waiting other request (by simpa [Function.update_of_ne same] using waits)
  · by_cases same : other = thread
    · subst same
      apply finished other request
      rw [here]
      exact reply request (by simpa using has)
    · exact finished other request (by simpa [Function.update_of_ne same] using has)

omit [DecidableEq Thread] in
/-- While a thread is about to make its request there is no other one. -/
theorem Invariant.idle_of_request (invariant : Invariant initial s)
    (exclusive : Exclusive critical s) {thread : Thread} {call : Call}
    (here : s.stage thread = .active (.request call)) : Idle s.vars (s.value ()) := by
  apply invariant.idle
  intro other
  by_cases same : other = thread
  · rw [same, here]
    rfl
  · exact waitsFor_of_ne exclusive here rfl same

/-- A thread makes its request. -/
theorem Invariant.issue (invariant : Invariant initial s) (exclusive : Exclusive critical s)
    {thread : Thread} {call : Call} (here : s.stage thread = .active (.request call))
    {changed : Device} {target : Pc} (done : s.vars.issue call = .ok (changed, target)) :
    Invariant initial
      { s with vars := changed, stage := Function.update s.stage thread (.active target) } := by
  have others : ∀ other, other ≠ thread → waitsFor (s.stage other) = none :=
    fun other different => waitsFor_of_ne exclusive here rfl different
  have idle := invariant.idle_of_request exclusive here
  obtain ⟨after, data, issued, disk, answers⟩ := issue_ok idle.active invariant.disk call
  rw [done] at issued
  cases issued
  have kept : ∀ reply, Finished initial s.vars reply →
      Finished initial ({ s.vars with disk := after }.schedule call) reply :=
    fun reply finished => finished.mono (List.Subset.refl _) rfl
  refine ⟨fun nobody => ?_, fun other request waits => ?_, fun other request has => ?_,
    fun reply member => kept reply (invariant.returned reply member), disk⟩
  · have waits := nobody thread
    simp [waitsFor] at waits
  · by_cases same : other = thread
    · subst same
      simp only [Function.update_self, waitsFor, Option.some.injEq] at waits
      subst waits
      refine ⟨Or.inl ⟨rfl, ?_, idle.value⟩, answers⟩
      simp [Device.schedule, idle.scheduled]
    · simp [Function.update_of_ne same, others other same] at waits
  · by_cases same : other = thread
    · subst same
      simp [hasReply] at has
    · exact kept request
        (invariant.finished other request (by simpa [Function.update_of_ne same] using has))

/-- A thread finds that its request has completed. -/
theorem Invariant.p (invariant : Invariant initial s) (exclusive : Exclusive critical s)
    {thread : Thread} {reply : Reply} (here : s.stage thread = .active (.wait reply))
    (available : s.value () ≠ 0) :
    Invariant initial { s with
      value := Function.update s.value () (s.value () - 1)
      stage := Function.update s.stage thread (.active (.release reply)) } := by
  obtain ⟨outstanding, answers⟩ := invariant.waiting thread reply (by rw [here]; rfl)
  have completed : s.vars.active = false ∧ s.vars.scheduled = [] ∧ s.value () = 1 ∧
      reply.request ∈ s.vars.completed := by
    rcases outstanding with ⟨-, -, zero⟩ | completed
    · exact absurd zero available
    · exact completed
  obtain ⟨active, scheduled, one, completed⟩ := completed
  refine ⟨fun _ => ⟨active, scheduled, by simp [one]⟩, fun other request waits => ?_,
    fun other request has => ?_, invariant.returned, invariant.disk⟩
  · by_cases same : other = thread
    · subst same
      simp [waitsFor] at waits
    · have nobody := waitsFor_of_ne exclusive here rfl same
      simp [Function.update_of_ne same, nobody] at waits
  · by_cases same : other = thread
    · subst same
      simp only [Function.update_self, hasReply, Option.some.injEq] at has
      subst has
      exact ⟨completed, answers⟩
    · exact invariant.finished other request (by simpa [Function.update_of_ne same] using has)

omit [DecidableEq Thread] in
/-- A completion is that of the one request that somebody waits for. -/
theorem Invariant.interrupt (invariant : Invariant initial s) {index : Nat} {changed : Device}
    (pending : s.vars.handleInterrupt index = some changed) :
    Invariant initial { s with vars := changed, value := giveUnits s.value [()] } := by
  obtain ⟨request, scheduled, rfl⟩ := Option.map_eq_some_iff.mp pending
  have single : ∀ number, s.vars.scheduled = [number] → number = request ∧ index = 0 := by
    intro number only
    rw [only] at scheduled
    cases index with
    | zero => exact ⟨by simpa using scheduled, rfl⟩
    | succ index => simp at scheduled
  have kept : ∀ reply, Finished initial s.vars reply →
      Finished initial { s.vars with
        active := false
        scheduled := s.vars.scheduled.eraseIdx index
        completed := s.vars.completed ++ [request] } reply :=
    fun reply finished => finished.mono (List.subset_append_left _ _) (List.append_nil _).symm
  refine ⟨fun nobody => ?_, fun thread reply waits => ?_,
    fun thread reply has => kept reply (invariant.finished thread reply has),
    fun reply member => kept reply (invariant.returned reply member), invariant.disk⟩
  · have idle := invariant.idle nobody
    rw [idle.scheduled] at scheduled
    simp at scheduled
  · obtain ⟨outstanding, answers⟩ := invariant.waiting thread reply waits
    rcases outstanding with ⟨-, only, zero⟩ | ⟨-, none, -⟩
    · obtain ⟨isRequest, rfl⟩ := single _ only
      refine ⟨Or.inr ⟨rfl, ?_, ?_, ?_⟩, answers⟩
      · simp [only]
      · simp [giveUnits, zero]
      · simp [isRequest]
    · rw [none] at scheduled
      simp at scheduled

theorem Invariant.step (invariant : Invariant initial s) (exclusive : Exclusive critical s)
    (step : Step program s next) : Invariant initial next := by
  cases step with
  | @run thread pc body choice changed target here isRun done =>
      cases pc with
      | outside =>
          cases isRun
          cases done
          exact invariant.goto here rfl rfl nofun
      | request call =>
          cases isRun
          exact invariant.issue exclusive here done
      | returned reply =>
          cases isRun
          cases done
          have finished := invariant.finished thread reply (by rw [here]; rfl)
          have moved : Invariant initial
              { s with stage := Function.update s.stage thread (.active .outside) } :=
            invariant.goto here rfl rfl nofun
          have idle := moved.idle
          refine ⟨fun nobody => ?_, moved.waiting, moved.finished, fun other member => ?_,
            moved.disk⟩
          · obtain ⟨active, scheduled, value⟩ := idle nobody
            exact ⟨active, scheduled, value⟩
          rcases List.mem_append.mp member with old | new
          · exact invariant.returned other old
          · rw [List.mem_singleton.mp new]
            exact finished
      | acquire | wait | release => cases isRun
  | @p thread pc sem target here isP available =>
      cases pc <;> cases isP
      exact invariant.p exclusive here available
  | @v thread pc sem target here isV => cases pc <;> cases isV
  | @acquire thread pc lock target here isAcquire free =>
      have moved : Invariant initial
          { s with stage := Function.update s.stage thread (.active target) } := by
        cases pc <;> cases isAcquire
        exact invariant.goto here rfl rfl nofun
      exact ⟨moved.idle, moved.waiting, moved.finished, moved.returned, moved.disk⟩
  | @release thread pc lock target here isRelease held =>
      have moved : Invariant initial
          { s with stage := Function.update s.stage thread (.active target) } := by
        cases pc <;> cases isRelease
        exact invariant.goto here rfl rfl fun _ has => has
      exact ⟨moved.idle, moved.waiting, moved.finished, moved.returned, moved.disk⟩
  | @wait thread pc cond => exact cond.elim
  | @resume thread pc cond => exact cond.elim
  | @signal thread pc cond => exact cond.elim
  | @broadcast thread pc cond => exact cond.elim
  | @interrupt choice changed sems pending =>
      obtain ⟨device, handled, equal⟩ := Option.map_eq_some_iff.mp pending
      cases equal
      exact invariant.interrupt handled

omit [DecidableEq Thread] in
theorem invariant_start (initial : Disk) :
    Invariant initial (State.start (Device.new initial) (fun _ => 0)
      fun _ : Thread => .outside) where
  idle _ := ⟨rfl, rfl, rfl⟩
  waiting _ _ waits := by simp [State.start, waitsFor] at waits
  finished _ _ has := by simp [State.start, hasReply] at has
  returned _ member := by simp [State.start, Device.new] at member
  disk _ := rfl

theorem alongRun_invariant (initial : Disk)
    (actions : List (SynchSystem.Action Thread Choice)) :
    AlongRun (SynchSystem.step program) (fun s => SynchSystem.Sound program s ∧
      Exclusive critical s.monitor ∧ Invariant initial s.monitor) (boot initial) actions :=
  SynchSystem.alongRun_of_monitor labelled (fun _ => rfl) (invariant_start initial)
    (fun _ _ exclusive _ invariant step => invariant.step exclusive step) actions

/-- In every state that a run reaches no assertion fails in the next step, so that a
request never meets an active device; at most one completion is scheduled, and the value
of the semaphore is at most 1.  Each call that has returned had its own request completed,
and a read has returned the bytes of the last write to its sector that was issued before
it. -/
theorem serialised_access (initial : Disk)
    (actions : List (SynchSystem.Action Thread Choice)) :
    AlongRun (SynchSystem.step program) (fun s =>
      (∀ action reason, SynchSystem.step program s action ≠ .error (.fault reason)) ∧
      s.vars.scheduled.length ≤ 1 ∧
      (s.sems (.named ())).value ≤ 1 ∧
      ∀ reply ∈ s.vars.returned, reply.request ∈ s.vars.completed ∧
        Answers initial s.vars.log reply)
      (boot initial) actions := by
  apply (alongRun_invariant initial actions).mono
  rintro s ⟨sound, exclusive, invariant⟩
  have bounds : s.vars.scheduled.length ≤ 1 ∧ (s.sems (.named ())).value ≤ 1 := by
    by_cases nobody : ∀ thread, waitsFor (s.monitor.stage thread) = none
    · obtain ⟨-, scheduled, value⟩ := invariant.idle nobody
      have scheduled : s.vars.scheduled = [] := scheduled
      have value : (s.sems (.named ())).value = 0 := value
      simp [scheduled, value]
    · push Not at nobody
      obtain ⟨thread, waits⟩ := nobody
      obtain ⟨reply, waits⟩ := Option.ne_none_iff_exists'.mp waits
      obtain ⟨outstanding, -⟩ := invariant.waiting thread reply waits
      have outstanding : Outstanding s.vars (s.sems (.named ())).value reply.request :=
        outstanding
      rcases outstanding with ⟨-, scheduled, value⟩ | ⟨-, scheduled, value, -⟩ <;>
        simp [scheduled, value]
  refine ⟨fun action reason failed => ?_, bounds.1, bounds.2, invariant.returned⟩
  rcases sound.step_fault exclusive labelled failed with
    ⟨thread, choice, body, -, isRun, phase, failed⟩ | ⟨choice, failed⟩
  swap
  · obtain ⟨device, -, equal⟩ := Option.map_eq_some_iff.mp failed
    cases equal
  have here := SynchSystem.stageOf_of_call phase
  cases pc : (s.threads thread).pc with
  | request call =>
      rw [pc] at isRun here
      cases isRun
      have idle := invariant.idle_of_request exclusive here
      obtain ⟨after, data, issued, -⟩ := issue_ok idle.active invariant.disk call
      have issued : s.vars.issue call = _ := issued
      dsimp only at failed
      rw [issued] at failed
      cases failed
  | outside | returned =>
      rw [pc] at isRun
      cases isRun
      cases failed
  | acquire | wait | release =>
      rw [pc] at isRun
      cases isRun

end Invariant

end SynchDisk

end Nachos
