import Nachos.MailboxLists
import Nachos.SynchProgress

/-!
# Post offices leave no message behind

`messageSent` has a unit for each packet that the device has reported as sent, until its
sender takes it.  So when a machine has nothing left to do, every message that was accepted
for it is in its mailbox, nobody is left in `Send`, and only clients of empty mailboxes sleep
in `Receive`.
-/

namespace Nachos

open MesaMonitor TransitionRuns ThreadCounting

namespace PostOffice

variable {Machine Client : Type}

section Sending

variable [DecidableEq Machine] {setup : Setup Machine} {offices after : Machine → Office}

/-- A client waits for the report that its packet was sent. -/
def awaitsSent (machine : Machine) : Stage (Pc Machine) → Bool
  | .active ⟨other, .waitSent⟩ => decide (other = machine)
  | _ => false

@[simp]
theorem awaitsSent_wake (machine : Machine) (stage : Stage (Pc Machine)) :
    awaitsSent machine stage.wake = awaitsSent machine stage := by
  cases stage <;> rfl

theorem scheduled_update {machine other : Machine} {office : Office}
    (kept : office.network.scheduled = (offices machine).network.scheduled) :
    (Function.update offices machine office other).network.scheduled =
      (offices other).network.scheduled := by
  by_cases same : other = machine
  · subst same
    rw [Function.update_self, kept]
  · rw [Function.update_of_ne same]

omit [DecidableEq Machine] in
theorem scheduled_of_deliver {office changed : Office} {mail : Mail}
    (delivered : setup.deliver office = .ok (changed, mail)) :
    changed.network.scheduled = office.network.scheduled := by
  unfold Setup.deliver at delivered
  dsimp only at delivered
  split at delivered
  · obtain ⟨letter, -, delivered⟩ := bind_eq_ok_iff.mp delivered
    cases delivered
    rfl
  · cases delivered

theorem scheduled_of_transmit {machine receiver : Machine} {mail : Mail} {memory : Nat → Byte}
    (sent : transmit offices machine receiver mail memory = .ok after) (other : Machine) :
    (after other).network.scheduled =
      (offices other).network.scheduled + (decide (machine = other)).toNat := by
  obtain ⟨⟨network, packet⟩, scheduled, sent⟩ := bind_eq_ok_iff.mp sent
  cases sent
  unfold Network.send at scheduled
  split at scheduled <;> cases scheduled
  rw [scheduled_update (by rfl)]
  by_cases same : other = machine
  · subst same
    simp
  · rw [Function.update_of_ne same, decide_eq_false (Ne.symm same)]
    rfl

theorem scheduled_of_run {thread : Thread Machine Client} {choice : Choice Machine}
    {pc target : Pc Machine}
    {body : Thread Machine Client → Choice Machine → (Machine → Office) →
      Except Fault ((Machine → Office) × Pc Machine)}
    (isRun : code setup pc = .run body) (done : body thread choice offices = .ok (after, target))
    (other : Machine) :
    (after other).network.scheduled + (awaitsSent other (.active pc)).toNat =
      (offices other).network.scheduled + (awaitsSent other (.active target)).toNat := by
  obtain ⟨machine, point⟩ := pc
  cases point with
  | deliver =>
      cases isRun
      obtain ⟨⟨office, mail⟩, delivered, done⟩ := bind_eq_ok_iff.mp done
      cases done
      rw [scheduled_update (scheduled_of_deliver delivered)]
      rfl
  | put mail =>
      cases isRun
      cases done
      rw [scheduled_update (by rfl)]
      rfl
  | outside =>
      cases isRun
      dsimp only at done
      split at done
      · obtain ⟨mail, -, done⟩ := bind_eq_ok_iff.mp done
        cases done
        rfl
      · split at done <;> cases done
        rfl
  | send receiver mail =>
      cases isRun
      obtain ⟨sent, transmitted, done⟩ := bind_eq_ok_iff.mp done
      cases done
      rw [scheduled_of_transmit transmitted]
      rfl
  | getTest box =>
      cases isRun
      obtain ⟨⟨messages, mail⟩, -, done⟩ := bind_eq_ok_iff.mp done
      cases done
      rw [scheduled_update (by rfl)]
      cases mail <;> rfl
  | received mail =>
      cases isRun
      dsimp only at done
      split at done <;> cases done
      rfl
  | _ => cases isRun

omit [DecidableEq Machine] in
theorem scheduled_of_checkPktAvail {network polled : Network} {socket rest : List (List Byte)}
    {arrived : Bool} (done : network.checkPktAvail socket = .ok (polled, rest, arrived)) :
    polled.scheduled = network.scheduled := by
  unfold Network.checkPktAvail at done
  split at done
  · cases done
    rfl
  · split at done
    · cases done
      rfl
    · dsimp only at done
      split at done <;> cases done
      rfl

end Sending

section Progress

variable [DecidableEq Machine] [Fintype Machine] [Fintype Client] {setup : Setup Machine}
  {home : Client → Machine} {offices : Machine → Office} {value : Sem Machine → Int}
  {stage : Thread Machine Client → Stage (Pc Machine)}

/-- Each mailbox is a synchronized list.  The units of `messageSent` and the scheduled
reports are those for which clients wait. -/
structure Progress (offices : Machine → Office) (value : Sem Machine → Int)
    (stage : Thread Machine Client → Stage (Pc Machine)) : Prop where
  boxed : ∀ cond, Boxed offices stage cond
  sent : ∀ machine, value (.messageSent machine) + (offices machine).network.scheduled =
    count (awaitsSent machine) stage

theorem Progress.start (setup : Setup Machine) (home : Client → Machine) :
    Progress (fun machine => .new (setup.address machine)) (fun _ => 0)
      fun thread => .active (entry home thread) := by
  refine ⟨fun cond => ?_, fun machine => ?_⟩
  · have outside : (viewStage cond ∘ fun thread : Thread Machine Client =>
        Stage.active (entry home thread)) = fun _ => .active .outside := by
      ext1 thread
      cases thread <;> rfl
    unfold Boxed
    rw [outside]
    exact SynchList.invariant_start
  · have nobody : count (awaitsSent machine) (fun thread : Thread Machine Client =>
        Stage.active (entry home thread)) = 0 := by
      rw [count_eq_zero_iff]
      intro thread
      cases thread <;> rfl
    rw [nobody]
    rfl

variable [DecidableEq Client]
  {s next : State (Thread Machine Client) (Machine → Office) (Pc Machine) (Sem Machine)
    (Lock Machine) (Cond Machine)}

/-- A thread goes on that does not begin or end to wait for a report. -/
theorem count_awaitsSent_update {thread : Thread Machine Client}
    {source target : Stage (Pc Machine)} (here : stage thread = source) (machine : Machine)
    (same : awaitsSent machine target = awaitsSent machine source) :
    count (awaitsSent machine) (Function.update stage thread target) =
      count (awaitsSent machine) stage :=
  count_update_same (by rw [here, same])

theorem Progress.step (exclusive : Exclusive critical s) (queued : Queued (program setup) s)
    (progress : Progress s.vars s.value s.stage) (step : Step (program setup) s next) :
    Progress next.vars next.value next.stage := by
  obtain ⟨boxed, sent⟩ := progress
  cases step with
  | @run thread pc body choice after target here isRun done =>
      refine ⟨fun cond => (boxed cond).move exclusive here (follows_of_run isRun done cond),
        fun machine => ?_⟩
      have moved := count_update (awaitsSent machine) s.stage thread (.active target)
      have scheduled := scheduled_of_run isRun done machine
      have counted := sent machine
      rw [here] at moved
      dsimp only
      omega
  | @p thread pc sem target here isP available =>
      obtain ⟨machine, point⟩ := pc
      cases point with
      | waitMessage =>
          cases isP
          refine ⟨fun cond => (boxed cond).move exclusive here (Or.inl ⟨rfl, rfl⟩),
            fun other => ?_⟩
          dsimp only
          rw [count_awaitsSent_update here other (by rfl), Function.update_of_ne (by simp)]
          exact sent other
      | waitSent =>
          cases isP
          refine ⟨fun cond => (boxed cond).move exclusive here (Or.inl ⟨rfl, rfl⟩),
            fun other => ?_⟩
          have moved := count_update (awaitsSent other) s.stage thread
            (.active ⟨machine, .sendRelease⟩)
          have counted := sent other
          rw [here] at moved
          by_cases same : machine = other
          · subst same
            simp only [awaitsSent, decide_true, Bool.toNat_true, Bool.toNat_false] at moved
            dsimp only
            rw [Function.update_self]
            omega
          · simp only [awaitsSent, same, decide_false, Bool.toNat_false] at moved
            dsimp only
            rw [Function.update_of_ne (by simpa using Ne.symm same)]
            omega
      | _ => cases isP
  | @v thread pc sem target here isV =>
      obtain ⟨machine, point⟩ := pc
      cases point <;> cases isV
  | @acquire thread pc lock target here isAcquire free =>
      refine ⟨fun cond => (boxed cond).move exclusive here (follows_of_acquire isAcquire cond),
        fun machine => ?_⟩
      dsimp only
      rw [count_awaitsSent_update here machine, sent machine]
      obtain ⟨other, point⟩ := pc
      cases point <;> cases isAcquire <;> rfl
  | @release thread pc lock target here isRelease held =>
      refine ⟨fun cond => (boxed cond).move exclusive here (follows_of_release isRelease cond),
        fun machine => ?_⟩
      dsimp only
      rw [count_awaitsSent_update here machine, sent machine]
      obtain ⟨other, point⟩ := pc
      cases point <;> cases isRelease <;> rfl
  | @wait thread pc cond target here isWait held =>
      refine ⟨fun cond => (boxed cond).move exclusive here (follows_of_wait isWait cond).1,
        fun machine => ?_⟩
      dsimp only
      rw [count_awaitsSent_update here machine, sent machine]
      rw [eq_of_isWait isWait]
      rfl
  | @resume thread pc cond target here isWait free =>
      refine ⟨fun cond => (boxed cond).move exclusive here (follows_of_wait isWait cond).2,
        fun machine => ?_⟩
      dsimp only
      rw [count_awaitsSent_update here machine, sent machine]
      obtain ⟨other, point⟩ := pc
      cases point <;> cases isWait
      rfl
  | @signal thread pc cond target here isSignal held =>
      obtain ⟨machine, point⟩ := pc
      cases point with
      | putSignal box =>
          cases isSignal
          refine ⟨fun cond => (boxed cond).signal exclusive queued here, fun other => ?_⟩
          have stays : wakeAll ((s.queue ⟨machine, box⟩).take 1) s.stage thread =
              .active ⟨machine, .putSignal box⟩ := by
            unfold wakeAll
            split <;> simp [here]
          have notified : count (awaitsSent other)
              (wakeAll ((s.queue ⟨machine, box⟩).take 1) s.stage) =
              count (awaitsSent other) s.stage := by
            apply count_congr
            intro waiter
            unfold wakeAll
            split <;> simp
          dsimp only
          rw [count_awaitsSent_update stays other (by rfl), notified, sent other]
      | _ => cases isSignal
  | @broadcast thread pc cond target here isBroadcast held =>
      obtain ⟨machine, point⟩ := pc
      cases point <;> cases isBroadcast
  | @interrupt choice after sems pending =>
      obtain ⟨call, memory, machine, event⟩ := choice
      cases event with
      | poll =>
          simp only [program, PostOffice.interrupt, Option.some.injEq] at pending
          obtain ⟨⟨network, socket, arrived⟩, polled, done⟩ := bind_eq_ok_iff.mp pending
          cases done
          refine ⟨fun cond => ?_, fun other => ?_⟩
          · have still := boxed cond
            unfold Boxed at still ⊢
            rwa [boxAt_of_kept (by rfl)]
          · dsimp only
            rw [scheduled_update (scheduled_of_checkPktAvail polled), ← sent other]
            cases arrived <;> simp [giveUnits]
      | sendDone =>
          simp only [program, PostOffice.interrupt, Option.map_eq_some_iff] at pending
          obtain ⟨network, completed, done⟩ := pending
          cases done
          unfold Network.sendDone at completed
          split at completed
          · cases completed
          · next busy =>
            cases completed
            refine ⟨fun cond => ?_, fun other => ?_⟩
            · have still := boxed cond
              unfold Boxed at still ⊢
              rwa [boxAt_of_kept (by rfl)]
            · have counted := sent other
              dsimp only
              by_cases same : other = machine
              · subst same
                simp only [giveUnits, Function.update_self, List.count_singleton_self]
                omega
              · rw [Function.update_of_ne same, giveUnits,
                  List.count_eq_zero_of_not_mem (by simpa using same)]
                omega

end Progress

section Quiet

/-- The threads and the semaphores of all machines. -/
abbrev System (Machine Client : Type) :=
  SynchSystem (Thread Machine Client) (Machine → Office) (Pc Machine) (Sem Machine)
    (Lock Machine) (Cond Machine)

variable [DecidableEq Machine] [DecidableEq Client] {setup : Setup Machine}
  {home : Client → Machine} {s : System Machine Client} {machine : Machine}

/-- The code of the postal workers and of the given clients. -/
abbrev programFor (Client : Type) (setup : Setup Machine) :
    FlowChart (Thread Machine Client) (Machine → Office) (Pc Machine) (Sem Machine)
      (Lock Machine) (Cond Machine) (Choice Machine) Fault :=
  program setup

/-- The machine of a thread. -/
def machineOf (home : Client → Machine) : Thread Machine Client → Machine
  | .worker machine => machine
  | .client client => home client

/-- The machine that a semaphore belongs to. -/
def semMachine : SemRef (Sem Machine) (Lock Machine) → Machine
  | .named (.messageAvailable machine) | .named (.messageSent machine) => machine
  | .locked (.sendLock machine) | .locked (.list machine _) => machine

omit [DecidableEq Client] in
/-- With a lock in its hands a thread calls `P` only to wait for the report that its packet
was sent. -/
theorem waitSent_of_critical {pc : Pc Machine} {lock : Lock Machine}
    {sem : SemRef (Sem Machine) (Lock Machine)} (held : critical pc = some lock)
    (tests : SynchSystem.pSem (programFor Client setup) pc = some sem) :
    pc = ⟨pc.machine, .waitSent⟩ ∧ sem = .named (.messageSent pc.machine) := by
  obtain ⟨machine, point⟩ := pc
  cases point <;> cases tests <;> first | exact ⟨rfl, rfl⟩ | cases held

omit [DecidableEq Client] in
/-- Where the semaphores of the interrupt handlers are waited for. -/
theorem place_of_pSem {pc : Pc Machine} {sem : Sem Machine}
    (tests : SynchSystem.pSem (programFor Client setup) pc = some (.named sem)) :
    match sem with
    | .messageAvailable machine => pc = ⟨machine, .waitMessage⟩
    | .messageSent machine => pc = ⟨machine, .waitSent⟩ := by
  obtain ⟨machine, point⟩ := pc
  cases point <;> cases tests <;> rfl

/-- Nothing more happens on the machine until a client calls: its threads cannot take a step,
and its device has nothing to report. -/
structure Quiet (setup : Setup Machine) (home : Client → Machine)
    (s : System Machine Client) (machine : Machine) : Prop where
  threads : ∀ thread, machineOf home thread = machine →
    (s.threads thread).pc.point = .outside ∨ ¬ SynchSystem.CanStep (program setup) s thread
  devices : ∀ choice next, choice.device = machine →
    SynchSystem.step (program setup) s (.interrupt choice) = .ok next → next = s

/-- What holds in every state that a run reaches. -/
structure Healthy [Fintype Machine] [Fintype Client] (setup : Setup Machine)
    (home : Client → Machine) (s : System Machine Client) : Prop where
  sound : SynchSystem.Sound (program setup) s
  exclusive : Exclusive critical s.monitor
  invariant : Invariant setup home s.vars s.monitor.value s.monitor.stage
  progress : Progress s.vars s.monitor.value s.monitor.stage
  phases : ∀ thread, SynchSystem.PhaseFits (programFor Client setup) (s.threads thread)
  safe : ∃ initial, SynchSystem.SemsSafe (program setup) initial s.sems s.threads s.history

omit [DecidableEq Client] in
/-- A thread tests the semaphores of the machine whose code it runs. -/
theorem machine_of_pSem {pc : Pc Machine} {sem : SemRef (Sem Machine) (Lock Machine)}
    (tests : SynchSystem.pSem (programFor Client setup) pc = some sem) :
    pc.machine = semMachine sem := by
  obtain ⟨machine, point⟩ := pc
  cases point <;> cases tests <;> rfl

omit [DecidableEq Client] in
theorem machine_of_waitSem {pc : Pc Machine} {sem : SemRef (Sem Machine) (Lock Machine)}
    (tests : SynchSystem.waitSem (programFor Client setup) pc = some sem) :
    pc.machine = semMachine sem := by
  obtain ⟨machine, point⟩ := pc
  cases point <;> cases tests
  rfl

omit [DecidableEq Client] [DecidableEq Machine] in
theorem machine_of_critical {pc : Pc Machine} {lock : Lock Machine}
    (held : critical pc = some lock) : pc.machine = semMachine (.locked lock) := by
  obtain ⟨machine, point⟩ := pc
  cases point <;> cases held <;> rfl

/-- On a quiet machine no report is scheduled while `messageSent` has no unit. -/
theorem Quiet.scheduled_eq_zero (quiet : Quiet setup home s machine)
    (zero : (s.sems (.named (.messageSent machine))).value = 0) :
    (s.vars machine).network.scheduled = 0 := by
  by_contra busy
  let network : Network := { (s.vars machine).network with
    sendBusy := false
    scheduled := (s.vars machine).network.scheduled - 1 }
  let vars := Function.update s.vars machine { s.vars machine with network := network }
  have given : ({ s with vars := vars } : System Machine Client).v (.named (.messageSent machine)) =
      .ok (({ s with vars := vars } : System Machine Client).afterV
        (.named (.messageSent machine))) :=
    SynchSystem.v_eq_ok_iff.mpr ⟨by dsimp only; omega, rfl⟩
  have reported : SynchSystem.step (program setup) s
      (.interrupt ⟨.receive 0, fun _ => 0, machine, .sendDone⟩) =
      .ok (({ s with vars := vars } : System Machine Client).afterV
        (.named (.messageSent machine))) := by
    simp only [SynchSystem.step, program, interrupt, Network.sendDone, busy, if_false,
      Option.map_some, SynchSystem.vAll]
    rw [given]
    rfl
  have same := congrArg (fun next : System Machine Client => (next.vars machine).network.scheduled)
    (quiet.devices _ _ rfl reported)
  simp only [SynchSystem.afterV, vars, Function.update_self, network] at same
  omega

/-- On a quiet machine that has no packet to copy there is none in the socket. -/
theorem Quiet.socket_eq_nil (quiet : Quiet setup home s machine) {units : Int}
    {inHand : List Mail} (path : Path setup machine (s.vars machine) units inHand)
    (copied : (s.vars machine).network.inHdr.length = 0)
    (zero : (s.sems (.named (.messageAvailable machine))).value = 0) :
    (s.vars machine).socket = [] := by
  cases packets : (s.vars machine).socket with
  | nil => rfl
  | cons packet rest =>
      exfalso
      obtain ⟨mail, onWire, addressed⟩ := path.socket packet (by simp [packets])
      obtain ⟨inbox, -, polled⟩ := Network.checkPktAvail_cons copied onWire
        (addressed.receiver.trans path.ident.symm) rest
      let network : Network := { (s.vars machine).network with
        inHdr := mail.pktHdr
        inbox := inbox
        unread := true
        overwritten := (s.vars machine).network.overwritten +
          (s.vars machine).network.unread.toNat }
      let vars := Function.update s.vars machine { s.vars machine with
        network := network
        socket := rest }
      have given : ({ s with vars := vars } : System Machine Client).v
          (.named (.messageAvailable machine)) =
          .ok (({ s with vars := vars } : System Machine Client).afterV
            (.named (.messageAvailable machine))) :=
        SynchSystem.v_eq_ok_iff.mpr ⟨by dsimp only; omega, rfl⟩
      have arrives : SynchSystem.step (program setup) s
          (.interrupt ⟨.receive 0, fun _ => 0, machine, .poll⟩) =
          .ok (({ s with vars := vars } : System Machine Client).afterV
            (.named (.messageAvailable machine))) := by
        simp only [SynchSystem.step, program, interrupt, packets, polled, ok_bind]
        change SynchSystem.vAll ({ s with vars := vars } : System Machine Client) _ = _
        simp only [if_true, SynchSystem.vAll, given]
        rfl
      have same := congrArg (fun next : System Machine Client => (next.vars machine).socket)
        (quiet.devices _ _ rfl arrives)
      simp only [SynchSystem.afterV, vars, Function.update_self, packets] at same
      exact List.cons_ne_self _ _ same.symm

variable [Fintype Machine] [Fintype Client]

theorem alongRun_healthy (setup : Setup Machine) (home : Client → Machine)
    (actions : List (SynchSystem.Action (Thread Machine Client) (Choice Machine))) :
    AlongRun (SynchSystem.step (program setup)) (Healthy setup home) (boot setup home) actions := by
  have preserved : ∀ s next : State (Thread Machine Client) (Machine → Office) (Pc Machine)
      (Sem Machine) (Lock Machine) (Cond Machine),
      Exclusive critical s → Queued (program setup) s →
      Invariant setup home s.vars s.value s.stage ∧ Progress s.vars s.value s.stage →
      Step (program setup) s next →
      Invariant setup home next.vars next.value next.stage ∧
        Progress next.vars next.value next.stage := by
    rintro s next exclusive queued ⟨invariant, progress⟩ step
    exact ⟨invariant_step invariant step, progress.step exclusive queued step⟩
  have monitor := SynchSystem.alongRun_of_monitor (labelled setup)
    (fun thread => by cases thread <;> rfl) ⟨invariant_start, Progress.start setup home⟩
    preserved actions
  have progress := monitor.and (SynchSystem.alongRun_progress
    (fun machine => Office.new (setup.address machine)) (fun _ => le_rfl) (entry home) actions)
  apply progress.mono
  rintro s ⟨⟨sound, exclusive, invariant, progress⟩, initial, -, safe, phases⟩
  exact ⟨sound, exclusive, invariant, progress, phases, initial, safe⟩

namespace Healthy

variable (healthy : Healthy setup home s)
include healthy

omit [DecidableEq Client] in
/-- A thread runs the code of its own machine. -/
theorem machine_eq (thread : Thread Machine Client) :
    (s.threads thread).pc.machine = machineOf home thread := by
  have place := healthy.invariant.places thread
  rw [show (s.monitor.stage thread).pc = _ from SynchSystem.pc_stageOf _] at place
  cases thread <;> exact place.1

/-- A thread inside a call of the post office is not stopped by a check. -/
theorem canStep_of_call {thread : Thread Machine Client}
    (inside : (s.threads thread).pc.point ≠ .outside) (phase : (s.threads thread).phase = .call) :
    SynchSystem.CanStep (program setup) s thread := by
  have : Inhabited (Choice Machine) := ⟨⟨.receive 0, fun _ => 0, machineOf home thread, .poll⟩⟩
  refine healthy.sound.canStep_of_completes healthy.exclusive (labelled setup)
    (fun sem next => code_ne_v _ sem next) (fun body isRun => ?_) phase
  refine ⟨default, ?_⟩
  cases outcome : body thread default s.vars with
  | ok result => exact ⟨result, rfl⟩
  | error reason =>
      have here : s.monitor.stage thread = .active (s.threads thread).pc :=
        SynchSystem.stageOf_of_call phase
      exact absurd (healthy.invariant.failed here isRun outcome).1 inside

theorem canStep_of_ready {thread : Thread Machine Client}
    (phase : (s.threads thread).phase = .retryP ∨ (s.threads thread).phase = .reacquire ∨
      (s.threads thread).phase = .retryReacquire) :
    SynchSystem.CanStep (program setup) s thread := by
  have : Inhabited (Choice Machine) := ⟨⟨.receive 0, fun _ => 0, machineOf home thread, .poll⟩⟩
  exact healthy.sound.canStep_of_ready (healthy.phases thread) phase

omit [DecidableEq Client] in
/-- A client outside of the post office is about to call it. -/
theorem call_of_outside {thread : Thread Machine Client}
    (outside : (s.threads thread).pc.point = .outside) : (s.threads thread).phase = .call := by
  have fits := healthy.phases thread
  have atWait := healthy.sound.queued.atWait thread (s.threads thread).pc
  have noP : SynchSystem.pSem (programFor Client setup) (s.threads thread).pc = none := by
    simp [SynchSystem.pSem, program, code, outside]
  cases phase : (s.threads thread).phase with
  | call => rfl
  | sleepP => exact absurd noP (fits (Or.inl phase))
  | retryP => exact absurd noP (fits (Or.inr phase))
  | sleepWait | reacquire | sleepReacquire | retryReacquire =>
      obtain ⟨cond, target, isWait⟩ := atWait (by simp [SynchSystem.monitor, SynchSystem.stageOf,
        phase])
      rw [eq_of_isWait isWait] at outside
      cases outside

/-- On a quiet machine nobody is left who was woken by a `V`. -/
theorem noneWoken (quiet : Quiet setup home s machine)
    {sem : SemRef (Sem Machine) (Lock Machine)} (own : semMachine sem = machine) :
    count (SynchSystem.isWoken (programFor Client setup) sem) s.threads = 0 := by
  rw [count_eq_zero_iff]
  intro thread
  apply decide_eq_false
  intro woken
  have ready := SynchSystem.ready_of_wokenOn woken
  have here : (s.threads thread).pc.machine = semMachine sem := by
    unfold SynchSystem.wokenOn at woken
    split at woken
    · exact machine_of_pSem woken
    · exact machine_of_waitSem woken
    · cases woken
  rw [healthy.machine_eq, own] at here
  rcases quiet.threads thread here with outside | blocked
  · rw [healthy.call_of_outside outside] at ready
    simp at ready
  · exact blocked (healthy.canStep_of_ready ready)

/-- On a quiet machine a semaphore that a thread sleeps for has no unit. -/
theorem value_eq_zero (quiet : Quiet setup home s machine) {thread : Thread Machine Client}
    {sem : SemRef (Sem Machine) (Lock Machine)} (own : semMachine sem = machine)
    (asleep : SynchSystem.asleepOn (programFor Client setup) (s.threads thread) = some sem) :
    (s.sems sem).value = 0 := by
  obtain ⟨initial, safe⟩ := healthy.safe
  have queued := (healthy.sound.semQueues.mem_iff sem thread).mpr asleep
  obtain ⟨nonneg, -, units⟩ := safe sem
  have few := units (List.ne_nil_of_mem queued)
  rw [healthy.noneWoken quiet own] at few
  omega

/-- On a quiet machine all locks are free. -/
theorem holder_eq_none (quiet : Quiet setup home s machine) {lock : Lock Machine}
    (own : semMachine (.locked lock) = machine) : s.holder lock = none := by
  cases held : s.holder lock with
  | none => rfl
  | some thread =>
      exfalso
      have within : inside critical (SynchSystem.stageOf (s.threads thread)) = some lock :=
        (healthy.exclusive lock thread).mp held
      obtain ⟨here, active⟩ : critical (s.threads thread).pc = some lock ∧
          SynchSystem.stageOf (s.threads thread) = .active (s.threads thread).pc := by
        cases phase : (s.threads thread).phase <;>
          simp_all [SynchSystem.stageOf, inside]
      have inCall : (s.threads thread).pc.point ≠ .outside := by
        intro outside
        simp [critical, outside] at here
      have blocked : ¬ SynchSystem.CanStep (program setup) s thread := by
        apply (quiet.threads thread ?_).resolve_left inCall
        rw [← healthy.machine_eq, machine_of_critical here, own]
      cases phase : (s.threads thread).phase with
      | call => exact blocked (healthy.canStep_of_call inCall phase)
      | retryP | reacquire | retryReacquire =>
          exact blocked (healthy.canStep_of_ready (by simp [phase]))
      | sleepWait | sleepReacquire => simp [SynchSystem.stageOf, phase] at active
      | sleepP =>
          -- Inside of a lock a thread sleeps only for the report that its packet was sent.
          have calls := healthy.phases thread (Or.inl phase)
          obtain ⟨sem, tests⟩ := Option.ne_none_iff_exists'.mp calls
          have asleep : SynchSystem.asleepOn (programFor Client setup) (s.threads thread) =
              some sem := by
            simp [SynchSystem.asleepOn, phase, tests]
          obtain ⟨place, rfl⟩ := waitSent_of_critical here tests
          rw [machine_of_critical here, own] at place asleep
          have zero := healthy.value_eq_zero quiet rfl asleep
          have scheduled := quiet.scheduled_eq_zero zero
          have counted := healthy.progress.sent machine
          have waits : 0 < count (awaitsSent machine) s.monitor.stage := by
            apply count_pos thread
            rw [show s.monitor.stage thread = _ from active, place]
            simp [awaitsSent]
          change (s.sems (.named (.messageSent machine))).value + _ = _ at counted
          omega

/-- On a quiet machine nobody sleeps for a lock. -/
theorem asleepOn_ne_locked (quiet : Quiet setup home s machine) {lock : Lock Machine}
    (own : semMachine (.locked lock) = machine) (thread : Thread Machine Client) :
    SynchSystem.asleepOn (programFor Client setup) (s.threads thread) ≠ some (.locked lock) := by
  intro asleep
  have zero := healthy.value_eq_zero quiet own asleep
  exact (healthy.sound.free_iff lock).mpr (healthy.holder_eq_none quiet own) zero

/-- On a quiet machine a thread that is inside a call, or is the postal worker, sleeps: for
`messageAvailable`, which has no unit, or in `Receive`. -/
theorem asleep (quiet : Quiet setup home s machine) {thread : Thread Machine Client}
    (own : machineOf home thread = machine) (inCall : (s.threads thread).pc.point ≠ .outside) :
    (s.threads thread = ⟨⟨machine, .waitMessage⟩, .sleepP⟩ ∧
      (s.sems (.named (.messageAvailable machine))).value = 0) ∨
    ∃ box, s.threads thread = ⟨⟨machine, .getWait box⟩, .sleepWait⟩ := by
  have blocked := (quiet.threads thread own).resolve_left inCall
  have here := (healthy.machine_eq thread).trans own
  have atWait := healthy.sound.queued.atWait thread (s.threads thread).pc
  have free : ∀ lock, semMachine (.locked lock) = machine →
      SynchSystem.asleepOn (programFor Client setup) (s.threads thread) ≠ some (.locked lock) :=
    fun lock own => healthy.asleepOn_ne_locked quiet own thread
  cases phase : (s.threads thread).phase with
  | call => exact absurd (healthy.canStep_of_call inCall phase) blocked
  | retryP | reacquire | retryReacquire =>
      exact absurd (healthy.canStep_of_ready (by simp [phase])) blocked
  | sleepWait =>
      obtain ⟨cond, target, isWait⟩ := atWait (by simp [SynchSystem.monitor, SynchSystem.stageOf,
        phase])
      have place := eq_of_isWait isWait
      rw [place] at here
      cases here
      exact Or.inr ⟨cond.box, by rw [← place, ← phase]⟩
  | sleepReacquire =>
      obtain ⟨cond, target, isWait⟩ := atWait (by simp [SynchSystem.monitor, SynchSystem.stageOf,
        phase])
      have place := eq_of_isWait isWait
      rw [place] at here
      refine absurd ?_ (free (.list cond.machine cond.box) here)
      simp [SynchSystem.asleepOn, phase, SynchSystem.waitSem, program, code, place]
  | sleepP =>
      obtain ⟨sem, tests⟩ := Option.ne_none_iff_exists'.mp (healthy.phases thread (Or.inl phase))
      have asleep : SynchSystem.asleepOn (programFor Client setup) (s.threads thread) =
          some sem := by
        simp [SynchSystem.asleepOn, phase, tests]
      have own : semMachine sem = machine := (machine_of_pSem tests).symm.trans here
      cases sem with
      | locked lock => exact absurd asleep (free lock own)
      | named sem =>
          have zero := healthy.value_eq_zero quiet own asleep
          cases sem with
          | messageAvailable other =>
              obtain rfl : other = machine := own
              have place : (s.threads thread).pc = ⟨other, .waitMessage⟩ := place_of_pSem tests
              exact Or.inl ⟨by rw [← place, ← phase], zero⟩
          | messageSent other =>
              obtain rfl : other = machine := own
              have place : (s.threads thread).pc = ⟨other, .waitSent⟩ := place_of_pSem tests
              have held : critical (s.threads thread).pc = some (.sendLock other) := by
                rw [place]
                rfl
              have within : s.holder (.sendLock other) = some thread := by
                apply (healthy.exclusive _ _).mpr
                simp only [SynchSystem.monitor, SynchSystem.stageOf, phase]
                exact held
              rw [healthy.holder_eq_none quiet rfl] at within
              cases within

/-- On a quiet machine all messages are in the mailboxes. -/
theorem delivered (quiet : Quiet setup home s machine) (box : CInt) :
    toBox box (s.vars machine).accepted = ((s.vars machine).boxes box).removed ++
      ((s.vars machine).boxes box).list.items := by
  have place := healthy.invariant.places (.worker machine)
  have inCall : (s.threads (.worker machine)).pc.point ≠ .outside := by
    intro outside
    have here : s.monitor.stage (.worker machine) = .active (s.threads (.worker machine)).pc :=
      SynchSystem.stageOf_of_call (healthy.call_of_outside outside)
    rw [here] at place
    unfold Fits at place
    simp [outside] at place
  rcases healthy.asleep quiet (show machineOf home (.worker machine) = machine from rfl) inCall with
    ⟨here, zero⟩ | ⟨other, here⟩
  · have path := healthy.invariant.path machine
    have stage : s.monitor.stage (.worker machine) = .active ⟨machine, .waitMessage⟩ := by
      simp [SynchSystem.monitor, SynchSystem.stageOf, here]
    have value : s.monitor.value (.messageAvailable machine) = 0 := zero
    rw [stage, value] at path
    have copied : (s.vars machine).network.inHdr.length = 0 := by
      by_contra full
      have units := path.units
      rw [if_neg full] at units
      cases units
    have order := path.order box
    rw [quiet.socket_eq_nil path copied zero, buffered, if_pos copied] at order
    rw [order, path.fifo box]
    simp [inHand, toBox]
  · have stage : (s.monitor.stage (.worker machine)).pc = ⟨machine, .getWait other⟩ := by
      simp [SynchSystem.monitor, SynchSystem.stageOf, here]
    rw [stage] at place
    exact place.2.elim

/-- On a quiet machine the mailbox of a client that sleeps is empty. -/
theorem items_eq_nil (quiet : Quiet setup home s machine) {thread : Thread Machine Client}
    {box : CInt} (here : s.threads thread = ⟨⟨machine, .getWait box⟩, .sleepWait⟩) :
    ((s.vars machine).boxes box).list.items = [] := by
  have free := healthy.holder_eq_none quiet (show semMachine (.locked (.list machine box)) =
    machine from rfl)
  have outside : ∀ place, SynchList.critical place = some () →
      census (viewStage ⟨machine, box⟩ ∘ s.monitor.stage) (.active place) = 0 := by
    intro place held
    rw [census_eq_zero_iff]
    intro other seen
    cases stage : s.monitor.stage other with
    | active pc =>
        rw [Function.comp_apply, stage] at seen
        cases seen
        have within : s.holder (.list machine box) = some other := by
          apply (healthy.exclusive _ _).mpr
          rw [stage]
          exact critical_of_view held
        rw [free] at within
        cases within
    | waiting pc | signalled pc =>
        rw [Function.comp_apply, stage, viewStage] at seen
        split at seen <;> cases seen
        cases held
  have nobody : census (viewStage ⟨machine, box⟩ ∘ s.monitor.stage)
      (.signalled .removeWait) = 0 := by
    rw [census_eq_zero_iff]
    intro other seen
    cases stage : s.monitor.stage other with
    | active pc =>
        rw [Function.comp_apply, stage] at seen
        cases seen
    | waiting pc =>
        rw [Function.comp_apply, stage, viewStage] at seen
        split at seen <;> cases seen
    | signalled pc =>
        rw [Function.comp_apply, stage, viewStage] at seen
        split at seen
        · next isWait =>
          have place : (s.threads other).pc = ⟨machine, .getWait box⟩ := by
            rw [← SynchSystem.pc_stageOf, show SynchSystem.stageOf (s.threads other) = _ from stage]
            exact eq_of_view_removeWait isWait
          have own : machineOf home other = machine := by
            rw [← healthy.machine_eq, place]
          rcases healthy.asleep quiet own (by simp [place]) with ⟨here, -⟩ | ⟨waited, here⟩
          · rw [here] at place
            cases place
          · simp [SynchSystem.monitor, SynchSystem.stageOf, here] at stage
        · cases seen
  have waits : 0 < census (viewStage ⟨machine, box⟩ ∘ s.monitor.stage)
      (.waiting .removeWait) := by
    apply census_pos thread
    simp [SynchSystem.monitor, SynchSystem.stageOf, here, viewStage, view, atBox]
  have few := (healthy.progress.boxed ⟨machine, box⟩).awake waits
  rw [nobody, outside _ rfl, outside _ rfl] at few
  exact List.eq_nil_of_length_eq_zero (Nat.le_zero.mp few)

/-- On a quiet machine a client that is not outside of the post office sleeps in `Receive`, and
its mailbox is empty. -/
theorem client_asleep (quiet : Quiet setup home s machine) {client : Client}
    (own : home client = machine)
    (inCall : (s.threads (.client client)).pc.point ≠ .outside) :
    ∃ box, s.threads (.client client) = ⟨⟨machine, .getWait box⟩, .sleepWait⟩ ∧
      ((s.vars machine).boxes box).list.items = [] := by
  rcases healthy.asleep quiet (show machineOf home (.client client) = machine from own) inCall with
    ⟨here, -⟩ | ⟨box, here⟩
  · have place := healthy.invariant.places (.client client)
    rw [show (s.monitor.stage (.client client)).pc = _ from SynchSystem.pc_stageOf _, here] at place
    exact place.2.elim
  · exact ⟨box, here, healthy.items_eq_nil quiet here⟩

end Healthy

/-- In every state that a run reaches: when nothing more happens on a machine until one of its
clients calls the post office, every message that the network has accepted for it was taken out
of its mailbox or is there, in the order of acceptance, and each client is outside of the post
office or sleeps in `Receive` for an empty mailbox.  So no message and no wakeup is lost, and
nobody is stuck in `Send`. -/
theorem nothing_left_behind (setup : Setup Machine) (home : Client → Machine)
    (actions : List (SynchSystem.Action (Thread Machine Client) (Choice Machine))) :
    AlongRun (SynchSystem.step (program setup)) (fun s => ∀ machine,
      Quiet setup home s machine →
        (∀ box, toBox box (s.vars machine).accepted = ((s.vars machine).boxes box).removed ++
          ((s.vars machine).boxes box).list.items) ∧
        ∀ client, home client = machine →
          (s.threads (.client client)).pc.point = .outside ∨
          ∃ box, s.threads (.client client) = ⟨⟨machine, .getWait box⟩, .sleepWait⟩ ∧
            ((s.vars machine).boxes box).list.items = [])
      (boot setup home) actions := by
  apply (alongRun_healthy setup home actions).mono
  intro s healthy machine quiet
  refine ⟨healthy.delivered quiet, fun client own => ?_⟩
  by_cases outside : (s.threads (.client client)).pc.point = .outside
  · exact Or.inl outside
  · exact Or.inr (healthy.client_asleep quiet own outside)

end Quiet

end PostOffice

end Nachos
