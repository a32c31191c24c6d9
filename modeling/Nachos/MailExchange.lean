import Nachos.MailTest

/-!
# The exchange of the mail test

Whatever the order of the steps, the main threads keep the invariant of `MailTest`, no check of
theirs or of the post offices fails, and when nothing more can happen all machines have
halted.
-/

namespace Nachos

open TransitionRuns LittleEndianWords ListSplice PostOffice

namespace MailTest

variable {Machine : Type} {net : Wiring Machine} [DecidableEq Machine] {s next : State Machine}
  {machine : Machine}

section Steps

theorem Reached.extend {system changed : System Machine Machine} (reached : Reached net system)
    {action : SynchSystem.Action (Thread Machine Machine) (Choice Machine)}
    (done : SynchSystem.step (program net.setup) system action = .ok changed) :
    Reached net changed := by
  obtain ⟨actions, before⟩ := reached
  exact ⟨actions ++ [action],
    run_append_eq_ok_iff.mpr ⟨system, before, by rw [run_cons_of_ok done, run_nil]⟩⟩

/-- The messages that were taken out of a mailbox are a prefix of those for it. -/
theorem Reached.removed_prefix {system : System Machine Machine} (reached : Reached net system)
    (machine : Machine) (box : CInt) :
    ((system.vars machine).boxes box).removed <+: toBox box (system.vars machine).accepted := by
  obtain ⟨actions, done⟩ := reached
  exact (alongRun_last (delivery net.setup id actions) done).1 machine box

theorem perform_eq_ok_iff {action : SynchSystem.Action (Thread Machine Machine) (Choice Machine)} :
    net.perform s action = .ok next ↔ ∃ system,
      SynchSystem.step (program net.setup) s.system action = .ok system ∧
      next = { s with system := system } := by
  unfold Wiring.perform
  rw [bind_eq_ok_iff]
  constructor
  · rintro ⟨system, stepped, done⟩
    cases done
    exact ⟨system, stepped, rfl⟩
  · rintro ⟨system, stepped, rfl⟩
    exact ⟨system, stepped, rfl⟩

variable [Fintype Machine]

theorem Reached.healthy {system : System Machine Machine} (reached : Reached net system) :
    Healthy net.setup id system := by
  obtain ⟨actions, done⟩ := reached
  exact alongRun_last (alongRun_healthy net.setup id actions) done

/-- A device, or a postal worker. -/
theorem Invariant.perform_other (invariant : Invariant net s)
    {action : SynchSystem.Action (Thread Machine Machine) (Choice Machine)}
    (other : ∀ machine choice, action ≠ .thread (.client machine) choice)
    (done : net.perform s action = .ok next) : Invariant net next := by
  obtain ⟨system, stepped, rfl⟩ := perform_eq_ok_iff.mp done
  have reached := invariant.reached.extend stepped
  cases action with
  | interrupt choice =>
      simp only [SynchSystem.step] at stepped
      split at stepped
      · cases stepped
      · cases stepped
      · next vars sems pending =>
        obtain ⟨kept, points⟩ := SynchSystem.vAll_pc stepped
        refine invariant.unnoticed reached ?_ rfl fun machine => ?_
        · dsimp only
          rw [kept]
          exact sameRecords_of_interrupt pending
        · exact congrArg Pc.point (points (.client machine))
  | thread thread choice =>
      obtain ⟨others, leads⟩ := SynchSystem.stepThread_leads stepped
      cases thread with
      | client machine => exact absurd rfl (other machine choice)
      | worker worker =>
          refine invariant.unnoticed reached ?_ rfl fun machine => ?_
          · have place := invariant.reached.healthy.invariant.places (.worker worker)
            rw [show (s.system.monitor.stage (.worker worker)).pc = _ from
              SynchSystem.pc_stageOf _] at place
            cases code : (program net.setup).code (s.system.threads (.worker worker)).pc with
            | run body =>
                rw [code] at leads
                refine sameRecords_of_run code leads (fun receiver mail here => ?_)
                  fun box here => ?_
                · unfold Fits at place
                  simp [here] at place
                · unfold Fits at place
                  simp [here] at place
            | _ =>
                rw [code] at leads
                dsimp only
                rw [leads.1]
                exact .refl _
          · exact congrArg Pc.point (others (.client machine) (by simp))

/-- What a step of the main thread does in the post office. -/
theorem perform_main {choice : Choice Machine}
    (done : net.perform s (.thread (.client machine) choice) = .ok next)
    (reached : Reached net s.system) :
    Reached net next.system ∧ next.mains = s.mains ∧
    (∀ other, other ≠ machine → next.point other = s.point other) ∧
    SynchSystem.Leads (.client machine) choice s.system.vars ⟨machine, s.point machine⟩
      next.system.vars ⟨machine, next.point machine⟩
      (code net.setup ⟨machine, s.point machine⟩) := by
  obtain ⟨system, stepped, rfl⟩ := perform_eq_ok_iff.mp done
  have later := reached.extend stepped
  obtain ⟨others, leads⟩ := SynchSystem.stepThread_leads stepped
  have before : (s.system.threads (.client machine)).pc = ⟨machine, s.point machine⟩ :=
    congrArg (fun place => Pc.mk place _) (reached.healthy.machine_eq (.client machine))
  have after : (system.threads (.client machine)).pc =
      ⟨machine, ({ s with system := system } : State Machine).point machine⟩ :=
    congrArg (fun place => Pc.mk place _) (later.healthy.machine_eq (.client machine))
  rw [before, after] at leads
  exact ⟨later, rfl, fun other different =>
    congrArg Pc.point (others (.client other) (by simpa using different)), leads⟩

omit [Fintype Machine] in
/-- The main thread is in an operation on a semaphore, a lock or a condition variable. -/
theorem Invariant.operate (invariant : Invariant net s) (reached : Reached net next.system)
    (mains : next.mains = s.mains)
    (others : ∀ other, other ≠ machine → next.point other = s.point other)
    {position : Position} {point target : Point Machine}
    (before : (s.mains machine).position = position ∧ s.point machine = point)
    (leads : next.system.vars = s.system.vars ∧
      ((⟨machine, next.point machine⟩ : Pc Machine) = ⟨machine, point⟩ ∨
        (⟨machine, next.point machine⟩ : Pc Machine) = ⟨machine, target⟩))
    (place : Place net machine position target)
    (inside : ∀ message, position = .receiving message → target ≠ .outside)
    (sent : ∀ message, hasSent message position target = hasSent message position point)
    (got : ∀ message, hasGot message position target = hasGot message position point) :
    Invariant net next := by
  obtain ⟨vars, stays | goes⟩ := leads
  · refine invariant.unnoticed reached (vars ▸ .refl _) mains fun other => ?_
    by_cases same : other = machine
    · subst same
      exact (Pc.mk.inj stays).2.trans before.2.symm
    · exact others other same
  · exact invariant.advance reached (vars ▸ .refl _) mains others before (Pc.mk.inj goes).2 place
      inside sent got

theorem Invariant.perform_operation (invariant : Invariant net s) {choice : Choice Machine}
    (done : net.perform s (.thread (.client machine) choice) = .ok next)
    (operation : ∀ body, (code net.setup ⟨machine, s.point machine⟩ :
      MesaMonitor.Instr (Thread Machine Machine) _ _ _ _ _ _ _) ≠ .run body) :
    Invariant net next := by
  obtain ⟨reached, mains, others, leads⟩ := perform_main done invariant.reached
  have place := invariant.place machine
  generalize here : s.point machine = point at place leads operation
  generalize at_ : (s.mains machine).position = position at place
  cases place with
  | start | send | sent | getTest | received | got | halted => exact absurd rfl (operation _)
  | sendAcquire message =>
      exact invariant.operate reached mains others ⟨at_, here⟩ leads (.send message) (by simp)
        (fun _ => rfl) fun _ => rfl
  | waitSent message =>
      exact invariant.operate reached mains others ⟨at_, here⟩ leads (.sendRelease message)
        (by simp) (fun _ => rfl) fun _ => rfl
  | sendRelease message =>
      exact invariant.operate reached mains others ⟨at_, here⟩ leads (.sent message) (by simp)
        (fun _ => rfl) fun _ => rfl
  | getAcquire message =>
      exact invariant.operate reached mains others ⟨at_, here⟩ leads (.getTest message) (by simp)
        (fun _ => rfl) fun _ => rfl
  | getWait message =>
      exact invariant.operate reached mains others ⟨at_, here⟩ leads (.getTest message) (by simp)
        (fun _ => rfl) fun _ => rfl
  | getRelease message =>
      exact invariant.operate reached mains others ⟨at_, here⟩ leads (.received message) (by simp)
        (fun _ => rfl) fun _ => rfl

/-- The main thread hands its packet to the device. -/
theorem Invariant.perform_send (invariant : Invariant net s) {choice : Choice Machine}
    (done : net.perform s (.thread (.client machine) choice) = .ok next) {message : Message}
    (at_ : (s.mains machine).position = .sending message)
    (here : s.point machine =
      .send ((net.sender message).symm machine) (net.mail message machine)) :
    Invariant net next := by
  obtain ⟨reached, mains, others, leads⟩ := perform_main done invariant.reached
  rw [here] at leads
  obtain ⟨offices, transmitted, leads⟩ := bind_eq_ok_iff.mp leads
  obtain ⟨rfl, target⟩ := Prod.mk.inj (Except.ok.inj leads)
  have waits : next.point machine = .waitSent := (Pc.mk.inj target).2.symm
  have records := records_of_transmit transmitted
  -- Nothing else than this message counts as sent now.
  have sent : ∀ other from_, ¬ (other = message ∧ from_ = machine) →
      hasSent other (next.mains from_).position (next.point from_) =
        hasSent other (s.mains from_).position (s.point from_) := by
    intro other from_ different
    rw [mains]
    by_cases same : from_ = machine
    · subst same
      rw [at_, here, waits]
      cases other <;> cases message <;> first | rfl | exact absurd ⟨rfl, rfl⟩ different
    · rw [others from_ same]
  refine invariant.move reached (fun other different => ⟨by rw [mains], others other different⟩)
    ?_ ?_ (fun other place => ?_) fun other place => ?_
  · rw [mains, at_, waits]
    exact .waitSent message
  · obtain ⟨reply, -, output⟩ := invariant.locals machine
    rw [mains, waits]
    exact ⟨reply, (fun _ _ outside => by cases outside), output⟩
  · rw [(records place).1]
    have before := invariant.accepted other place
    by_cases this : other = message ∧ net.sender other place = machine
    · obtain ⟨rfl, rfl⟩ := this
      rw [if_pos ((net.sender other).symm_apply_apply place).symm, toBox, List.filter_append,
        ← toBox, before, mains, at_, here, waits]
      cases other <;> rfl
    · rw [sent other _ this, ← before]
      split
      next there =>
        subst there
        have different : other ≠ message := by
          rintro rfl
          exact this ⟨rfl, (net.sender other).apply_symm_apply machine⟩
        rw [toBox, List.filter_append, ← toBox, List.filter_singleton]
        cases other <;> cases message <;>
          first | exact absurd rfl different | exact List.append_nil _
      next => rfl
  · rw [(records place).2, invariant.removed, mains]
    by_cases same : place = machine
    · subst same
      rw [at_, here, waits]
      rfl
    · rw [others place same]

/-- The main thread looks for a message in its mailbox. -/
theorem Invariant.perform_getTest (invariant : Invariant net s) {choice : Choice Machine}
    (done : net.perform s (.thread (.client machine) choice) = .ok next) {message : Message}
    (at_ : (s.mains machine).position = .receiving message)
    (here : s.point machine = .getTest message.box) : Invariant net next := by
  obtain ⟨reached, mains, others, leads⟩ := perform_main done invariant.reached
  rw [here] at leads
  rcases records_of_getTest leads with ⟨target, records⟩ | ⟨mail, target, accepted, removed⟩
  · exact invariant.advance reached records mains others ⟨at_, here⟩ (Pc.mk.inj target).2
      (.getWait message) (by simp) (fun _ => rfl) fun _ => rfl
  have holds : next.point machine = .getRelease message.box mail := (Pc.mk.inj target).2
  have sent : ∀ other from_, hasSent other (next.mains from_).position (next.point from_) =
      hasSent other (s.mains from_).position (s.point from_) := by
    intro other from_
    rw [mains]
    by_cases same : from_ = machine
    · subst same
      rw [at_, here, holds]
      rfl
    · rw [others from_ same]
  -- What was taken out is what was sent.
  have taken : mail = net.mail message (net.sender message machine) := by
    have notYet : hasGot message (.receiving message) (.getTest message.box : Point Machine) =
        false := by cases message <;> rfl
    have isPrefix := reached.removed_prefix machine message.box
    rw [removed, if_pos ⟨rfl, rfl⟩, invariant.removed, at_, here, notYet,
      if_neg Bool.false_ne_true, List.nil_append, accepted, invariant.accepted message machine]
      at isPrefix
    split at isPrefix
    · simpa using isPrefix
    · simp at isPrefix
  subst taken
  refine invariant.move reached (fun other different => ⟨by rw [mains], others other different⟩)
    ?_ ?_ (fun other place => ?_) fun other place => ?_
  · rw [mains, at_, holds]
    exact .getRelease message
  · obtain ⟨reply, -, output⟩ := invariant.locals machine
    rw [mains, holds]
    exact ⟨reply, (fun _ _ outside => by cases outside), output⟩
  · rw [accepted, sent]
    exact invariant.accepted other place
  · rw [removed, invariant.removed, mains]
    by_cases same : place = machine
    · subst same
      rw [at_, here, holds]
      simp only [true_and]
      cases other <;> cases message <;> rfl
    · rw [if_neg fun both => same both.1, others place same]

/-- `Receive` stores the message. -/
theorem Invariant.perform_received (invariant : Invariant net s) {choice : Choice Machine}
    {message : Message} (at_ : (s.mains machine).position = .receiving message)
    (here : s.point machine = .received (net.mail message (net.sender message machine)))
    (done : net.perform { s with
      mains := Function.update s.mains machine
        ((s.mains machine).read (net.mail message (net.sender message machine))) }
      (.thread (.client machine) choice) = .ok next) : Invariant net next := by
  obtain ⟨reached, mains, others, leads⟩ := perform_main done invariant.reached
  change SynchSystem.Leads _ _ s.system.vars ⟨machine, s.point machine⟩ _ _
    (code net.setup ⟨machine, s.point machine⟩) at leads
  rw [here] at leads
  dsimp only [SynchSystem.Leads, code] at leads
  split at leads
  case isFalse => cases leads
  obtain ⟨vars, target⟩ := Prod.mk.inj (Except.ok.inj leads)
  have returns : next.point machine = .outside := (Pc.mk.inj target).2.symm
  have stored : next.mains machine =
      (s.mains machine).read (net.mail message (net.sender message machine)) := by
    rw [mains]
    exact Function.update_self _ _ _
  refine invariant.keep reached (vars ▸ .refl _)
    (fun other (different : other ≠ machine) => ⟨?_, ?_⟩) ?_ ?_ ?_ ?_
  · rw [mains]
    exact Function.update_of_ne different _ _
  · exact others other different
  · rw [stored, returns]
    exact at_ ▸ .got message
  · obtain ⟨reply, -, output⟩ := invariant.locals machine
    rw [stored, returns]
    refine ⟨reply, fun other receiving _ => ?_, output⟩
    cases receiving.symm.trans at_
    exact ⟨rfl, rfl, _, splice_zero _ _⟩
  · intro other
    rw [stored, returns, here]
    show hasSent other (s.mains machine).position _ = _
    rw [at_]
    rfl
  · intro other
    rw [stored, returns, here]
    show hasGot other (s.mains machine).position _ = _
    rw [at_]
    rfl

/-- The calls that the main thread makes from its positions. -/
inductive Calls (net : Wiring Machine) (machine : Machine) :
    Position → Position → Option (Call Machine) → Prop
  | data : Calls net machine .start (.sending .data) (some (.send (net.letter .data machine)))
  | receive (message : Message) : Calls net machine (.sending message) (.receiving message)
      (some (.receive message.box))
  | ack : Calls net machine (.receiving .data) (.sending .ack)
      (some (.send (net.letter .ack machine)))
  | halt : Calls net machine (.receiving .ack) .halted none

omit [DecidableEq Machine] in
theorem machineAt_address (net : Wiring Machine) (machine : Machine) :
    net.machineAt (net.address machine) = some machine := by
  have there : net.address machine ∈ Set.range net.address := ⟨machine, rfl⟩
  rw [Wiring.machineAt, dif_pos there]
  exact congrArg some (net.address.injective.right_inv_of_invOfMemRange machine)

omit [DecidableEq Machine] [Fintype Machine] in
/-- A message that has been received is printed up to the zero at its end. -/
theorem print_eq {main : Main} {message : Message}
    (holds : main.Holds (net.mail message (net.sender message machine))) :
    main.print = .ok { main with output := main.output ++ [net.line message machine] } := by
  obtain ⟨packet, letter, rest, data⟩ := holds
  have text : main.buffer = message.characters ++ (0 :: rest) := by
    rw [data]
    cases message <;> rfl
  have whole : message.characters.all (· != 0) = true := by
    cases message <;> rfl
  rw [Main.print, if_pos (by simp [text]), text,
    List.takeWhile_append_of_pos (List.all_eq_true.mp whole),
    List.takeWhile_cons_of_neg (by decide), List.append_nil, packet, letter]
  cases message <;> rfl

omit [DecidableEq Machine] in
/-- `MailTest` goes on to its next call. -/
theorem proceed_eq {main : Main} (place : Place net machine main.position .outside)
    (locals : Locals net machine main .outside) (going : main.position ≠ .halted) :
    ∃ after call, net.proceed machine main = .ok (after, call) ∧
      Calls net machine main.position after.position call ∧ after.outMailHdr.sender = 1 ∧
      after.output = net.printed machine after.position := by
  obtain ⟨reply, holds, output⟩ := locals
  generalize at_ : main.position = position at place going output
  cases place with
  | halted => exact absurd rfl going
  | start =>
      refine ⟨{ main with
        position := .sending .data
        receiver := net.address (net.far machine)
        outMailHdr := Message.data.header }, _, ?_, .data, rfl, output⟩
      rw [Wiring.proceed, at_]
      dsimp only [Wiring.send]
      rw [machineAt_address]
      rfl
  | sent message =>
      refine ⟨{ main with position := .receiving message }, _, ?_, .receive message,
        reply (by simp [at_]), ?_⟩
      · rw [Wiring.proceed, at_]
      · cases message <;> exact output
  | got message =>
      have held := holds message at_ rfl
      cases message with
      | data =>
          have sender : main.inPktHdr.sender = net.address (net.far.symm machine) := by
            rw [held.packet]
            rfl
          have box : main.inMailHdr.sender = 1 := by
            rw [held.letter]
            rfl
          have header : { main.outMailHdr with
              receiver := main.inMailHdr.sender
              length := BitVec.ofNat 32 Message.ack.text.length } = Message.ack.header := by
            show MailHeader.mk _ main.outMailHdr.sender _ = _
            rw [box, reply (by simp [at_])]
            rfl
          refine ⟨{ main with
            position := .sending .ack
            receiver := main.inPktHdr.sender
            outMailHdr := Message.ack.header
            output := main.output ++ [net.line .data machine] }, _, ?_, .ack, rfl, ?_⟩
          · rw [Wiring.proceed, at_]
            dsimp only
            rw [print_eq held]
            dsimp only [Wiring.send, bind, Except.bind]
            rw [header, sender, machineAt_address]
            rfl
          · rw [output]
            rfl
      | ack =>
          refine ⟨{ main with
            position := .halted
            output := main.output ++ [net.line .ack machine] }, _, ?_, .halt,
            reply (by simp [at_]), ?_⟩
          · rw [Wiring.proceed, at_]
            dsimp only
            rw [print_eq held]
            rfl
          · rw [output]
            rfl

omit [DecidableEq Machine] [Fintype Machine] in
/-- The calls pass the checks of the post office. -/
theorem Calls.legal {position reached : Position} {call : Call Machine}
    (calls : Calls net machine position reached (some call)) : net.setup.Legal call := by
  cases calls with
  | data => exact Message.data.fits
  | ack => exact Message.ack.fits
  | receive message => exact message.fits.2.1

/-- Where a call of the post office starts. -/
def Wiring.entrance (net : Wiring Machine) (machine : Machine) : Call Machine → Point Machine
  | .send letter => .sendAcquire letter.receiver (net.setup.mailOf machine letter)
  | .receive box => .getAcquire box

omit [Fintype Machine] in
/-- A call that passes the checks of the post office only starts there. -/
theorem leads_call (machine : Machine) (choice : Choice Machine) (offices : Machine → Office)
    {after : Machine → Office} {target : Pc Machine} (legal : net.setup.Legal choice.call) :
    SynchSystem.Leads (.client machine : Thread Machine Machine) choice offices ⟨machine, .outside⟩
      after target (code net.setup ⟨machine, .outside⟩) ↔
    after = offices ∧ target = ⟨machine, net.entrance machine choice.call⟩ := by
  dsimp only [SynchSystem.Leads, code]
  generalize choice.call = call at legal
  cases call with
  | send letter =>
      obtain ⟨short, box, enough⟩ := legal
      dsimp only
      rw [Setup.post, if_pos ⟨short, box⟩, if_pos enough]
      constructor
      · intro done
        cases done
        exact ⟨rfl, rfl⟩
      · rintro ⟨rfl, rfl⟩
        rfl
  | receive box =>
      dsimp only
      rw [if_pos (show net.setup.IsBox box from legal)]
      constructor
      · intro done
        cases done
        exact ⟨rfl, rfl⟩
      · rintro ⟨rfl, rfl⟩
        rfl

omit [DecidableEq Machine] [Fintype Machine] in
/-- At the start of a call nothing has been sent or got yet. -/
theorem Calls.enters {position reached : Position} {call : Call Machine}
    (calls : Calls net machine position reached (some call)) :
    Place net machine reached (net.entrance machine call) ∧
    net.entrance machine call ≠ .outside ∧ ∀ message,
      hasSent message reached (net.entrance machine call) =
        hasSent message position (.outside : Point Machine) ∧
      hasGot message reached (net.entrance machine call) =
        hasGot message position (.outside : Point Machine) := by
  cases calls with
  | data =>
      refine ⟨.sendAcquire .data, by simp [Wiring.entrance], fun message => ?_⟩
      cases message <;> exact ⟨rfl, rfl⟩
  | ack =>
      refine ⟨.sendAcquire .ack, by simp [Wiring.entrance], fun message => ?_⟩
      cases message <;> exact ⟨rfl, rfl⟩
  | receive message => exact ⟨.getAcquire message, by simp [Wiring.entrance], fun _ => ⟨rfl, rfl⟩⟩

/-- The main thread calls the post office. -/
theorem Invariant.perform_call (invariant : Invariant net s) {choice : Choice Machine}
    {main : Main} {call : Call Machine}
    (calls : Calls net machine (s.mains machine).position main.position (some call))
    (here : s.point machine = .outside) (reply : main.outMailHdr.sender = 1)
    (output : main.output = net.printed machine main.position)
    (done : net.perform { s with mains := Function.update s.mains machine main }
      (.thread (.client machine) { choice with call := call }) = .ok next) :
    Invariant net next := by
  obtain ⟨reached, mains, others, leads⟩ := perform_main done invariant.reached
  change SynchSystem.Leads _ _ s.system.vars ⟨machine, s.point machine⟩ _ _
    (code net.setup ⟨machine, s.point machine⟩) at leads
  rw [here] at leads
  obtain ⟨vars, target⟩ := (leads_call _ _ _ calls.legal).mp leads
  have point : next.point machine = net.entrance machine call := (Pc.mk.inj target).2
  obtain ⟨place, inside, records⟩ := calls.enters
  have stored : next.mains machine = main := by
    rw [mains]
    exact Function.update_self _ _ _
  refine invariant.keep reached (vars ▸ .refl _)
    (fun other (different : other ≠ machine) => ⟨?_, others other different⟩) ?_ ?_ ?_ ?_
  · rw [mains]
    exact Function.update_of_ne different _ _
  · rw [stored, point]
    exact place
  · rw [stored, point]
    exact ⟨fun _ => reply, fun _ _ outside => absurd outside inside, output⟩
  · intro message
    rw [stored, point, here]
    exact (records message).1
  · intro message
    rw [stored, point, here]
    exact (records message).2

omit [Fintype Machine] in
/-- The main thread halts the machine. -/
theorem Invariant.halt (invariant : Invariant net s) {main : Main}
    (calls : Calls net machine (s.mains machine).position main.position none)
    (here : s.point machine = .outside) (reply : main.outMailHdr.sender = 1)
    (output : main.output = net.printed machine main.position)
    (system : next.system = s.system) (mains : next.mains = Function.update s.mains machine main) :
    Invariant net next := by
  have points : ∀ other, next.point other = s.point other := by
    intro other
    rw [State.point, system]
    rfl
  have stored : next.mains machine = main := by
    rw [mains]
    exact Function.update_self _ _ _
  refine invariant.keep (system ▸ invariant.reached) (system ▸ .refl _)
    (fun other (different : other ≠ machine) => ⟨?_, points other⟩) ?_ ?_ (fun message => ?_)
    fun message => ?_
  · rw [mains]
    exact Function.update_of_ne different _ _
  all_goals rw [points, here, stored]
  all_goals
    generalize (s.mains machine).position = position at calls ⊢
    generalize at_ : main.position = reached at calls
    cases calls
  · exact .halted
  · exact ⟨fun _ => reply, fun _ receiving => by simp [at_] at receiving, output⟩
  · cases message <;> rfl
  · cases message <;> rfl

/-- Outside of the post office, the main thread makes its next call or halts. -/
theorem stepMain_outside (here : s.point machine = .outside) {choice : Choice Machine}
    {main : Main} {call : Option (Call Machine)}
    (proceeds : net.proceed machine (s.mains machine) = .ok (main, call)) :
    net.stepMain s machine choice =
      call.elim (.ok { s with mains := Function.update s.mains machine main }) fun call =>
        net.perform { s with mains := Function.update s.mains machine main }
          (.thread (.client machine) { choice with call := call }) := by
  unfold Wiring.stepMain
  rw [show (s.system.threads (.client machine)).pc.point = _ from here]
  dsimp only
  rw [proceeds]
  cases call <;> rfl

/-- A step of a main thread. -/
theorem Invariant.stepMain (invariant : Invariant net s)
    (going : (s.mains machine).position ≠ .halted) {choice : Choice Machine}
    (done : net.stepMain s machine choice = .ok next) : Invariant net next := by
  have place := invariant.place machine
  by_cases here : s.point machine = .outside
  · have locals := invariant.locals machine
    rw [here] at place locals
    obtain ⟨main, call, proceeds, calls, reply, output⟩ := proceed_eq place locals going
    rw [stepMain_outside here proceeds] at done
    cases call with
    | some call => exact invariant.perform_call calls here reply output done
    | none =>
        obtain rfl := Except.ok.inj done
        exact invariant.halt calls here reply output rfl rfl
  unfold Wiring.stepMain at done
  generalize inside : (s.system.threads (.client machine)).pc.point = point at done
  rw [show s.point machine = point from inside] at place here
  generalize at_ : (s.mains machine).position = position at place
  cases place with
  | start | sent | got | halted => exact absurd rfl here
  | send message =>
      dsimp only at done
      split at done
      case isTrue => cases done
      exact invariant.perform_send done at_ inside
  | getTest message => exact invariant.perform_getTest done at_ inside
  | received message => exact invariant.perform_received at_ inside done
  | _ =>
    refine invariant.perform_operation done fun body => ?_
    rw [show s.point machine = _ from inside]
    simp [code]

/-- A step of a machine. -/
theorem Invariant.step (invariant : Invariant net s)
    {action : SynchSystem.Action (Thread Machine Machine) (Choice Machine)}
    (done : net.step s action = .ok next) : Invariant net next := by
  unfold Wiring.step at done
  split at done
  case isTrue => cases done
  next going =>
  match action with
  | .interrupt choice => exact invariant.perform_other (by simp) done
  | .thread (.worker worker) choice => exact invariant.perform_other (by simp) done
  | .thread (.client machine) choice => exact invariant.stepMain going done

end Steps

section Outcome

theorem perform_eq_error_iff {action : SynchSystem.Action (Thread Machine Machine) (Choice Machine)}
    {stop : Stop} : net.perform s action = .error stop ↔
      SynchSystem.step (program net.setup) s.system action = .error stop := by
  unfold Wiring.perform
  rw [bind_eq_error_iff]
  constructor
  · rintro (failed | ⟨system, -, done⟩)
    · exact failed
    · cases done
  · exact Or.inl

/-- No check of the post office fails, except that of the arguments of a main thread. -/
theorem Invariant.perform_fault (invariant : Invariant net s) {reason : Fault}
    {action : SynchSystem.Action (Thread Machine Machine) (Choice Machine)} {mains : Machine → Main}
    (failed : net.perform { s with mains := mains } action = .error (.fault reason)) :
    ∃ machine choice, action = .thread (.client machine) choice ∧ s.point machine = .outside ∧
      ¬ net.setup.Legal choice.call := by
  obtain ⟨actions, reached⟩ := invariant.reached
  exact (alongRun_last (delivery net.setup id actions) reached).2.2 action reason
    (perform_eq_error_iff (s := { s with mains := mains }).mp failed)

/-- A machine halts only after it has got the messages for it. -/
theorem Invariant.receiver_going (invariant : Invariant net s) {message : Message}
    (notSent : hasSent message (s.mains machine).position (s.point machine) = false) :
    (s.mains ((net.sender message).symm machine)).position ≠ .halted := by
  intro halted
  have isPrefix := invariant.reached.removed_prefix ((net.sender message).symm machine) message.box
  rw [invariant.removed, invariant.accepted, Equiv.apply_symm_apply, notSent, halted] at isPrefix
  simp [hasGot] at isPrefix

variable [Fintype Machine]

/-- No step fails in a check. -/
theorem Invariant.step_ne_fault (invariant : Invariant net s)
    (action : SynchSystem.Action (Thread Machine Machine) (Choice Machine)) (reason : Fault) :
    net.step s action ≠ .error (.fault reason) := by
  intro failed
  unfold Wiring.step at failed
  split at failed
  case isTrue => cases failed
  next going =>
  match action with
  | .interrupt choice =>
      obtain ⟨_, _, isClient, -⟩ := invariant.perform_fault failed
      cases isClient
  | .thread (.worker worker) choice =>
      obtain ⟨_, _, isClient, -⟩ := invariant.perform_fault failed
      cases isClient
  | .thread (.client machine) choice =>
  have place := invariant.place machine
  by_cases here : s.point machine = .outside
  · have locals := invariant.locals machine
    rw [here] at place locals
    obtain ⟨main, call, proceeds, calls, -⟩ := proceed_eq place locals going
    dsimp only at failed
    rw [stepMain_outside here proceeds] at failed
    cases call with
    | none => cases failed
    | some call =>
        obtain ⟨_, _, isClient, -, illegal⟩ := invariant.perform_fault failed
        cases isClient
        exact illegal calls.legal
  -- Inside of the post office, only `Send` checks something else.
  have fine : ∀ mains, net.perform { s with mains := mains }
      (.thread (.client machine) choice) ≠ .error (.fault reason) := by
    intro mains failed
    obtain ⟨_, _, isClient, outside, -⟩ := invariant.perform_fault failed
    cases isClient
    exact here outside
  dsimp only [Wiring.stepMain] at failed
  generalize inside : (s.system.threads (.client machine)).pc.point = point at failed
  rw [show s.point machine = point from inside] at place here
  generalize at_ : (s.mains machine).position = position at place
  cases place with
  | start | sent | got | halted => exact here rfl
  | send message =>
      have notSent : hasSent message (s.mains machine).position (s.point machine) = false := by
        rw [at_, show s.point machine = _ from inside]
        cases message <;> rfl
      dsimp only at failed
      rw [if_neg (invariant.receiver_going notSent)] at failed
      exact fine _ failed
  | _ => exact fine _ failed

/-- No thread can take a step, and the devices have nothing to report. -/
def Stalled (net : Wiring Machine) (s : State Machine) : Prop :=
  ∀ action next, net.step s action = .ok next →
    (∃ choice, action = .interrupt choice) ∧ next = s

/-- Inside of the post office, the main thread is not kept from a step. -/
theorem Invariant.stepMain_ok (invariant : Invariant net s) (inside : s.point machine ≠ .outside)
    {choice : Choice Machine} {system : System Machine Machine}
    (stepped : SynchSystem.step (program net.setup) s.system (.thread (.client machine) choice) =
      .ok system) : ∃ next, net.stepMain s machine choice = .ok next := by
  have goes : ∀ mains, net.perform { s with mains := mains } (.thread (.client machine) choice) =
      .ok { system := system, mains := mains } :=
    fun mains => perform_eq_ok_iff.mpr ⟨system, stepped, rfl⟩
  have place := invariant.place machine
  unfold Wiring.stepMain
  generalize here : (s.system.threads (.client machine)).pc.point = point
  rw [show s.point machine = point from here] at place inside
  generalize at_ : (s.mains machine).position = position at place
  cases place with
  | start | sent | got | halted => exact absurd rfl inside
  | send message =>
      have notSent : hasSent message (s.mains machine).position (s.point machine) = false := by
        rw [at_, show s.point machine = _ from here]
        cases message <;> rfl
      dsimp only
      rw [if_neg (invariant.receiver_going notSent)]
      exact ⟨_, goes _⟩
  | _ => exact ⟨_, goes _⟩

/-- Outside of the post office, the main thread goes on to another position. -/
theorem Invariant.stepMain_of_outside (invariant : Invariant net s)
    (here : s.point machine = .outside) (going : (s.mains machine).position ≠ .halted)
    (choice : Choice Machine) : ∃ next, net.stepMain s machine choice = .ok next := by
  have place := invariant.place machine
  have locals := invariant.locals machine
  rw [here] at place locals
  obtain ⟨main, call, proceeds, calls, -⟩ := proceed_eq place locals going
  rw [stepMain_outside here proceeds]
  cases call with
  | none => exact ⟨_, rfl⟩
  | some call =>
      have healthy := invariant.reached.healthy
      have at_ : (s.system.threads (.client machine)).pc = ⟨machine, .outside⟩ :=
        congrArg₂ Pc.mk (healthy.machine_eq (.client machine)) here
      have phase : (s.system.threads (.client machine)).phase = .call :=
        healthy.call_of_outside here
      have starts := (leads_call machine { choice with call := call } s.system.vars
        calls.legal).mpr ⟨rfl, rfl⟩
      have stepped : SynchSystem.step (program net.setup) s.system
          (.thread (.client machine) { choice with call := call }) = .ok _ :=
        SynchSystem.stepThread_of_completes ((congrArg (code net.setup) at_).trans rfl) phase starts
      exact ⟨_, perform_eq_ok_iff.mpr ⟨_, stepped, rfl⟩⟩

/-- In a stalled state, a machine that has not halted is quiet. -/
theorem Invariant.quiet (invariant : Invariant net s) (stalled : Stalled net s)
    (going : (s.mains machine).position ≠ .halted) :
    s.point machine ≠ .outside ∧ Quiet net.setup id s.system machine := by
  have ofMain : ∀ choice, net.step s (.thread (.client machine) choice) =
      net.stepMain s machine choice := fun choice => if_neg going
  have ofWorker : ∀ {worker choice}, PostOffice.machineOf id (.worker worker) = machine →
      net.step s (.thread (.worker worker) choice) =
        net.perform s (.thread (.worker worker) choice) := by
    rintro worker choice rfl
    exact if_neg going
  have ofInterrupt : ∀ {choice}, choice.device = machine →
      net.step s (.interrupt choice) = net.perform s (.interrupt choice) := by
    rintro choice rfl
    exact if_neg going
  have noMain : ∀ choice next, net.stepMain s machine choice ≠ .ok next := by
    intro choice next done
    obtain ⟨⟨_, isInterrupt⟩, -⟩ := stalled (.thread (.client machine) choice) next
      ((ofMain choice).trans done)
    cases isInterrupt
  have inside : s.point machine ≠ .outside := by
    intro outside
    obtain ⟨next, done⟩ := invariant.stepMain_of_outside outside going
      ⟨.receive 0, fun _ => 0, machine, .poll⟩
    exact noMain _ _ done
  refine ⟨inside, fun thread own => Or.inr ?_, fun choice system own stepped => ?_⟩
  · rintro ⟨choice, system, stepped⟩
    cases thread with
    | worker worker =>
        obtain ⟨⟨_, isInterrupt⟩, -⟩ := stalled (.thread (.worker worker) choice) _
          ((ofWorker own).trans (perform_eq_ok_iff.mpr ⟨system, stepped, rfl⟩))
        cases isInterrupt
    | client client =>
        cases own
        obtain ⟨next, done⟩ := invariant.stepMain_ok inside stepped
        exact noMain _ _ done
  · obtain ⟨-, same⟩ := stalled (.interrupt choice) _
      ((ofInterrupt own).trans (perform_eq_ok_iff.mpr ⟨system, stepped, rfl⟩))
    exact congrArg State.system same

/-- In a stalled state, a machine that has not halted waits for a message that was not sent. -/
theorem Invariant.waits (invariant : Invariant net s) (stalled : Stalled net s)
    (going : (s.mains machine).position ≠ .halted) :
    ∃ message, (s.mains machine).position = .receiving message ∧
      s.point machine = .getWait message.box ∧
      hasSent message (s.mains (net.sender message machine)).position
        (s.point (net.sender message machine)) = false := by
  obtain ⟨inside, quiet⟩ := invariant.quiet stalled going
  have healthy := invariant.reached.healthy
  obtain ⟨box, asleep, empty⟩ := healthy.client_asleep quiet rfl inside
  have here : s.point machine = .getWait box := congrArg (fun thread => thread.pc.point) asleep
  have place := invariant.place machine
  rw [here] at place
  generalize at_ : (s.mains machine).position = position at place
  cases place with
  | getWait message =>
  refine ⟨message, rfl, here, ?_⟩
  have delivered := healthy.delivered quiet message.box
  rw [empty, List.append_nil, invariant.accepted, invariant.removed, at_, here] at delivered
  cases message <;> simpa [hasGot, Message.before] using delivered

/-- In a stalled state, all machines have halted. -/
theorem Invariant.all_halted (invariant : Invariant net s) (stalled : Stalled net s)
    (machine : Machine) : (s.mains machine).position = .halted := by
  -- A machine that has not sent a message waits for an earlier one.
  have earlier : ∀ message machine,
      hasSent message (s.mains machine).position (s.point machine) = false →
        message = .ack ∧ hasSent .data (s.mains (net.sender .data machine)).position
          (s.point (net.sender .data machine)) = false := by
    intro message machine notSent
    have going : (s.mains machine).position ≠ .halted := by
      intro halted
      rw [halted] at notSent
      cases notSent
    obtain ⟨other, at_, here, notYet⟩ := invariant.waits stalled going
    rw [at_, here] at notSent
    cases message <;> cases other <;> simp_all [hasSent, Message.before]
  by_contra going
  obtain ⟨message, -, -, notSent⟩ := invariant.waits stalled going
  obtain ⟨-, notSent⟩ := earlier message _ notSent
  obtain ⟨isAck, -⟩ := earlier .data _ notSent
  cases isAck

/-- In every state of a run of any machines, each of which is told one and by one: a machine has
printed nothing else than the message of the machine that was told it and the acknowledgement
of the one that it was told, and both when it has halted; no check fails; and when nothing
more can happen, all machines have halted. -/
theorem mailTest (net : Wiring Machine) (memory : Machine → Nat → Byte)
    (actions : List (SynchSystem.Action (Thread Machine Machine) (Choice Machine))) :
    AlongRun net.step (fun s =>
      (∀ machine, (s.mains machine).output <+:
        [net.line .data machine, net.line .ack machine] ∧
        ((s.mains machine).position = .halted →
          (s.mains machine).output = [net.line .data machine, net.line .ack machine])) ∧
      (∀ action reason, net.step s action ≠ .error (.fault reason)) ∧
      (Stalled net s → ∀ machine, (s.mains machine).position = .halted))
      (net.boot memory) actions := by
  have reached : AlongRun net.step (Invariant net) (net.boot memory) actions :=
    alongRun_of_preserved (fun _ _ _ invariant done => invariant.step done)
      (invariant_boot net memory)
  apply reached.mono
  intro s invariant
  refine ⟨fun machine => ⟨?_, fun halted => ?_⟩, invariant.step_ne_fault, invariant.all_halted⟩
  · rw [(invariant.locals machine).output]
    rcases (s.mains machine).position with _ | (_ | _) | (_ | _) | _ <;>
      simp [Wiring.printed]
  · rw [(invariant.locals machine).output, halted]
    rfl

end Outcome

end MailTest

end Nachos
