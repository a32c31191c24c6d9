import Mathlib.Data.Fintype.Sum
import Mathlib.Tactic.DeriveFintype
import Nachos.PostOffice

/-!
# Mailboxes are synchronized lists

To each mailbox of the post offices the threads do what threads do to the list of
`threads/synchlist.cc`: as seen from the mailbox, a thread that works elsewhere is outside.
So what is known about synchronized lists, that no wakeup is lost, holds of the mailboxes.
-/

namespace Nachos

open MesaMonitor TransitionRuns ThreadCounting

namespace PostOffice

deriving instance Fintype for Thread

variable {Machine Client : Type}

section Views

/-- The mailbox that the code at a point works on, and the point of `class SynchList`. -/
def atBox (pc : Pc Machine) : Option (Cond Machine × SynchList.Pc Mail) :=
  match pc.point with
  | .putAcquire mail => some (⟨pc.machine, mail.mailHdr.receiver⟩, .appendAcquire mail)
  | .put mail => some (⟨pc.machine, mail.mailHdr.receiver⟩, .append mail)
  | .putSignal box => some (⟨pc.machine, box⟩, .appendSignal)
  | .putRelease box => some (⟨pc.machine, box⟩, .appendRelease)
  | .getAcquire box => some (⟨pc.machine, box⟩, .removeAcquire)
  | .getTest box => some (⟨pc.machine, box⟩, .removeTest)
  | .getWait box => some (⟨pc.machine, box⟩, .removeWait)
  | .getRelease box mail => some (⟨pc.machine, box⟩, .removeRelease mail)
  | _ => none

variable [DecidableEq Machine]

/-- A point as seen from a mailbox. -/
def view (cond : Cond Machine) (pc : Pc Machine) : SynchList.Pc Mail :=
  match atBox pc with
  | some (other, place) => if other = cond then place else .outside
  | none => .outside

/-- A thread as seen from a mailbox. -/
def viewStage (cond : Cond Machine) : Stage (Pc Machine) → Stage (SynchList.Pc Mail)
  | .active pc => .active (view cond pc)
  | .waiting pc => if view cond pc = .removeWait then .waiting .removeWait else .active .outside
  | .signalled pc =>
      if view cond pc = .removeWait then .signalled .removeWait else .active .outside

/-- The list of a mailbox. -/
def boxAt (offices : Machine → Office) (cond : Cond Machine) : SynchList Mail :=
  (offices cond.machine).boxes cond.box

variable {setup : Setup Machine} {cond : Cond Machine} {offices after : Machine → Office}

theorem viewStage_wake (stage : Stage (Pc Machine)) :
    viewStage cond stage.wake = (viewStage cond stage).wake := by
  cases stage with
  | active pc => rfl
  | waiting pc | signalled pc =>
      simp only [viewStage, Stage.wake_waiting, Stage.wake_signalled]
      split <;> rfl

/-- Only the code that holds the lock of a mailbox is seen as doing so. -/
theorem critical_of_view {pc : Pc Machine} (held : SynchList.critical (view cond pc) = some ()) :
    critical pc = some (.list cond.machine cond.box) := by
  obtain ⟨machine, point⟩ := pc
  unfold view at held
  split at held
  · next other place found =>
    split at held
    · next same =>
      subst same
      cases point <;> cases found <;> first | rfl | cases held
    · cases held
  · cases held

theorem eq_of_view_removeWait {pc : Pc Machine} (isWait : view cond pc = .removeWait) :
    pc = ⟨cond.machine, .getWait cond.box⟩ := by
  obtain ⟨machine, point⟩ := pc
  unfold view at isWait
  split at isWait
  · next other place found =>
    split at isWait
    · next same =>
      subst same
      cases point <;> cases found <;> first | rfl | cases isWait
    · cases isWait
  · cases isWait

theorem boxAt_update (machine : Machine) (office : Office) :
    boxAt (Function.update offices machine office) cond =
      if cond.machine = machine then office.boxes cond.box else boxAt offices cond := by
  unfold boxAt
  by_cases same : cond.machine = machine
  · rw [if_pos same, ← same, Function.update_self]
  · rw [if_neg same, Function.update_of_ne same]

theorem boxAt_of_kept {machine : Machine} {office : Office}
    (kept : office.boxes = (offices machine).boxes) :
    boxAt (Function.update offices machine office) cond = boxAt offices cond := by
  rw [boxAt_update, kept]
  split
  · next same => rw [boxAt, same]
  · rfl

/-- Nothing happens to the mailbox, or what a thread does to a synchronized list. -/
def Follows (s : SynchList Mail) (source : Stage (SynchList.Pc Mail)) (changed : SynchList Mail)
    (target : Stage (SynchList.Pc Mail)) : Prop :=
  (source = target ∧ changed = s) ∨ SynchList.Edge s source changed target

omit [DecidableEq Machine] in
theorem boxes_of_deliver {office changed : Office} {mail : Mail}
    (delivered : setup.deliver office = .ok (changed, mail)) : changed.boxes = office.boxes := by
  unfold Setup.deliver at delivered
  dsimp only at delivered
  split at delivered
  · obtain ⟨letter, -, delivered⟩ := bind_eq_ok_iff.mp delivered
    cases delivered
    rfl
  · cases delivered

theorem boxAt_transmit {machine receiver : Machine} {mail : Mail} {memory : Nat → Byte}
    (sent : transmit offices machine receiver mail memory = .ok after) :
    boxAt after cond = boxAt offices cond := by
  obtain ⟨⟨network, packet⟩, -, sent⟩ := bind_eq_ok_iff.mp sent
  cases sent
  rw [boxAt_of_kept (by rfl), boxAt_of_kept (by rfl)]

/-- Straight-line code. -/
theorem follows_of_run {thread : Thread Machine Client} {choice : Choice Machine}
    {pc target : Pc Machine}
    {body : Thread Machine Client → Choice Machine → (Machine → Office) →
      Except Fault ((Machine → Office) × Pc Machine)}
    (isRun : code setup pc = .run body) (done : body thread choice offices = .ok (after, target))
    (cond : Cond Machine) :
    Follows (boxAt offices cond) (.active (view cond pc)) (boxAt after cond)
      (.active (view cond target)) := by
  obtain ⟨machine, point⟩ := pc
  cases point with
  | deliver =>
      cases isRun
      obtain ⟨⟨office, mail⟩, delivered, done⟩ := bind_eq_ok_iff.mp done
      cases done
      rw [boxAt_of_kept (boxes_of_deliver delivered)]
      by_cases same : (⟨machine, mail.mailHdr.receiver⟩ : Cond Machine) = cond
      · right
        simp only [view, atBox, same, if_true]
        exact .callAppend mail
      · left
        simp [view, atBox, same]
  | put mail =>
      cases isRun
      cases done
      rw [boxAt_update]
      by_cases same : (⟨machine, mail.mailHdr.receiver⟩ : Cond Machine) = cond
      · right
        subst same
        simp only [view, atBox, if_true, setBox_boxes]
        exact .put mail
      · left
        refine ⟨by simp [view, atBox, same], ?_⟩
        split
        · next here =>
          subst here
          refine setBox_boxes_of_ne _ (fun equal => same ?_) _
          rw [← equal]
        · rfl
  | outside =>
      cases isRun
      dsimp only at done
      split at done
      · obtain ⟨mail, -, done⟩ := bind_eq_ok_iff.mp done
        cases done
        exact Or.inl ⟨rfl, rfl⟩
      · next box called =>
        split at done <;> cases done
        by_cases same : (⟨machine, box⟩ : Cond Machine) = cond
        · right
          simp only [view, atBox, same, if_true]
          exact .callRemove
        · left
          simp [view, atBox, same]
  | send receiver mail =>
      cases isRun
      obtain ⟨sent, transmitted, done⟩ := bind_eq_ok_iff.mp done
      cases done
      exact Or.inl ⟨rfl, boxAt_transmit transmitted⟩
  | getTest box =>
      cases isRun
      dsimp only at done
      by_cases same : (⟨machine, box⟩ : Cond Machine) = cond
      · right
        subst same
        rcases ((offices machine).boxes box).take_cases with ⟨empty, equal⟩ | ⟨mail, first, equal⟩
        · rw [equal] at done
          cases done
          simp only [boxAt_update, view, atBox, if_true, setBox_boxes]
          exact .blocked empty
        · rw [equal] at done
          cases done
          simp only [boxAt_update, view, atBox, if_true, setBox_boxes]
          exact .take mail first
      · left
        obtain ⟨⟨messages, mail⟩, -, done⟩ := bind_eq_ok_iff.mp done
        cases done
        refine ⟨by cases mail <;> simp [view, atBox, same], ?_⟩
        rw [boxAt_update]
        split
        · next here =>
          subst here
          refine setBox_boxes_of_ne _ (fun equal => same ?_) _
          rw [← equal]
        · rfl
  | received mail =>
      cases isRun
      dsimp only at done
      split at done <;> cases done
      exact Or.inl ⟨rfl, rfl⟩
  | _ => cases isRun

end Views

section Mailboxes

/-- Calls of operations on locks. -/
theorem follows_of_places {p : Prop} [Decidable p] {list : SynchList Mail}
    {source target : SynchList.Pc Mail}
    (edge : SynchList.Edge list (.active source) list (.active target)) :
    Follows list (.active (if p then source else .outside)) list
      (.active (if p then target else .outside)) := by
  split
  · exact Or.inr edge
  · exact Or.inl ⟨rfl, rfl⟩

variable [DecidableEq Machine] {setup : Setup Machine} {list : SynchList Mail}

theorem follows_of_acquire {pc target : Pc Machine} {lock : Lock Machine}
    (isAcquire : (code setup pc : Instr (Thread Machine Client) _ _ _ _ _ _ _) =
      .acquire lock target) (cond : Cond Machine) :
    Follows list (.active (view cond pc)) list (.active (view cond target)) := by
  obtain ⟨machine, point⟩ := pc
  cases point with
  | putAcquire mail =>
      cases isAcquire
      exact follows_of_places (.acquireAppend mail)
  | getAcquire box =>
      cases isAcquire
      exact follows_of_places .acquireRemove
  | sendAcquire receiver mail =>
      cases isAcquire
      exact Or.inl ⟨rfl, rfl⟩
  | _ => cases isAcquire

theorem follows_of_release {pc target : Pc Machine} {lock : Lock Machine}
    (isRelease : (code setup pc : Instr (Thread Machine Client) _ _ _ _ _ _ _) =
      .release lock target) (cond : Cond Machine) :
    Follows list (.active (view cond pc)) list (.active (view cond target)) := by
  obtain ⟨machine, point⟩ := pc
  have left : ∀ {p : Prop} [Decidable p],
      (.outside : SynchList.Pc Mail) = if p then .outside else .outside := by simp
  cases point with
  | putRelease box =>
      cases isRelease
      rw [show view cond ⟨machine, .waitMessage⟩ =
        if (⟨machine, box⟩ : Cond Machine) = cond then .outside else .outside from left]
      exact follows_of_places .releaseAppend
  | getRelease box mail =>
      cases isRelease
      rw [show view cond ⟨machine, .received mail⟩ =
        if (⟨machine, box⟩ : Cond Machine) = cond then .outside else .outside from left]
      exact follows_of_places (.releaseRemove mail)
  | sendRelease =>
      cases isRelease
      exact Or.inl ⟨rfl, rfl⟩
  | _ => cases isRelease

theorem follows_of_wait {pc target : Pc Machine} {waited : Cond Machine}
    (isWait : (code setup pc : Instr (Thread Machine Client) _ _ _ _ _ _ _) =
      .wait waited target) (cond : Cond Machine) :
    Follows list (viewStage cond (.active pc)) list (viewStage cond (.waiting pc)) ∧
      Follows list (viewStage cond (.signalled pc)) list (viewStage cond (.active target)) := by
  obtain ⟨machine, point⟩ := pc
  cases point with
  | getWait box =>
      cases isWait
      by_cases same : (⟨machine, box⟩ : Cond Machine) = cond
      · simp only [viewStage, view, atBox, same, if_true]
        exact ⟨Or.inr .wait, Or.inr .resume⟩
      · simp only [viewStage, view, atBox, same, if_false, reduceCtorEq]
        exact ⟨Or.inl ⟨rfl, rfl⟩, Or.inl ⟨rfl, rfl⟩⟩
  | _ => cases isWait

theorem code_ne_v (pc : Pc Machine) (sem : Sem Machine) (target : Pc Machine) :
    (code setup pc : Instr (Thread Machine Client) _ _ _ _ _ _ _) ≠ .v sem target := by
  obtain ⟨machine, point⟩ := pc
  intro isV
  cases point <;> cases isV

/-- Only clients in `Receive` wait. -/
theorem eq_of_isWait {pc target : Pc Machine} {cond : Cond Machine}
    (isWait : (code setup pc : Instr (Thread Machine Client) _ _ _ _ _ _ _) = .wait cond target) :
    pc = ⟨cond.machine, .getWait cond.box⟩ := by
  obtain ⟨machine, point⟩ := pc
  cases point with
  | getWait box =>
      cases isWait
      rfl
  | _ => cases isWait

variable [Fintype Machine] [Fintype Client] [DecidableEq Client] {cond : Cond Machine}
  {s next : State (Thread Machine Client) (Machine → Office) (Pc Machine) (Sem Machine)
    (Lock Machine) (Cond Machine)}

omit [DecidableEq Client] in
/-- While a thread works on a mailbox nobody else does. -/
theorem alone_of_exclusive (exclusive : Exclusive critical s) (cond : Cond Machine)
    (thread : Thread Machine Client) :
    SynchList.Alone (census (viewStage cond ∘ s.stage)) (viewStage cond (s.stage thread)) := by
  have within : ∀ {other place}, viewStage cond (s.stage other) = .active place →
      SynchList.critical place = some () →
      inside critical (s.stage other) = some (.list cond.machine cond.box) := by
    intro other place seen held
    cases stage : s.stage other with
    | active pc =>
        rw [stage] at seen
        cases seen
        exact critical_of_view held
    | waiting pc | signalled pc =>
        rw [stage, viewStage] at seen
        split at seen <;> cases seen
        cases held
  intro place seen held other otherHeld different
  rw [census_eq_zero_iff]
  intro intruder intrudes
  have same := exclusive.eq_of_inside (within intrudes otherHeld) (within seen held)
  subst same
  rw [Function.comp_apply, seen, Stage.active.injEq] at intrudes
  exact different intrudes.symm

/-- The mailbox as a synchronized list. -/
def Boxed (offices : Machine → Office) (stage : Thread Machine Client → Stage (Pc Machine))
    (cond : Cond Machine) : Prop :=
  SynchList.Invariant (boxAt offices cond) (census (viewStage cond ∘ stage))

/-- A thread goes on. -/
theorem Boxed.move (exclusive : Exclusive critical s) (boxed : Boxed s.vars s.stage cond)
    {thread : Thread Machine Client} {source target : Stage (Pc Machine)}
    {after : Machine → Office} (here : s.stage thread = source)
    (follows : Follows (boxAt s.vars cond) (viewStage cond source) (boxAt after cond)
      (viewStage cond target)) :
    Boxed after (Function.update s.stage thread target) cond := by
  have seen : (viewStage cond ∘ s.stage) thread = viewStage cond source :=
    congrArg (viewStage cond) here
  unfold Boxed
  rw [Function.comp_update]
  rcases follows with ⟨same, kept⟩ | edge
  · rw [← same, ← seen, Function.update_eq_self, kept]
    exact boxed
  · rw [census_update, seen]
    have alone := alone_of_exclusive exclusive cond thread
    rw [here] at alone
    exact SynchList.Invariant.edge boxed edge (census_pos thread seen) alone

omit [Fintype Machine] [Fintype Client] [DecidableEq Client] in
theorem waiting_of_mem (queued : Queued (program setup) s) {thread : Thread Machine Client}
    (member : thread ∈ s.queue cond) :
    s.stage thread = .waiting ⟨cond.machine, .getWait cond.box⟩ := by
  obtain ⟨pc, target, waits, isWait⟩ := (queued.mem_iff cond thread).mp member
  rw [waits, eq_of_isWait isWait]

theorem length_queue (queued : Queued (program setup) s) :
    (s.queue cond).length = census (viewStage cond ∘ s.stage) (.waiting .removeWait) := by
  rw [← List.toFinset_card_of_nodup (queued.nodup cond), census, count]
  congr 1
  ext thread
  simp only [List.mem_toFinset, Function.comp_apply, decide_eq_true_eq, Finset.mem_filter,
    Finset.mem_univ, true_and]
  constructor
  · intro member
    rw [waiting_of_mem queued member]
    simp [viewStage, view, atBox]
  · intro waits
    cases stage : s.stage thread with
    | active pc =>
        rw [stage] at waits
        cases waits
    | signalled pc =>
        rw [stage, viewStage] at waits
        split at waits <;> cases waits
    | waiting pc =>
        obtain ⟨other, target, isWait⟩ := queued.atWait thread pc (Or.inl stage)
        have isHere : pc = ⟨other.machine, .getWait other.box⟩ := eq_of_isWait isWait
        rw [stage, viewStage] at waits
        split at waits
        · next seen =>
          rw [isHere] at seen
          simp only [view, atBox] at seen
          split at seen
          · next same =>
            rw [queued.mem_iff]
            exact ⟨pc, target, stage, by rw [← same]; exact isWait⟩
          · cases seen
        · cases waits

/-- The postal worker notifies a client that waits for the mailbox, if there is one. -/
theorem Boxed.signal (exclusive : Exclusive critical s) (queued : Queued (program setup) s)
    (boxed : Boxed s.vars s.stage cond) {thread : Thread Machine Client} {machine : Machine}
    {box : CInt} (here : s.stage thread = .active ⟨machine, .putSignal box⟩) :
    Boxed s.vars (Function.update (wakeAll ((s.queue ⟨machine, box⟩).take 1) s.stage) thread
      (.active ⟨machine, .putRelease box⟩)) cond := by
  have unchanged : ∀ woken, wakeAll woken s.stage thread = s.stage thread := by
    intro woken
    unfold wakeAll
    split <;> simp [here]
  have commutes : ∀ woken, viewStage cond ∘ wakeAll woken s.stage =
      wakeAll woken (viewStage cond ∘ s.stage) := by
    intro woken
    ext1 other
    simp only [Function.comp_apply, wakeAll]
    split
    · exact viewStage_wake _
    · rfl
  unfold Boxed
  rw [Function.comp_update, commutes]
  by_cases same : (⟨machine, box⟩ : Cond Machine) = cond
  · have front : (s.queue cond).take 1 ⊆ s.queue cond := List.take_subset 1 _
    have waiting : ∀ other ∈ (s.queue cond).take 1,
        (viewStage cond ∘ s.stage) other = .waiting .removeWait := by
      intro other member
      rw [Function.comp_apply, waiting_of_mem queued (front member)]
      simp [viewStage, view, atBox]
    have seen : viewStage cond (s.stage thread) = .active .appendSignal := by
      rw [here]
      simp [viewStage, view, atBox, same]
    have alone := alone_of_exclusive exclusive cond thread
    rw [seen] at alone
    have stays : wakeAll ((s.queue cond).take 1) (viewStage cond ∘ s.stage) thread =
        .active .appendSignal := by
      rw [← commutes, Function.comp_apply, unchanged, seen]
    have target : viewStage cond (.active ⟨machine, .putRelease box⟩) =
        .active .appendRelease := by
      simp [viewStage, view, atBox, same]
    rw [same, target, census_update, stays,
      census_wakeAll ((queued.nodup cond).sublist (List.take_sublist 1 _)) waiting,
      List.length_take, length_queue queued]
    exact SynchList.Invariant.signal boxed alone
  · -- The others wait for other mailboxes, and are outside of this one.
    have quiet : wakeAll ((s.queue ⟨machine, box⟩).take 1) (viewStage cond ∘ s.stage) =
        viewStage cond ∘ s.stage := by
      ext1 other
      unfold wakeAll
      split
      · next member =>
        have outside : viewStage cond (s.stage other) = .active .outside := by
          rw [waiting_of_mem queued (List.take_subset 1 _ member)]
          simp [viewStage, view, atBox, same]
        rw [Function.comp_apply, outside, Stage.wake_active]
      · rfl
    have target : viewStage cond (.active ⟨machine, .putRelease box⟩) =
        (viewStage cond ∘ s.stage) thread := by
      rw [Function.comp_apply, here]
      simp [viewStage, view, atBox, same]
    rw [quiet, target, Function.update_eq_self]
    exact boxed

end Mailboxes

end PostOffice

end Nachos
