import Nachos.Console
import Nachos.TransitionRuns

/-!
# Delivery of the bytes that are typed

Every byte that is typed is returned by one `GetChar`, in order, as long as no poll finds
another byte while one of value 255 is in the buffer.  That value is `EOF` in a `char`, which
stands for an empty buffer, so that the poll puts the other byte over it.
-/

namespace Nachos

open TransitionRuns

namespace ConsoleInput

/-- The bytes returned are the first that were typed, and at most one byte that was put into
the buffer has not been returned: no other was put over it. -/
def DeliversOnce (s : ConsoleInput) : Prop :=
  s.returned <+: s.typed ∧ s.readAvail ≤ 1

instance (s : ConsoleInput) : Decidable s.DeliversOnce :=
  inferInstanceAs (Decidable (_ ∧ _))

/-- No poll finds a byte while the buffer has one that looks like an empty buffer. -/
def KeepsBuffered (s : ConsoleInput) (action : Action) : Prop :=
  action = .poll → s.console.incoming.toInt = eof → s.readAvail ≠ 0 →
    s.console.keyboard = []

instance (s : ConsoleInput) (action : Action) : Decidable (s.KeepsBuffered action) :=
  inferInstanceAs (Decidable (_ → _))

/-- What was typed is what was returned, the byte in the buffer if there is one, and what
can be read. -/
inductive Delivers (s : ConsoleInput) : Prop
  | empty (answered : s.readAvail = 0) (vacant : s.console.incoming.toInt = eof)
      (order : s.typed = s.returned ++ s.console.keyboard)
  | buffered (asked : s.readAvail = 1)
      (order : s.typed = s.returned ++ s.console.incoming :: s.console.keyboard)

variable {s after : ConsoleInput}

theorem delivers_start : start.Delivers :=
  .empty rfl rfl rfl

theorem Delivers.deliversOnce (delivers : s.Delivers) : s.DeliversOnce := by
  cases delivers with
  | empty answered _ order =>
      constructor
      · rw [order]
        exact List.prefix_append _ _
      · omega
  | buffered asked order =>
      constructor
      · rw [order]
        exact List.prefix_append _ _
      · omega

/-- What an action does when it can happen. -/
theorem step_cases {action : Action} (done : s.step action = .ok after) :
    (∃ c, action = .typeByte c ∧ after = s.typeByte c) ∨
      (action = .poll ∧ after = s.poll) ∨
      action = .getChar ∧ s.readAvail ≠ 0 ∧ after = s.getChar := by
  cases action with
  | typeByte c =>
      cases done
      exact Or.inl ⟨c, rfl, rfl⟩
  | poll =>
      change (if s.console.readsScheduled = 0 then _ else _) = _ at done
      split at done
      · cases done
      · cases done
        exact Or.inr (Or.inl ⟨rfl, rfl⟩)
  | getChar =>
      change (if s.readAvail = 0 then _ else _) = _ at done
      split at done
      · cases done
      · next called =>
          cases done
          exact Or.inr (Or.inr ⟨rfl, called, rfl⟩)

theorem Delivers.typeByte (delivers : s.Delivers) (c : CChar) : (s.typeByte c).Delivers := by
  cases delivers with
  | empty answered vacant order =>
      refine .empty answered vacant ?_
      change s.typed ++ [c] = s.returned ++ (s.console.keyboard ++ [c])
      rw [order, List.append_assoc]
  | buffered asked order =>
      refine .buffered asked ?_
      change s.typed ++ [c] =
        s.returned ++ s.console.incoming :: (s.console.keyboard ++ [c])
      rw [order, List.append_assoc, List.cons_append]

/-- A poll that finds no byte, or a byte in the buffer. -/
theorem poll_idle (idle : s.console.incoming.toInt ≠ eof ∨ s.console.keyboard = []) :
    s.poll.readAvail = s.readAvail ∧ s.poll.console.incoming = s.console.incoming ∧
      s.poll.console.keyboard = s.console.keyboard := by
  unfold poll Console.checkCharAvail
  by_cases full : s.console.incoming.toInt ≠ eof
  · simp [full]
  · have none : s.console.keyboard = [] := idle.resolve_left full
    simp [full, none]

theorem poll_reads {c : CChar} {keyboard : List CChar}
    (vacant : s.console.incoming.toInt = eof) (found : s.console.keyboard = c :: keyboard) :
    s.poll.readAvail = s.readAvail + 1 ∧ s.poll.console.incoming = c ∧
      s.poll.console.keyboard = keyboard := by
  unfold poll Console.checkCharAvail
  simp [vacant, found]

theorem Delivers.poll (delivers : s.Delivers) (keeps : s.KeepsBuffered .poll) :
    s.poll.Delivers := by
  by_cases idle : s.console.incoming.toInt ≠ eof ∨ s.console.keyboard = []
  · rcases poll_idle idle with ⟨readAvail, incoming, keyboard⟩
    cases delivers with
    | empty answered vacant order =>
        exact .empty (readAvail.trans answered) (by rw [incoming, vacant])
          (by rw [keyboard]; exact order)
    | buffered asked order =>
        exact .buffered (readAvail.trans asked)
          (by rw [incoming, keyboard]; exact order)
  · rw [not_or, not_not] at idle
    cases found : s.console.keyboard with
    | nil => exact absurd found idle.2
    | cons c keyboard =>
        rcases poll_reads idle.1 found with ⟨readAvail, incoming, remaining⟩
        cases delivers with
        | empty answered vacant order =>
            apply Delivers.buffered
            · rw [readAvail, answered]
            · rw [incoming, remaining, ← found]
              exact order
        | buffered asked order =>
            exact absurd (keeps rfl idle.1 (by omega)) idle.2

/-- The output has no part in it. -/
theorem Delivers.output (delivers : s.Delivers) {console : Console}
    (incoming : console.incoming = s.console.incoming)
    (keyboard : console.keyboard = s.console.keyboard) :
    { s with console := console : ConsoleInput }.Delivers := by
  cases delivers with
  | empty answered vacant order =>
      refine .empty answered ?_ ?_
      · dsimp only
        rw [incoming, vacant]
      · dsimp only
        rw [keyboard, order]
  | buffered asked order =>
      refine .buffered asked ?_
      dsimp only
      rw [incoming, keyboard, order]

theorem Delivers.getChar (delivers : s.Delivers) (called : s.readAvail ≠ 0) :
    s.getChar.Delivers := by
  cases delivers with
  | empty answered => exact absurd answered called
  | buffered asked order =>
      apply Delivers.empty
      · exact congrArg (· - 1) asked
      · rfl
      · change s.typed = s.returned ++ [s.console.incoming] ++ s.console.keyboard
        rw [order, List.append_assoc]
        rfl

theorem Delivers.step {action : Action} (delivers : s.Delivers)
    (keeps : s.KeepsBuffered action) (done : s.step action = .ok after) : after.Delivers := by
  rcases step_cases done with ⟨c, rfl, rfl⟩ | ⟨rfl, rfl⟩ | ⟨rfl, called, rfl⟩
  · exact delivers.typeByte c
  · exact delivers.poll keeps
  · exact delivers.getChar called

/-- A byte that is put over one in the buffer is a second call of the handler that no
`GetChar` has answered. -/
theorem not_deliversOnce_of_overwrite {action : Action} (lost : ¬ s.KeepsBuffered action)
    (done : s.step action = .ok after) : ¬ after.DeliversOnce := by
  unfold KeepsBuffered at lost
  simp only [not_forall] at lost
  rcases lost with ⟨rfl, vacant, called, nonempty⟩
  have polled : after = s.poll := by
    rcases step_cases done with ⟨_, other, _⟩ | ⟨_, same⟩ | ⟨other, _, _⟩
    · cases other
    · exact same
    · cases other
  subst polled
  cases found : s.console.keyboard with
  | nil => exact absurd found nonempty
  | cons c keyboard =>
      intro once
      have most := once.2
      rw [(poll_reads vacant found).1] at most
      omega

/-- In every run, the bytes that are typed are delivered once and in order if and only if no
poll finds one while the buffer has a byte of value 255. -/
theorem deliversOnce_iff (actions : List Action) :
    AlongRun step DeliversOnce start actions ↔ RunAllowed step KeepsBuffered start actions :=
  alongRun_iff_runAllowed
    (fun _ _ _ delivers keeps done => Delivers.step delivers keeps done)
    (fun _ => Delivers.deliversOnce)
    (fun _ _ _ _ => not_deliversOnce_of_overwrite) delivers_start

/-- Two bytes are typed, of which the first has the value 255, and polled before `GetChar` is
called for the first time. -/
theorem not_deliversOnce :
    ∃ after, run step start [.typeByte 255, .typeByte 97, .poll, .poll, .getChar] =
        .ok after ∧
      after.typed = [255, 97] ∧ after.returned = [97] ∧
      ¬ AlongRun step DeliversOnce start
        [.typeByte 255, .typeByte 97, .poll, .poll, .getChar] := by
  refine ⟨_, rfl, rfl, rfl, ?_⟩
  decide

end ConsoleInput

/-- What `ConsoleTest` writes waits for one interrupt. -/
def EchoThread.writes : EchoThread → Nat
  | .awaitWrite _ => 1
  | .awaitChar | .finished => 0

namespace ConsoleTest

open ConsoleInput

/-- The display shows the bytes that were returned. -/
def Echoes (s : ConsoleTest) : Prop :=
  s.input.DeliversOnce ∧ s.input.console.display = s.input.returned

def KeepsBuffered (s : ConsoleTest) (action : Action) : Prop :=
  action = .poll → s.input.KeepsBuffered .poll

structure Echoing (s : ConsoleTest) : Prop where
  delivers : s.input.Delivers
  display : s.input.console.display = s.input.returned
  polled : s.input.console.readsScheduled = 1
  busy : s.input.console.putBusy = decide (s.input.console.writesScheduled ≠ 0)
  writes : s.input.console.writesScheduled + s.writeDone = s.thread.writes

variable {s after : ConsoleTest}

theorem echoing_start : start.Echoing :=
  ⟨delivers_start, rfl, rfl, rfl, rfl⟩

theorem Echoing.typeByte (echoing : s.Echoing) (c : CChar) :
    { s with input := s.input.typeByte c : ConsoleTest }.Echoing :=
  ⟨echoing.delivers.typeByte c, echoing.display, echoing.polled, echoing.busy, echoing.writes⟩

/-- The next poll is always scheduled. -/
theorem Echoing.step_poll (echoing : s.Echoing) :
    s.input.step .poll = .ok s.input.poll ∧
      s.step .poll = .ok { s with input := s.input.poll } := by
  have scheduled : s.input.console.readsScheduled ≠ 0 := by
    rw [echoing.polled]
    decide
  have polled : s.input.step .poll = .ok s.input.poll := if_neg scheduled
  refine ⟨polled, ?_⟩
  change (s.input.step .poll).map _ = _
  rw [polled]
  rfl

/-- A poll leaves the output alone, and schedules the next one. -/
theorem poll_frame (input : ConsoleInput) (polled : input.console.readsScheduled = 1) :
    input.poll.console.display = input.console.display ∧
      input.poll.returned = input.returned ∧
      input.poll.console.readsScheduled = 1 ∧
      input.poll.console.putBusy = input.console.putBusy ∧
      input.poll.console.writesScheduled = input.console.writesScheduled := by
  unfold ConsoleInput.poll Console.checkCharAvail
  dsimp only
  split
  · simp [polled]
  · split <;> simp [polled]

theorem Echoing.poll (echoing : s.Echoing) (keeps : s.KeepsBuffered .poll) :
    { s with input := s.input.poll : ConsoleTest }.Echoing := by
  rcases poll_frame s.input echoing.polled with ⟨display, returned, polled, busy, writes⟩
  constructor
  · exact echoing.delivers.poll (keeps rfl)
  · exact display.trans (echoing.display.trans returned.symm)
  · exact polled
  · dsimp only
    rw [busy, writes]
    exact echoing.busy
  · dsimp only
    rw [writes]
    exact echoing.writes

/-- The interrupt comes while the thread waits for it. -/
theorem Echoing.writeDone (echoing : s.Echoing)
    (scheduled : s.input.console.writesScheduled ≠ 0)
    (done : s.step .writeDone = .ok after) : after.Echoing := by
  have most : s.thread.writes ≤ 1 := by
    cases s.thread with
    | awaitChar | finished => exact Nat.zero_le 1
    | awaitWrite ch => exact Nat.le_refl 1
  have sum := echoing.writes
  have stepped : step s .writeDone = _ := if_neg scheduled
  rw [stepped] at done
  cases done
  constructor
  · exact echoing.delivers.output rfl rfl
  · exact echoing.display
  · exact echoing.polled
  · have last : s.input.console.writesScheduled - 1 = 0 := by omega
    unfold Console.writeDone
    dsimp only
    rw [last]
    rfl
  · unfold Console.writeDone
    dsimp only
    omega

/-- The thread never finds the console busy when it puts a character. -/
theorem Echoing.runThread (echoing : s.Echoing) :
    s.runThread = .error .disabled ∨ ∃ next, s.runThread = .ok next ∧ next.Echoing := by
  have sum := echoing.writes
  unfold ConsoleTest.runThread
  cases isThread : s.thread with
  | awaitChar =>
      dsimp only
      by_cases waits : s.input.readAvail = 0
      · rw [if_pos waits]
        exact Or.inl rfl
      · rw [if_neg waits]
        rw [isThread] at sum
        have idle : s.input.console.writesScheduled = 0 := by
          change _ + _ = 0 at sum
          omega
        have free : s.input.getChar.console.putBusy = false := by
          change s.input.console.putBusy = false
          rw [echoing.busy, idle]
          rfl
        unfold Console.putChar
        rw [free]
        refine Or.inr ⟨_, rfl, ?_⟩
        constructor
        · exact (echoing.delivers.getChar waits).output rfl rfl
        · exact congrArg (· ++ [s.input.console.incoming]) echoing.display
        · exact echoing.polled
        · change true = decide (s.input.console.writesScheduled + 1 ≠ 0)
          simp
        · change s.input.console.writesScheduled + 1 + s.writeDone = 1
          change _ + _ = 0 at sum
          omega
  | awaitWrite ch =>
      dsimp only
      by_cases waits : s.writeDone = 0
      · rw [if_pos waits]
        exact Or.inl rfl
      · rw [if_neg waits]
        refine Or.inr ⟨_, rfl, ?_⟩
        rw [isThread] at sum
        change _ + _ = 1 at sum
        refine ⟨echoing.delivers, echoing.display, echoing.polled, echoing.busy, ?_⟩
        dsimp only
        split
        · change _ + _ = 0
          omega
        · change _ + _ = 0
          omega
  | finished => exact Or.inl rfl

theorem Echoing.step {action : Action} (echoing : s.Echoing) (keeps : s.KeepsBuffered action) :
    s.step action = .error .disabled ∨ ∃ next, s.step action = .ok next ∧ next.Echoing := by
  cases action with
  | typeByte c => exact Or.inr ⟨_, rfl, echoing.typeByte c⟩
  | poll => exact Or.inr ⟨_, echoing.step_poll.2, echoing.poll keeps⟩
  | writeDone =>
      by_cases scheduled : s.input.console.writesScheduled = 0
      · exact Or.inl (if_pos scheduled)
      · have stepped : s.step .writeDone = _ := if_neg scheduled
        exact Or.inr ⟨_, stepped, echoing.writeDone scheduled stepped⟩
  | runThread => exact echoing.runThread

/-- A poll that puts a byte over another one. -/
theorem Echoing.overwrite {action : Action} (echoing : s.Echoing)
    (lost : ¬ s.KeepsBuffered action) :
    ∃ next, s.step action = .ok next ∧ ¬ next.Echoes := by
  unfold KeepsBuffered at lost
  simp only [not_forall] at lost
  rcases lost with ⟨rfl, lost⟩
  refine ⟨_, echoing.step_poll.2, ?_⟩
  intro echoes
  exact not_deliversOnce_of_overwrite lost echoing.step_poll.1 echoes.1

/-- `ConsoleTest` echoes what is typed, and its `PutChar` never finds the console busy,
exactly when no poll puts a byte over another one. -/
theorem echoes_iff (actions : List Action) :
    (AlongRun step Echoes start actions ∧ run step start actions ≠ .error .assertion) ↔
      RunRequested step KeepsBuffered start actions := by
  have preserved : ∀ (s : ConsoleTest) action next, s.Echoing → s.KeepsBuffered action →
      s.step action = .ok next → next.Echoing := by
    intro s action next echoing keeps done
    rcases echoing.step keeps with disabled | ⟨after, stepped, still⟩
    · rw [disabled] at done
      cases done
    · rw [stepped] at done
      cases done
      exact still
  have safe : ∀ (s : ConsoleTest) action, s.Echoing → s.KeepsBuffered action →
      s.step action ≠ .error .assertion := by
    intro s action echoing keeps failed
    rcases echoing.step keeps with disabled | ⟨after, stepped, _⟩
    · rw [disabled] at failed
      cases failed
    · rw [stepped] at failed
      cases failed
  exact goodRun_iff_runRequested preserved
    (fun s echoing => ⟨echoing.delivers.deliversOnce, echoing.display⟩) safe
    (fun s action echoing lost => Or.inr (echoing.overwrite lost)) echoing_start

end ConsoleTest

end Nachos
