import Mathlib.Logic.Basic
import Mathlib.Data.List.Basic

/-!
# Runs of a fallible step function

A system is given by a step function that may stop with a fault.  This file
develops its finite runs: conditions imposed on the steps of a run, properties
of all the states a run passes through, and the induction rules that connect
the two.
-/

namespace TransitionRuns

section Sequencing

universe u v

variable {Fault : Type u} {α β : Type v}

/-- A computation in two parts completes when both of its parts do. -/
theorem bind_eq_ok_iff {first : Except Fault α} {second : α → Except Fault β}
    {result : β} :
    first >>= second = .ok result ↔
      ∃ middle, first = .ok middle ∧ second middle = .ok result := by
  cases first <;> simp [bind, Except.bind]

/-- It fails when one of its parts does. -/
theorem bind_eq_error_iff {first : Except Fault α} {second : α → Except Fault β}
    {fault : Fault} :
    first >>= second = .error fault ↔
      first = .error fault ∨ ∃ middle, first = .ok middle ∧ second middle = .error fault := by
  cases first <;> simp [bind, Except.bind]

theorem map_eq_ok_iff {first : Except Fault α} {change : α → β} {result : β} :
    first.map change = .ok result ↔ ∃ value, first = .ok value ∧ change value = result := by
  cases first <;> simp [Except.map]

@[simp]
theorem ok_bind (middle : α) (second : α → Except Fault β) :
    (Except.ok middle >>= second) = second middle :=
  rfl

@[simp]
theorem error_bind (fault : Fault) (second : α → Except Fault β) :
    (Except.error fault >>= second) = .error fault :=
  rfl

end Sequencing

variable {State Action Fault : Type*}

section Run

variable (step : State → Action → Except Fault State)

/-- Perform the listed actions in order, stopping at the first fault. -/
def run : State → List Action → Except Fault State
  | state, [] => .ok state
  | state, action :: actions =>
      match step state action with
      | .ok next => run next actions
      | .error fault => .error fault

/-- Every completed step of the run is taken in a state that allows it. -/
def RunAllowed (allowed : State → Action → Prop) : State → List Action → Prop
  | _, [] => True
  | state, action :: actions =>
      ∀ next, step state action = .ok next →
        allowed state action ∧ RunAllowed allowed next actions

/-- Every action of the run that is tried is requested properly. -/
def RunRequested (requested : State → Action → Prop) : State → List Action → Prop
  | _, [] => True
  | state, action :: actions =>
      requested state action ∧
        ∀ next, step state action = .ok next → RunRequested requested next actions

/-- The property holds in every state that the run passes through. -/
def AlongRun (property : State → Prop) : State → List Action → Prop
  | state, [] => property state
  | state, action :: actions =>
      property state ∧
        ∀ next, step state action = .ok next → AlongRun property next actions

@[simp]
theorem run_nil (state : State) : run step state [] = .ok state :=
  rfl

variable {step}

theorem run_cons_of_ok {state next : State} {action : Action}
    (stepped : step state action = .ok next) (actions : List Action) :
    run step state (action :: actions) = run step next actions := by
  simp [run, stepped]

theorem run_cons_eq_ok_iff {state last : State} {action : Action}
    {actions : List Action} :
    run step state (action :: actions) = .ok last ↔
      ∃ next, step state action = .ok next ∧
        run step next actions = .ok last := by
  cases stepped : step state action <;> simp [run, stepped]

theorem run_append_eq_ok_iff {state last : State}
    {first second : List Action} :
    run step state (first ++ second) = .ok last ↔
      ∃ middle, run step state first = .ok middle ∧
        run step middle second = .ok last := by
  induction first generalizing state with
  | nil => simp
  | cons action first ih =>
      simp only [List.cons_append, run_cons_eq_ok_iff, ih]
      constructor
      · rintro ⟨next, stepped, middle, reached, rest⟩
        exact ⟨middle, ⟨next, stepped, reached⟩, rest⟩
      · rintro ⟨middle, ⟨next, stepped, reached⟩, rest⟩
        exact ⟨next, stepped, middle, reached, rest⟩

theorem runAllowed_cons_of_ok {allowed : State → Action → Prop}
    {state next : State} {action : Action} {actions : List Action}
    (stepped : step state action = .ok next) :
    RunAllowed step allowed state (action :: actions) ↔
      allowed state action ∧ RunAllowed step allowed next actions := by
  simp [RunAllowed, stepped]

/-- Whether the steps of a run are allowed can be computed. -/
instance RunAllowed.decidable (step : State → Action → Except Fault State)
    (allowed : State → Action → Prop)
    [∀ state action, Decidable (allowed state action)] :
    ∀ state actions, Decidable (RunAllowed step allowed state actions)
  | _, [] => .isTrue trivial
  | state, action :: actions =>
      match stepped : step state action with
      | .ok next =>
          have := RunAllowed.decidable step allowed next actions
          decidable_of_iff _ (runAllowed_cons_of_ok stepped).symm
      | .error _ => .isTrue fun next done => by
          rw [stepped] at done
          cases done

theorem runRequested_cons_of_ok {requested : State → Action → Prop}
    {state next : State} {action : Action} {actions : List Action}
    (stepped : step state action = .ok next) :
    RunRequested step requested state (action :: actions) ↔
      requested state action ∧ RunRequested step requested next actions := by
  simp [RunRequested, stepped]

theorem runAllowed_true (state : State) (actions : List Action) :
    RunAllowed step (fun _ _ => True) state actions := by
  induction actions generalizing state with
  | nil => trivial
  | cons action actions ih => exact fun next _ => ⟨trivial, ih next⟩

theorem runRequested_true (state : State) (actions : List Action) :
    RunRequested step (fun _ _ => True) state actions := by
  induction actions generalizing state with
  | nil => trivial
  | cons action actions ih => exact ⟨trivial, fun next _ => ih next⟩

instance RunRequested.decidable (step : State → Action → Except Fault State)
    (requested : State → Action → Prop)
    [∀ state action, Decidable (requested state action)] :
    ∀ state actions, Decidable (RunRequested step requested state actions)
  | _, [] => .isTrue trivial
  | state, action :: actions =>
      match stepped : step state action with
      | .ok next =>
          have := RunRequested.decidable step requested next actions
          decidable_of_iff _ (runRequested_cons_of_ok stepped).symm
      | .error _ =>
          decidable_of_iff (requested state action) ⟨fun now => ⟨now, fun next done => by
            rw [stepped] at done
            cases done⟩, fun proper => proper.1⟩

theorem alongRun_cons_of_ok {property : State → Prop} {state next : State}
    {action : Action} {actions : List Action} (stepped : step state action = .ok next) :
    AlongRun step property state (action :: actions) ↔
      property state ∧ AlongRun step property next actions := by
  simp [AlongRun, stepped]

instance AlongRun.decidable (step : State → Action → Except Fault State)
    (property : State → Prop) [∀ state, Decidable (property state)] :
    ∀ state actions, Decidable (AlongRun step property state actions)
  | state, [] => inferInstanceAs (Decidable (property state))
  | state, action :: actions =>
      match stepped : step state action with
      | .ok next =>
          have := AlongRun.decidable step property next actions
          decidable_of_iff _ (alongRun_cons_of_ok stepped).symm
      | .error _ =>
          decidable_of_iff (property state) ⟨fun now => ⟨now, fun next done => by
            rw [stepped] at done
            cases done⟩, fun along => along.1⟩

theorem alongRun_head {property : State → Prop} {state : State}
    {actions : List Action} (along : AlongRun step property state actions) :
    property state := by
  cases actions with
  | nil => exact along
  | cons action actions => exact along.1

/-- A property of all states along the run holds in its last state. -/
theorem alongRun_last {property : State → Prop} {state last : State}
    {actions : List Action} (along : AlongRun step property state actions)
    (reached : run step state actions = .ok last) : property last := by
  induction actions generalizing state with
  | nil =>
      cases reached
      exact along
  | cons action actions ih =>
      obtain ⟨next, stepped, rest⟩ := run_cons_eq_ok_iff.mp reached
      exact ih (along.2 next stepped) rest

theorem AlongRun.mono {property weaker : State → Prop} {state : State}
    {actions : List Action} (along : AlongRun step property state actions)
    (implies : ∀ state, property state → weaker state) :
    AlongRun step weaker state actions := by
  induction actions generalizing state with
  | nil => exact implies state along
  | cons action actions ih =>
      exact ⟨implies state along.1,
        fun next stepped => ih (along.2 next stepped)⟩

theorem AlongRun.and {property other : State → Prop} {state : State} {actions : List Action}
    (along : AlongRun step property state actions)
    (alsoAlong : AlongRun step other state actions) :
    AlongRun step (fun state => property state ∧ other state) state actions := by
  induction actions generalizing state with
  | nil => exact ⟨along, alsoAlong⟩
  | cons action actions ih =>
      exact ⟨⟨along.1, alsoAlong.1⟩,
        fun next stepped => ih (along.2 next stepped) (alsoAlong.2 next stepped)⟩

theorem RunAllowed.mono {allowed weaker : State → Action → Prop} {state : State}
    {actions : List Action} (permitted : RunAllowed step allowed state actions)
    (implies : ∀ state action, allowed state action → weaker state action) :
    RunAllowed step weaker state actions := by
  induction actions generalizing state with
  | nil => trivial
  | cons action actions ih =>
      intro next stepped
      obtain ⟨now, later⟩ := permitted next stepped
      exact ⟨implies state action now, ih later⟩

theorem RunAllowed.and {allowed other : State → Action → Prop} {state : State}
    {actions : List Action} (permitted : RunAllowed step allowed state actions)
    (alsoPermitted : RunAllowed step other state actions) :
    RunAllowed step (fun state action => allowed state action ∧ other state action) state
      actions := by
  induction actions generalizing state with
  | nil => trivial
  | cons action actions ih =>
      intro next stepped
      obtain ⟨now, later⟩ := permitted next stepped
      obtain ⟨alsoNow, alsoLater⟩ := alsoPermitted next stepped
      exact ⟨⟨now, alsoNow⟩, ih later alsoLater⟩

end Run

section Invariants

variable {step : State → Action → Except Fault State}
  {invariant property : State → Prop} {allowed : State → Action → Prop}

/-- An invariant preserved by every allowed step holds along every run whose
steps are allowed. -/
theorem alongRun_of_invariant
    (preserved : ∀ state action next, invariant state →
      allowed state action → step state action = .ok next → invariant next)
    {state : State} {actions : List Action} (initial : invariant state)
    (permitted : RunAllowed step allowed state actions) :
    AlongRun step invariant state actions := by
  induction actions generalizing state with
  | nil => exact initial
  | cons action actions ih =>
      refine ⟨initial, fun next stepped => ?_⟩
      obtain ⟨now, later⟩ := permitted next stepped
      exact ih (preserved state action next initial now stepped) later

/-- An invariant preserved by every step holds along every run. -/
theorem alongRun_of_preserved
    (preserved : ∀ state action next, invariant state →
      step state action = .ok next → invariant next)
    {state : State} {actions : List Action} (initial : invariant state) :
    AlongRun step invariant state actions := by
  induction actions generalizing state with
  | nil => exact initial
  | cons action actions ih =>
      exact ⟨initial, fun next stepped => ih (preserved state action next initial stepped)⟩

/-- An invariant that steps preserve while a property holds, along a run on which it does. -/
theorem AlongRun.keeps {state : State} {actions : List Action}
    (along : AlongRun step property state actions)
    (preserved : ∀ state action next, property state → invariant state →
      step state action = .ok next → invariant next)
    (initial : invariant state) : AlongRun step invariant state actions := by
  induction actions generalizing state with
  | nil => exact initial
  | cons action actions ih =>
      refine ⟨initial, fun next stepped => ?_⟩
      exact ih (along.2 next stepped) (preserved state action next along.1 initial stepped)

/-- The last state of a run whose steps are allowed satisfies the invariant. -/
theorem invariant_of_run
    (preserved : ∀ state action next, invariant state →
      allowed state action → step state action = .ok next → invariant next)
    {state last : State} {actions : List Action} (initial : invariant state)
    (permitted : RunAllowed step allowed state actions)
    (reached : run step state actions = .ok last) : invariant last :=
  alongRun_last (alongRun_of_invariant preserved initial permitted) reached

/-- A run of properly requested actions completes when each of its steps does. -/
theorem run_completes {requested : State → Action → Prop}
    (preserved : ∀ state action next, invariant state →
      allowed state action → step state action = .ok next → invariant next)
    (progress : ∀ state action, invariant state → requested state action →
      ∃ next, step state action = .ok next)
    {state : State} {actions : List Action} (initial : invariant state)
    (permitted : RunAllowed step allowed state actions)
    (proper : RunRequested step requested state actions) :
    ∃ last, run step state actions = .ok last := by
  induction actions generalizing state with
  | nil => exact ⟨state, rfl⟩
  | cons action actions ih =>
      obtain ⟨next, stepped⟩ := progress state action initial proper.1
      obtain ⟨now, later⟩ := permitted next stepped
      obtain ⟨last, reached⟩ := ih (preserved state action next initial now stepped) later
        (proper.2 next stepped)
      exact ⟨last, run_cons_eq_ok_iff.mpr ⟨next, stepped, reached⟩⟩

/-- When a step that is not allowed always breaks the property, the property
holds along a run exactly when all its steps are allowed. -/
theorem alongRun_iff_runAllowed
    (preserved : ∀ state action next, invariant state →
      allowed state action → step state action = .ok next → invariant next)
    (implies : ∀ state, invariant state → property state)
    (breaks : ∀ state action next, invariant state →
      ¬ allowed state action → step state action = .ok next → ¬ property next)
    {state : State} {actions : List Action} (initial : invariant state) :
    AlongRun step property state actions ↔
      RunAllowed step allowed state actions := by
  constructor
  · intro along
    induction actions generalizing state with
    | nil => trivial
    | cons action actions ih =>
        intro next stepped
        have later := along.2 next stepped
        have now : allowed state action := by
          by_contra forbidden
          exact breaks state action next initial forbidden stepped
            (alongRun_head later)
        exact ⟨now, ih (preserved state action next initial now stepped) later⟩
  · intro permitted
    exact (alongRun_of_invariant preserved initial permitted).mono implies

/-- Two conditions on steps that agree wherever the invariant holds are conditions on the
same runs. -/
theorem runAllowed_congr {other : State → Action → Prop}
    (preserved : ∀ state action next, invariant state →
      allowed state action → step state action = .ok next → invariant next)
    (same : ∀ state action next, invariant state → step state action = .ok next →
      (allowed state action ↔ other state action))
    {state : State} {actions : List Action} (initial : invariant state) :
    RunAllowed step allowed state actions ↔ RunAllowed step other state actions := by
  induction actions generalizing state with
  | nil => exact Iff.rfl
  | cons action actions ih =>
      refine forall_congr' fun next => forall_congr' fun stepped => ?_
      have now := same state action next initial stepped
      constructor
      · rintro ⟨permitted, later⟩
        exact ⟨now.mp permitted,
          (ih (preserved state action next initial permitted stepped)).mp later⟩
      · rintro ⟨permitted, later⟩
        exact ⟨now.mpr permitted,
          (ih (preserved state action next initial (now.mpr permitted) stepped)).mpr later⟩

/-- The same for runs that must not come to a bad end: when a step that is not requested
properly either ends the run badly or breaks the property, a run is good exactly when all
its actions are requested properly. -/
theorem goodRun_iff_runRequested {requested : State → Action → Prop} {bad : Fault}
    (preserved : ∀ state action next, invariant state →
      requested state action → step state action = .ok next → invariant next)
    (implies : ∀ state, invariant state → property state)
    (safe : ∀ state action, invariant state → requested state action →
      step state action ≠ .error bad)
    (breaks : ∀ state action, invariant state → ¬ requested state action →
      step state action = .error bad ∨ ∃ next, step state action = .ok next ∧ ¬ property next)
    {state : State} {actions : List Action} (initial : invariant state) :
    (AlongRun step property state actions ∧ run step state actions ≠ .error bad) ↔
      RunRequested step requested state actions := by
  induction actions generalizing state with
  | nil => simp [AlongRun, RunRequested, implies state initial]
  | cons action actions ih =>
      constructor
      · rintro ⟨along, good⟩
        have now : requested state action := by
          by_contra improper
          rcases breaks state action initial improper with failed | ⟨next, stepped, broken⟩
          · exact good (by rw [run, failed])
          · exact broken (alongRun_head (along.2 next stepped))
        refine ⟨now, fun next stepped => ?_⟩
        refine (ih (preserved state action next initial now stepped)).mp
          ⟨along.2 next stepped, ?_⟩
        rwa [run_cons_of_ok stepped] at good
      · rintro ⟨now, later⟩
        cases stepped : step state action with
        | error fault =>
            have other : fault ≠ bad := fun same =>
              safe state action initial now (by rw [stepped, same])
            refine ⟨⟨implies state initial, fun next done => ?_⟩, ?_⟩
            · rw [stepped] at done
              cases done
            · simpa [run, stepped] using other
        | ok next =>
            obtain ⟨along, good⟩ := (ih (preserved state action next initial now stepped)).mpr
              (later next stepped)
            rw [run_cons_of_ok stepped, alongRun_cons_of_ok stepped]
            exact ⟨⟨implies state initial, along⟩, good⟩

end Invariants

section Simulation

variable {Other : Type*}

/-- The same fault, or related states. -/
inductive SameOutcome (related : State → Other → Prop) :
    Except Fault State → Except Fault Other → Prop
  | ok {state : State} {other : Other} (relates : related state other) :
      SameOutcome related (.ok state) (.ok other)
  | error (fault : Fault) : SameOutcome related (.error fault) (.error fault)

variable {step : State → Action → Except Fault State}
  {otherStep : Other → Action → Except Fault Other} {related : State → Other → Prop}
  {requested : State → Action → Prop} {otherRequested : Other → Action → Prop}
  {proper : Action → Prop}

/-- Machines that answer every requested action alike answer a run of requested actions
alike. -/
theorem sameOutcome_run
    (simulates : ∀ state other action, related state other → proper action →
      otherRequested other action →
        SameOutcome related (step state action) (otherStep other action))
    {state : State} {other : Other} {actions : List Action} (begun : related state other)
    (allProper : ∀ action ∈ actions, proper action)
    (permitted : RunRequested otherStep otherRequested other actions) :
    SameOutcome related (run step state actions) (run otherStep other actions) := by
  induction actions generalizing state other with
  | nil => exact .ok begun
  | cons action actions ih =>
      rcases List.forall_mem_cons.mp allProper with ⟨isProper, othersProper⟩
      have outcome := simulates state other action begun isProper permitted.1
      generalize stepped : step state action = result at outcome
      generalize otherStepped : otherStep other action = otherResult at outcome
      cases outcome with
      | error fault =>
          rw [run, run, stepped, otherStepped]
          exact .error fault
      | ok relates =>
          rw [run_cons_of_ok stepped, run_cons_of_ok otherStepped]
          exact ih relates othersProper (permitted.2 _ otherStepped)

theorem runRequested_iff_of_simulation
    (same : ∀ state other action, related state other → proper action →
      (requested state action ↔ otherRequested other action))
    (simulates : ∀ state other action, related state other → proper action →
      otherRequested other action →
        SameOutcome related (step state action) (otherStep other action))
    {state : State} {other : Other} {actions : List Action} (begun : related state other)
    (allProper : ∀ action ∈ actions, proper action) :
    RunRequested step requested state actions ↔
      RunRequested otherStep otherRequested other actions := by
  induction actions generalizing state other with
  | nil => exact Iff.rfl
  | cons action actions ih =>
      rcases List.forall_mem_cons.mp allProper with ⟨isProper, othersProper⟩
      simp only [RunRequested, same state other action begun isProper]
      apply and_congr_right
      intro permitted
      have outcome := simulates state other action begun isProper permitted
      generalize step state action = result at outcome ⊢
      generalize otherStep other action = otherResult at outcome ⊢
      cases outcome with
      | ok relates => simpa using ih relates othersProper
      | error fault => simp

end Simulation

section Answers

variable {Other Answer : Type*}

/-- The steps of a machine that answers every action; the answers are collected. -/
def answering (perform : State → Action → Except Fault (Answer × State))
    (state : List Answer × State) (action : Action) : Except Fault (List Answer × State) :=
  (perform state.2 action).map fun result => (state.1 ++ [result.1], result.2)

/-- The same answers, and related states. -/
structure SameAnswers {Answers : Type*} (related : State → Other → Prop)
    (first : Answers × State) (second : Answers × Other) : Prop where
  answers : first.1 = second.1
  relates : related first.2 second.2

variable {perform : State → Action → Except Fault (Answer × State)}
  {otherPerform : Other → Action → Except Fault (Answer × Other)}
  {related : State → Other → Prop}

theorem sameOutcome_answering {answers : List Answer} {state : State} {other : Other}
    {action : Action}
    (alike : SameOutcome (SameAnswers related) (perform state action)
      (otherPerform other action)) :
    SameOutcome (SameAnswers related) (answering perform (answers, state) action)
      (answering otherPerform (answers, other) action) := by
  unfold answering
  dsimp only
  generalize perform state action = result at alike ⊢
  generalize otherPerform other action = otherResult at alike ⊢
  cases alike with
  | ok same => exact .ok ⟨congrArg (fun answer => answers ++ [answer]) same.answers, same.relates⟩
  | error fault => exact .error fault

/-- Machines that answer every requested action alike give the same answers in every run of
requested actions. -/
theorem sameAnswers_run {requested : Other → Action → Prop}
    (simulates : ∀ state other action, related state other → requested other action →
      SameOutcome (SameAnswers related) (perform state action) (otherPerform other action))
    {answers : List Answer} {state : State} {other : Other} {actions : List Action}
    (begun : related state other)
    (permitted : RunRequested (answering otherPerform) (fun state => requested state.2)
      (answers, other) actions) :
    SameOutcome (SameAnswers related) (run (answering perform) (answers, state) actions)
      (run (answering otherPerform) (answers, other) actions) := by
  have steps (first : List Answer × State) (second : List Answer × Other) (action : Action)
      (same : SameAnswers related first second) (_ : True) (now : requested second.2 action) :
      SameOutcome (SameAnswers related) (answering perform first action)
        (answering otherPerform second action) := by
    obtain ⟨answers, state⟩ := first
    obtain ⟨otherAnswers, other⟩ := second
    obtain rfl : answers = otherAnswers := same.answers
    exact sameOutcome_answering (simulates state other action same.relates now)
  exact sameOutcome_run steps ⟨rfl, begun⟩ (fun _ _ => trivial) permitted

end Answers

end TransitionRuns
