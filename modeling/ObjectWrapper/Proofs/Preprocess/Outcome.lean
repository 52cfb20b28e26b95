import ObjectWrapper.Preprocess.Run

namespace ObjectWrapper
namespace Preprocess

open Directive

/-!
# Outcomes of steps

A step of preprocessing ends in a result or in a refusal, and in either case leaves
a state behind.  What is claimed of a step is claimed of both outcomes at once, so
that nothing gets lost where a step is refused half-way.
-/

section

variable {α β : Type}

/-- Whatever the step comes to from the state: its result and the state after it
satisfy `returns`, or its refusal and the state after it satisfy `refuses`. -/
def Meets (step : Step α) (state : State) (returns : α -> State -> Prop)
    (refuses : Refusal -> State -> Prop) : Prop :=
  match step state with
  | .ok value after => returns value after
  | .error refusal after => refuses refusal after

variable {state : State} {returns : α -> State -> Prop} {refuses : Refusal -> State -> Prop}

theorem Meets.mono {step : Step α} {weaker : α -> State -> Prop}
    {weakerRefuses : Refusal -> State -> Prop} (meets : Meets step state returns refuses)
    (returning : ∀ value after, returns value after -> weaker value after)
    (refusing : ∀ refusal after, refuses refusal after -> weakerRefuses refusal after) :
    Meets step state weaker weakerRefuses := by
  unfold Meets at *
  split
  · rename_i value after ran
    rw [ran] at meets
    exact returning value after meets
  · rename_i refusal after ran
    rw [ran] at meets
    exact refusing refusal after meets

theorem Meets.of_ok {step : Step α} {value : α} {after : State}
    (meets : Meets step state returns refuses) (ran : step state = .ok value after) :
    returns value after := by
  rw [Meets, ran] at meets
  exact meets

theorem Meets.and {step : Step α} {alsoReturns : α -> State -> Prop}
    {alsoRefuses : Refusal -> State -> Prop} (meets : Meets step state returns refuses)
    (alsoMeets : Meets step state alsoReturns alsoRefuses) :
    Meets step state (fun value after => returns value after ∧ alsoReturns value after)
      (fun refusal after => refuses refusal after ∧ alsoRefuses refusal after) := by
  unfold Meets at *
  split
  · rename_i value after ran
    rw [ran] at meets alsoMeets
    exact ⟨meets, alsoMeets⟩
  · rename_i refusal after ran
    rw [ran] at meets alsoMeets
    exact ⟨meets, alsoMeets⟩

@[simp]
theorem meets_pure {value : α} :
    Meets (pure value) state returns refuses ↔ returns value state :=
  Iff.rfl

/-- The second step begins where the first one ends, unless that is refused. -/
@[simp]
theorem meets_bind {step : Step β} {next : β -> Step α} :
    Meets (step >>= next) state returns refuses ↔
      Meets step state (fun value after => Meets (next value) after returns refuses) refuses := by
  unfold Meets
  change (match EStateM.bind step next state with
    | .ok value after => returns value after
    | .error refusal after => refuses refusal after) ↔ _
  unfold EStateM.bind
  cases step state <;> rfl

@[simp]
theorem meets_get {returns : State -> State -> Prop} :
    Meets get state returns refuses ↔ returns state state :=
  Iff.rfl

theorem meets_orRefuse {place : Place} {result : Except Fault α}
    (returning : ∀ value, result = .ok value -> returns value state)
    (refusing : ∀ fault, result = .error fault ->
      refuses ⟨place.file, place.line, fault⟩ state) :
    Meets (orRefuse place result) state returns refuses := by
  cases result with
  | ok value => exact returning value rfl
  | error fault => exact refusing fault rfl

/-- The step leaves the state as it is, whatever it comes to. -/
def LeavesState (step : Step α) : Prop :=
  ∀ state, Meets step state (fun _ after => after = state) (fun _ after => after = state)

theorem leavesState_orRefuse (place : Place) (result : Except Fault α) :
    LeavesState (orRefuse place result) :=
  fun _ => meets_orRefuse (fun _ _ => rfl) (fun _ _ => rfl)

/-- A step that leaves the state as it is can be followed by what holds for all of
its results. -/
theorem LeavesState.meets {step : Step α} (leaves : LeavesState step)
    (returning : ∀ value, returns value state) (refusing : ∀ refusal, refuses refusal state) :
    Meets step state returns refuses := by
  apply (leaves state).mono
  · rintro value after rfl
    exact returning value
  · rintro refusal after rfl
    exact refusing refusal

theorem exists_of_run'_eq_some {step : Step α} {value : α} (ran : step.run' state = some value) :
    ∃ after, step state = .ok value after := by
  unfold EStateM.run' EStateM.run at ran
  split at ran
  · rename_i other after reached
    cases ran
    exact ⟨after, reached⟩
  · cases ran

end

/-! ## Questions about the state -/

theorem leavesState_conditionHolds (place : Place) (tokens : List Source.Token) :
    LeavesState (conditionHolds place tokens) := by
  intro state
  unfold conditionHolds
  rw [meets_bind, meets_get, meets_bind]
  exact meets_orRefuse (fun _ _ => rfl) (fun _ _ => rfl)

theorem leavesState_requiredName (place : Place) (tokens : List Source.Token) :
    LeavesState (requiredName place tokens) :=
  leavesState_orRefuse place _

theorem leavesState_nameHolds (place : Place) (expected : Bool) (tokens : List Source.Token) :
    LeavesState (nameHolds place expected tokens) := by
  intro state
  unfold nameHolds
  rw [meets_bind]
  exact (leavesState_requiredName place tokens).meets (fun _ => rfl) (fun _ => rfl)

end Preprocess
end ObjectWrapper
