import ObjectWrapper.Proofs.Except
import ObjectWrapper.Proofs.Preprocess.Outcome

namespace ObjectWrapper
namespace Preprocess

open Source Directive

/-!
# Faults of a directive's own

Some faults can be told from the tokens of a directive and the macros in force: a condition
without a value, a name that is missing, a parameter list that cannot be read.  All that a
directive is read for, other than a header, is refused for one of these, whatever groups are
open around it and however deep its file is nested.
-/

/-- The fault lies in what the tokens of a directive say. -/
def liesInTokens : Fault -> Bool
  | .condition _ | .nameMissing | .parametersNotClosed | .unexpectedParameter _ => true
  | .elifWithoutIf | .elifAfterElse | .elseWithoutIf | .elseAfterElse | .endifWithoutIf
  | .unterminated | .invalidInclude | .includesTooDeep | .unreadable _ => false

theorem liesInTokens_of_parameters {isVariadic : Bool} {tokens : List Token} {fault : Fault}
    (refused : parameters isVariadic tokens = .error fault) : liesInTokens fault = true := by
  fun_induction parameters isVariadic tokens with
  | case1 | case6 =>
      cases refused
      rfl
  | case2 _ _ _ _ ih => exact ih refused
  | case3 => cases refused
  | case4 _ _ _ _ _ _ ih | case5 _ _ _ _ _ _ _ ih => exact ih (eq_error_of_map_eq_error refused)

theorem liesInTokens_of_namedDefinition {tokens : List Token} {fault : Fault}
    (refused : namedDefinition tokens = .error fault) : liesInTokens fault = true := by
  unfold namedDefinition at refused
  split at refused
  · cases refused
    rfl
  · split at refused
    · have inDefinition := eq_error_of_bind_eq_error refused
      unfold definition at inDefinition
      split at inDefinition
      · cases inDefinition
      · split at inDefinition
        · exact liesInTokens_of_parameters (eq_error_of_bind_eq_error inDefinition)
        · cases inDefinition
    · cases refused
      rfl

/-- If the step is refused, then for a fault that lies in the tokens of its directive. -/
def ReadsTokens {α : Type} (step : Step α) : Prop :=
  ∀ state, Meets step state (fun _ _ => True) (fun refusal _ => liesInTokens refusal.fault = true)

theorem readsTokens_conditionHolds (place : Place) (tokens : List Token) :
    ReadsTokens (conditionHolds place tokens) := by
  intro state
  unfold conditionHolds
  rw [meets_bind, meets_get, meets_bind]
  apply meets_orRefuse
  · exact fun _ _ => trivial
  · intro fault refused
    cases evaluated : Condition.evaluate state.macros tokens with
    | ok value =>
        rw [evaluated] at refused
        cases refused
    | error cause =>
        rw [evaluated] at refused
        cases refused
        rfl

theorem readsTokens_requiredName (place : Place) (tokens : List Token) :
    ReadsTokens (requiredName place tokens) := by
  intro state
  unfold requiredName
  apply meets_orRefuse
  · exact fun _ _ => trivial
  · intro fault refused
    cases read : leadingName? tokens with
    | none =>
        rw [read] at refused
        cases refused
        rfl
    | some name =>
        rw [read] at refused
        cases refused

theorem readsTokens_nameHolds (place : Place) (expected : Bool) (tokens : List Token) :
    ReadsTokens (nameHolds place expected tokens) := by
  intro state
  unfold nameHolds
  rw [meets_bind]
  exact (readsTokens_requiredName place tokens state).mono (fun _ _ _ => trivial) (fun _ _ => id)

theorem readsTokens_obey {setup : Setup} {process? : Option Process} {place : Place}
    (directive : Request) (plain : ∀ tokens, directive ≠ .include tokens) :
    ReadsTokens (obey setup process? place directive) := by
  intro state
  match directive with
  | .define tokens =>
      unfold obey
      rw [meets_bind]
      apply meets_orRefuse
      · exact fun _ _ => trivial
      · exact fun _ refused => liesInTokens_of_namedDefinition refused
  | .undefine tokens =>
      unfold obey
      rw [meets_bind]
      exact (readsTokens_requiredName place tokens state).mono (fun _ _ _ => trivial)
        (fun _ _ => id)
  | .include tokens => exact absurd rfl (plain tokens)
  | .ifHolds _ | .ifDefined _ _ | .elif _ | .otherwise | .endif | .ignored => exact trivial

end Preprocess
end ObjectWrapper
