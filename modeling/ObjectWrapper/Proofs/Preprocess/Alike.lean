import ObjectWrapper.Proofs.Preprocess.Nesting

namespace ObjectWrapper
namespace Preprocess

open Source Directive

/-!
# Sources and the state around them

A source that includes nothing reads no part of the state but the macros, and changes no
other part.  So the tokens it comes to and the macros it leaves behind depend on nothing
else: not on the name of its file, not on the files included before it, and not on how
deeply it is nested itself.  Only what a refusal says may differ.
-/

section

variable {α β : Type}

/-- The result of a step and the macros it leaves behind, unless it is refused. -/
def visible : EStateM.Result Refusal State α -> Option (α × Macro.Table)
  | .ok value after => some (value, after.macros)
  | .error _ _ => none

theorem exists_of_visible_eq {outcome other : EStateM.Result Refusal State α}
    (agree : visible outcome = visible other) :
    (∃ refusal after otherRefusal otherAfter,
        outcome = .error refusal after ∧ other = .error otherRefusal otherAfter) ∨
      ∃ value after otherAfter, outcome = .ok value after ∧ other = .ok value otherAfter ∧
        after.macros = otherAfter.macros := by
  cases outcome with
  | error refusal after =>
      cases other with
      | error otherRefusal otherAfter => exact .inl ⟨_, _, _, _, rfl, rfl⟩
      | ok => cases agree
  | ok value after =>
      cases other with
      | error => cases agree
      | ok otherValue otherAfter =>
          rcases Prod.mk.inj (Option.some.inj agree) with ⟨rfl, kept⟩
          exact .inr ⟨_, _, _, rfl, rfl, kept⟩

/-- The steps do the same wherever the same macros are in force. -/
def Alike (step other : Step α) : Prop :=
  ∀ state elsewhere, state.macros = elsewhere.macros ->
    visible (step state) = visible (other elsewhere)

theorem alike_pure (value : α) : Alike (pure value) (pure value) := by
  intro state elsewhere same
  exact congrArg (fun macros => some (value, macros)) same

theorem Alike.bind {step other : Step α} {next otherNext : α -> Step β}
    (alike : Alike step other) (go : ∀ value, Alike (next value) (otherNext value)) :
    Alike (step >>= next) (other >>= otherNext) := by
  intro state elsewhere same
  change visible (EStateM.bind step next state) = visible (EStateM.bind other otherNext elsewhere)
  unfold EStateM.bind
  rcases exists_of_visible_eq (alike state elsewhere same) with
    ⟨_, _, _, _, refused, otherRefused⟩ | ⟨value, after, otherAfter, ran, otherRan, kept⟩
  · rw [refused, otherRefused]
    rfl
  · rw [ran, otherRan]
    exact go value after otherAfter kept

/-- A step that looks at the state may look at its macros. -/
theorem alike_get_bind {next otherNext : State -> Step α}
    (go : ∀ state elsewhere, state.macros = elsewhere.macros ->
      visible (next state state) = visible (otherNext elsewhere elsewhere)) :
    Alike (get >>= next) (get >>= otherNext) :=
  go

theorem alike_refuse (place other : Place) (fault otherFault : Fault) :
    Alike (refuse place fault : Step α) (refuse other otherFault) :=
  fun _ _ _ => rfl

theorem alike_orRefuse (place other : Place) (result : Except Fault α) :
    Alike (orRefuse place result) (orRefuse other result) := by
  cases result with
  | ok value => exact alike_pure value
  | error fault => exact alike_refuse place other fault fault

theorem alike_modifyMacros (change : Macro.Table -> Macro.Table) :
    Alike (modifyMacros change) (modifyMacros change) := by
  intro state elsewhere same
  exact congrArg (fun macros => some ((), change macros)) same

end

/-! ## Questions about the state -/

theorem alike_conditionHolds (place other : Place) (tokens : List Token) :
    Alike (conditionHolds place tokens) (conditionHolds other tokens) := by
  unfold conditionHolds
  apply alike_get_bind
  intro state elsewhere same
  rw [same]
  exact ((alike_orRefuse place other _).bind fun _ => alike_pure _) state elsewhere same

theorem alike_requiredName (place other : Place) (tokens : List Token) :
    Alike (requiredName place tokens) (requiredName other tokens) :=
  alike_orRefuse place other _

theorem alike_nameHolds (place other : Place) (expected : Bool) (tokens : List Token) :
    Alike (nameHolds place expected tokens) (nameHolds other expected tokens) := by
  unfold nameHolds
  apply (alike_requiredName place other tokens).bind
  intro name
  apply alike_get_bind
  intro state elsewhere same
  rw [same]
  exact alike_pure _ state elsewhere same

/-! ## Directives and texts -/

section Clauses

variable (setup otherSetup : Setup) (process? otherProcess? : Option Process)

theorem alike_obey (place other : Place) (directive : Request)
    (plain : ∀ tokens, directive ≠ .include tokens) :
    Alike (obey setup process? place directive) (obey otherSetup otherProcess? other directive) := by
  match directive with
  | .define tokens =>
      exact (alike_orRefuse place other _).bind fun _ =>
        (alike_modifyMacros _).bind fun _ => alike_pure _
  | .undefine tokens =>
      exact (alike_requiredName place other tokens).bind fun _ =>
        (alike_modifyMacros _).bind fun _ => alike_pure _
  | .include tokens => exact absurd rfl (plain tokens)
  | .ifHolds _ | .ifDefined _ _ | .elif _ | .otherwise | .endif | .ignored => exact alike_pure _

theorem alike_perform (place other : Place) (groups : List Group) (directive : Request)
    (plain : ∀ tokens, directive ≠ .include tokens) :
    Alike (perform setup process? place groups directive)
      (perform otherSetup otherProcess? other groups directive) := by
  match directive, groups with
  | .ifHolds condition, groups =>
      unfold perform
      cases isActive groups with
      | true => exact (alike_conditionHolds place other condition).bind fun _ => alike_pure _
      | false => exact alike_pure _
  | .ifDefined expected tokens, groups =>
      unfold perform
      cases isActive groups with
      | true => exact (alike_nameHolds place other expected tokens).bind fun _ => alike_pure _
      | false => exact alike_pure _
  | .elif _, [] | .otherwise, [] | .endif, [] => exact alike_refuse place other _ _
  | .elif condition, group :: outer =>
      unfold perform
      simp only
      split
      · exact alike_refuse place other _ _
      · split
        · exact (alike_conditionHolds place other condition).bind fun _ => alike_pure _
        · exact alike_pure _
  | .otherwise, group :: outer =>
      unfold perform
      simp only
      split
      · exact alike_refuse place other _ _
      · exact alike_pure _
  | .endif, _ :: _ => exact alike_pure _
  | .define _, groups | .undefine _, groups | .ignored, groups =>
      unfold perform
      cases isActive groups with
      | true =>
          exact (alike_obey setup otherSetup process? otherProcess? place other _ plain).bind
            fun _ => alike_pure _
      | false => exact alike_pure _
  | .include tokens, _ => exact absurd rfl (plain tokens)

theorem alike_processClause (file other : String) (groups : List Group) (clause : Clause)
    (plain : clause.isInclude = false) :
    Alike (processClause setup process? file groups clause)
      (processClause otherSetup otherProcess? other groups clause) := by
  cases clause with
  | text tokens =>
      apply alike_get_bind
      intro state elsewhere same
      rw [same]
      exact alike_pure _ state elsewhere same
  | request line request =>
      refine alike_perform setup otherSetup process? otherProcess? _ _ groups request ?_
      rintro tokens rfl
      cases plain

/-- What a source comes to depends on the macros and on the groups that are open, if it
includes nothing. -/
theorem alike_processClauses (file other : String) (lastLine otherLastLine : Nat)
    (groups : List Group) (source : List Clause) (plain : Plain source) :
    Alike (processClauses setup process? file lastLine groups source)
      (processClauses otherSetup otherProcess? other otherLastLine groups source) := by
  induction source generalizing groups with
  | nil =>
      unfold processClauses
      cases groups.isEmpty with
      | true => exact alike_pure []
      | false => exact alike_refuse _ _ _ _
  | cons clause rest ih =>
      rcases plain_cons.mp plain with ⟨clausePlain, restPlain⟩
      unfold processClauses
      apply (alike_processClause setup otherSetup process? otherProcess? file other groups clause
        clausePlain).bind
      intro done
      exact (ih done.1 restPlain).bind fun _ => alike_pure _

end Clauses

end Preprocess
end ObjectWrapper
