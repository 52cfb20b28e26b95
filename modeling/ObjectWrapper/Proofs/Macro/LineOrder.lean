import ObjectWrapper.Proofs.Macro.Elements
import ObjectWrapper.Proofs.Source.Position

namespace ObjectWrapper
namespace Macro

open Source

/-!
# Order of lines in an expansion

The tokens of a replacement move to the line of the name they replace, while arguments
stay where they are.  An argument on a later line can therefore come to stand before a
token of the replacement, on the line of the name.  This is the only way in which
expansion disturbs the order of lines: where no invocation runs over a line end, the
lines of the expansion never go down if those of the text do not.

Which names are invoked depends on a table that changes from directive to directive.
So the condition on a text is stated for a list of names, and the names of all
function-like macros are assumed to be among them.
-/

/-- The function-like macros of the table have names of the list. -/
def Table.FunctionsAmong (functions : List String) (table : Table) : Prop :=
  ∀ name definition, table.find? name = some definition -> definition.isFunction = true ->
    name ∈ functions

/-- The argument list after each name of the list, if there is one, stands on the line of
the name. -/
def InvokesOnOneLine (functions : List String) : List Token -> Prop
  | [] => True
  | name :: rest =>
    (name.isIdentifier = true -> name.lexeme ∈ functions ->
      ∀ taken ∈ argumentList? rest, ∀ token ∈ taken, token.line = name.line) ∧
      InvokesOnOneLine functions rest

instance decidableInvokesOnOneLine (functions : List String) :
    (tokens : List Token) -> Decidable (InvokesOnOneLine functions tokens)
  | [] => .isTrue trivial
  | name :: rest =>
    have := decidableInvokesOnOneLine functions rest
    inferInstanceAs (Decidable ((name.isIdentifier = true -> name.lexeme ∈ functions ->
      ∀ taken ∈ argumentList? rest, ∀ token ∈ taken, token.line = name.line) ∧
        InvokesOnOneLine functions rest))

/-- The tokens that the element consists of stand on one line. -/
def Element.IsOnOneLine (element : Element) : Prop :=
  ∃ line, ∀ token ∈ element.source, token.line = line

section Tables

variable {functions : List String} {table : Table}

theorem Table.FunctionsAmong.define (known : table.FunctionsAmong functions) (name : String)
    {definition : Definition} (named : definition.isFunction = true -> name ∈ functions) :
    (table.define name definition).FunctionsAmong functions := by
  intro other found foundHere isFunction
  rw [Table.find?_define] at foundHere
  split at foundHere
  · rename_i same
    cases foundHere
    rw [same]
    exact named isFunction
  · exact known other found foundHere isFunction

theorem functionsAmong_builtins (listed : "__attribute__" ∈ functions) :
    Table.builtins.FunctionsAmong functions := by
  have nothing : Table.empty.FunctionsAmong functions := fun _ _ found => nomatch found
  have named : Definition.empty.isFunction = true -> ∀ name, name ∈ functions :=
    fun never => nomatch never
  exact ((nothing.define _ (named · _)).define _ (named · _)).define _ fun _ => listed

theorem Table.FunctionsAmong.erase (known : table.FunctionsAmong functions) (name : String) :
    (table.erase name).FunctionsAmong functions := by
  intro other found foundHere isFunction
  rw [Table.find?_erase] at foundHere
  split at foundHere
  · cases foundHere
  · exact known other found foundHere isFunction

theorem Table.FunctionsAmong.of_usage_function (known : table.FunctionsAmong functions)
    {token : Token} {following : List Token} {definition : Definition} {invocation : Invocation}
    (used : table.usage token following = .function definition invocation) :
    token.isIdentifier = true ∧ token.lexeme ∈ functions := by
  have found := (Macro.of_usage_function used).1
  unfold Table.usage at used
  split at used
  · rename_i isIdentifier
    rw [found] at used
    cases isFunction : definition.isFunction with
    | true => exact ⟨isIdentifier, known token.lexeme definition found isFunction⟩
    | false =>
        simp only [isFunction, Bool.false_eq_true, if_false] at used
        cases used
  · cases used

end Tables

section Invocations

variable {functions : List String} {tokens : List Token}

theorem InvokesOnOneLine.of_append {more : List Token}
    (invokes : InvokesOnOneLine functions (tokens ++ more)) : InvokesOnOneLine functions tokens := by
  induction tokens with
  | nil => exact trivial
  | cons name rest ih =>
      refine ⟨?_, ih invokes.2⟩
      intro isIdentifier known taken found
      exact invokes.1 isIdentifier known taken (argumentList?_append found more)

theorem InvokesOnOneLine.of_suffix {before : List Token}
    (invokes : InvokesOnOneLine functions (before ++ tokens)) : InvokesOnOneLine functions tokens := by
  induction before with
  | nil => exact invokes
  | cons name rest ih => exact ih invokes.2

theorem InvokesOnOneLine.of_isInfix {stretch : List Token}
    (invokes : InvokesOnOneLine functions tokens) (inside : stretch <:+: tokens) :
    InvokesOnOneLine functions stretch := by
  rcases inside with ⟨before, after, rfl⟩
  exact invokes.of_append.of_suffix

/-- Every part of a text that is replaced as a whole stands on one line. -/
theorem isOnOneLine_of_mem_elements {table : Table} (known : table.FunctionsAmong functions)
    (invokes : InvokesOnOneLine functions tokens) :
    ∀ element ∈ elements table tokens, element.IsOnOneLine := by
  have single : ∀ token : Token, ∃ line, ∀ other ∈ [token], other.line = line :=
    fun token => ⟨token.line, fun other member => by rw [List.mem_singleton.mp member]⟩
  fun_induction elements table tokens with
  | case1 => exact fun _ never => absurd never List.not_mem_nil
  | case2 token rest used ih =>
      intro element member
      rcases List.mem_cons.mp member with rfl | inside
      · exact single token
      · exact ih invokes.2 element inside
  | case3 token rest definition used ih =>
      intro element member
      rcases List.mem_cons.mp member with rfl | inside
      · exact single token
      · exact ih invokes.2 element inside
  | case4 token rest definition invocation used ih =>
      rcases Definition.exists_argumentList_of_invocation? (of_usage_function used).2 with
        ⟨taken, listed, parts⟩
      intro element member
      rcases List.mem_cons.mp member with rfl | inside
      · have named := known.of_usage_function used
        have onLine := invokes.1 named.1 named.2 taken listed
        refine ⟨token.line, ?_⟩
        intro other inSource
        rw [Element.source, parts, take_length_sub_of_append] at inSource
        rcases List.mem_cons.mp inSource with rfl | inTaken
        · rfl
        · exact onLine other inTaken
      · have later := invokes.2
        rw [parts] at later
        exact ih later.of_suffix element inside

/-- Where invocations stand on one line each, expansion keeps the order of lines. -/
theorem inLineOrder_expand {table : Table} (known : table.FunctionsAmong functions)
    (invokes : InvokesOnOneLine functions tokens) (ordered : InLineOrder tokens) :
    InLineOrder (expand table tokens) := by
  rw [← flatMap_result_elements, InLineOrder, List.pairwise_flatMap]
  rw [← flatMap_source_elements table tokens, InLineOrder, List.pairwise_flatMap] at ordered
  constructor
  · intro element member
    rcases isOnOneLine_of_mem_elements known invokes element member with ⟨line, onLine⟩
    have resultLine : ∀ token ∈ element.result, token.line = line := by
      intro token inResult
      rcases keepsLines_of_mem_elements member token inResult with ⟨placed, inSource, same⟩
      rw [same, onLine placed inSource]
    apply List.pairwise_of_forall_mem_list
    intro first firstInside second secondInside
    rw [resultLine first firstInside, resultLine second secondInside]
  · refine ordered.2.imp_of_mem fun firstInside secondInside before first inFirst second inSecond => ?_
    rcases keepsLines_of_mem_elements firstInside first inFirst with ⟨placed, inSource, same⟩
    rcases keepsLines_of_mem_elements secondInside second inSecond with
      ⟨otherPlaced, otherInSource, otherSame⟩
    rw [same, otherSame]
    exact before placed inSource otherPlaced otherInSource

end Invocations

end Macro
end ObjectWrapper
