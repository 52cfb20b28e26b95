import ObjectWrapper.Directive.Fault
import ObjectWrapper.Macro.Table

namespace ObjectWrapper
namespace Directive

open Source

/-!
# Definitions of macros

A definition is the name, for a function-like macro the parameters, and the
replacement, which loses the blanks at its ends.  A macro is function-like when
the parenthesis of its parameters touches the name; otherwise the parenthesis
belongs to the replacement.  Commas between parameters may be missing or
repeated, but nothing follows `...`.
-/

/-- What a parameter list says, and the tokens after it. -/
structure ParameterList where
  names : List String
  isVariadic : Bool
  after : List Token
deriving DecidableEq, Repr

/-- The list with one more parameter in front. -/
def ParameterList.cons (name : String) (list : ParameterList) : ParameterList :=
  { list with names := name :: list.names }

/-- The parameters up to the closing parenthesis.  None may follow when the
list is variadic already. -/
def parameters (isVariadic : Bool) : List Token -> Except Fault ParameterList
  | [] => .error .parametersNotClosed
  | token :: rest =>
    if token.isWhitespace || token.isPunctuator "," then parameters isVariadic rest
    else if token.isPunctuator ")" then .ok ⟨[], isVariadic, rest⟩
    else if token.isIdentifier && !isVariadic then
      (parameters isVariadic rest).map (ParameterList.cons token.lexeme)
    else if token.isPunctuator "..." && !isVariadic then
      (parameters true rest).map (ParameterList.cons Macro.Definition.variadicName)
    else .error (.unexpectedParameter token.lexeme)

/-- The definition whose tokens follow the name. -/
def definition (tokens : List Token) : Except Fault Macro.Definition :=
  match tokens with
  | [] => .ok .empty
  | token :: rest =>
    if token.isPunctuator "(" then do
      let list <- parameters false rest
      .ok
        { replacement := trimBlanks list.after
          parameters := list.names
          isFunction := true
          isVariadic := list.isVariadic }
    else .ok { replacement := trimBlanks tokens }

/-- The name and the definition that the tokens of a directive give it. -/
def namedDefinition (tokens : List Token) : Except Fault (String × Macro.Definition) :=
  match tokens.dropWhile Token.isWhitespace with
  | [] => .error .nameMissing
  | token :: rest =>
    if token.isIdentifier then do
      let definition <- definition rest
      .ok (token.lexeme, definition)
    else .error .nameMissing

end Directive
end ObjectWrapper
