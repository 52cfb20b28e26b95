namespace ObjectWrapper
namespace Condition

/-!
# What can be wrong with a condition

Each fault names the token or literal it was found at, where there is one.
-/

/-- Why a condition has no value. -/
inductive Fault where
  /-- No name follows `defined`. -/
  | nameMissing
  /-- The parenthesis after `defined` is not closed behind the name. -/
  | definedNotClosed
  /-- There is nothing to evaluate. -/
  | noExpression
  /-- An operand or a punctuator is missing at the end. -/
  | endsEarly
  /-- A token that cannot stand where it does. -/
  | unexpected (lexeme : String)
  /-- A token stands where a certain punctuator has to. -/
  | expected (punctuator : String) (found : String)
  | divisionByZero
  /-- A number that is not an integer of at most 64 bits. -/
  | invalidInteger (literal : String)
  /-- A character literal without a quote. -/
  | invalidCharacter (literal : String)
  /-- A character literal without a character. -/
  | emptyCharacter (literal : String)
deriving DecidableEq, Repr

/-- The fault in words. -/
def Fault.message : Fault -> String
  | .nameMissing => "Macro name missing after 'defined'"
  | .definedNotClosed => "Missing ')' after 'defined'"
  | .noExpression => "#if with no expression"
  | .endsEarly => "Unexpected end of #if expression"
  | .unexpected lexeme => s!"Unexpected '{lexeme}' in #if expression"
  | .expected punctuator found => s!"Expected '{punctuator}' in #if expression, found '{found}'"
  | .divisionByZero => "Division by zero in #if expression"
  | .invalidInteger literal => s!"Invalid integer '{literal}' in #if expression"
  | .invalidCharacter literal => s!"Invalid character literal {literal}"
  | .emptyCharacter literal => s!"Empty character literal {literal}"

end Condition
end ObjectWrapper
