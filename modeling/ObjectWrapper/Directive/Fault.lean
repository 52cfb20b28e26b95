import ObjectWrapper.Condition.Fault

namespace ObjectWrapper
namespace Directive

/-!
# What can be wrong with a directive

A source text is refused at the first directive that cannot be obeyed.  The
refusal names the file and the line of the directive.  Where the directive itself is in
order and the file that it includes cannot be read, only the reason for that is shown.
-/

/-- Why a directive cannot be obeyed. -/
inductive Fault where
  | condition (fault : Condition.Fault)
  /-- No name follows where one has to be defined or asked for. -/
  | nameMissing
  | elifWithoutIf
  | elifAfterElse
  | elseWithoutIf
  | elseAfterElse
  | endifWithoutIf
  /-- A group is still open at the end of its file. -/
  | unterminated
  | parametersNotClosed
  /-- A token that cannot stand in a parameter list. -/
  | unexpectedParameter (lexeme : String)
  /-- An include directive that names no header. -/
  | invalidInclude
  | includesTooDeep
  /-- A file that is included cannot be read. -/
  | unreadable (reason : String)
deriving DecidableEq, Repr

/-- The fault in words. -/
def Fault.message : Fault -> String
  | .condition fault => fault.message
  | .nameMissing => "Macro name missing"
  | .elifWithoutIf => "#elif without #if"
  | .elifAfterElse => "#elif after #else"
  | .elseWithoutIf => "#else without #if"
  | .elseAfterElse => "#else after #else"
  | .endifWithoutIf => "#endif without #if"
  | .unterminated => "Unterminated conditional directive"
  | .parametersNotClosed => "Missing ')' in macro parameter list"
  | .unexpectedParameter lexeme => s!"Unexpected '{lexeme}' in macro parameter list"
  | .invalidInclude => "Invalid #include directive"
  | .includesTooDeep => "#include nested too deeply"
  | .unreadable reason => s!"IO error: {reason}"

/-- A fault and the directive it was found in. -/
structure Refusal where
  file : String
  line : Nat
  fault : Fault
deriving DecidableEq, Repr

/-- The refusal in words. -/
def Refusal.message (refusal : Refusal) : String :=
  match refusal.fault with
  | .unreadable _ => refusal.fault.message
  | _ => s!"{refusal.file}:{refusal.line}: Error: {refusal.fault.message}"

end Directive
end ObjectWrapper
