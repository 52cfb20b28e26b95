import ObjectWrapper.Source.Token

namespace ObjectWrapper
namespace Directive

open Source

/-!
# Directives

A directive is known by its first token other than white space, when that is an
identifier.  Lines that only mark a position, empty directives and directives of
other names are ignored.
-/

/-- What a directive asks for, with the tokens after its name. -/
inductive Request where
  | ifHolds (condition : List Token)
  /-- The group depends on whether a name is defined, or on whether it is not. -/
  | ifDefined (expected : Bool) (tokens : List Token)
  | elif (condition : List Token)
  | otherwise
  | endif
  | define (tokens : List Token)
  | undefine (tokens : List Token)
  | include (tokens : List Token)
  | ignored
deriving DecidableEq, Repr

/-- The directive that begins with a name. -/
def Request.ofName (name : String) (tokens : List Token) : Request :=
  match name with
  | "if" => .ifHolds tokens
  | "ifdef" => .ifDefined true tokens
  | "ifndef" => .ifDefined false tokens
  | "elif" => .elif tokens
  | "else" => .otherwise
  | "endif" => .endif
  | "define" => .define tokens
  | "undef" => .undefine tokens
  | "include" => .include tokens
  | _ => .ignored

/-- The directive that the tokens after `#` make up. -/
def Request.ofTokens (tokens : List Token) : Request :=
  match tokens.dropWhile Token.isWhitespace with
  | [] => .ignored
  | first :: rest => if first.isIdentifier then Request.ofName first.lexeme rest else .ignored

/-- The name that tokens begin with. -/
def leadingName? (tokens : List Token) : Option String :=
  match tokens.dropWhile Token.isBlank with
  | [] => none
  | first :: _ => if first.isIdentifier then some first.lexeme else none

end Directive
end ObjectWrapper
