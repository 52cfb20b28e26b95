import ObjectWrapper.Condition.Fault
import ObjectWrapper.Macro.Table

namespace ObjectWrapper
namespace Condition

open Source Macro

/-!
# The operator `defined`

`defined X` and `defined(X)` ask whether a name has a definition.  They are
answered before macros are expanded, since expansion would replace the name.
-/

/-- The name a use of `defined` asks about, and the tokens after the use. -/
structure Question where
  name : String
  after : List Token
deriving DecidableEq, Repr

/-- The name at the start of the tokens, which may come after blanks. -/
def questionName (tokens : List Token) : Except Fault Question :=
  match tokens.dropWhile Token.isBlank with
  | token :: rest =>
    if token.isIdentifier then .ok ⟨token.lexeme, rest⟩ else .error .nameMissing
  | [] => .error .nameMissing

/-- The question that the tokens after the word `defined` ask. -/
def question (tokens : List Token) : Except Fault Question :=
  match tokens.dropWhile Token.isBlank with
  | [] => .error .nameMissing
  | token :: rest =>
    if token.isPunctuator "(" then do
      let inner <- questionName rest
      match inner.after.dropWhile Token.isBlank with
      | closing :: after =>
        if closing.isPunctuator ")" then .ok ⟨inner.name, after⟩ else .error .definedNotClosed
      | [] => .error .definedNotClosed
    else questionName (token :: rest)

theorem length_dropWhile_le (test : Token -> Bool) (tokens : List Token) :
    (tokens.dropWhile test).length ≤ tokens.length :=
  (List.dropWhile_suffix test).length_le

theorem questionName_after_length {tokens : List Token} {asked : Question}
    (found : questionName tokens = .ok asked) : asked.after.length < tokens.length := by
  unfold questionName at found
  have skipped := length_dropWhile_le Token.isBlank tokens
  split at found
  · rename_i token rest shape
    rw [shape, List.length_cons] at skipped
    split at found
    · cases found
      exact skipped
    · cases found
  · cases found

theorem question_after_length {tokens : List Token} {asked : Question}
    (found : question tokens = .ok asked) : asked.after.length < tokens.length := by
  unfold question at found
  have skipped := length_dropWhile_le Token.isBlank tokens
  split at found
  · cases found
  · rename_i token rest shape
    rw [shape, List.length_cons] at skipped
    split at found
    · cases inner : questionName rest with
      | error fault => simp [inner, bind, Except.bind] at found
      | ok named =>
        have bound := questionName_after_length inner
        have closed := length_dropWhile_le Token.isBlank named.after
        simp only [inner, bind, Except.bind] at found
        split at found
        · rename_i closing after closingShape
          rw [closingShape, List.length_cons] at closed
          split at found
          · cases found
            simp only
            omega
          · cases found
        · cases found
    · have bound := questionName_after_length found
      rw [List.length_cons] at bound
      omega

/-- The tokens with every use of `defined` replaced by its answer. -/
def answerDefined (table : Table) : List Token -> Except Fault (List Token)
  | [] => .ok []
  | token :: rest =>
    if token.isName "defined" then
      match _found : question rest with
      | .error fault => .error fault
      | .ok asked => do
        let answered <- answerDefined table asked.after
        let answer := if table.contains asked.name then "1" else "0"
        .ok (⟨.number, token.line, answer⟩ :: answered)
    else do
      let answered <- answerDefined table rest
      .ok (token :: answered)
termination_by tokens => tokens.length
decreasing_by
  · exact Nat.lt_succ_of_lt (question_after_length _found)
  · exact Nat.lt_succ_self _

end Condition
end ObjectWrapper
