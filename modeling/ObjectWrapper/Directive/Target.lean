import ObjectWrapper.Files.Search
import ObjectWrapper.Macro.Expansion
import ObjectWrapper.Text.ByteText

namespace ObjectWrapper
namespace Directive

open Source Files

/-!
# Targets of include directives

A header is named by a string literal without an encoding prefix, or by the
tokens between angle brackets.  Where the tokens of a directive name none as they
are written, they do once their macros are expanded, or not at all.  Header
names are paths, so the bytes they consist of are read as Unicode text.
-/

/-- A text without the quotes at its ends. -/
def unquote (text : String) : String :=
  String.ofList
    (((text.toList.dropWhile (· == '"')).reverse.dropWhile (· == '"')).reverse)

/-- The header that tokens name as they stand.  What follows the name does not
count. -/
def header? (tokens : List Token) : Option Header :=
  match tokens.dropWhile Token.isBlank with
  | [] => none
  | first :: rest =>
    if first.kind == .stringLiteral && first.lexeme.toList.head? == some '"' then
      some ⟨unquote first.lexeme, true⟩
    else if first.isPunctuator "<" then
      if rest.any (·.isPunctuator ">") then
        some ⟨joinLexemes (rest.takeWhile (! ·.isPunctuator ">")), false⟩
      else none
    else none

/-- The header that the tokens of an include directive name. -/
def target? (table : Macro.Table) (tokens : List Token) : Option Header :=
  match header? tokens with
  | some header => some header
  | none => header? (Macro.expand table tokens)

/-- The header under the name that the file system knows. -/
def fileHeader (header : Header) : Header :=
  { header with name := Unicode.repair (ByteText.toBytes header.name) }

end Directive
end ObjectWrapper
