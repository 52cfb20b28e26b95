import ObjectWrapper.Source.Physical
import ObjectWrapper.Source.Segment

namespace ObjectWrapper
namespace Source

/-!
# Tokens of a text

A token is a segment of the text without splices, on the physical line of its
first character.  Segments only see characters, and lines only their number, so
the two meet here and nowhere else.
-/

/-- The tokens that consecutive segments become, where `lines` lists the line
of every character of their texts.  Segments are not empty, so there is always
a line to read. -/
def place (lines : List Nat) : List Segment -> List Token
  | [] => []
  | segment :: rest =>
    ⟨segment.kind, lines.headD 1, segment.lexeme⟩ :: place (lines.drop segment.text.length) rest

/-- The tokens of a text, its first character standing on line one. -/
def tokenize (text : String) : List Token :=
  let located := locate 1 text.toList
  place (located.map Located.line) (segments (located.map Located.character))

end Source
end ObjectWrapper
