import Mathlib.Data.List.Infix
import Mathlib.Data.List.TakeWhile
import ObjectWrapper.Directive.Piece

namespace ObjectWrapper
namespace Directive

open Source

/-!
# The tokens of pieces

Pieces consist of tokens of the text they are pieces of, in the order of the text.
Some tokens belong to no piece: the `#` of a directive and the white space before it.
They stand between pieces and never inside one, so what is text between two directives
is a stretch of the text as a whole.
-/

/-- The tokens of a piece. -/
def Piece.tokens : Piece -> List Token
  | .text tokens => tokens
  | .directive _ tokens => tokens

theorem prependText_sublist (text : List Token) (rest : List Piece) :
    List.Sublist ((prependText text rest).flatMap Piece.tokens)
      (text ++ rest.flatMap Piece.tokens) := by
  cases rest with
  | nil => simp [prependText, Piece.tokens]
  | cons piece more => cases piece <;> simp [prependText, Piece.tokens]

theorem prependLine_sublist (line : List Token) (rest : List Piece) :
    List.Sublist ((prependLine line rest).flatMap Piece.tokens)
      (line ++ rest.flatMap Piece.tokens) := by
  unfold prependLine
  have skipped := (List.dropWhile_suffix (l := line) Token.isWhitespace).sublist
  split
  · exact prependText_sublist line rest
  · rename_i first following shape
    rw [shape] at skipped
    split
    · have inLine : List.Sublist following line :=
        (List.sublist_cons_self first following).trans skipped
      have parts := List.Sublist.append_left (prependText_sublist
        (following.dropWhile (! ·.isNewline)) rest) (following.takeWhile (! ·.isNewline))
      rw [← List.append_assoc, List.takeWhile_append_dropWhile] at parts
      exact parts.trans (List.Sublist.append_right inLine _)
    · exact prependText_sublist line rest

theorem flatten_lines (tokens : List Token) : (lines tokens).flatten = tokens := by
  fun_induction lines tokens <;> simp_all

/-- The tokens of all pieces stand in the text in this order. -/
theorem flatMap_tokens_pieces_sublist (tokens : List Token) :
    List.Sublist ((pieces tokens).flatMap Piece.tokens) tokens := by
  have within : ∀ given : List (List Token),
      List.Sublist ((given.foldr prependLine []).flatMap Piece.tokens) given.flatten := by
    intro given
    induction given with
    | nil => exact List.Sublist.refl []
    | cons line more ih =>
        exact (prependLine_sublist line _).trans (List.Sublist.append_left ih line)
  have whole := within (lines tokens)
  rwa [flatten_lines] at whole

/-- The tokens of pieces are tokens of the text they are pieces of. -/
theorem tokens_subset_of_mem_pieces {tokens : List Token} {piece : Piece}
    (member : piece ∈ pieces tokens) : piece.tokens ⊆ tokens :=
  fun _ inside =>
    (flatMap_tokens_pieces_sublist tokens).subset (List.mem_flatMap.mpr ⟨piece, member, inside⟩)

/-! ## Stretches of text -/

/-- The texts are stretches of the tokens, and a text at the front is one from their
beginning on. -/
structure TextsWithin (tokens : List Token) (given : List Piece) : Prop where
  first : ∀ text, given.head? = some (.text text) -> text <+: tokens
  each : ∀ text, .text text ∈ given -> text <:+: tokens

section Texts

variable {tokens : List Token} {given : List Piece}

theorem textsWithin_cons {text : List Token} (begins : text <+: tokens)
    (later : ∀ other, .text other ∈ given -> other <:+: tokens) :
    TextsWithin tokens (.text text :: given) := by
  refine ⟨?_, ?_⟩
  · intro other found
    cases found
    exact begins
  · intro other member
    rcases List.mem_cons.mp member with same | inside
    · cases same
      exact begins.isInfix
    · exact later other inside

theorem TextsWithin.prependText (within : TextsWithin tokens given) (more : List Token) :
    TextsWithin (more ++ tokens) (prependText more given) := by
  have later : ∀ text, .text text ∈ given -> text <:+: more ++ tokens :=
    fun text member => (within.each text member).trans (List.suffix_append more tokens).isInfix
  cases given with
  | nil => exact textsWithin_cons (List.prefix_append more tokens) later
  | cons piece rest =>
      cases piece with
      | text joined =>
          have begins : more ++ joined <+: more ++ tokens :=
            (List.prefix_append_right_inj more).mpr (within.first joined rfl)
          exact textsWithin_cons begins fun text member =>
            later text (List.mem_cons_of_mem _ member)
      | directive line arguments =>
          exact textsWithin_cons (List.prefix_append more tokens) later

theorem TextsWithin.prependLine (within : TextsWithin tokens given) (line : List Token) :
    TextsWithin (line ++ tokens) (prependLine line given) := by
  unfold Directive.prependLine
  have skipped := List.dropWhile_suffix (l := line) Token.isWhitespace
  split
  · exact within.prependText line
  · rename_i first following shape
    rw [shape] at skipped
    split
    · have behind : following.dropWhile (! ·.isNewline) <:+ line :=
        ((List.dropWhile_suffix _).trans (List.suffix_cons first following)).trans skipped
      have joined := within.prependText (following.dropWhile (! ·.isNewline))
      rcases behind with ⟨before, parts⟩
      refine ⟨?_, ?_⟩
      · intro text found
        cases found
      · intro text member
        rcases List.mem_cons.mp member with never | later
        · cases never
        · rw [← parts, List.append_assoc]
          exact (joined.each text later).trans (List.suffix_append before _).isInfix
    · exact within.prependText line

/-- The text between two directives is a stretch of the whole text. -/
theorem isInfix_of_text_mem_pieces {text : List Token} (member : .text text ∈ pieces tokens) :
    text <:+: tokens := by
  have within : ∀ given : List (List Token),
      TextsWithin given.flatten (given.foldr prependLine []) := by
    intro given
    induction given with
    | nil => exact ⟨(fun _ never => nomatch never), fun _ never => nomatch never⟩
    | cons line more ih => exact ih.prependLine line
  have stretch := (within (lines tokens)).each text member
  rwa [flatten_lines] at stretch

end Texts

end Directive
end ObjectWrapper
