import ObjectWrapper.Proofs.Macro.Origin
import ObjectWrapper.Proofs.Source.Words

namespace ObjectWrapper
namespace Macro

open Source

/-!
# Whether expanded tokens stay apart

Expansion puts nothing between the tokens it brings together, so the text of an expansion
may be read as other tokens: a sign of the source and a sign that a macro stands for make
one punctuator.  This is a matter of single words.  A word that is part of the source or
of one replacement as it stands there is read back, whatever the expansion has put around
it; so only a word that has been composed by expansion can be read differently, and it
is if it is read differently alone.
-/

/-- Every replacement is part of some text that has been read. -/
def Table.ReadFromTexts (table : Table) : Prop :=
  ∀ name definition, table.find? name = some definition ->
    ∃ text, definition.replacement.map Token.spelling <:+: (tokenize text).map Token.spelling

/-- The word is part of the source, or of a replacement, as it stands there. -/
def Table.Offers (table : Table) (source word : List Token) : Prop :=
  word.map Token.spelling <:+: source.map Token.spelling ∨
    ∃ name definition, table.find? name = some definition ∧
      word.map Token.spelling <:+: definition.replacement.map Token.spelling

section Apart

variable {table : Table}

theorem Table.ReadFromTexts.holds_isRead (fromTexts : table.ReadFromTexts) :
    table.Holds Token.IsRead := by
  intro name definition found token member
  rcases fromTexts name definition found with ⟨text, inText⟩
  exact isRead_of_isInfix inText token member

theorem Table.ReadFromTexts.stayApart_of_offers (fromTexts : table.ReadFromTexts) {source : String}
    {word : List Token} (noBlank : ∀ token ∈ word, token.isBlank = false)
    (offers : table.Offers (tokenize source) word) : StayApart word := by
  rcases offers with inSource | ⟨name, definition, found, inReplacement⟩
  · exact stayApart_of_isInfix noBlank inSource
  · rcases fromTexts name definition found with ⟨text, inText⟩
    exact stayApart_of_isInfix noBlank (inReplacement.trans inText)

/-- The tokens of an expansion are the tokens of its text, blanks apart, if that is not
spliced, literals without a closing quote are at the end of a line, and the words that
expansion has composed are read back. -/
theorem stayApart_expand_iff (fromTexts : table.ReadFromTexts) (source : String) :
    StayApart (expand table (tokenize source)) ↔
      Unspliced (joinLexemes (expand table (tokenize source))).toList ∧
        LiteralsEnd (expand table (tokenize source)) ∧
        ∀ word ∈ words (expand table (tokenize source)),
          table.Offers (tokenize source) word ∨ StayApart word := by
  have read : ∀ token ∈ expand table (tokenize source), token.IsRead :=
    fromTexts.holds_isRead.of_mem_expand (fun _ _ isRead => isRead)
      fun token member => isRead_of_mem_tokenize member
  have composed : (∀ word ∈ words (expand table (tokenize source)), StayApart word) ↔
      ∀ word ∈ words (expand table (tokenize source)),
        table.Offers (tokenize source) word ∨ StayApart word := by
    refine forall₂_congr fun word member => ⟨.inr, ?_⟩
    rintro (offers | apart)
    · exact fromTexts.stayApart_of_offers (of_mem_words member).2 offers
    · exact apart
  rw [stayApart_iff_words read, composed, toList_joinLexemes]

end Apart

/-- The table in which `P` stands for a plus sign. -/
def plusTable : Table :=
  Table.empty.define "P" { replacement := tokenize "+" }

theorem of_find?_plusTable {name : String} {definition : Definition}
    (found : plusTable.find? name = some definition) : definition.replacement = tokenize "+" := by
  rw [plusTable, Table.find?_define] at found
  split at found
  · cases found
    rfl
  · cases found

/-- The sign is read back between parentheses, where no blanks are. -/
theorem stayApart_expand_parenthesized :
    plusTable.ReadFromTexts ∧ StayApart (expand plusTable (tokenize "a (P) b")) := by
  have fromTexts : plusTable.ReadFromTexts := by
    intro name definition found
    rw [of_find?_plusTable found]
    exact ⟨"+", List.infix_refl _⟩
  have composed : ∀ word ∈ words (expand plusTable (tokenize "a (P) b")), StayApart word := by
    decide +kernel
  exact ⟨fromTexts, (stayApart_expand_iff fromTexts "a (P) b").mpr
    ⟨by decide +kernel, by decide +kernel, fun word member => .inr (composed word member)⟩⟩

/-- Directly after another plus sign it is not. -/
theorem not_stayApart_expand :
    ¬ ∀ (table : Table) (source : String),
      (∀ name definition, table.find? name = some definition ->
        ∃ text, definition.replacement = tokenize text) ->
      Unspliced source.toList -> (∀ token ∈ tokenize source, token.IsClosed) ->
      StayApart (expand table (tokenize source)) := by
  intro claim
  have same := claim plusTable "+P" (fun _ _ found => ⟨"+", of_find?_plusTable found⟩)
    (by decide +kernel) (by decide +kernel)
  exact absurd same (by decide +kernel)

end Macro
end ObjectWrapper
