import ObjectWrapper.Proofs.Source.LineFeeds
import ObjectWrapper.Proofs.Source.LiteralRun

namespace ObjectWrapper
namespace Source

/-!
# Line feeds around included files

The markers of an included file set a draft back: behind the one that begins it the lines of
the file count from zero, and behind the one that ends it they count from the line of the
directive.  So the text is spaced in stretches, each of which begins at a marker or at the
start, and the lines of one stretch have nothing to do with those of another.

The main statement is that a draft keeps account of this over any number of markers, nested in
any way or not at all.  Wherever the lines of a stretch never go up, a token stands as many
line feeds behind the start of its stretch as its line is below the one the stretch counts
from, unless it is joined to a string literal.  Behind an included file this is the spacing
that the including file has on its own.
-/

/-! ## Stretches -/

/-- The line that the tokens behind a marker count from. -/
def Token.restart? (token : Token) : Option Nat :=
  match token.kind with
  | .includeBegin => some 0
  | .includeEnd => some token.line
  | _ => none

/-- The line that a stretch counts from, if one begins behind the tokens. -/
def stretchLine? (earlier : List Token) : Option Nat :=
  match earlier.getLast? with
  | none => some 1
  | some token => token.restart?

/-- Within each stretch no token is above the one before it, nor above the line that the stretch
counts from, which is the given one for the first stretch. -/
def runsDown (line : Nat) : List Token -> Bool
  | [] => true
  | token :: rest =>
    match token.restart? with
    | some restart => runsDown restart rest
    | none => line ≤ token.line && runsDown token.line rest

theorem Token.restart?_eq_none_iff {token : Token} :
    token.restart? = none ↔ token.kind.isMarker = false := by
  rcases token with ⟨kind, line, lexeme⟩
  cases kind <;> simp [Token.restart?, TokenKind.isMarker]

theorem runsDown_of_append_cons {token : Token} {restart : Nat}
    (restarts : token.restart? = some restart) {line : Nat} {before rest : List Token}
    (runs : runsDown line (before ++ token :: rest) = true) : runsDown restart rest = true := by
  induction before generalizing line with
  | nil =>
      rw [List.nil_append, runsDown, restarts] at runs
      exact runs
  | cons first others ih =>
      rw [List.cons_append, runsDown] at runs
      split at runs
      · exact ih runs
      · exact ih (Bool.and_eq_true_iff.mp runs).2

theorem exists_concat_of_stretchLine? {earlier : List Token} {line : Nat}
    (begins : stretchLine? earlier = some line) :
    earlier = [] ∧ line = 1 ∨
      ∃ before token, earlier = before ++ [token] ∧ token.restart? = some line := by
  rcases List.eq_nil_or_concat earlier with rfl | ⟨before, token, rfl⟩
  · exact .inl ⟨rfl, (Option.some.inj begins).symm⟩
  · rw [List.concat_eq_append, stretchLine?, List.getLast?_concat] at begins
    exact .inr ⟨before, token, List.concat_eq_append, begins⟩

theorem runsDown_of_stretchLine? {earlier rest : List Token} {line : Nat}
    (runs : runsDown 1 (earlier ++ rest) = true) (begins : stretchLine? earlier = some line) :
    runsDown line rest = true := by
  rcases exists_concat_of_stretchLine? begins with ⟨rfl, rfl⟩ | ⟨before, token, rfl, restarts⟩
  · exact runs
  · rw [List.append_assoc] at runs
    exact runsDown_of_append_cons restarts runs

/-- A token is the lowest one of its stretch so far. -/
theorem le_line_of_runsDown {line : Nat} {stretch later : List Token} {token : Token}
    (unmarked : ∀ other ∈ stretch, other.kind.isMarker = false)
    (noMarker : token.kind.isMarker = false)
    (runs : runsDown line (stretch ++ token :: later) = true) :
    line ≤ token.line ∧ ∀ other ∈ stretch, other.line ≤ token.line := by
  induction stretch generalizing line with
  | nil =>
      rw [List.nil_append, runsDown, Token.restart?_eq_none_iff.mpr noMarker,
        Bool.and_eq_true, decide_eq_true_eq] at runs
      exact ⟨runs.1, fun _ member => nomatch member⟩
  | cons first rest ih =>
      rcases List.forall_mem_cons.mp unmarked with ⟨here, later⟩
      rw [List.cons_append, runsDown, Token.restart?_eq_none_iff.mpr here,
        Bool.and_eq_true, decide_eq_true_eq] at runs
      rcases ih later runs.2 with ⟨below, others⟩
      exact ⟨Nat.le_trans runs.1 below, List.forall_mem_cons.mpr ⟨below, others⟩⟩

/-! ## Drafts -/

section Drafts

variable {draft : Draft} {settled : List Char} {ending : Ending} {token : Token}

/-- A marker sets the line of a draft and adds nothing to its text. -/
theorem Draft.add_of_restart? {line : Nat} (draft : Draft)
    (restarts : token.restart? = some line) : draft.add token = { draft with line := line } := by
  rcases token with ⟨kind, place, lexeme⟩
  cases kind <;> cases restarts <;> rfl

theorem Draft.EndsWith.add_marker (ends : draft.EndsWith settled ending)
    (marker : token.kind.isMarker = true) : (draft.add token).EndsWith settled ending := by
  cases restarts : token.restart? with
  | none => cases (Token.restart?_eq_none_iff.mp restarts).symm.trans marker
  | some line =>
      rw [draft.add_of_restart? restarts]
      exact ⟨ends.text, ends.blank, ends.string⟩

/-- Tokens add to the text, be there markers among them or not. -/
theorem Draft.EndsWith.exists_foldl_add_among_markers (ends : draft.EndsWith settled ending)
    {tokens : List Token}
    (fits : ∀ token ∈ tokens, token.kind.isMarker = false -> token.FitsLine) :
    ∃ more last, (tokens.foldl Draft.add draft).EndsWith (settled ++ more) last := by
  induction tokens generalizing draft settled ending with
  | nil =>
      refine ⟨[], ending, ?_⟩
      rw [List.append_nil]
      exact ends
  | cons token rest ih =>
      rcases List.forall_mem_cons.mp fits with ⟨fitsHere, fitsLater⟩
      cases marker : token.kind.isMarker with
      | true => exact ih (ends.add_marker marker) fitsLater
      | false =>
          rcases ends.exists_add (fitsHere marker) with ⟨here, added, _⟩
          rcases ih added fitsLater with ⟨more, last, reached⟩
          rw [List.append_assoc] at reached
          exact ⟨here ++ more, last, reached⟩

theorem Draft.EndsWith.inString_eq (ends : draft.EndsWith settled ending) :
    ending.inString = draft.inString := by
  have string := ends.string
  have blank := ends.blank
  rw [Bool.eq_iff_iff, ← string, Draft.inString, beq_iff_eq]
  cases held : ending.blank with
  | true => rw [if_pos rfl, if_pos (blank.mpr held)]
  | false =>
      have apart : ¬ draft.last = some .whitespace := by
        intro last
        cases held.symm.trans (blank.mp last)
      rw [if_neg Bool.false_ne_true, if_neg apart]

/-- Behind tokens that are nowhere below it, a token is written as many line feeds further as it
is below the line of the draft, unless it is joined to a string literal. -/
theorem Draft.EndsWith.exists_foldl_add_concat (ends : draft.EndsWith settled ending)
    {stretch : List Token} (fits : ∀ other ∈ stretch, other.FitsLine) (fitsToken : token.FitsLine)
    (noBlank : token.isBlank = false)
    (apart : ¬ ((stretch.foldl Draft.add draft).inString && token.isString) = true)
    (below : draft.line ≤ token.line) (lowest : ∀ other ∈ stretch, other.line ≤ token.line) :
    ∃ between, ((stretch ++ [token]).foldl Draft.add draft).EndsWith
        (settled ++ between ++ token.opened) ⟨token.isString, false⟩ ∧
      draft.line + between.count '\n' = token.line := by
  rcases ends.exists_foldl_add fits with ⟨spaced, arrived, moved, bounded⟩
  have within := bounded token.line below lowest
  rw [List.foldl_concat]
  generalize stretch.foldl Draft.add draft = reached at arrived moved within apart ⊢
  generalize stretch.foldl Ending.after ending = last at arrived
  rw [← arrived.inString_eq] at apart
  rw [arrived.add_eq_put apart noBlank fitsToken.unmarked]
  refine ⟨spaced ++ (last.text ++ List.replicate (token.line - reached.line) '\n'), ?_, ?_⟩
  · have put := (arrived.put noBlank fitsToken.quoted).1
    simp only [List.append_assoc] at put ⊢
    exact put
  · simp only [List.count_append, List.count_replicate_self, Ending.count_text]
    omega

end Drafts

theorem inString_foldl_add (tokens : List Token) :
    (tokens.foldl Draft.add Draft.empty).inString = endsInLiteral tokens := by
  rw [Draft.inString_foldl_add, endsInLiteral]
  cases (tokens.filter fun token => ! token.isBlank && ! token.kind.isMarker).getLast? <;> rfl

theorem line_foldl_add_of_stretchLine? {earlier : List Token} {line : Nat}
    (begins : stretchLine? earlier = some line) :
    (earlier.foldl Draft.add Draft.empty).line = line := by
  rcases exists_concat_of_stretchLine? begins with ⟨rfl, rfl⟩ | ⟨before, token, rfl, restarts⟩
  · rfl
  · rw [List.foldl_concat, Draft.add_of_restart? _ restarts]

/-! ## Texts -/

/-- Markers space the text anew.  If within each stretch no token is above the one before it, nor
above the line that the stretch counts from, then a token that is not joined to a string literal
begins as many line feeds behind the start of its stretch as it is below that line.  The text
before the stretch may lose a closing quote and a space to a literal that is joined to it, and
nothing else. -/
theorem exists_reassemble_stretch {tokens earlier stretch later : List Token} {token : Token}
    {line : Nat} (fits : ∀ other ∈ tokens, other.kind.isMarker = false -> other.FitsLine)
    (runs : runsDown 1 tokens = true) (parts : tokens = earlier ++ (stretch ++ token :: later))
    (begins : stretchLine? earlier = some line)
    (unmarked : ∀ other ∈ stretch, other.kind.isMarker = false)
    (noMarker : token.kind.isMarker = false) (noBlank : token.isBlank = false)
    (apart : ¬ (endsInLiteral (earlier ++ stretch) && token.isString) = true) :
    ∃ (start : List Char) (held : Ending) (between rest : List Char),
      (reassemble earlier).toList = start ++ held.text ∧
      (reassemble tokens).toList = start ++ between ++ (token.opened ++ rest) ∧
      line + between.count '\n' = token.line := by
  subst parts
  rcases List.forall_mem_append.mp fits with ⟨fitsEarlier, fitsOthers⟩
  rcases List.forall_mem_append.mp fitsOthers with ⟨fitsStretch, fitsRest⟩
  rcases List.forall_mem_cons.mp fitsRest with ⟨fitsToken, fitsLater⟩
  rcases le_line_of_runsDown unmarked noMarker (runsDown_of_stretchLine? runs begins) with
    ⟨below, lowest⟩
  have reached := line_foldl_add_of_stretchLine? begins
  rw [← inString_foldl_add, List.foldl_append] at apart
  rcases Draft.endsWith_empty.exists_foldl_add_among_markers fitsEarlier with ⟨start, held, begun⟩
  rcases begun.exists_foldl_add_concat
    (fun other member => fitsStretch other member (unmarked other member)) (fitsToken noMarker)
    noBlank apart (reached ▸ below) lowest with ⟨between, arrived, counted⟩
  rcases arrived.exists_foldl_add_among_markers fitsLater with ⟨rest, last, finished⟩
  refine ⟨start, held, between, rest ++ last.text, ?_, ?_, reached ▸ counted⟩
  · rw [reassemble, Draft.text, String.toList_ofList]
    exact begun.text
  · have text := finished.text
    rw [← List.foldl_append, ← List.foldl_append, List.append_assoc, List.append_assoc,
      List.singleton_append] at text
    rw [reassemble, Draft.text, String.toList_ofList, text]
    simp only [List.nil_append, List.append_assoc]

/-- What stands up to the end of an included file, which includes another one itself.  The
first literal of the file goes on with the literal in front of its directive. -/
def includingTwice : List Token :=
  [⟨.identifier, 2, "a"⟩, ⟨.stringLiteral, 2, "\"s\""⟩, ⟨.newline, 2, "\n"⟩,
    ⟨.includeBegin, 7, "b.h"⟩,
    ⟨.includeBegin, 3, "c.h"⟩, ⟨.whitespace, 9, "/*\n*/"⟩, ⟨.includeEnd, 3, ""⟩,
    ⟨.stringLiteral, 4, "\"t\""⟩, ⟨.newline, 4, "\n"⟩, ⟨.identifier, 6, "b"⟩,
    ⟨.stringLiteral, 6, "\"u\""⟩, ⟨.newline, 6, "\n"⟩, ⟨.includeEnd, 7, ""⟩]

/-- What follows in the including file.  It begins with a literal that goes on with the last one
of the included file. -/
def behindIncluded : List Token :=
  [⟨.newline, 7, "\n"⟩, ⟨.stringLiteral, 8, "\"v\""⟩, ⟨.newline, 8, "\n"⟩]

theorem exists_reassemble_stretch_includingTwice :
    ∃ (start : List Char) (held : Ending) (between rest : List Char),
      (reassemble includingTwice).toList = start ++ held.text ∧
      (reassemble (includingTwice ++ (behindIncluded ++ [⟨.identifier, 9, "z"⟩]))).toList =
        start ++ between ++ ("z".toList ++ rest) ∧
      7 + between.count '\n' = 9 ∧
      reassemble includingTwice = "\na\"st\" \n\n\nb\"u\" " ∧
      reassemble (includingTwice ++ (behindIncluded ++ [⟨.identifier, 9, "z"⟩])) =
        "\na\"st\" \n\n\nb\"uv\" \n\nz" := by
  have fits : ∀ other ∈ includingTwice ++ (behindIncluded ++ [⟨.identifier, 9, "z"⟩]),
      other.kind.isMarker = false -> other.FitsLine := by
    intro other member noMarker
    have checked : ∀ other ∈ includingTwice ++ (behindIncluded ++ [⟨.identifier, 9, "z"⟩]),
        (other.isString = true -> InQuotes '"' other.lexeme.toList) ∧
          (other.isBlank = false -> '\n' ∉ other.lexeme.toList) := by decide +kernel
    exact ⟨noMarker, (checked other member).1, (checked other member).2⟩
  rcases exists_reassemble_stretch fits (by decide +kernel) rfl rfl (by decide) rfl rfl
    (by decide +kernel) with ⟨start, held, between, rest, begun, text, counted⟩
  exact ⟨start, held, between, rest, begun, text, counted, by decide +kernel, by decide +kernel⟩

end Source
end ObjectWrapper
