import ObjectWrapper.Proofs.Source.Layout

namespace ObjectWrapper
namespace Source

/-!
# Line feeds in the text of tokens

A draft counts lines by the tokens it is given and not by the characters it writes.
The two counts agree as long as no text of a token holds a line feed of its own: then
line feeds are written in one place only, before a token that stands further down than
the draft has got.  So a token begins on the line of the text that it says, unless one
before it stands further down, or it is joined to the string literal before it.

Later tokens change nothing about that: of what a draft holds they take back at most a
closing quote and a space.
-/

/-- Unless it is blank, the token has no line feed. -/
def Token.IsOnOneLine (token : Token) : Prop :=
  token.isBlank = false -> '\n' ∉ token.lexeme.toList

/-- The text of the token is written as it is, and on one line. -/
structure Token.FitsLine (token : Token) : Prop where
  unmarked : token.kind.isMarker = false
  quoted : token.isString = true -> InQuotes '"' token.lexeme.toList
  oneLine : token.IsOnOneLine

/-- The ending of a text after one more token. -/
def Ending.after (ending : Ending) (token : Token) : Ending :=
  if token.isBlank then ⟨ending.inString, true⟩ else ⟨token.isString, false⟩

/-- Whether the last token that is not blank is a string literal. -/
def endsInString (tokens : List Token) : Bool :=
  (significant tokens).getLast?.any Token.isString

/-! ## One token -/

/-- Without its closing quote, a token begins as before. -/
theorem Token.head?_opened {token : Token}
    (quoted : token.isString = true -> InQuotes '"' token.lexeme.toList)
    (nonempty : token.lexeme.toList ≠ []) :
    token.opened ≠ [] ∧ token.opened.head? = token.lexeme.toList.head? := by
  have opens : token.opened ≠ [] := by
    rw [Token.opened]
    split
    · simp
    · exact nonempty
  refine ⟨opens, ?_⟩
  rw [Token.lexeme_eq_opened quoted, List.head?_append_of_ne_nil _ opens]

theorem Ending.count_text (ending : Ending) : ending.text.count '\n' = 0 := by
  rcases ending with ⟨inString, held⟩
  cases inString <;> cases held <;> rfl

section Step

variable {draft : Draft} {settled : List Char} {ending : Ending} {token : Token}

theorem Token.FitsLine.count_opened (fits : token.FitsLine) (noBlank : token.isBlank = false) :
    token.opened.count '\n' = 0 := by
  have noLineFeed := fits.oneLine noBlank
  rw [Token.lexeme_eq_opened fits.quoted] at noLineFeed
  exact List.count_eq_zero.mpr fun member => noLineFeed (List.mem_append_left _ member)

/-- A token that is put on its line begins after as many line feeds as the draft moves
down. -/
theorem Draft.EndsWith.put_line (ends : draft.EndsWith settled ending) (fits : token.FitsLine)
    (noBlank : token.isBlank = false) :
    (draft.put token).line = draft.line +
      (ending.text ++ List.replicate (token.line - draft.line) '\n' ++ token.opened).count '\n' := by
  rw [(ends.put noBlank fits.quoted).2]
  simp only [List.count_append, List.count_replicate_self, Ending.count_text,
    fits.count_opened noBlank]
  omega

theorem Token.FitsLine.count_continuation (fits : token.FitsLine)
    (noBlank : token.isBlank = false) :
    ((token.lexeme.toList.drop 1).dropLast).count '\n' = 0 := by
  have within : (token.lexeme.toList.drop 1).dropLast ⊆ token.lexeme.toList :=
    ((List.dropLast_sublist _).trans (List.drop_sublist _ _)).subset
  exact List.count_eq_zero.mpr fun member => fits.oneLine noBlank (within member)

/-- One more token adds to the text, and moves the draft down by the line feeds it adds, but
no further than to its line. -/
theorem Draft.EndsWith.exists_add (ends : draft.EndsWith settled ending) (fits : token.FitsLine) :
    ∃ more, (draft.add token).EndsWith (settled ++ more) (ending.after token) ∧
      (draft.add token).line = draft.line + more.count '\n' ∧
      (draft.add token).line ≤ max draft.line token.line := by
  rw [Ending.after]
  cases blank : token.isBlank with
  | true =>
      have added := ends.add_blank blank
      refine ⟨[], ?_, added.2, ?_⟩
      · rw [List.append_nil]
        exact added.1
      · rw [added.2]
        exact Nat.le_max_left _ _
  | false =>
      rw [if_neg Bool.false_ne_true]
      by_cases joins : (ending.inString && token.isString) = true
      · rw [Bool.and_eq_true] at joins
        have joined := ends.join joins.1 (fits.quoted joins.2)
        rw [ends.add_eq_join joins.1 joins.2, joins.2]
        refine ⟨_, joined, ?_, Nat.le_max_left _ _⟩
        rw [fits.count_continuation blank]
        rfl
      · have put := ends.put blank fits.quoted
        rw [ends.add_eq_put joins blank fits.unmarked]
        exact ⟨_, put.1, ends.put_line fits blank, Nat.le_of_eq put.2⟩

/-! ## Lists of tokens -/

/-- Tokens add to the text, and move the draft down by the line feeds they add, but no
further than to their lines. -/
theorem Draft.EndsWith.exists_foldl_add (ends : draft.EndsWith settled ending)
    {tokens : List Token} (fits : ∀ token ∈ tokens, token.FitsLine) :
    ∃ more, (tokens.foldl Draft.add draft).EndsWith (settled ++ more)
        (tokens.foldl Ending.after ending) ∧
      (tokens.foldl Draft.add draft).line = draft.line + more.count '\n' ∧
      ∀ bound, draft.line ≤ bound -> (∀ token ∈ tokens, token.line ≤ bound) ->
        (tokens.foldl Draft.add draft).line ≤ bound := by
  induction tokens generalizing draft settled ending with
  | nil =>
      refine ⟨[], ?_, rfl, fun _ reached _ => reached⟩
      rw [List.append_nil]
      exact ends
  | cons token rest ih =>
      rcases List.forall_mem_cons.mp fits with ⟨fitsHere, fitsLater⟩
      rcases ends.exists_add fitsHere with ⟨here, added, moved, line⟩
      rcases ih added fitsLater with ⟨more, reached, movedOn, bounded⟩
      refine ⟨here ++ more, ?_, ?_, ?_⟩
      · rw [← List.append_assoc]
        exact reached
      · rw [List.foldl_cons, movedOn, moved, List.count_append, Nat.add_assoc]
      · intro bound before lines
        rcases List.forall_mem_cons.mp lines with ⟨lineHere, linesLater⟩
        exact bounded bound (Nat.le_trans line (Nat.max_le.mpr ⟨before, lineHere⟩)) linesLater

end Step

theorem inString_foldl_after (tokens : List Token) (ending : Ending) :
    (tokens.foldl Ending.after ending).inString =
      ((significant tokens).getLast?.map Token.isString).getD ending.inString := by
  induction tokens generalizing ending with
  | nil => rfl
  | cons token rest ih =>
      rw [List.foldl_cons, ih, Ending.after]
      cases blank : token.isBlank with
      | true =>
          rw [significant_cons_of_isBlank blank]
          rfl
      | false =>
          rw [significant_cons_of_not_isBlank blank, List.getLast?_cons]
          cases (significant rest).getLast? <;> rfl

/-- Unless it is joined to a string literal before it, a token that no earlier one
passes begins on its line of the text, behind the text of the earlier ones and nothing
but line feeds. -/
theorem exists_reassemble_append_cons {before later : List Token} {token : Token}
    (fits : ∀ other ∈ before ++ token :: later, other.FitsLine)
    (noBlank : token.isBlank = false)
    (apart : ¬ (endsInString before && token.isString) = true)
    (behind : ∀ other ∈ before, other.line ≤ token.line) (positive : 1 ≤ token.line) :
    ∃ lineFeeds rest,
      (reassemble (before ++ token :: later)).toList =
        (reassemble before).toList ++ List.replicate lineFeeds '\n' ++ (token.opened ++ rest) ∧
      (reassemble before).toList.count '\n' + lineFeeds + 1 = token.line := by
  have fitsBefore : ∀ other ∈ before, other.FitsLine :=
    fun other member => fits other (List.mem_append_left _ member)
  have fitsToken : token.FitsLine := fits token (by simp)
  have fitsLater : ∀ other ∈ later, other.FitsLine :=
    fun other member => fits other (by simp [member])
  rcases Draft.endsWith_empty.exists_foldl_add fitsBefore with ⟨settled, begun, moved, bounded⟩
  rw [List.nil_append] at begun
  have reached := bounded token.line positive behind
  have ends := inString_foldl_after before ⟨false, false⟩
  have same : endsInString before = (before.foldl Ending.after ⟨false, false⟩).inString := by
    rw [ends, endsInString]
    cases (significant before).getLast? <;> rfl
  rw [same] at apart
  generalize before.foldl Ending.after ⟨false, false⟩ = ending at begun apart
  have put := begun.put noBlank fitsToken.quoted
  rcases put.1.exists_foldl_add fitsLater with ⟨more, finished, _⟩
  have textBefore : (reassemble before).toList = settled ++ ending.text := by
    rw [reassemble, Draft.text, String.toList_ofList]
    exact begun.text
  refine ⟨token.line - (before.foldl Draft.add Draft.empty).line,
    more ++ (later.foldl Ending.after ⟨token.isString, false⟩).text, ?_, ?_⟩
  · rw [textBefore, reassemble, Draft.text, String.toList_ofList, List.foldl_append,
      List.foldl_cons, begun.add_eq_put apart noBlank fitsToken.unmarked, finished.text]
    simp only [List.append_assoc]
  · have first : Draft.empty.line = 1 := rfl
    rw [textBefore, List.count_append, Ending.count_text]
    omega

end Source
end ObjectWrapper
