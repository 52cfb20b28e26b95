import ObjectWrapper.Proofs.Source.Apart
import ObjectWrapper.Proofs.Source.Coverage

namespace ObjectWrapper
namespace Source

/-!
# Blanks and comments in front of a text

A gap consists of blanks, line ends and comments that have their end in it, and the lines of
which it consists may be joined.  What looks at tokens from the first one on that is not
blank, and does not look at lines, sees no gap in front of a text.  The gap has to end before
the text does anything to it: a line comment takes all that follows on its line, and a
backslash at the end of the gap would be a splice together with a line end.
-/

/-- The characters are blanks, line ends and comments.  Each comment ends where it first can,
so it does not depend on what follows the gap. -/
inductive IsGap : List Char -> Prop where
  | nil : IsGap []
  | blank {character : Char} {rest : List Char} (separator : isSeparator character = true)
      (more : IsGap rest) : IsGap (character :: rest)
  | lineComment {body rest : List Char} (oneLine : '\n' ∉ body) (more : IsGap rest) :
      IsGap ('/' :: '/' :: (body ++ '\n' :: rest))
  | blockComment {body rest : List Char} (first : ¬ HoldsEnd (body ++ ['*'])) (more : IsGap rest) :
      IsGap ('/' :: '*' :: (body ++ '*' :: '/' :: rest))

/-! ## Comments that are read -/

theorem commentTail_append {body : List Char} (first : ¬ HoldsEnd (body ++ ['*']))
    (rest : List Char) :
    commentTail (body ++ '*' :: '/' :: rest) = ⟨body ++ ['*', '/'], rest⟩ := by
  induction body with
  | nil => rfl
  | cons character others ih =>
      rw [List.cons_append, holdsEnd_cons_iff, not_or] at first
      have goesOn : ∀ after, character = '*' -> others ++ '*' :: '/' :: rest = '/' :: after ->
          False := by
        intro after asterisk equal
        refine first.1 ⟨asterisk, ?_⟩
        cases others with
        | nil => cases equal
        | cons next more =>
            cases equal
            rfl
      rw [List.cons_append, commentTail.eq_def]
      split
      · rename_i nothing
        cases nothing
      · rename_i after equal
        rcases List.cons.inj equal with ⟨asterisk, slash⟩
        exact (goesOn after asterisk slash).elim
      · rename_i other more _ equal
        cases equal
        rw [ih first.2]
        rfl

theorem standsBefore_lineComment {body left : List Char} (oneLine : '\n' ∉ body)
    (ends : EndsLine left) : Segment.StandsBefore ⟨.comment, '/' :: '/' :: body⟩ left := by
  have inLine : ∀ character ∈ '/' :: body, (character != '\n') = true := by
    intro character member
    rcases List.mem_cons.mp member with rfl | inBody
    · rfl
    · exact bne_iff_ne.mpr fun lineEnd => oneLine (lineEnd ▸ inBody)
  have taken : classTail (· != '\n') ('/' :: body ++ left) = ⟨'/' :: body, left⟩ :=
    classTail_append inLine fun character head => by rw [ends character head]; rfl
  refine ⟨'/', '/' :: body, rfl, ?_⟩
  change ((classTail (· != '\n') ('/' :: body ++ left)).after ['/']).reading .comment = _
  rw [taken]
  rfl

theorem standsBefore_blockComment {body : List Char} (first : ¬ HoldsEnd (body ++ ['*']))
    (rest : List Char) :
    Segment.StandsBefore ⟨.comment, '/' :: '*' :: (body ++ ['*', '/'])⟩ rest := by
  refine ⟨'/', '*' :: (body ++ ['*', '/']), rfl, ?_⟩
  have taken := commentTail_append first rest
  rw [List.cons_append, List.append_assoc]
  change ((commentTail (body ++ '*' :: '/' :: rest)).after ['/', '*']).reading .comment = _
  rw [taken]
  rfl

/-! ## Joined lines -/

/-- A text is located behind another one as it is alone, only further down, if no splice reaches
over the place where they meet. -/
theorem exists_locate_append (before : List Char) {after : List Char}
    (apart : ∀ character ∈ after.head?, character ≠ '\n' ∧ character ≠ '\r') (line : Nat) :
    ∃ later, locate line (before ++ after) = locate line before ++ locate later after := by
  fun_induction locate line before with
  | case1 line => exact ⟨line, rfl⟩
  | case2 line rest ih => exact ih
  | case3 line rest ih => exact ih
  | case4 line character rest noSplice noLongSplice ih =>
      rcases ih with ⟨later, located⟩
      refine ⟨later, ?_⟩
      rw [List.cons_append, List.cons_append, ← located, locate]
      · rintro more rfl equal
        cases rest with
        | nil =>
            rw [List.nil_append] at equal
            rw [equal] at apart
            exact (apart '\n' rfl).1 rfl
        | cons next others =>
            cases equal
            exact noSplice others rfl rfl
      · rintro more rfl equal
        rcases rest with _ | ⟨next, _ | ⟨second, others⟩⟩
        · rw [List.nil_append] at equal
          rw [equal] at apart
          exact (apart '\r' rfl).2 rfl
        · rw [List.singleton_append, List.cons.injEq] at equal
          rw [equal.2] at apart
          exact (apart '\n' rfl).1 rfl
        · cases equal
          exact noLongSplice others rfl rfl

theorem map_character_locate (line other : Nat) (text : List Char) :
    (locate line text).map Located.character = (locate other text).map Located.character := by
  fun_induction locate line text generalizing other with
  | case1 line => rfl
  | case2 line rest ih => exact ih (other + 1)
  | case3 line rest ih => exact ih (other + 1)
  | case4 line character rest noSplice noLongSplice ih =>
      rw [locate.eq_4 other character rest noSplice noLongSplice, List.map_cons, List.map_cons,
        ih (if character = '\n' then other + 1 else other)]

/-! ## Views that do not see gaps -/

/-- What is seen of tokens is seen of those from the first one on that is not blank, whatever
lines they are on. -/
structure OverlooksGaps {α : Type} (view : List Token -> α) : Prop where
  skips : ∀ token rest, token.isBlank = true -> view (token :: rest) = view rest
  placeless : ∀ tokens others, tokens.map Token.spelling = others.map Token.spelling ->
    view tokens = view others

namespace OverlooksGaps

variable {α : Type} {view : List Token -> α} (overlooks : OverlooksGaps view)
include overlooks

theorem view_tokensFrom_line (line other : Nat) (text : List Char) :
    view (tokensFrom line text) = view (tokensFrom other text) := by
  apply overlooks.placeless
  rw [tokensFrom, tokensFrom, map_spelling_tokensOnLines, map_spelling_tokensOnLines]

/-- One blank at the beginning may be part of a longer one. -/
theorem view_tokensFrom_blank {character : Char} (blank : isBlankChar character = true)
    (line : Nat) (text : List Char) :
    view (tokensFrom line (character :: text)) = view (tokensFrom line text) := by
  rw [← view_tokensFrom_dropWhile_blank overlooks.skips line text,
    ← view_tokensFrom_dropWhile_blank overlooks.skips line (character :: text),
    List.dropWhile_cons, if_pos blank]

theorem view_tokensFrom_newline (line : Nat) (text : List Char) :
    view (tokensFrom line ('\n' :: text)) = view (tokensFrom line text) :=
  (Source.view_tokensFrom_newline overlooks.skips line text).trans
    (overlooks.view_tokensFrom_line _ _ text)

theorem view_tokensFrom_segment {segment : Segment} {left : List Char}
    (stands : segment.StandsBefore left) (blank : segment.kind.isBlank = true) (line : Nat) :
    view (tokensFrom line (segment.text ++ left)) = view (tokensFrom line left) := by
  rw [tokensFrom_append stands, overlooks.skips (segment.token line) _ blank]
  exact overlooks.view_tokensFrom_line _ _ left

theorem view_tokensFrom_gap {gap : List Char} (isGap : IsGap gap) (line : Nat)
    (text : List Char) :
    view (tokensFrom line (gap ++ text)) = view (tokensFrom line text) := by
  induction isGap with
  | nil => rfl
  | @blank character rest separator more ih =>
      rw [List.cons_append, ← ih]
      by_cases lineEnd : character = '\n'
      · rw [lineEnd]
        exact overlooks.view_tokensFrom_newline line _
      · have blank : isBlankChar character = true := by
          simpa [isSeparator, lineEnd] using separator
        exact overlooks.view_tokensFrom_blank blank line _
  | @lineComment body rest oneLine more ih =>
      have comment := overlooks.view_tokensFrom_segment
        (standsBefore_lineComment oneLine (endsLine_cons (rest ++ text))) rfl line
      have lineEnd := overlooks.view_tokensFrom_newline line (rest ++ text)
      rw [← ih, ← lineEnd, ← comment]
      simp
  | @blockComment body rest first more ih =>
      have comment := overlooks.view_tokensFrom_segment
        (standsBefore_blockComment first (rest ++ text)) rfl line
      rw [← ih, ← comment]
      simp

theorem view_tokenize (text : String) :
    view (tokenize text) =
      view (tokensFrom 1 ((locate 1 text.toList).map Located.character)) := by
  apply overlooks.placeless
  rw [map_spelling_tokenize, tokensFrom, map_spelling_tokensOnLines]
  rfl

/-- A gap in front of a text is not seen. -/
theorem view_tokenize_gap {gap text : String}
    (isGap : IsGap ((physical 1 gap.toList).map Located.character))
    (apart : ∀ character ∈ text.toList.head?, character ≠ '\n' ∧ character ≠ '\r') :
    view (tokenize (gap ++ text)) = view (tokenize text) := by
  rcases exists_locate_append gap.toList apart 1 with ⟨later, located⟩
  rw [← locate_eq_physical] at isGap
  rw [overlooks.view_tokenize, overlooks.view_tokenize text, String.toList_append, located,
    List.map_append, map_character_locate later 1]
  exact overlooks.view_tokensFrom_gap isGap 1 _

end OverlooksGaps

end Source
end ObjectWrapper
