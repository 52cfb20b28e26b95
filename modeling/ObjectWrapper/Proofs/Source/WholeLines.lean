import ObjectWrapper.Proofs.Source.Gaps

namespace ObjectWrapper
namespace Source

/-!
# Whole lines

The text in front of a line end and the text behind it are read apart, unless a comment
reaches over the line end.  Whether one does can be told from the text in front: it is read
as tokens of which the last is a line end, and no longer text that begins with it can change
that.
-/

/-! ## Blank segments -/

section Blank

variable {segment : Segment} {left more : List Char}

/-- A line end is read before any text. -/
theorem Segment.StandsBefore.of_newline (stands : segment.StandsBefore left)
    (newline : segment.kind = .newline) (more : List Char) : segment.StandsBefore more := by
  cases stands.isBlankBefore (newline ▸ rfl) with
  | lineFeed => exact ⟨'\n', [], rfl, rfl⟩
  | returnLineFeed => exact ⟨'\r', ['\n'], rfl, rfl⟩
  | blanks | comment => cases newline

/-- Unless it is a comment that nothing ends, a blank segment stands before every text that goes
on with the same character. -/
theorem Segment.StandsBefore.of_head? (stands : segment.StandsBefore left)
    (blank : segment.kind.isBlank = true) (nonempty : left ≠ [])
    (same : more.head? = left.head?) : segment.StandsBefore more := by
  cases stands.isBlankBefore blank with
  | lineFeed => exact ⟨'\n', [], rfl, rfl⟩
  | returnLineFeed => exact ⟨'\r', ['\n'], rfl, rfl⟩
  | @blanks first others inside ends noLineEnd =>
      rcases List.forall_mem_cons.mp inside with ⟨firstBlank, othersBlank⟩
      have run : classTail isBlankChar (others ++ more) = ⟨others, more⟩ :=
        classTail_append othersBlank (same ▸ ends)
      rw [classTail, Cut.mk.injEq] at run
      have stillNoLineEnd : ¬ (first = '\r' ∧ (others ++ more).head? = some '\n') := by
        rwa [List.head?_append, same, ← List.head?_append]
      refine ⟨first, others, rfl, ?_⟩
      rw [readSegment_blank firstBlank stillNoLineEnd, run.1, run.2]
  | comment isComment =>
      cases isComment with
      | line body oneLine ends =>
          refine standsBefore_lineComment oneLine ?_
          rwa [EndsLine, same]
      | block body ends => exact standsBefore_blockComment ends more
      | openBlock body _ atEnd => exact absurd atEnd nonempty

end Blank

/-! ## Tokens of whole lines -/

/-- Whatever stands before a text that ends with a line feed stands before all that the text
begins. -/
theorem Segment.StandsBefore.append_lineFeed {segment : Segment} {line : List Char}
    (stands : segment.StandsBefore (line ++ ['\n'])) (rest : List Char) :
    segment.StandsBefore (line ++ ['\n'] ++ rest) := by
  rw [List.append_assoc, List.singleton_append]
  have same : (line ++ '\n' :: rest).head? = (line ++ ['\n']).head? := by
    cases line <;> rfl
  cases blank : segment.kind.isBlank with
  | true => exact stands.of_head? blank (by simp) same
  | false =>
      by_cases closed : ∀ quote ∈ segment.kind.quote?, InQuotes quote segment.text
      · have alike : AlikeUpTo (fun character => isSeparator character = true) (line ++ ['\n'])
            (line ++ '\n' :: rest) :=
          (AlikeUpTo.apart ['\n'] (by simp [isSeparator])).append line
        exact stands.alike (fun _ separator => separator) blank closed alike
      · push Not at closed
        rcases closed with ⟨quote, literal, isOpen⟩
        have ends := stands.endsLine literal isOpen
        refine stands.of_endsLine literal fun character head => ends character ?_
        rwa [← same]

/-- Lines of which the last one is ended are read apart from what follows them. -/
theorem tokensFrom_append_of_isNewline {text : List Char}
    (feeds : ∀ character ∈ text.getLast?, character = '\n') (line : Nat)
    (ends : ∀ last ∈ (tokensFrom line text).getLast?, last.isNewline = true) (rest : List Char) :
    tokensFrom line (text ++ rest) =
      tokensFrom line text ++ tokensFrom (line + text.count '\n') rest := by
  induction text using segment_induction generalizing line with
  | nil =>
      rw [tokensFrom_nil]
      rfl
  | append segment left stands ih =>
      rw [tokensFrom_append stands] at ends ⊢
      rcases List.eq_nil_or_concat left with rfl | ⟨before, last, rfl⟩
      · rw [tokensFrom_nil] at ends ⊢
        have newline : segment.kind = .newline := by
          simpa [Token.isNewline, Segment.token] using ends
        rw [List.append_nil, tokensFrom_append (stands.of_newline newline rest)]
        rfl
      · rw [List.concat_eq_append] at stands feeds ends ih ⊢
        obtain rfl : last = '\n' := feeds last (by simp)
        have stays := ih (by simp) (line + segment.text.count '\n') fun last member =>
          ends last (by rw [List.getLast?_cons, Option.mem_def.mp member]; rfl)
        rw [List.append_assoc, tokensFrom_append (stands.append_lineFeed rest), stays,
          @List.count_append _ _ _ segment.text, ← Nat.add_assoc, List.cons_append]

/-- Of a text that is one line, no token but the last one is a line end. -/
theorem isNewline_of_mem_dropLast {text : List Char} (feeds : text.getLast? = some '\n')
    (single : text.count '\n' = 1) (line : Nat) :
    ∀ token ∈ (tokensFrom line text).dropLast, token.isNewline = false := by
  induction text using segment_induction generalizing line with
  | nil => cases feeds
  | append segment left stands ih =>
      rw [tokensFrom_append stands]
      cases shape : left with
      | nil =>
          rw [tokensFrom_nil]
          exact List.forall_mem_nil _
      | cons character rest =>
          have feedsLeft : left.getLast? = some '\n' := by
            rw [shape] at feeds ⊢
            rwa [List.getLast?_append_of_ne_nil _ (List.cons_ne_nil _ _)] at feeds
          have inLeft : 0 < left.count '\n' :=
            List.count_pos_iff.mpr (List.mem_of_getLast? feedsLeft)
          rw [List.count_append] at single
          have inLine : '\n' ∉ segment.text := List.count_eq_zero.mp (by omega)
          have noNewline : (segment.token line).isNewline = false := by
            refine beq_eq_false_iff_ne.mpr fun newline => inLine ?_
            change segment.kind = .newline at newline
            cases stands.isBlankBefore (newline ▸ rfl) with
            | lineFeed | returnLineFeed => simp
            | blanks | comment => cases newline
          rw [← shape]
          have goesOn : tokensFrom (line + segment.text.count '\n') left ≠ [] :=
            tokensFrom_ne_nil (shape ▸ List.cons_ne_nil _ _) _
          rw [List.dropLast_cons_of_ne_nil goesOn]
          exact List.forall_mem_cons.mpr ⟨noNewline, ih feedsLeft (by omega) _⟩

/-! ## Lines that are not joined -/

/-- What has no backslash in it joins no lines. -/
theorem Unspliced.append_of_backslash_notMem {before rest : List Char} (plain : '\\' ∉ before)
    (unspliced : Unspliced rest) : Unspliced (before ++ rest) := by
  induction before with
  | nil => exact unspliced
  | cons character others ih =>
      rw [List.mem_cons, not_or] at plain
      exact (ih plain.2).cons (Ne.symm plain.1)

/-- Whether lines are joined is decided in front of each line end. -/
theorem Unspliced.append_lineFeed {before rest : List Char}
    (unspliced : Unspliced (before ++ ['\n'])) (others : Unspliced rest) :
    Unspliced (before ++ ['\n'] ++ rest) := by
  have apart : ∀ word : List Char, '\n' ∉ word -> word ++ ['\n'] <:+: before ++ ['\n'] ++ rest ->
      word ++ ['\n'] <:+: before ++ ['\n'] ∨ word ++ ['\n'] <:+: rest := by
    intro word oneLine found
    rcases List.infix_append_iff.mp found with
      inFirst | inRest | ⟨begins, after, same, ends, starts⟩
    · exact .inl inFirst
    · exact .inr inRest
    · rcases List.eq_nil_or_concat after with rfl | ⟨inner, last, rfl⟩
      · rw [List.append_nil] at same
        exact .inl (same ▸ ends.isInfix)
      · rw [List.concat_eq_append] at same starts
        have ended := List.append_inj' (same.trans (List.append_assoc ..).symm) rfl
        -- a part of the word would have to end with the line feed
        rcases List.eq_nil_or_concat begins with rfl | ⟨front, feed, rfl⟩
        · rw [List.nil_append] at same
          exact .inr (same ▸ starts.isInfix)
        · rw [List.concat_eq_append] at ends ended
          rcases ends with ⟨others, whole⟩
          have feeds := List.append_inj' ((List.append_assoc ..).trans whole) rfl
          exact absurd (by simp [ended.1, List.singleton_inj.mp feeds.2]) oneLine
  constructor
  · exact fun found => (apart ['\\'] (by decide) found).elim unspliced.1 others.1
  · exact fun found => (apart ['\\', '\r'] (by decide) found).elim unspliced.2 others.2

end Source
end ObjectWrapper
