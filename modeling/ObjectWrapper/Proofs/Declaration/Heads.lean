import ObjectWrapper.Proofs.Declaration.Tree

namespace ObjectWrapper
namespace Declaration

open Source

/-!
# Heads in front of their bodies

The lookahead for a head is compared with the head of a namespace or class that stands
in a tree.  The names come out as the tree has them, and the tokens left are those of
the body, whatever they are.

A base clause is read without its grammar, by counting angle brackets.  It leads to the
body exactly if its own tokens close the brackets that they open, and hold neither a
semicolon nor a brace outside brackets.
-/

/-! ## Names -/

/-- No part of a name ends a head. -/
theorem NamePart.endsNoHead (part : NamePart) :
    part.token.isOpeningBrace = false ∧ part.token.isPunctuator ":" = false := by
  cases part with
  | identifier line name => exact ⟨rfl, rfl⟩
  | separator line => exact ⟨rfl, rfl⟩

theorem namespaceHead?_parts (parts : List NamePart) (opening : Nat) (rest : List Token) :
    namespaceHead? (parts.map NamePart.token ++ openingBrace opening :: rest) =
      some ⟨identifiers parts, rest⟩ := by
  induction parts with
  | nil => rfl
  | cons part parts inductionHypothesis =>
      rw [List.map_cons, List.cons_append, namespaceHead?, inductionHypothesis, part.endsNoHead.1]
      cases part with
      | identifier line name => rfl
      | separator line => rfl

theorem classNames?_parts {stop : Token}
    (stops : (stop.isOpeningBrace || stop.isPunctuator ":") = true) (parts : List NamePart)
    (rest : List Token) :
    classNames? (parts.map NamePart.token ++ stop :: rest) =
      some ⟨identifiers parts, stop :: rest⟩ := by
  induction parts with
  | nil =>
      rw [List.map_nil, List.nil_append, classNames?, if_pos stops]
      rfl
  | cons part parts inductionHypothesis =>
      rw [List.map_cons, List.cons_append, classNames?, inductionHypothesis, part.endsNoHead.1,
        part.endsNoHead.2]
      cases part with
      | identifier line name => rfl
      | separator line => rfl

theorem nameAmong?_identifiers (heading : Heading) :
    nameAmong? (identifiers heading.parts) = some heading.name := by
  have last := List.getLast?_eq_some_getLast heading.named
  unfold nameAmong?
  split
  · exact last
  · rename_i few
    -- A single identifier is the name, so it is not `final`.
    have unchanged :
        (identifiers heading.parts).filter (· != "final") = identifiers heading.parts := by
      have kept := heading.named
      match identifiers heading.parts, few, kept with
      | [], _, _ => rfl
      | [only], _, kept => simpa [List.filter_cons] using kept
      | first :: second :: others, few, _ => simp at few
    rw [← unchanged]
    exact last

/-! ## Base clauses -/

/-- Tokens that close their angle brackets lead to the next brace. -/
theorem exists_bases?_of_closesAngles {depth : Nat} {tokens : List Token}
    (closes : closesAngles depth tokens = true) (begun : String) (opening : Nat)
    (rest : List Token) :
    ∃ names, bases? depth begun (tokens ++ openingBrace opening :: rest) = some ⟨names, rest⟩ := by
  induction tokens generalizing depth begun with
  | nil =>
      have atOuter : depth = 0 := by simpa [closesAngles] using closes
      subst atOuter
      exact ⟨_, rfl⟩
  | cons token tokens inductionHypothesis =>
      rw [closesAngles, Bool.and_eq_true, Bool.and_eq_true, Bool.not_eq_true', bne_iff_ne] at closes
      rcases closes with ⟨⟨noSemicolon, noBrace⟩, closes⟩
      rw [List.cons_append, bases?, noBrace, if_neg Bool.false_ne_true,
        if_neg (by simpa using noSemicolon)]
      simp only
      split
      · rcases inductionHypothesis closes "" with ⟨names, found⟩
        exact ⟨begun :: names, by rw [found]; rfl⟩
      split
      · exact inductionHypothesis closes begun
      · exact inductionHypothesis closes (begun ++ token.lexeme)

/-- A base clause that goes on with a token goes on behind it. -/
theorem exists_bases?_of_cons {depth : Nat} {begun : String} {token : Token} {rest : List Token}
    {bases : Bases} (goesOn : (depth == 0 && token.isOpeningBrace) = false)
    (found : bases? depth begun (token :: rest) = some bases) :
    token.lexeme ≠ ";" ∧ ∃ later names,
      bases? (angleDepth depth token) later rest = some ⟨names, bases.after⟩ := by
  rw [bases?, goesOn, if_neg Bool.false_ne_true] at found
  split at found
  · cases found
  rename_i noSemicolon
  refine ⟨by simpa using noSemicolon, ?_⟩
  simp only at found
  split at found
  · rcases Option.map_eq_some_iff.mp found with ⟨inner, innerFound, rfl⟩
    exact ⟨_, inner.names, innerFound⟩
  split at found
  · exact ⟨_, bases.names, found⟩
  · exact ⟨_, bases.names, found⟩

/-- Only tokens that close their angle brackets lead to the next brace. -/
theorem closesAngles_of_bases? {depth : Nat} {tokens : List Token} {begun : String} {opening : Nat}
    {names : List String} {rest : List Token}
    (found : bases? depth begun (tokens ++ openingBrace opening :: rest) = some ⟨names, rest⟩) :
    closesAngles depth tokens = true := by
  induction tokens generalizing depth begun names with
  | nil =>
      cases stops : (depth == 0 && (openingBrace opening).isOpeningBrace) with
      | true => exact (Bool.and_eq_true_iff.mp stops).1
      | false =>
          rcases exists_bases?_of_cons stops found with ⟨_, later, others, beyond⟩
          exact absurd (bases?_after_length beyond) (Nat.lt_irrefl _)
  | cons token tokens inductionHypothesis =>
      cases stops : (depth == 0 && token.isOpeningBrace) with
      | true =>
          rw [List.cons_append, bases?, stops, if_pos rfl] at found
          have same : tokens ++ openingBrace opening :: rest = rest :=
            congrArg Bases.after (Option.some.inj found)
          have lengths := congrArg List.length same
          rw [List.length_append, List.length_cons] at lengths
          omega
      | false =>
          rcases exists_bases?_of_cons stops found with ⟨noSemicolon, later, others, beyond⟩
          rw [closesAngles, stops, inductionHypothesis beyond]
          simpa using noSemicolon

/-! ## Heads of classes -/

/-- The head of a class is read up to its brace exactly if its base clause closes its
angle brackets. -/
theorem exists_classHead?_iff (heading : Heading) (rest : List Token) :
    (∃ bases, classHead? (heading.laterTokens ++ rest) = some ⟨heading.name, bases, rest⟩) ↔
      heading.closesBases = true := by
  cases clause : heading.bases? with
  | none =>
      have isBrace : (openingBrace heading.opening).isOpeningBrace = true := rfl
      have noColon : (openingBrace heading.opening).isPunctuator ":" = false := rfl
      have names := classNames?_parts (Bool.or_eq_true_iff.mpr (.inl isBrace)) heading.parts rest
      simp [Heading.laterTokens, Heading.closesBases, clause, classHead?, names,
        nameAmong?_identifiers, noColon]
  | some written =>
      have isColon : (⟨.punctuator, written.colon, ":"⟩ : Token).isPunctuator ":" = true := rfl
      have names := classNames?_parts (Bool.or_eq_true_iff.mpr (.inr isColon)) heading.parts
        (written.tokens ++ openingBrace heading.opening :: rest)
      have sameHead : classHead? (heading.laterTokens ++ rest) =
          (bases? 0 "" (written.tokens ++ openingBrace heading.opening :: rest)).map
            fun bases => ⟨heading.name, bases.names, bases.after⟩ := by
        have shape : heading.laterTokens ++ rest = heading.parts.map NamePart.token ++
            ⟨.punctuator, written.colon, ":"⟩ ::
              (written.tokens ++ openingBrace heading.opening :: rest) := by
          simp [Heading.laterTokens, clause]
        rw [shape, classHead?, names, Option.map_eq_bind]
        simp only [bind, Option.bind_some, nameAmong?_identifiers, isColon, if_true]
        rfl
      have sameClosing : heading.closesBases = closesAngles 0 written.tokens := by
        rw [Heading.closesBases, clause, Option.all_some]
      rw [sameHead, sameClosing]
      constructor
      · rintro ⟨bases, found⟩
        rcases Option.map_eq_some_iff.mp found with ⟨read, basesFound, same⟩
        cases same
        exact closesAngles_of_bases? basesFound
      · intro closes
        rcases exists_bases?_of_closesAngles closes "" heading.opening rest with ⟨bases, basesFound⟩
        exact ⟨bases, by rw [basesFound]; rfl⟩

end Declaration
end ObjectWrapper
