import ObjectWrapper.Proofs.Declaration.Heads

namespace ObjectWrapper
namespace Declaration

open Source

/-!
# Base clauses

A base is written as words for access and virtual inheritance and a type, and the type as
names, separators and template arguments between angle brackets.  What brackets are is
said here by a grammar in which every bracket is a token of its own; two that close
together may also be written as one token.

The scanner follows brackets with a counter.  In front of anything that may follow, and
whatever it has gathered before, it takes the tokens of a type to the text of one base and
comes back to the depth at which it began.  So it divides a list of bases at the commas
between them, and finds the brace that follows the list.
-/

/-! ## Types of bases -/

def angleBrackets : List String :=
  ["<", ">", ">>"]

/-- Neither an angle bracket nor a semicolon. -/
def isPlain (token : Token) : Bool :=
  !angleBrackets.contains token.lexeme && token.lexeme != ";"

/-- Plain tokens with angle brackets around some of them, each of which is closed. -/
inductive Balanced : List Token -> Prop where
  | nil : Balanced []
  | plain {token : Token} {rest : List Token} (isPlain : isPlain token = true)
      (balanced : Balanced rest) : Balanced (token :: rest)
  | brackets {opening closing : Token} {inside rest : List Token} (opens : opening.lexeme = "<")
      (balancedInside : Balanced inside) (closes : closing.lexeme = ">")
      (balanced : Balanced rest) : Balanced (opening :: (inside ++ closing :: rest))

/-- Whether the token is a word for access or virtual inheritance. -/
def isSpecifier (token : Token) : Bool :=
  token.isIdentifier && baseSpecifiers.contains token.lexeme

/-- Names, separators and template arguments. -/
inductive IsBaseType : List Token -> Prop where
  | nil : IsBaseType []
  | name {token : Token} {rest : List Token} (isIdentifier : token.isIdentifier = true)
      (isPlain : isPlain token = true) (noSpecifier : isSpecifier token = false)
      (isType : IsBaseType rest) : IsBaseType (token :: rest)
  | separator {token : Token} {rest : List Token} (separates : token.isPunctuator "::" = true)
      (isType : IsBaseType rest) : IsBaseType (token :: rest)
  | arguments {opening closing : Token} {inside rest : List Token} (opens : opening.lexeme = "<")
      (balancedInside : Balanced inside) (closes : closing.lexeme = ">")
      (isType : IsBaseType rest) : IsBaseType (opening :: (inside ++ closing :: rest))

/-- The tokens with the two brackets that `>>` closes written apart. -/
def bracketsApart (tokens : List Token) : List Token :=
  tokens.flatMap fun token =>
    if token.lexeme = ">>" then [⟨token.kind, token.line, ">"⟩, ⟨token.kind, token.line, ">"⟩]
    else [token]

/-- A base as it is written in a class head. -/
structure WrittenBase where
  specifiers : List Token
  type : List Token
  areSpecifiers : specifiers.all isSpecifier = true
  isType : IsBaseType (bracketsApart type)
  notEmpty : joinLexemes type ≠ ""

namespace WrittenBase

def tokens (base : WrittenBase) : List Token :=
  base.specifiers ++ base.type

/-- The texts of the type, one after the other. -/
def text (base : WrittenBase) : String :=
  joinLexemes base.type

/-- A base and the ones after it, with the line of the comma before each of those. -/
def listed (base : WrittenBase) : List (Nat × WrittenBase) -> List Token
  | [] => base.tokens
  | (line, next) :: others => base.tokens ++ ⟨.punctuator, line, ","⟩ :: next.listed others

end WrittenBase

/-! ## Tokens that go to the text of a base -/

/-- Inside `depth` angle brackets, the token neither ends a base nor is left out of it. -/
structure ExtendsBase (depth : Nat) (token : Token) : Prop where
  noBrace : (depth == 0 && token.isOpeningBrace) = false
  noSemicolon : token.lexeme ≠ ";"
  noComma : (angleDepth depth token == 0 && token.isPunctuator ",") = false
  noSpecifier : (angleDepth depth token == 0 && isSpecifier token) = false

/-- All of the tokens go to the text of a base, and lead from one depth to another. -/
def ExtendBase : Nat -> List Token -> Nat -> Prop
  | depth, [], final => depth = final
  | depth, token :: rest, final =>
    ExtendsBase depth token ∧ ExtendBase (angleDepth depth token) rest final

theorem ExtendsBase.bases?_cons {depth : Nat} {token : Token} (inBase : ExtendsBase depth token)
    (begun : String) (rest : List Token) :
    bases? depth begun (token :: rest) =
      bases? (angleDepth depth token) (begun ++ token.lexeme) rest := by
  have noSemicolon : (token.lexeme == ";") = false := beq_eq_false_iff_ne.mpr inBase.noSemicolon
  have noSpecifier := inBase.noSpecifier
  rw [isSpecifier, ← Bool.and_assoc] at noSpecifier
  rw [bases?, inBase.noBrace, noSemicolon]
  simp only [inBase.noComma, noSpecifier, Bool.false_eq_true, if_false]

/-- Whatever a base has begun with, and whatever follows. -/
theorem ExtendBase.bases?_append {depth final : Nat} {tokens : List Token}
    (inBase : ExtendBase depth tokens final) (begun : String) (rest : List Token) :
    bases? depth begun (tokens ++ rest) = bases? final (begun ++ joinLexemes tokens) rest := by
  induction tokens generalizing depth begun with
  | nil =>
      cases inBase
      simp [joinLexemes]
  | cons token others inductionHypothesis =>
      rcases inBase with ⟨first, later⟩
      rw [List.cons_append, first.bases?_cons, inductionHypothesis later, String.append_assoc]
      simp [joinLexemes]

theorem ExtendBase.append {first middle final : Nat} {tokens others : List Token}
    (inBase : ExtendBase first tokens middle) (later : ExtendBase middle others final) :
    ExtendBase first (tokens ++ others) final := by
  induction tokens generalizing first with
  | nil =>
      cases inBase
      exact later
  | cons token rest inductionHypothesis => exact ⟨inBase.1, inductionHypothesis inBase.2⟩

/-! ## Brackets and what stands between them -/

section Brackets

variable {depth : Nat} {token : Token}

theorem angleDepth_opening (opens : token.lexeme = "<") : angleDepth depth token = depth + 1 := by
  rw [angleDepth, opens]
  rfl

theorem angleDepth_closing (closes : token.lexeme = ">") : angleDepth depth token = depth - 1 := by
  rw [angleDepth, closes]
  rfl

theorem angleDepth_closingTwo (closes : token.lexeme = ">>") :
    angleDepth depth token = depth - 2 := by
  rw [angleDepth, closes]
  rfl

theorem lexeme_ne_of_isPlain (plain : isPlain token = true) :
    token.lexeme ≠ "<" ∧ token.lexeme ≠ ">" ∧ token.lexeme ≠ ">>" ∧ token.lexeme ≠ ";" := by
  simpa [isPlain, angleBrackets, and_assoc] using plain

theorem angleDepth_of_isPlain (plain : isPlain token = true) : angleDepth depth token = depth := by
  rcases lexeme_ne_of_isPlain plain with ⟨noOpening, noClosing, noClosingTwo, _⟩
  unfold angleDepth
  split <;> first | contradiction | rfl

/-- A token that is nothing a base could end at goes to its text at any depth. -/
theorem ExtendsBase.of_ordinary (noBrace : token.isOpeningBrace = false)
    (noSemicolon : token.lexeme ≠ ";") (noComma : token.isPunctuator "," = false)
    (noSpecifier : isSpecifier token = false) : ExtendsBase depth token where
  noBrace := by rw [noBrace, Bool.and_false]
  noSemicolon := noSemicolon
  noComma := by rw [noComma, Bool.and_false]
  noSpecifier := by rw [noSpecifier, Bool.and_false]

/-- So does a bracket. -/
theorem ExtendsBase.of_bracket (bracket : token.lexeme ∈ angleBrackets) :
    ExtendsBase depth token := by
  have ordinary : ∀ text ∈ angleBrackets,
      text ≠ "\x7b" ∧ text ≠ ";" ∧ text ≠ "," ∧ text ∉ baseSpecifiers := by decide
  rcases ordinary token.lexeme bracket with ⟨noBrace, noSemicolon, noComma, noSpecifier⟩
  apply ExtendsBase.of_ordinary
  · simp [Token.isOpeningBrace, Token.isPunctuator, noBrace]
  · exact noSemicolon
  · simp [Token.isPunctuator, noComma]
  · simp [isSpecifier, noSpecifier]

/-- Inside brackets, a plain token goes to the text of the base whatever it is. -/
theorem ExtendsBase.of_isPlain (plain : isPlain token = true) :
    ExtendsBase (depth + 1) token where
  noBrace := rfl
  noSemicolon := (lexeme_ne_of_isPlain plain).2.2.2
  noComma := by rw [angleDepth_of_isPlain plain]; rfl
  noSpecifier := by rw [angleDepth_of_isPlain plain]; rfl

/-- What stands between brackets is read one deeper. -/
theorem ExtendBase.brackets {final : Nat} {opening closing : Token} {inside rest : List Token}
    (opens : opening.lexeme = "<") (inner : ExtendBase (depth + 1) inside (depth + 1))
    (closes : closing.lexeme = ">") (later : ExtendBase depth rest final) :
    ExtendBase depth (opening :: (inside ++ closing :: rest)) final := by
  refine ⟨.of_bracket (by rw [opens]; decide), ?_⟩
  rw [angleDepth_opening opens]
  refine inner.append ⟨.of_bracket (by rw [closes]; decide), ?_⟩
  rw [angleDepth_closing closes]
  exact later

theorem Balanced.extendBase {tokens : List Token} (balanced : Balanced tokens) (depth : Nat) :
    ExtendBase (depth + 1) tokens (depth + 1) := by
  induction balanced generalizing depth with
  | nil => exact rfl
  | plain plain _ inductionHypothesis =>
      refine ⟨.of_isPlain plain, ?_⟩
      rw [angleDepth_of_isPlain plain]
      exact inductionHypothesis depth
  | brackets opens _ closes _ inside rest =>
      exact .brackets opens (inside (depth + 1)) closes (rest depth)

theorem IsBaseType.extendBase {tokens : List Token} (isType : IsBaseType tokens) :
    ExtendBase 0 tokens 0 := by
  induction isType with
  | nil => exact rfl
  | @name token rest isIdentifier plain noSpecifier _ inductionHypothesis =>
      have isName : token.kind = .identifier := beq_iff_eq.mp isIdentifier
      refine ⟨.of_ordinary ?_ (lexeme_ne_of_isPlain plain).2.2.2 ?_ noSpecifier, ?_⟩
      · simp [Token.isOpeningBrace, Token.isPunctuator, isName]
      · simp [Token.isPunctuator, isName]
      · rw [angleDepth_of_isPlain plain]
        exact inductionHypothesis
  | @separator token rest separates _ inductionHypothesis =>
      rcases Bool.and_eq_true_iff.mp separates with ⟨isPunctuator, text⟩
      have lexeme : token.lexeme = "::" := beq_iff_eq.mp text
      have kind : token.kind = .punctuator := beq_iff_eq.mp isPunctuator
      have plain : isPlain token = true := by rw [isPlain, lexeme]; decide
      refine ⟨.of_ordinary ?_ (lexeme_ne_of_isPlain plain).2.2.2 ?_ ?_, ?_⟩
      · simp [Token.isOpeningBrace, Token.isPunctuator, lexeme]
      · simp [Token.isPunctuator, lexeme]
      · simp [isSpecifier, Token.isIdentifier, kind]
      · rw [angleDepth_of_isPlain plain]
        exact inductionHypothesis
  | arguments opens balanced closes _ inductionHypothesis =>
      exact .brackets opens (balanced.extendBase 0) closes inductionHypothesis

/-- A token that closes two brackets counts for two tokens that close one each. -/
theorem ExtendBase.of_bracketsApart {final : Nat} {tokens : List Token}
    (inBase : ExtendBase depth (bracketsApart tokens) final) : ExtendBase depth tokens final := by
  induction tokens generalizing depth with
  | nil => exact inBase
  | cons token rest inductionHypothesis =>
      rw [bracketsApart, List.flatMap_cons] at inBase
      split at inBase
      · rename_i closesTwo
        refine ⟨.of_bracket (by rw [closesTwo]; decide), inductionHypothesis ?_⟩
        rw [angleDepth_closingTwo closesTwo]
        exact inBase.2.2
      · exact ⟨inBase.1, inductionHypothesis inBase.2⟩

end Brackets

/-! ## Lists of bases -/

theorem bases?_specifier {token : Token} (specifies : isSpecifier token = true) (begun : String)
    (rest : List Token) : bases? 0 begun (token :: rest) = bases? 0 begun rest := by
  rcases Bool.and_eq_true_iff.mp specifies with ⟨isIdentifier, listed⟩
  have kind : token.kind = .identifier := beq_iff_eq.mp isIdentifier
  have plainWords : ∀ word ∈ baseSpecifiers,
      (!angleBrackets.contains word && word != ";") = true := by decide
  have isWord : token.lexeme ∈ baseSpecifiers := List.contains_iff_mem.mp listed
  have plain : isPlain token = true := plainWords token.lexeme isWord
  have noSemicolon := (lexeme_ne_of_isPlain plain).2.2.2
  simp [bases?, angleDepth_of_isPlain plain, Token.isOpeningBrace, Token.isPunctuator, kind,
    noSemicolon, isIdentifier, isWord]

/-- Words for access and virtual inheritance do not go to the text of a base. -/
theorem bases?_specifiers {specifiers : List Token}
    (areSpecifiers : specifiers.all isSpecifier = true) (begun : String)
    (rest : List Token) : bases? 0 begun (specifiers ++ rest) = bases? 0 begun rest := by
  induction specifiers with
  | nil => rfl
  | cons token others inductionHypothesis =>
      rw [List.all_cons, Bool.and_eq_true] at areSpecifiers
      rcases areSpecifiers with ⟨first, later⟩
      rw [List.cons_append, bases?_specifier first, inductionHypothesis later]

theorem bases?_comma (begun : String) (line : Nat) (rest : List Token) :
    bases? 0 begun (⟨.punctuator, line, ","⟩ :: rest) =
      (bases? 0 "" rest).map fun bases => { bases with names := begun :: bases.names } :=
  rfl

theorem bases?_openingBrace {begun : String} (notEmpty : begun ≠ "") (line : Nat)
    (rest : List Token) : bases? 0 begun (openingBrace line :: rest) = some ⟨[begun], rest⟩ := by
  have begins : begun.isEmpty = false := by simpa using notEmpty
  have braces : (0 == 0 && (openingBrace line).isOpeningBrace) = true := rfl
  rw [bases?, if_pos braces, begins]
  rfl

namespace WrittenBase

/-- A base is read to its end. -/
theorem bases?_tokens_append (base : WrittenBase) (rest : List Token) :
    bases? 0 "" (base.tokens ++ rest) = bases? 0 base.text rest := by
  have inBase : ExtendBase 0 base.type 0 := base.isType.extendBase.of_bracketsApart
  rw [tokens, List.append_assoc, bases?_specifiers base.areSpecifiers, inBase.bases?_append,
    String.empty_append, text]

/-- The bases of a list are those that are written in it, up to the brace behind it. -/
theorem bases?_listed (base : WrittenBase) (others : List (Nat × WrittenBase)) (opening : Nat)
    (rest : List Token) :
    bases? 0 "" (base.listed others ++ openingBrace opening :: rest) =
      some ⟨(base :: others.map Prod.snd).map text, rest⟩ := by
  induction others generalizing base with
  | nil =>
      have notEmpty : base.text ≠ "" := base.notEmpty
      rw [listed, bases?_tokens_append, bases?_openingBrace notEmpty]
      rfl
  | cons separated others inductionHypothesis =>
      rcases separated with ⟨line, next⟩
      rw [listed, List.append_assoc, bases?_tokens_append, List.cons_append, bases?_comma,
        inductionHypothesis next]
      rfl

end WrittenBase

/-! ## Heads with base clauses -/

/-- A head whose identifiers name a class declares the bases that are listed behind the
colon, and ends at the brace behind them. -/
theorem classHead?_listed {parts : List NamePart} {name : String}
    (named : nameAmong? (identifiers parts) = some name) (colon : Nat) (base : WrittenBase)
    (others : List (Nat × WrittenBase)) (opening : Nat) (rest : List Token) :
    classHead? (parts.map NamePart.token ++ ⟨.punctuator, colon, ":"⟩ ::
        (base.listed others ++ openingBrace opening :: rest)) =
      some ⟨name, (base :: others.map Prod.snd).map WrittenBase.text, rest⟩ := by
  have isColon : (⟨.punctuator, colon, ":"⟩ : Token).isPunctuator ":" = true := rfl
  have names := classNames?_parts (Bool.or_eq_true_iff.mpr (.inr isColon)) parts
    (base.listed others ++ openingBrace opening :: rest)
  rw [classHead?, names]
  simp only [bind, Option.bind_some, named, isColon, if_true, base.bases?_listed]

/-! ### Brackets that close together -/

/-- An identifier on the first line. -/
def wordToken (text : String) : Token :=
  ⟨.identifier, 1, text⟩

/-- A punctuator on the first line. -/
def signToken (text : String) : Token :=
  ⟨.punctuator, 1, text⟩

/-- The base `public virtual ns::B<C<int, private>>`. -/
def nestedBase : WrittenBase where
  specifiers := [wordToken "public", wordToken "virtual"]
  type := [wordToken "ns", signToken "::", wordToken "B", signToken "<", wordToken "C",
    signToken "<", wordToken "int", signToken ",", wordToken "private", signToken ">>"]
  areSpecifiers := rfl
  isType := by
    have innermost : Balanced [wordToken "int", signToken ",", wordToken "private"] :=
      .plain rfl (.plain rfl (.plain rfl .nil))
    have arguments : Balanced (wordToken "C" :: signToken "<" ::
        ([wordToken "int", signToken ",", wordToken "private"] ++ [signToken ">"])) :=
      .plain rfl (.brackets rfl innermost rfl .nil)
    have enclosed : IsBaseType (signToken "<" :: (_ ++ [signToken ">"])) :=
      .arguments rfl arguments rfl .nil
    exact .name rfl rfl rfl (.separator rfl (.name rfl rfl rfl enclosed))
  notEmpty := by decide

/-- The base `D<(x), E< >::F>`. -/
def parenthesizedBase : WrittenBase where
  specifiers := []
  type := [wordToken "D", signToken "<", signToken "(", wordToken "x", signToken ")",
    signToken ",", wordToken "E", signToken "<", signToken ">", signToken "::", wordToken "F",
    signToken ">"]
  areSpecifiers := rfl
  isType := by
    have arguments : Balanced ([signToken "(", wordToken "x", signToken ")", signToken ",",
        wordToken "E"] ++ signToken "<" :: ([] ++ signToken ">" ::
          [signToken "::", wordToken "F"])) :=
      .plain rfl (.plain rfl (.plain rfl (.plain rfl (.plain rfl
        (.brackets rfl .nil rfl (.plain rfl (.plain rfl .nil)))))))
    have enclosed : IsBaseType (signToken "<" :: (_ ++ [signToken ">"])) :=
      .arguments rfl arguments rfl .nil
    exact .name rfl rfl rfl enclosed
  notEmpty := by decide

theorem classHead?_listed_nested :
    let parts : List NamePart := [.identifier 1 "API", .identifier 1 "A", .identifier 1 "final"]
    nameAmong? (identifiers parts) = some "A" ∧
      classHead? (parts.map NamePart.token ++ signToken ":" ::
          (nestedBase.listed [(1, parenthesizedBase)] ++ openingBrace 1 :: [closingBrace 1])) =
        some ⟨"A", ["ns::B<C<int,private>>", "D<(x),E<>::F>"], [closingBrace 1]⟩ := by
  intro parts
  have named : nameAmong? (identifiers parts) = some "A" := by decide
  have found := classHead?_listed named 1 nestedBase [(1, parenthesizedBase)] 1 [closingBrace 1]
  exact ⟨named, found.trans (by decide)⟩

end Declaration
end ObjectWrapper
