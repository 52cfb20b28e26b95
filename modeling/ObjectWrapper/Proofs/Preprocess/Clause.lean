import ObjectWrapper.Preprocess.Run

namespace ObjectWrapper
namespace Preprocess

open Source Directive

/-!
# Sources as clauses

A source text can be read in one pass: at the start of a line, white space and
`#` begin a directive, which extends to the line end; every other token joins the
text that has been read since the last directive, and a directive ends that
text.  What is read this way is a list of clauses, each either a text that is not
empty or the request of a directive.

The main statement compares this reading with the pieces that are processed,
which are found line by line.  Processing does not tell the two apart, so what is
shown of clauses holds of source texts.
-/

/-- A text between two directives, or what a directive asks for. -/
inductive Clause where
  | text (tokens : List Token)
  | request (line : Nat) (request : Request)
deriving DecidableEq, Repr

/-! ## Reading in one pass -/

/-- A directive at the start of a line, and the tokens from its line end on. -/
structure Heading where
  line : Nat
  request : Request
  after : List Token

/-- The directive that tokens begin with, at the start of a line. -/
def heading? (tokens : List Token) : Option Heading :=
  match tokens.dropWhile Token.isWhitespace with
  | [] => none
  | first :: following =>
    if first.isPunctuator "#" then
      some ⟨first.line, .ofTokens (following.takeWhile (! ·.isNewline)),
        following.dropWhile (! ·.isNewline)⟩
    else none

/-- What follows a directive is shorter than the tokens it was found in, the last of them. -/
theorem heading?_after {tokens : List Token} {heading : Heading}
    (found : heading? tokens = some heading) :
    heading.after <:+ tokens ∧ heading.after.length < tokens.length := by
  unfold heading? at found
  have skipped := List.dropWhile_suffix (l := tokens) Token.isWhitespace
  split at found
  · cases found
  · rename_i first following shape
    rw [shape] at skipped
    split at found
    · cases found
      have rest := List.dropWhile_suffix (l := following) (! ·.isNewline)
      exact ⟨rest.trans ((List.suffix_cons first following).trans skipped),
        Nat.lt_of_le_of_lt rest.length_le skipped.length_le⟩
    · cases found

/-- The text read since the last directive, as a clause unless it is empty. -/
def flush (pending : List Token) : List Clause :=
  if pending.isEmpty then [] else [.text pending]

/-- Read tokens at the start of a line or inside one, with the text read since the
last directive. -/
def clausesFrom (lineStart : Bool) (pending : List Token) : List Token -> List Clause
  | [] => flush pending
  | token :: rest =>
    match _found : if lineStart then heading? (token :: rest) else none with
    | some heading =>
      flush pending ++ .request heading.line heading.request :: clausesFrom false [] heading.after
    | none => clausesFrom token.isNewline (pending ++ [token]) rest
termination_by tokens => tokens.length
decreasing_by
  · split at _found
    · exact (heading?_after _found).2
    · cases _found
  · exact Nat.lt_succ_self _

/-- The clauses of a token list. -/
def clauses (tokens : List Token) : List Clause :=
  clausesFrom true [] tokens

/-! ## The first line and the lines after it -/

/-- The first line of a token list, with its line end. -/
def firstLine (tokens : List Token) : List Token :=
  (lines tokens).headD []

/-- The pieces of the lines after the first. -/
def laterPieces (tokens : List Token) : List Piece :=
  (lines tokens).tail.foldr prependLine []

theorem firstLine_cons (token : Token) (rest : List Token) :
    firstLine (token :: rest) = token :: if token.isNewline then [] else firstLine rest := by
  cases newline : token.isNewline with
  | true => simp [firstLine, lines, newline]
  | false => cases shape : lines rest <;> simp [firstLine, lines, newline, shape]

theorem laterPieces_cons (token : Token) (rest : List Token) :
    laterPieces (token :: rest) = if token.isNewline then pieces rest else laterPieces rest := by
  cases newline : token.isNewline with
  | true => simp [laterPieces, pieces, lines, newline]
  | false => cases shape : lines rest <;> simp [laterPieces, lines, newline, shape]

theorem pieces_cons (token : Token) (rest : List Token) :
    pieces (token :: rest) =
      prependLine (firstLine (token :: rest)) (laterPieces (token :: rest)) := by
  cases newline : token.isNewline with
  | true => simp [pieces, firstLine, laterPieces, lines, newline]
  | false =>
      cases shape : lines rest <;> simp [pieces, firstLine, laterPieces, lines, newline, shape]

theorem prependText_prependText (first second : List Token) (rest : List Piece) :
    prependText first (prependText second rest) = prependText (first ++ second) rest := by
  cases rest with
  | nil => rfl
  | cons piece more =>
      cases piece with
      | text tokens => simp [prependText]
      | directive line tokens => rfl

/-- White space does not end a line. -/
theorem firstLine_dropWhile_isWhitespace (tokens : List Token) :
    (firstLine tokens).dropWhile Token.isWhitespace =
      firstLine (tokens.dropWhile Token.isWhitespace) := by
  induction tokens with
  | nil => rfl
  | cons token rest ih =>
      cases blank : token.isWhitespace with
      | true =>
          have inLine : token.isNewline = false := by
            have kind : token.kind = .whitespace := by simpa [Token.isWhitespace] using blank
            simp [Token.isNewline, kind]
          simpa [firstLine_cons, blank, inLine] using ih
      | false => simp [firstLine_cons, blank]

theorem laterPieces_dropWhile_isWhitespace (tokens : List Token) :
    laterPieces (tokens.dropWhile Token.isWhitespace) = laterPieces tokens := by
  induction tokens with
  | nil => rfl
  | cons token rest ih =>
      cases blank : token.isWhitespace with
      | true =>
          have inLine : token.isNewline = false := by
            have kind : token.kind = .whitespace := by simpa [Token.isWhitespace] using blank
            simp [Token.isNewline, kind]
          simpa [laterPieces_cons, blank, inLine] using ih
      | false => simp [blank]

theorem firstLine_takeWhile_not_isNewline (tokens : List Token) :
    (firstLine tokens).takeWhile (! ·.isNewline) = tokens.takeWhile (! ·.isNewline) := by
  induction tokens with
  | nil => rfl
  | cons token rest ih =>
      cases newline : token.isNewline with
      | true => simp [firstLine_cons, newline]
      | false => simpa [firstLine_cons, newline] using ih

theorem firstLine_dropWhile_not_isNewline (tokens : List Token) :
    firstLine (tokens.dropWhile (! ·.isNewline)) =
      (firstLine tokens).dropWhile (! ·.isNewline) := by
  induction tokens with
  | nil => rfl
  | cons token rest ih =>
      cases newline : token.isNewline with
      | true => simp [firstLine_cons, newline]
      | false => simpa [firstLine_cons, newline] using ih

theorem laterPieces_dropWhile_not_isNewline (tokens : List Token) :
    laterPieces (tokens.dropWhile (! ·.isNewline)) = laterPieces tokens := by
  induction tokens with
  | nil => rfl
  | cons token rest ih =>
      cases newline : token.isNewline with
      | true => simp [newline]
      | false => simpa [laterPieces_cons, newline] using ih

/-! ## Clauses of pieces -/

/-- The clauses that a piece is: none where it is an empty text. -/
def clausesOf : Piece -> List Clause
  | .text tokens => flush tokens
  | .directive line tokens => [.request line (.ofTokens tokens)]

/-- The first line, where it is no directive, joins the text before it. -/
theorem prependLine_of_heading?_eq_none {tokens : List Token} (absent : heading? tokens = none)
    (rest : List Piece) :
    prependLine (firstLine tokens) rest = prependText (firstLine tokens) rest := by
  unfold heading? at absent
  unfold prependLine
  rw [firstLine_dropWhile_isWhitespace]
  cases shape : tokens.dropWhile Token.isWhitespace with
  | nil => rfl
  | cons first following =>
      rw [shape] at absent
      rw [firstLine_cons]
      simp only [ite_eq_right_iff, reduceCtorEq, imp_false] at absent
      simp only [absent, Bool.false_eq_true, if_false]

/-- A directive on the first line is a piece of its own, and its line end begins
the text after it. -/
theorem prependLine_of_heading?_eq_some {tokens : List Token} {heading : Heading}
    (found : heading? tokens = some heading) :
    ∃ arguments, heading.request = .ofTokens arguments ∧
      prependLine (firstLine tokens) (laterPieces tokens) =
        .directive heading.line arguments ::
          prependText (firstLine heading.after) (laterPieces heading.after) := by
  unfold heading? at found
  unfold prependLine
  rw [firstLine_dropWhile_isWhitespace, ← laterPieces_dropWhile_isWhitespace]
  cases shape : tokens.dropWhile Token.isWhitespace with
  | nil =>
      rw [shape] at found
      cases found
  | cons first following =>
      rw [shape] at found
      cases hash : first.isPunctuator "#" with
      | false => simp [hash] at found
      | true =>
          have inLine : first.isNewline = false := by
            simp [Token.isNewline, Token.kind_of_isPunctuator hash]
          simp only [hash, if_true, Option.some.injEq] at found
          subst heading
          refine ⟨following.takeWhile (! ·.isNewline), rfl, ?_⟩
          simp only [firstLine_cons, laterPieces_cons, inLine, hash, Bool.false_eq_true, if_false,
            if_true, firstLine_takeWhile_not_isNewline, firstLine_dropWhile_not_isNewline,
            laterPieces_dropWhile_not_isNewline]

/-- Reading in one pass finds the clauses of the pieces.  At the start of a line
these are all pieces; inside a line the rest of the line is text. -/
theorem clausesFrom_eq_flatMap_clausesOf (lineStart : Bool) (pending tokens : List Token) :
    clausesFrom lineStart pending tokens =
      (prependText pending (if lineStart then pieces tokens
        else prependText (firstLine tokens) (laterPieces tokens))).flatMap clausesOf := by
  fun_induction clausesFrom lineStart pending tokens with
  | case1 lineStart pending =>
      cases lineStart <;>
        simp [pieces, firstLine, laterPieces, lines, prependText, clausesOf]
  | case2 lineStart pending token rest heading found ih =>
      cases lineStart with
      | false => cases found
      | true =>
          rcases prependLine_of_heading?_eq_some found with ⟨arguments, asked, placed⟩
          rw [if_pos rfl, pieces_cons, placed, ih, asked, if_neg Bool.false_ne_true,
            prependText_prependText, List.nil_append]
          rfl
  | case3 lineStart pending token rest absent ih =>
      -- whatever stands before it, the token belongs to the text of its line
      have joined : (if lineStart then pieces (token :: rest)
          else prependText (firstLine (token :: rest)) (laterPieces (token :: rest))) =
          prependText (firstLine (token :: rest)) (laterPieces (token :: rest)) := by
        cases lineStart with
        | false => rfl
        | true => rw [if_pos rfl, pieces_cons, prependLine_of_heading?_eq_none absent]
      rw [joined, ih, firstLine_cons, laterPieces_cons]
      cases token.isNewline <;> simp [prependText_prependText]

theorem clauses_eq_flatMap_pieces (tokens : List Token) :
    clauses tokens = (pieces tokens).flatMap clausesOf := by
  rw [clauses, clausesFrom_eq_flatMap_clausesOf, if_pos rfl]
  cases pieces tokens with
  | nil => rfl
  | cons piece rest => cases piece <;> rfl

/-! ## Processing clauses -/

section Processing

variable (setup : Setup) (process? : Option Process) (file : String)

/-- Process one clause inside the given groups. -/
def processClause (groups : List Group) : Clause -> Step (List Group × List Token)
  | .text tokens => do
    let state <- get
    pure (groups, if isActive groups then Macro.expand state.macros tokens else [])
  | .request line request => perform setup process? ⟨file, line⟩ groups request

/-- Process the remaining clauses of a file, whose last line is given. -/
def processClauses (lastLine : Nat) (groups : List Group) : List Clause -> Step (List Token)
  | [] => if groups.isEmpty then pure [] else refuse ⟨file, lastLine⟩ .unterminated
  | clause :: rest => do
    let done <- processClause setup process? file groups clause
    let more <- processClauses lastLine done.1 rest
    pure (done.2 ++ more)

/-- A text without tokens brings nothing and changes nothing. -/
theorem processPiece_text_nil (groups : List Group) :
    processPiece setup process? file groups (.text []) = pure (groups, []) := by
  funext state
  simp only [processPiece, Macro.expand_nil, ite_self]
  rfl

theorem processPieces_eq_processClauses (lastLine : Nat) (groups : List Group)
    (pieces : List Piece) :
    processPieces setup process? file lastLine groups pieces =
      processClauses setup process? file lastLine groups (pieces.flatMap clausesOf) := by
  induction pieces generalizing groups with
  | nil => rfl
  | cons piece rest ih =>
      rw [processPieces, List.flatMap_cons]
      cases piece with
      | directive line tokens =>
          simp only [clausesOf, List.singleton_append, processClauses, ih]
          rfl
      | text tokens =>
          cases tokens with
          | nil =>
              rw [processPiece_text_nil, pure_bind, ih]
              exact bind_pure _
          | cons token more =>
              simp only [clausesOf, flush, List.isEmpty_cons, Bool.false_eq_true, if_false,
                List.singleton_append, processClauses, ih]
              rfl

/-- A file is processed clause by clause. -/
theorem processFile_eq_processClauses (tokens : List Token) :
    processFile setup process? file tokens =
      processClauses setup process? file ((tokens.getLast?.map Token.line).getD 1) []
        (clauses tokens) := by
  rw [processFile, processPieces_eq_processClauses, clauses_eq_flatMap_pieces]

end Processing

/-- What files are processed with that a file at the given depth includes. -/
def nestedProcess? (setup : Setup) : Nat -> Option Process
  | 0 => none
  | depth + 1 => some (processNested setup depth)

theorem processNested_eq_processFile (setup : Setup) (depth : Nat) :
    processNested setup depth = processFile setup (nestedProcess? setup depth) := by
  cases depth <;> rfl

end Preprocess
end ObjectWrapper
