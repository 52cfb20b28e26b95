import ObjectWrapper.Proofs.Declaration.Heads

namespace ObjectWrapper
namespace Declaration

open Source

/-!
# Scanning declarations

The scan of a token list keeps a stack of open braces and looks ahead for heads.  It
is compared here with the recursion on trees: every item of a tree, in front of any
other tokens and inside any scopes, amounts to the findings that the tree assigns to
it, and changes nothing but the innermost scope, where its markers are noted.

Base clauses are presupposed to close their angle brackets.  For one that does not,
such as one with a comparison, the class goes unnoticed.
-/

/-! ## Single steps -/

section Steps

theorem readNamespace_of_found (scopes : List Scope) {tokens : List Token} {head : NamespaceHead}
    (found : namespaceHead? tokens = some head) :
    (readNamespace scopes tokens).findings = [] ∧
      (readNamespace scopes tokens).scopes = .named head.names :: scopes ∧
      (readNamespace scopes tokens).left = head.after := by
  unfold readNamespace
  split
  · rename_i missing
    rw [found] at missing
    cases missing
  · rename_i other otherFound
    rw [found] at otherFound
    cases otherFound
    exact ⟨rfl, rfl, rfl⟩

theorem readClass_of_found (scopes : List Scope) (line : Nat) {tokens : List Token}
    {head : ClassHead} (found : classHead? tokens = some head) :
    (readClass scopes line tokens).findings = [] ∧
      (readClass scopes line tokens).scopes =
        .body ⟨head.name, enclosingNames scopes, head.bases, line, none⟩ :: scopes ∧
      (readClass scopes line tokens).left = head.after := by
  unfold readClass
  split
  · rename_i missing
    rw [found] at missing
    cases missing
  · rename_i other otherFound
    rw [found] at otherFound
    cases otherFound
    exact ⟨rfl, rfl, rfl⟩

theorem marker?_of_isOrdinary {token : Token} (ordinary : isOrdinary token = true) :
    marker? token = none := by
  simp only [isOrdinary, List.all_cons, Bool.and_eq_true, Bool.not_eq_true'] at ordinary
  rcases ordinary with ⟨_, _, _, _, noObject, noGadget, _⟩
  unfold marker?
  split
  · rename_i identifier
    unfold WrapperKind.ofMarker?
    split
    · rename_i lexeme
      simp_all [Token.isName, Token.isIdentifier]
    · rename_i lexeme
      simp_all [Token.isName, Token.isIdentifier]
    · rfl
  · rfl

variable {afterEnum : Bool} {scopes : List Scope}

theorem scanFrom_plain {token : Token} (ordinary : isOrdinary token = true) (rest : List Token) :
    scanFrom afterEnum scopes (token :: rest) = scanFrom (token.isName "enum") scopes rest := by
  have noMarker := marker?_of_isOrdinary ordinary
  simp only [isOrdinary, List.all_cons, Bool.and_eq_true, Bool.not_eq_true'] at ordinary
  rcases ordinary with ⟨⟨⟨_, noOpening⟩, noClosing⟩, noNamespace, noClass, noStruct, _⟩
  have same : read afterEnum scopes token rest = proceed rest [] scopes := by
    simp [read, noOpening, noClosing, noNamespace, noClass, noStruct, noMarker]
  rw [scanFrom, same]
  rfl

theorem scanFrom_marker (line : Nat) (kind : WrapperKind) (rest : List Token) :
    scanFrom afterEnum scopes (⟨.identifier, line, kind.marker⟩ :: rest) =
      (readMarker scopes line kind.marker kind).1 ++
        scanFrom false (readMarker scopes line kind.marker kind).2 rest := by
  rw [scanFrom]
  cases kind with
  | object => rfl
  | gadget => rfl

theorem scanFrom_opening (line : Nat) (rest : List Token) :
    scanFrom afterEnum scopes (openingBrace line :: rest) =
      scanFrom false (.block :: scopes) rest := by
  rw [scanFrom]
  rfl

theorem scanFrom_closing (line : Nat) (rest : List Token) :
    scanFrom afterEnum scopes (closingBrace line :: rest) =
      (readClosing scopes line).1 ++ scanFrom false (readClosing scopes line).2 rest := by
  rw [scanFrom]
  rfl

theorem scanFrom_named (line : Nat) (parts : List NamePart) (opening : Nat) (rest : List Token) :
    scanFrom afterEnum scopes
        (⟨.identifier, line, "namespace"⟩ ::
          (parts.map NamePart.token ++ [openingBrace opening]) ++ rest) =
      scanFrom false (.named (identifiers parts) :: scopes) rest := by
  have found := namespaceHead?_parts parts opening rest
  rw [List.append_cons] at found
  rcases readNamespace_of_found scopes found with ⟨noFindings, scopesAfter, left⟩
  rw [List.cons_append, scanFrom]
  change (readNamespace scopes _).findings ++ scanFrom false (readNamespace scopes _).scopes
    (readNamespace scopes _).left = _
  rw [noFindings, scopesAfter, left]
  rfl

/-- A class head that is found opens the body of its class. -/
theorem scanFrom_heading (scopes : List Scope) {heading : Heading} {bases : List String}
    {rest : List Token}
    (found : classHead? (heading.laterTokens ++ rest) = some ⟨heading.name, bases, rest⟩) :
    scanFrom false scopes (heading.tokens ++ rest) =
      scanFrom false
        (.body ⟨heading.name, enclosingNames scopes, bases, heading.line, none⟩ :: scopes) rest := by
  rcases readClass_of_found scopes heading.line found with ⟨noFindings, scopesAfter, left⟩
  have isClass :
      read false scopes ⟨.identifier, heading.line, heading.key.word⟩ (heading.laterTokens ++ rest) =
        readClass scopes heading.line (heading.laterTokens ++ rest) := by
    cases heading.key with
    | asClass => rfl
    | asStruct => rfl
  have noEnum : (⟨.identifier, heading.line, heading.key.word⟩ : Token).isName "enum" = false := by
    cases heading.key with
    | asClass => rfl
    | asStruct => rfl
  rw [Heading.tokens, List.cons_append, scanFrom, isClass, noEnum]
  simp only [noFindings, scopesAfter, left, List.nil_append]

/-- The class head in front of its body is found.  Which bases it declares is not said. -/
theorem exists_scanFrom_heading (scopes : List Scope) {heading : Heading}
    (closes : heading.closesBases = true) (rest : List Token) :
    ∃ bases, scanFrom false scopes (heading.tokens ++ rest) =
      scanFrom false
        (.body ⟨heading.name, enclosingNames scopes, bases, heading.line, none⟩ :: scopes) rest := by
  rcases (exists_classHead?_iff heading rest).mpr closes with ⟨bases, found⟩
  exact ⟨bases, scanFrom_heading scopes found⟩

end Steps

/-! ## The innermost scope -/

/-- Whether a marker inside the scopes belongs to a class. -/
def standsInClass : List Scope -> Bool
  | .body _ :: _ => true
  | _ => false

/-- The scopes after markers directly in the innermost one. -/
def marked (kinds : List WrapperKind) : List Scope -> List Scope
  | .body candidate :: outer =>
    .body { candidate with kind? := kinds.getLast?.or candidate.kind? } :: outer
  | scopes => scopes

@[simp] theorem marked_nil (scopes : List Scope) : marked [] scopes = scopes := by
  unfold marked
  split
  · rfl
  · rfl

theorem marked_append (earlier later : List WrapperKind) (scopes : List Scope) :
    marked (earlier ++ later) scopes = marked later (marked earlier scopes) := by
  match scopes with
  | .body candidate :: outer =>
      simp only [marked, List.getLast?_append, Option.or_assoc]
  | .named names :: outer => rfl
  | .block :: outer => rfl
  | [] => rfl

@[simp] theorem standsInClass_marked (kinds : List WrapperKind) (scopes : List Scope) :
    standsInClass (marked kinds scopes) = standsInClass scopes := by
  match scopes with
  | .body candidate :: outer => rfl
  | .named names :: outer => rfl
  | .block :: outer => rfl
  | [] => rfl

theorem enclosingNames_cons (scope : Scope) (outer : List Scope) :
    enclosingNames (scope :: outer) = enclosingNames outer ++ scope.names := by
  simp [enclosingNames]

@[simp] theorem enclosingNames_marked (kinds : List WrapperKind) (scopes : List Scope) :
    enclosingNames (marked kinds scopes) = enclosingNames scopes := by
  match scopes with
  | .body candidate :: outer => simp only [marked, enclosingNames_cons, Scope.names]
  | .named names :: outer => rfl
  | .block :: outer => rfl
  | [] => rfl

/-! ## Items and bodies -/

/-- The findings are the given classes, bases aside, and the given warnings, each in
order. -/
def AmountsTo (found : List Finding) (classes : List Outline) (warnings : List (Nat × Warning)) :
    Prop :=
  (found.filterMap Finding.class?).map WrappedClass.outline = classes ∧
    found.filterMap Finding.warning? = warnings

theorem AmountsTo.nil : AmountsTo [] [] [] :=
  ⟨rfl, rfl⟩

theorem AmountsTo.append {found more : List Finding} {classes moreClasses : List Outline}
    {warnings moreWarnings : List (Nat × Warning)} (first : AmountsTo found classes warnings)
    (second : AmountsTo more moreClasses moreWarnings) :
    AmountsTo (found ++ more) (classes ++ moreClasses) (warnings ++ moreWarnings) := by
  constructor
  · rw [List.filterMap_append, List.map_append, first.1, second.1]
  · rw [List.filterMap_append, first.2, second.2]

theorem amountsTo_readMarker (scopes : List Scope) (line : Nat) (kind : WrapperKind) :
    AmountsTo (readMarker scopes line kind.marker kind).1 []
      ((Item.marker line kind).warnings (standsInClass scopes)) := by
  match scopes with
  | .body candidate :: outer => exact .nil
  | .named names :: outer => exact ⟨rfl, rfl⟩
  | .block :: outer => exact ⟨rfl, rfl⟩
  | [] => exact ⟨rfl, rfl⟩

theorem readMarker_scopes (scopes : List Scope) (line : Nat) (kind : WrapperKind) :
    (readMarker scopes line kind.marker kind).2 = marked [kind] scopes := by
  match scopes with
  | .body candidate :: outer => rfl
  | .named names :: outer => rfl
  | .block :: outer => rfl
  | [] => rfl

/-- Markers in a namespace or plain block are not noted. -/
theorem readClosing_marked_of_not_class {scope : Scope} (notClass : standsInClass [scope] = false)
    (kinds : List WrapperKind) (outer : List Scope) (line : Nat) :
    readClosing (marked kinds (scope :: outer)) line = ([], outer) := by
  cases scope with
  | named names => rfl
  | body candidate => cases notClass
  | block => rfl

theorem amountsTo_readClosing_body (heading : Heading) (kinds : List WrapperKind)
    (bases : List String) (outer : List Scope) (line : Nat) :
    ∃ found,
      readClosing (marked kinds
        (.body ⟨heading.name, enclosingNames outer, bases, heading.line, none⟩ :: outer)) line =
        (found, outer) ∧
      AmountsTo found (kinds.getLast?.map fun kind =>
        ⟨heading.name, enclosingNames outer, heading.line, kind⟩).toList [] := by
  refine ⟨_, rfl, ?_⟩
  cases kinds.getLast? with
  | none => exact .nil
  | some kind => exact ⟨rfl, rfl⟩

/-- The tokens in front of the others, inside the scopes, amount to the classes and
warnings, and the markers are noted in the innermost scope. -/
def Reads (afterEnum : Bool) (scopes : List Scope) (tokens rest : List Token)
    (classes : List Outline) (warnings : List (Nat × Warning)) (marks : List WrapperKind)
    (lastEnum : Bool) : Prop :=
  ∃ found, AmountsTo found classes warnings ∧
    scanFrom afterEnum scopes (tokens ++ rest) =
      found ++ scanFrom lastEnum (marked marks scopes) rest

section Reading

variable {afterEnum : Bool} {scopes : List Scope} {rest : List Token}

theorem Reads.nil : Reads afterEnum scopes [] rest [] [] [] afterEnum :=
  ⟨[], .nil, by rw [marked_nil]; rfl⟩

theorem Reads.append {tokens more : List Token} {classes moreClasses : List Outline}
    {warnings moreWarnings : List (Nat × Warning)} {marks moreMarks : List WrapperKind}
    {middle lastEnum : Bool}
    (first : Reads afterEnum scopes tokens (more ++ rest) classes warnings marks middle)
    (second : Reads middle (marked marks scopes) more rest moreClasses moreWarnings moreMarks
      lastEnum) :
    Reads afterEnum scopes (tokens ++ more) rest (classes ++ moreClasses)
      (warnings ++ moreWarnings) (marks ++ moreMarks) lastEnum := by
  rcases first with ⟨found, amounts, same⟩
  rcases second with ⟨further, furtherAmounts, furtherSame⟩
  refine ⟨found ++ further, amounts.append furtherAmounts, ?_⟩
  rw [List.append_assoc, same, furtherSame, marked_append, List.append_assoc]

/-- A stretch between braces amounts to what stands in it and to what its scope
amounts to when it is closed.  Nothing is noted in the scope around it. -/
theorem Reads.enclosed {front inside : List Token} {scope : Scope} {closing : Nat}
    {classes own : List Outline} {warnings : List (Nat × Warning)} {marks : List WrapperKind}
    {lastEnum : Bool} {found : List Finding}
    (enters : scanFrom afterEnum scopes (front ++ (inside ++ closingBrace closing :: rest)) =
      scanFrom false (scope :: scopes) (inside ++ closingBrace closing :: rest))
    (inner : Reads false (scope :: scopes) inside (closingBrace closing :: rest) classes warnings
      marks lastEnum)
    (leaves : readClosing (marked marks (scope :: scopes)) closing = (found, scopes))
    (amounts : AmountsTo found own []) :
    Reads afterEnum scopes (front ++ (inside ++ [closingBrace closing])) rest (classes ++ own)
      warnings [] false := by
  rcases inner with ⟨innerFound, innerAmounts, same⟩
  refine ⟨innerFound ++ found, by simpa using innerAmounts.append amounts, ?_⟩
  rw [List.append_assoc, List.append_assoc, List.singleton_append, enters, same,
    scanFrom_closing, leaves, marked_nil, List.append_assoc]

theorem Reads.enclosed_of_not_class {front inside : List Token} {scope : Scope} {closing : Nat}
    {classes : List Outline} {warnings : List (Nat × Warning)} {marks : List WrapperKind}
    {lastEnum : Bool} (notClass : standsInClass [scope] = false)
    (enters : scanFrom afterEnum scopes (front ++ (inside ++ closingBrace closing :: rest)) =
      scanFrom false (scope :: scopes) (inside ++ closingBrace closing :: rest))
    (inner : Reads false (scope :: scopes) inside (closingBrace closing :: rest) classes warnings
      marks lastEnum) :
    Reads afterEnum scopes (front ++ (inside ++ [closingBrace closing])) rest classes warnings []
      false := by
  have leaves := readClosing_marked_of_not_class notClass marks scopes closing
  have enclosed := Reads.enclosed enters inner leaves .nil
  rwa [List.append_nil] at enclosed

end Reading

/-! ## The scan of a tree

The induction is on the tree.  The scopes and the tokens behind are left free, for a
body is read inside one scope more and in front of its closing brace.
-/

mutual

theorem Item.reads {afterEnum : Bool} (item : Item) (regular : item.isRegular afterEnum = true)
    (closes : ∀ heading ∈ item.headings, heading.closesBases = true) (scopes : List Scope)
    (rest : List Token) :
    Reads afterEnum scopes item.tokens rest (item.classes (enclosingNames scopes))
      (item.warnings (standsInClass scopes)) item.marks item.isEnum := by
  match item with
  | .plain token ordinary =>
      refine ⟨[], .nil, ?_⟩
      simpa [Item.tokens, Item.marks, Item.isEnum] using scanFrom_plain ordinary rest
  | .marker line kind =>
      have step : scanFrom afterEnum scopes ((Item.marker line kind).tokens ++ rest) = _ :=
        scanFrom_marker line kind rest
      rw [readMarker_scopes] at step
      exact ⟨_, amountsTo_readMarker scopes line kind, step⟩
  | .named line parts opening body closing =>
      rcases body.reads regular closes (.named (identifiers parts) :: scopes)
        (closingBrace closing :: rest) with ⟨lastEnum, inner⟩
      rw [enclosingNames_cons] at inner
      exact .enclosed_of_not_class rfl (scanFrom_named line parts opening _) inner
  | .declared heading body closing =>
      -- Directly after `enum` the head would not be looked for.
      rw [Item.isRegular, Bool.and_eq_true, Bool.not_eq_true'] at regular
      rcases regular with ⟨rfl, regular⟩
      rcases exists_scanFrom_heading scopes
        (closes heading List.mem_cons_self) (body.tokens ++ closingBrace closing :: rest)
        with ⟨bases, enters⟩
      rcases body.reads regular
        (fun inside member => closes inside (List.mem_cons_of_mem _ member)) _
        (closingBrace closing :: rest) with ⟨lastEnum, inner⟩
      rw [enclosingNames_cons] at inner
      rcases amountsTo_readClosing_body heading body.marks bases scopes closing
        with ⟨found, leaves, amounts⟩
      exact .enclosed enters inner leaves amounts
  | .block opening body closing =>
      rcases body.reads regular closes (.block :: scopes) (closingBrace closing :: rest)
        with ⟨lastEnum, inner⟩
      rw [enclosingNames_cons, Scope.names, List.append_nil] at inner
      have enters : scanFrom afterEnum scopes
          ([openingBrace opening] ++ (body.tokens ++ closingBrace closing :: rest)) = _ :=
        scanFrom_opening opening _
      exact .enclosed_of_not_class rfl enters inner

theorem Body.reads {afterEnum : Bool} (body : Body) (regular : body.isRegular afterEnum = true)
    (closes : ∀ heading ∈ body.headings, heading.closesBases = true) (scopes : List Scope)
    (rest : List Token) :
    ∃ lastEnum, Reads afterEnum scopes body.tokens rest (body.classes (enclosingNames scopes))
      (body.warnings (standsInClass scopes)) body.marks lastEnum := by
  match body with
  | .empty => exact ⟨afterEnum, .nil⟩
  | .cons item others =>
      rw [Body.isRegular, Bool.and_eq_true] at regular
      have first := item.reads regular.1
        (fun heading inside => closes heading (List.mem_append_left _ inside)) scopes
        (others.tokens ++ rest)
      rcases others.reads regular.2
        (fun heading inside => closes heading (List.mem_append_right _ inside))
        (marked item.marks scopes) rest with ⟨lastEnum, second⟩
      rw [enclosingNames_marked, standsInClass_marked] at second
      exact ⟨lastEnum, first.append second⟩

end

/-! ## Whole files -/

theorem isMarker_of_isBlank {token : Token} (blank : token.isBlank = true) :
    token.kind.isMarker = false := by
  rcases token with ⟨kind, line, lexeme⟩
  cases kind <;> first | rfl | cases blank

/-- Outside all included files, tokens up to the next marker belong to the main file. -/
theorem mainFileTokens_append_of_unmarked {tokens : List Token}
    (unmarked : ∀ token ∈ tokens, token.kind.isMarker = false) (rest : List Token) :
    mainFileTokens 0 (tokens ++ rest) =
      (tokens.filter fun token => !token.isBlank) ++ mainFileTokens 0 rest := by
  induction tokens with
  | nil => rfl
  | cons token tokens inductionHypothesis =>
      rcases List.forall_mem_cons.mp unmarked with ⟨head, others⟩
      have later := inductionHypothesis others
      rw [List.cons_append, mainFileTokens, List.filter_cons]
      split
      · rename_i begins
        simp [begins, TokenKind.isMarker] at head
      · rename_i ends
        simp [ends, TokenKind.isMarker] at head
      · cases blank : token.isBlank with
        | false => simpa using later
        | true => simpa using later

/-- Without markers of included files, all tokens belong to the main file. -/
theorem mainFileTokens_eq_filter {tokens : List Token}
    (unmarked : ∀ token ∈ tokens, token.kind.isMarker = false) :
    mainFileTokens 0 tokens = tokens.filter fun token => !token.isBlank := by
  have whole := mainFileTokens_append_of_unmarked unmarked []
  rwa [List.append_nil, mainFileTokens, List.append_nil] at whole

/-- Scan a file whose tokens other than blanks are those of a tree.  The classes found
are the ones with a marker directly in their body, and the warnings are those for the
markers that stand elsewhere. -/
theorem scan_of_filter_eq_tokens (body : Body) (tokens : List Token)
    (regular : body.isRegular false = true)
    (closes : ∀ heading ∈ body.headings, heading.closesBases = true)
    (rendered : tokens.filter (fun token => !token.isBlank) = body.tokens) :
    (scan tokens).classes.map WrappedClass.outline = body.classes [] ∧
      (scan tokens).warnings = body.warnings false := by
  have same : mainFileTokens 0 tokens = body.tokens := by
    rw [← rendered]
    refine mainFileTokens_eq_filter fun token member => ?_
    cases blank : token.isBlank with
    | false =>
        have kept : token ∈ body.tokens := by
          rw [← rendered]
          exact List.mem_filter.mpr ⟨member, by rw [blank]; rfl⟩
        have significant := List.all_eq_true.mp body.all_isSignificant_tokens token kept
        rw [isSignificant, blank, Bool.not_false, Bool.true_and, Bool.not_eq_true'] at significant
        exact significant
    | true => exact isMarker_of_isBlank blank
  rcases body.reads regular closes [] [] with ⟨lastEnum, found, amounts, read⟩
  have whole : findings tokens = found := by
    rw [findings, same, ← List.append_nil body.tokens, read]
    simp [marked, scanFrom]
  rw [scan, whole]
  exact amounts

/-! ### A file with every kind of scope -/

/-- The head `class API Outer final : public Base<int>`. -/
def outerHeading : Heading where
  line := 2
  key := .asClass
  parts := [.identifier 2 "API", .identifier 2 "Outer", .identifier 2 "final"]
  bases? := some {
    colon := 2
    tokens := [⟨.identifier, 2, "public"⟩, ⟨.identifier, 2, "Base"⟩, ⟨.punctuator, 2, "<"⟩,
      ⟨.identifier, 2, "int"⟩, ⟨.punctuator, 2, ">"⟩]
    significant := rfl
  }
  opening := 2
  named := by decide

/-- The head `struct Inner`. -/
def innerHeading : Heading where
  line := 3
  key := .asStruct
  parts := [.identifier 3 "Inner"]
  bases? := none
  opening := 3
  named := by decide

/-- A class with two markers inside a class with one, inside a namespace of two names.
Two more markers stand in a block of the outer class and behind it. -/
def nestedBody : Body :=
  .cons (.named 1 [.identifier 1 "a", .separator 1, .identifier 1 "b"] 1
    (.cons (.declared outerHeading
      (.cons (.declared innerHeading
        (.cons (.marker 3 .object) (.cons (.marker 3 .gadget) .empty)) 3)
      (.cons (.plain ⟨.punctuator, 3, ";"⟩ (by decide))
      (.cons (.block 4 (.cons (.marker 4 .gadget) .empty) 4)
      (.cons (.marker 5 .object) .empty)))) 6)
    (.cons (.marker 7 .object) .empty)) 8) .empty

theorem scan_of_filter_eq_tokens_nested :
    let tokens := nestedBody.tokens.flatMap fun token => [token, ⟨.whitespace, token.line, " "⟩]
    (scan tokens).classes.map WrappedClass.outline =
        [⟨"Inner", ["a", "b", "Outer"], 3, .gadget⟩, ⟨"Outer", ["a", "b"], 2, .object⟩] ∧
      (scan tokens).warnings =
        [(4, .markerOutsideClass "Q_GADGET"), (7, .markerOutsideClass "Q_OBJECT")] :=
  scan_of_filter_eq_tokens nestedBody _ (by decide) (by decide +kernel) (by decide +kernel)

/-! ### Comparisons among angle brackets -/

/-- The head `class A : B<(1<2)>`, whose second `<` is no bracket. -/
def comparingHeading : Heading where
  line := 1
  key := .asClass
  parts := [.identifier 1 "A"]
  bases? := some {
    colon := 1
    tokens := [⟨.identifier, 1, "B"⟩, ⟨.punctuator, 1, "<"⟩, ⟨.punctuator, 1, "("⟩,
      ⟨.number, 1, "1"⟩, ⟨.punctuator, 1, "<"⟩, ⟨.number, 1, "2"⟩, ⟨.punctuator, 1, ")"⟩,
      ⟨.punctuator, 1, ">"⟩]
    significant := rfl
  }
  opening := 1
  named := by decide

/-- The declaration `class A : B<(1<2)> { Q_OBJECT }`. -/
def comparingBody : Body :=
  .cons (.declared comparingHeading (.cons (.marker 1 .object) .empty) 1) .empty

/-- The presupposition on base clauses is not idle. -/
theorem not_scan_of_filter_eq_tokens_comparing :
    ¬ ∀ (body : Body) (tokens : List Token), body.isRegular false = true ->
      tokens.filter (fun token => !token.isBlank) = body.tokens ->
      (scan tokens).classes.map WrappedClass.outline = body.classes [] ∧
        (scan tokens).warnings = body.warnings false := by
  intro claimed
  have declared : (scan comparingBody.tokens).classes.map WrappedClass.outline =
      [⟨"A", [], 1, .object⟩] :=
    (claimed comparingBody comparingBody.tokens (by decide) (by decide +kernel)).1
  have missed : (scan comparingBody.tokens).classes = [] := by decide +kernel
  rw [missed] at declared
  cases declared

end Declaration
end ObjectWrapper
