import ObjectWrapper.Declaration.Scan

namespace ObjectWrapper
namespace Declaration

open Source

/-!
# Declarations as trees

The declarations of a file make up a tree: namespaces, classes and plain blocks hold
further declarations between braces, and around them stand markers and other tokens.
Which classes get wrapper code, and which markers are out of place, is said here by
recursion on the tree alone, without a stack.

A tree is written down token by token.  Nothing is presupposed about what stands
between a class name and its brace except that the base clause, if there is one,
consists of tokens that are neither blank nor markers of included files.
-/

/-! ## Tokens of trees -/

/-- A token that stands in the text of the main file and is not blank. -/
def isSignificant (token : Token) : Bool :=
  !token.isBlank && !token.kind.isMarker

/-- A significant token that has no part in the structure of declarations. -/
def isOrdinary (token : Token) : Bool :=
  isSignificant token && !token.isOpeningBrace && !token.isClosingBrace &&
    ["namespace", "class", "struct", "Q_OBJECT", "Q_GADGET"].all (!token.isName ·)

def openingBrace (line : Nat) : Token :=
  ⟨.punctuator, line, "\x7b"⟩

def closingBrace (line : Nat) : Token :=
  ⟨.punctuator, line, "\x7d"⟩

/-- The macro that marks a class for a kind of wrapper. -/
def WrapperKind.marker : WrapperKind -> String
  | .object => "Q_OBJECT"
  | .gadget => "Q_GADGET"

/-- A part of the name of a namespace or class. -/
inductive NamePart where
  | identifier (line : Nat) (name : String)
  | separator (line : Nat)
deriving DecidableEq, Repr

def NamePart.token : NamePart -> Token
  | .identifier line name => ⟨.identifier, line, name⟩
  | .separator line => ⟨.punctuator, line, "::"⟩

/-- The identifiers among the parts of a name. -/
def identifiers (parts : List NamePart) : List String :=
  parts.filterMap fun part =>
    match part with
    | .identifier _ name => some name
    | .separator _ => none

/-- The word that begins the declaration of a class. -/
inductive ClassKey where
  | asClass
  | asStruct
deriving DecidableEq, Repr

def ClassKey.word : ClassKey -> String
  | .asClass => "class"
  | .asStruct => "struct"

/-- What follows the colon of a class head. -/
structure BaseClause where
  colon : Nat
  tokens : List Token
  significant : tokens.all isSignificant = true

/-- The head of a class, up to its opening brace.  One of its identifiers is not
`final`. -/
structure Heading where
  line : Nat
  key : ClassKey
  parts : List NamePart
  bases? : Option BaseClause
  opening : Nat
  named : (identifiers parts).filter (· != "final") ≠ []

namespace Heading

/-- The name of the class: the last identifier other than `final`. -/
def name (heading : Heading) : String :=
  ((identifiers heading.parts).filter (· != "final")).getLast heading.named

/-- The tokens after the word that begins the declaration. -/
def laterTokens (heading : Heading) : List Token :=
  heading.parts.map NamePart.token ++
    ((heading.bases?.elim [] fun bases => ⟨.punctuator, bases.colon, ":"⟩ :: bases.tokens) ++
      [openingBrace heading.opening])

def tokens (heading : Heading) : List Token :=
  ⟨.identifier, heading.line, heading.key.word⟩ :: heading.laterTokens

end Heading

/-! ## Trees -/

mutual

/-- A declaration, a marker, or a token between them. -/
inductive Item where
  | plain (token : Token) (ordinary : isOrdinary token = true)
  | marker (line : Nat) (kind : WrapperKind)
  /-- A namespace, which may have any number of names. -/
  | named (line : Nat) (parts : List NamePart) (opening : Nat) (body : Body) (closing : Nat)
  | declared (heading : Heading) (body : Body) (closing : Nat)
  | block (opening : Nat) (body : Body) (closing : Nat)

/-- What stands between two braces, or in a whole file. -/
inductive Body where
  | empty
  | cons (item : Item) (rest : Body)

end

mutual

def Item.tokens : Item -> List Token
  | .plain token _ => [token]
  | .marker line kind => [⟨.identifier, line, kind.marker⟩]
  | .named line parts opening body closing =>
    ⟨.identifier, line, "namespace"⟩ :: (parts.map NamePart.token ++ [openingBrace opening]) ++
      (body.tokens ++ [closingBrace closing])
  | .declared heading body closing =>
    heading.tokens ++ (body.tokens ++ [closingBrace closing])
  | .block opening body closing =>
    openingBrace opening :: (body.tokens ++ [closingBrace closing])

def Body.tokens : Body -> List Token
  | .empty => []
  | .cons item rest => item.tokens ++ rest.tokens

end

/-! ## All tokens of a tree are significant -/

theorem all_isSignificant_parts (parts : List NamePart) :
    (parts.map NamePart.token).all isSignificant = true := by
  rw [List.all_map, List.all_eq_true]
  intro part _
  cases part with
  | identifier line name => rfl
  | separator line => rfl

theorem isSignificant_openingBrace (line : Nat) : isSignificant (openingBrace line) = true :=
  rfl

theorem isSignificant_closingBrace (line : Nat) : isSignificant (closingBrace line) = true :=
  rfl

theorem isSignificant_of_isOrdinary {token : Token} (ordinary : isOrdinary token = true) :
    isSignificant token = true := by
  simp only [isOrdinary, Bool.and_eq_true] at ordinary
  exact ordinary.1.1.1

theorem Heading.all_isSignificant_tokens (heading : Heading) :
    heading.tokens.all isSignificant = true := by
  have word : isSignificant ⟨.identifier, heading.line, heading.key.word⟩ = true := rfl
  unfold Heading.tokens Heading.laterTokens
  cases heading.bases? with
  | none =>
      simp only [Option.elim_none, List.nil_append, List.all_cons, List.all_append, List.all_nil,
        word, all_isSignificant_parts, isSignificant_openingBrace, Bool.and_self]
  | some bases =>
      have colon : isSignificant ⟨.punctuator, bases.colon, ":"⟩ = true := rfl
      simp only [Option.elim_some, List.all_cons, List.all_append, List.all_nil, word, colon,
        all_isSignificant_parts, bases.significant, isSignificant_openingBrace, Bool.and_self]

mutual

theorem Item.all_isSignificant_tokens (item : Item) : item.tokens.all isSignificant = true := by
  match item with
  | .plain token ordinary =>
      simp only [Item.tokens, List.all_cons, List.all_nil, isSignificant_of_isOrdinary ordinary,
        Bool.and_self]
  | .marker line kind => rfl
  | .named line parts opening body closing =>
      have word : isSignificant ⟨.identifier, line, "namespace"⟩ = true := rfl
      simp only [Item.tokens, List.cons_append, List.all_cons, List.all_append, List.all_nil, word,
        all_isSignificant_parts, body.all_isSignificant_tokens, isSignificant_openingBrace,
        isSignificant_closingBrace, Bool.and_self]
  | .declared heading body closing =>
      simp only [Item.tokens, List.all_cons, List.all_append, List.all_nil,
        heading.all_isSignificant_tokens, body.all_isSignificant_tokens,
        isSignificant_closingBrace, Bool.and_self]
  | .block opening body closing =>
      simp only [Item.tokens, List.all_cons, List.all_append, List.all_nil,
        body.all_isSignificant_tokens, isSignificant_openingBrace, isSignificant_closingBrace,
        Bool.and_self]

theorem Body.all_isSignificant_tokens (body : Body) : body.tokens.all isSignificant = true := by
  match body with
  | .empty => rfl
  | .cons item rest =>
      rw [Body.tokens, List.all_append, item.all_isSignificant_tokens,
        rest.all_isSignificant_tokens, Bool.and_self]

end

/-! ## Classes in trees -/

/-- Whether an item is the word after which `class` and `struct` begin no class. -/
def Item.isEnum : Item -> Bool
  | .plain token _ => token.isName "enum"
  | _ => false

mutual

/-- No class follows the word `enum` directly. -/
def Item.isRegular (afterEnum : Bool) : Item -> Bool
  | .plain _ _ | .marker _ _ => true
  | .named _ _ _ body _ => body.isRegular false
  | .declared _ body _ => !afterEnum && body.isRegular false
  | .block _ body _ => body.isRegular false

def Body.isRegular (afterEnum : Bool) : Body -> Bool
  | .empty => true
  | .cons item rest => item.isRegular afterEnum && rest.isRegular item.isEnum

end

mutual

/-- The heads of all classes. -/
def Item.headings : Item -> List Heading
  | .plain _ _ | .marker _ _ => []
  | .named _ _ _ body _ | .block _ body _ => body.headings
  | .declared heading body _ => heading :: body.headings

def Body.headings : Body -> List Heading
  | .empty => []
  | .cons item rest => item.headings ++ rest.headings

end

/-! ## What a tree declares -/

/-- What is known of a wrapped class without a look at its bases. -/
structure Outline where
  name : String
  enclosing : List String
  line : Nat
  kind : WrapperKind
deriving DecidableEq, Repr

def WrappedClass.outline (declared : WrappedClass) : Outline :=
  ⟨declared.name, declared.enclosing, declared.line, declared.kind⟩

/-- The marker that an item is. -/
def Item.marks : Item -> List WrapperKind
  | .marker _ kind => [kind]
  | _ => []

/-- The markers that stand directly in a body. -/
def Body.marks : Body -> List WrapperKind
  | .empty => []
  | .cons item rest => item.marks ++ rest.marks

mutual

/-- The classes with a marker directly in their body, inside the given names.  A
class comes after those in its body. -/
def Item.classes (enclosing : List String) : Item -> List Outline
  | .plain _ _ | .marker _ _ => []
  | .named _ parts _ body _ => body.classes (enclosing ++ identifiers parts)
  | .declared heading body _ =>
    body.classes (enclosing ++ [heading.name]) ++
      (body.marks.getLast?.map fun kind => ⟨heading.name, enclosing, heading.line, kind⟩).toList
  | .block _ body _ => body.classes enclosing

def Body.classes (enclosing : List String) : Body -> List Outline
  | .empty => []
  | .cons item rest => item.classes enclosing ++ rest.classes enclosing

end

mutual

/-- The markers that do not stand directly in the body of a class. -/
def Item.warnings (inClass : Bool) : Item -> List (Nat × Warning)
  | .plain _ _ => []
  | .marker line kind => if inClass then [] else [(line, .markerOutsideClass kind.marker)]
  | .named _ _ _ body _ | .block _ body _ => body.warnings false
  | .declared _ body _ => body.warnings true

def Body.warnings (inClass : Bool) : Body -> List (Nat × Warning)
  | .empty => []
  | .cons item rest => item.warnings inClass ++ rest.warnings inClass

end

/-! ## Base clauses that can be told from the body -/

/-- The tokens close every angle bracket that they open, and `depth` others.  A
bracket is closed by `>`, and two by `>>`.  No brace opens outside brackets, and no
semicolon occurs. -/
def closesAngles : Nat -> List Token -> Bool
  | depth, [] => depth == 0
  | depth, token :: rest =>
    token.lexeme != ";" && !(depth == 0 && token.isOpeningBrace) &&
      closesAngles (angleDepth depth token) rest

/-- The base clause of the head, where there is one, closes its angle brackets. -/
def Heading.closesBases (heading : Heading) : Bool :=
  heading.bases?.all fun bases => closesAngles 0 bases.tokens

end Declaration
end ObjectWrapper
