import ObjectWrapper.Proofs.Declaration.Places

namespace ObjectWrapper
namespace Declaration

open Source

/-!
# Classes declared with a qualified name

A class may be defined outside of the scope that it belongs to, with the names of that
scope in front of its own: `class a::B`.  A head is read as one list of identifiers, in
which qualifiers are not told from words such as export macros, and only the last one is
kept.  So the class is reported as if it stood alone: with the names around its definition
and its last name, and with none of its qualifiers.

The qualified name in the report is the one in the source only where there is no qualifier
to lose.
-/

/-! ## Heads with qualified names -/

/-- A name and the separator behind it. -/
structure Qualifier where
  line : Nat
  name : String
  separatorLine : Nat

def Qualifier.parts (qualifier : Qualifier) : List NamePart :=
  [.identifier qualifier.line qualifier.name, .separator qualifier.separatorLine]

/-- A class head in which words such as export macros are told from the name, and the name
from what it is qualified by. -/
structure QualifiedHeading where
  line : Nat
  key : ClassKey
  /-- Identifiers before the name, each with its line. -/
  words : List (Nat × String)
  qualifiers : List Qualifier
  nameLine : Nat
  name : String
  /-- The line of the word `final`, where it follows the name. -/
  final? : Option Nat
  bases? : Option BaseClause
  opening : Nat
  notFinal : name ≠ "final"

namespace QualifiedHeading

/-- The identifiers and separators up to the name. -/
def leadingParts (written : QualifiedHeading) : List NamePart :=
  written.words.map (fun word => .identifier word.1 word.2) ++
    written.qualifiers.flatMap Qualifier.parts

def parts (written : QualifiedHeading) : List NamePart :=
  written.leadingParts ++ .identifier written.nameLine written.name ::
    written.final?.toList.map fun line => .identifier line "final"

/-- The name with the names that it is qualified by. -/
def fullName (written : QualifiedHeading) : List String :=
  written.qualifiers.map Qualifier.name ++ [written.name]

/-- The name is the last identifier other than `final`. -/
theorem filter_identifiers_parts (written : QualifiedHeading) :
    (identifiers written.parts).filter (· != "final") =
      (identifiers written.leadingParts).filter (· != "final") ++ [written.name] := by
  have notFinal : (written.name != "final") = true := bne_iff_ne.mpr written.notFinal
  unfold parts
  cases written.final? with
  | none => simp [identifiers, notFinal]
  | some line => simp [identifiers, notFinal]

/-- The head as a list of identifiers and separators. -/
def heading (written : QualifiedHeading) : Heading where
  line := written.line
  key := written.key
  parts := written.parts
  bases? := written.bases?
  opening := written.opening
  named := by
    rw [filter_identifiers_parts]
    exact List.append_ne_nil_of_right_ne_nil _ (List.cons_ne_nil _ _)

theorem name_heading (written : QualifiedHeading) : written.heading.name = written.name := by
  simp only [Heading.name, heading, written.filter_identifiers_parts, List.getLast_concat]

end QualifiedHeading

/-! ## Joined names -/

/-- Names that are left out are missed in the text. -/
theorem intercalate_append_eq_iff (outer dropped : List String) (name : String) :
    String.intercalate "::" (outer ++ [name]) =
        String.intercalate "::" (outer ++ (dropped ++ [name])) ↔ dropped = [] := by
  constructor
  · intro same
    refine Decidable.byContradiction fun someDropped => ?_
    have single : [name] ≠ [] := List.cons_ne_nil _ _
    have nonempty : dropped ++ [name] ≠ [] := List.append_ne_nil_of_right_ne_nil _ single
    have separator : "::".length = 2 := rfl
    have lengths := congrArg String.length same
    by_cases alone : outer = []
    · subst alone
      rw [List.nil_append, List.nil_append,
        String.intercalate_append_of_ne_nil someDropped single] at lengths
      simp only [String.intercalate_singleton, String.length_append, separator] at lengths
      omega
    · rw [String.intercalate_append_of_ne_nil alone single,
        String.intercalate_append_of_ne_nil alone nonempty,
        String.intercalate_append_of_ne_nil someDropped single] at lengths
      simp only [String.intercalate_singleton, String.length_append, separator] at lengths
      omega
  · rintro rfl
    rfl

/-! ## The reported name -/

/-- A class with a marker in its body is reported with the names around it and its last
name.  That is its qualified name exactly if it is declared without qualifiers. -/
theorem exists_mem_classes_scan_qualifiedName_eq_iff {written : QualifiedHeading}
    {body inside : Body} {enclosing : List String} {tokens : List Token}
    (regular : body.isRegular false = true)
    (closes : ∀ heading ∈ body.headings, heading.closesBases = true)
    (rendered : mainFileTokens 0 tokens = body.tokens)
    (declared : ⟨enclosing, written.heading, inside⟩ ∈ body.places []) {kind : WrapperKind}
    (last : inside.marks.getLast? = some kind) :
    ∃ reported ∈ (scan tokens).classes,
      reported.outline = ⟨written.name, enclosing, written.line, kind⟩ ∧
        reported.qualifiedName = String.intercalate "::" (enclosing ++ [written.name]) ∧
        (reported.qualifiedName = String.intercalate "::" (enclosing ++ written.fullName) ↔
          written.qualifiers = []) := by
  rcases exists_mem_classes_scan_of_mem_places regular closes rendered declared last with
    ⟨bases, _, _, member⟩
  refine ⟨_, member, ?_, ?_, ?_⟩
  · simp only [Place.wrapped, WrappedClass.outline, written.name_heading]
    rfl
  · simp only [Place.wrapped, WrappedClass.qualifiedName, written.name_heading]
  · simp only [Place.wrapped, WrappedClass.qualifiedName, written.name_heading,
      QualifiedHeading.fullName, intercalate_append_eq_iff, List.map_eq_nil_iff]

/-! ### A class defined outside of its scope -/

/-- The head `class API A::B::C final`. -/
def outsideHeading : QualifiedHeading where
  line := 2
  key := .asClass
  words := [(2, "API")]
  qualifiers := [⟨2, "A", 2⟩, ⟨2, "B", 2⟩]
  nameLine := 2
  name := "C"
  final? := some 2
  bases? := none
  opening := 2
  notFinal := by decide

/-- A marker alone. -/
def markerBody : Body :=
  .cons (.marker 3 .object) .empty

/-- The class inside a namespace `n`. -/
def outsideBody : Body :=
  .cons (.named 1 [.identifier 1 "n"] 1
    (.cons (.declared outsideHeading.heading markerBody 4) .empty) 5) .empty

theorem exists_mem_classes_scan_qualifiedName_eq_iff_outside :
    let tokens := outsideBody.tokens.flatMap fun token => [token, ⟨.newline, token.line, "\n"⟩]
    ⟨["n"], outsideHeading.heading, markerBody⟩ ∈ outsideBody.places [] ∧
      ∃ reported ∈ (scan tokens).classes,
        reported.outline = ⟨"C", ["n"], 2, .object⟩ ∧
          reported.qualifiedName = String.intercalate "::" ["n", "C"] ∧
          (reported.qualifiedName = String.intercalate "::" ["n", "A", "B", "C"] ↔
            outsideHeading.qualifiers = []) := by
  have declared : ⟨["n"], outsideHeading.heading, markerBody⟩ ∈ outsideBody.places [] :=
    List.mem_cons_self
  exact ⟨declared, exists_mem_classes_scan_qualifiedName_eq_iff (by decide) (by decide +kernel)
    (by decide +kernel) declared rfl⟩

/-- The qualifiers are lost. -/
theorem not_qualifiedName_eq_fullName :
    ¬ ∀ (written : QualifiedHeading) (body inside : Body) (enclosing : List String),
      body.isRegular false = true ->
      (∀ heading ∈ body.headings, heading.closesBases = true) ->
      ⟨enclosing, written.heading, inside⟩ ∈ body.places [] -> inside.marks ≠ [] ->
      ∃ reported ∈ (scan body.tokens).classes,
        reported.qualifiedName = String.intercalate "::" (enclosing ++ written.fullName) := by
  intro claimed
  have declared : ⟨["n"], outsideHeading.heading, markerBody⟩ ∈ outsideBody.places [] :=
    List.mem_cons_self
  rcases claimed outsideHeading outsideBody markerBody ["n"] (by decide) (by decide +kernel) declared
    (by decide) with ⟨reported, member, name⟩
  have onlyLast : ∀ other ∈ (scan outsideBody.tokens).classes, other.qualifiedName = "n::C" := by
    decide +kernel
  rw [onlyLast reported member] at name
  exact absurd name (by decide)

end Declaration
end ObjectWrapper
