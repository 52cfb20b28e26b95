import ObjectWrapper.Proofs.Declaration.Scanning

namespace ObjectWrapper
namespace Declaration

open Source

/-!
# Classes in their places

Where a tree declares a class whose body has a marker, the scan finds it: with its name,
the names around it, its line and kind, and with the bases that are read in its head.

The order of what is found, and that nothing else is found, is a matter of whole trees and
is told there; here single declarations are followed into the scan.
-/

/-- The declaration of a class, the names around it and its body. -/
structure Place where
  enclosing : List String
  heading : Heading
  inside : Body

mutual

/-- The places of all classes, inside the given names. -/
def Item.places (enclosing : List String) : Item -> List Place
  | .plain _ _ | .marker _ _ => []
  | .named _ parts _ body _ => body.places (enclosing ++ identifiers parts)
  | .declared heading body _ =>
    ⟨enclosing, heading, body⟩ :: body.places (enclosing ++ [heading.name])
  | .block _ body _ => body.places enclosing

def Body.places (enclosing : List String) : Body -> List Place
  | .empty => []
  | .cons item rest => item.places enclosing ++ rest.places enclosing

end

/-- The class at a place, with the given bases and kind. -/
def Place.wrapped (place : Place) (bases : List String) (kind : WrapperKind) : WrappedClass :=
  ⟨place.heading.name, place.enclosing, bases, place.heading.line, kind⟩

/-- Among the findings is the class at the place, with the bases that are read in its head
in front of its body. -/
def Place.IsFound (place : Place) (kind : WrapperKind) (findings : List Finding) : Prop :=
  ∃ bases after, classHead? (place.heading.laterTokens ++ after) =
      some ⟨place.heading.name, bases, after⟩ ∧
    Finding.wrapped (place.wrapped bases kind) ∈ findings

theorem Place.IsFound.of_subset {place : Place} {kind : WrapperKind} {findings more : List Finding}
    (isFound : place.IsFound kind findings) (subset : findings ⊆ more) :
    place.IsFound kind more := by
  rcases isFound with ⟨bases, after, head, member⟩
  exact ⟨bases, after, head, subset member⟩

theorem readClosing_marked_body {kinds : List WrapperKind} {kind : WrapperKind}
    (last : kinds.getLast? = some kind) (name : String) (bases : List String) (line closing : Nat)
    (outer : List Scope) :
    readClosing (marked kinds (.body ⟨name, enclosingNames outer, bases, line, none⟩ :: outer))
        closing =
      ([.wrapped ⟨name, enclosingNames outer, bases, line, kind⟩], outer) := by
  rw [marked, last]
  rfl

/-! ## The scan of a tree

As in the scan of whole trees, the scopes and the tokens behind are left free.
-/

mutual

theorem Item.isFound_of_mem_places {afterEnum : Bool} (item : Item)
    (regular : item.isRegular afterEnum = true)
    (closes : ∀ heading ∈ item.headings, heading.closesBases = true) (scopes : List Scope)
    (rest : List Token) {place : Place} (member : place ∈ item.places (enclosingNames scopes))
    {kind : WrapperKind} (last : place.inside.marks.getLast? = some kind) :
    place.IsFound kind (scanFrom afterEnum scopes (item.tokens ++ rest)) := by
  match item with
  | .plain token ordinary => cases member
  | .marker line marker => cases member
  | .named line parts opening body closing =>
      have inside : place ∈ body.places (enclosingNames (.named (identifiers parts) :: scopes)) := by
        rw [enclosingNames_cons]
        exact member
      rw [Item.tokens, List.append_assoc, scanFrom_named, List.append_assoc,
        List.singleton_append]
      exact body.isFound_of_mem_places regular closes _ _ inside last
  | .declared heading body closing =>
      rw [Item.isRegular, Bool.and_eq_true, Bool.not_eq_true'] at regular
      rcases regular with ⟨rfl, regular⟩
      have closesInside : ∀ inner ∈ body.headings, inner.closesBases = true :=
        fun inner within => closes inner (List.mem_cons_of_mem _ within)
      rcases (exists_classHead?_iff heading (body.tokens ++ closingBrace closing :: rest)).mpr
        (closes heading List.mem_cons_self) with ⟨bases, found⟩
      rw [Item.tokens, List.append_assoc, List.append_assoc, List.singleton_append,
        scanFrom_heading scopes found]
      rcases List.mem_cons.mp member with rfl | within
      · -- What the body holds is found before the class itself, when the body is closed.
        rcases body.reads regular closesInside
          (.body ⟨heading.name, enclosingNames scopes, bases, heading.line, none⟩ :: scopes)
          (closingBrace closing :: rest) with ⟨lastEnum, before, _, same⟩
        refine ⟨bases, _, found, ?_⟩
        rw [same, scanFrom_closing, readClosing_marked_body last]
        exact List.mem_append_right _ List.mem_cons_self
      · have inside : place ∈ body.places (enclosingNames
            (.body ⟨heading.name, enclosingNames scopes, bases, heading.line, none⟩ :: scopes)) := by
          rw [enclosingNames_cons]
          exact within
        exact body.isFound_of_mem_places regular closesInside _ _ inside last
  | .block opening body closing =>
      have inside : place ∈ body.places (enclosingNames (.block :: scopes)) := by
        rw [enclosingNames_cons, Scope.names, List.append_nil]
        exact member
      rw [Item.tokens, List.cons_append, scanFrom_opening, List.append_assoc]
      exact body.isFound_of_mem_places regular closes _ _ inside last

theorem Body.isFound_of_mem_places {afterEnum : Bool} (body : Body)
    (regular : body.isRegular afterEnum = true)
    (closes : ∀ heading ∈ body.headings, heading.closesBases = true) (scopes : List Scope)
    (rest : List Token) {place : Place} (member : place ∈ body.places (enclosingNames scopes))
    {kind : WrapperKind} (last : place.inside.marks.getLast? = some kind) :
    place.IsFound kind (scanFrom afterEnum scopes (body.tokens ++ rest)) := by
  match body with
  | .empty => cases member
  | .cons item others =>
      rw [Body.isRegular, Bool.and_eq_true] at regular
      have closesItem : ∀ heading ∈ item.headings, heading.closesBases = true :=
        fun heading inside => closes heading (List.mem_append_left _ inside)
      have closesOthers : ∀ heading ∈ others.headings, heading.closesBases = true :=
        fun heading inside => closes heading (List.mem_append_right _ inside)
      rw [Body.tokens, List.append_assoc]
      rcases List.mem_append.mp member with inItem | inOthers
      · exact item.isFound_of_mem_places regular.1 closesItem scopes _ inItem last
      · rcases item.reads regular.1 closesItem scopes (others.tokens ++ rest) with ⟨found, _, same⟩
        have behind : place ∈ others.places (enclosingNames (marked item.marks scopes)) := by
          rw [enclosingNames_marked]
          exact inOthers
        have later := others.isFound_of_mem_places regular.2 closesOthers _ rest behind last
        rw [same]
        exact later.of_subset (List.subset_append_right _ _)

end

/-! ## Whole files -/

/-- In a file whose own tokens are those of a tree, each class of the tree with a marker
in its body is found. -/
theorem exists_mem_classes_scan_of_mem_places {body : Body} {tokens : List Token}
    (regular : body.isRegular false = true)
    (closes : ∀ heading ∈ body.headings, heading.closesBases = true)
    (rendered : mainFileTokens 0 tokens = body.tokens) {place : Place}
    (member : place ∈ body.places []) {kind : WrapperKind}
    (last : place.inside.marks.getLast? = some kind) :
    ∃ bases after, classHead? (place.heading.laterTokens ++ after) =
        some ⟨place.heading.name, bases, after⟩ ∧
      place.wrapped bases kind ∈ (scan tokens).classes := by
  have isFound : place.IsFound kind (scanFrom false [] (body.tokens ++ [])) :=
    body.isFound_of_mem_places regular closes [] [] member last
  rw [List.append_nil, ← rendered] at isFound
  rcases isFound with ⟨bases, after, head, found⟩
  exact ⟨bases, after, head, List.mem_filterMap.mpr ⟨_, found, rfl⟩⟩

end Declaration
end ObjectWrapper
