import Mathlib.Data.List.Forall2
import ObjectWrapper.Proofs.Declaration.BaseClause
import ObjectWrapper.Proofs.Declaration.Places
import ObjectWrapper.Proofs.Source.Neighbours

namespace ObjectWrapper
namespace Declaration

open Source

/-!
# Recorded names of bases

The name that is recorded for a base is made of the texts of the tokens of its type, with
nothing between them.  Read as tokens again, it may be another type: `unsigned int` becomes
one name, and two closing brackets with a blank between them become one token.

What is recorded is the type that was written exactly if every token of it is read off the
texts of the tokens from it on.  In a type of names, numbers and signs that is a matter of
neighbours: the recorded text is right if no token begins with a character that belongs to
the token before it, as brackets, commas and separators do.
-/

/-- Read as tokens, the text gives back the tokens of the type in order. -/
def GivesBack (recorded : String) (type : List Token) : Prop :=
  (significant (tokenize recorded)).map Token.spelling = type.map Token.spelling

instance (recorded : String) (type : List Token) : Decidable (GivesBack recorded type) :=
  inferInstanceAs (Decidable (_ = _))

namespace WrittenBase

/-- The tokens of the types are tokens of the list. -/
theorem type_subset_listed (base : WrittenBase) (others : List (Nat × WrittenBase)) :
    ∀ written ∈ base :: others.map Prod.snd, written.type ⊆ base.listed others := by
  have own : ∀ written : WrittenBase, written.type ⊆ written.tokens :=
    fun written => List.subset_append_right _ _
  induction others generalizing base with
  | nil =>
      intro written member
      rw [List.mem_singleton.mp member]
      exact own base
  | cons separated others inductionHypothesis =>
      rcases separated with ⟨line, next⟩
      intro written member
      rcases List.mem_cons.mp member with rfl | later
      · exact List.Subset.trans (own written) (List.subset_append_left _ _)
      · have inLater := inductionHypothesis next written later
        exact List.Subset.trans inLater
          (List.Subset.trans (List.subset_cons_self _ _) (List.subset_append_right _ _))

/-- The recorded text gives back the type exactly if no token of it runs into those behind
it. -/
theorem givesBack_text_iff (written : WrittenBase)
    (noBlank : ∀ token ∈ written.type, token.isBlank = false) :
    GivesBack written.text written.type ↔ StandInOrder written.type := by
  have whole : significant written.type = written.type := by
    rw [significant, List.filter_eq_self]
    intro token member
    rw [noBlank token member]
    rfl
  rw [← stayApart_iff_standInOrder_of_no_blank noBlank, StayApart, whole]
  rfl

end WrittenBase

/-- The head of the class lists the given bases. -/
def Heading.Lists (heading : Heading) (base : WrittenBase) (others : List (Nat × WrittenBase)) :
    Prop :=
  ∃ clause, heading.bases? = some clause ∧ clause.tokens = base.listed others

section Lists

variable {heading : Heading} {base : WrittenBase} {others : List (Nat × WrittenBase)}

theorem Heading.Lists.classHead?_append (lists : heading.Lists base others) (rest : List Token) :
    classHead? (heading.laterTokens ++ rest) =
      some ⟨heading.name, (base :: others.map Prod.snd).map WrittenBase.text, rest⟩ := by
  rcases lists with ⟨clause, written, listed⟩
  have shape : heading.laterTokens ++ rest = heading.parts.map NamePart.token ++
      ⟨.punctuator, clause.colon, ":"⟩ ::
        (base.listed others ++ openingBrace heading.opening :: rest) := by
    simp [Heading.laterTokens, written, listed]
  rw [shape, classHead?_listed (nameAmong?_identifiers heading)]

/-- There are no blanks in a class head. -/
theorem Heading.Lists.isBlank_eq_false (lists : heading.Lists base others) :
    ∀ written ∈ base :: others.map Prod.snd, ∀ token ∈ written.type, token.isBlank = false := by
  rcases lists with ⟨clause, _, listed⟩
  intro written member token inType
  have inClause : token ∈ clause.tokens := listed ▸ base.type_subset_listed others written member inType
  have significant := List.all_eq_true.mp clause.significant token inClause
  rw [isSignificant, Bool.and_eq_true, Bool.not_eq_true'] at significant
  exact significant.1

end Lists

/-! ## The reported bases -/

/-- A class with a marker in its body is reported with a text for each base in its head.
The text gives back the type of the base if each token of the type is read where it
stands, and only then.  Of names, numbers and signs none may run into the next one; two
names side by side always do. -/
theorem exists_mem_classes_scan_givesBack_iff {body : Body} {place : Place} {tokens : List Token}
    {base : WrittenBase} {others : List (Nat × WrittenBase)}
    (regular : body.isRegular false = true)
    (closes : ∀ heading ∈ body.headings, heading.closesBases = true)
    (rendered : mainFileTokens 0 tokens = body.tokens) (declared : place ∈ body.places [])
    {kind : WrapperKind} (last : place.inside.marks.getLast? = some kind)
    (lists : place.heading.Lists base others) :
    ∃ reported ∈ (scan tokens).classes,
      reported.outline = ⟨place.heading.name, place.enclosing, place.heading.line, kind⟩ ∧
        List.Forall₂ (fun recorded written =>
          (GivesBack recorded written.type ↔ StandInOrder written.type) ∧
            ((∀ token ∈ written.type, token.IsRead ∧ token.hasLocalEnd = true) ->
              (GivesBack recorded written.type ↔
                written.type.IsChain fun token next => token.runsInto next = false)) ∧
            ∀ first second, [first, second] <:+: written.type -> first.isIdentifier = true ->
              second.isIdentifier = true -> ¬ GivesBack recorded written.type)
          reported.bases (base :: others.map Prod.snd) := by
  rcases exists_mem_classes_scan_of_mem_places regular closes rendered declared last with
    ⟨bases, after, head, member⟩
  refine ⟨_, member, rfl, ?_⟩
  have sameHead := head.symm.trans (lists.classHead?_append after)
  have sameBases : bases = (base :: others.map Prod.snd).map WrittenBase.text :=
    congrArg ClassHead.bases (Option.some.inj sameHead)
  rw [Place.wrapped, sameBases, List.forall₂_map_left_iff, List.forall₂_same]
  intro written isListed
  have equivalent := written.givesBack_text_iff (lists.isBlank_eq_false written isListed)
  refine ⟨equivalent, fun ordinary => ?_, fun first second neighbours isFirst isSecond => ?_⟩
  · exact equivalent.trans (standInOrder_iff_isChain
      (fun token member => (ordinary token member).1) (fun token member => (ordinary token member).2))
  · rw [equivalent]
    exact not_standInOrder_of_names isFirst isSecond neighbours

/-! ### A type of two words -/

/-- The base `Base<unsigned int>`. -/
def twoWordBase : WrittenBase where
  specifiers := []
  type := [wordToken "Base", signToken "<", wordToken "unsigned", wordToken "int", signToken ">"]
  areSpecifiers := List.all_nil
  isType := by
    have arguments : Balanced [wordToken "unsigned", wordToken "int"] :=
      .plain rfl (.plain rfl .nil)
    have enclosed : IsBaseType (signToken "<" :: (_ ++ [signToken ">"])) :=
      .arguments rfl arguments rfl .nil
    exact .name rfl rfl rfl enclosed
  notEmpty := by decide

/-- The head `class Derived : public virtual ns::B<C<int, private>>, Base<unsigned int>`. -/
def twoBasesHeading : Heading where
  line := 1
  key := .asClass
  parts := [.identifier 1 "Derived"]
  bases? := some {
    colon := 1
    tokens := nestedBase.listed [(1, twoWordBase)]
    significant := rfl
  }
  opening := 1
  named := by decide

/-- The place of that class in a file of its own. -/
def twoBasesPlace : Place :=
  ⟨[], twoBasesHeading, .cons (.marker 1 .object) .empty⟩

/-- The file. -/
def twoBasesBody : Body :=
  .cons (.declared twoBasesHeading twoBasesPlace.inside 1) .empty

/-- The first base is given back, and the second one is not. -/
theorem exists_mem_classes_scan_givesBack_iff_twoBases :
    twoBasesPlace ∈ twoBasesBody.places [] ∧
      twoBasesPlace.heading.Lists nestedBase [(1, twoWordBase)] ∧
      ∃ reported ∈ (scan twoBasesBody.tokens).classes,
        reported.outline = ⟨"Derived", [], 1, .object⟩ ∧
          List.Forall₂ (fun recorded written =>
            (GivesBack recorded written.type ↔ StandInOrder written.type) ∧
              ((∀ token ∈ written.type, token.IsRead ∧ token.hasLocalEnd = true) ->
                (GivesBack recorded written.type ↔
                  written.type.IsChain fun token next => token.runsInto next = false)) ∧
              ∀ first second, [first, second] <:+: written.type -> first.isIdentifier = true ->
                second.isIdentifier = true -> ¬ GivesBack recorded written.type)
            reported.bases [nestedBase, twoWordBase] := by
  have declared : twoBasesPlace ∈ twoBasesBody.places [] := List.mem_cons_self
  have lists : twoBasesPlace.heading.Lists nestedBase [(1, twoWordBase)] := ⟨_, rfl, rfl⟩
  exact ⟨declared, lists, exists_mem_classes_scan_givesBack_iff (by decide) (by decide +kernel)
    (by decide +kernel) declared rfl lists⟩

example : GivesBack nestedBase.text nestedBase.type := by decide +kernel

/-- What is recorded for a base need not be that base. -/
theorem not_givesBack_twoWords :
    ¬ ∀ (body : Body) (place : Place) (base : WrittenBase) (others : List (Nat × WrittenBase)),
      body.isRegular false = true ->
      (∀ heading ∈ body.headings, heading.closesBases = true) ->
      place ∈ body.places [] -> place.inside.marks ≠ [] -> place.heading.Lists base others ->
      ∃ reported ∈ (scan body.tokens).classes,
        List.Forall₂ (fun recorded written => GivesBack recorded written.type)
          reported.bases (base :: others.map Prod.snd) := by
  intro claimed
  have declared : twoBasesPlace ∈ twoBasesBody.places [] := List.mem_cons_self
  rcases claimed twoBasesBody twoBasesPlace nestedBase [(1, twoWordBase)] (by decide)
    (by decide +kernel) declared (by decide) ⟨_, rfl, rfl⟩ with ⟨reported, member, given⟩
  have recorded : ∀ other ∈ (scan twoBasesBody.tokens).classes,
      other.bases = ["ns::B<C<int,private>>", "Base<unsignedint>"] := by decide +kernel
  rw [recorded reported member] at given
  cases given with
  | cons _ later =>
      cases later with
      | cons lost _ => exact absurd lost (by decide +kernel)

end Declaration
end ObjectWrapper
