import ObjectWrapper.Proofs.Declaration.Reading
import ObjectWrapper.Proofs.Declaration.Scanning

namespace ObjectWrapper
namespace Declaration

open Source

/-!
# The order of wrapped classes

A class is reported when its body is closed, and its line is that of its head.  The two
orders differ where one class stands in the body of another: the inner one is reported
first, although its head comes later.

They differ nowhere else.  The scan is followed here with the classes found so far, the
open scopes and the tokens left.  No line that is left lies before what has been found,
and every class that has been found either comes before the head of an open class or
stands in its body.  Nothing is presupposed of the braces: bodies may be missing their
ends, and ends their bodies.
-/

/-! ## Open classes and the names around them -/

/-- The name of the class after those of what encloses it. -/
def WrappedClass.path (declared : WrappedClass) : List String :=
  declared.enclosing ++ [declared.name]

/-- The name of the class after those of what encloses it. -/
def Candidate.path (candidate : Candidate) : List String :=
  candidate.enclosing ++ [candidate.name]

/-- The class whose body a scope is, whether it has been marked or not. -/
def Scope.candidate? : Scope -> Option Candidate
  | .body candidate => some { candidate with kind? := none }
  | _ => none

/-- The classes whose bodies are open, the innermost one first. -/
def openClasses (scopes : List Scope) : List Candidate :=
  scopes.filterMap Scope.candidate?

/-- Every open class is known with the names around it. -/
def Enclosed : List Scope -> Prop
  | [] => True
  | scope :: outer =>
    (∀ candidate ∈ scope.candidate?, candidate.enclosing = enclosingNames outer) ∧ Enclosed outer

theorem mem_openClasses_cons {candidate : Candidate} {scope : Scope} {outer : List Scope} :
    candidate ∈ openClasses (scope :: outer) ↔
      scope.candidate? = some candidate ∨ candidate ∈ openClasses outer := by
  simp [openClasses]

/-- What stands in the innermost scope has the names of all open classes around it. -/
theorem Enclosed.path_isPrefix {scopes : List Scope} (enclosed : Enclosed scopes) :
    ∀ candidate ∈ openClasses scopes, candidate.path <+: enclosingNames scopes := by
  induction scopes with
  | nil => exact fun _ never => nomatch never
  | cons scope outer inductionHypothesis =>
      intro candidate member
      rw [enclosingNames_cons]
      rcases mem_openClasses_cons.mp member with isOpen | inOuter
      · rw [Candidate.path, enclosed.1 candidate isOpen]
        cases scope with
        | named names => cases isOpen
        | block => cases isOpen
        | body own =>
            cases isOpen
            exact List.prefix_rfl
      · have outside := inductionHypothesis enclosed.2 candidate inOuter
        exact outside.trans (List.prefix_append _ _)

/-! ## Classes in order -/

/-- The class stands in the body of one with the given path. -/
def WrappedClass.LiesIn (declared : WrappedClass) (path : List String) : Prop :=
  path <+: declared.enclosing

/-- The head of the first class comes first, or else that class stands in the body of the
second one. -/
def InOrderOrInside (first second : WrappedClass) : Prop :=
  first.line ≤ second.line ∨ first.LiesIn second.path

/-- The lines do not decrease. -/
def LinesOrdered (tokens : List Token) : Prop :=
  tokens.Pairwise fun earlier later => earlier.line ≤ later.line

instance (tokens : List Token) : Decidable (LinesOrdered tokens) :=
  inferInstanceAs (Decidable (List.Pairwise _ tokens))

/-- What has been found, the open classes and the tokens left come in the order of their
lines, except for what has been found in the bodies of open classes. -/
structure KeepsOrder (found : List WrappedClass) (scopes : List Scope) (tokens : List Token) :
    Prop where
  found_ordered : found.Pairwise InOrderOrInside
  found_open : ∀ declared ∈ found, ∀ candidate ∈ openClasses scopes,
    declared.line ≤ candidate.line ∨ declared.LiesIn candidate.path
  found_left : ∀ declared ∈ found, ∀ token ∈ tokens, declared.line ≤ token.line
  open_enclosed : Enclosed scopes
  open_left : ∀ candidate ∈ openClasses scopes, ∀ token ∈ tokens, candidate.line ≤ token.line
  left_ordered : LinesOrdered tokens

section Steps

variable {found : List WrappedClass} {scopes inner : List Scope} {tokens left : List Token}

theorem KeepsOrder.of_suffix (keeps : KeepsOrder found scopes tokens) (fewer : left <:+ tokens) :
    KeepsOrder found scopes left where
  found_ordered := keeps.found_ordered
  found_open := keeps.found_open
  found_left := fun declared member token isLeft =>
    keeps.found_left declared member token (fewer.subset isLeft)
  open_enclosed := keeps.open_enclosed
  open_left := fun candidate member token isLeft =>
    keeps.open_left candidate member token (fewer.subset isLeft)
  left_ordered := List.Pairwise.sublist fewer.sublist keeps.left_ordered

/-- Scopes that are no class bodies do not matter, nor do markers. -/
theorem KeepsOrder.of_openClasses_eq (keeps : KeepsOrder found scopes tokens)
    (same : openClasses inner = openClasses scopes) (enclosed : Enclosed inner) :
    KeepsOrder found inner tokens where
  found_ordered := keeps.found_ordered
  found_open := by
    rw [same]
    exact keeps.found_open
  found_left := keeps.found_left
  open_enclosed := enclosed
  open_left := by
    rw [same]
    exact keeps.open_left
  left_ordered := keeps.left_ordered

/-- The head of a class comes after all that has been found. -/
theorem KeepsOrder.enter {token : Token} (keeps : KeepsOrder found scopes (token :: tokens))
    (name : String) (bases : List String) :
    KeepsOrder found
      (.body ⟨name, enclosingNames scopes, bases, token.line, none⟩ :: scopes) tokens where
  found_ordered := keeps.found_ordered
  found_open := by
    intro declared member candidate isOpen
    rcases mem_openClasses_cons.mp isOpen with entered | around
    · cases entered
      exact .inl (keeps.found_left declared member token List.mem_cons_self)
    · exact keeps.found_open declared member candidate around
  found_left := fun declared member other isLeft =>
    keeps.found_left declared member other (List.mem_cons_of_mem token isLeft)
  open_enclosed := by
    refine ⟨fun candidate isOpen => ?_, keeps.open_enclosed⟩
    cases isOpen
    rfl
  open_left := by
    intro candidate isOpen other isLeft
    rcases mem_openClasses_cons.mp isOpen with entered | around
    · cases entered
      exact List.rel_of_pairwise_cons keeps.left_ordered isLeft
    · exact keeps.open_left candidate around other (List.mem_cons_of_mem token isLeft)
  left_ordered := keeps.left_ordered.of_cons

/-- A class is found with the line and the path that it has had since its head. -/
theorem Scope.exists_candidate_of_closed {scope : Scope} {declared : WrappedClass}
    (member : declared ∈ scope.closed.filterMap Finding.class?) :
    ∃ candidate, scope.candidate? = some candidate ∧ declared.line = candidate.line ∧
      declared.enclosing = candidate.enclosing ∧ declared.path = candidate.path := by
  cases scope with
  | named names => cases member
  | block => cases member
  | body candidate =>
      rcases candidate with ⟨name, enclosing, bases, line, kind?⟩
      cases kind? with
      | none => cases member
      | some kind =>
          cases List.mem_singleton.mp member
          exact ⟨_, rfl, rfl, rfl, rfl⟩

/-- At most one class is found with a closing brace. -/
theorem Scope.pairwise_closed (scope : Scope) :
    (scope.closed.filterMap Finding.class?).Pairwise InOrderOrInside := by
  cases scope with
  | named names => exact .nil
  | block => exact .nil
  | body candidate =>
      rcases candidate with ⟨name, enclosing, bases, line, kind?⟩
      cases kind? with
      | none => exact .nil
      | some kind => exact List.pairwise_singleton _ _

/-- A class that is closed stands in the bodies of those that stay open. -/
theorem KeepsOrder.leave {scope : Scope} (keeps : KeepsOrder found (scope :: scopes) tokens) :
    KeepsOrder (found ++ scope.closed.filterMap Finding.class?) scopes tokens where
  found_ordered := by
    refine List.pairwise_append.mpr ⟨keeps.found_ordered, scope.pairwise_closed, ?_⟩
    intro earlier member later isClosed
    rcases scope.exists_candidate_of_closed isClosed with ⟨candidate, isOpen, line, _, path⟩
    rw [InOrderOrInside, line, path]
    exact keeps.found_open earlier member candidate (mem_openClasses_cons.mpr (.inl isOpen))
  found_open := by
    intro declared member around isOpen
    rcases List.mem_append.mp member with earlier | isClosed
    · exact keeps.found_open declared earlier around (mem_openClasses_cons.mpr (.inr isOpen))
    · rcases scope.exists_candidate_of_closed isClosed with ⟨candidate, own, _, enclosing, _⟩
      right
      rw [WrappedClass.LiesIn, enclosing, keeps.open_enclosed.1 candidate own]
      exact keeps.open_enclosed.2.path_isPrefix around isOpen
  found_left := by
    intro declared member token isLeft
    rcases List.mem_append.mp member with earlier | isClosed
    · exact keeps.found_left declared earlier token isLeft
    · rcases scope.exists_candidate_of_closed isClosed with ⟨candidate, own, line, _, _⟩
      rw [line]
      exact keeps.open_left candidate (mem_openClasses_cons.mpr (.inl own)) token isLeft
  open_enclosed := keeps.open_enclosed.2
  open_left := fun candidate isOpen =>
    keeps.open_left candidate (mem_openClasses_cons.mpr (.inr isOpen))
  left_ordered := keeps.left_ordered

/-- Reading a token keeps the order. -/
theorem KeepsOrder.step {token : Token} {findings : List Finding}
    (keeps : KeepsOrder found scopes (token :: tokens))
    (step : ReadStep token.line scopes findings inner) :
    KeepsOrder (found ++ findings.filterMap Finding.class?) inner tokens := by
  have behind := keeps.of_suffix (List.suffix_cons token tokens)
  cases step with
  | passes => simpa using behind
  | strays marker => simpa [List.filterMap_cons, Finding.class?] using behind
  | unbalanced => simpa [List.filterMap_cons, Finding.class?] using behind
  | entersBody name bases => simpa using keeps.enter name bases
  | leaves scope => exact behind.leave
  | entersNamed names =>
      rw [List.filterMap_nil, List.append_nil]
      exact behind.of_openClasses_eq rfl ⟨fun _ never => (nomatch never), keeps.open_enclosed⟩
  | entersBlock =>
      rw [List.filterMap_nil, List.append_nil]
      exact behind.of_openClasses_eq rfl ⟨fun _ never => (nomatch never), keeps.open_enclosed⟩
  | marks candidate kind outer =>
      rw [List.filterMap_nil, List.append_nil]
      exact behind.of_openClasses_eq rfl keeps.open_enclosed

end Steps

/-! ## The scan -/

/-- Only warnings are left when the tokens end. -/
theorem filterMap_class?_unclosed (scopes : List Scope) :
    (scopes.flatMap Scope.unclosed).filterMap Finding.class? = [] := by
  rw [List.filterMap_eq_nil_iff]
  intro finding member
  rcases List.mem_flatMap.mp member with ⟨scope, _, isUnclosed⟩
  cases scope with
  | named names => cases isUnclosed
  | block => cases isUnclosed
  | body candidate =>
      cases List.mem_singleton.mp isUnclosed
      rfl

/-- A run of the scan keeps the order, from whatever has been found before. -/
theorem KeepsOrder.pairwise_scanFrom {found : List WrappedClass} {afterEnum : Bool}
    {scopes : List Scope} {tokens : List Token} (keeps : KeepsOrder found scopes tokens) :
    (found ++ (scanFrom afterEnum scopes tokens).filterMap Finding.class?).Pairwise
      InOrderOrInside := by
  induction afterEnum, scopes, tokens using scanFrom.induct generalizing found with
  | case1 afterEnum scopes =>
      rw [scanFrom, filterMap_class?_unclosed, List.append_nil]
      exact keeps.found_ordered
  | case2 afterEnum scopes token rest progress =>
      rename_i inductionHypothesis
      rw [scanFrom, List.filterMap_append, ← List.append_assoc]
      apply inductionHypothesis
      exact (keeps.step (readStep_read afterEnum scopes token rest)).of_suffix
        (read_left_suffix afterEnum scopes token rest)

/-- Of any two classes in the report the first one has the earlier head, unless it stands
in the body of the other, which is closed after it. -/
theorem pairwise_inOrderOrInside_classes_scan {tokens : List Token}
    (ordered : LinesOrdered (mainFileTokens 0 tokens)) :
    (scan tokens).classes.Pairwise InOrderOrInside := by
  have start : KeepsOrder [] [] (mainFileTokens 0 tokens) := {
    found_ordered := .nil
    found_open := fun _ never => nomatch never
    found_left := fun _ never => nomatch never
    open_enclosed := trivial
    open_left := fun _ never => nomatch never
    left_ordered := ordered
  }
  exact start.pairwise_scanFrom

/-- A class with a marker behind what else is inside of its body. -/
def markedClass (line : Nat) (name : String) (inside : List Token) (closing : Nat) : List Token :=
  [⟨.identifier, line, "class"⟩, ⟨.identifier, line, name⟩, openingBrace line] ++
    (inside ++ [⟨.identifier, closing, "Q_OBJECT"⟩, closingBrace closing])

/-- Two classes in the body of a third one, and a class behind it. -/
def nestedAndSeparate : List Token :=
  markedClass 1 "A" (markedClass 2 "B" [] 2 ++ markedClass 3 "C" [] 3) 4 ++ markedClass 5 "D" [] 5

theorem pairwise_inOrderOrInside_classes_scan_nested :
    LinesOrdered (mainFileTokens 0 nestedAndSeparate) ∧
      (scan nestedAndSeparate).classes.map (fun declared => (declared.name, declared.line)) =
        [("B", 2), ("C", 3), ("A", 1), ("D", 5)] ∧
      (scan nestedAndSeparate).classes.Pairwise InOrderOrInside :=
  ⟨by decide +kernel, by decide +kernel, pairwise_inOrderOrInside_classes_scan (by decide +kernel)⟩

/-- A class that encloses another one is reported after it, and so out of the order of
their heads. -/
theorem not_pairwise_line_classes_scan :
    ¬ ∀ tokens : List Token, LinesOrdered (mainFileTokens 0 tokens) ->
      (scan tokens).classes.Pairwise fun first second => first.line ≤ second.line := by
  intro claimed
  have ordered := claimed (markedClass 1 "Outer" (markedClass 2 "Inner" [] 3) 4) (by decide +kernel)
  exact absurd ordered (by decide +kernel)

end Declaration
end ObjectWrapper
