import ObjectWrapper.Proofs.Preprocess.Inclusion
import ObjectWrapper.Proofs.Preprocess.Malformed

namespace ObjectWrapper
namespace Preprocess

open Source Files Directive

/-!
# Skipped branches

What stands in a branch that is not selected leaves no trace.  Its texts are not expanded and
its directives are not obeyed, whatever they ask for: files are not looked up, macros are not
defined, and conditions and names are not read, so nothing in them can be at fault.  Only the
structure of its groups is followed, and that comes back to where it was when the groups of
the branch are closed in it.

The main statement replaces the lines of such a branch by any other lines whose groups are
closed.  The source may include files and may itself be included, at any depth; from a state in
which the branch is skipped, both sources come to the same outcome and leave the same state
behind.
-/

/-! ## Groups in an inactive branch -/

/-- The group was opened in an inactive branch, so none of its branches is active. -/
def Group.isDormant (group : Group) : Bool :=
  !group.isActive && !group.isEnclosedActive

theorem Group.isDormant_iff {group : Group} :
    group.isDormant = true ↔ group.isActive = false ∧ group.isEnclosedActive = false := by
  rw [isDormant, Bool.and_eq_true, Bool.not_eq_true', Bool.not_eq_true']

/-- A dormant group needs no condition, and stays dormant at its next branches. -/
theorem Group.of_isDormant {group : Group} (dormant : group.isDormant = true) :
    group.needsCondition = false ∧ (group.next false).isDormant = true ∧
      group.last.isDormant = true := by
  have parts := isDormant_iff.mp dormant
  simp [Group.needsCondition, Group.next, Group.last, isDormant, parts.2]

theorem isActive_append_of_isDormant {inner outer : List Group}
    (dormant : ∀ group ∈ inner, group.isDormant = true) (inactive : isActive outer = false) :
    isActive (inner ++ outer) = false := by
  cases inner with
  | nil => exact inactive
  | cons group rest => exact (Group.isDormant_iff.mp (dormant group List.mem_cons_self)).1

section Skipping

variable (setup : Setup) (process? : Option Process) (file : String) {outer : List Group}
  (inactive : isActive outer = false)
include inactive

/-- Among dormant groups a clause brings nothing, and its mark is all that counts.  If the mark
can stand there, the groups that are open behind it are dormant again. -/
theorem exists_processClause_of_isDormant {inner : List Group}
    (dormant : ∀ group ∈ inner, group.isDormant = true) {clause : Clause} {flags : List Bool}
    (read : openAfter (inner.map Group.isLast) clause.mark?.toList = some flags) :
    ∃ left : List Group, left.map Group.isLast = flags ∧
      (∀ group ∈ left, group.isDormant = true) ∧
      processClause setup process? file (inner ++ outer) clause = pure (left ++ outer, []) := by
  have here := isActive_append_of_isDormant dormant inactive
  -- a clause without a mark leaves the groups as they are
  have unmarked : clause.mark? = none -> inner.map Group.isLast = flags := by
    intro none
    rw [none] at read
    exact Option.some.inj read
  match clause with
  | .text tokens =>
      refine ⟨inner, unmarked rfl, dormant, ?_⟩
      simp only [processClause, here, Bool.false_eq_true, if_false]
      rfl
  | .request line request =>
      match request with
      | .define tokens | .undefine tokens | .include tokens | .ignored =>
          refine ⟨inner, unmarked rfl, dormant, ?_⟩
          simp only [processClause, perform, here, Bool.false_eq_true, if_false]
      | .ifHolds condition | .ifDefined expected tokens =>
          refine ⟨.opened false false :: inner, Option.some.inj read, ?_, ?_⟩
          · exact List.forall_mem_cons.mpr ⟨rfl, dormant⟩
          · simp only [processClause, perform, here, Bool.false_eq_true, if_false]
            rfl
      | .elif condition =>
          match inner with
          | [] => cases read
          | group :: rest =>
              rcases List.forall_mem_cons.mp dormant with ⟨dormantGroup, dormantRest⟩
              rcases Group.of_isDormant dormantGroup with ⟨settled, dormantNext, _⟩
              cases last : group.isLast with
              | true =>
                  rw [List.map_cons, last] at read
                  cases read
              | false =>
                  rw [List.map_cons, last] at read
                  refine ⟨group.next false :: rest, ?_, ?_, ?_⟩
                  · rw [← Option.some.inj read, List.map_cons, Group.next, last]
                  · exact List.forall_mem_cons.mpr ⟨dormantNext, dormantRest⟩
                  · simp only [List.cons_append, processClause, perform, last, settled,
                      Bool.false_eq_true, if_false]
                    rfl
      | .otherwise =>
          match inner with
          | [] => cases read
          | group :: rest =>
              rcases List.forall_mem_cons.mp dormant with ⟨dormantGroup, dormantRest⟩
              cases last : group.isLast with
              | true =>
                  rw [List.map_cons, last] at read
                  cases read
              | false =>
                  rw [List.map_cons, last] at read
                  refine ⟨group.last :: rest, Option.some.inj read, ?_, ?_⟩
                  · exact List.forall_mem_cons.mpr
                      ⟨(Group.of_isDormant dormantGroup).2.2, dormantRest⟩
                  · simp only [List.cons_append, processClause, perform, last,
                      Bool.false_eq_true, if_false]
      | .endif =>
          match inner with
          | [] => cases read
          | group :: rest =>
              refine ⟨rest, ?_, (List.forall_mem_cons.mp dormant).2, rfl⟩
              cases last : group.isLast <;>
                · rw [List.map_cons, last] at read
                  exact Option.some.inj read

/-- Among dormant groups clauses bring nothing as long as their marks can stand there. -/
theorem exists_passClauses_of_isDormant {inner : List Group}
    (dormant : ∀ group ∈ inner, group.isDormant = true) {source : List Clause}
    {flags : List Bool} (read : openAfter (inner.map Group.isLast) (marks source) = some flags) :
    ∃ left : List Group, left.map Group.isLast = flags ∧
      passClauses setup process? file (inner ++ outer) source = pure (left ++ outer, []) := by
  induction source generalizing inner with
  | nil => exact ⟨inner, Option.some.inj read, rfl⟩
  | cons clause rest ih =>
      rw [marks_cons, openAfter_append, Option.bind_eq_some_iff] at read
      rcases read with ⟨middle, here, later⟩
      rcases exists_processClause_of_isDormant setup process? file inactive dormant here with
        ⟨next, rfl, dormantNext, processed⟩
      rcases ih dormantNext later with ⟨left, closed, passed⟩
      refine ⟨left, closed, ?_⟩
      rw [passClauses, processed, pure_bind, passed]
      exact pure_bind _ _

/-- In an inactive branch, clauses whose groups are closed bring nothing and leave the groups
around them as they are. -/
theorem passClauses_of_isActive_eq_false {source : List Clause}
    (nested : WellNested (marks source)) :
    passClauses setup process? file outer source = pure (outer, []) := by
  have none : ∀ group ∈ ([] : List Group), group.isDormant = true :=
    fun _ member => nomatch member
  rcases exists_passClauses_of_isDormant setup process? file inactive none
    ((wellNested_iff_openAfter _).mp nested) with ⟨left, closed, passed⟩
  cases List.map_eq_nil_iff.mp closed
  exact passed

theorem processClauses_append_of_isActive_eq_false {source : List Clause}
    (nested : WellNested (marks source)) (lastLine : Nat) (rest : List Clause) :
    processClauses setup process? file lastLine outer (source ++ rest) =
      processClauses setup process? file lastLine outer rest := by
  rw [processClauses_append, passClauses_of_isActive_eq_false setup process? file inactive nested,
    pure_bind]
  exact bind_pure _

end Skipping

/-! ## Places of branches -/

/-- A source with a place for the lines of a branch: the lines before, the directive that
begins the branch, the directive that ends it, and what follows. -/
structure BranchPlace where
  before : List Token
  beginning : List Token
  beginningLine : Nat
  beginningRequest : Request
  newline : Token
  ending : List Token
  endingLine : Nat
  endingRequest : Request
  behind : List Token
  before_ends : EndsWithNewline before
  beginning_heads : heading? beginning = some ⟨beginningLine, beginningRequest, []⟩
  newline_isNewline : newline.isNewline = true
  ending_heads : heading? ending = some ⟨endingLine, endingRequest, []⟩
  behind_begins : BeginsWithNewline behind

/-- Lines whose groups are closed. -/
structure IsBranch (branch : List Token) : Prop where
  whole : EndsWithNewline branch
  nested : WellNested (marks (clauses branch))

/-- A branch may have no lines. -/
theorem isBranch_nil : IsBranch [] := by
  refine ⟨(fun _ member => nomatch member), ?_⟩
  rw [clauses, clausesFrom]
  exact .empty

namespace BranchPlace

variable (place : BranchPlace)

/-- The source with the lines of a branch in their place. -/
def fill (branch : List Token) : List Token :=
  place.before ++ (place.beginning ++ (place.newline :: branch ++ (place.ending ++ place.behind)))

/-- The clauses up to the branch. -/
def earlier : List Clause :=
  clauses place.before ++ [.request place.beginningLine place.beginningRequest]

/-- The clauses behind the branch. -/
def later : List Clause :=
  .request place.endingLine place.endingRequest :: clauses place.behind

/-- The branch is not selected: behind the directive that begins it the groups are inactive,
unless the source is refused before. -/
def IsSkipped (setup : Setup) (process? : Option Process) (file : String) (state : State) : Prop :=
  ∀ done after, passClauses setup process? file [] place.earlier state = .ok done after ->
    isActive done.1 = false

theorem clauses_fill {branch : List Token} (whole : EndsWithNewline branch) :
    clauses (place.fill branch) =
      place.earlier ++ (clauses (place.newline :: branch) ++ place.later) := by
  have begins : BeginsWithNewline
      (place.newline :: branch ++ (place.ending ++ place.behind)) :=
    beginsWithNewline_cons.mpr place.newline_isNewline
  rw [fill, clauses_append_heading place.before_ends place.beginning_heads begins,
    clauses_append_heading (whole.cons place.newline_isNewline) place.ending_heads
      place.behind_begins, earlier, later]
  simp only [List.append_assoc, List.singleton_append]

/-- The line end behind the directive has no part in the structure of groups. -/
theorem wellNested_newline_cons {branch : List Token} (isBranch : IsBranch branch) :
    WellNested (marks (clauses (place.newline :: branch))) := by
  have nested := isBranch.nested
  rw [clauses_eq_collect_grains, marks_collect] at nested ⊢
  rw [grains_of_isNewline true branch place.newline_isNewline]
  exact nested

/-- Whatever the branch holds, its source ends in the same token. -/
theorem getLast?_fill (branch : List Token) :
    (place.fill branch).getLast? = (place.ending ++ place.behind).getLast? := by
  have nonempty : place.ending ++ place.behind ≠ [] := by
    intro empty
    have heads := place.ending_heads
    rw [(List.append_eq_nil_iff.mp empty).1] at heads
    cases heads
  rw [fill, List.getLast?_append_of_ne_nil, List.getLast?_append_of_ne_nil,
    List.getLast?_append_of_ne_nil _ nonempty]
  all_goals simp

variable {place}

/-- The source is processed as if there were nothing between the two directives. -/
theorem processFile_fill {setup : Setup} {process? : Option Process} {file : String}
    {state : State} (skipped : place.IsSkipped setup process? file state) {branch : List Token}
    (isBranch : IsBranch branch) :
    processFile setup process? file (place.fill branch) state =
      processClauses setup process? file
        (((place.ending ++ place.behind).getLast?.map Token.line).getD 1) []
        (place.earlier ++ place.later) state := by
  rw [processFile_eq_processClauses, place.clauses_fill isBranch.whole, place.getLast?_fill,
    processClauses_append, processClauses_append]
  refine bind_eq_bind rfl fun done after ran => ?_
  rw [processClauses_append_of_isActive_eq_false setup process? file (skipped done after ran)
    (place.wellNested_newline_cons isBranch)]

end BranchPlace

/-- The lines of a branch that is not selected do not count.  If they are replaced by any other
lines whose groups are closed, whatever these ask for, then processing the source at any depth
comes to the same tokens or the same refusal, and leaves the same macros and included files
behind. -/
theorem processNested_fill_eq {setup : Setup} {depth : Nat} {file : String} {state : State}
    (place : BranchPlace) {branch other : List Token}
    (skipped : place.IsSkipped setup (nestedProcess? setup depth) file state)
    (isBranch : IsBranch branch) (otherIsBranch : IsBranch other) :
    processNested setup depth file (place.fill branch) state =
      processNested setup depth file (place.fill other) state := by
  rw [processNested_eq_processFile, BranchPlace.processFile_fill skipped isBranch,
    BranchPlace.processFile_fill skipped otherIsBranch]

/-- The file system holds one file, which defines the macro that decides about a group. -/
def onlyDefiningFile : View := fun path =>
  if path = "b.h" then some (.file ["b.h"] (.bytes "#define A 0\n".toUTF8.toList)) else none

/-- A group behind the inclusion of that file.  Its first branch has no lines yet. -/
def unselectedPlace : BranchPlace where
  before := tokenize "#define A 1\n#include \"b.h\"\n"
  beginning := [⟨.punctuator, 3, "#"⟩, ⟨.identifier, 3, "if"⟩, ⟨.whitespace, 3, " "⟩,
    ⟨.identifier, 3, "A"⟩]
  beginningLine := 3
  beginningRequest := .ifHolds [⟨.whitespace, 3, " "⟩, ⟨.identifier, 3, "A"⟩]
  newline := ⟨.newline, 3, "\n"⟩
  ending := [⟨.punctuator, 5, "#"⟩, ⟨.identifier, 5, "else"⟩]
  endingLine := 5
  endingRequest := .otherwise
  behind := [⟨.newline, 5, "\n"⟩, ⟨.identifier, 6, "A"⟩, ⟨.newline, 6, "\n"⟩,
    ⟨.punctuator, 7, "#"⟩, ⟨.identifier, 7, "endif"⟩]
  before_ends := by decide +kernel
  beginning_heads := rfl
  newline_isNewline := rfl
  ending_heads := rfl
  behind_begins := by decide

/-- Lines that would change the macros, include a file, and be refused, were they selected. -/
def mischievousBranch : List Token :=
  tokenize "#define A 2\n#include <no\n#ifdef\n#elif 1/0\n#include \"b.h\"\n#endif\n#undef\n"

theorem processNested_fill_eq_mischievous :
    processNested ⟨onlyDefiningFile, []⟩ 1 "a.h" (unselectedPlace.fill mischievousBranch)
        (.initial .empty) =
      processNested ⟨onlyDefiningFile, []⟩ 1 "a.h" (unselectedPlace.fill []) (.initial .empty) ∧
      ((processNested ⟨onlyDefiningFile, []⟩ 1 "a.h"
          (unselectedPlace.fill mischievousBranch)).run' (.initial .empty)).map
            (List.map Token.lexeme) =
        some ["\n", "b.h", "\n", "", "\n", "\n", "0", "\n"] := by
  have passes : (match passClauses ⟨onlyDefiningFile, []⟩
        (nestedProcess? ⟨onlyDefiningFile, []⟩ 1) "a.h" [] unselectedPlace.earlier
        (.initial .empty) with
      | .ok done _ => !isActive done.1
      | .error _ _ => false) = true := by decide +kernel
  have skipped : unselectedPlace.IsSkipped ⟨onlyDefiningFile, []⟩
      (nestedProcess? ⟨onlyDefiningFile, []⟩ 1) "a.h" (.initial .empty) := by
    intro done after ran
    rw [ran] at passes
    exact (Bool.not_eq_true' _).mp passes
  have sequence : marks (clauses mischievousBranch) = [.opening, .elif, .closing] := by
    decide +kernel
  have nested : WellNested (marks (clauses mischievousBranch)) := by
    rw [sequence]
    exact .group .empty (.next .empty .close) .empty
  constructor
  · exact processNested_fill_eq unselectedPlace skipped ⟨by decide +kernel, nested⟩
      isBranch_nil
  · decide +kernel

end Preprocess
end ObjectWrapper
