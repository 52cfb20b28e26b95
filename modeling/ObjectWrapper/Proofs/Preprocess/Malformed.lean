import Mathlib.Data.List.Induction
import ObjectWrapper.Proofs.Preprocess.Faults
import ObjectWrapper.Proofs.Preprocess.Nesting
import ObjectWrapper.Proofs.Preprocess.Steps

namespace ObjectWrapper
namespace Preprocess

open Source Directive

/-!
# Malformed groups

The structure of groups can be wrong in three ways: a directive that goes on with a group
or ends it stands where no group is open, a further branch follows the one without a
condition, or a group is still open at the end.  These are the ways in which a sequence of
directives fails to derive from the grammar, and each is told from the grammar alone: what
lies between a directive and the group it belongs to is well nested.

Processing keeps no more of this than, for each open group, whether its last branch has
begun.  The main statement is that this is enough.  Of a text that includes nothing and is
not refused for another reason, processing is refused exactly if its groups are malformed.
Skipped directives count like all others, although no condition of theirs is evaluated.
-/

/-! ## Open groups -/

/-- The open groups after a mark, from the innermost outwards, each given by whether its
branch without a condition has begun. -/
def Mark.step : List Bool -> Mark -> Option (List Bool)
  | groups, .opening => some (false :: groups)
  | false :: outer, .elif => some (false :: outer)
  | false :: outer, .otherwise => some (true :: outer)
  | _ :: outer, .closing => some outer
  | _, _ => none

/-- The open groups after a sequence of marks, if each of them can stand where it does. -/
def openAfter (groups : List Bool) (sequence : List Mark) : Option (List Bool) :=
  sequence.foldlM Mark.step groups

@[simp]
theorem openAfter_nil (groups : List Bool) : openAfter groups [] = some groups :=
  rfl

@[simp]
theorem openAfter_cons (groups : List Bool) (mark : Mark) (rest : List Mark) :
    openAfter groups (mark :: rest) =
      (Mark.step groups mark).bind fun next => openAfter next rest :=
  List.foldlM_cons ..

@[simp]
theorem openAfter_append (groups : List Bool) (first rest : List Mark) :
    openAfter groups (first ++ rest) =
      (openAfter groups first).bind fun next => openAfter next rest :=
  List.foldlM_append ..

mutual

/-- Whole groups leave the open ones as they are. -/
theorem WellNested.openAfter_eq {sequence : List Mark} (nested : WellNested sequence)
    (groups : List Bool) : openAfter groups sequence = some groups := by
  match nested with
  | .empty => rfl
  | .group bodyNested othersContinue moreNested =>
      simp only [List.cons_append, openAfter_cons, openAfter_append, Mark.step, Option.bind_some,
        bodyNested.openAfter_eq, othersContinue.openAfter_eq, moreNested.openAfter_eq]

/-- What follows the first branch of a group closes it. -/
theorem Continues.openAfter_eq {sequence : List Mark} (continued : Continues sequence)
    (groups : List Bool) : openAfter (false :: groups) sequence = some groups := by
  match continued with
  | .close => rfl
  | .last bodyNested =>
      simp only [List.cons_append, openAfter_cons, openAfter_append, Mark.step, Option.bind_some,
        bodyNested.openAfter_eq, openAfter_nil]
  | .next bodyNested othersContinue =>
      simp only [List.cons_append, openAfter_cons, openAfter_append, Mark.step, Option.bind_some,
        bodyNested.openAfter_eq, othersContinue.openAfter_eq]

end

/-! ## Groups that have begun -/

theorem WellNested.append {first second : List Mark} (firstNested : WellNested first)
    (secondNested : WellNested second) : WellNested (first ++ second) := by
  match firstNested with
  | .empty => exact secondNested
  | .group bodyNested othersContinue moreNested =>
      rw [List.append_assoc]
      exact .group bodyNested othersContinue (moreNested.append secondNested)

/-- What stands in a group behind its opening, up to some point inside it, and whether its
branch without a condition has begun there. -/
inductive Inside : Bool -> List Mark -> Prop where
  | first {body : List Mark} : WellNested body -> Inside false body
  | next {before body : List Mark} : Inside false before -> WellNested body ->
      Inside false (before ++ .elif :: body)
  | last {before body : List Mark} : Inside false before -> WellNested body ->
      Inside true (before ++ .otherwise :: body)

/-- The sequence leaves groups open. -/
inductive LeavesOpen : List Bool -> List Mark -> Prop where
  | none {sequence : List Mark} : WellNested sequence -> LeavesOpen [] sequence
  | group {groups : List Bool} {before inside : List Mark} {last : Bool} :
      LeavesOpen groups before -> Inside last inside ->
      LeavesOpen (last :: groups) (before ++ .opening :: inside)

theorem Inside.append {last : Bool} {inside more : List Mark} (stands : Inside last inside)
    (nested : WellNested more) : Inside last (inside ++ more) := by
  cases stands with
  | first bodyNested => exact .first (bodyNested.append nested)
  | next before bodyNested =>
      rw [List.append_assoc, List.cons_append]
      exact .next before (bodyNested.append nested)
  | last before bodyNested =>
      rw [List.append_assoc, List.cons_append]
      exact .last before (bodyNested.append nested)

theorem LeavesOpen.append {groups : List Bool} {sequence more : List Mark}
    (leaves : LeavesOpen groups sequence) (nested : WellNested more) :
    LeavesOpen groups (sequence ++ more) := by
  cases leaves with
  | none whole => exact .none (whole.append nested)
  | group before stands =>
      rw [List.append_assoc, List.cons_append]
      exact .group before (stands.append nested)

/-- Before the branch without a condition, a group can go on in any way. -/
theorem Inside.wellNested_append {inside others : List Mark} (stands : Inside false inside)
    (continued : Continues others) : WellNested (.opening :: (inside ++ others)) := by
  generalize begun : false = last at stands
  induction stands generalizing others with
  | first bodyNested =>
      have whole := WellNested.group bodyNested continued .empty
      rwa [List.append_nil] at whole
  | next _ bodyNested ih =>
      rw [List.append_assoc, List.cons_append]
      exact ih (.next bodyNested continued) rfl
  | last => cases begun

/-- A group can be closed at any point inside it. -/
theorem Inside.wellNested_closed {last : Bool} {inside : List Mark}
    (stands : Inside last inside) : WellNested (.opening :: (inside ++ [.closing])) := by
  cases stands with
  | first bodyNested => exact (Inside.first bodyNested).wellNested_append .close
  | next before bodyNested => exact (before.next bodyNested).wellNested_append .close
  | last before bodyNested =>
      rw [List.append_assoc, List.cons_append]
      exact before.wellNested_append (.last bodyNested)

/-- Each mark that can stand where it does keeps account of the open groups. -/
theorem LeavesOpen.step {groups next : List Bool} {sequence : List Mark} {mark : Mark}
    (leaves : LeavesOpen groups sequence) (stepped : Mark.step groups mark = some next) :
    LeavesOpen next (sequence ++ [mark]) := by
  cases mark with
  | opening =>
      cases stepped
      exact .group leaves (.first .empty)
  | elif =>
      cases leaves with
      | none => cases stepped
      | @group outer before inside last leaves stands =>
          cases last with
          | true => cases stepped
          | false =>
              cases stepped
              rw [List.append_assoc, List.cons_append]
              exact .group leaves (.next stands .empty)
  | otherwise =>
      cases leaves with
      | none => cases stepped
      | @group outer before inside last leaves stands =>
          cases last with
          | true => cases stepped
          | false =>
              cases stepped
              rw [List.append_assoc, List.cons_append]
              exact .group leaves (.last stands .empty)
  | closing =>
      cases leaves with
      | none => cases stepped
      | group leaves stands =>
          cases stepped
          rw [List.append_assoc, List.cons_append]
          exact leaves.append stands.wellNested_closed

/-- The account of the open groups is right. -/
theorem leavesOpen_of_openAfter {groups : List Bool} {sequence : List Mark}
    (read : openAfter [] sequence = some groups) : LeavesOpen groups sequence := by
  induction sequence using List.reverseRecOn generalizing groups with
  | nil =>
      cases read
      exact .none .empty
  | append_singleton before mark ih =>
      rw [openAfter_append, Option.bind_eq_some_iff] at read
      rcases read with ⟨middle, readBefore, stepped⟩
      rw [openAfter_cons, Option.bind_eq_some_iff] at stepped
      rcases stepped with ⟨next, stepped, rest⟩
      cases rest
      exact (ih readBefore).step stepped

theorem wellNested_iff_openAfter (sequence : List Mark) :
    WellNested sequence ↔ openAfter [] sequence = some [] := by
  constructor
  · exact fun nested => nested.openAfter_eq []
  · intro read
    cases leavesOpen_of_openAfter read with
    | none nested => exact nested

/-! ## Malformations -/

/-- Some directive that goes on with a group or ends it stands where no group is open. -/
def HasStray (sequence : List Mark) : Prop :=
  ∃ before mark after, sequence = before ++ mark :: after ∧ WellNested before ∧ mark ≠ .opening

/-- Some group goes on after its branch without a condition. -/
def GoesOnAfterLast (sequence : List Mark) : Prop :=
  ∃ before body mark after, sequence = before ++ .otherwise :: (body ++ mark :: after) ∧
    WellNested body ∧ (mark = .elif ∨ mark = .otherwise)

/-- Some group is still open at the end. -/
def EndsInside (sequence : List Mark) : Prop :=
  ∃ before inside last, sequence = before ++ .opening :: inside ∧ Inside last inside

/-- Inside a group, the groups around it stay as they are. -/
theorem Inside.openAfter_eq {last : Bool} {inside : List Mark} (stands : Inside last inside)
    (groups : List Bool) : openAfter (false :: groups) inside = some (last :: groups) := by
  induction stands with
  | first bodyNested => exact bodyNested.openAfter_eq _
  | next _ bodyNested ih | last _ bodyNested ih =>
      rw [openAfter_append, ih, Option.bind_some, openAfter_cons]
      exact bodyNested.openAfter_eq _

theorem HasStray.openAfter_eq {sequence : List Mark} (stray : HasStray sequence) :
    openAfter [] sequence = none := by
  rcases stray with ⟨before, mark, after, rfl, nested, notOpening⟩
  rw [openAfter_append, nested.openAfter_eq, Option.bind_some, openAfter_cons]
  cases mark with
  | opening => exact absurd rfl notOpening
  | elif | otherwise | closing => rfl

theorem GoesOnAfterLast.openAfter_eq {sequence : List Mark}
    (goesOn : GoesOnAfterLast sequence) : openAfter [] sequence = none := by
  rcases goesOn with ⟨before, body, mark, after, rfl, nested, going⟩
  have stuck : ∀ outer, openAfter (true :: outer) (body ++ mark :: after) = none := by
    intro outer
    rw [openAfter_append, nested.openAfter_eq, Option.bind_some, openAfter_cons]
    rcases going with rfl | rfl <;> rfl
  rw [openAfter_append, Option.bind_eq_none_iff]
  intro groups _
  match groups with
  | [] | true :: _ => rfl
  | false :: outer => exact stuck outer

theorem EndsInside.openAfter_ne {sequence : List Mark} (ends : EndsInside sequence) :
    openAfter [] sequence ≠ some [] := by
  rcases ends with ⟨before, inside, last, rfl, stands⟩
  rw [openAfter_append]
  cases openAfter [] before with
  | none => simp
  | some groups =>
      rw [Option.bind_some, openAfter_cons, Mark.step, Option.bind_some, stands.openAfter_eq]
      simp

/-- What cannot be read has a first mark that cannot stand where it does. -/
theorem exists_of_openAfter_eq_none {groups : List Bool} {sequence : List Mark}
    (stuck : openAfter groups sequence = none) :
    ∃ before mark after reached, sequence = before ++ mark :: after ∧
      openAfter groups before = some reached ∧ Mark.step reached mark = none := by
  induction sequence generalizing groups with
  | nil => cases stuck
  | cons mark rest ih =>
      cases stepped : Mark.step groups mark with
      | none => exact ⟨[], mark, rest, groups, rfl, rfl, stepped⟩
      | some next =>
          rw [openAfter_cons, stepped, Option.bind_some] at stuck
          rcases ih stuck with ⟨before, later, after, reached, rfl, read, blocked⟩
          refine ⟨mark :: before, later, after, reached, rfl, ?_, blocked⟩
          rw [openAfter_cons, stepped, Option.bind_some, read]

theorem hasStray_or_goesOnAfterLast_of_openAfter {sequence : List Mark}
    (stuck : openAfter [] sequence = none) : HasStray sequence ∨ GoesOnAfterLast sequence := by
  rcases exists_of_openAfter_eq_none stuck with
    ⟨before, mark, after, groups, rfl, read, blocked⟩
  have notOpening : mark ≠ .opening := by
    rintro rfl
    cases blocked
  cases leavesOpen_of_openAfter read with
  | none nested => exact .inl ⟨before, mark, after, rfl, nested, notOpening⟩
  | @group outer around inside last leaves stands =>
      -- the innermost group refuses the mark, so its branch without a condition has begun
      cases stands with
      | first | next => cases mark <;> cases blocked
      | @last earlier body stands nested =>
          refine .inr ⟨around ++ .opening :: earlier, body, mark, after, by simp, nested, ?_⟩
          cases mark with
          | opening | closing => cases blocked
          | elif => exact .inl rfl
          | otherwise => exact .inr rfl

/-- Whatever does not derive from the grammar is malformed in one of three ways. -/
theorem not_wellNested_iff (sequence : List Mark) :
    ¬ WellNested sequence ↔
      HasStray sequence ∨ GoesOnAfterLast sequence ∨ EndsInside sequence := by
  rw [wellNested_iff_openAfter]
  constructor
  · intro malformed
    cases read : openAfter [] sequence with
    | none => exact (hasStray_or_goesOnAfterLast_of_openAfter read).imp_right .inl
    | some groups =>
        cases leavesOpen_of_openAfter read with
        | none => exact absurd read malformed
        | group leaves stands => exact .inr (.inr ⟨_, _, _, rfl, stands⟩)
  · rintro (stray | goesOn | ends) nested
    · cases stray.openAfter_eq.symm.trans nested
    · cases goesOn.openAfter_eq.symm.trans nested
    · exact ends.openAfter_ne nested

/-! ## Refusals -/

/-- The fault lies in the structure of groups. -/
def concernsGroups : Fault -> Bool
  | .elifWithoutIf | .elifAfterElse | .elseWithoutIf | .elseAfterElse | .endifWithoutIf
  | .unterminated => true
  | .condition _ | .nameMissing | .parametersNotClosed | .unexpectedParameter _
  | .invalidInclude | .includesTooDeep | .unreadable _ => false

theorem concernsGroups_of_liesInTokens {fault : Fault} (inTokens : liesInTokens fault = true) :
    concernsGroups fault = false := by
  cases fault <;> first | rfl | cases inTokens

section Steps

variable {setup : Setup} {process? : Option Process} {place : Place} {state : State}

/-- If the step is refused, then for a fault that does not lie in the structure of
groups. -/
def AsksOnly {α : Type} (step : Step α) : Prop :=
  ∀ state, Meets step state (fun _ _ => True)
    (fun refusal _ => concernsGroups refusal.fault = false)

theorem ReadsTokens.asksOnly {α : Type} {step : Step α} (reads : ReadsTokens step) :
    AsksOnly step :=
  fun state => (reads state).mono (fun _ _ _ => trivial)
    fun _ _ inTokens => concernsGroups_of_liesInTokens inTokens

/-- A step that asks a question, and may choose groups by the answer, reads its mark. -/
theorem AsksOnly.meets {α : Type} {step : Step α} (asks : AsksOnly step) {flags : List Bool}
    {mark? : Option Mark} {chosen : α -> List Group × List Token}
    (reads : ∀ answer,
      openAfter flags mark?.toList = some ((chosen answer).1.map Group.isLast)) :
    Meets (step >>= fun answer => pure (chosen answer)) state
      (fun done _ => openAfter flags mark?.toList = some (done.1.map Group.isLast))
      (fun refusal _ => concernsGroups refusal.fault = true ->
        openAfter flags mark?.toList = none) := by
  rw [meets_bind]
  apply (asks state).mono
  · exact fun answer _ _ => reads answer
  · intro refusal _ other concerns
    rw [other] at concerns
    cases concerns

/-- Performing a directive reads its mark.  It is refused for the structure of groups just
where the mark cannot stand. -/
theorem meets_perform_openAfter (groups : List Group) (directive : Request)
    (plain : ∀ tokens, directive ≠ .include tokens) :
    Meets (perform setup process? place groups directive) state
      (fun done _ => openAfter (groups.map Group.isLast) (markOf directive).toList =
        some (done.1.map Group.isLast))
      (fun refusal _ => concernsGroups refusal.fault = true ->
        openAfter (groups.map Group.isLast) (markOf directive).toList = none) := by
  match directive, groups with
  | .ifHolds condition, groups =>
      unfold perform
      cases isActive groups with
      | true => exact (readsTokens_conditionHolds place condition).asksOnly.meets fun _ => rfl
      | false => exact rfl
  | .ifDefined expected tokens, groups =>
      unfold perform
      cases isActive groups with
      | true => exact (readsTokens_nameHolds place expected tokens).asksOnly.meets fun _ => rfl
      | false => exact rfl
  | .elif _, [] | .otherwise, [] | .endif, [] => exact fun _ => rfl
  | .elif condition, group :: outer =>
      unfold perform
      simp only [List.map_cons]
      cases last : group.isLast with
      | true => exact fun _ => rfl
      | false =>
          have reads : ∀ holds, openAfter (false :: outer.map Group.isLast)
              (markOf (.elif condition)).toList =
              some ((group.next holds :: outer).map Group.isLast) := by
            intro holds
            rw [List.map_cons, Group.next, last]
            rfl
          simp only [Bool.false_eq_true, if_false]
          split
          · exact (readsTokens_conditionHolds place condition).asksOnly.meets reads
          · exact reads false
  | .otherwise, group :: outer =>
      unfold perform
      simp only [List.map_cons]
      cases group.isLast with
      | true => exact fun _ => rfl
      | false => exact rfl
  | .endif, _ :: _ => exact rfl
  | .define _, groups | .undefine _, groups | .ignored, groups =>
      unfold perform
      cases isActive groups with
      | true => exact (readsTokens_obey _ plain).asksOnly.meets fun _ => rfl
      | false => exact rfl
  | .include tokens, _ => exact absurd rfl (plain tokens)

theorem meets_processClause_openAfter (file : String) (groups : List Group) (clause : Clause)
    (plain : clause.isInclude = false) :
    Meets (processClause setup process? file groups clause) state
      (fun done _ => openAfter (groups.map Group.isLast) clause.mark?.toList =
        some (done.1.map Group.isLast))
      (fun refusal _ => concernsGroups refusal.fault = true ->
        openAfter (groups.map Group.isLast) clause.mark?.toList = none) := by
  cases clause with
  | text tokens => exact rfl
  | request line request =>
      refine meets_perform_openAfter groups request ?_
      rintro tokens rfl
      cases plain

/-- A run that ends has read the marks of its clauses and closed every group; one that is
refused for the structure of groups has not. -/
theorem meets_processClauses_openAfter (file : String) (lastLine : Nat) (groups : List Group)
    (source : List Clause) (plain : Plain source) :
    Meets (processClauses setup process? file lastLine groups source) state
      (fun _ _ => openAfter (groups.map Group.isLast) (marks source) = some [])
      (fun refusal _ => concernsGroups refusal.fault = true ->
        openAfter (groups.map Group.isLast) (marks source) ≠ some []) := by
  induction source generalizing groups state with
  | nil =>
      unfold processClauses
      cases groups with
      | nil => rfl
      | cons group outer =>
          intro _
          simp [marks]
  | cons clause rest ih =>
      rcases plain_cons.mp plain with ⟨clausePlain, restPlain⟩
      unfold processClauses
      rw [meets_bind, marks_cons]
      apply (meets_processClause_openAfter file groups clause clausePlain).mono
      · intro done middle read
        rw [meets_bind, openAfter_append, read, Option.bind_some]
        exact ih done.1 restPlain
      · intro refusal after stuck concerns
        rw [openAfter_append, stuck concerns, Option.bind_none]
        exact (Option.some_ne_none _).symm

end Steps

/-! ## Malformed sources -/

/-- A source that includes nothing, and is not refused for anything but the structure of
its groups, is refused exactly if that structure does not derive from the grammar: if a
directive has no group to go on with or to end, a group goes on after its branch without a
condition, or a group is open at the end.  All directives count, also those that are
skipped. -/
theorem preprocess_refused_iff_malformed (setup : Setup) (file : String) (bytes : List UInt8)
    (state : State) (plain : Plain (sourceClauses bytes))
    (undisturbed : ∀ refusal after, preprocess setup file bytes state = .error refusal after ->
      concernsGroups refusal.fault = true) :
    ((∃ refusal after, preprocess setup file bytes state = .error refusal after) ↔
        ¬ WellNested (marks (sourceClauses bytes))) ∧
      (¬ WellNested (marks (sourceClauses bytes)) ↔
        HasStray (marks (sourceClauses bytes)) ∨ GoesOnAfterLast (marks (sourceClauses bytes)) ∨
          EndsInside (marks (sourceClauses bytes))) := by
  refine ⟨?_, not_wellNested_iff _⟩
  have reads : Meets (preprocess setup file bytes) state
      (fun _ _ => openAfter [] (marks (sourceClauses bytes)) = some [])
      (fun refusal _ => concernsGroups refusal.fault = true ->
        openAfter [] (marks (sourceClauses bytes)) ≠ some []) := by
    have processed : preprocess setup file bytes =
        processFile setup (some (processNested setup 63)) file
          (tokenize (ByteText.ofBytes bytes)) := rfl
    rw [processed, processFile_eq_processClauses]
    exact meets_processClauses_openAfter file _ [] (sourceClauses bytes) plain
  rw [Meets] at reads
  rw [wellNested_iff_openAfter]
  cases ran : preprocess setup file bytes state with
  | ok tokens after =>
      rw [ran] at reads
      refine ⟨?_, fun malformed => absurd reads malformed⟩
      rintro ⟨_, _, refused⟩
      cases refused
  | error refusal after =>
      rw [ran] at reads
      exact ⟨fun _ => reads (undisturbed refusal after ran), fun _ => ⟨refusal, after, rfl⟩⟩

/-- A branch with a condition after one without, in a branch that is skipped.  The
condition would divide by zero. -/
def skippedMalformed : List UInt8 :=
  "#if 0\n#ifdef\n#else\n#elif 1/0\n#endif\n#endif\n".toUTF8.toList

theorem preprocess_refused_iff_malformed_skipped :
    Plain (sourceClauses skippedMalformed) ∧
      (∀ refusal after,
        preprocess ⟨fun _ => none, []⟩ "a.h" skippedMalformed (.initial .empty) =
          .error refusal after -> concernsGroups refusal.fault = true) ∧
      GoesOnAfterLast (marks (sourceClauses skippedMalformed)) ∧
      ∃ refusal after,
        preprocess ⟨fun _ => none, []⟩ "a.h" skippedMalformed (.initial .empty) =
          .error refusal after := by
  have plain : Plain (sourceClauses skippedMalformed) := by decide +kernel
  have sequence : marks (sourceClauses skippedMalformed) =
      [.opening, .opening, .otherwise, .elif, .closing, .closing] := by decide +kernel
  have outcome :
      (match preprocess ⟨fun _ => none, []⟩ "a.h" skippedMalformed (.initial .empty) with
        | .ok _ _ => none
        | .error refusal _ => some refusal) = some ⟨"a.h", 4, .elifAfterElse⟩ := by
    decide +kernel
  have undisturbed : ∀ refusal after,
      preprocess ⟨fun _ => none, []⟩ "a.h" skippedMalformed (.initial .empty) =
        .error refusal after -> concernsGroups refusal.fault = true := by
    intro refusal after ran
    rw [ran] at outcome
    cases outcome
    rfl
  have goesOn : GoesOnAfterLast (marks (sourceClauses skippedMalformed)) := by
    rw [sequence]
    exact ⟨[.opening, .opening], [], .elif, [.closing, .closing], rfl, .empty, .inl rfl⟩
  have agrees := preprocess_refused_iff_malformed ⟨fun _ => none, []⟩ "a.h" skippedMalformed
    (.initial .empty) plain undisturbed
  exact ⟨plain, undisturbed, goesOn, agrees.1.mpr (agrees.2.mpr (.inr (.inl goesOn)))⟩

end Preprocess
end ObjectWrapper
