import ObjectWrapper.Proofs.Preprocess.Clause

namespace ObjectWrapper
namespace Preprocess

open Source Directive

/-!
# Documents

A source text whose groups are nested well is a tree.  Its parts are texts,
definitions, directives without effect, and groups; the branches of a group hold
documents again.  What a document means is said by recursion on this tree alone:
of a group, the conditions are tried in order, the first branch whose condition
holds is read, and no other branch contributes anything, be it tokens, macros or
a refusal.

The main statement is that processing the clauses of a document, one after the
other with a stack of open groups, has this meaning.  It holds as an equation
between steps: the tokens, the macros left behind and the refusal agree from
every state.
-/

/-- What decides about the first branch of a group. -/
inductive Test where
  | holds (condition : List Token)
  | isDefined (expected : Bool) (tokens : List Token)
deriving DecidableEq, Repr

mutual

/-- A part of a document. -/
inductive Part where
  | text (tokens : List Token)
  | define (line : Nat) (tokens : List Token)
  | undefine (line : Nat) (tokens : List Token)
  | ignored (line : Nat)
  /-- A group with its first branch and the branches after it. -/
  | group (line : Nat) (test : Test) (body : Document) (others : Branches)

/-- The parts of a source text, or of one branch. -/
inductive Document where
  | empty
  | cons (part : Part) (rest : Document)

/-- The branches of a group after the first, with the lines of their directives. -/
inductive Branches where
  | close (line : Nat)
  | last (line : Nat) (body : Document) (closing : Nat)
  | next (line : Nat) (condition : List Token) (body : Document) (others : Branches)

end

/-! ## The clauses of a document -/

def Test.request : Test -> Request
  | .holds condition => .ifHolds condition
  | .isDefined expected tokens => .ifDefined expected tokens

mutual

def Part.clauses : Part -> List Clause
  | .text tokens => [.text tokens]
  | .define line tokens => [.request line (.define tokens)]
  | .undefine line tokens => [.request line (.undefine tokens)]
  | .ignored line => [.request line .ignored]
  | .group line test body others => .request line test.request :: (body.clauses ++ others.clauses)

def Document.clauses : Document -> List Clause
  | .empty => []
  | .cons part rest => part.clauses ++ rest.clauses

def Branches.clauses : Branches -> List Clause
  | .close line => [.request line .endif]
  | .last line body closing => .request line .otherwise :: (body.clauses ++ [.request closing .endif])
  | .next line condition body others =>
    .request line (.elif condition) :: (body.clauses ++ others.clauses)

end

/-! ## The meaning of a document -/

section Meaning

variable (file : String)

/-- Whether the first branch of a group is selected. -/
def Test.passes (line : Nat) : Test -> Step Bool
  | .holds condition => conditionHolds ⟨file, line⟩ condition
  | .isDefined expected tokens => nameHolds ⟨file, line⟩ expected tokens

mutual

/-- Read a part with the macros in force. -/
def Part.meaning : Part -> Step (List Token)
  | .text tokens => do
    let state <- get
    pure (Macro.expand state.macros tokens)
  | .define line tokens => do
    let named <- orRefuse ⟨file, line⟩ (namedDefinition tokens)
    modifyMacros (·.define named.1 named.2)
    pure []
  | .undefine line tokens => do
    let name <- requiredName ⟨file, line⟩ tokens
    modifyMacros (·.erase name)
    pure []
  | .ignored _ => pure []
  | .group line test body others => do
    let selected <- test.passes file line
    if selected then body.meaning else others.meaning

/-- Read the parts in order. -/
def Document.meaning : Document -> Step (List Token)
  | .empty => pure []
  | .cons part rest => do
    let first <- part.meaning
    let more <- rest.meaning
    pure (first ++ more)

/-- Read the first branch that is selected, given that none has been before. -/
def Branches.meaning : Branches -> Step (List Token)
  | .close _ => pure []
  | .last _ body _ => body.meaning
  | .next line condition body others => do
    let selected <- conditionHolds ⟨file, line⟩ condition
    if selected then body.meaning else others.meaning

end

end Meaning

/-! ## Directives of groups -/

section Agreement

variable (setup : Setup) (process? : Option Process) (file : String) (lastLine : Nat)

/-- A clause that only chooses among groups is followed by the rest inside the
groups it chooses. -/
theorem processClauses_cons_of_bind {α : Type} {groups : List Group} {clause : Clause}
    (choice : Step α) (chosen : α -> List Group)
    (chooses : processClause setup process? file groups clause =
      choice >>= fun outcome => pure (chosen outcome, []))
    (rest : List Clause) :
    processClauses setup process? file lastLine groups (clause :: rest) =
      choice >>= fun outcome =>
        processClauses setup process? file lastLine (chosen outcome) rest := by
  rw [processClauses, chooses, bind_assoc]
  apply congrArg (choice >>= ·)
  funext outcome
  rw [pure_bind]
  exact bind_pure _

theorem processClauses_cons_of_pure {groups chosen : List Group} {clause : Clause}
    (chooses : processClause setup process? file groups clause = pure (chosen, []))
    (rest : List Clause) :
    processClauses setup process? file lastLine groups (clause :: rest) =
      processClauses setup process? file lastLine chosen rest :=
  processClauses_cons_of_bind setup process? file lastLine (pure ()) (fun _ => chosen) chooses rest

/-- A group is opened with the outcome of its test, or without one where it lies
in an inactive branch. -/
theorem processClauses_test (line : Nat) (groups : List Group) (test : Test)
    (rest : List Clause) :
    processClauses setup process? file lastLine groups (.request line test.request :: rest) =
      (if isActive groups then test.passes file line else pure false) >>= fun selected =>
        processClauses setup process? file lastLine
          (.opened (isActive groups) selected :: groups) rest := by
  refine processClauses_cons_of_bind setup process? file lastLine _
    (fun selected => .opened (isActive groups) selected :: groups) ?_ rest
  cases test with
  | holds condition =>
      simp only [processClause, Test.request, perform]
      cases isActive groups <;> rfl
  | isDefined expected tokens =>
      simp only [processClause, Test.request, perform]
      cases isActive groups <;> rfl

theorem processClauses_elif (line : Nat) (group : Group) (outer : List Group)
    (condition : List Token) (rest : List Clause) (notLast : group.isLast = false) :
    processClauses setup process? file lastLine (group :: outer)
        (.request line (.elif condition) :: rest) =
      (if group.needsCondition then conditionHolds ⟨file, line⟩ condition else pure false) >>=
        fun selected =>
          processClauses setup process? file lastLine (group.next selected :: outer) rest := by
  refine processClauses_cons_of_bind setup process? file lastLine _
    (fun selected => group.next selected :: outer) ?_ rest
  rw [processClause, perform, notLast, if_neg Bool.false_ne_true]
  cases group.needsCondition <;> rfl

theorem processClauses_otherwise (line : Nat) (group : Group) (outer : List Group)
    (rest : List Clause) (notLast : group.isLast = false) :
    processClauses setup process? file lastLine (group :: outer)
        (.request line .otherwise :: rest) =
      processClauses setup process? file lastLine (group.last :: outer) rest := by
  refine processClauses_cons_of_pure setup process? file lastLine ?_ rest
  rw [processClause, perform, notLast]
  rfl

theorem processClauses_endif (line : Nat) (group : Group) (outer : List Group)
    (rest : List Clause) :
    processClauses setup process? file lastLine (group :: outer) (.request line .endif :: rest) =
      processClauses setup process? file lastLine outer rest :=
  processClauses_cons_of_pure setup process? file lastLine rfl rest

/-! ## Inactive branches -/

mutual

/-- Inside an inactive branch a part leaves no trace. -/
theorem processClauses_part_of_inactive (part : Part) (groups : List Group)
    (more : List Clause) (inactive : isActive groups = false) :
    processClauses setup process? file lastLine groups (part.clauses ++ more) =
      processClauses setup process? file lastLine groups more := by
  match part with
  | .text tokens =>
      refine processClauses_cons_of_pure setup process? file lastLine ?_ more
      simp only [processClause, inactive, Bool.false_eq_true, if_false]
      rfl
  | .define line tokens | .undefine line tokens | .ignored line =>
      refine processClauses_cons_of_pure setup process? file lastLine ?_ more
      simp only [processClause, perform, inactive, Bool.false_eq_true, if_false]
  | .group line test body others =>
      rw [Part.clauses, List.cons_append, List.append_assoc, processClauses_test, inactive]
      refine (pure_bind false _).trans ?_
      rw [processClauses_document_of_inactive body (.opened false false :: groups) _ rfl,
        processClauses_branches_of_settled others (.opened false false) groups more rfl rfl]

theorem processClauses_document_of_inactive (document : Document) (groups : List Group)
    (more : List Clause) (inactive : isActive groups = false) :
    processClauses setup process? file lastLine groups (document.clauses ++ more) =
      processClauses setup process? file lastLine groups more := by
  match document with
  | .empty => rfl
  | .cons part rest =>
      rw [Document.clauses, List.append_assoc,
        processClauses_part_of_inactive part groups _ inactive,
        processClauses_document_of_inactive rest groups more inactive]

/-- Branches are skipped once a branch has been taken, and inside an inactive
branch. -/
theorem processClauses_branches_of_settled (branches : Branches) (group : Group)
    (outer : List Group) (more : List Clause) (notLast : group.isLast = false)
    (settled : group.needsCondition = false) :
    processClauses setup process? file lastLine (group :: outer) (branches.clauses ++ more) =
      processClauses setup process? file lastLine outer more := by
  match branches with
  | .close line => exact processClauses_endif setup process? file lastLine line group outer more
  | .last line body closing =>
      rw [Branches.clauses, List.cons_append, List.append_assoc,
        processClauses_otherwise _ _ _ _ _ _ _ _ notLast,
        processClauses_document_of_inactive body (group.last :: outer) _ settled]
      exact processClauses_endif setup process? file lastLine closing group.last outer more
  | .next line condition body others =>
      rw [Branches.clauses, List.cons_append, List.append_assoc,
        processClauses_elif _ _ _ _ _ _ _ _ _ notLast, settled]
      refine (pure_bind false _).trans ?_
      rw [processClauses_document_of_inactive body (group.next false :: outer) _ rfl,
        processClauses_branches_of_settled others (group.next false) outer more notLast
          (by simpa [Group.needsCondition, Group.next] using settled)]

end

/-! ## Active branches -/

mutual

theorem processClauses_part_of_active (part : Part) (groups : List Group)
    (more : List Clause) (active : isActive groups = true) :
    processClauses setup process? file lastLine groups (part.clauses ++ more) =
      (do
        let brought <- part.meaning file
        let rest <- processClauses setup process? file lastLine groups more
        pure (brought ++ rest)) := by
  match part with
  | .text tokens =>
      simp [Part.clauses, Part.meaning, processClauses, processClause, active]
  | .define line tokens =>
      simp [Part.clauses, Part.meaning, processClauses, processClause, perform, obey, active]
  | .undefine line tokens =>
      simp [Part.clauses, Part.meaning, processClauses, processClause, perform, obey, active]
  | .ignored line =>
      simp [Part.clauses, Part.meaning, processClauses, processClause, perform, obey, active]
  | .group line test body others =>
      rw [Part.clauses, List.cons_append, List.append_assoc, processClauses_test, active,
        if_pos rfl, Part.meaning, bind_assoc]
      apply congrArg (test.passes file line >>= ·)
      funext selected
      cases selected with
      | true =>
          rw [processClauses_document_of_active body (.opened true true :: groups) _ rfl,
            processClauses_branches_of_settled _ _ _ _ others _ groups more rfl rfl]
          rfl
      | false =>
          rw [processClauses_document_of_inactive _ _ _ _ body (.opened true false :: groups) _ rfl,
            processClauses_branches_of_open others (.opened true false) groups more rfl rfl]
          rfl

/-- Inside an active branch a document is read as it is meant. -/
theorem processClauses_document_of_active (document : Document) (groups : List Group)
    (more : List Clause) (active : isActive groups = true) :
    processClauses setup process? file lastLine groups (document.clauses ++ more) =
      (do
        let brought <- document.meaning file
        let rest <- processClauses setup process? file lastLine groups more
        pure (brought ++ rest)) := by
  match document with
  | .empty => simp [Document.clauses, Document.meaning]
  | .cons part rest =>
      rw [Document.clauses, List.append_assoc,
        processClauses_part_of_active part groups _ active,
        processClauses_document_of_active rest groups more active]
      simp only [Document.meaning, bind_assoc, pure_bind, List.append_assoc]

/-- While no branch has been taken, the next one is still to be found. -/
theorem processClauses_branches_of_open (branches : Branches) (group : Group)
    (outer : List Group) (more : List Clause) (notLast : group.isLast = false)
    (isOpen : group.needsCondition = true) :
    processClauses setup process? file lastLine (group :: outer) (branches.clauses ++ more) =
      (do
        let brought <- branches.meaning file
        let rest <- processClauses setup process? file lastLine outer more
        pure (brought ++ rest)) := by
  match branches with
  | .close line =>
      rw [Branches.clauses, List.singleton_append, processClauses_endif]
      simp [Branches.meaning]
  | .last line body closing =>
      rw [Branches.clauses, List.cons_append, List.append_assoc,
        processClauses_otherwise _ _ _ _ _ _ _ _ notLast,
        processClauses_document_of_active body (group.last :: outer) _ isOpen,
        List.singleton_append, processClauses_endif]
      rfl
  | .next line condition body others =>
      rw [Branches.clauses, List.cons_append, List.append_assoc,
        processClauses_elif _ _ _ _ _ _ _ _ _ notLast, isOpen, if_pos rfl, Branches.meaning,
        bind_assoc]
      apply congrArg (conditionHolds ⟨file, line⟩ condition >>= ·)
      funext selected
      cases selected with
      | true =>
          rw [processClauses_document_of_active body (group.next true :: outer) _ rfl,
            processClauses_branches_of_settled _ _ _ _ others (group.next true) outer more notLast
              (by simp [Group.needsCondition, Group.next])]
          rfl
      | false =>
          rw [processClauses_document_of_inactive _ _ _ _ body (group.next false :: outer) _ rfl,
            processClauses_branches_of_open others (group.next false) outer more notLast
              (by simpa [Group.needsCondition, Group.next] using isOpen)]
          rfl

end

/-- The clauses of a whole document are processed as it is meant. -/
theorem processClauses_document (document : Document) :
    processClauses setup process? file lastLine [] document.clauses = document.meaning file := by
  have whole := processClauses_document_of_active setup process? file lastLine document [] [] rfl
  simpa [processClauses] using whole

end Agreement

end Preprocess
end ObjectWrapper
