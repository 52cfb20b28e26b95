import ObjectWrapper.Proofs.Preprocess.Document

namespace ObjectWrapper
namespace Preprocess

open Source Directive

/-!
# Nesting of groups

Which directives of a source text open, continue and close groups does not depend
on the macros in force.  Their sequence is well nested when it derives from a
grammar: a group is an opening directive, a body, any number of further branches
with a condition, at most one without, and a closing directive.

A source text whose sequence is well nested, and which includes nothing, is a
document, and preprocessing it has the meaning of that document.
-/

/-- The part a directive has in the structure of groups. -/
inductive Mark where
  | opening
  | elif
  | otherwise
  | closing
deriving DecidableEq, Repr

def markOf : Request -> Option Mark
  | .ifHolds _ | .ifDefined _ _ => some .opening
  | .elif _ => some .elif
  | .otherwise => some .otherwise
  | .endif => some .closing
  | .define _ | .undefine _ | .include _ | .ignored => none

def Clause.mark? : Clause -> Option Mark
  | .text _ => none
  | .request _ asked => markOf asked

def Clause.isInclude : Clause -> Bool
  | .request _ (.include _) => true
  | _ => false

/-- The marks of the directives, in order. -/
def marks (source : List Clause) : List Mark :=
  source.filterMap Clause.mark?

mutual

/-- Sequences of whole groups. -/
inductive WellNested : List Mark -> Prop where
  | empty : WellNested []
  | group {body others more : List Mark} : WellNested body -> Continues others ->
      WellNested more -> WellNested (.opening :: (body ++ others) ++ more)

/-- What follows the first branch of a group. -/
inductive Continues : List Mark -> Prop where
  | close : Continues [.closing]
  | last {body : List Mark} : WellNested body -> Continues (.otherwise :: body ++ [.closing])
  | next {body others : List Mark} : WellNested body -> Continues others ->
      Continues (.elif :: body ++ others)

end

/-! ## Clauses by their marks -/

/-- A clause without a mark is a part of its own, unless it includes a file. -/
theorem Clause.exists_part_of_mark?_eq_none {clause : Clause} (unmarked : clause.mark? = none)
    (plain : clause.isInclude = false) : ∃ part : Part, part.clauses = [clause] := by
  cases clause with
  | text tokens => exact ⟨.text tokens, rfl⟩
  | request line request =>
      match request with
      | .define tokens => exact ⟨.define line tokens, rfl⟩
      | .undefine tokens => exact ⟨.undefine line tokens, rfl⟩
      | .ignored => exact ⟨.ignored line, rfl⟩
      | .include tokens => cases plain
      | .ifHolds _ | .ifDefined _ _ | .elif _ | .otherwise | .endif => cases unmarked

theorem Clause.exists_test_of_mark?_eq_opening {clause : Clause}
    (marked : clause.mark? = some .opening) :
    ∃ (line : Nat) (test : Test), clause = .request line test.request := by
  cases clause with
  | text tokens => cases marked
  | request line request =>
      cases request with
      | ifHolds condition => exact ⟨line, .holds condition, rfl⟩
      | ifDefined expected tokens => exact ⟨line, .isDefined expected tokens, rfl⟩
      | _ => cases marked

theorem Clause.exists_condition_of_mark?_eq_elif {clause : Clause}
    (marked : clause.mark? = some .elif) :
    ∃ (line : Nat) (condition : List Token), clause = .request line (.elif condition) := by
  cases clause with
  | text tokens => cases marked
  | request line request =>
      cases request with
      | elif condition => exact ⟨line, condition, rfl⟩
      | _ => cases marked

theorem Clause.exists_line_of_mark?_eq_otherwise {clause : Clause}
    (marked : clause.mark? = some .otherwise) :
    ∃ line : Nat, clause = .request line .otherwise := by
  cases clause with
  | text tokens => cases marked
  | request line request =>
      cases request with
      | otherwise => exact ⟨line, rfl⟩
      | _ => cases marked

theorem Clause.exists_line_of_mark?_eq_closing {clause : Clause}
    (marked : clause.mark? = some .closing) :
    ∃ line : Nat, clause = .request line .endif := by
  cases clause with
  | text tokens => cases marked
  | request line request =>
      cases request with
      | endif => exact ⟨line, rfl⟩
      | _ => cases marked

/-! ## Documents of well nested sources -/

/-- A source that includes nothing. -/
def Plain (source : List Clause) : Prop :=
  ∀ clause ∈ source, clause.isInclude = false

instance : DecidablePred Plain :=
  fun source => inferInstanceAs (Decidable (∀ clause ∈ source, clause.isInclude = false))

theorem plain_append {first second : List Clause} :
    Plain (first ++ second) ↔ Plain first ∧ Plain second := by
  simp only [Plain, List.mem_append, or_imp, forall_and]

theorem plain_cons {clause : Clause} {rest : List Clause} :
    Plain (clause :: rest) ↔ clause.isInclude = false ∧ Plain rest := by
  simp only [Plain, List.mem_cons, forall_eq_or_imp]

theorem marks_cons (clause : Clause) (rest : List Clause) :
    marks (clause :: rest) = clause.mark?.toList ++ marks rest := by
  cases marked : clause.mark? <;> simp [marks, marked]

/-- Clauses without marks after a source do not count. -/
theorem marks_append_of_unmarked (source : List Clause) {after : List Clause}
    (unmarked : ∀ clause ∈ after, clause.mark? = none) : marks (source ++ after) = marks source := by
  rw [marks, List.filterMap_append, List.filterMap_eq_nil_iff.mpr unmarked, List.append_nil, marks]

/-- Clauses without marks before a source do not count. -/
theorem marks_unmarked_append {before : List Clause} (source : List Clause)
    (unmarked : ∀ clause ∈ before, clause.mark? = none) : marks (before ++ source) = marks source := by
  rw [marks, List.filterMap_append, List.filterMap_eq_nil_iff.mpr unmarked, List.nil_append, marks]

/-- Clauses without marks can be put in front of a document. -/
theorem exists_document_of_unmarked (before : List Clause) (document : Document)
    (unmarked : ∀ clause ∈ before, clause.mark? = none) (plain : Plain before) :
    ∃ longer : Document, longer.clauses = before ++ document.clauses := by
  induction before with
  | nil => exact ⟨document, rfl⟩
  | cons clause rest ih =>
      rcases plain_cons.mp plain with ⟨clausePlain, restPlain⟩
      rcases Clause.exists_part_of_mark?_eq_none (unmarked clause List.mem_cons_self) clausePlain
        with ⟨part, partClauses⟩
      rcases ih (fun other member => unmarked other (List.mem_cons_of_mem _ member)) restPlain
        with ⟨more, moreClauses⟩
      exact ⟨.cons part more, by rw [Document.clauses, partClauses, moreClauses]; rfl⟩

mutual

/-- A source that is well nested and includes nothing is a document. -/
theorem exists_document_of_wellNested {sequence : List Mark} (nested : WellNested sequence)
    (source : List Clause) (marked : marks source = sequence) (plain : Plain source) :
    ∃ document : Document, document.clauses = source := by
  match nested with
  | .empty =>
      have found := exists_document_of_unmarked source .empty
        (List.filterMap_eq_nil_iff.mp marked) plain
      simpa only [Document.clauses, List.append_nil] using found
  | .group bodyNested othersContinue moreNested =>
      rw [List.cons_append] at marked
      rcases List.filterMap_eq_cons_iff.mp marked with
        ⟨before, opening, afterOpening, rfl, beforeUnmarked, openingMark, afterMarks⟩
      rcases List.filterMap_eq_append_iff.mp afterMarks with
        ⟨inside, behind, rfl, insideMarks, behindMarks⟩
      rcases List.filterMap_eq_append_iff.mp insideMarks with
        ⟨inBody, inOthers, rfl, inBodyMarks, inOthersMarks⟩
      simp only [plain_append, plain_cons] at plain
      rcases plain with ⟨beforePlain, _, ⟨inBodyPlain, inOthersPlain⟩, behindPlain⟩
      rcases exists_branches_of_continues othersContinue inOthers inOthersMarks inOthersPlain with
        ⟨bodyEnd, branches, moreStart, rfl, bodyEndUnmarked, moreStartUnmarked⟩
      simp only [plain_append] at inOthersPlain
      rcases inOthersPlain with ⟨bodyEndPlain, _, moreStartPlain⟩
      -- clauses without marks may stand at either end of the branches; they belong to the body
      -- before them and to the parts after them
      rcases exists_document_of_wellNested bodyNested (inBody ++ bodyEnd)
        ((marks_append_of_unmarked inBody bodyEndUnmarked).trans inBodyMarks)
        (plain_append.mpr ⟨inBodyPlain, bodyEndPlain⟩) with ⟨body, bodyClauses⟩
      rcases exists_document_of_wellNested moreNested (moreStart ++ behind)
        ((marks_unmarked_append behind moreStartUnmarked).trans behindMarks)
        (plain_append.mpr ⟨moreStartPlain, behindPlain⟩) with ⟨more, moreClauses⟩
      rcases Clause.exists_test_of_mark?_eq_opening openingMark with ⟨line, test, rfl⟩
      rcases exists_document_of_unmarked before (.cons (.group line test body branches) more)
        beforeUnmarked beforePlain with ⟨document, documentClauses⟩
      refine ⟨document, documentClauses.trans ?_⟩
      simp only [Document.clauses, Part.clauses, bodyClauses, moreClauses, List.append_assoc,
        List.cons_append]

/-- The branches of a group after the first, between clauses without marks. -/
theorem exists_branches_of_continues {sequence : List Mark} (continued : Continues sequence)
    (source : List Clause) (marked : marks source = sequence) (plain : Plain source) :
    ∃ (before : List Clause) (branches : Branches) (after : List Clause),
      source = before ++ (branches.clauses ++ after) ∧
        (∀ clause ∈ before, clause.mark? = none) ∧ ∀ clause ∈ after, clause.mark? = none := by
  match continued with
  | .close =>
      rcases List.filterMap_eq_cons_iff.mp marked with
        ⟨before, closing, after, rfl, beforeUnmarked, closingMark, afterMarks⟩
      rcases Clause.exists_line_of_mark?_eq_closing closingMark with ⟨line, rfl⟩
      exact ⟨before, .close line, after, rfl, beforeUnmarked,
        List.filterMap_eq_nil_iff.mp afterMarks⟩
  | .last bodyNested =>
      rw [List.cons_append] at marked
      rcases List.filterMap_eq_cons_iff.mp marked with
        ⟨before, otherwise, afterOtherwise, rfl, beforeUnmarked, otherwiseMark, afterMarks⟩
      rcases List.filterMap_eq_append_iff.mp afterMarks with
        ⟨inBody, behind, rfl, inBodyMarks, behindMarks⟩
      rcases List.filterMap_eq_cons_iff.mp behindMarks with
        ⟨bodyEnd, closing, after, rfl, bodyEndUnmarked, closingMark, lastMarks⟩
      simp only [plain_append, plain_cons] at plain
      rcases plain with ⟨_, _, inBodyPlain, bodyEndPlain, _⟩
      rcases exists_document_of_wellNested bodyNested (inBody ++ bodyEnd)
        ((marks_append_of_unmarked inBody bodyEndUnmarked).trans inBodyMarks)
        (plain_append.mpr ⟨inBodyPlain, bodyEndPlain⟩) with ⟨body, bodyClauses⟩
      rcases Clause.exists_line_of_mark?_eq_otherwise otherwiseMark with ⟨line, rfl⟩
      rcases Clause.exists_line_of_mark?_eq_closing closingMark with ⟨closingLine, rfl⟩
      refine ⟨before, .last line body closingLine, after, ?_, beforeUnmarked,
        List.filterMap_eq_nil_iff.mp lastMarks⟩
      simp only [Branches.clauses, bodyClauses, List.append_assoc, List.cons_append,
        List.nil_append]
  | .next bodyNested othersContinue =>
      rw [List.cons_append] at marked
      rcases List.filterMap_eq_cons_iff.mp marked with
        ⟨before, elif, afterElif, rfl, beforeUnmarked, elifMark, afterMarks⟩
      rcases List.filterMap_eq_append_iff.mp afterMarks with
        ⟨inBody, inOthers, rfl, inBodyMarks, inOthersMarks⟩
      simp only [plain_append, plain_cons] at plain
      rcases plain with ⟨_, _, inBodyPlain, inOthersPlain⟩
      rcases exists_branches_of_continues othersContinue inOthers inOthersMarks inOthersPlain with
        ⟨bodyEnd, others, after, rfl, bodyEndUnmarked, afterUnmarked⟩
      rcases exists_document_of_wellNested bodyNested (inBody ++ bodyEnd)
        ((marks_append_of_unmarked inBody bodyEndUnmarked).trans inBodyMarks)
        (plain_append.mpr ⟨inBodyPlain, (plain_append.mp inOthersPlain).1⟩) with
        ⟨body, bodyClauses⟩
      rcases Clause.exists_condition_of_mark?_eq_elif elifMark with ⟨line, condition, rfl⟩
      refine ⟨before, .next line condition body others, after, ?_, beforeUnmarked, afterUnmarked⟩
      simp only [Branches.clauses, bodyClauses, List.append_assoc, List.cons_append]

end

/-! ## Preprocessing a document -/

/-- The clauses of the bytes of a source text. -/
def sourceClauses (bytes : List UInt8) : List Clause :=
  clauses (tokenize (ByteText.ofBytes bytes))

/-- A source text that includes nothing and whose groups are well nested is a
document.  Preprocessing it is reading that document: the tokens, the macros left
behind and the refusal, if there is one, are those of its meaning, whatever the
macros in force before. -/
theorem preprocess_eq_meaning (setup : Setup) (file : String) (bytes : List UInt8)
    (plain : Plain (sourceClauses bytes)) (nested : WellNested (marks (sourceClauses bytes))) :
    (∃ document : Document, document.clauses = sourceClauses bytes) ∧
      ∀ document : Document, document.clauses = sourceClauses bytes ->
        preprocess setup file bytes = document.meaning file := by
  refine ⟨exists_document_of_wellNested nested _ rfl plain, ?_⟩
  intro document reads
  have processed : preprocess setup file bytes =
      processFile setup (some (processNested setup 63)) file
        (tokenize (ByteText.ofBytes bytes)) := rfl
  rw [processed, processFile_eq_processClauses]
  change processClauses _ _ _ _ _ (sourceClauses bytes) = _
  rw [← reads, processClauses_document]

/-- A group whose second condition would divide by zero, had the first not held. -/
def selectedFirst : List UInt8 :=
  "#define A 1\n#if A\nx A\n#elif 1/0\n#undef A\n#else\ny\n#endif\nA".toList.map fun character =>
    character.toNat.toUInt8

/-- The document that this text is. -/
def selectedFirstDocument : Document :=
  .cons (.define 1
    [⟨.whitespace, 1, " "⟩, ⟨.identifier, 1, "A"⟩, ⟨.whitespace, 1, " "⟩, ⟨.number, 1, "1"⟩]) <|
  .cons (.text [⟨.newline, 1, "\n"⟩]) <|
  .cons (.group 2 (.holds [⟨.whitespace, 2, " "⟩, ⟨.identifier, 2, "A"⟩])
    (.cons (.text [⟨.newline, 2, "\n"⟩, ⟨.identifier, 3, "x"⟩, ⟨.whitespace, 3, " "⟩,
      ⟨.identifier, 3, "A"⟩, ⟨.newline, 3, "\n"⟩]) .empty)
    (.next 4 [⟨.whitespace, 4, " "⟩, ⟨.number, 4, "1"⟩, ⟨.punctuator, 4, "/"⟩, ⟨.number, 4, "0"⟩]
      (.cons (.text [⟨.newline, 4, "\n"⟩]) <|
       .cons (.undefine 5 [⟨.whitespace, 5, " "⟩, ⟨.identifier, 5, "A"⟩]) <|
       .cons (.text [⟨.newline, 5, "\n"⟩]) .empty)
      (.last 6
        (.cons (.text [⟨.newline, 6, "\n"⟩, ⟨.identifier, 7, "y"⟩, ⟨.newline, 7, "\n"⟩]) .empty)
        8))) <|
  .cons (.text [⟨.newline, 8, "\n"⟩, ⟨.identifier, 9, "A"⟩]) .empty

/-- What it is preprocessed to. -/
def selectedFirstTokens : List Token :=
  [⟨.newline, 1, "\n"⟩, ⟨.newline, 2, "\n"⟩, ⟨.identifier, 3, "x"⟩, ⟨.whitespace, 3, " "⟩,
    ⟨.number, 3, "1"⟩, ⟨.newline, 3, "\n"⟩, ⟨.newline, 8, "\n"⟩, ⟨.number, 9, "1"⟩]

/-- The macro of the first line is still defined behind the group. -/
theorem preprocess_selectedFirst :
    Plain (sourceClauses selectedFirst) ∧ WellNested (marks (sourceClauses selectedFirst)) ∧
      selectedFirstDocument.clauses = sourceClauses selectedFirst ∧
      preprocess ⟨fun _ => none, []⟩ "a.h" selectedFirst = selectedFirstDocument.meaning "a.h" ∧
      ∃ after, preprocess ⟨fun _ => none, []⟩ "a.h" selectedFirst (.initial .empty) =
          .ok selectedFirstTokens after ∧
        after.macros = Macro.Table.define .empty "A" { replacement := [⟨.number, 1, "1"⟩] } := by
  have plain : Plain (sourceClauses selectedFirst) := by decide +kernel
  have sequence : marks (sourceClauses selectedFirst) =
      [.opening, .elif, .otherwise, .closing] := by decide +kernel
  have nested : WellNested (marks (sourceClauses selectedFirst)) := by
    rw [sequence]
    exact .group .empty (.next .empty (.last .empty)) .empty
  have reads : selectedFirstDocument.clauses = sourceClauses selectedFirst := by decide +kernel
  have agrees := (preprocess_eq_meaning ⟨fun _ => none, []⟩ "a.h" selectedFirst plain nested).2
    selectedFirstDocument reads
  have outcome : (match preprocess ⟨fun _ => none, []⟩ "a.h" selectedFirst (.initial .empty) with
      | .ok tokens after => decide (tokens = selectedFirstTokens ∧
          after.macros = Macro.Table.define .empty "A" { replacement := [⟨.number, 1, "1"⟩] })
      | .error _ _ => false) = true := by decide +kernel
  refine ⟨plain, nested, reads, agrees, ?_⟩
  split at outcome
  · rename_i tokens after ran
    rcases of_decide_eq_true outcome with ⟨rfl, defined⟩
    exact ⟨after, ran, defined⟩
  · cases outcome

end Preprocess
end ObjectWrapper
