import ObjectWrapper.Proofs.Macro.Elements
import ObjectWrapper.Proofs.Preprocess.Markers
import ObjectWrapper.Proofs.Preprocess.Nesting
import ObjectWrapper.Proofs.Preprocess.Steps

namespace ObjectWrapper
namespace Preprocess

open Source Directive
open Macro (Element Table)

/-!
# What becomes of a file

Processing a file yields tokens without telling where they come from.  A trace does
tell: it yields elements, each of them a part of the file with what has become of it.
A token of active text stands for itself or belongs to an invocation that has been
replaced; text in an inactive branch has been replaced by nothing, and a directive by
the tokens that it brings.

Tracing a file is processing it: the outcomes agree from every state once the
elements are forgotten.  Of a file that includes nothing, the elements cover all
pieces in their order, and whatever has replaced others stands on their lines.
-/

section Tracing

variable (setup : Setup) (process? : Option Process) (file : String)

/-- Trace one piece of a file inside the given groups. -/
def tracePiece (groups : List Group) : Piece -> Step (List Group × List Element)
  | .text tokens => do
    let state <- get
    pure (groups,
      if isActive groups then Macro.elements state.macros tokens else [.replaced tokens []])
  | .directive line tokens => do
    let done <- perform setup process? ⟨file, line⟩ groups (.ofTokens tokens)
    pure (done.1, [.replaced tokens done.2])

/-- Trace the remaining pieces of a file, whose last line is given. -/
def tracePieces (lastLine : Nat) (groups : List Group) : List Piece -> Step (List Element)
  | [] => if groups.isEmpty then pure [] else refuse ⟨file, lastLine⟩ .unterminated
  | piece :: rest => do
    let done <- tracePiece setup process? file groups piece
    let more <- tracePieces lastLine done.1 rest
    pure (done.2 ++ more)

/-- Trace the tokens of a file. -/
def traceFile (tokens : List Token) : Step (List Element) :=
  tracePieces setup process? file ((tokens.getLast?.map Token.line).getD 1) [] (pieces tokens)

theorem processPiece_eq_tracePiece (groups : List Group) (piece : Piece) :
    processPiece setup process? file groups piece =
      tracePiece setup process? file groups piece >>= fun done =>
        pure (done.1, done.2.flatMap Element.result) := by
  cases piece with
  | text tokens =>
      funext state
      simp only [processPiece, tracePiece, bind_assoc, pure_bind]
      cases isActive groups with
      | true =>
          simp only [if_true, Macro.flatMap_result_elements]
      | false => rfl
  | directive line tokens =>
      simp only [processPiece, tracePiece, bind_assoc, pure_bind, List.flatMap_cons,
        List.flatMap_nil, List.append_nil, Element.result]
      exact (bind_pure _).symm

theorem processPieces_eq_tracePieces (lastLine : Nat) (groups : List Group)
    (pieces : List Piece) :
    processPieces setup process? file lastLine groups pieces =
      tracePieces setup process? file lastLine groups pieces >>= fun traced =>
        pure (traced.flatMap Element.result) := by
  induction pieces generalizing groups with
  | nil =>
      rw [processPieces, tracePieces]
      cases groups.isEmpty <;> rfl
  | cons piece rest ih =>
      simp only [processPieces, tracePieces, processPiece_eq_tracePiece, ih, bind_assoc, pure_bind,
        List.flatMap_append]

/-- Tracing a file is processing it. -/
theorem processFile_eq_traceFile (tokens : List Token) :
    processFile setup process? file tokens =
      traceFile setup process? file tokens >>= fun traced =>
        pure (traced.flatMap Element.result) :=
  processPieces_eq_tracePieces setup process? file _ [] (pieces tokens)

end Tracing

/-- Trace the bytes of a file. -/
def tracePreprocess (setup : Setup) (file : String) (bytes : List UInt8) : Step (List Element) :=
  traceFile setup (some (processNested setup (depthLimit - 1))) file
    (tokenize (ByteText.ofBytes bytes))

/-- What is preprocessed successfully can be traced, and leaves the same behind. -/
theorem exists_tracePreprocess_of_preprocess {setup : Setup} {file : String}
    {bytes : List UInt8} {state after : State} {tokens : List Token}
    (ran : preprocess setup file bytes state = .ok tokens after) :
    ∃ traced, tracePreprocess setup file bytes state = .ok traced after ∧
      traced.flatMap Element.result = tokens := by
  have agrees : preprocess setup file bytes = tracePreprocess setup file bytes >>= fun traced =>
      pure (traced.flatMap Element.result) :=
    processFile_eq_traceFile setup (some (processNested setup 63)) file _
  rw [agrees] at ran
  exact exists_of_bind_pure_eq_ok ran

/-! ## Files that include nothing -/

/-- The elements cover the pieces, keep their lines, and have the property. -/
structure Traces (property : Token -> Prop) (pieces : List Piece) (traced : List Element) :
    Prop where
  covers : traced.flatMap Element.source = pieces.flatMap Piece.tokens
  keepsLines : ∀ element ∈ traced, element.KeepsLines
  holds : ∀ element ∈ traced, ∀ token ∈ element.result, property token

section Plain

variable {property : Token -> Prop} {setup : Setup} {process? : Option Process} {state : State}

theorem traces_nil : Traces property [] [] :=
  ⟨rfl, (fun _ member => nomatch member), fun _ member => nomatch member⟩

theorem Traces.append {first second : List Piece} {before after : List Element}
    (firstTraces : Traces property first before) (secondTraces : Traces property second after) :
    Traces property (first ++ second) (before ++ after) := by
  refine ⟨?_, ?_, ?_⟩
  · rw [List.flatMap_append, List.flatMap_append, firstTraces.covers, secondTraces.covers]
  · intro element member
    exact (List.mem_append.mp member).elim (firstTraces.keepsLines element)
      (secondTraces.keepsLines element)
  · intro element member
    exact (List.mem_append.mp member).elim (firstTraces.holds element)
      (secondTraces.holds element)

/-- A piece that brings nothing. -/
theorem traces_dropped (piece : Piece) : Traces property [piece] [.replaced piece.tokens []] := by
  refine ⟨rfl, ?_, ?_⟩
  · intro element member
    rw [List.mem_singleton.mp member]
    exact fun _ never => nomatch never
  · intro element member
    rw [List.mem_singleton.mp member]
    exact fun _ never => nomatch never

theorem traces_elements (table : Table) (holds : table.Holds property)
    (anywhere : ∀ token line, property token -> property (token.atLine line))
    {tokens : List Token} (text : ∀ token ∈ tokens, property token) :
    Traces property [.text tokens] (Macro.elements table tokens) := by
  refine ⟨?_, fun _ => Macro.keepsLines_of_mem_elements, ?_⟩
  · rw [Macro.flatMap_source_elements, List.flatMap_singleton]
    rfl
  · intro element member token inResult
    apply holds.of_mem_expand anywhere text
    rw [← Macro.flatMap_result_elements]
    exact List.mem_flatMap.mpr ⟨element, member, inResult⟩

/-- A directive that includes nothing brings nothing, and what it defines is written in
it. -/
theorem meets_perform_of_plain (holds : state.macros.Holds property) (place : Place)
    (groups : List Group) (directive : Request)
    (plain : ∀ tokens, directive ≠ .include tokens)
    (defined : ∀ tokens, directive = .define tokens -> ∀ token ∈ tokens, property token) :
    Meets (perform setup process? place groups directive) state
      (fun done after => done.2 = [] ∧ after.macros.Holds property) (fun _ _ => True) := by
  have obeys : Meets (obey setup process? place directive) state
      (fun brought after => brought = [] ∧ after.macros.Holds property) (fun _ _ => True) := by
    apply meets_obey_of_splice
    · exact ⟨rfl, holds⟩
    · exact fun _ => trivial
    · intro tokens named asked read
      refine ⟨rfl, holds.define named.1 fun token member => ?_⟩
      exact defined tokens asked token (replacement_subset_of_namedDefinition read member)
    · exact fun name => ⟨rfl, holds.erase name⟩
    · exact fun tokens asked => absurd asked (plain tokens)
  exact meets_perform_of_obey groups directive ⟨rfl, holds⟩ (fun _ => trivial) obeys

variable (anywhere : ∀ token line, property token -> property (token.atLine line))
include anywhere

theorem meets_tracePiece (holds : state.macros.Holds property) (file : String)
    (groups : List Group) (piece : Piece) (plain : Plain (clausesOf piece))
    (text : ∀ token ∈ piece.tokens, property token) :
    Meets (tracePiece setup process? file groups piece) state
      (fun done after => Traces property [piece] done.2 ∧ after.macros.Holds property)
      (fun _ _ => True) := by
  cases piece with
  | text tokens =>
      unfold tracePiece
      rw [meets_bind, meets_get, meets_pure]
      refine ⟨?_, holds⟩
      cases isActive groups with
      | true => exact traces_elements state.macros holds anywhere text
      | false => exact traces_dropped (.text tokens)
  | directive line tokens =>
      unfold tracePiece
      rw [meets_bind]
      have noInclude : ∀ included, Request.ofTokens tokens ≠ .include included := by
        intro included asked
        have excluded := plain (.request line (.ofTokens tokens)) List.mem_cons_self
        rw [asked] at excluded
        cases excluded
      apply (meets_perform_of_plain holds ⟨file, line⟩ groups (.ofTokens tokens) noInclude
        fun defined asked token member =>
          text token (subset_of_ofTokens_eq_define asked member)).mono
      · rintro ⟨chosen, brought⟩ after ⟨nothing, kept⟩
        cases nothing
        exact ⟨traces_dropped (.directive line tokens), kept⟩
      · exact fun _ _ _ => trivial

theorem meets_tracePieces (holds : state.macros.Holds property) (file : String)
    (lastLine : Nat) (groups : List Group) (pieces : List Piece)
    (plain : Plain (pieces.flatMap clausesOf))
    (text : ∀ token ∈ pieces.flatMap Piece.tokens, property token) :
    Meets (tracePieces setup process? file lastLine groups pieces) state
      (fun traced _ => Traces property pieces traced) (fun _ _ => True) := by
  induction pieces generalizing groups state with
  | nil =>
      unfold tracePieces
      cases groups.isEmpty with
      | true => exact traces_nil
      | false => exact trivial
  | cons piece rest ih =>
      rw [List.flatMap_cons, plain_append] at plain
      rw [List.flatMap_cons] at text
      unfold tracePieces
      rw [meets_bind]
      apply (meets_tracePiece anywhere holds file groups piece plain.1 fun token member =>
        text token (List.mem_append_left _ member)).mono
      · intro done middle traced
        rw [meets_bind]
        apply (ih traced.2 done.1 plain.2 fun token member =>
          text token (List.mem_append_right _ member)).mono
        · exact fun more after moreTraced => traced.1.append moreTraced
        · exact fun _ _ _ => trivial
      · exact fun _ _ _ => trivial

/-- Of a file that includes nothing, every token is accounted for. -/
theorem traces_of_tracePreprocess {file : String} {bytes : List UInt8} {after : State}
    {traced : List Element} (plain : Plain (sourceClauses bytes))
    (holds : state.macros.Holds property)
    (text : ∀ token ∈ tokenize (ByteText.ofBytes bytes), property token)
    (ran : tracePreprocess setup file bytes state = .ok traced after) :
    Traces property (pieces (tokenize (ByteText.ofBytes bytes))) traced := by
  rw [sourceClauses, clauses_eq_flatMap_pieces] at plain
  have meets : Meets (tracePreprocess setup file bytes) state
      (fun traced _ => Traces property (pieces (tokenize (ByteText.ofBytes bytes))) traced)
      (fun _ _ => True) :=
    meets_tracePieces anywhere holds file _ [] _ plain fun token member =>
      text token ((flatMap_tokens_pieces_sublist _).subset member)
  rw [Meets, ran] at meets
  exact meets

end Plain

end Preprocess
end ObjectWrapper
