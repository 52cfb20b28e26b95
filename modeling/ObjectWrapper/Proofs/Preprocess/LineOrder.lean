import Mathlib.Data.List.Chain
import ObjectWrapper.Proofs.Macro.LineOrder
import ObjectWrapper.Proofs.Preprocess.Markers
import ObjectWrapper.Proofs.Preprocess.Steps
import ObjectWrapper.Proofs.Source.Position
import ObjectWrapper.Source.Reassembly

namespace ObjectWrapper
namespace Preprocess

open Source Files Directive
open Macro (Table)

/-!
# Order of lines between markers

Preprocessed tokens are in the order of the sources they come from, one included file
inside the other.  So one would expect their lines never to go down except where an
included file begins or ends.  That is not true of all texts: an argument on a later
line than the name of its macro may come to stand before a token of the replacement.

The main statement shows that nothing else can go wrong.  The sources may contain any
directives and nested files; if the arguments of function-like macros stand on the
lines of the names in all of them, the lines are in order between any two markers.
-/

/-- Between two markers the lines never go down. -/
def OrderedBetweenMarkers (tokens : List Token) : Prop :=
  ∀ stretch, stretch <:+: tokens -> Unmarked stretch -> InLineOrder stretch

/-- Of two neighbours, the second is not above the first unless one is a marker. -/
def NeighboursOrdered (tokens : List Token) : Prop :=
  tokens.IsChain fun first second => first.kind.isMarker = false ->
    second.kind.isMarker = false -> first.line ≤ second.line

theorem NeighboursOrdered.betweenMarkers {tokens : List Token}
    (ordered : NeighboursOrdered tokens) : OrderedBetweenMarkers tokens := by
  intro stretch inside unmarked
  let below := fun first second : Token => first.line ≤ second.line
  have chain : stretch.IsChain below := by
    have kept := List.IsChain.infix ordered inside
    apply kept.imp_of_mem_imp
    intro first second firstMember secondMember before
    exact before (unmarked first firstMember) (unmarked second secondMember)
  have : Trans below below below := ⟨Nat.le_trans⟩
  exact List.isChain_iff_pairwise.mp chain

/-- The name of the function-like macro that a piece defines. -/
def function? : Piece -> Option String
  | .text _ => none
  | .directive _ arguments =>
    match Request.ofTokens arguments with
    | .define tokens =>
      match namedDefinition tokens with
      | .ok (name, definition) => if definition.isFunction then some name else none
      | .error _ => none
    | _ => none

/-- All function-like macros that the text defines have names of the list, and argument
lists stand on the lines of these names. -/
structure KeepsInvocationsOnLine (functions : List String) (tokens : List Token) : Prop where
  defines : ∀ piece ∈ pieces tokens, ∀ name ∈ function? piece, name ∈ functions
  invokes : Macro.InvokesOnOneLine functions tokens

instance (functions : List String) (tokens : List Token) :
    Decidable (KeepsInvocationsOnLine functions tokens) :=
  decidable_of_iff
    ((∀ piece ∈ pieces tokens, ∀ name ∈ function? piece, name ∈ functions) ∧
      Macro.InvokesOnOneLine functions tokens)
    ⟨fun both => ⟨both.1, both.2⟩, fun keeps => ⟨keeps.defines, keeps.invokes⟩⟩

theorem KeepsInvocationsOnLine.mem_of_define {functions : List String} {tokens : List Token}
    (keeps : KeepsInvocationsOnLine functions tokens) {line : Nat} {arguments defined : List Token}
    {named : String × Macro.Definition} (member : .directive line arguments ∈ pieces tokens)
    (asked : Request.ofTokens arguments = .define defined)
    (read : namedDefinition defined = .ok named) (isFunction : named.2.isFunction = true) :
    named.1 ∈ functions := by
  refine keeps.defines _ member named.1 ?_
  simp only [function?, asked, read, isFunction, if_true, Option.mem_some]

/-! ## What pieces bring -/

/-- The tokens are in order, and at either end there is a marker or a token on a line of
the pieces. -/
structure InOrderOf (pieces : List Piece) (tokens : List Token) : Prop where
  ordered : NeighboursOrdered tokens
  first : ∀ token ∈ tokens.head?, token.kind.isMarker = false ->
    ∃ placed ∈ pieces.flatMap Piece.tokens, token.line = placed.line
  last : ∀ token ∈ tokens.getLast?, token.kind.isMarker = false ->
    ∃ placed ∈ pieces.flatMap Piece.tokens, token.line = placed.line

section Pieces

variable {pieces more : List Piece} {tokens others : List Token}

theorem inOrderOf_nil (pieces : List Piece) : InOrderOf pieces [] :=
  ⟨List.isChain_nil, (fun _ never => nomatch never), fun _ never => nomatch never⟩

theorem inOrderOf_of_inLineOrder (ordered : InLineOrder tokens)
    (placed : ∀ token ∈ tokens, ∃ other ∈ pieces.flatMap Piece.tokens, token.line = other.line) :
    InOrderOf pieces tokens := by
  refine ⟨?_, ?_, ?_⟩
  · exact (ordered.imp fun before _ _ => before).isChain
  · exact fun token member _ => placed token (List.mem_of_mem_head? member)
  · exact fun token member _ => placed token (List.mem_of_mem_getLast? member)

/-- What an included file brings is in order with anything, because of its markers. -/
theorem inOrderOf_between (ordered : NeighboursOrdered tokens) (line : Nat) (path : String) :
    InOrderOf pieces (⟨.includeBegin, line, path⟩ :: tokens ++ [⟨.includeEnd, line, ""⟩]) := by
  refine ⟨?_, ?_, ?_⟩
  · rw [List.cons_append]
    refine List.isChain_cons.mpr ⟨(fun _ _ marker => nomatch marker), ?_⟩
    refine List.isChain_append.mpr ⟨ordered, List.isChain_singleton _, ?_⟩
    intro previous _ ending member _ unmarked
    cases Option.mem_some_iff.mp member
    cases unmarked
  · intro token member unmarked
    cases Option.mem_some_iff.mp member
    cases unmarked
  · intro token member unmarked
    rw [List.getLast?_concat] at member
    cases Option.mem_some_iff.mp member
    cases unmarked

theorem InOrderOf.append (firstInOrder : InOrderOf pieces tokens)
    (secondInOrder : InOrderOf more others)
    (ordered : InLineOrder ((pieces ++ more).flatMap Piece.tokens)) :
    InOrderOf (pieces ++ more) (tokens ++ others) := by
  rw [List.flatMap_append, InLineOrder, List.pairwise_append] at ordered
  refine ⟨?_, ?_, ?_⟩
  · refine List.isChain_append.mpr ⟨firstInOrder.ordered, secondInOrder.ordered, ?_⟩
    intro previous isLast next isFirst previousUnmarked nextUnmarked
    rcases firstInOrder.last previous isLast previousUnmarked with ⟨before, beforeMember, same⟩
    rcases secondInOrder.first next isFirst nextUnmarked with ⟨behind, behindMember, otherSame⟩
    rw [same, otherSame]
    exact ordered.2.2 before beforeMember behind behindMember
  · intro token member unmarked
    rw [List.flatMap_append]
    rw [List.head?_append, Option.mem_def, Option.or_eq_some_iff] at member
    rcases member with isFirst | ⟨_, isFirst⟩
    · rcases firstInOrder.first token isFirst unmarked with ⟨placed, inside, same⟩
      exact ⟨placed, List.mem_append_left _ inside, same⟩
    · rcases secondInOrder.first token isFirst unmarked with ⟨placed, inside, same⟩
      exact ⟨placed, List.mem_append_right _ inside, same⟩
  · intro token member unmarked
    rw [List.flatMap_append]
    rw [List.getLast?_append, Option.mem_def, Option.or_eq_some_iff] at member
    rcases member with isLast | ⟨_, isLast⟩
    · rcases secondInOrder.last token isLast unmarked with ⟨placed, inside, same⟩
      exact ⟨placed, List.mem_append_right _ inside, same⟩
    · rcases firstInOrder.last token isLast unmarked with ⟨placed, inside, same⟩
      exact ⟨placed, List.mem_append_left _ inside, same⟩

end Pieces

/-! ## Steps -/

/-- Every text of ordered lines whose invocations stand on their lines is processed in
order. -/
def Process.KeepsOrder (functions : List String) (process : Process) : Prop :=
  ∀ file tokens state, KeepsInvocationsOnLine functions tokens ->
    InLineOrder tokens -> state.macros.FunctionsAmong functions ->
    Meets (process file tokens) state
      (fun brought after => NeighboursOrdered brought ∧ after.macros.FunctionsAmong functions)
      (fun _ _ => True)

section Steps

variable {functions : List String} {setup : Setup} {process? : Option Process} {state : State}
  (files : ∀ path found content, setup.view.file? path = some found ->
    found.content = .bytes content ->
    KeepsInvocationsOnLine functions (tokenize (ByteText.ofBytes content)))
  (nested : ∀ process, process? = some process -> process.KeepsOrder functions)
include files nested

theorem meets_splice_inOrder (known : state.macros.FunctionsAmong functions) (place : Place)
    (tokens : List Token) (pieces : List Piece) :
    Meets (splice setup process? place tokens) state
      (fun brought after => InOrderOf pieces brought ∧ after.macros.FunctionsAmong functions)
      (fun _ _ => True) := by
  apply meets_splice_of_enters
  · exact fun _ => ⟨inOrderOf_nil pieces, known⟩
  · exact fun _ => trivial
  · exact fun _ _ _ _ => trivial
  · intro process header found content consulted given finds readable _
    rcases List.exists_of_findSome?_eq_some finds with ⟨path, _, named⟩
    have ordered := inLineOrder_tokenize (ByteText.ofBytes content)
    apply (nested process given found.path _
      { state with consulted := consulted, included := found.location :: state.included }
      (files path found content named readable) ordered known).mono
    · rintro spliced after ⟨inOrder, stillKnown⟩
      exact ⟨inOrderOf_between inOrder place.line found.path, stillKnown⟩
    · exact fun _ _ _ => trivial

theorem meets_processPiece_inOrder (known : state.macros.FunctionsAmong functions)
    (file : String) (groups : List Group) {tokens : List Token}
    (keeps : KeepsInvocationsOnLine functions tokens) {piece : Piece}
    (member : piece ∈ pieces tokens)
    (ordered : InLineOrder piece.tokens) :
    Meets (processPiece setup process? file groups piece) state
      (fun done after => InOrderOf [piece] done.2 ∧ after.macros.FunctionsAmong functions)
      (fun _ _ => True) := by
  cases piece with
  | text tokens =>
      unfold processPiece
      rw [meets_bind, meets_get, meets_pure]
      refine ⟨?_, known⟩
      cases isActive groups with
      | false => exact inOrderOf_nil _
      | true =>
          have invokes := keeps.invokes.of_isInfix (isInfix_of_text_mem_pieces member)
          apply inOrderOf_of_inLineOrder (Macro.inLineOrder_expand known invokes ordered)
          intro token inExpansion
          have supplies := Macro.supplies_of_mem_expand state.macros tokens token inExpansion
          rw [List.flatMap_singleton]
          exact supplies.exists_line
  | directive line arguments =>
      have nothing : InOrderOf [.directive line arguments] [] := inOrderOf_nil _
      have obeys : Meets (obey setup process? ⟨file, line⟩ (.ofTokens arguments)) state
          (fun brought after => InOrderOf [.directive line arguments] brought ∧
            after.macros.FunctionsAmong functions) (fun _ _ => True) := by
        apply meets_obey_of_splice
        · exact ⟨nothing, known⟩
        · exact fun _ => trivial
        · intro defined named asked read
          exact ⟨nothing, known.define named.1 (keeps.mem_of_define member asked read)⟩
        · exact fun name => ⟨nothing, known.erase name⟩
        · exact fun included _ => meets_splice_inOrder files nested known ⟨file, line⟩ included _
      exact meets_perform_of_obey groups (.ofTokens arguments) ⟨nothing, known⟩
        (fun _ => trivial) obeys

theorem meets_processPieces_inOrder (known : state.macros.FunctionsAmong functions)
    (file : String) (lastLine : Nat) (groups : List Group) {tokens : List Token}
    (keeps : KeepsInvocationsOnLine functions tokens) {remaining : List Piece}
    (member : remaining ⊆ pieces tokens)
    (ordered : InLineOrder (remaining.flatMap Piece.tokens)) :
    Meets (processPieces setup process? file lastLine groups remaining) state
      (fun brought after => InOrderOf remaining brought ∧ after.macros.FunctionsAmong functions)
      (fun _ _ => True) := by
  induction remaining generalizing groups state with
  | nil =>
      unfold processPieces
      cases groups.isEmpty with
      | true => exact ⟨inOrderOf_nil [], known⟩
      | false => exact trivial
  | cons piece rest ih =>
      have parts := List.pairwise_append.mp ordered
      unfold processPieces
      rw [meets_bind]
      apply (meets_processPiece_inOrder files nested known file groups keeps
        (member List.mem_cons_self) parts.1).mono
      · rintro done middle ⟨first, middleKnown⟩
        rw [meets_bind]
        apply (ih middleKnown done.1 (List.Subset.trans (List.subset_cons_self piece rest) member)
          parts.2.1).mono
        · rintro more after ⟨later, afterKnown⟩
          exact ⟨first.append later ordered, afterKnown⟩
        · exact fun _ _ _ => trivial
      · exact fun _ _ _ => trivial

theorem keepsOrder_processFile : Process.KeepsOrder functions (processFile setup process?) := by
  intro file tokens state keeps ordered known
  have inPieces := ordered.sublist (flatMap_tokens_pieces_sublist tokens)
  apply (meets_processPieces_inOrder files nested known file _ [] keeps
    (List.Subset.refl _) inPieces).mono
  · rintro brought after ⟨inOrder, stillKnown⟩
    exact ⟨inOrder.ordered, stillKnown⟩
  · exact fun _ _ _ => trivial

end Steps

theorem keepsOrder_processNested {functions : List String} {setup : Setup}
    (files : ∀ path found content, setup.view.file? path = some found ->
      found.content = .bytes content ->
      KeepsInvocationsOnLine functions (tokenize (ByteText.ofBytes content)))
    (depth : Nat) : Process.KeepsOrder functions (processNested setup depth) := by
  induction depth with
  | zero => exact keepsOrder_processFile files fun process absent => nomatch absent
  | succ depth ih =>
      apply keepsOrder_processFile files
      intro process given
      cases given
      exact ih

/-- If the arguments of function-like macros stand on the lines of the names, in the
source and in all files that it might include and read, then the lines of what it is preprocessed
to never go down between two markers. -/
theorem orderedBetweenMarkers_of_preprocess {functions : List String} {setup : Setup}
    {file : String} {bytes : List UInt8} {state after : State} {tokens : List Token}
    (known : state.macros.FunctionsAmong functions)
    (source : KeepsInvocationsOnLine functions (tokenize (ByteText.ofBytes bytes)))
    (files : ∀ path found content, setup.view.file? path = some found ->
      found.content = .bytes content ->
      KeepsInvocationsOnLine functions (tokenize (ByteText.ofBytes content)))
    (ran : preprocess setup file bytes state = .ok tokens after) :
    OrderedBetweenMarkers tokens := by
  have meets := keepsOrder_processNested files depthLimit file _ state source
    (inLineOrder_tokenize _) known
  rw [← preprocess, Meets, ran] at meets
  exact meets.1.betweenMarkers

/-- A text that defines macros, invokes them on their lines and includes a file. -/
def invokesOnLines : List UInt8 :=
  "#define F(x) x y\nF(1)\n#include \"b.h\"\n#define G(x) F(x) F\nG(F(2))\nz".toUTF8.toList

/-- A single file, which invokes a macro of the text that includes it. -/
def singleFile : View := fun path =>
  if path = "b.h" then some (.file ["b.h"] (.bytes "F (3) F\n".toUTF8.toList)) else none

theorem orderedBetweenMarkers_of_preprocess_singleFile :
    Table.builtins.FunctionsAmong ["F", "G", "__attribute__"] ∧
      KeepsInvocationsOnLine ["F", "G", "__attribute__"]
        (tokenize (ByteText.ofBytes invokesOnLines)) ∧
      (∀ path found content, singleFile.file? path = some found ->
        found.content = .bytes content ->
        KeepsInvocationsOnLine ["F", "G", "__attribute__"]
          (tokenize (ByteText.ofBytes content))) ∧
      ∃ tokens after,
        preprocess ⟨singleFile, []⟩ "a.h" invokesOnLines (.initial .builtins) = .ok tokens after ∧
          reassemble tokens = " \n1 y \n3 y F \n\n2 y y F \nz" ∧
          OrderedBetweenMarkers tokens := by
  have known : Table.builtins.FunctionsAmong ["F", "G", "__attribute__"] :=
    Macro.functionsAmong_builtins (by decide)
  have source : KeepsInvocationsOnLine ["F", "G", "__attribute__"]
      (tokenize (ByteText.ofBytes invokesOnLines)) := by decide +kernel
  have file : KeepsInvocationsOnLine ["F", "G", "__attribute__"]
      (tokenize (ByteText.ofBytes "F (3) F\n".toUTF8.toList)) := by decide +kernel
  have files : ∀ path found content, singleFile.file? path = some found ->
      found.content = .bytes content ->
      KeepsInvocationsOnLine ["F", "G", "__attribute__"]
        (tokenize (ByteText.ofBytes content)) := by
    intro path found content named readable
    unfold View.file? singleFile at named
    split at named
    · rename_i shown
      split at shown
      · cases shown
        cases named
        cases readable
        exact file
      · cases shown
    · cases named
  have outcome : ((preprocess ⟨singleFile, []⟩ "a.h" invokesOnLines).run'
      (.initial .builtins)).map reassemble = some " \n1 y \n3 y F \n\n2 y y F \nz" := by
    decide +kernel
  rcases Option.map_eq_some_iff.mp outcome with ⟨tokens, yields, text⟩
  rcases exists_of_run'_eq_some yields with ⟨after, ran⟩
  exact ⟨known, source, files, tokens, after, ran, text,
    orderedBetweenMarkers_of_preprocess known source files ran⟩

/-- A text with an argument one line below the name of its macro. -/
def argumentBelow : List UInt8 :=
  "#define F(x) x y\nF(\n1)".toUTF8.toList

/-- The condition on invocations cannot be left out. -/
theorem not_orderedBetweenMarkers_of_preprocess :
    ¬ ∀ (setup : Setup) (file : String) (bytes : List UInt8) (macros : Table)
        (tokens : List Token) (after : State),
      macros.Holds (fun token => ∃ text, token ∈ tokenize text) ->
      preprocess setup file bytes (.initial macros) = .ok tokens after ->
      OrderedBetweenMarkers tokens := by
  intro claim
  have outcome : (preprocess ⟨fun _ => none, []⟩ "a.h" argumentBelow).run' (.initial .empty) =
      some [⟨.newline, 1, "\n"⟩, ⟨.number, 3, "1"⟩, ⟨.whitespace, 2, " "⟩,
        ⟨.identifier, 2, "y"⟩] := by decide +kernel
  rcases exists_of_run'_eq_some outcome with ⟨after, ran⟩
  have nothing : Table.empty.Holds fun token => ∃ text, token ∈ tokenize text :=
    fun _ _ found => nomatch found
  have ordered := claim _ _ _ _ _ _ nothing ran
    [⟨.number, 3, "1"⟩, ⟨.whitespace, 2, " "⟩, ⟨.identifier, 2, "y"⟩]
    (List.suffix_cons _ _).isInfix (by decide)
  exact absurd ordered (by decide)

end Preprocess
end ObjectWrapper
