import ObjectWrapper.Proofs.Declaration.Scanning
import ObjectWrapper.Proofs.Preprocess.Splicing

namespace ObjectWrapper
namespace Preprocess

open Source Files Directive
open Declaration (mainFileTokens scan)

/-!
# What the main file contributes

Preprocessing a file yields one list of tokens, in which the tokens of included files stand
among those of the file itself.  The run knows which are which: a text of the file brings
tokens of its own, and a directive brings either nothing or what an included file comes to,
between its markers.  An account of the run keeps this apart, piece by piece.

A scan for classes has nothing to go by but the list.  It counts markers, and takes for the
main file whatever stands outside of them.  The main statement is that this is right: wherever
the directives stand, be it inside the head or the body of a class, and however files are
nested, a scan of the whole list reports what it reports on the texts of the file alone.
-/

/-! ## Accounts -/

/-- A piece of a file with the tokens that it brings. -/
structure Contribution where
  piece : Piece
  tokens : List Token

/-- The tokens of a contribution that are emitted for the file itself. -/
def Contribution.own (contribution : Contribution) : List Token :=
  match contribution.piece with
  | .text _ => contribution.tokens
  | .directive _ _ => []

section Accounts

variable (setup : Setup) (process? : Option Process) (file : String)

/-- Process the remaining pieces of a file, keeping apart what each of them brings. -/
def accountPieces (lastLine : Nat) (groups : List Group) :
    List Piece -> Step (List Contribution)
  | [] => if groups.isEmpty then pure [] else refuse ⟨file, lastLine⟩ .unterminated
  | piece :: rest => do
    let done <- processPiece setup process? file groups piece
    let more <- accountPieces lastLine done.1 rest
    pure (⟨piece, done.2⟩ :: more)

/-- Process the tokens of a file, keeping apart what each of its pieces brings. -/
def accountFile (tokens : List Token) : Step (List Contribution) :=
  accountPieces setup process? file ((tokens.getLast?.map Token.line).getD 1) [] (pieces tokens)

theorem processPieces_eq_accountPieces (lastLine : Nat) (groups : List Group)
    (pieces : List Piece) :
    processPieces setup process? file lastLine groups pieces =
      accountPieces setup process? file lastLine groups pieces >>= fun account =>
        pure (account.flatMap Contribution.tokens) := by
  induction pieces generalizing groups with
  | nil =>
      rw [processPieces, accountPieces]
      cases groups.isEmpty <;> rfl
  | cons piece rest ih =>
      simp only [processPieces, accountPieces, ih, bind_assoc, pure_bind, List.flatMap_cons]

end Accounts

/-- Preprocess the bytes of a file, keeping apart what each of its pieces brings. -/
def accountPreprocess (setup : Setup) (file : String) (bytes : List UInt8) :
    Step (List Contribution) :=
  accountFile setup (nestedProcess? setup depthLimit) file (tokenize (ByteText.ofBytes bytes))

/-- An account is kept of the run as it is. -/
theorem preprocess_eq_accountPreprocess (setup : Setup) (file : String) (bytes : List UInt8) :
    preprocess setup file bytes = accountPreprocess setup file bytes >>= fun account =>
      pure (account.flatMap Contribution.tokens) := by
  rw [preprocess, processNested_eq_processFile]
  exact processPieces_eq_accountPieces setup _ file _ [] _

/-! ## Included files -/

/-- Nothing, or what an included file comes to, between its markers. -/
inductive BringsFile : List Token -> Prop where
  | nothing : BringsFile []
  | spliced {depth line : Nat} {path text : String} {inner : List Token} :
      Bracketed depth inner ->
      BringsFile (⟨.includeBegin, line, path⟩ :: inner ++ [⟨.includeEnd, line, text⟩])

/-- What a piece may contribute: a text brings no markers, and a directive nothing but a file. -/
def Contribution.IsApart (contribution : Contribution) : Prop :=
  match contribution.piece with
  | .text _ => Unmarked contribution.tokens
  | .directive _ _ => BringsFile contribution.tokens

section Pieces

variable {setup : Setup} {process? : Option Process} {depth : Nat} {state : State}
  (nests : NestsWithin setup process? depth)
include nests

theorem meets_perform_bringsFile (place : Place) (groups : List Group) (directive : Request)
    (orderly : state.Orderly) :
    Meets (perform setup process? place groups directive) state
      (fun done _ => BringsFile done.2) (fun _ _ => True) := by
  have obeys : Meets (obey setup process? place directive) state
      (fun brought _ => BringsFile brought) (fun _ _ => True) := by
    apply meets_obey_of_splice
    · exact .nothing
    · exact fun _ => trivial
    · exact fun _ _ _ _ => .nothing
    · exact fun _ => .nothing
    · intro tokens _
      apply meets_splice_of_enters
      · exact fun _ => .nothing
      · exact fun _ => trivial
      · exact fun _ _ _ _ => trivial
      · intro process header found content consulted given _ _ absent
        rcases nests process given with ⟨inner, rfl, splices⟩
        have entering := orderly.follows_listed consulted absent
        apply (splices found.path _ _ isMarker_of_mem_tokenize entering.orderly).mono
        · exact fun spliced after brings => .spliced brings.bracketed
        · exact fun _ _ _ => trivial
  exact meets_perform_of_obey groups directive .nothing (fun _ => trivial) obeys

theorem meets_processPiece_isApart (file : String) (groups : List Group) (piece : Piece)
    (unmarked : Unmarked piece.tokens) (orderly : state.Orderly) :
    Meets (processPiece setup process? file groups piece) state
      (fun done after => after.Orderly ∧ Contribution.IsApart ⟨piece, done.2⟩)
      (fun _ _ => True) := by
  have brings := meets_processPiece nests file groups piece unmarked orderly
  have isApart : Meets (processPiece setup process? file groups piece) state
      (fun done _ => Contribution.IsApart ⟨piece, done.2⟩) (fun _ _ => True) := by
    cases piece with
    | directive line tokens =>
        exact meets_perform_bringsFile nests ⟨file, line⟩ groups (.ofTokens tokens) orderly
    | text tokens =>
        unfold processPiece
        rw [meets_bind, meets_get, meets_pure]
        cases isActive groups with
        | false => exact fun _ member => nomatch member
        | true => exact Macro.unmarked_expand orderly.unmarked unmarked
  apply (brings.and isApart).mono
  · exact fun _ _ both => ⟨both.1.orderly, both.2⟩
  · exact fun _ _ _ => trivial

/-- An account covers all pieces, and keeps included files apart. -/
theorem meets_accountPieces (file : String) (lastLine : Nat) (groups : List Group)
    (pieces : List Piece) (unmarked : ∀ piece ∈ pieces, Unmarked piece.tokens)
    (orderly : state.Orderly) :
    Meets (accountPieces setup process? file lastLine groups pieces) state
      (fun account _ => account.map Contribution.piece = pieces ∧
        ∀ contribution ∈ account, contribution.IsApart)
      (fun _ _ => True) := by
  induction pieces generalizing groups state with
  | nil =>
      unfold accountPieces
      cases groups.isEmpty with
      | true => exact ⟨rfl, fun _ member => nomatch member⟩
      | false => exact trivial
  | cons piece rest ih =>
      rcases List.forall_mem_cons.mp unmarked with ⟨here, later⟩
      unfold accountPieces
      rw [meets_bind]
      apply (meets_processPiece_isApart nests file groups piece here orderly).mono
      · rintro done middle ⟨orderlyMiddle, isApart⟩
        rw [meets_bind]
        apply (ih done.1 later orderlyMiddle).mono
        · rintro more after ⟨covers, moreApart⟩
          exact ⟨congrArg (piece :: ·) covers, List.forall_mem_cons.mpr ⟨isApart, moreApart⟩⟩
        · exact fun _ _ _ => trivial
      · exact fun _ _ _ => trivial

end Pieces

/-! ## What a scan takes for the main file -/

theorem mainFileTokens_cons_of_open (depth : Nat) {token : Token}
    (unmarked : token.kind.isMarker = false) (rest : List Token) :
    mainFileTokens (depth + 1) (token :: rest) = mainFileTokens (depth + 1) rest := by
  rcases token with ⟨kind, line, lexeme⟩
  cases kind <;> first | rfl | cases unmarked

/-- Inside an included file nothing counts, and its own brackets are closed in it. -/
theorem mainFileTokens_append_of_bracketed {bound : Nat} {inner : List Token}
    (bracketed : Bracketed bound inner) (depth : Nat) (rest : List Token) :
    mainFileTokens (depth + 1) (inner ++ rest) = mainFileTokens (depth + 1) rest := by
  induction bracketed generalizing depth rest with
  | nil => rfl
  | plain unmarked _ ih =>
      rw [List.cons_append, mainFileTokens_cons_of_open depth unmarked, ih]
  | @spliced bound line path text inner more _ _ innerIh moreIh =>
      rw [List.cons_append, List.append_assoc, List.cons_append]
      calc mainFileTokens (depth + 1)
            (⟨.includeBegin, line, path⟩ :: (inner ++ ⟨.includeEnd, line, text⟩ :: (more ++ rest)))
          = mainFileTokens (depth + 2)
              (inner ++ ⟨.includeEnd, line, text⟩ :: (more ++ rest)) := rfl
        _ = mainFileTokens (depth + 2) (⟨.includeEnd, line, text⟩ :: (more ++ rest)) :=
              innerIh (depth + 1) _
        _ = mainFileTokens (depth + 1) (more ++ rest) := rfl
        _ = mainFileTokens (depth + 1) rest := moreIh depth rest

theorem BringsFile.mainFileTokens_append {brought : List Token} (brings : BringsFile brought)
    (rest : List Token) : mainFileTokens 0 (brought ++ rest) = mainFileTokens 0 rest := by
  cases brings with
  | nothing => rfl
  | @spliced depth line path text inner bracketed =>
      rw [List.append_assoc, List.cons_append]
      calc mainFileTokens 0
            (⟨.includeBegin, line, path⟩ :: (inner ++ ([⟨.includeEnd, line, text⟩] ++ rest)))
          = mainFileTokens 1 (inner ++ ([⟨.includeEnd, line, text⟩] ++ rest)) := rfl
        _ = mainFileTokens 1 ([⟨.includeEnd, line, text⟩] ++ rest) :=
              mainFileTokens_append_of_bracketed bracketed 0 _
        _ = mainFileTokens 0 rest := rfl

/-- A scan takes for the main file what the file contributes itself. -/
theorem mainFileTokens_flatMap_tokens {account : List Contribution}
    (isApart : ∀ contribution ∈ account, contribution.IsApart) :
    mainFileTokens 0 (account.flatMap Contribution.tokens) =
      mainFileTokens 0 (account.flatMap Contribution.own) := by
  induction account with
  | nil => rfl
  | cons contribution rest ih =>
      rcases List.forall_mem_cons.mp isApart with ⟨here, later⟩
      rw [List.flatMap_cons, List.flatMap_cons]
      rcases contribution with ⟨piece, tokens⟩
      cases piece with
      | text written =>
          have unmarked : Unmarked tokens := here
          change mainFileTokens 0 (tokens ++ _) = mainFileTokens 0 (tokens ++ _)
          rw [Declaration.mainFileTokens_append_of_unmarked unmarked,
            Declaration.mainFileTokens_append_of_unmarked unmarked, ih later]
      | directive line written =>
          have brings : BringsFile tokens := here
          exact (brings.mainFileTokens_append _).trans (ih later)

theorem unmarked_flatMap_own {account : List Contribution}
    (isApart : ∀ contribution ∈ account, contribution.IsApart) :
    Unmarked (account.flatMap Contribution.own) := by
  intro token member
  rcases List.mem_flatMap.mp member with ⟨⟨piece, tokens⟩, inAccount, inOwn⟩
  have here := isApart _ inAccount
  cases piece with
  | text written => exact here token inOwn
  | directive line written => cases inOwn

/-- Only the main file is scanned.  Whatever a file includes, a scan of what it is preprocessed
to finds the classes, and warns of what, a scan finds in the tokens that the run has emitted
for the texts of the file itself.  No included file, and no marker of one, is left in these. -/
theorem scan_eq_scan_own {setup : Setup} {file : String} {bytes : List UInt8}
    {macros : Macro.Table} {after : State} {tokens : List Token} (unmarked : macros.HoldsNoMarker)
    (ran : preprocess setup file bytes (.initial macros) = .ok tokens after) :
    ∃ account, accountPreprocess setup file bytes (.initial macros) = .ok account after ∧
      account.map Contribution.piece = pieces (tokenize (ByteText.ofBytes bytes)) ∧
      account.flatMap Contribution.tokens = tokens ∧
      Unmarked (account.flatMap Contribution.own) ∧
      scan tokens = scan (account.flatMap Contribution.own) := by
  rw [preprocess_eq_accountPreprocess] at ran
  rcases exists_of_bind_pure_eq_ok ran with ⟨account, accounted, rfl⟩
  have orderly : (State.initial macros).Orderly := ⟨unmarked, List.nodup_nil⟩
  have source : Unmarked (tokenize (ByteText.ofBytes bytes)) := isMarker_of_mem_tokenize
  have keeps := meets_accountPieces (nestsWithin_nestedProcess? setup depthLimit) file
    (((tokenize (ByteText.ofBytes bytes)).getLast?.map Token.line).getD 1) []
    (pieces (tokenize (ByteText.ofBytes bytes)))
    (fun piece member => source.of_subset (tokens_subset_of_mem_pieces member)) orderly
  rcases keeps.of_ok accounted with ⟨covers, isApart⟩
  refine ⟨account, accounted, covers, rfl, unmarked_flatMap_own isApart, ?_⟩
  rw [scan, scan, Declaration.findings, Declaration.findings,
    mainFileTokens_flatMap_tokens isApart]

/-- A file with a class that would be wrapped, one with the head of a class and an open brace,
which includes the third, and one with a marker and a closing brace. -/
def filesWithClasses : Tree :=
  (((Tree.empty ["w"]).install "b.h" "class B \x7b Q_OBJECT \x7d;\n".toUTF8.toList).install "c.h"
    "Q_OBJECT struct C \x7b\n#include \"d.h\"\n".toUTF8.toList).install "d.h"
    "Q_GADGET \x7d\n".toUTF8.toList

/-- A class whose head and body include these files. -/
def includesInHeadAndBody : List UInt8 :=
  ("#include \"b.h\"\nclass A : public\n#include \"c.h\"\nB \x7b\n#include \"d.h\"\nQ_OBJECT\n" ++
    "\x7d;\nQ_GADGET").toUTF8.toList

theorem scan_eq_scan_own_filesWithClasses :
    Macro.Table.builtins.HoldsNoMarker ∧
      ∃ tokens after account,
        preprocess ⟨filesWithClasses.view, []⟩ "a.h" includesInHeadAndBody (.initial .builtins) =
          .ok tokens after ∧
        splicedPaths tokens = ["b.h", "c.h", "d.h"] ∧
        accountPreprocess ⟨filesWithClasses.view, []⟩ "a.h" includesInHeadAndBody
          (.initial .builtins) = .ok account after ∧
        account.flatMap Contribution.tokens = tokens ∧
        scan tokens = scan (account.flatMap Contribution.own) ∧
        scan tokens = ⟨[⟨"A", [], ["B"], 2, .object⟩], [(8, .markerOutsideClass "Q_GADGET")]⟩ := by
  have outcome : ((preprocess ⟨filesWithClasses.view, []⟩ "a.h" includesInHeadAndBody).run'
      (.initial .builtins)).map (fun tokens => (splicedPaths tokens, scan tokens)) =
      some (["b.h", "c.h", "d.h"],
        ⟨[⟨"A", [], ["B"], 2, .object⟩], [(8, .markerOutsideClass "Q_GADGET")]⟩) := by
    decide +kernel
  rcases Option.map_eq_some_iff.mp outcome with ⟨tokens, yields, facts⟩
  rw [Prod.mk.injEq] at facts
  rcases exists_of_run'_eq_some yields with ⟨after, ran⟩
  rcases scan_eq_scan_own Macro.holdsNoMarker_builtins ran with
    ⟨account, accounted, _, whole, _, same⟩
  exact ⟨Macro.holdsNoMarker_builtins, tokens, after, account, ran, facts.1, accounted, whole,
    same, facts.2⟩

end Preprocess
end ObjectWrapper
