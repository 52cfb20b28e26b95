import ObjectWrapper.Proofs.Except
import ObjectWrapper.Proofs.Macro.HideSets
import ObjectWrapper.Proofs.Preprocess.Alike
import ObjectWrapper.Proofs.Preprocess.Concatenation
import ObjectWrapper.Proofs.Preprocess.Steps

namespace ObjectWrapper
namespace Preprocess

open Source Files Directive

/-!
# Inclusion as text

An included file is processed by itself: with no group open, with its own text, and with
what stands around the directive out of reach.  Had its text stood in place of the
directive, it would have been read inside the groups that are open there, and the text at
either end of it would have been expanded together with that around it.

The main statement is that this makes no difference as long as every macro is replaced on
its own and the groups of the file are closed in it.  Both ways, the sources are refused or
they are not; and if not, they leave the same macros behind, and the tokens they bring
differ in the two markers only.
-/

/-! ## Simple sources -/

/-- The directive defines a macro that takes arguments. -/
def Clause.definesFunction : Clause -> Bool
  | .request _ (.define tokens) =>
    match namedDefinition tokens with
    | .ok named => named.2.isFunction
    | .error _ => false
  | _ => false

/-- A source that includes nothing, and in which every macro is defined to be replaced on
its own. -/
structure IsSimple (source : List Clause) : Prop where
  plain : Plain source
  objectLike : ∀ clause ∈ source, clause.definesFunction = false

instance : DecidablePred IsSimple :=
  fun source => decidable_of_iff
    (Plain source ∧ ∀ clause ∈ source, clause.definesFunction = false)
    ⟨fun both => ⟨both.1, both.2⟩, fun simple => ⟨simple.plain, simple.objectLike⟩⟩

theorem isSimple_cons {clause : Clause} {rest : List Clause} :
    IsSimple (clause :: rest) ↔
      (clause.isInclude = false ∧ clause.definesFunction = false) ∧ IsSimple rest := by
  constructor
  · rintro ⟨plain, objectLike⟩
    rcases plain_cons.mp plain with ⟨clausePlain, restPlain⟩
    rcases List.forall_mem_cons.mp objectLike with ⟨clauseObjectLike, restObjectLike⟩
    exact ⟨⟨clausePlain, clauseObjectLike⟩, restPlain, restObjectLike⟩
  · rintro ⟨⟨clausePlain, clauseObjectLike⟩, restPlain, restObjectLike⟩
    exact ⟨plain_cons.mpr ⟨clausePlain, restPlain⟩,
      List.forall_mem_cons.mpr ⟨clauseObjectLike, restObjectLike⟩⟩

/-- The smallest clauses ask for nothing that the clauses do not ask for. -/
theorem IsSimple.grains {tokens : List Token} (simple : IsSimple (clauses tokens)) :
    IsSimple (grains true tokens) := by
  rw [clauses_eq_collect_grains] at simple
  constructor
  · intro clause member
    cases clause with
    | text => rfl
    | request line request => exact simple.plain _ (request_mem_collect member)
  · intro clause member
    cases clause with
    | text => rfl
    | request line request => exact simple.objectLike _ (request_mem_collect member)

theorem IsSimple.append {first second : List Clause} (firstSimple : IsSimple first)
    (secondSimple : IsSimple second) : IsSimple (first ++ second) :=
  ⟨plain_append.mpr ⟨firstSimple.plain, secondSimple.plain⟩,
    List.forall_mem_append.mpr ⟨firstSimple.objectLike, secondSimple.objectLike⟩⟩

section Passing

variable (setup : Setup) (process? : Option Process) (file : String)

/-- A simple source keeps the macros such that each is replaced on its own. -/
theorem meets_processClause_isObjectLike {state : State}
    (objectLike : state.macros.IsObjectLike) (groups : List Group) {clause : Clause}
    (plain : clause.isInclude = false) (defined : clause.definesFunction = false) :
    Meets (processClause setup process? file groups clause) state
      (fun _ after => after.macros.IsObjectLike) (fun _ _ => True) := by
  cases clause with
  | text tokens => exact objectLike
  | request line request =>
      have obeys : Meets (obey setup process? ⟨file, line⟩ request) state
          (fun _ after => after.macros.IsObjectLike) (fun _ _ => True) := by
        apply meets_obey_of_splice
        · exact objectLike
        · exact fun _ => trivial
        · rintro tokens named rfl read
          refine objectLike.define named.1 ?_
          simpa only [Clause.definesFunction, read] using defined
        · exact fun name => objectLike.erase name
        · rintro tokens rfl
          cases plain
      exact meets_perform_of_obey groups request objectLike (fun _ => trivial) obeys

/-! ## Parts of a source -/

/-- Process the clauses of a part of a source: the groups that are open behind them and the
tokens they bring. -/
def passClauses (groups : List Group) : List Clause -> Step (List Group × List Token)
  | [] => pure (groups, [])
  | clause :: rest => do
    let done <- processClause setup process? file groups clause
    let more <- passClauses done.1 rest
    pure (more.1, done.2 ++ more.2)

/-- A source is processed part by part. -/
theorem processClauses_append (lastLine : Nat) (groups : List Group) (first rest : List Clause) :
    processClauses setup process? file lastLine groups (first ++ rest) = (do
      let done <- passClauses setup process? file groups first
      let more <- processClauses setup process? file lastLine done.1 rest
      pure (done.2 ++ more)) := by
  induction first generalizing groups with
  | nil => simp [passClauses]
  | cons clause more ih =>
      simp only [List.cons_append, processClauses, passClauses, ih, bind_assoc, pure_bind,
        List.append_assoc]

theorem meets_passClauses_isObjectLike {state : State}
    (objectLike : state.macros.IsObjectLike) (groups : List Group) {source : List Clause}
    (simple : IsSimple source) :
    Meets (passClauses setup process? file groups source) state
      (fun _ after => after.macros.IsObjectLike) (fun _ _ => True) := by
  induction source generalizing groups state with
  | nil => exact objectLike
  | cons clause rest ih =>
      rcases isSimple_cons.mp simple with ⟨⟨plain, defined⟩, restSimple⟩
      unfold passClauses
      rw [meets_bind]
      apply (meets_processClause_isObjectLike setup process? file objectLike groups plain
        defined).mono
      · intro done middle kept
        rw [meets_bind]
        exact (ih kept done.1 restSimple).mono (fun _ _ => id) (fun _ _ => id)
      · exact fun _ _ => id

/-! ## Texts put together -/

/-- A text brings its expansion if the groups are active, and what follows goes on from
there. -/
theorem passClauses_text (groups : List Group) (tokens : List Token) (rest : List Clause)
    (state : State) :
    passClauses setup process? file groups (.text tokens :: rest) state =
      (passClauses setup process? file groups rest >>= fun more =>
        pure (more.1, (if isActive groups then Macro.expand state.macros tokens else []) ++
          more.2)) state :=
  rfl

/-- A text may be cut anywhere as long as every macro is replaced on its own. -/
theorem passClauses_text_append {state : State} (objectLike : state.macros.IsObjectLike)
    (groups : List Group) (first second : List Token) (rest : List Clause) :
    passClauses setup process? file groups (.text (first ++ second) :: rest) state =
      passClauses setup process? file groups (.text first :: .text second :: rest) state := by
  let brought := fun tokens : List Token =>
    if isActive groups then Macro.expand state.macros tokens else []
  have cut : brought (first ++ second) = brought first ++ brought second := by
    unfold brought
    split
    · exact objectLike.expand_append first second
    · rfl
  calc passClauses setup process? file groups (.text (first ++ second) :: rest) state
      = (passClauses setup process? file groups rest >>= fun more =>
          pure (more.1, brought (first ++ second) ++ more.2)) state := rfl
    _ = ((passClauses setup process? file groups rest >>= fun more =>
          pure (more.1, brought second ++ more.2)) >>= fun more =>
            pure (more.1, brought first ++ more.2)) state := by
        simp only [cut, bind_assoc, pure_bind, List.append_assoc]
    _ = passClauses setup process? file groups (.text first :: .text second :: rest) state := by
        rw [passClauses_text setup process? file groups first]
        exact bind_eq_bind (passClauses_text setup process? file groups second rest state).symm
          fun _ _ _ => rfl

theorem passClauses_text_nil (groups : List Group) (rest : List Clause) :
    passClauses setup process? file groups (.text [] :: rest) =
      passClauses setup process? file groups rest := by
  funext state
  rw [passClauses_text, Macro.expand_nil, ite_self]
  exact congrFun (bind_pure _) state

theorem passClauses_flush_append (groups : List Group) (tokens : List Token)
    (rest : List Clause) :
    passClauses setup process? file groups (flush tokens ++ rest) =
      passClauses setup process? file groups (.text tokens :: rest) := by
  cases tokens with
  | nil => exact (passClauses_text_nil setup process? file groups rest).symm
  | cons token more => rfl

/-- Neighbouring texts may be put together as long as every macro is replaced on its own. -/
theorem passClauses_collect {state : State} (objectLike : state.macros.IsObjectLike)
    (groups : List Group) (pending : List Token) {source : List Clause}
    (simple : IsSimple source) :
    passClauses setup process? file groups (collect pending source) state =
      passClauses setup process? file groups (.text pending :: source) state := by
  fun_induction collect pending source generalizing groups state with
  | case1 pending =>
      rw [← List.append_nil (flush pending), passClauses_flush_append]
  | case2 pending tokens following ih =>
      rw [ih objectLike groups (isSimple_cons.mp simple).2,
        passClauses_text_append setup process? file objectLike]
  | case3 pending line request following ih =>
      -- the directive may change the macros, so what follows it starts from another state
      rcases isSimple_cons.mp simple with ⟨⟨plain, defined⟩, followingSimple⟩
      rw [passClauses_flush_append, passClauses_text, passClauses_text]
      refine bind_eq_bind ?_ fun _ _ _ => rfl
      unfold passClauses
      refine bind_eq_bind rfl fun done middle ran => bind_eq_bind ?_ fun _ _ _ => rfl
      have kept := (meets_processClause_isObjectLike setup process? file objectLike groups plain
        defined).of_ok ran
      rw [ih kept done.1 followingSimple, passClauses_text_nil]

theorem processClauses_eq_passClauses (lastLine : Nat) (groups : List Group)
    (source : List Clause) :
    processClauses setup process? file lastLine groups source = (do
      let done <- passClauses setup process? file groups source
      let more <- processClauses setup process? file lastLine done.1 []
      pure (done.2 ++ more)) := by
  have parts := processClauses_append setup process? file lastLine groups source []
  rwa [List.append_nil] at parts

/-- A source may be processed before its texts are put together. -/
theorem passClauses_clauses {state : State} (objectLike : state.macros.IsObjectLike)
    (groups : List Group) {tokens : List Token} (simple : IsSimple (grains true tokens)) :
    passClauses setup process? file groups (clauses tokens) state =
      passClauses setup process? file groups (grains true tokens) state := by
  rw [clauses_eq_collect_grains,
    passClauses_collect setup process? file objectLike groups [] simple, passClauses_text_nil]

theorem processClauses_clauses {state : State} (objectLike : state.macros.IsObjectLike)
    (lastLine : Nat) (groups : List Group) {tokens : List Token}
    (simple : IsSimple (grains true tokens)) :
    processClauses setup process? file lastLine groups (clauses tokens) state =
      processClauses setup process? file lastLine groups (grains true tokens) state := by
  rw [processClauses_eq_passClauses, processClauses_eq_passClauses]
  exact bind_eq_bind (passClauses_clauses setup process? file objectLike groups simple)
    fun _ _ _ => rfl

theorem meets_processClauses_isObjectLike {state : State}
    (objectLike : state.macros.IsObjectLike) (lastLine : Nat) (groups : List Group)
    {source : List Clause} (simple : IsSimple source) :
    Meets (processClauses setup process? file lastLine groups source) state
      (fun _ after => after.macros.IsObjectLike) (fun _ _ => True) := by
  rw [processClauses_eq_passClauses, meets_bind]
  apply (meets_passClauses_isObjectLike setup process? file objectLike groups simple).mono
  · intro done middle kept
    unfold processClauses
    cases done.1.isEmpty with
    | true => exact kept
    | false => exact trivial
  · exact fun _ _ => id

/-! ## Included files -/

/-- Clauses that are well nested and include nothing come to the same inside other groups
as by themselves, if those groups are active. -/
theorem processClauses_nested_append {source : List Clause} (plain : Plain source)
    (nested : WellNested (marks source)) (lastLine : Nat) {groups : List Group}
    (active : isActive groups = true) (rest : List Clause) :
    processClauses setup process? file lastLine groups (source ++ rest) = (do
      let brought <- processClauses setup process? file lastLine [] source
      let more <- processClauses setup process? file lastLine groups rest
      pure (brought ++ more)) := by
  rcases exists_document_of_wellNested nested source rfl plain with ⟨document, rfl⟩
  rw [processClauses_document, processClauses_document_of_active _ _ _ _ _ _ _ active]

end Passing

/-- With the macros in force, an include directive finds the file, which has not been
included. -/
def FindsNew (setup : Setup) (file : String) (state : State) (target : List Token)
    (found : NamedFile) : Prop :=
  ∃ header, target? state.macros target = some header ∧
    (fileHeader header).find? setup.view setup.searchPath (some file) = some found ∧
    found.location ∉ state.included

/-- A file that is found and can be read is processed with the macros in force, and put
between its markers. -/
theorem exists_splice_eq {setup : Setup} {state : State} {target : List Token}
    {found : NamedFile} {content : List UInt8} (process : Process) (place : Place)
    (finds : FindsNew setup place.file state target found)
    (readable : found.content = .bytes content) :
    ∃ entered : State, entered.macros = state.macros ∧
      splice setup (some process) place target state =
        (process found.path (tokenize (ByteText.ofBytes content)) >>= fun spliced =>
          pure (⟨.includeBegin, place.line, found.path⟩ :: spliced ++
            [⟨.includeEnd, place.line, ""⟩])) entered := by
  rcases finds with ⟨header, named, findsFile, fresh⟩
  refine ⟨{ state with
    consulted := (fileHeader header).candidates setup.searchPath (some place.file) ++
      state.consulted
    included := found.location :: state.included }, rfl, ?_⟩
  rw [← enter_of_bytes readable]
  apply splice_of_newFile?_eq_some
  simp [newFile?, named, findsFile, fresh]

/-- Inside an active group an include directive brings what it splices, and what follows
goes on behind that. -/
theorem processClauses_include {setup : Setup} {process? : Option Process} {file : String}
    (lastLine : Nat) {groups : List Group} (active : isActive groups = true) (number : Nat)
    (target : List Token) (rest : List Clause) :
    processClauses setup process? file lastLine groups (.request number (.include target) :: rest) =
      (do
        let brought <- splice setup process? ⟨file, number⟩ target
        let more <- processClauses setup process? file lastLine groups rest
        pure (brought ++ more)) := by
  simp [processClauses, processClause, perform, obey, active]

/-- At any depth, a simple source is processed as if it were the text of another file. -/
theorem visible_processNested {setup : Setup} {entered state : State}
    (same : entered.macros = state.macros) (objectLike : state.macros.IsObjectLike) (depth : Nat)
    (path : String) {tokens : List Token} (simple : IsSimple (grains true tokens))
    (process? : Option Process) (file : String) (lastLine : Nat) :
    visible (processNested setup depth path tokens entered) =
      visible (processClauses setup process? file lastLine [] (grains true tokens) state) := by
  have here : entered.macros.IsObjectLike := same ▸ objectLike
  rw [processNested_eq_processFile, processFile_eq_processClauses,
    processClauses_clauses setup _ path here _ [] simple]
  exact alike_processClauses setup setup _ process? path file _ lastLine [] _ simple.plain
    entered state same

/-! ## Agreement up to markers -/

/-- Both are refused, or both leave the same macros behind and the tokens of the second are
those of the first without two markers. -/
inductive UpToMarkers (line : Nat) (path : String) :
    EStateM.Result Refusal State (List Token) -> EStateM.Result Refusal State (List Token) ->
      Prop where
  | refused {refusal otherRefusal : Refusal} {after otherAfter : State} :
      UpToMarkers line path (.error refusal after) (.error otherRefusal otherAfter)
  | brought (before inside behind : List Token) {after otherAfter : State} :
      after.macros = otherAfter.macros ->
      UpToMarkers line path
        (.ok (before ++ (⟨.includeBegin, line, path⟩ :: inside ++
          ⟨.includeEnd, line, ""⟩ :: behind)) after)
        (.ok (before ++ (inside ++ behind)) otherAfter)

section Agreement

variable {line : Nat} {path : String} {step other rest otherRest : Step (List Token)}
  {state elsewhere : State}

theorem UpToMarkers.prepend (agree : UpToMarkers line path (step state) (other elsewhere))
    (front : List Token) :
    UpToMarkers line path ((step >>= fun more => pure (front ++ more)) state)
      ((other >>= fun more => pure (front ++ more)) elsewhere) := by
  generalize first : step state = outcome at agree
  generalize second : other elsewhere = otherOutcome at agree
  cases agree with
  | refused =>
      rw [bind_of_error first, bind_of_error second]
      exact .refused
  | brought before inside behind same =>
      rw [bind_of_ok first, bind_of_ok second]
      have longer : UpToMarkers line path _ _ := .brought (front ++ before) inside behind same
      rwa [List.append_assoc, List.append_assoc] at longer

/-- What is put between markers agrees with what is not, if what follows does. -/
theorem upToMarkers_of_visible_eq (agree : visible (step state) = visible (other elsewhere))
    (go : ∀ brought after otherAfter, other elsewhere = .ok brought otherAfter ->
      after.macros = otherAfter.macros -> visible (rest after) = visible (otherRest otherAfter)) :
    UpToMarkers line path
      ((step >>= fun spliced => rest >>= fun more =>
        pure (⟨.includeBegin, line, path⟩ :: spliced ++ [⟨.includeEnd, line, ""⟩] ++ more)) state)
      ((other >>= fun brought => otherRest >>= fun more => pure (brought ++ more)) elsewhere) := by
  rcases exists_of_visible_eq agree with
    ⟨_, _, _, _, refused, otherRefused⟩ | ⟨brought, after, otherAfter, ran, otherRan, same⟩
  · rw [bind_of_error refused, bind_of_error otherRefused]
    exact .refused
  · rw [bind_of_ok ran, bind_of_ok otherRan]
    rcases exists_of_visible_eq (go brought after otherAfter otherRan same) with
      ⟨_, _, _, _, refused, otherRefused⟩ | ⟨more, last, otherLast, ran, otherRan, same⟩
    · rw [bind_of_error refused, bind_of_error otherRefused]
      exact .refused
    · rw [bind_of_ok ran, bind_of_ok otherRan, List.append_assoc]
      exact .brought [] brought more same

end Agreement

/-- From an include directive on, the source agrees with the one that has the text of the
file in its place. -/
theorem upToMarkers_processClauses_include {setup : Setup} {depth number : Nat} {file : String}
    {state : State} {groups : List Group} {target behind : List Token} {found : NamedFile}
    {content : List UInt8} (active : isActive groups = true)
    (finds : FindsNew setup file state target found) (readable : found.content = .bytes content)
    (objectLike : state.macros.IsObjectLike)
    (insideSimple : IsSimple (grains true (tokenize (ByteText.ofBytes content))))
    (behindSimple : IsSimple (grains true behind))
    (nested : WellNested (marks (grains true (tokenize (ByteText.ofBytes content)))))
    (process? : Option Process) (lastLine otherLastLine : Nat) :
    UpToMarkers number found.path
      (processClauses setup (some (processNested setup depth)) file lastLine groups
        (.request number (.include target) :: clauses behind) state)
      (processClauses setup process? file otherLastLine groups
        (grains true (tokenize (ByteText.ofBytes content)) ++ grains true behind) state) := by
  rcases exists_splice_eq (processNested setup depth) ⟨file, number⟩ finds readable with
    ⟨entered, same, splices⟩
  rw [processClauses_include lastLine active, bind_eq_bind splices fun _ _ _ => rfl, bind_assoc,
    processClauses_nested_append setup process? file insideSimple.plain nested otherLastLine active]
  simp only [pure_bind]
  apply upToMarkers_of_visible_eq
  · exact visible_processNested same objectLike depth found.path insideSimple process? file _
  · intro brought after otherAfter ran sameAfter
    have kept := (meets_processClauses_isObjectLike setup process? file objectLike otherLastLine []
      insideSimple).of_ok ran
    rw [processClauses_clauses setup _ file (sameAfter ▸ kept) lastLine groups behindSimple]
    exact alike_processClauses setup setup _ process? file file lastLine otherLastLine groups _
      behindSimple.plain after otherAfter sameAfter

/-- Including a file is putting its text in place of the directive.  A source consists of
`before`, a directive on a line of its own, and `behind`; where the directive stands, the
groups are active and it finds a file that has not been included and can be read.  If no
other file is included, every macro is replaced on its own, and the groups of the file are
closed in it, then the source is refused exactly if it is with the file's text in place of
the directive, and otherwise leaves the same macros and brings the same tokens up to the
markers. -/
theorem upToMarkers_processNested_include {setup : Setup} {depth number : Nat} {file : String}
    {state : State} {before line target behind : List Token} {found : NamedFile}
    {content : List UInt8} (readable : found.content = .bytes content)
    (ends : EndsWithNewline before)
    (heads : heading? line = some ⟨number, .include target, []⟩)
    (begins : BeginsWithNewline behind)
    (objectLike : state.macros.IsObjectLike)
    (beforeSimple : IsSimple (clauses before))
    (insideSimple : IsSimple (clauses (tokenize (ByteText.ofBytes content))))
    (behindSimple : IsSimple (clauses behind))
    (nested : WellNested (marks (clauses (tokenize (ByteText.ofBytes content)))))
    (finds : ∀ done middle,
      passClauses setup (some (processNested setup depth)) file [] (clauses before) state =
        .ok done middle ->
      isActive done.1 = true ∧ FindsNew setup file middle target found) :
    UpToMarkers number found.path
      (processNested setup (depth + 1) file (before ++ line ++ behind) state)
      (processNested setup (depth + 1) file
        (before ++ tokenize (ByteText.ofBytes content) ++ behind) state) := by
  let process? := some (processNested setup depth)
  let text := tokenize (ByteText.ofBytes content)
  have beforeGrains := beforeSimple.grains
  have insideGrains := insideSimple.grains
  have behindGrains := behindSimple.grains
  rw [clauses_eq_collect_grains, marks_collect] at nested
  have included : clauses (before ++ line ++ behind) =
      clauses before ++ .request number (.include target) :: clauses behind := by
    rw [List.append_assoc]
    exact clauses_append_heading ends heads begins
  have inlined : grains true (before ++ text ++ behind) =
      grains true before ++ (grains true text ++ grains true behind) := by
    rw [List.append_assoc, grains_append_of_endsWithNewline ends, grains_append true text begins,
      grains_of_beginsWithNewline true begins]
  have inlinedGrains : IsSimple (grains true (before ++ text ++ behind)) :=
    inlined ▸ beforeGrains.append (insideGrains.append behindGrains)
  change UpToMarkers number found.path (processFile setup process? file _ state)
    (processFile setup process? file _ state)
  rw [processFile_eq_processClauses, processFile_eq_processClauses, included,
    processClauses_clauses setup process? file objectLike _ [] inlinedGrains, inlined,
    processClauses_append, processClauses_append]
  -- up to the directive both runs are the same one; it ends in a refusal or at the directive
  have sameStart := passClauses_clauses setup process? file objectLike [] beforeGrains
  cases ran : passClauses setup process? file [] (clauses before) state with
  | error refusal after =>
      rw [bind_of_error ran, bind_of_error (sameStart.symm.trans ran)]
      exact .refused
  | ok done middle =>
      have kept := (meets_passClauses_isObjectLike setup process? file objectLike []
        beforeSimple).of_ok ran
      rcases finds done middle ran with ⟨active, findsFile⟩
      rw [bind_of_ok ran, bind_of_ok (sameStart.symm.trans ran)]
      exact (upToMarkers_processClauses_include active findsFile readable kept insideGrains
        behindGrains nested process? _ _).prepend done.2

/-- A text with a group of its own, in which it defines a macro anew.  No line end follows
its last directive. -/
def textWithGroup : List UInt8 :=
  "X X\n#ifdef Z\n#if 1/0\n#endif\n#else\n#define X w\n#endif".toUTF8.toList

/-- A file with this text. -/
def fileWithGroup : NamedFile where
  path := "b.h"
  location := ["b.h"]
  content := .bytes textWithGroup

/-- The file system holds nothing but that file. -/
def onlyFileWithGroup : View := fun path =>
  if path = fileWithGroup.path then some (.file fileWithGroup.location fileWithGroup.content)
  else none

/-- A text that ends in the last branch of a group. -/
def beforeInclude : List Token :=
  tokenize "#define X y\n#define H \"b.h\"\n#if X\n#else\nX\n"

/-- A line that names its header by a macro. -/
def includeLine : List Token :=
  [⟨.punctuator, 6, "#"⟩, ⟨.identifier, 6, "include"⟩, ⟨.whitespace, 6, " "⟩,
    ⟨.identifier, 6, "H"⟩]

/-- A text that goes on in that branch. -/
def behindInclude : List Token :=
  tokenize "\nX\n#endif\n"

theorem upToMarkers_processNested_include_fileWithGroup :
    UpToMarkers 6 "b.h"
        (processNested ⟨onlyFileWithGroup, []⟩ 1 "a.h"
          (beforeInclude ++ includeLine ++ behindInclude) (.initial .empty))
        (processNested ⟨onlyFileWithGroup, []⟩ 1 "a.h"
          (beforeInclude ++ tokenize (ByteText.ofBytes textWithGroup) ++ behindInclude)
          (.initial .empty)) ∧
      ((processNested ⟨onlyFileWithGroup, []⟩ 1 "a.h"
          (beforeInclude ++ includeLine ++ behindInclude)).run' (.initial .empty)).map
            (List.map Token.lexeme) =
        some ["\n", "\n", "\n", "y", "\n", "b.h", "y", " ", "y", "\n", "\n", "\n", "", "\n", "w",
          "\n", "\n"] := by
  have heads : heading? includeLine =
      some ⟨6, .include [⟨.whitespace, 6, " "⟩, ⟨.identifier, 6, "H"⟩], []⟩ := rfl
  have nothing : (Macro.Table.empty).IsObjectLike := fun _ _ found => nomatch found
  have sequence : marks (clauses (tokenize (ByteText.ofBytes textWithGroup))) =
      [.opening, .opening, .closing, .otherwise, .closing] := by decide +kernel
  have nested : WellNested (marks (clauses (tokenize (ByteText.ofBytes textWithGroup)))) := by
    rw [sequence]
    exact .group (.group .empty .close .empty) (.last .empty) .empty
  have readable : fileWithGroup.content = .bytes textWithGroup := rfl
  have findsFile : (fileHeader ⟨"b.h", true⟩).find? onlyFileWithGroup [] (some "a.h") =
      some fileWithGroup := by decide +kernel
  have passes : (match passClauses ⟨onlyFileWithGroup, []⟩
        (some (processNested ⟨onlyFileWithGroup, []⟩ 0)) "a.h" [] (clauses beforeInclude)
        (.initial .empty) with
      | .ok done middle => decide (isActive done.1 = true ∧ middle.included = [] ∧
          target? middle.macros [⟨.whitespace, 6, " "⟩, ⟨.identifier, 6, "H"⟩] =
            some ⟨"b.h", true⟩)
      | .error _ _ => false) = true := by decide +kernel
  constructor
  · apply upToMarkers_processNested_include readable (by decide +kernel) heads (by decide +kernel)
      nothing (by decide +kernel) (by decide +kernel) (by decide +kernel) nested
    intro done middle ran
    rw [ran] at passes
    rcases of_decide_eq_true passes with ⟨active, fresh, named⟩
    exact ⟨active, ⟨"b.h", true⟩, named, findsFile, by simp [fresh]⟩
  · decide +kernel

end Preprocess
end ObjectWrapper
