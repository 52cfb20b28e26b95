import ObjectWrapper.Proofs.Except
import ObjectWrapper.Proofs.Preprocess.Outcome

namespace ObjectWrapper
namespace Preprocess

open Source Files Directive

/-!
# Rules for the steps of a file

There is one rule for each step that a directive goes through: what holds of its
outcome follows from what holds in the few situations that the step can end in.  A
directive brings no tokens of its own and leaves the state as it is, unless it
defines or undefines a macro or includes a file.  An include directive brings nothing
either, unless it finds a file that has not been included before; then it brings what
the file comes to, between its markers, or is refused if the file cannot be read.

Which of these situations arises depends on conditions, search paths and the state;
the rules cover all of them, so a proof about a whole run need not look at any.
-/

variable {setup : Setup} {process? : Option Process} {place : Place} {state : State}
  {returns : List Token -> State -> Prop} {refuses : Refusal -> State -> Prop}

/-! ## Include directives -/

/-- The file that an include directive enters, and the state in which it does: a file that
it finds and that has not been included before. -/
def newFile? (setup : Setup) (file : String) (tokens : List Token) (state : State) :
    Option (NamedFile × State) :=
  match target? state.macros tokens with
  | none => none
  | some target =>
    match (fileHeader target).find? setup.view setup.searchPath (some file) with
    | none => none
    | some found =>
      if state.included.contains found.location then none
      else some (found, { state with
        consulted := (fileHeader target).candidates setup.searchPath (some file) ++ state.consulted
        included := found.location :: state.included })

/-- Process a file that is entered, or refuse the directive where files are nested as
deeply as they may be and where the file cannot be read. -/
def enter (process? : Option Process) (place : Place) (found : NamedFile) : Step (List Token) :=
  match process? with
  | none => refuse place .includesTooDeep
  | some process =>
    match found.content with
    | .unreadable failure => refuse place (.unreadable failure.reason)
    | .bytes content => do
      let spliced <- process found.path (tokenize (ByteText.ofBytes content))
      pure (⟨.includeBegin, place.line, found.path⟩ :: spliced ++
        [⟨.includeEnd, place.line, ""⟩])

theorem enter_of_bytes {process : Process} {found : NamedFile} {content : List UInt8}
    (readable : found.content = .bytes content) :
    enter (some process) place found =
      (process found.path (tokenize (ByteText.ofBytes content)) >>= fun spliced =>
        pure (⟨.includeBegin, place.line, found.path⟩ :: spliced ++
          [⟨.includeEnd, place.line, ""⟩])) := by
  simp only [enter, readable]

theorem enter_of_unreadable {process : Process} {found : NamedFile} {failure : ReadFailure}
    (unreadable : found.content = .unreadable failure) :
    enter (some process) place found = refuse place (.unreadable failure.reason) := by
  simp only [enter, unreadable]

/-- A file is entered because it is found and has not been included; from then on it is
listed. -/
theorem exists_of_newFile?_eq_some {file : String} {tokens : List Token} {found : NamedFile}
    {entered : State} (finds : newFile? setup file tokens state = some (found, entered)) :
    ∃ (header : Header) (consulted : List String),
      header.find? setup.view setup.searchPath (some file) = some found ∧
      found.location ∉ state.included ∧
      entered =
        { state with consulted := consulted, included := found.location :: state.included } := by
  unfold newFile? at finds
  split at finds
  · cases finds
  split at finds
  · cases finds
  rename_i header _ named finding
  split at finds
  · cases finds
  · rename_i absent
    cases finds
    exact ⟨_, _, finding, by simpa using absent, rfl⟩

theorem splice_of_newFile?_eq_some {tokens : List Token} {found : NamedFile} {entered : State}
    (finds : newFile? setup place.file tokens state = some (found, entered)) :
    splice setup process? place tokens state = enter process? place found entered := by
  unfold newFile? at finds
  unfold splice
  rw [get_bind_apply]
  split at finds
  · cases finds
  rename_i target named
  rw [named]
  simp only
  rw [set_bind_apply]
  split at finds
  · cases finds
  rename_i file finding
  rw [finding]
  simp only
  split at finds
  · cases finds
  · rename_i absent
    cases finds
    rw [if_neg absent, modify_bind_apply]
    rfl

/-- Whatever files are processed with, an include directive that enters none is refused or
brings nothing. -/
theorem splice_of_newFile?_eq_none {tokens : List Token}
    (finds : newFile? setup place.file tokens state = none) :
    (∀ process?, splice setup process? place tokens state = refuse place .invalidInclude state) ∨
      ∃ consulted, ∀ process?, splice setup process? place tokens state =
        .ok [] { state with consulted := consulted } := by
  unfold newFile? at finds
  unfold splice
  simp only [get_bind_apply]
  split at finds
  · rename_i unnamed
    rw [unnamed]
    exact .inl fun _ => rfl
  rename_i target named
  rw [named]
  simp only [set_bind_apply]
  split at finds
  · rename_i missing
    rw [missing]
    exact .inr ⟨_, fun _ => rfl⟩
  rename_i file finding
  rw [finding]
  simp only
  split at finds
  · rename_i present
    refine .inr ⟨(fileHeader target).candidates setup.searchPath (some place.file) ++
      state.consulted, fun process? => ?_⟩
    rw [if_pos present]
    rfl
  · cases finds

/-- An include directive enters a file that is found, that is new and that can be read, or
brings nothing.  It may be refused at any point on the way. -/
theorem meets_splice_of_enters (tokens : List Token)
    (skips : ∀ consulted, returns [] { state with consulted := consulted })
    (stays : ∀ refusal, refuses refusal state)
    (stops : ∀ refusal consulted location, location ∉ state.included ->
      refuses refusal
        { state with consulted := consulted, included := location :: state.included })
    (enters : ∀ (process : Process) (header : Header) (found : NamedFile)
      (content : List UInt8) (consulted : List String), process? = some process ->
      header.find? setup.view setup.searchPath (some place.file) = some found ->
      found.content = .bytes content -> found.location ∉ state.included ->
      Meets (process found.path (tokenize (ByteText.ofBytes content)))
        { state with consulted := consulted, included := found.location :: state.included }
        (fun spliced after => returns
          (⟨.includeBegin, place.line, found.path⟩ :: spliced ++ [⟨.includeEnd, place.line, ""⟩])
          after)
        refuses) :
    Meets (splice setup process? place tokens) state returns refuses := by
  cases finds : newFile? setup place.file tokens state with
  | none =>
      rcases splice_of_newFile?_eq_none finds with refused | ⟨consulted, skipped⟩
      · rw [Meets, refused process?]
        exact stays _
      · rw [Meets, skipped process?]
        exact skips consulted
  | some entry =>
      rcases entry with ⟨found, entered⟩
      rcases exists_of_newFile?_eq_some finds with ⟨header, consulted, finding, absent, rfl⟩
      rw [Meets, splice_of_newFile?_eq_some finds]
      change Meets (enter process? place found) _ returns refuses
      cases process? with
      | none => exact stops _ _ _ absent
      | some process =>
          cases readable : found.content with
          | unreadable failure =>
              rw [enter_of_unreadable readable]
              exact stops _ _ _ absent
          | bytes content =>
              rw [enter_of_bytes readable, meets_bind]
              exact enters process header found content consulted rfl finding readable absent

/-! ## Directives -/

/-- A directive that has no part in the structure of groups changes the macros, or
includes a file, or has no effect. -/
theorem meets_obey_of_splice (directive : Request) (nothing : returns [] state)
    (stays : ∀ refusal, refuses refusal state)
    (defines : ∀ tokens named, directive = .define tokens -> namedDefinition tokens = .ok named ->
      returns [] { state with macros := state.macros.define named.1 named.2 })
    (undefines : ∀ name, returns [] { state with macros := state.macros.erase name })
    (splices : ∀ tokens, directive = .include tokens ->
      Meets (splice setup process? place tokens) state returns refuses) :
    Meets (obey setup process? place directive) state returns refuses := by
  match directive with
  | .define tokens =>
      unfold obey
      rw [meets_bind]
      apply meets_orRefuse
      · intro named read
        exact defines tokens named rfl read
      · exact fun _ _ => stays _
  | .undefine tokens =>
      unfold obey
      rw [meets_bind]
      exact (leavesState_requiredName place tokens).meets undefines stays
  | .include tokens => exact splices tokens rfl
  | .ifHolds _ | .ifDefined _ _ | .elif _ | .otherwise | .endif | .ignored => exact nothing

/-- A directive that structures groups brings nothing; in an inactive branch any
other one is skipped. -/
theorem meets_perform_of_obey (groups : List Group) (directive : Request)
    (nothing : returns [] state) (stays : ∀ refusal, refuses refusal state)
    (obeys : Meets (obey setup process? place directive) state returns refuses) :
    Meets (perform setup process? place groups directive) state
      (fun done after => returns done.2 after) refuses := by
  have asks : ∀ (question : Step Bool) (chosen : Bool -> List Group), LeavesState question ->
      Meets (question >>= fun holds => pure (chosen holds, ([] : List Token))) state
        (fun done after => returns done.2 after) refuses := by
    intro question chosen leaves
    rw [meets_bind]
    exact leaves.meets (fun _ => nothing) stays
  unfold perform
  simp only
  split
  · split
    · exact asks _ _ (leavesState_conditionHolds place _)
    · exact nothing
  · split
    · exact asks _ _ (leavesState_nameHolds place _ _)
    · exact nothing
  · exact stays _
  · split
    · exact stays _
    · split
      · exact asks _ _ (leavesState_conditionHolds place _)
      · exact nothing
  · exact stays _
  · split
    · exact stays _
    · exact nothing
  · exact stays _
  · exact nothing
  · split
    · rw [meets_bind]
      exact obeys
    · exact nothing

end Preprocess
end ObjectWrapper
