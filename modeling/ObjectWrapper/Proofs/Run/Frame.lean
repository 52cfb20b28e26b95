import ObjectWrapper.Proofs.Except
import ObjectWrapper.Run.Session

namespace ObjectWrapper
namespace Run

open Files Source

/-!
# What a run touches

A run has effects of three kinds: on files, on standard output and on what is shown.  Its
first step has none of them and does all the reading.  So whatever stops the run by then
leaves everything as it was, and the bytes that are written later are made from the files
as they were before the output was created, be it one of them or not.

Reading the input and preprocessing it are taken as given.  Nothing is said about what
they come to, only about what a run does with it.
-/

/-! ## Files that a write leaves alone -/

/-- The trees differ at most in the content of the file at the given location. -/
structure KeepsOutside (location? : Option Location) (before after : Tree) : Prop where
  workingDirectory : after.workingDirectory = before.workingDirectory
  directories : after.directories = before.directories
  content? : ∀ location, location? ≠ some location ->
    after.content? location = before.content? location

theorem KeepsOutside.refl (location? : Option Location) (tree : Tree) :
    KeepsOutside location? tree tree :=
  ⟨rfl, rfl, fun _ _ => rfl⟩

theorem KeepsOutside.trans {location? : Option Location} {first second third : Tree}
    (before : KeepsOutside location? first second) (after : KeepsOutside location? second third) :
    KeepsOutside location? first third where
  workingDirectory := after.workingDirectory.trans before.workingDirectory
  directories := after.directories.trans before.directories
  content? location outside :=
    (after.content? location outside).trans (before.content? location outside)

theorem content?_put_self (tree : Tree) (location : Location) (content : List UInt8) :
    (tree.put location content).content? location = some content := by
  simp [Tree.put, Tree.content?]

theorem lookup_filter_of_ne {location other : Location} (apart : other ≠ location)
    (files : List (Location × List UInt8)) :
    (files.filter fun file => file.1 != location).lookup other = files.lookup other := by
  induction files with
  | nil => rfl
  | cons file rest ih =>
      rcases file with ⟨place, content⟩
      by_cases replaced : place = location
      · subst place
        simpa [List.lookup_cons, beq_eq_false_iff_ne.mpr apart] using ih
      · simp [replaced, List.lookup_cons, ih]

theorem keepsOutside_put (tree : Tree) (location : Location) (content : List UInt8) :
    KeepsOutside (some location) tree (tree.put location content) where
  workingDirectory := rfl
  directories := rfl
  content? other outside := by
    have apart : other ≠ location := fun equal => outside (congrArg some equal.symm)
    change ((location, content) :: tree.files.filter fun file => file.1 != location).lookup other =
      tree.files.lookup other
    rw [List.lookup_cons, beq_eq_false_iff_ne.mpr apart]
    exact lookup_filter_of_ne apart tree.files

theorem keepsOutside_append (tree : Tree) (location : Location) (content : List UInt8) :
    KeepsOutside (some location) tree (tree.append location content) :=
  keepsOutside_put tree location _

theorem KeepsOutside.isDirectory_eq {location? : Option Location} {before after : Tree}
    (keeps : KeepsOutside location? before after) (location : Location) :
    after.isDirectory location = before.isDirectory location := by
  rw [Tree.isDirectory, keeps.directories]
  rfl

/-- Where paths lead depends on the directories only. -/
theorem KeepsOutside.locate_eq {location? : Option Location} {before after : Tree}
    (keeps : KeepsOutside location? before after) (path : String) :
    after.locate path = before.locate path := by
  have walked : ∀ segments location,
      after.walk location segments = before.walk location segments := by
    intro segments
    induction segments with
    | nil => exact fun _ => rfl
    | cons segment rest ih =>
        intro location
        rw [Tree.walk, Tree.walk, keeps.isDirectory_eq, ih]
  rw [Tree.locate, Tree.locate, keeps.workingDirectory]
  simp only [walked]

/-- A path that does not lead to the location names what it has named before. -/
theorem KeepsOutside.view_eq {location? : Option Location} {before after : Tree}
    (keeps : KeepsOutside location? before after) {path : String}
    (elsewhere : ∀ location, before.locate path = some location -> location? ≠ some location) :
    after.view path = before.view path := by
  unfold Tree.view
  rw [keeps.locate_eq]
  cases led : before.locate path with
  | none => rfl
  | some location =>
      change after.entryAt location = before.entryAt location
      rw [Tree.entryAt, Tree.entryAt, keeps.isDirectory_eq,
        keeps.content? location (elsewhere location led)]

/-! ## What the reading comes to -/

section

variable (view : View) (settings : Settings) (standardInput : List UInt8)

/-- The bytes of the input. -/
inductive Supplies : List UInt8 -> Prop
  | standard (unnamed : settings.input? = none) : Supplies standardInput
  | file (path : String) (location : Location) (content : List UInt8)
      (named : settings.input? = some path)
      (found : view path = some (.file location (.bytes content))) : Supplies content

/-- What preprocessing an input comes to. -/
def preprocessed (input : List UInt8) : EStateM.Result Directive.Refusal Preprocess.State
    (List Token) :=
  Preprocess.preprocess ⟨view, settings.searchPath⟩ settings.inputName input
    (.initial settings.macros)

/-- The input is read and preprocessed to the given tokens. -/
def Prepares (tokens : List Token) : Prop :=
  ∃ input state, Supplies view settings standardInput input ∧
    preprocessed view settings input = .ok tokens state

/-- The input cannot be opened or read, or preprocessing fails. -/
inductive Refuses : Problem -> Prop
  | notFound (path : String) (named : settings.input? = some path) (missing : view path = none) :
      Refuses (.inputNotFound path)
  | isDirectory (path : String) (named : settings.input? = some path)
      (found : view path = some .directory) : Refuses .inputIsDirectory
  | unopened (path : String) (location : Location) (reason : String)
      (named : settings.input? = some path)
      (found : view path = some (.file location (.unreadable ⟨false, reason⟩))) :
      Refuses (.inputNotFound path)
  | unreadable (path : String) (location : Location) (reason : String)
      (named : settings.input? = some path)
      (found : view path = some (.file location (.unreadable ⟨true, reason⟩))) :
      Refuses (.inputUnreadable reason)
  | preprocessing (input : List UInt8) (refusal : Directive.Refusal) (state : Preprocess.State)
      (supplies : Supplies view settings standardInput input)
      (fails : preprocessed view settings input = .error refusal state) :
      Refuses (.refused refusal)

end

section

variable {view : View} {settings : Settings} {standardInput : List UInt8}

theorem Supplies.readInput_eq {input : List UInt8}
    (supplies : Supplies view settings standardInput input) :
    readInput view settings standardInput = .ok input := by
  cases supplies with
  | standard unnamed => simp only [readInput, unnamed]
  | file path location content named found => simp only [readInput, named, found]

theorem Prepares.result_attempt {tokens : List Token}
    (prepares : Prepares view settings standardInput tokens) :
    (attempt view settings standardInput).result = .ok (productOf settings tokens) := by
  rcases prepares with ⟨input, state, supplies, reached⟩
  change Preprocess.preprocess _ _ _ _ = _ at reached
  simp only [attempt, supplies.readInput_eq, processInput, reached]

theorem Refuses.result_attempt {problem : Problem}
    (refuses : Refuses view settings standardInput problem) :
    (attempt view settings standardInput).result = .error problem := by
  cases refuses with
  | notFound path named missing => simp only [attempt, readInput, named, missing]
  | isDirectory path named found => simp only [attempt, readInput, named, found]
  | unopened path location reason named found =>
      simp only [attempt, readInput, named, found, Bool.false_eq_true, if_false]
  | unreadable path location reason named found =>
      simp only [attempt, readInput, named, found, if_true]
  | preprocessing input refusal state supplies fails =>
      change Preprocess.preprocess _ _ _ _ = _ at fails
      simp only [attempt, supplies.readInput_eq, processInput, fails]

/-- The input is read and preprocessed, or there is a problem with it. -/
theorem exists_prepares_or_refuses (view : View) (settings : Settings)
    (standardInput : List UInt8) :
    (∃ tokens, Prepares view settings standardInput tokens) ∨
      ∃ problem, Refuses view settings standardInput problem := by
  have processed : ∀ input, Supplies view settings standardInput input ->
      (∃ tokens, Prepares view settings standardInput tokens) ∨
        ∃ problem, Refuses view settings standardInput problem := by
    intro input supplies
    cases reached : preprocessed view settings input with
    | ok tokens state => exact .inl ⟨tokens, input, state, supplies, reached⟩
    | error refusal state => exact .inr ⟨_, .preprocessing input refusal state supplies reached⟩
  cases named : settings.input? with
  | none => exact processed standardInput (.standard named)
  | some path =>
      cases found : view path with
      | none => exact .inr ⟨_, .notFound path named found⟩
      | some entry =>
          cases entry with
          | directory => exact .inr ⟨_, .isDirectory path named found⟩
          | file location content =>
              rcases content with content | ⟨_ | _, reason⟩
              · exact processed content (.file path location content named found)
              · exact .inr ⟨_, .unopened path location reason named found⟩
              · exact .inr ⟨_, .unreadable path location reason named found⟩

end

/-! ## Steps -/

section

variable {settings : Settings} {standardInput : List UInt8} {world : World}

theorem prepare_of_prepares {tokens : List Token}
    (prepares : Prepares world.tree.view settings standardInput tokens) :
    prepare settings standardInput world = .ok (productOf settings tokens) world := by
  change (MonadExcept.ofExcept (attempt world.tree.view settings standardInput).result :
    Act Product) world = _
  rw [prepares.result_attempt]
  rfl

theorem prepare_of_refuses {problem : Problem}
    (refuses : Refuses world.tree.view settings standardInput problem) :
    prepare settings standardInput world = .error problem world := by
  change (MonadExcept.ofExcept (attempt world.tree.view settings standardInput).result :
    Act Product) world = _
  rw [refuses.result_attempt]
  rfl

theorem create_of_creatable?_eq_none {path : String} (blocked : world.tree.creatable? path = none) :
    create (some path) world = .error (.outputNotCreated path) world := by
  change (MonadExcept.ofExcept ((world.tree.creatable? path).elim (.error _) .ok) >>= _ :
    Act Sink) world = _
  rw [blocked]
  rfl

theorem create_of_creatable?_eq_some {path : String} {location : Location}
    (creatable : world.tree.creatable? path = some location) :
    create (some path) world =
      .ok (.file location) { world with tree := world.tree.put location [] } := by
  change (MonadExcept.ofExcept ((world.tree.creatable? path).elim (.error _) .ok) >>= _ :
    Act Sink) world = _
  rw [creatable]
  rfl

end

/-! ## Whole runs -/

/-- The outcome of a run that does nothing but fail. -/
def Outcome.failed (tree : Tree) (problem : Problem) : Outcome :=
  ⟨tree, [], "", some problem⟩

/-- What can be read afterwards where the output goes. -/
def Outcome.written? (outcome : Outcome) (output? : Option String) : Option (List UInt8) :=
  match output? with
  | none => some outcome.standardOutput
  | some path => (outcome.tree.view.file? path).bind fun file => file.content.bytes?

/-- A run has written and shown a product, and done nothing else to the files. -/
structure Delivers (tree : Tree) (output? : Option String) (product : Product)
    (outcome : Outcome) : Prop where
  succeeds : outcome.problem? = none
  notices : outcome.notices = product.notices
  written : outcome.written? output? = some product.bytes
  standardOutput : output? ≠ none -> outcome.standardOutput = []
  keeps : KeepsOutside (output?.bind tree.locate) tree outcome.tree

section

variable {tree : Tree} {settings : Settings} {standardInput : List UInt8}

theorem run_of_refuses {problem : Problem}
    (refuses : Refuses tree.view settings standardInput problem) :
    run tree settings standardInput = .failed tree problem := by
  have stopped : perform settings standardInput { tree } = .error problem { tree } :=
    bind_of_error (prepare_of_refuses refuses)
  rw [run, Act.outcome, stopped]
  rfl

theorem run_of_creatable?_eq_none {tokens : List Token} {path : String}
    (prepares : Prepares tree.view settings standardInput tokens)
    (named : settings.output? = some path) (blocked : tree.creatable? path = none) :
    run tree settings standardInput = .failed tree (.outputNotCreated path) := by
  have stopped : perform settings standardInput { tree } =
      .error (.outputNotCreated path) { tree } := by
    rw [perform, bind_of_ok (prepare_of_prepares prepares), named]
    exact bind_of_error (create_of_creatable?_eq_none blocked)
  rw [run, Act.outcome, stopped]
  rfl

theorem run_of_output?_eq_none {tokens : List Token}
    (prepares : Prepares tree.view settings standardInput tokens)
    (unnamed : settings.output? = none) :
    run tree settings standardInput =
      ⟨tree, (productOf settings tokens).bytes, (productOf settings tokens).notices, none⟩ := by
  have done : perform settings standardInput { tree } = .ok () ⟨tree,
      [] ++ (productOf settings tokens).bytes, "" ++ (productOf settings tokens).notices⟩ := by
    rw [perform, bind_of_ok (prepare_of_prepares prepares), unnamed]
    rfl
  rw [List.nil_append, String.empty_append] at done
  rw [run, Act.outcome, done]

theorem run_of_creatable?_eq_some {tokens : List Token} {path : String} {location : Location}
    (prepares : Prepares tree.view settings standardInput tokens)
    (named : settings.output? = some path) (creatable : tree.creatable? path = some location) :
    run tree settings standardInput =
      ⟨(tree.put location []).append location (productOf settings tokens).bytes, [],
        (productOf settings tokens).notices, none⟩ := by
  have done : perform settings standardInput { tree } = .ok ()
      ⟨(tree.put location []).append location (productOf settings tokens).bytes, [],
        "" ++ (productOf settings tokens).notices⟩ := by
    rw [perform, bind_of_ok (prepare_of_prepares prepares), named,
      bind_of_ok (create_of_creatable?_eq_some creatable)]
    rfl
  rw [String.empty_append] at done
  rw [run, Act.outcome, done]

theorem of_creatable?_eq_some {path : String} {location : Location}
    (creatable : tree.creatable? path = some location) :
    tree.locate path = some location ∧ tree.isDirectory location = false := by
  unfold Tree.creatable? at creatable
  split at creatable
  · cases creatable
  · rename_i reached led
    split at creatable
    · cases creatable
    · rename_i free
      cases creatable
      refine ⟨led, ?_⟩
      cases directory : tree.isDirectory location with
      | false => rfl
      | true => exact absurd (by rw [directory]; rfl) free

/-- What is written to a file that has just been created is all there is in it. -/
theorem content?_append_put (tree : Tree) (location : Location) (content : List UInt8) :
    ((tree.put location []).append location content).content? location = some content := by
  rw [Tree.append, content?_put_self, content?_put_self]
  rfl

theorem delivers_run {tokens : List Token}
    (prepares : Prepares tree.view settings standardInput tokens)
    (creatable : ∀ path, settings.output? = some path -> tree.creatable? path ≠ none) :
    Delivers tree settings.output? (productOf settings tokens)
      (run tree settings standardInput) := by
  cases named : settings.output? with
  | none =>
      rw [run_of_output?_eq_none prepares named]
      exact ⟨rfl, rfl, rfl, fun absent => absurd rfl absent, .refl none tree⟩
  | some path =>
      rcases Option.ne_none_iff_exists'.mp (creatable path named) with ⟨location, created⟩
      rcases of_creatable?_eq_some created with ⟨led, free⟩
      rw [run_of_creatable?_eq_some prepares named created]
      have keeps : KeepsOutside (some location) tree
          ((tree.put location []).append location (productOf settings tokens).bytes) :=
        (keepsOutside_put tree location []).trans (keepsOutside_append _ location _)
      refine ⟨rfl, rfl, ?_, fun _ => rfl, ?_⟩
      · have found : ((tree.put location []).append location
            (productOf settings tokens).bytes).view path =
              some (.file location (.bytes (productOf settings tokens).bytes)) := by
          rw [Tree.view, keeps.locate_eq, led, Option.bind_some, Tree.entryAt,
            keeps.isDirectory_eq, free, if_neg Bool.false_ne_true, content?_append_put]
          rfl
        change (View.file? _ path).bind (fun file => file.content.bytes?) = _
        rw [View.file?, found]
        rfl
      · rw [Option.bind_some, led]
        exact keeps

/-- The product of a run that comes to one does not depend on where it is written to. -/
theorem exists_delivers_of_problem?_eq_none {output? : Option String}
    (succeeds : (run tree { settings with output? := output? } standardInput).problem? = none) :
    ∃ product, (attempt tree.view settings standardInput).result = .ok product ∧
      Delivers tree output? product
        (run tree { settings with output? := output? } standardInput) := by
  have fails : ∀ problem,
      run tree { settings with output? := output? } standardInput ≠ .failed tree problem := by
    intro problem failed
    rw [failed] at succeeds
    cases succeeds
  rcases exists_prepares_or_refuses tree.view { settings with output? := output? } standardInput
    with ⟨tokens, prepares⟩ | ⟨problem, refuses⟩
  · refine ⟨productOf settings tokens, prepares.result_attempt, delivers_run prepares ?_⟩
    intro path named blocked
    exact fails _ (run_of_creatable?_eq_none prepares named blocked)
  · exact absurd (run_of_refuses refuses) (fails problem)

end

/-- A run that cannot read or preprocess its input, or cannot create its output, changes no
file, writes nothing and shows nothing.  Any other run writes the product of what has been
there before, changing no file but its output.  So outputs of all kinds, the input and
the files that it includes among them, get the same bytes. -/
theorem run_touches_output_only (tree : Tree) (settings : Settings) (standardInput : List UInt8) :
    ((∃ tokens, Prepares tree.view settings standardInput tokens) ∨
      ∃ problem, Refuses tree.view settings standardInput problem) ∧
    (∀ problem, Refuses tree.view settings standardInput problem ->
      run tree settings standardInput = .failed tree problem) ∧
    (∀ tokens path, Prepares tree.view settings standardInput tokens ->
      settings.output? = some path -> tree.creatable? path = none ->
      run tree settings standardInput = .failed tree (.outputNotCreated path)) ∧
    (∀ tokens, Prepares tree.view settings standardInput tokens ->
      (∀ path, settings.output? = some path -> tree.creatable? path ≠ none) ->
      Delivers tree settings.output? (productOf settings tokens)
        (run tree settings standardInput)) ∧
    (∀ first second : Option String,
      (run tree { settings with output? := first } standardInput).problem? = none ->
      (run tree { settings with output? := second } standardInput).problem? = none ->
      (run tree { settings with output? := first } standardInput).written? first =
          (run tree { settings with output? := second } standardInput).written? second ∧
        (run tree { settings with output? := first } standardInput).notices =
          (run tree { settings with output? := second } standardInput).notices) := by
  refine ⟨exists_prepares_or_refuses _ _ _, fun _ => run_of_refuses,
    fun _ _ => run_of_creatable?_eq_none, fun _ => delivers_run, ?_⟩
  intro first second succeedsFirst succeedsSecond
  rcases exists_delivers_of_problem?_eq_none succeedsFirst with ⟨product, made, delivers⟩
  rcases exists_delivers_of_problem?_eq_none succeedsSecond with ⟨other, madeToo, deliversToo⟩
  have same : other = product := Except.ok.inj (madeToo.symm.trans made)
  subst other
  exact ⟨delivers.written.trans deliversToo.written.symm,
    delivers.notices.trans deliversToo.notices.symm⟩

/-- A header that includes a file, and the file. -/
def includingTree : Tree :=
  (((Tree.empty ["work"]).put ["work", "a.h"] "#include \"b.h\"\nint a;\n".toUTF8.toList).put
    ["work", "b.h"] "int b;\n".toUTF8.toList)

/-- The included file gets the same bytes as a file that was not there. -/
theorem run_touches_output_only_includedFile :
    (run includingTree { input? := some "a.h", preprocessOnly := true, output? := some "./b.h" }
        []).written? (some "./b.h") =
      (run includingTree { input? := some "a.h", preprocessOnly := true, output? := some "c.h" }
        []).written? (some "c.h") ∧
      (run includingTree { input? := some "a.h", preprocessOnly := true, output? := some "./b.h" }
        []).written? (some "./b.h") = some "\nint b; \nint a; \n".toUTF8.toList := by
  have included : (run includingTree
      { input? := some "a.h", preprocessOnly := true, output? := some "./b.h" } []).problem? =
      none := by
    decide +kernel
  have fresh : (run includingTree
      { input? := some "a.h", preprocessOnly := true, output? := some "c.h" } []).problem? =
      none := by
    decide +kernel
  have touches := run_touches_output_only includingTree
    { input? := some "a.h", preprocessOnly := true } []
  exact ⟨(touches.2.2.2.2 (some "./b.h") (some "c.h") included fresh).1, by decide +kernel⟩

end Run
end ObjectWrapper
