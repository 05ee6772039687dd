import ScriptLang.Cli.Command
import ScriptLang.Proofs.Cli.Files
import ScriptLang.Proofs.Cli.Options
import ScriptLang.Proofs.Json.Plain
import ScriptLang.Proofs.Run.Chain
import ScriptLang.Proofs.Tree.Depth
import ScriptLang.Proofs.Tree.Stored

/-!
# Running a tree that was stored

A source may be run, or its tree may be stored first and run then. The tree is found again in the
file that it was stored in, with every line and value, so both runs do the same. Only what is said
on the way to the tree is said once: what the scan of the source leaves open, and how many
statements there are.

## Main Definitions

* `loadedBy`: the program that a source is, by either parser.
* `FitsIn`: the document of a program keeps the limits.

## Main Statements

* `runStored_of_write`: what is run of a file that holds a tree.
* `stored_run_matches`: storing and running a tree against running its source.
* `stored_run_differs`: where a tree is not found, or is not stored at all.
-/

namespace ScriptLang

/-- The document of a program keeps the limits. -/
structure FitsIn (program : List Stmt) (limits : Limits) : Prop where
  depth : (Document.program program).toJson.depth ≤ limits.nesting
  digits : (Document.program program).toJson.longest ≤ limits.digits

theorem FitsIn.height {program : List Stmt} {limits : Limits} (h : FitsIn program limits)
    (hsource : FromSource program) : (Document.program program).height ≤ limits.nesting :=
  (Document.height_le_depth_program hsource.storable).trans h.depth

namespace Cli

/-! ### Loading -/

/-- The program that a source is, by the reference grammar or by the parser, and what its scan
leaves open. -/
def loadedBy (grammar : Bool) (limit : Nat) (source : String) : Option Loaded :=
  if grammar then
    (Grammar.parseWithGrammar limit source).toOption.map fun program =>
      { program, recovered := none }
  else (programOf limit source).toOption

variable {grammar : Bool} {limit : Nat} {source : String} {loaded : Loaded}

theorem fromSource_of_loadedBy (h : loadedBy grammar limit source = some loaded) :
    FromSource loaded.program := by
  unfold loadedBy at h
  split at h
  · cases hparse : Grammar.parseWithGrammar limit source with
    | error e =>
        rw [hparse] at h
        cases h
    | ok program =>
        rw [hparse] at h
        cases h
        exact .grammar hparse
  · cases hload : programOf limit source with
    | error failure =>
        rw [hload] at h
        cases h
    | ok other =>
        rw [hload] at h
        cases h
        exact .parser hload

/-- What options load, with the lines for what the scan leaves open. -/
theorem load_of_loadedBy {options : Options}
    (h : loadedBy options.grammar limit source = some loaded) :
    options.load limit source =
      (options.errors (loaded.recovered.toList.map ScanError.diagnostic), .ok loaded.program) := by
  unfold loadedBy at h
  unfold Options.load
  split at h
  · next hgrammar =>
    rw [if_pos hgrammar]
    cases hparse : Grammar.parseWithGrammar limit source with
    | error e =>
        rw [hparse] at h
        cases h
    | ok program =>
        rw [hparse] at h
        cases h
        rfl
  · next hgrammar =>
    rw [if_neg hgrammar]
    unfold programOf at h
    cases hscan : scan source with
    | error e =>
        rw [hscan] at h
        cases h
    | ok scanned =>
        rw [hscan] at h
        dsimp only at h ⊢
        cases hparse : Parse.parse limit scanned.tokens with
        | error failure =>
            rw [hparse] at h
            cases h
        | ok program =>
            rw [hparse] at h
            cases h
            rfl

/-! ### Running -/

/-- How the command ends after a run. -/
def exitOf : Ending → Exit
  | .completed => .code 0
  | .unfinished => .crash .unfinished
  | .failed failure => if failure.diagnostic?.isSome then .code 1 else .crash (.run failure)

/-- What is said of the end of a run. -/
def Options.said (options : Options) : Ending → String
  | .failed failure => options.errors failure.diagnostic?.toList
  | _ => ""

/-- The files after a run. -/
def filesAfter (files : Files) (session : Session) : Files :=
  match session.outside.file.contents with
  | some trace => files.write traceName trace
  | none => files

/-- **What a run reports**, from the session it leaves and its end. -/
theorem run_eq (options : Options) (limit fuel : Nat) (files : Files) (logged : String)
    (rule : Truthiness) (program : List Stmt) :
    let config : Config := { truthiness := rule, level := options.verbosity, limit }
    let ended := (Session.fresh config .file (files.read? traceName)).run fuel program
    options.run limit fuel files logged rule program =
      { exit := exitOf ended.2, out := ended.1.outside.out, err := logged ++ options.said ended.2
        files := filesAfter files ended.1 } := by
  dsimp only
  unfold Options.run
  dsimp only
  generalize (Session.fresh { truthiness := rule, level := options.verbosity, limit } .file
    (files.read? traceName)).run fuel program = ended
  obtain ⟨session, ending⟩ := ended
  cases ending with
  | completed =>
      simp only [exitOf, Options.said, String.append_empty]
      rfl
  | unfinished =>
      simp only [exitOf, Options.said, String.append_empty]
      rfl
  | failed failure =>
      cases hdiagnostic : failure.diagnostic? with
      | none =>
          have hnone : options.errors [] = "" := rfl
          simp only [exitOf, Options.said, hdiagnostic, Option.toList_none, hnone,
            String.append_empty]
          rfl
      | some d =>
          simp only [exitOf, Options.said, hdiagnostic, Option.toList_some]
          rfl

theorem read?_filesAfter {files files' : Files}
    (h : files.read? traceName = files'.read? traceName) (session : Session) :
    (filesAfter files session).read? traceName = (filesAfter files' session).read? traceName := by
  have hspelled : (Path.ofText traceName.text).text = traceName.text :=
    Path.text_ofText_text _
  unfold filesAfter
  split
  · rw [Files.read?_write _ hspelled, Files.read?_write _ hspelled, if_pos rfl, if_pos rfl]
  · exact h

/-- Runs of one program with the same verbosity, by the same rule and with the same old trace: they
end alike, print alike, leave the same trace, and say the same behind what the log held before. -/
theorem run_alike {options options' : Options} (hverbosity : options.verbosity = options'.verbosity)
    {files files' : Files} (hfiles : files.read? traceName = files'.read? traceName)
    (limit fuel : Nat) (rule : Truthiness) (program : List Stmt) (logged logged' : String) :
    let run := options.run limit fuel files logged rule program
    let run' := options'.run limit fuel files' logged' rule program
    run.exit = run'.exit ∧ run.out = run'.out ∧
      run.files.read? traceName = run'.files.read? traceName ∧
      ∃ said, run.err = logged ++ said ∧ run'.err = logged' ++ said := by
  have hsaid (ending : Ending) : options.said ending = options'.said ending := by
    cases ending <;> simp only [Options.said, Options.errors, Options.log, hverbosity]
  dsimp only
  rw [run_eq, run_eq, hverbosity, hfiles, hsaid]
  exact ⟨rfl, rfl, read?_filesAfter hfiles _, _, rfl, rfl⟩

/-! ### Trees in files -/

variable {limits : Limits} {program : List Stmt}

theorem readText?_eq_some {files : Files} {path : Path} {contents : String}
    (h : files.read? path = some contents) (hplain : '\r' ∉ contents.toList) :
    readText? files path = some contents := by
  rw [readText?, h, Option.map_some, unifyNewlines_of_not_mem hplain, String.ofList_toList]

/-- **A file that a tree was written to** is read as its text, and as the tree. -/
theorem read_of_write (files : Files) {path : Path}
    (hpath : (Path.ofText path.text).text = path.text) (hsource : FromSource program)
    (hfits : FitsIn program limits) :
    let text := (Document.program program).toJson.write
    readText? (files.write path text) path = some text ∧
      ∃ json, Json.read limits text = .ok json ∧
        Document.load limits.nesting json = .ok (.program program) := by
  have hmeets : (Document.program program).Meets .storable := hsource.storable
  have hload := (Document.load_stored hmeets (hfits.height hsource)).2.2
  refine ⟨?_, hload limits hfits.depth hfits.digits⟩
  refine readText?_eq_some (by rw [Files.read?_write _ hpath, if_pos rfl]) ?_
  intro hmem
  rcases Json.plainOrNewline_write _ _ hmem with hnewline | hplain
  · exact absurd hnewline (by decide)
  · exact absurd hplain (by decide)

/-- **What is run of a file that a tree was written to** is the program. -/
theorem runStored_of_write {options : Options} (files : Files) {name : String}
    (hsource : FromSource program) (hfits : FitsIn program limits)
    {rule : Truthiness} (hrule : options.truthiness = some rule) (fuel : Nat) :
    let stored := files.write (Path.ofText name) (Document.program program).toJson.write
    options.runStored limits fuel stored name =
      options.run limits.nesting fuel stored "" rule program := by
  obtain ⟨htext, json, hjson, hdocument⟩ :=
    read_of_write files (Path.text_ofText_text name) hsource hfits
  dsimp only
  rw [Options.runStored, htext]
  simp only [hjson, hdocument, hrule]
  rfl

/-- **What is stored** of a source whose tree keeps the limits. -/
theorem storeTree_of_loadedBy {options : Options} {files : Files} {name : String}
    (hread : readText? files (Path.ofText name) = some source)
    (hload : loadedBy options.grammar limit source = some loaded)
    (hheight : (Document.program loaded.program).height ≤ limit) :
    let target := (Path.ofText name).append ".ast.json"
    options.storeTree limit files name =
      { out := target.text ++ "\n"
        err := options.errors (loaded.recovered.toList.map ScanError.diagnostic)
        files := files.write target (Document.program loaded.program).toJson.write } := by
  have hstore : (Document.program loaded.program).store limit =
      some (Document.program loaded.program).toJson := if_pos hheight
  dsimp only
  rw [Options.storeTree, hread]
  simp only [load_of_loadedBy hload, hstore]

/-- A tree that is nested too deeply is not stored. -/
theorem storeTree_of_lt_height {options : Options} {files : Files} {name : String}
    (hread : readText? files (Path.ofText name) = some source)
    (hload : loadedBy options.grammar limit source = some loaded)
    (hheight : limit < (Document.program loaded.program).height) :
    options.storeTree limit files name =
      { exit := .code 1
        err := options.errors (loaded.recovered.toList.map ScanError.diagnostic) ++
          options.nestingError
        files } := by
  have hstore : (Document.program loaded.program).store limit = none :=
    if_neg (Nat.not_le_of_lt hheight)
  rw [Options.storeTree, hread]
  simp only [load_of_loadedBy hload, hstore]

/-- A tree that was not stored is not run. -/
theorem runStored_of_none {options : Options} {files : Files} {name : String}
    (h : files.read? (Path.ofText name) = none) (fuel : Nat) :
    options.runStored limits fuel files name = notFound files (Path.ofText name) := by
  rw [Options.runStored, readText?, h, Option.map_none]

/-- **What is run** of a source that loads. -/
theorem runSource_of_loadedBy {options : Options} {files : Files} {name : String}
    (hread : readText? files (Path.ofText name) = some source)
    (hload : loadedBy options.grammar limit source = some loaded) {rule : Truthiness}
    (hrule : options.truthiness = some rule) (fuel : Nat) :
    options.runSource limit fuel files name = options.run limit fuel files
      (options.errors (loaded.recovered.toList.map ScanError.diagnostic) ++
        options.log.write .debug ("parsed " ++ Number.wholeText loaded.program.length
          ++ " top-level statements from " ++ name)) rule loaded.program := by
  rw [Options.runSource, hread]
  simp only [load_of_loadedBy hload, hrule]

/-! ### Names of trees -/

/-- The file that a tree is stored in is not the one that a trace is written to. -/
theorem text_stored_ne (name : String) (h : Path.EndsInPart name) :
    (Path.ofText (name ++ ".ast.json")).text ≠ traceName.text := by
  intro htext
  have hpath : Path.ofText (name ++ ".ast.json") = traceName := by
    rw [← Path.ofText_text, htext]
    rfl
  obtain ⟨before, c, cs, hparts⟩ := h.exists_parts
  have hlast := congrArg (fun path => (path.parts.getLastD []).length) hpath
  rw [hparts ".ast.json" (by decide), List.getLastD_concat] at hlast
  have hlength : (traceName.parts.getLastD []).length = 9 := by decide
  have hending : ".ast.json".toList.length = 9 := by decide
  simp only [hlength, List.length_cons, List.length_append, hending] at hlast
  omega

theorem ne_empty_of_endsInPart {name : String} (h : Path.EndsInPart name) : name ≠ "" := by
  rintro rfl
  exact absurd h (by decide)

/-! ### The command -/

section Modes

variable {name : String} (h : classify name = .ok (.plain name)) (limits : Limits)
  (verbosity : Nat) (rule : Option Truthiness) (grammar : Bool) (fuel : Nat) (files : Files)
include h

theorem command_emitAst (hne : name ≠ "") :
    command limits fuel (optionArguments verbosity rule grammar ++ ["--emit-ast", name]) files =
      { optionsOf verbosity rule grammar with mode := some (.emitAst, name) }.storeTree
        limits.nesting files name := by
  have hspelling : classify "--emit-ast" = .ok (.flag .emitAst "--emit-ast" none) := rfl
  rw [command, readOptions_mode verbosity rule grammar rfl hspelling h]
  simp only [Options.execute, Options.input, if_neg hne]

theorem command_ast (hne : name ≠ "") :
    command limits fuel (optionArguments verbosity rule grammar ++ ["--ast", name]) files =
      { optionsOf verbosity rule grammar with mode := some (.ast, name) }.runStored
        limits fuel files name := by
  have hspelling : classify "--ast" = .ok (.flag .ast "--ast" none) := rfl
  rw [command, readOptions_mode verbosity rule grammar rfl hspelling h]
  simp only [Options.execute, Options.input, if_neg hne]

theorem command_program :
    command limits fuel (optionArguments verbosity rule grammar ++ [name]) files =
      { optionsOf verbosity rule grammar with program := some name }.runSource
        limits.nesting fuel files name := by
  rw [command, readOptions_program verbosity rule grammar h]
  rfl

end Modes

/-- **Storing a tree and running it is running its source**, whatever the verbosity, the rule for
truth and the parser. The source is one that loads; its name, with and without what is added for the
tree, is read as a plain argument and ends in a part that says something; its tree keeps the limits.
The tree is stored, and both runs end alike, print alike and leave the same trace. What they say
differs by the lines for what the scan leaves open and the one that counts the statements. -/
theorem stored_run_matches {files : Files} {name source : String} {loaded : Loaded} {grammar : Bool}
    (hname : classify name = .ok (.plain name))
    (hstored : classify (name ++ ".ast.json") = .ok (.plain (name ++ ".ast.json")))
    (hpart : Path.EndsInPart name) (hread : readText? files (Path.ofText name) = some source)
    (hload : loadedBy grammar limits.nesting source = some loaded)
    (hfits : FitsIn loaded.program limits)
    (verbosity verbosity' : Nat) (rule rule' : Option Truthiness) (grammar' : Bool) (fuel : Nat) :
    let emitted := command limits fuel
      (optionArguments verbosity' rule' grammar ++ ["--emit-ast", name]) files
    let again := command limits fuel
      (optionArguments verbosity rule grammar' ++ ["--ast", name ++ ".ast.json"]) emitted.files
    let direct := command limits fuel (optionArguments verbosity rule grammar ++ [name]) files
    let options := optionsOf verbosity rule grammar
    emitted.exit = .code 0 ∧ again.exit = direct.exit ∧ again.out = direct.out ∧
      again.files.read? traceName = direct.files.read? traceName ∧
      direct.err = options.errors (loaded.recovered.toList.map ScanError.diagnostic) ++
        options.log.write .debug ("parsed " ++ Number.wholeText loaded.program.length
          ++ " top-level statements from " ++ name) ++ again.err := by
  have hsource := fromSource_of_loadedBy hload
  have hstoredPart : name ++ ".ast.json" ≠ "" := by simp
  have htarget : Path.ofText (name ++ ".ast.json") = (Path.ofText name).append ".ast.json" :=
    Path.ofText_append hpart (by decide)
  have hemitted := command_emitAst hname limits verbosity' rule' grammar fuel files
    (ne_empty_of_endsInPart hpart)
  rw [storeTree_of_loadedBy hread hload (hfits.height hsource), ← htarget] at hemitted
  dsimp only
  rw [hemitted, command_ast hstored limits verbosity rule grammar' fuel _ hstoredPart,
    runStored_of_write files hsource hfits rfl fuel,
    command_program hname limits verbosity rule grammar fuel files,
    runSource_of_loadedBy hread hload rfl fuel]
  -- The trace is not the file that the tree was written to.
  have htrace : (files.write (Path.ofText (name ++ ".ast.json"))
      (Document.program loaded.program).toJson.write).read? traceName = files.read? traceName := by
    rw [Files.read?_write _ (Path.text_ofText_text _), if_neg (text_stored_ne name hpart)]
  have hverbosity :
      Options.verbosity { optionsOf verbosity rule grammar' with
        mode := some (.ast, name ++ ".ast.json") } =
      Options.verbosity { optionsOf verbosity rule grammar with program := some name } := rfl
  obtain ⟨hexit, hout, hfiles, said, hagain, hdirect⟩ :=
    run_alike hverbosity htrace limits.nesting fuel (rule.getD .legacy) loaded.program "" _
  refine ⟨rfl, hexit, hout, hfiles, ?_⟩
  rw [hdirect, hagain, String.empty_append]
  rfl

/-- A source that fails on its second line and leaves a comment open. -/
def openComment : String :=
  "var a = nil; \x7b print a; \x7d\nprint b; /* the end"

/-- The program that it is, and the comment. -/
def openCommentLoaded : Loaded :=
  let name (text : String) (line : Int) : Token :=
    { kind := .identifier, lexeme := .str text, line := .int line }
  { program := [.declare (name "a" 1) (some (.literal .null)), .block [.print (.ref (name "a" 1))],
      .print (.ref (name "b" 2))]
    recovered := some { fault := .unterminatedComment, line := 2 } }

/-- The limits of a small run of it. -/
def openCommentLimits : Limits := { nesting := 9, digits := 9 }

/-- The files that hold it. -/
def openCommentFiles : Files := [("dir/p.rox", openComment)]

/-- Storing its tree and running that is running it, with the whole trace and under the other rule
for truth. -/
theorem stored_run_matches_openComment :
    classify "dir/p.rox" = .ok (.plain "dir/p.rox") ∧
      classify ("dir/p.rox" ++ ".ast.json") = .ok (.plain ("dir/p.rox" ++ ".ast.json")) ∧
      Path.EndsInPart "dir/p.rox" ∧
      readText? openCommentFiles (Path.ofText "dir/p.rox") = some openComment ∧
      loadedBy false openCommentLimits.nesting openComment = some openCommentLoaded ∧
      FitsIn openCommentLoaded.program openCommentLimits ∧
      let emitted := command openCommentLimits 9
        (optionArguments 0 none false ++ ["--emit-ast", "dir/p.rox"]) openCommentFiles
      let again := command openCommentLimits 9
        (optionArguments 3 (some .standard) false ++ ["--ast", "dir/p.rox" ++ ".ast.json"])
        emitted.files
      let direct := command openCommentLimits 9
        (optionArguments 3 (some .standard) false ++ ["dir/p.rox"]) openCommentFiles
      emitted.exit = .code 0 ∧ again.exit = direct.exit ∧ again.out = direct.out ∧
        again.files.read? traceName = direct.files.read? traceName := by
  have hname : classify "dir/p.rox" = .ok (.plain "dir/p.rox") := by
    rfl
  have hstored : classify ("dir/p.rox" ++ ".ast.json") =
      .ok (.plain ("dir/p.rox" ++ ".ast.json")) := by
    rfl
  have hpart : Path.EndsInPart "dir/p.rox" := by
    decide
  have hread : readText? openCommentFiles (Path.ofText "dir/p.rox") = some openComment := by
    rfl
  have hload : loadedBy false openCommentLimits.nesting openComment = some openCommentLoaded := by
    cbv
  have hfits : FitsIn openCommentLoaded.program openCommentLimits :=
    ⟨by decide, by decide⟩
  obtain ⟨hemitted, hexit, hout, htrace, -⟩ := stored_run_matches hname hstored hpart hread hload
    hfits 3 0 (some .standard) none false 9
  exact ⟨hname, hstored, hpart, hread, hload, hfits, hemitted, hexit, hout, htrace⟩

/-! ### Where a tree is not run -/

theorem loadedBy_chainSource (h : 3 ≤ limit) (n : Nat) :
    loadedBy false limit (chainSource n) =
      some { program := chainProgram n, recovered := none } := by
  simp only [loadedBy, programOf_chainSource h n]
  rfl

/-- **The tree of a long chain is not stored**, so there is none to run, while its source is run and
fails by its nesting. -/
theorem stored_run_of_chain {n : Nat} (hlevels : 3 ≤ limits.nesting) (h : limits.nesting ≤ n)
    (fuel : Nat) :
    let emitted := command limits (fuel + 1) ["--emit-ast", "p.rox"] [("p.rox", chainSource n)]
    emitted.exit = .code 1 ∧
      (command limits (fuel + 1) ["--ast", "p.rox.ast.json"] emitted.files).err =
        "Error: file p.rox.ast.json not found\n" ∧
      (command limits (fuel + 1) ["p.rox"] [("p.rox", chainSource n)]).err =
        "\x1b[31mRuntimeError at unknown line: RecursionError: Too much nesting.\x1b[0m\n" := by
  have hload := loadedBy_chainSource hlevels n
  have hread : readText? [("p.rox", chainSource n)] (Path.ofText "p.rox") =
      some (chainSource n) :=
    readText?_eq_some (by rw [Files.read?_cons, if_pos rfl]) (not_mem_chainSource n)
  have hnone : Files.read? [("p.rox", chainSource n)] (Path.ofText "p.rox.ast.json") = none := by
    rw [Files.read?_cons, if_neg (by decide)]
    rfl
  have hheight : limits.nesting < (Document.program (chainProgram n)).height := by
    rw [Document.height, heightOfAll_chainProgram]
    omega
  have hending : ((Session.fresh { limit := limits.nesting } .file
      (Files.read? [("p.rox", chainSource n)] traceName)).run (fuel + 1) (chainProgram n)).2 =
        .failed .statementTooDeep := by
    have hconfig : Config.limit { limit := limits.nesting } ≤ n := h
    obtain ⟨t, ht⟩ := interpret_chain hconfig fuel State.initial
    simp only [Session.run, Session.interpret, Session.fresh, ht, Session.settle, Session.ending]
  have hname : classify "p.rox" = .ok (.plain "p.rox") := rfl
  have hstored : classify "p.rox.ast.json" = .ok (.plain "p.rox.ast.json") := rfl
  have hemitted :
      command limits (fuel + 1) ["--emit-ast", "p.rox"] [("p.rox", chainSource n)] = _ :=
    (command_emitAst hname limits 0 none false (fuel + 1) _ (by decide)).trans
      (storeTree_of_lt_height hread hload hheight)
  have hagain :
      command limits (fuel + 1) ["--ast", "p.rox.ast.json"] [("p.rox", chainSource n)] = _ :=
    (command_ast hstored limits 0 none false (fuel + 1) _ (by decide)).trans
      (runStored_of_none hnone (fuel + 1))
  have hdirect : command limits (fuel + 1) ["p.rox"] [("p.rox", chainSource n)] = _ :=
    (command_program hname limits 0 none false (fuel + 1) _).trans
      ((runSource_of_loadedBy hread hload rfl (fuel + 1)).trans (run_eq ..))
  dsimp only
  rw [hemitted, hagain, hdirect]
  refine ⟨rfl, rfl, (congrArg (fun ending => _ ++ Options.said _ ending) hending).trans ?_⟩
  rfl

/-- A source whose name may be given with a slash behind it. -/
def slashFiles : Files := [("a", "print nil;")]

/-- A source whose name is a plain argument, but not with more behind it. -/
def dashFiles : Files := [("-", "print nil;")]

/-- **Where running a stored tree is not running its source**: where the tree is nested too deeply
to be stored, where its file is not named as expected, and where that name is read as options. -/
theorem stored_run_differs :
    (loadedBy false Limits.standard.nesting (chainSource 4000) =
        some { program := chainProgram 4000, recovered := none } ∧
      (command .standard 1 ["--ast", "p.rox.ast.json"] (command .standard 1
        ["--emit-ast", "p.rox"] [("p.rox", chainSource 4000)]).files).err =
          "Error: file p.rox.ast.json not found\n" ∧
      (command .standard 1 ["p.rox"] [("p.rox", chainSource 4000)]).err =
        "\x1b[31mRuntimeError at unknown line: RecursionError: Too much nesting.\x1b[0m\n") ∧
    ((command .standard 1 ["--ast", "a/.ast.json"]
        (command .standard 1 ["--emit-ast", "a/"] slashFiles).files).exit = .code 1 ∧
      (command .standard 1 ["a/"] slashFiles).exit = .code 0) ∧
    ((command .standard 1 ["--ast", "-.ast.json"]
        (command .standard 1 ["--emit-ast", "-"] dashFiles).files).exit = .code 2 ∧
      (command .standard 1 ["-"] dashFiles).exit = .code 0) := by
  have hload : loadedBy false Limits.standard.nesting "print nil;" =
      some { program := [.print (.literal .null)], recovered := none } := by
    cbv
  have hlevels : 3 ≤ Limits.standard.nesting := by decide
  have hdeep : Limits.standard.nesting ≤ 4000 := by decide
  refine ⟨⟨?_, (stored_run_of_chain hlevels hdeep 0).2⟩, ⟨?_, by cbv⟩, ?_, by cbv⟩
  · exact loadedBy_chainSource hlevels 4000
  · have hname : classify "a/" = .ok (.plain "a/") := rfl
    have hstored : classify "a/.ast.json" = .ok (.plain "a/.ast.json") := rfl
    have hread : readText? slashFiles (Path.ofText "a/") = some "print nil;" := rfl
    have hemitted : command .standard 1 ["--emit-ast", "a/"] slashFiles = _ :=
      (command_emitAst hname .standard 0 none false 1 _ (by decide)).trans
        (storeTree_of_loadedBy hread hload (by decide))
    have hspelled : (Path.ofText ((Path.ofText "a/").append ".ast.json").text).text =
        ((Path.ofText "a/").append ".ast.json").text := by
      decide
    have hnone (tree : String) :
        (slashFiles.write ((Path.ofText "a/").append ".ast.json") tree).read?
          (Path.ofText "a/.ast.json") = none := by
      rw [Files.read?_write _ hspelled, if_neg (by decide)]
      rfl
    rw [hemitted]
    exact congrArg Report.exit ((command_ast hstored .standard 0 none false 1 _ (by decide)).trans
      (runStored_of_none (hnone _) 1))
  · have hmisuse : ∃ message, readOptions ["--ast", "-.ast.json"] = .error (.misuse message) :=
      ⟨_, rfl⟩
    obtain ⟨message, hmessage⟩ := hmisuse
    rw [command, hmessage]

end Cli

end ScriptLang
