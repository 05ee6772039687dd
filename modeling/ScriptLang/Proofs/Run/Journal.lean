import ScriptLang.Proofs.Run.Levels

/-!
# The trace file over the life of an interpreter

In the life of an interpreter programs run, blocks are managed, lines are traced by hand, the file
is closed and the level is changed, in any order and each of them failing or not. What happens to
the trace file meanwhile is a row of lines and closings. The file holds the lines, every one once
and in their order, and is open exactly while a line stands behind the last closing.

## Main Definitions

* `Happening`: a line that is traced, or a closing; `TraceFile.after`: what it does to the file.
* `Session.Operation`: what is done with an interpreter, blocks that it manages included.
* `Session.perform`, `Session.live`: the operations, one by one and over a life.
* `Session.historyOf`, `Session.historyOfLife`: what happens to the trace file meanwhile.

## Main Statements

* `Session.live_records`: over a life, the file goes through its history.
* `trace_file_of_life`: what the file holds, and when it is open.

## Design Notes

The history is stated without the file: an operation traces the events that a run has at the highest
level and that the level of the moment shows. Opening, dropping what is stale and adding to what is
there are the file's own doing, so the file is followed through the history on its own, by
`TraceFile.contents_after` and `TraceFile.isOpen_after_iff`.
-/

namespace ScriptLang

/-! ### What happens to a trace file -/

/-- What happens to a trace file. -/
inductive Happening where
  | traced (line : String)
  | closed
deriving Repr, DecidableEq

/-- The line that is traced. -/
def Happening.line? : Happening → Option String
  | traced line => some line
  | closed => none

namespace TraceFile

/-- The file after something has happened to it. -/
def after (file : TraceFile) : Happening → TraceFile
  | .traced line => file.write line
  | .closed => file.close

/-- Closing is not seen in what the file comes to hold. -/
theorem holding_close (file : TraceFile) (lines : List String) :
    file.close.holding lines = file.holding lines := rfl

/-- **The file holds the lines of its history**, one after the other, whether it was closed in
between or not. -/
theorem contents_after (file : TraceFile) (history : List Happening) :
    (history.foldl after file).contents = file.holding (history.filterMap Happening.line?) := by
  induction history generalizing file with
  | nil => rfl
  | cons happening history ih =>
      rw [List.foldl_cons, ih]
      cases happening with
      | traced line => exact file.holding_write line _
      | closed => exact file.holding_close _

/-- **A file that was closed is open again** exactly if a line was traced behind the last
closing. -/
theorem isOpen_after_iff {file : TraceFile} (h : file.isOpen = false) (history : List Happening) :
    (history.foldl after file).isOpen = true ↔
      ∃ before line later, history = before ++ .traced line :: later ∧
        Happening.closed ∉ later := by
  -- The last thing that happened decides, so the history is taken apart from its end.
  induction history using List.reverseRecOn with
  | nil => simp [h]
  | append_singleton history happening ih =>
      rw [List.foldl_append, List.foldl_cons, List.foldl_nil]
      cases happening with
      | traced line => exact ⟨fun _ => ⟨history, line, [], rfl, List.not_mem_nil⟩, fun _ => rfl⟩
      | closed =>
          refine ⟨fun hopen => (nomatch hopen), ?_⟩
          rintro ⟨before, line, later, heq, hlater⟩
          rcases List.eq_nil_or_concat later with rfl | ⟨others, last, rfl⟩
          · have hlast := congrArg List.getLast? heq
            simp at hlast
          · have hlast := congrArg List.getLast? heq
            rw [List.concat_eq_append, ← List.cons_append, ← List.append_assoc,
              List.getLast?_concat, List.getLast?_concat] at hlast
            cases hlast
            simp at hlater

end TraceFile

namespace Outside

theorem sink_applyAll (o : Outside) (effects : List Effect) :
    (o.applyAll effects).sink = o.sink := by
  induction effects generalizing o with
  | nil => rfl
  | cons effect effects ih =>
      rw [applyAll_cons, ih]
      cases effect with
      | printed text => rfl
      | traced event => cases hsink : o.sink <;> simp [apply, line, hsink]

/-- The events among the effects are what happens to the file. -/
theorem file_applyAll {o : Outside} (h : o.sink = .file) (effects : List Effect) :
    (o.applyAll effects).file =
      ((effects.filterMap Effect.event?).map fun event => Happening.traced event.text).foldl
        TraceFile.after o.file := by
  induction effects generalizing o with
  | nil => rfl
  | cons effect effects ih =>
      rw [applyAll_cons]
      cases effect with
      | printed text => exact ih h
      | traced event =>
          simp only [apply, h]
          exact ih rfl

end Outside

namespace Session

/-! ### The life of an interpreter -/

/-- What is done with an interpreter. -/
inductive Operation where
  | interpret (fuel : Nat) (program : List Stmt)
  | run (fuel : Nat) (program : List Stmt)
  /-- A block that the interpreter manages. A failure inside leaves the block. -/
  | managed (body : List Operation)
  /-- An operation inside a block whose failure does not leave the block. -/
  | caught (operation : Operation)
  | close
  | message (text : String)
  | setLevel (level : Int)

mutual

/-- An operation, and how it ends. At the end of a block that the interpreter manages the trace file
is closed, however the block ends. -/
def perform (session : Session) : Operation → Session × Ending
  | .interpret fuel program => session.interpret fuel program
  | .run fuel program => session.run fuel program
  | .managed body =>
    let (after, ending) := session.performAll body
    (after.close, ending)
  | .caught operation =>
    match session.perform operation with
    | (after, .failed _) => (after, .completed)
    | result => result
  | .close => (session.close, .completed)
  | .message text => (session.message text, .completed)
  | .setLevel level => (session.atLevel level, .completed)

/-- Operations one after the other, up to the first that is not completed. -/
def performAll (session : Session) : List Operation → Session × Ending
  | [] => (session, .completed)
  | operation :: operations =>
    match session.perform operation with
    | (after, .completed) => after.performAll operations
    | result => result

end

/-- A life: operations one after the other, whether they fail or not. -/
def live (session : Session) : List Operation → Session
  | [] => session
  | operation :: operations => (session.perform operation).1.live operations

/-! ### Its history -/

/-- The lines of the events that the level of the session shows. -/
def tells (session : Session) (events : List Event) : List Happening :=
  (events.filter (Event.shownAt session.config.level)).map fun event => .traced event.text

mutual

/-- What happens to the trace file in an operation. A run is asked for all its events, those of the
highest level; the session tells those that its own level shows. -/
def historyOf (session : Session) : Operation → List Happening
  | .interpret fuel program => session.tells ((session.atLevel 3).eventsOf fuel program)
  | .run fuel program => session.tells ((session.atLevel 3).eventsOf fuel program) ++ [.closed]
  | .managed body => session.historyOfAll body ++ [.closed]
  | .caught operation => session.historyOf operation
  | .close => [.closed]
  | .message text => session.tells [.message text]
  | .setLevel _ => []

/-- What happens to the trace file in operations of which the first that is not completed is the
last. -/
def historyOfAll (session : Session) : List Operation → List Happening
  | [] => []
  | operation :: operations =>
    session.historyOf operation ++
      match session.perform operation with
      | (after, .completed) => after.historyOfAll operations
      | _ => []

end

/-- What happens to the trace file in a life. -/
def historyOfLife (session : Session) : List Operation → List Happening
  | [] => []
  | operation :: operations =>
    session.historyOf operation ++ (session.perform operation).1.historyOfLife operations

/-! ### The file goes through its history -/

/-- From the session `session`, whose trace goes to the file and of which everything has reached the
outside, to the session `after` the file goes through the history, and the two facts still hold. -/
structure Records (session after : Session) (history : List Happening) : Prop where
  sink_eq : after.outside.sink = .file
  idle : after.state.effects = []
  file_eq : after.outside.file = history.foldl TraceFile.after session.outside.file

namespace Records

variable {session middle after : Session} {history later : List Happening}

theorem refl (hsink : session.outside.sink = .file) (hidle : session.state.effects = []) :
    Records session session [] :=
  ⟨hsink, hidle, rfl⟩

theorem trans (h : Records session middle history) (h' : Records middle after later) :
    Records session after (history ++ later) where
  sink_eq := h'.sink_eq
  idle := h'.idle
  file_eq := by rw [List.foldl_append, ← h.file_eq, h'.file_eq]

theorem close (h : Records session after history) :
    Records session after.close (history ++ [.closed]) :=
  h.trans ⟨h.sink_eq, h.idle, rfl⟩

end Records

section Recording

variable {session : Session}

/-- A run traces those of its events that the level shows, whatever level that is. -/
theorem eventsOf_eq_filter (hidle : session.state.effects = []) (fuel : Nat)
    (program : List Stmt) :
    session.eventsOf fuel program =
      ((session.atLevel 3).eventsOf fuel program).filter
        (Event.shownAt session.config.level) := by
  have hnest : ∀ {m n : Int}, m ≤ n → (session.atLevel m).eventsOf fuel program =
      ((session.atLevel n).eventsOf fuel program).filter (Event.shownAt m) := by
    intro m n h
    rw [eventsOf, (run_atLevel hidle h fuel program).2.2, filterMap_event?_filter]
    rfl
  have hown : session.atLevel session.config.level = session := rfl
  rcases Int.le_total session.config.level 3 with h | h
  · rw [← hnest h, hown]
  · -- Above the third level there is nothing more to show.
    have hshown : ∀ (level : Int) (event : Event), 3 ≤ level → event.shownAt level = true := by
      intro level event hlevel
      cases event <;> simp only [Event.shownAt, decide_eq_true_eq] <;> omega
    rw [hnest h, hown, List.filter_filter, List.filter_eq_self.2]
    intro event _
    rw [hshown _ event h, hshown 3 event (Int.le_refl 3), Bool.and_true]

theorem interpret_records (hsink : session.outside.sink = .file)
    (hidle : session.state.effects = []) (fuel : Nat) (program : List Stmt) :
    Records session (session.interpret fuel program).1
      (session.tells ((session.atLevel 3).eventsOf fuel program)) where
  sink_eq := by rw [outside_interpret, Outside.sink_applyAll, hsink]
  idle := effects_settle hidle _
  file_eq := by
    rw [outside_interpret, Outside.file_applyAll hsink, tells, ← eventsOf_eq_filter hidle]
    rfl

theorem message_records (hsink : session.outside.sink = .file)
    (hidle : session.state.effects = []) (text : String) :
    Records session (session.message text) (session.tells [.message text]) := by
  rw [message, tells, State.trace]
  by_cases hlevel : ((Event.message text).level : Int) ≤ session.config.level
  · have hshown : Event.shownAt session.config.level (.message text) = true :=
      Event.shownAt_iff.2 hlevel
    rw [if_pos hlevel, List.filter_cons_of_pos hshown]
    refine ⟨?_, rfl, ?_⟩
    · simp only [flush, hidle, Outside.sink_applyAll, hsink]
    · simp only [flush, hidle, List.reverse_singleton, Outside.file_applyAll hsink]
      rfl
  · have hhidden : ¬ Event.shownAt session.config.level (.message text) = true :=
      fun hshown => hlevel (Event.shownAt_iff.1 hshown)
    rw [if_neg hlevel, List.filter_cons_of_neg hhidden]
    refine ⟨?_, rfl, ?_⟩
    · simp only [flush, hidle, Outside.sink_applyAll, hsink]
    · simp only [flush, hidle]
      rfl

mutual

/-- **In an operation** the file goes through the history of the operation. -/
theorem perform_records {session : Session} (hsink : session.outside.sink = .file)
    (hidle : session.state.effects = []) (operation : Operation) :
    Records session (session.perform operation).1 (session.historyOf operation) := by
  cases operation with
  | interpret fuel program =>
      rw [perform, historyOf]
      exact interpret_records hsink hidle fuel program
  | run fuel program =>
      rw [perform, historyOf]
      exact (interpret_records hsink hidle fuel program).close
  | managed body =>
      rw [perform, historyOf]
      exact (performAll_records hsink hidle body).close
  | caught operation =>
      have hrecords := perform_records hsink hidle operation
      rw [perform, historyOf]
      split
      · next heq =>
          rw [heq] at hrecords
          exact hrecords
      · exact hrecords
  | close =>
      rw [perform, historyOf]
      exact (Records.refl hsink hidle).close
  | message text =>
      rw [perform, historyOf]
      exact message_records hsink hidle text
  | setLevel level =>
      rw [perform, historyOf]
      exact ⟨hsink, hidle, rfl⟩

/-- In operations up to the first that is not completed, the file goes through their history. -/
theorem performAll_records {session : Session} (hsink : session.outside.sink = .file)
    (hidle : session.state.effects = []) (operations : List Operation) :
    Records session (session.performAll operations).1 (session.historyOfAll operations) := by
  cases operations with
  | nil =>
      rw [performAll, historyOfAll]
      exact .refl hsink hidle
  | cons operation operations =>
      have hfirst := perform_records hsink hidle operation
      rw [performAll, historyOfAll]
      split
      · next after heq =>
          rw [heq] at hfirst
          exact hfirst.trans (performAll_records hfirst.sink_eq hfirst.idle operations)
      · rwa [List.append_nil]

end

/-- **Over a life** the file goes through the history of the life. -/
theorem live_records (hsink : session.outside.sink = .file) (hidle : session.state.effects = [])
    (life : List Operation) :
    Records session (session.live life) (session.historyOfLife life) := by
  induction life generalizing session with
  | nil => exact .refl hsink hidle
  | cons operation operations ih =>
      have hfirst := perform_records hsink hidle operation
      exact hfirst.trans (ih hfirst.sink_eq hfirst.idle)

end Recording

end Session

/-- **No line of the trace is lost, doubled or misplaced.** Whatever is done in the life of an
interpreter whose trace goes to a file, and however that ends: if nothing was traced, the file is as
it was before, there or not. Else it holds the lines that were traced, one below the other in their
order, and nothing of what it held before. It is open exactly if a line was traced behind the last
closing, be that by hand, by the end of a run or by that of a managed block. -/
theorem trace_file_of_life (config : Config) (contents : Option String)
    (life : List Session.Operation) :
    let born := Session.fresh config .file contents
    let history := born.historyOfLife life
    let lines := history.filterMap Happening.line?
    (born.live life).outside.file.contents =
        (if lines = [] then contents else some (asLines lines)) ∧
      ((born.live life).outside.file.isOpen = true ↔
        ∃ before line later, history = before ++ .traced line :: later ∧
          Happening.closed ∉ later) := by
  intro born history lines
  have hrecords : Session.Records born (born.live life) history :=
    Session.live_records rfl rfl life
  rw [hrecords.file_eq]
  refine ⟨?_, TraceFile.isOpen_after_iff rfl history⟩
  rw [TraceFile.contents_after]
  simp only [TraceFile.holding, born, Session.fresh, lines]
  split
  · rfl
  · rw [if_neg Bool.false_ne_true, String.empty_append]

/-- A life in which a managed block is left through a failure: a line is traced in front of the
block, three inside it, none at level zero, and one more at the end. -/
def unsteadyLife : List Session.Operation :=
  let name : Token := { kind := .identifier, lexeme := .str "a", line := .int 1 }
  [.message "begin",
    .managed [.setLevel 1, .interpret 9 [.print (.literal .null), .print (.ref name)],
      .message "never"],
    .setLevel 0, .message "hidden", .setLevel 2, .message "end"]

example :
    let after := (Session.fresh { level := 1, limit := 9 } .file (some "stale")).live unsteadyLife
    after.outside.file.contents =
        some "begin\nexecute PrintStmt\nend PrintStmt\nexecute PrintStmt\nend\n" ∧
      after.outside.file.isOpen = true := by
  decide +kernel

end ScriptLang
