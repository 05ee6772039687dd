import ScriptLang.Cli.Options

/-!
# Options on a command line

The options of a run are counted, named and switched on by arguments of their own, in front of what
is to be done. This module reads such command lines, for any name that is read as a plain argument.

## Main Definitions

* `optionArguments`: the arguments for a verbosity, a rule for truth and a choice of parser.
* `optionsOf`: what they ask for.

## Main Statements

* `readOptions_program`: the options in front of a program.
* `readOptions_mode`: the options in front of another mode and its file.
-/

namespace ScriptLang

namespace Truthiness

/-- The name of a rule. -/
def name : Truthiness → String
  | legacy => "legacy"
  | standard => "standard"

@[simp] theorem ofName?_name (rule : Truthiness) : ofName? rule.name = some rule := by
  cases rule <;> decide

end Truthiness

namespace Cli

/-- The arguments for a verbosity, a rule for truth, if one is named, and a choice of parser. -/
def optionArguments (verbosity : Nat) (rule : Option Truthiness) (grammar : Bool) : List String :=
  List.replicate verbosity "-v" ++
    (rule.toList.flatMap fun rule => ["--truthiness", rule.name]) ++
    if grammar then ["--grammar"] else []

/-- What these arguments ask for. -/
def optionsOf (verbosity : Nat) (rule : Option Truthiness) (grammar : Bool) : Options :=
  { verbosity, truthiness := some (rule.getD .legacy), grammar }

/-! ### Arguments one by one -/

/-- What is read of arguments behind those that the options are of. -/
def readFrom (options : Options) (texts : List String) : Except Stop (Options × List String) :=
  match classifyAll texts with
  | .error message => .error (.misuse message)
  | .ok classified => takeAll options classified

theorem readOptions_of_readFrom {texts : List String} {options : Options}
    (h : readFrom {} texts = .ok (options, [])) : readOptions texts = .ok options := by
  cases hclassified : classifyAll texts with
  | error message =>
      rw [readFrom, hclassified] at h
      cases h
  | ok classified =>
      rw [readFrom, hclassified] at h
      rw [readOptions, hclassified]
      dsimp only at h ⊢
      rw [h]
      rfl

variable {options options' : Options} {texts : List String}

/-- By themselves the two dashes could be short for any option. -/
theorem ne_separator {text : String} {argument : Argument} (h : classify text = .ok argument) :
    text ≠ "--" := by
  rintro rfl
  obtain ⟨message, hambiguous⟩ : ∃ message, classify "--" = .error message := ⟨_, rfl⟩
  rw [h] at hambiguous
  cases hambiguous

theorem classifyAll_cons {text : String} {argument : Argument} (h : classify text = .ok argument)
    (texts : List String) :
    classifyAll (text :: texts) = (classifyAll texts).map (argument :: ·) := by
  rw [classifyAll, if_neg (ne_separator h), h]
  cases classifyAll texts <;> rfl

theorem takeAll_flag {flag : Flag} (h : flag.takesValue = false) (spelling : String)
    (others : List Argument) :
    takeAll options (.flag flag spelling none :: others) =
      options.set flag >>= fun options' => takeAll options' others := by
  rw [takeAll.eq_def]
  simp only [h, Bool.false_eq_true, if_false]

theorem takeAll_value {flag : Flag} (h : flag.takesValue = true) (spelling value : String)
    (others : List Argument) :
    takeAll options (.flag flag spelling none :: .plain value :: others) =
      options.setValue flag value >>= fun options' => takeAll options' others := by
  rw [takeAll.eq_def]
  simp only [h, if_true]

/-- An argument that is taken by itself. -/
theorem readFrom_cons {text : String} {argument : Argument} (h : classify text = .ok argument)
    (htakes : ∀ others, takeAll options (argument :: others) = takeAll options' others) :
    readFrom options (text :: texts) = readFrom options' texts := by
  unfold readFrom
  rw [classifyAll_cons h]
  cases classifyAll texts with
  | error message => rfl
  | ok others => exact htakes others

/-- An argument that is taken together with the plain one behind it. -/
theorem readFrom_cons_cons {text value : String} {argument : Argument}
    (h : classify text = .ok argument) (hvalue : classify value = .ok (.plain value))
    (htakes : ∀ others,
      takeAll options (argument :: .plain value :: others) = takeAll options' others) :
    readFrom options (text :: value :: texts) = readFrom options' texts := by
  unfold readFrom
  rw [classifyAll_cons h, classifyAll_cons hvalue]
  cases classifyAll texts with
  | error message => rfl
  | ok others => exact htakes others

theorem readFrom_verbose :
    readFrom options ("-v" :: texts) =
      readFrom { options with verbosity := options.verbosity + 1 } texts := by
  have hclassify : classify "-v" = .ok (.flag .verbose "-v" none) := rfl
  exact readFrom_cons hclassify fun others => takeAll_flag rfl _ _

theorem readFrom_replicate_verbose (n : Nat) :
    readFrom options (List.replicate n "-v" ++ texts) =
      readFrom { options with verbosity := options.verbosity + n } texts := by
  induction n generalizing options with
  | zero => rfl
  | succ n ih =>
      rw [List.replicate_succ, List.cons_append, readFrom_verbose, ih, Nat.add_right_comm]
      rfl

theorem classify_name (rule : Truthiness) : classify rule.name = .ok (.plain rule.name) := by
  cases rule <;> rfl

theorem readFrom_truthiness (rule : Truthiness) :
    readFrom options ("--truthiness" :: rule.name :: texts) =
      readFrom { options with truthiness := some rule } texts := by
  have hclassify : classify "--truthiness" = .ok (.flag .truthiness "--truthiness" none) := rfl
  refine readFrom_cons_cons hclassify (classify_name rule) fun others => ?_
  rw [takeAll_value rfl]
  cases rule <;> rfl

theorem readFrom_grammar :
    readFrom options ("--grammar" :: texts) = readFrom { options with grammar := true } texts := by
  have hclassify : classify "--grammar" = .ok (.flag .grammar "--grammar" none) := rfl
  exact readFrom_cons hclassify fun others => takeAll_flag rfl _ _

/-- **The options in front of other arguments** are those that they ask for. -/
theorem readFrom_optionArguments (verbosity : Nat) (rule : Option Truthiness) (grammar : Bool) :
    readFrom {} (optionArguments verbosity rule grammar ++ texts) =
      readFrom (optionsOf verbosity rule grammar) texts := by
  simp only [optionArguments, List.append_assoc]
  rw [readFrom_replicate_verbose, Nat.zero_add]
  cases rule <;> cases grammar <;>
    simp [readFrom_truthiness, readFrom_grammar, optionsOf]

/-! ### Whole command lines -/

variable (verbosity : Nat) (rule : Option Truthiness) (grammar : Bool) {name : String}

/-- **Options in front of a program.** -/
theorem readOptions_program (h : classify name = .ok (.plain name)) :
    readOptions (optionArguments verbosity rule grammar ++ [name]) =
      .ok { optionsOf verbosity rule grammar with program := some name } := by
  apply readOptions_of_readFrom
  rw [readFrom_optionArguments, readFrom, classifyAll_cons h]
  rfl

/-- **Options in front of another mode** and the file that it is about. -/
theorem readOptions_mode {flag : Flag} {spelling : String} (hmode : flag.isMode = true)
    (hspelling : classify spelling = .ok (.flag flag spelling none))
    (h : classify name = .ok (.plain name)) :
    readOptions (optionArguments verbosity rule grammar ++ [spelling, name]) =
      .ok { optionsOf verbosity rule grammar with mode := some (flag, name) } := by
  have htakes : flag.takesValue = true := by
    cases flag <;> first | rfl | cases hmode
  apply readOptions_of_readFrom
  rw [readFrom_optionArguments, readFrom_cons_cons hspelling h fun others => ?_]
  · rfl
  · rw [takeAll_value htakes, Options.setValue, if_pos hmode]
    rfl

end Cli

end ScriptLang
