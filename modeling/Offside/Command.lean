import Offside.Ast.Dump
import Offside.Command.Files
import Offside.Diagnostic.Report
import Offside.Typing.Session

/-!
# The command

What the command does with its arguments and the text of the file: it runs the stages one
after the other, tells how long each took, and ends with the type of the program or with a
report on what is wrong.

Times come from a clock, so that the command itself is a function of its input.
-/

namespace Offside
namespace Command

/-- What the command is asked to do. -/
structure Invocation where
  path : String
  /-- Whether to print the checked program in full. -/
  dump : Bool
  deriving DecidableEq, Repr

/-- Whether an argument is an option; a lone dash is a path. -/
def isOption (argument : String) : Bool := argument.startsWith "-" && argument ≠ "-"

/-- The options and the paths among arguments.  Behind two dashes all are paths. -/
def sortArguments : List String → List String × List String
  | [] => ([], [])
  | argument :: rest =>
    if argument = "--" then ([], rest)
    else
      let (options, paths) := sortArguments rest
      if isOption argument then (argument :: options, paths) else (options, argument :: paths)

/-- The invocation that arguments stand for: one path, and `--dump` at most once. -/
def Invocation.ofArguments? (arguments : List String) : Option Invocation :=
  match sortArguments arguments with
  | ([], [path]) => some ⟨path, false⟩
  | (["--dump"], [path]) => some ⟨path, true⟩
  | _ => none

/-- How the command ends: with a checked program, with a report on what is wrong, or broken off. -/
inductive Ending where
  | success
  | failure
  | panic
  deriving DecidableEq, Repr

/-- The status that the system is told. -/
def Ending.status : Ending → UInt32
  | .success => 0
  | .failure => 1
  | .panic => 101

/-- What the command writes and how it ends.  What the system adds when a command breaks off is
left out. -/
structure Reply where
  ending : Ending
  out : List String
  err : List String
  deriving DecidableEq, Repr

/-- A clock: it runs a stage and tells how long that took, and tells the time since the
start. -/
structure Clock (m : Type → Type) where
  timed : {α : Type} → (Unit → α) → m (α × String)
  total : m String

/-- The clock that always shows the same text. -/
def Clock.still (text : String) : Clock Id where
  timed stage := (stage (), text)
  total := text

/-- What is printed on a stage that gives no result. -/
def failureReport (file : String) : Failure → Report
  | .refused diagnostic => diagnostic.report file
  | .offBoundary => ⟨[], false⟩
  | .unfinished => ⟨["internal error: too many steps"], true⟩

/-- The ending behind a report. -/
def Ending.ofReport (report : Report) : Ending := if report.complete then .failure else .panic

section Stages

variable {m : Type → Type} [Monad m]

/-- Runs a stage and goes on with its result, behind a line on how long it took; or ends
with the report on its failure. -/
def stage {α : Type} (clock : Clock m) (file label : String) (out : List String)
    (run : Unit → Outcome α) (next : List String → α → m Reply) : m Reply := do
  let (outcome, time) ← clock.timed run
  match outcome with
  | .ok result => next (out ++ [label ++ " in " ++ time]) result
  | .error failure =>
    let report := failureReport file failure
    return ⟨.ofReport report, out ++ report.lines, []⟩

/-- Runs all stages on a source. -/
def runOn (clock : Clock m) (invocation : Invocation) (source : Source) : m Reply :=
  let file := invocation.path
  stage clock file "Tokenized" [] (fun _ => tokenize source) fun out tokens =>
  stage clock file "Parsed" out (fun _ => parse tokens source) fun out tree =>
  stage clock file "Built AST" out (fun _ => lower tree source) fun out program =>
  stage clock file "Type checked" out
    (fun _ => ((Checker.new .builtins).check program).1.mapError Failure.refused)
    fun out typed => do
      let total ← clock.total
      let dump := if invocation.dump then [typed.dump] else []
      return ⟨.success,
        out ++ ["Total time: " ++ total, "Program type: " ++ typed.ty.text] ++ dump, []⟩

/-- Runs the command on what came of reading its file. -/
def run (clock : Clock m) (invocation : Invocation) (content : Except ReadFailure String) :
    m Reply :=
  match content with
  | .ok text => runOn clock invocation text.toList
  | .error failure =>
    return ⟨.failure, [], ["Failed to read " ++ invocation.path ++ ": " ++ failure.message]⟩

end Stages

end Command
end Offside
