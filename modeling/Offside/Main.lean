import Offside.Command

/-!
# The program

Reads the arguments and the file, runs the command, and writes what it says.
-/

namespace Offside
namespace Command

/-- A time span in nanoseconds in a fitting unit. -/
def showTime (nanos : Nat) : String :=
  if nanos < 1000 then toString nanos ++ "ns"
  else if nanos < 1000000 then toString (nanos / 1000) ++ "µs"
  else if nanos < 1000000000 then toString (nanos / 1000000) ++ "ms"
  else toString (nanos / 1000000000) ++ "s"

/-- The clock of the machine, started at a time. -/
def machineClock (start : Nat) : Clock IO where
  timed stage := do
    let before ← IO.monoNanosNow
    let result ← IO.lazyPure stage
    let after ← IO.monoNanosNow
    return (result, showTime (after - before))
  total := do return showTime ((← IO.monoNanosNow) - start)

/-- Reads a file as text. -/
def readText (path : String) : IO (Except ReadFailure String) := do
  try
    return decodeText (← IO.FS.readBinFile path)
  catch failure =>
    match failure with
    | .noFileOrDirectory .. => return .error .missing
    | .inappropriateType (some _) 20 _ => return .error .notADirectory
    | .inappropriateType _ 21 _ => return .error .isADirectory
    | other => return .error (.other (toString other))

end Command
end Offside

open Offside Offside.Command in
/-- Checks the file that the arguments name. -/
def main (arguments : List String) : IO UInt32 := do
  match Invocation.ofArguments? arguments with
  | none =>
    IO.eprintln "usage: FILE [--dump]"
    return 2
  | some invocation =>
    let clock := machineClock (← IO.monoNanosNow)
    let reply ← run clock invocation (← readText invocation.path)
    reply.out.forM fun line => IO.println line
    reply.err.forM fun line => IO.eprintln line
    return reply.ending.status
