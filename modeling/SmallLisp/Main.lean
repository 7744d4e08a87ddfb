import SmallLisp.CommandLine

/-!
The program: arguments, environment, files and standard input.
-/

namespace SmallLisp

/-- The values of the variables that are settings. -/
def readVariables : IO Settings.Variables := do
  let names :=
    [Settings.promptVariable, Settings.logLevelVariable, Settings.recursionLimitVariable]
  let values ← names.mapM fun name => return (name, ← IO.getEnv name)
  return fun name => (values.find? (·.1 == name)).bind Prod.snd

def readEntry (path : String) : IO CommandLine.Entry := do
  try
    return .file (← IO.FS.readFile path)
  catch
    | .noFileOrDirectory .. => return .missing
    | _ => return .directory

def exitCode : CommandLine.Ending → IO UInt32
  | .exit code => return code.toUInt32
  | .unreadable fault => do
    IO.eprintln fault.message
    return 1
  | .broken .integerText => do
    IO.eprintln NoResult.integerTextTooLong.message
    return 1
  | .broken _ => do
    IO.eprintln LispError.exhausted.message
    return 1

def writeOutcome (o : CommandLine.Outcome) : IO UInt32 := do
  IO.print o.stdout
  IO.eprint o.stderr
  exitCode o.ending

/-- Answer lines as they come, until the session is over. -/
partial def converse (setup : CommandLine.Setup) (root : FrameId) (s : Store) : IO UInt32 := do
  let stdout ← IO.getStdout
  IO.eprint (CommandLine.logText setup.logLevel s.notices.toList)
  stdout.putStr setup.prompt
  stdout.flush
  let line ← (← IO.getStdin).getLine
  if line.isEmpty then
    stdout.putStr (Session.screen setup.prompt [Session.farewell])
    return 0
  let source := (CommandLine.lines line).headD ""
  let t := Session.turn setup.limit root source { s with notices := #[] }
  stdout.putStr (Session.screen setup.prompt t.events)
  if t.ended then
    IO.eprint (CommandLine.logText setup.logLevel t.store.notices.toList)
    exitCode (CommandLine.endingOf t.fault)
  else converse setup root t.store

end SmallLisp

open SmallLisp in
def main (args : List String) : IO UInt32 := do
  match CommandLine.plan args (← readVariables) with
  | .finished o => writeOutcome o
  | .program setup path =>
    let entry ← readEntry (CommandLine.normalPath path)
    writeOutcome (CommandLine.runProgram setup (fun _ => entry) path)
  | .session setup =>
    let (root, s) := CommandLine.fresh setup.notices
    converse setup root s
