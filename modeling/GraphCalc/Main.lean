import GraphCalc.Session

set_option autoImplicit false

namespace GraphCalc

def reportOfError : IO.Error → Report
  | .noFileOrDirectory _ _ _ => .missingFile
  | .permissionDenied _ _ _ => .ofSystemError "Permission denied" 13
  | .inappropriateType _ _ _ => .ofSystemError "Is a directory" 21
  | error => .failure (toString error)

def runFile (path : String) : IO UInt32 := do
  let report := match ← (IO.FS.readBinFile path).toBaseIO with
    | .ok contents => Report.ofFile contents
    | .error error => reportOfError error
  IO.print report.output
  IO.eprint report.errors
  return UInt32.ofNat report.exitCode

partial def prompt (m : Machine) : IO UInt32 := do
  IO.print "> "
  (← IO.getStdout).flush
  let line ← (← IO.getStdin).getLine
  if line.isEmpty then return 0
  else if line.all Char.isWhitespace then prompt m
  else
    let (lines, m) := m.execute (line.dropEndWhile (· = '\n')).toString
    lines.forM IO.println
    prompt m

end GraphCalc

def main (args : List String) : IO UInt32 :=
  match args with
  | path :: _ => GraphCalc.runFile path
  | [] => GraphCalc.prompt .initial
