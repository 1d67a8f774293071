import RecordQuery.CommandLine.Run

/-! # The program

Reads the file that a run asks for, writes what the run leaves behind, and ends with its exit
code. -/

open RecordQuery.CommandLine

/-- What stands at a path of the file system. -/
def RecordQuery.CommandLine.contentsOf (path : String) : IO PathContents := do
  try
    return .file (← IO.FS.readBinFile path)
  catch
    | .inappropriateType .. => return .directory
    | _ => return .missing

/-- Runs the program on its words. -/
def main (words : List String) : IO UInt32 := do
  let report ← match run words with
    | .finished report => pure report
    | .reads path next => next <$> contentsOf path
  (← IO.getStdout).putStr report.stdout
  (← IO.getStderr).putStr report.stderr
  return UInt32.ofNat report.exitCode
