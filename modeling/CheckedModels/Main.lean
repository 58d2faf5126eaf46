import CheckedModels.CommandLine.Run

/-! The program: reads the files that a request names and shows the report. -/
open CheckedModels

/-- The files that a request can read. -/
def filesOf (r : CommandLine.Request) : List String :=
  ((r.config :: r.operands).filterMap id).map Files.path

def faultOf : IO.Error → FileFault
  | .noFileOrDirectory _ _ _ => .missing
  | .inappropriateType _ code reason | .permissionDenied _ code reason
  | .resourceExhausted _ code reason | .invalidArgument _ code reason => ⟨code.toNat, reason⟩
  | e => ⟨5, toString e⟩

def readFiles (paths : List String) : IO Files := do
  let found ← paths.mapM fun (path : String) => do
    let content ← try
        let bytes ← IO.FS.readBinFile path
        pure (Except.ok bytes)
      catch e => pure (Except.error (faultOf e))
    return (path, content)
  return fun path => (found.lookup path).getD (.error .missing)

def main (arguments : List String) : IO UInt32 := do
  let paths := match CommandLine.Request.ofArguments arguments with
    | .ok (some r) => filesOf r
    | _ => []
  let report := CommandLine.run arguments (← readFiles paths)
  IO.print report.output
  IO.eprint report.complaints.visible
  match report.ending with
  | .exit code => return code.toUInt32
  | .crash c => do
    IO.eprintln c.message
    return 1
