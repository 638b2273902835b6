import Laye.CommandLine.Run

/-!
# The command line tool

Reads the files that a request names, carries the request out, and prints what there is to show.
-/

namespace Laye.CommandLine

/-- The system's words for a failure, with its number. -/
def systemCause : IO.Error → String
  | .alreadyExists _ code details | .invalidArgument _ code details
  | .permissionDenied _ code details | .resourceExhausted _ code details
  | .inappropriateType _ code details | .noSuchThing _ code details
  | .interrupted _ code details | .noFileOrDirectory _ code details
  | .otherError code details | .resourceBusy code details | .resourceVanished code details
  | .unsupportedOperation code details | .hardwareFault code details
  | .unsatisfiedConstraints code details | .illegalOperation code details
  | .protocolError code details | .timeExpired code details =>
    details ++ " (os error " ++ toString code ++ ")"
  | .unexpectedEof => "unexpected end of file"
  | .userError message => message

/-- Reads a file, whose bytes must be UTF-8. -/
def readContents (path : String) : IO Contents := do
  match ← (IO.FS.withFile path .read (·.readBinToEnd)).toBaseIO with
  | .error e => pure (.error (systemCause e))
  | .ok bytes =>
    match String.fromUTF8? bytes with
    | some text => pure (.ok text)
    | none => pure (.error "stream did not contain valid UTF-8")

/-- Prints a response. -/
def Response.print (response : Response) : IO Unit := do
  IO.print response.stdout
  (← IO.getStdout).flush
  IO.eprint response.stderr

/-- Does what a step says and gives the exit code. -/
def Step.perform : Step → IO Nat
  | .finish response => do
    response.print
    pure response.exitCode
  | .write shown path content next => do
    shown.print
    let response ← match ← (IO.FS.writeFile path content).toBaseIO with
      | .ok () => pure (next none)
      | .error e => pure (next (some (systemCause e)))
    response.print
    pure response.exitCode

end Laye.CommandLine

open Laye.CommandLine in
/-- Runs the tool. -/
def main (args : List String) : IO UInt32 := do
  let request := Request.parse args
  let contents ← request.files.mapM readContents
  let exitCode ← (request.perform contents).perform
  pure exitCode.toUInt32
