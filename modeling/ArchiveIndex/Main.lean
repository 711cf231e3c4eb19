import ArchiveIndex.CommandLine.Run
import Std.Time.DateTime.Timestamp

/-!
# The Program

Reads the command line, opens the dump it names, and writes out what `Invocation.run` says. The
log shows the time in UTC.
-/

namespace ArchiveIndex.CommandLine

/-- Why the system could not open a file. -/
def SystemError.ofIO : IO.Error → SystemError
  | .noFileOrDirectory .. => notFound
  | .inappropriateType _ code details
  | .invalidArgument _ code details
  | .permissionDenied _ code details
  | .resourceExhausted _ code details
  | .otherError code details => ofCode code details
  | e => other 5 (toString e)
where
  /-- The error of a number of the system. -/
  ofCode (code : UInt32) (details : String) : SystemError :=
    if code = 20 then notDirectory
    else if code = 21 then isDirectory
    else if code = 36 then nameTooLong
    else other code.toNat details

/-- The content of the file at a path. A path that is no string has bytes that are no UTF-8, and
is not found here. -/
def readFile (path : Text) : IO (Except OpenError (List UInt8)) := do
  match systemPath path, path.toString? with
  | .error e, _ => return .error e
  | .ok _, .error _ => return .error (.system .notFound)
  | .ok _, .ok name =>
    try
      return .ok (← IO.FS.readBinFile name).toList
    catch e =>
      return .error (.system (.ofIO e))

/-- The present time, to the second. -/
def currentStamp : IO String := do
  let now ← Std.Time.Timestamp.now
  let microseconds := now.toNanosecondsSinceUnixEpoch.val / 1000
  match DateTime.ofMicroseconds microseconds with
  | .ok time => return time.stamp
  | .error e => return e.message

/-- The outcome of the program's arguments. -/
def outcomeOf (arguments : List Text) : IO Outcome := do
  match parse .later arguments with
  | .error detour => return detour.outcome
  | .ok invocation => return invocation.run (← readFile invocation.command.dump)

/-- Runs the program with its arguments, and gives the status to end with. -/
def execute (arguments : List String) : IO UInt32 := do
  let outcome ← outcomeOf (arguments.map Text.ofString)
  let stamp ← currentStamp
  outcome.output.forM fun line => IO.println line
  outcome.notes.forM fun note => IO.eprintln (note.text stamp)
  if let .failure failure := outcome.ending then
    IO.eprintln s!"Error: {failure.message}"
  return outcome.ending.status

end ArchiveIndex.CommandLine

def main (arguments : List String) : IO UInt32 := ArchiveIndex.CommandLine.execute arguments
