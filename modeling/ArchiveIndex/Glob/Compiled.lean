import ArchiveIndex.Glob.Parser
import ArchiveIndex.Glob.Regex
import ArchiveIndex.Text.Quoted

/-!
# Compiled Patterns

A pattern is compiled once and then tried on names. Names are brought to their normal form
first, so that a pattern need not care how a path was spelled; the pattern has to match the
whole of it.
-/

namespace ArchiveIndex.Glob

/-- A text that is no pattern, with the fault in it. -/
structure Rejection where
  pattern : Text
  fault : Fault
deriving DecidableEq

def Rejection.message (r : Rejection) : String :=
  s!"{r.fault.reason.text} near index {r.fault.position} in glob pattern " ++
    Quoted.quoted r.pattern

/-- The regular expression of a pattern. -/
def compile (pattern : Text) : Except Rejection Regex :=
  match Pattern.parse pattern with
  | .ok p => .ok (.ofPattern p)
  | .error fault => .error ⟨pattern, fault⟩

/-- Whether a compiled pattern selects a name. -/
def Regex.selects (r : Regex) (name : Text) : Bool :=
  Regex.fullMatch r (Path.normalize name)

end ArchiveIndex.Glob
