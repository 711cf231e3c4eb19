import ArchiveIndex.CommandLine.Folder
import ArchiveIndex.CommandLine.Usage
import ArchiveIndex.Dump.Load
import ArchiveIndex.Index.Build
import ArchiveIndex.Listing

/-!
# Running a Command

What a command writes and how it ends, given what opening its dump led to. Nothing here touches
a file: an `Outcome` holds the lines for the output, the notes for the error stream and the way
the program ends.

Errors of the dump, of a pattern and of the system are told in one line, and the program ends
with status 2. Other errors are not handled but end the program at once:

* a path with a zero character, or with a surrogate that stands for no byte;
* the error of a record, which the reader of dumps takes for a flaw and never lets through;
* a mode that cannot be shown;
* a line with a surrogate, which comes from a name or from the path and cannot be written.

The last two are met while lines are written, and the lines before have been written then. A line
is written as a whole or not at all: the output takes strict UTF-8.
-/

namespace ArchiveIndex.CommandLine

/-- What goes to the error stream: a line, or an event of the log, which is shown with the time
at which it happened. -/
inductive Note
  | line (text : String)
  | event (event : Event)
deriving DecidableEq

/-- A note as it is written at a time of the log. -/
def Note.text (time : String) : Note → String
  | line s => s
  | event e => s!"{time} - DEBUG - {e.message}"

/-- An error that is not handled. -/
inductive Failure
  | zeroInPath
  | mode (error : Listing.ModeError)
  | unencodable (error : Unencodable)
  | record (error : Block.Flaw)
deriving DecidableEq

def Failure.message : Failure → String
  | zeroInPath => "embedded null byte"
  | mode error => error.message
  | unencodable error => error.message
  | record error => error.message

/-- How the program ends. -/
inductive Ending
  | success
  | refusal
  | failure (failure : Failure)
deriving DecidableEq

/-- The status that the program ends with. -/
def Ending.status : Ending → UInt32
  | success => 0
  | refusal => 2
  | failure _ => 1

/-- What a run of the program has written, and how it ends. -/
structure Outcome where
  output : List String
  notes : List Note
  ending : Ending
deriving DecidableEq

/-- The outcome of an error that is told on the error stream, after what was logged. -/
def Outcome.refuse (log : List Note) (message : String) : Outcome :=
  ⟨[], log ++ [.line s!"Error: {message}"], .refusal⟩

/-- The outcome of an error that is not handled and is met before anything is written. -/
def Outcome.fail (failure : Failure) : Outcome := ⟨[], [], .failure failure⟩

/-- The log of building an index, as far as it is shown. -/
def shownEvents (verbose : Bool) (events : List Event) : List Note :=
  if verbose then events.map .event else []

/-- A mismatch in words, with a hint where it comes from. -/
def mismatchMessage (m : CountMismatch) : String :=
  m.message ++ "\nHint: the block reader produced an inconsistent index."

/-! ## Writing lines -/

/-- A line as it is written. -/
def encodeLine (line : Text) : Except Failure String := line.toString?.mapError .unencodable

/-- Writes a line for each of the items, up to the first whose line cannot be made or written. -/
def writeEach {α : Type} (lineOf : α → Except Failure String) :
    List α → List String × Option Failure
  | [] => ([], none)
  | a :: items =>
    match lineOf a with
    | .error failure => ([], some failure)
    | .ok line =>
      let (lines, failure) := writeEach lineOf items
      (line :: lines, failure)

/-- The outcome of writing a line for each of the items, after what was logged. -/
def Outcome.write {α : Type} (log : List Note) (lineOf : α → Except Failure String)
    (items : List α) : Outcome :=
  match writeEach lineOf items with
  | (lines, none) => ⟨lines, log, .success⟩
  | (lines, some failure) => ⟨lines, log, .failure failure⟩

/-! ## Listing entries -/

/-- The line of an entry as it is written. -/
def entryLine (e : Entry) : Except Failure String := do
  encodeLine (← (Listing.line e).mapError .mode)

/-- The entries that a pattern selects; an empty pattern, like none, selects all of them. -/
def selection (index : Index) (pattern : Option Text) : Except Glob.Rejection (List Entry) :=
  match pattern with
  | none | some [] => .ok index.entries
  | some p => index.glob p

/-- Lists the entries of an index of blocks. -/
def runList (verbose all : Bool) (pattern : Option Text) (blocks : List Block) : Outcome :=
  let build := Index.build (if all then .complete else .filtered) blocks
  let notes := shownEvents verbose build.events
  match build.result with
  | .error m => .refuse notes (mismatchMessage m)
  | .ok index =>
    match selection index pattern with
    | .error rejection => .refuse notes s!"invalid glob: {rejection.message}"
    | .ok entries => .write notes entryLine entries

/-! ## Counting entries -/

/-- What `info` reports. -/
structure Report where
  blocks : Nat
  entries : Nat
  liveFiles : Nat
  deletedNames : Nat
deriving DecidableEq

/-- The lines of a report after the first. -/
def Report.counts (r : Report) : List String :=
  [s!"  Blocks: {r.blocks}", s!"  Entries: {r.entries}", s!"    Live files: {r.liveFiles}",
    s!"    Deleted names: {r.deletedNames}"]

/-- The lines of a report. -/
def Report.lines (dump : Text) (r : Report) : List Text :=
  (Text.ofString "Dump: " ++ dump) :: r.counts.map Text.ofString

/-- Counts blocks, entries and names. -/
def report (blocks : List Block) (complete live : Index) : Report where
  blocks := blocks.length
  entries := complete.entries.length
  liveFiles := live.entries.length
  deletedNames := (live.deletedNames?.getD []).length

/-- Reports the counts of the two indexes of blocks. -/
def runInfo (verbose : Bool) (dump : Text) (blocks : List Block) : Outcome :=
  let first := Index.build .complete blocks
  let second := Index.build .filtered blocks
  match first.result, second.result with
  | .error m, _ => .refuse (shownEvents verbose first.events) (mismatchMessage m)
  | .ok _, .error m =>
    .refuse (shownEvents verbose (first.events ++ second.events)) (mismatchMessage m)
  | .ok complete, .ok live =>
    .write (shownEvents verbose (first.events ++ second.events)) encodeLine
      ((report blocks complete live).lines dump)

/-! ## The whole program -/

/-- Runs a command on the blocks of its dump. -/
def Command.run (verbose : Bool) (blocks : List Block) : Command → Outcome
  | list _ all pattern => runList verbose all pattern blocks
  | info dump => runInfo verbose dump blocks

/-- Runs a command, given what opening its dump led to. -/
def Invocation.run (i : Invocation) (content : Except OpenError (List UInt8)) : Outcome :=
  match content with
  | .error (.unencodable error) => .fail (.unencodable error)
  | .error .zeroInPath => .fail .zeroInPath
  | .error (.system error) => .refuse [] (error.message i.command.dump)
  | .ok bytes =>
    match Dump.load bytes with
    | .error (.layout (.record error)) => .fail (.record error)
    | .error error => .refuse [] (error.message i.command.dump).shown
    | .ok blocks => i.command.run i.verbose blocks

/-- What the program answers with when it is not to run a command. -/
def Detour.outcome : Detour → Outcome
  | help page => ⟨page.help, [], .success⟩
  | error page e => ⟨[], (page.complaint e).map .line, .refusal⟩

/-- Runs the program in a folder held in memory. -/
def runIn (release : Release) (folder : Folder) (arguments : List Text) : Outcome :=
  match parse release arguments with
  | .error detour => detour.outcome
  | .ok invocation => invocation.run (folder.read invocation.command.dump)

end ArchiveIndex.CommandLine
