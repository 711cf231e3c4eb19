import ArchiveIndex.CommandLine.Arguments

/-!
# The Command Line

The program has two commands, which look at a dump: `list` shows its entries and `info` counts
them. `parse` turns the arguments into an invocation, or into the page of help or the usage
error that the program answers with instead.
-/

namespace ArchiveIndex.CommandLine

/-- What the program is asked to do with the dump at a path. -/
inductive Command
  | list (dump : Text) (all : Bool) (pattern : Option Text)
  | info (dump : Text)
deriving DecidableEq

/-- The dump that a command looks at. -/
def Command.dump : Command → Text
  | list dump _ _ => dump
  | info dump => dump

/-- A command, and whether to show the log. -/
structure Invocation where
  verbose : Bool
  command : Command
deriving DecidableEq

/-- The commands by name. -/
inductive Verb
  | list
  | info
deriving DecidableEq

def Verb.name : Verb → String
  | list => "list"
  | info => "info"

def Verb.all : List Verb := [list, info]

def Verb.ofName? (name : Text) : Option Verb := all.find? fun verb => Text.ofString verb.name = name

/-! ## Grammars -/

/-- The options of the program and of its commands. -/
inductive Setting
  | verbose
  | all
  | glob
deriving DecidableEq

def helpSwitch : Switch Setting := { names := ["-h", "--help"], effect := .help }

/-- The program takes a command with all its arguments. -/
def mainGrammar : Grammar Setting where
  switches := [helpSwitch, { names := ["-v", "--verbose"], effect := .set .verbose }]
  operand := .rest

/-- A command takes the path of a dump. -/
def Verb.grammar : Verb → Grammar Setting
  | list =>
    { switches :=
        [helpSwitch, { names := ["--all"], effect := .set .all },
          { names := ["--glob"], effect := .set .glob, takesValue := true }]
      operand := .single }
  | info => { switches := [helpSwitch], operand := .single }

/-! ## Pages -/

/-- The parts of the command line that have a page of help: the program and its commands. -/
inductive Page
  | main
  | verb (verb : Verb)
deriving DecidableEq

/-- How errors call the part of the command line that they are about. -/
def Page.title : Page → String
  | main => "siva-index"
  | verb v => "siva-index " ++ v.name

def Page.usage : Page → String
  | main => "usage: siva-index [-h] [-v] \x7blist,info\x7d ..."
  | verb .list => "usage: siva-index list [-h] [--all] [--glob GLOB] dump"
  | verb .info => "usage: siva-index info [-h] dump"

/-- The lines of a page of help after its usage. -/
def Page.details : Page → List String
  | main =>
    ["",
      "Inspect the reconciled index of parsed siva blocks",
      "",
      "positional arguments:",
      "  \x7blist,info\x7d",
      "    list         List live entries (or the full history)",
      "    info         Show block and entry counts",
      "",
      "options:",
      "  -h, --help     show this help message and exit",
      "  -v, --verbose  Enable debug logging",
      "",
      "Input is a JSON block dump; see siva.dump for its layout."]
  | verb .list =>
    ["",
      "positional arguments:",
      "  dump         JSON block dump path",
      "",
      "options:",
      "  -h, --help   show this help message and exit",
      "  --all        Show every recorded entry, tombstones included",
      "  --glob GLOB  Only entries whose name matches this glob pattern"]
  | verb .info =>
    ["",
      "positional arguments:",
      "  dump        JSON block dump path",
      "",
      "options:",
      "  -h, --help  show this help message and exit"]

/-- The lines of a page of help. -/
def Page.help (page : Page) : List String := page.usage :: page.details

/-- The lines that tell of a usage error. -/
def Page.complaint (page : Page) (error : UsageError) : List String :=
  [page.usage, s!"{page.title}: error: {error.message}"]

/-! ## Parsing -/

/-- What the program answers with when it is not to run a command. -/
inductive Detour
  | help (page : Page)
  | error (page : Page) (error : UsageError)

/-- A stop while the arguments of a part of the command line are read. -/
def Detour.ofStop (page : Page) : Stop → Detour
  | .help => help page
  | .error e => error page e

/-- Whether a setting was given. -/
def Reading.has (r : Reading Setting) (setting : Setting) : Bool :=
  r.settings.any fun given => given.1 = setting

/-- The value given last for a setting. -/
def Reading.value? (r : Reading Setting) (setting : Setting) : Option Text :=
  ((r.settings.filter fun given => given.1 = setting).getLast?.map (·.2)).join

/-- The command that the arguments of a command ask for. -/
def Verb.command (verb : Verb) (r : Reading Setting) (dump : Text) : Command :=
  match verb with
  | list => .list dump (r.has .all) (r.value? .glob)
  | info => .info dump

/-- Reads the command line. Errors of a command come before complaints about arguments that
nobody knows. -/
def parse (release : Release) (arguments : List Text) : Except Detour Invocation := do
  let main ← (mainGrammar.read release arguments).mapError (.ofStop .main)
  let name :: rest := main.operand | throw (.error .main (.lacksOperand "cmd"))
  let some verb := Verb.ofName? name
    | throw (.error .main (.invalidChoice "cmd" name (Verb.all.map Verb.name)))
  let reading ← (verb.grammar.read release rest).mapError (.ofStop (.verb verb))
  let dump :: _ := reading.operand | throw (.error (.verb verb) (.lacksOperand "dump"))
  let extras := main.extras ++ reading.extras
  if extras ≠ [] then throw (.error .main (.unrecognized extras))
  return { verbose := main.has .verbose, command := verb.command reading dump }

end ArchiveIndex.CommandLine
