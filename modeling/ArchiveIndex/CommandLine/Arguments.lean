import ArchiveIndex.Text.DecimalDigit
import ArchiveIndex.Text.Encodable

/-!
# Reading Arguments

A grammar says which options a command knows and what it does with the arguments that are no
options. Arguments are read in two steps. First each is **classified** by its looks: options may
be shortened as long as they stay unambiguous, a value may be joined to an option by `=`, letters
may follow a one-letter option, and behind `--` nothing is an option any more. Negative numbers
and words with a blank in them are no options either, unless the grammar knows them. Then the
arguments are **consumed** from left to right.

A one-letter option takes no value. Two releases of the reader are in use, which differ in what is
joined to an option: see `Release`.
-/

namespace ArchiveIndex.CommandLine

/-- How what is joined to an option is read. The earlier release takes a value `--` for a mark and
leaves the option without a value, reads on after `=` behind a letter, and refuses letters that no
option has. The later one keeps the value `--`, refuses a value that a letter is given by `=` and a
dash among letters, and leaves over letters that no option has. -/
inductive Release
  | earlier
  | later
deriving DecidableEq

/-! ## Grammars -/

/-- What an option does: it asks for help, or it records a setting. -/
inductive Effect (α : Type)
  | help
  | set (setting : α)

/-- An option with its names, dashes included. -/
structure Switch (α : Type) where
  names : List String
  effect : Effect α
  takesValue : Bool := false

/-- How errors name an option. -/
def Switch.title {α : Type} (s : Switch α) : String := "/".intercalate s.names

/-- What a command does with arguments that are no options: it takes one, or it takes the first
one with everything after it. -/
inductive Operand
  | single
  | rest
deriving DecidableEq

structure Grammar (α : Type) where
  switches : List (Switch α)
  operand : Operand

/-- Each name of an option, with the option. -/
def Grammar.names {α : Type} (g : Grammar α) : List (Switch α × Text) :=
  g.switches.flatMap fun s => s.names.map fun name => (s, Text.ofString name)

/-- The option of a name. -/
def Grammar.switch? {α : Type} (g : Grammar α) (name : Text) : Option (Switch α) :=
  (g.names.find? fun known => known.2 = name).map (·.1)

/-! ## Errors -/

/-- What is wrong with arguments. -/
inductive UsageError
  | ambiguous (argument : Text) (candidates : List Text)
  | unwantedValue (option : String) (value : Text)
  | lacksValue (option : String)
  | invalidChoice (operand : String) (given : Text) (choices : List String)
  | lacksOperand (operand : String)
  | unrecognized (arguments : List Text)

/-- An error in words, as the error stream shows it. -/
def UsageError.message : UsageError → String
  | ambiguous argument candidates =>
    s!"ambiguous option: {argument.shown} could match " ++
      ", ".intercalate (candidates.map Text.shown)
  | unwantedValue option value =>
    s!"argument {option}: ignored explicit argument {Quoted.quoted value}"
  | lacksValue option => s!"argument {option}: expected one argument"
  | invalidChoice operand given choices =>
    s!"argument {operand}: invalid choice: {Quoted.quoted given} (choose from " ++
      ", ".intercalate (choices.map fun choice : String => Quoted.quoted choice) ++ ")"
  | lacksOperand operand => s!"the following arguments are required: {operand}"
  | unrecognized arguments =>
    "unrecognized arguments: " ++ " ".intercalate (arguments.map Text.shown)

/-! ## Classifying -/

/-- What an argument looks like: a plain word, the mark `--`, an option under one of its names,
perhaps with a value joined to it, by `=` or without, or an option that the grammar does not
know. -/
inductive Shape (α : Type)
  | word
  | mark
  | option (switch : Switch α) (name : Text) (joined : Option (Bool × Text))
  | unknown

/-- The parts before and after the first `=`. -/
def splitValue (argument : Text) : Option (Text × Text) :=
  if ('=' : CodePoint) ∈ argument then
    some (argument.takeWhile (· ≠ ('=' : CodePoint)),
      (argument.dropWhile (· ≠ ('=' : CodePoint))).drop 1)
  else none

/-- A decimal digit of some script. -/
def isDigit (p : CodePoint) : Bool := DecimalDigit.isDecimalDigit p.val

/-- Whether an argument is a minus sign before an integer or a decimal fraction; a line feed may
follow. -/
def isNegativeNumber (argument : Text) : Bool :=
  match argument with
  | [] => false
  | sign :: rest =>
    let body := if rest.getLast? = some ('\n' : CodePoint) then rest.dropLast else rest
    sign = '-' &&
      match body.dropWhile isDigit with
      | [] => body ≠ []
      | point :: fraction => point = '.' && fraction ≠ [] && fraction.all isDigit

/-- The mark behind which nothing is an option. -/
def mark : Text := ['-', '-']

/-- The options that an argument may be short for, in the order of the grammar. After one dash
the first letter may also be a whole option, and the rest its value. -/
def Grammar.candidates {α : Type} (g : Grammar α) (argument : Text) :
    List (Switch α × Text × Option (Bool × Text)) :=
  if mark.isPrefixOf argument then
    let (front, joined) := match splitValue argument with
      | some (front, value) => (front, some (true, value))
      | none => (argument, none)
    (g.names.filter fun known => front.isPrefixOf known.2).map fun (s, name) => (s, name, joined)
  else
    g.names.filterMap fun (s, name) =>
      if name = argument.take 2 then some (s, name, some (false, argument.drop 2))
      else if argument.isPrefixOf name then some (s, name, none)
      else none

/-- The shape of an argument of two characters or more, of which the first is a dash, that has no
option's very name and no joined value. -/
def Grammar.shapeOfOther {α : Type} (g : Grammar α) (argument : Text) :
    Except UsageError (Shape α) :=
  match g.candidates argument with
  | [(s, name, joined)] => .ok (.option s name joined)
  | [] =>
    .ok (if isNegativeNumber argument ∨ (' ' : CodePoint) ∈ argument then .word else .unknown)
  | candidates => .error (.ambiguous argument (candidates.map fun candidate => candidate.2.1))

/-- The shape of an argument before the mark. -/
def Grammar.shapeOf {α : Type} (g : Grammar α) (argument : Text) :
    Except UsageError (Shape α) :=
  if argument.head? ≠ some ('-' : CodePoint) then .ok .word
  else
    match g.switch? argument with
    | some s => .ok (.option s argument none)
    | none =>
      if argument.length = 1 then .ok .word
      else
        match splitValue argument with
        | some (name, value) =>
          match g.switch? name with
          | some s => .ok (.option s name (some (true, value)))
          | none => g.shapeOfOther argument
        | none => g.shapeOfOther argument

/-- The arguments with their shapes. -/
def Grammar.classify {α : Type} (g : Grammar α) :
    List Text → Except UsageError (List (Text × Shape α))
  | [] => .ok []
  | argument :: rest =>
    if argument = mark then .ok ((argument, .mark) :: rest.map fun word => (word, .word))
    else do
      let shape ← g.shapeOf argument
      return (argument, shape) :: (← g.classify rest)

/-! ## Consuming -/

/-- Why reading ends early. -/
inductive Stop
  | help
  | error (error : UsageError)

/-- What arguments say: the settings in order with their values, the operand, and the arguments
left over. -/
structure Reading (α : Type) where
  settings : List (α × Option Text)
  operand : List Text
  extras : List Text

/-- An option that was given, and its value. -/
abbrev Given (α : Type) := Switch α × Option Text

/-- What an argument with something joined to its option says: the options given, and what is left
over. -/
structure Joined (α : Type) where
  given : List (Given α)
  extras : List Text

/-- The value of an option to which a text is joined. -/
def Release.value? (release : Release) (value : Text) : Option Text :=
  if release = .earlier ∧ value = mark then none else some value

/-- Whether what is joined to a one-letter option is refused before any of it is read. -/
def Release.refuses (release : Release) (explicit : Bool) (letter : CodePoint) : Bool :=
  release = .later ∧ (explicit = true ∨ letter = '-')

/-- What an argument with something joined to its option says; `explicit` tells whether it is
joined by `=`. What follows a one-letter option are further letters. -/
def Grammar.joined {α : Type} (g : Grammar α) (release : Release) (s : Switch α) (name : Text)
    (explicit : Bool) (value : Text) : Except UsageError (Joined α) :=
  if s.takesValue then .ok ⟨[(s, release.value? value)], []⟩
  else if mark.isPrefixOf name then .error (.unwantedValue s.title value)
  else
    match value with
    | [] => .error (.unwantedValue s.title value)
    | letter :: rest =>
      if release.refuses explicit letter then .error (.unwantedValue s.title value)
      else
        match g.switch? ['-', letter], release, rest with
        | none, .earlier, _ => .error (.unwantedValue s.title value)
        | none, .later, _ => .ok ⟨[(s, none)], ['-' :: value]⟩
        | some next, _, [] => .ok ⟨[(s, none), (next, none)], []⟩
        | some next, .earlier, sign :: others => do
          let later ← g.joined release next ['-', letter] false (sign :: others)
          return { later with given := (s, none) :: later.given }
        | some next, .later, sign :: others => do
          let later ←
            if sign = '=' then g.joined release next ['-', letter] true others
            else g.joined release next ['-', letter] false (sign :: others)
          return { later with given := (s, none) :: later.given }

/-- Puts options into effect before what follows is read. A request for help ends reading. -/
def perform {α : Type} (given : List (Given α)) (rest : Except Stop (Reading α)) :
    Except Stop (Reading α) :=
  match given with
  | [] => rest
  | (s, value) :: given =>
    match s.effect with
    | .help => .error .help
    | .set setting => do
      let reading ← perform given rest
      return { reading with settings := (setting, value) :: reading.settings }

/-- Adds what is left over of an argument. -/
def leftOver {α : Type} (extras : List Text) (rest : Except Stop (Reading α)) :
    Except Stop (Reading α) := do
  let reading ← rest
  return { reading with extras := extras ++ reading.extras }

/-- Records the operand. -/
def withOperand {α : Type} (operand : List Text) (rest : Except Stop (Reading α)) :
    Except Stop (Reading α) := do
  let reading ← rest
  return { reading with operand }

/-- Consumes arguments from left to right. `wanted` says whether the operand is still to come. A
mark next to the operand belongs to it; if the operand is everything that is left, the mark is
kept. -/
def Grammar.consume {α : Type} (g : Grammar α) (release : Release) (wanted : Bool)
    (arguments : List (Text × Shape α)) : Except Stop (Reading α) :=
  match arguments with
  | [] => .ok ⟨[], [], []⟩
  | (argument, shape) :: rest =>
    match shape with
    | .unknown => leftOver [argument] (g.consume release wanted rest)
    | .option s name (some (explicit, value)) =>
      match g.joined release s name explicit value with
      | .error error => .error (.error error)
      | .ok joined => perform joined.given (leftOver joined.extras (g.consume release wanted rest))
    | .option s _ none =>
      if s.takesValue then
        match rest with
        | (value, .word) :: rest => perform [(s, some value)] (g.consume release wanted rest)
        | _ => .error (.error (.lacksValue s.title))
      else perform [(s, none)] (g.consume release wanted rest)
    | .word =>
      if !wanted then leftOver [argument] (g.consume release wanted rest)
      else
        match g.operand with
        | .rest => .ok ⟨[], argument :: rest.map (·.1), []⟩
        | .single =>
          match rest with
          | (_, .mark) :: rest => withOperand [argument] (g.consume release false rest)
          | others => withOperand [argument] (g.consume release false others)
    | .mark =>
      if !wanted then leftOver [argument] (g.consume release wanted rest)
      else
        match rest with
        | [] => .ok ⟨[], [], [argument]⟩
        | (word, _) :: rest =>
          match g.operand with
          | .rest => .ok ⟨[], argument :: word :: rest.map (·.1), []⟩
          | .single => withOperand [word] (g.consume release false rest)
termination_by arguments.length

/-- Reads arguments. -/
def Grammar.read {α : Type} (g : Grammar α) (release : Release) (arguments : List Text) :
    Except Stop (Reading α) := do
  let shapes ← (g.classify arguments).mapError .error
  g.consume release true shapes

end ArchiveIndex.CommandLine
