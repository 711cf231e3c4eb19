import ArchiveIndex.Text.Encodable

/-!
# Opening Files

Why a file could not be opened, and a folder held in memory whose files can be opened by their
paths. A path is first encoded in bytes, in which the system knows it. It is then followed from
one name to the next; a name can only be looked up in a folder.
-/

namespace ArchiveIndex.CommandLine

/-- Why the system does not open a file. -/
inductive SystemError
  | notFound
  | notDirectory
  | isDirectory
  | nameTooLong
  | other (code : Nat) (text : String)
deriving DecidableEq

/-- The system's number for an error, and its words for it. -/
def SystemError.description : SystemError → Nat × String
  | notFound => (2, "No such file or directory")
  | notDirectory => (20, "Not a directory")
  | isDirectory => (21, "Is a directory")
  | nameTooLong => (36, "File name too long")
  | other code text => (code, text)

/-- The system's message about a path. -/
def SystemError.message (path : Text) (e : SystemError) : String :=
  s!"[Errno {e.description.1}] {e.description.2}: {Quoted.quoted path}"

/-- Why a file could not be opened. A path that cannot be encoded or that has a zero character
never gets as far as the system. -/
inductive OpenError
  | unencodable (error : Unencodable)
  | zeroInPath
  | system (error : SystemError)
deriving DecidableEq

/-- The bytes by which the system knows a path. -/
def systemPath (path : Text) : Except OpenError (List UInt8) := do
  let bytes ← path.pathBytes.mapError .unencodable
  if 0 ∈ bytes then throw .zeroInPath
  return bytes

/-! ## A folder in memory -/

/-- Files by the bytes of their names. -/
abbrev Folder := List (List UInt8 × List UInt8)

/-- Where following a path has led: to the folder, to a place outside of which nothing is known
but that it is a folder, or to a file. -/
inductive Place
  | folder
  | outside
  | file (bytes : List UInt8)

/-- The longest name and the longest path, in bytes. -/
def longestName : Nat := 255

def longestPath : Nat := 4095

/-- The bytes of `/` and of `.`. -/
def slash : UInt8 := 0x2F

def dot : UInt8 := 0x2E

/-- Looks up the next name of a path. -/
def Folder.step (folder : Folder) (place : Place) (name : List UInt8) : Except SystemError Place :=
  match place with
  | .file _ => .error .notDirectory
  | place =>
    if name = [] ∨ name = [dot] then .ok place
    else if name = [dot, dot] then .ok .outside
    else if longestName < name.length then .error .nameTooLong
    else
      match place with
      | .folder =>
        match folder.find? fun file => file.1 = name with
        | some file => .ok (.file file.2)
        | none => .error .notFound
      | _ => .error .notFound

/-- The names of a path, which stand between slashes. -/
def pathNames : List UInt8 → List (List UInt8)
  | [] => [[]]
  | b :: rest =>
    if b = slash then [] :: pathNames rest
    else
      match pathNames rest with
      | [] => [[b]]
      | name :: names => (b :: name) :: names

/-- The content of the file that the system finds at a path. -/
def Folder.find (folder : Folder) (path : List UInt8) : Except SystemError (List UInt8) := do
  if path = [] then throw .notFound
  if longestPath < path.length then throw .nameTooLong
  let start := if path.head? = some slash then Place.outside else .folder
  match ← (pathNames path).foldlM folder.step start with
  | .file bytes => return bytes
  | _ => throw .isDirectory

/-- The content of the file at a path. -/
def Folder.read (folder : Folder) (path : Text) : Except OpenError (List UInt8) := do
  let bytes ← systemPath path
  (folder.find bytes).mapError .system

end ArchiveIndex.CommandLine
