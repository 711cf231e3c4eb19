import ArchiveIndex.Decimal.Binary64
import ArchiveIndex.Text.CodePoint

/-!
# JSON Values

The values of a JSON document. Integers are exact, other numbers are rounded to binary
floating point. The fields of an object stand in the order of the document, each name once.
-/

namespace ArchiveIndex

inductive Json
  | null
  | bool (b : Bool)
  | int (n : Int)
  | float (x : Binary64)
  | str (t : Text)
  | arr (items : List Json)
  | obj (fields : List (Text × Json))

namespace Json

/-- Sets a field: a name that is already there keeps its place. -/
def put (name : Text) (value : Json) : List (Text × Json) → List (Text × Json)
  | [] => [(name, value)]
  | field :: fields =>
    if field.1 = name then (name, value) :: fields else field :: put name value fields

/-- The fields that result from setting each of the given ones in turn: the last value of a
repeated name stands at the place of the first. -/
def ofFields (fields : List (Text × Json)) : List (Text × Json) :=
  fields.foldl (fun known field => put field.1 field.2 known) []

/-- The value of a field. -/
def field? (fields : List (Text × Json)) (name : String) : Option Json :=
  (fields.find? fun field => field.1 = Text.ofString name).map (·.2)

/-- A string value. -/
def ofString (s : String) : Json := .str (.ofString s)

end Json
end ArchiveIndex
