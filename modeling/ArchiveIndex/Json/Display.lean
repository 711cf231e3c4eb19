import ArchiveIndex.Decimal.Notation
import ArchiveIndex.Json.Value
import ArchiveIndex.Text.Quoted

/-!
# Values in Messages

How a message shows a value that it complains about: texts quoted, lists and objects in
brackets and braces, and the three constants as `None`, `True` and `False`.
-/

namespace ArchiveIndex.Json

mutual

/-- Shows a value. -/
def display : Json → List Char
  | .null => "None".toList
  | .bool true => "True".toList
  | .bool false => "False".toList
  | .int n => Numeral.ofInt n
  | .float x => x.text
  | .str t => Quoted.quote t
  | .arr items => '[' :: displayItems items
  | .obj fields => '\x7b' :: displayFields fields

/-- Shows the items of a list and the bracket after them. -/
def displayItems : List Json → List Char
  | [] => [']']
  | [item] => display item ++ [']']
  | item :: items => display item ++ ", ".toList ++ displayItems items

/-- Shows the fields of an object and the brace after them. -/
def displayFields : List (Text × Json) → List Char
  | [] => ['\x7d']
  | [(name, value)] => Quoted.quote name ++ ": ".toList ++ display value ++ ['\x7d']
  | (name, value) :: fields =>
    Quoted.quote name ++ ": ".toList ++ display value ++ ", ".toList ++ displayFields fields

end

/-- Shows a value, as a string. -/
def displayed (v : Json) : String := String.ofList (display v)

end ArchiveIndex.Json
