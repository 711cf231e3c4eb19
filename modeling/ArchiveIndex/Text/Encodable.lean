import ArchiveIndex.Text.Quoted
import ArchiveIndex.Text.Utf8

/-!
# Texts that Leave the Program

UTF-8 has no bytes for a surrogate, so a text that holds one is not as good as a string where it
leaves the program. It depends on the way out what becomes of it:

* A line of **output** has to be a string, and a text that is none is not written at all.
* A **note** for the error stream shows the number of a surrogate in its place.
* In a **path** the surrogates U+DC80 to U+DCFF stand for the bytes 0x80 to 0xFF, which is how
  the system hands in names of files that are no UTF-8. Other surrogates are refused.
-/

namespace ArchiveIndex

/-- Surrogates that cannot be encoded: the first of them, its place, and how many of them stand
in a row. -/
structure Unencodable where
  first : CodePoint
  offset : Nat
  length : Nat
deriving DecidableEq

/-- The error in words. It shows the surrogate, or the range of places if there are several. -/
def Unencodable.message (u : Unencodable) : String :=
  let place :=
    if u.length = 1 then
      "character '" ++ String.ofList (Quoted.escapeNumber u.first.val) ++
        s!"' in position {u.offset}"
    else s!"characters in position {u.offset}-{u.offset + u.length - 1}"
  s!"'utf-8' codec can't encode {place}: surrogates not allowed"

namespace Text

/-- The units that encode a text from a place on, given those of each code point. A code point
without any is a surrogate, and is reported with the surrogates right after it. -/
def encodeFrom {β : Type} (units? : CodePoint → Option (List β)) (offset : Nat) :
    Text → Except Unencodable (List β)
  | [] => .ok []
  | p :: rest =>
    match units? p with
    | none => .error ⟨p, offset, ((p :: rest).takeWhile CodePoint.isSurrogate).length⟩
    | some units => (encodeFrom units? (offset + 1) rest).map (units ++ ·)

/-- The string that a text is, or the surrogates in it. -/
def toString? (t : Text) : Except Unencodable String :=
  (encodeFrom (fun p => p.toChar?.map fun c => [c]) 0 t).map String.ofList

/-- The bytes of a code point of a path. -/
def pathUnits? (p : CodePoint) : Option (List UInt8) :=
  match p.toChar? with
  | some c => some (Utf8.encodeChar c)
  | none => if 0xDC80 ≤ p.val ∧ p.val ≤ 0xDCFF then some [UInt8.ofNat (p.val % 0x100)] else none

/-- The bytes of a path, or the surrogates that stand for none. -/
def pathBytes (t : Text) : Except Unencodable (List UInt8) := encodeFrom pathUnits? 0 t

/-- How one code point shows in a note. -/
def showCode (p : CodePoint) : List Char :=
  match p.toChar? with
  | some c => [c]
  | none => Quoted.escapeNumber p.val

/-- How a text shows in a note. -/
def shown (t : Text) : String := String.ofList (t.flatMap showCode)

example : toString? [0x61, 0xD800, 0xDC00, 0x62] = .error ⟨0xD800, 1, 2⟩ := by rfl
example : pathBytes [0x61, 0xDCFF] = .ok [0x61, 0xFF] := by rfl

end Text
end ArchiveIndex
