import ArchiveIndex.Numeral

/-!
# UTF-8

A byte below 0x80 is a character by itself. A byte from 0xC2 to 0xF4 starts a sequence of two to
four bytes whose others lie in 0x80 to 0xBF; after 0xE0, 0xED, 0xF0 and 0xF4 the second byte has
a narrower range, which keeps out overlong forms, surrogates and numbers above 0x10FFFF.

`Utf8.decode` reads a whole file, or says which bytes are at fault. The fault covers the start
of the sequence and those of its bytes that were right. `Utf8.encode` writes characters as
bytes.
-/

namespace ArchiveIndex.Utf8

/-- What is wrong with a sequence of bytes. -/
inductive Cause
  | start
  | continuation
  | ended
deriving DecidableEq

def Cause.text : Cause → String
  | start => "invalid start byte"
  | continuation => "invalid continuation byte"
  | ended => "unexpected end of data"

/-- A faulty sequence: its first byte, its place, and its length. -/
structure Fault where
  cause : Cause
  first : Nat
  offset : Nat
  length : Nat
deriving DecidableEq

/-- A fault in words. It names the byte, or the range of bytes if there are several. -/
def Fault.message (f : Fault) : String :=
  let place :=
    if f.length = 1 then
      s!"byte 0x{String.ofList (Numeral.hex 2 f.first)} in position {f.offset}"
    else s!"bytes in position {f.offset}-{f.offset + f.length - 1}"
  s!"'utf-8' codec can't decode {place}: {f.cause.text}"

/-- A fault as `read` meets it, placed by the bytes from there on. -/
structure Stop where
  cause : Cause
  length : Nat
  rest : List UInt8

/-! ## Reading -/

/-- The range of the second byte after a first byte. -/
def secondRange (first : Nat) : Nat × Nat :=
  if first = 0xE0 then (0xA0, 0xBF)
  else if first = 0xED then (0x80, 0x9F)
  else if first = 0xF0 then (0x90, 0xBF)
  else if first = 0xF4 then (0x80, 0x8F)
  else (0x80, 0xBF)

/-- Whether a byte may come second after `first`. -/
def isSecond (first : Nat) (b : UInt8) : Bool :=
  (secondRange first).1 ≤ b.toNat && b.toNat ≤ (secondRange first).2

/-- Whether a byte continues a sequence. -/
def isContinuation (b : UInt8) : Bool := 0x80 ≤ b.toNat && b.toNat ≤ 0xBF

/-- The six bits that a continuation byte holds. -/
def payload (b : UInt8) : Nat := b.toNat % 0x40

/-- The characters that the bytes encode, or the first fault. -/
def read : List UInt8 → Except Stop (List Char)
  | [] => .ok []
  | b :: rest =>
    let first := b.toNat
    if first < 0x80 then do return Char.ofNat first :: (← read rest)
    else if first < 0xC2 ∨ 0xF4 < first then .error ⟨.start, 1, b :: rest⟩
    else
      match rest with
      | [] => .error ⟨.ended, 1, [b]⟩
      | b₁ :: rest₁ =>
        if !isSecond first b₁ then .error ⟨.continuation, 1, b :: rest⟩
        else if first < 0xE0 then do
          return Char.ofNat (first % 0x20 * 0x40 + payload b₁) :: (← read rest₁)
        else
          match rest₁ with
          | [] => .error ⟨.ended, 2, b :: rest⟩
          | b₂ :: rest₂ =>
            if !isContinuation b₂ then .error ⟨.continuation, 2, b :: rest⟩
            else if first < 0xF0 then do
              return Char.ofNat (first % 0x10 * 0x1000 + payload b₁ * 0x40 + payload b₂) ::
                (← read rest₂)
            else
              match rest₂ with
              | [] => .error ⟨.ended, 3, b :: rest⟩
              | b₃ :: rest₃ =>
                if !isContinuation b₃ then .error ⟨.continuation, 3, b :: rest⟩
                else do
                  return Char.ofNat (first % 0x8 * 0x40000 + payload b₁ * 0x1000 +
                    payload b₂ * 0x40 + payload b₃) :: (← read rest₃)

/-- The characters that a file encodes, or the first fault with its place in the file. -/
def decode (bytes : List UInt8) : Except Fault (List Char) :=
  (read bytes).mapError fun stop =>
    { cause := stop.cause
      first := (stop.rest.headD 0).toNat
      offset := bytes.length - stop.rest.length
      length := stop.length }

/-! ## Writing -/

/-- A byte that continues a sequence, with the lowest six bits of a number. -/
def trailByte (n : Nat) : UInt8 := UInt8.ofNat (0x80 + n % 0x40)

/-- The bytes of a character. -/
def encodeChar (c : Char) : List UInt8 :=
  let n := c.toNat
  if n < 0x80 then [UInt8.ofNat n]
  else if n < 0x800 then [UInt8.ofNat (0xC0 + n / 0x40), trailByte n]
  else if n < 0x10000 then
    [UInt8.ofNat (0xE0 + n / 0x1000), trailByte (n / 0x40), trailByte n]
  else
    [UInt8.ofNat (0xF0 + n / 0x40000), trailByte (n / 0x1000), trailByte (n / 0x40),
      trailByte n]

/-- The bytes of a text. -/
def encode (text : List Char) : List UInt8 := text.flatMap encodeChar

end ArchiveIndex.Utf8
