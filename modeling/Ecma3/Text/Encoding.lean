import Ecma3.Text.Utf8
import Ecma3.Text.Utf16

/-!
Text encodings accepted for byte input. Decoding is strict, and drops one leading byte order mark.
-/

namespace Ecma3.Text

inductive Encoding where
  | utf8
  | utf16le
  | utf16be
  | latin1
deriving DecidableEq, Repr

/-- Bytes that are not valid in the encoding they were said to have. -/
inductive DecodeFault where
  | malformedUtf8 (fault : MalformedUtf8)
  | loneSurrogate
  | oddLength (bytes : Nat)
deriving DecidableEq, Repr

def DecodeFault.message : DecodeFault → String
  | malformedUtf8 ⟨index, some length⟩ =>
    "invalid utf-8 sequence of " ++ toString length ++ " bytes from index " ++ toString index
  | malformedUtf8 ⟨index, none⟩ => "incomplete utf-8 byte sequence from index " ++ toString index
  | loneSurrogate => "invalid utf-16: lone surrogate found"
  | oddLength bytes => "odd number of bytes (" ++ toString bytes ++ ")"

/-- U+FEFF at the start of a text marks its byte order and is no part of it. -/
def byteOrderMark : Char := '\uFEFF'

def dropByteOrderMark : List Char → List Char
  | [] => []
  | c :: rest => if c = byteOrderMark then rest else c :: rest

namespace Encoding

def all : List Encoding := [utf8, utf16le, utf16be, latin1]

def name : Encoding → String
  | utf8 => "UTF-8"
  | utf16le => "UTF-16LE"
  | utf16be => "UTF-16BE"
  | latin1 => "ISO-8859-1"

def decodeUtf16 (order : Utf16.ByteOrder) (bytes : List UInt8) : Except DecodeFault (List Char) :=
  if bytes.length % 2 = 0 then
    match Utf16.decodeUnits? (Utf16.units order bytes) with
    | some cs => .ok cs
    | none => .error .loneSurrogate
  else .error (.oddLength bytes.length)

/-- Every character of the bytes, a byte order mark included. -/
def decodeAll : Encoding → List UInt8 → Except DecodeFault (List Char)
  | utf8, bytes => (Utf8.decode bytes).mapError .malformedUtf8
  | utf16le, bytes => decodeUtf16 .littleEndian bytes
  | utf16be, bytes => decodeUtf16 .bigEndian bytes
  | latin1, bytes => .ok (bytes.map fun b => Char.ofNat b.toNat)

def decode (e : Encoding) (bytes : List UInt8) : Except DecodeFault String :=
  (e.decodeAll bytes).map fun cs => String.ofList (dropByteOrderMark cs)

end Encoding
end Ecma3.Text
