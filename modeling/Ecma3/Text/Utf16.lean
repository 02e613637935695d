/-!
UTF-16: pairing bytes into code units and code units into characters.
-/

namespace Ecma3.Text.Utf16

/-- Which byte of a code unit comes first. -/
inductive ByteOrder where
  | littleEndian
  | bigEndian
deriving DecidableEq, Repr

def ByteOrder.unit : ByteOrder → UInt8 → UInt8 → Nat
  | littleEndian, low, high => high.toNat * 256 + low.toNat
  | bigEndian, high, low => high.toNat * 256 + low.toNat

/-- The code units of the bytes; a last byte without a partner makes none. -/
def units (order : ByteOrder) : List UInt8 → List Nat
  | first :: second :: rest => order.unit first second :: units order rest
  | _ => []

/-- The first half of a pair. -/
def isHighSurrogate (u : Nat) : Bool := 0xD800 ≤ u && u < 0xDC00

/-- The second half of a pair. -/
def isLowSurrogate (u : Nat) : Bool := 0xDC00 ≤ u && u < 0xE000

/-- The characters of the code units, or nothing if a surrogate stands alone. -/
def decodeUnits? : List Nat → Option (List Char)
  | [] => some []
  | [u] => if isHighSurrogate u || isLowSurrogate u then none else some [Char.ofNat u]
  | u :: v :: rest =>
    if isHighSurrogate u then
      if isLowSurrogate v then
        (decodeUnits? rest).map (Char.ofNat (0x10000 + (u - 0xD800) * 0x400 + (v - 0xDC00)) :: ·)
      else none
    else if isLowSurrogate u then none
    else (decodeUnits? (v :: rest)).map (Char.ofNat u :: ·)

end Ecma3.Text.Utf16
