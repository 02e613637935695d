/-!
Texts as the bytes of their UTF-8 form: lengths, cuts, and reading bytes back.
-/

namespace Ecma3.Text

/-- Number of bytes that the characters take in UTF-8. -/
def byteLength : List Char → Nat
  | [] => 0
  | c :: rest => c.utf8Size + byteLength rest

/-- What is left after the first `n` bytes; nothing if that cut falls inside a character or past
the end. -/
def dropBytes? : Nat → List Char → Option (List Char)
  | 0, cs => some cs
  | _ + 1, [] => none
  | n + 1, c :: rest => if c.utf8Size ≤ n + 1 then dropBytes? (n + 1 - c.utf8Size) rest else none

theorem byteLength_append (a b : List Char) : byteLength (a ++ b) = byteLength a + byteLength b := by
  induction a with
  | nil => simp [byteLength]
  | cons c rest ih => simp [byteLength, ih, Nat.add_assoc]

/-- Why bytes are not UTF-8: where the bad sequence starts, and how many bytes of it could still
have begun a character. No length means that the input ends inside the sequence. -/
structure MalformedUtf8 where
  index : Nat
  length : Option Nat
deriving DecidableEq, Repr

namespace Utf8

/-- A character of which some bytes have been read: how many, the bits so far, and the ranges that
the remaining bytes must lie in. -/
structure Sequence where
  taken : Nat
  bits : Nat
  expected : List (Nat × Nat)

/-- Any continuation byte. -/
def continuation : Nat × Nat := (0x80, 0xBF)

/-- The sequence that a first byte opens. The narrowed second ranges keep out overlong forms,
surrogates and values above U+10FFFF. -/
def lead? (b : Nat) : Option Sequence :=
  if b < 0x80 then some ⟨1, b, []⟩
  else if b < 0xC2 then none
  else if b < 0xE0 then some ⟨1, b - 0xC0, [continuation]⟩
  else if b = 0xE0 then some ⟨1, 0, [(0xA0, 0xBF), continuation]⟩
  else if b = 0xED then some ⟨1, 0xD, [(0x80, 0x9F), continuation]⟩
  else if b < 0xF0 then some ⟨1, b - 0xE0, [continuation, continuation]⟩
  else if b = 0xF0 then some ⟨1, 0, [(0x90, 0xBF), continuation, continuation]⟩
  else if b < 0xF4 then some ⟨1, b - 0xF0, [continuation, continuation, continuation]⟩
  else if b = 0xF4 then some ⟨1, 4, [(0x80, 0x8F), continuation, continuation]⟩
  else none

/-- Reads bytes from `index`, where the open sequence, if there is one, began. -/
def decodeFrom (index : Nat) : Option Sequence → List UInt8 → Except MalformedUtf8 (List Char)
  | none, [] => .ok []
  | some _, [] => .error ⟨index, none⟩
  | none, b :: rest =>
    match lead? b.toNat with
    | none => .error ⟨index, some 1⟩
    | some s =>
      if s.expected.isEmpty then (decodeFrom (index + s.taken) none rest).map (Char.ofNat s.bits :: ·)
      else decodeFrom index (some s) rest
  | some s, b :: rest =>
    match s.expected with
    | [] => .error ⟨index, some s.taken⟩
    | (low, high) :: more =>
      if low ≤ b.toNat && b.toNat ≤ high then
        let s : Sequence := ⟨s.taken + 1, s.bits * 64 + (b.toNat - 0x80), more⟩
        if more.isEmpty then (decodeFrom (index + s.taken) none rest).map (Char.ofNat s.bits :: ·)
        else decodeFrom index (some s) rest
      else .error ⟨index, some s.taken⟩

def decode (bytes : List UInt8) : Except MalformedUtf8 (List Char) :=
  decodeFrom 0 none bytes

end Utf8
end Ecma3.Text
