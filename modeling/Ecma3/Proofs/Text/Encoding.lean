import Ecma3.Proofs.Outcome
import Ecma3.Proofs.Text.Utf16
import Ecma3.Text.Encoding

/-! Encodings as ways to write texts down. What is read is what was written, and nothing else is
read. -/
namespace Ecma3.Text

open Utf16 (ByteOrder Lone encodeUnits units_flatMap_bytes flatMap_bytes_units encodeUnits_lt
  decodeUnits?_encodeUnits decodeUnits?_lone decodeUnits?_eq_some length_flatMap_bytes)
open Utf8 (toNat_byte form capacity InRange continuation)

variable {e : Encoding} {order : ByteOrder} {t : String} {cs : List Char} {bytes : List UInt8}
  {fault : DecodeFault}

/-- The text without the U+FEFF at its start, if there is one there. -/
def withoutMark (t : String) : String :=
  if t.toList.head? = some '\uFEFF' then String.ofList t.toList.tail else t

theorem ofList_dropByteOrderMark (t : String) :
    String.ofList (dropByteOrderMark t.toList) = withoutMark t := by
  have ht : String.ofList t.toList = t := String.ofList_toList
  unfold withoutMark
  generalize t.toList = cs at ht ⊢
  subst ht
  cases cs with
  | nil => rfl
  | cons c rest =>
    by_cases hmark : c = '\uFEFF'
    · simp [dropByteOrderMark, byteOrderMark, hmark]
    · simp [dropByteOrderMark, byteOrderMark, hmark]

namespace Encoding

/-- The order of the bytes in a code unit, in the encodings that have code units of two. -/
def order? : Encoding → Option ByteOrder
  | utf16le => some .littleEndian
  | utf16be => some .bigEndian
  | utf8 | latin1 => none

/-- The encoding has bytes for every character of the text. -/
def Represents : Encoding → String → Prop
  | latin1, t => ∀ c ∈ t.toList, c.toNat < 0x100
  | utf8, _ | utf16le, _ | utf16be, _ => True

/-- The bytes of the text. -/
def encode : Encoding → String → List UInt8
  | utf8, t => Utf8.encode t.toList
  | utf16le, t => Utf16.encode .littleEndian t.toList
  | utf16be, t => Utf16.encode .bigEndian t.toList
  | latin1, t => t.toList.map fun c => .ofNat c.toNat

/-- Bytes that go wrong behind the text `before`. -/
inductive Malformed : Encoding → List UInt8 → Prop where
  /-- A value in more bytes than it needs. -/
  | overlong {before : List Char} {n v : Nat} {rest : List UInt8} (hlow : 1 < n) (hhigh : n ≤ 4)
    (hv : v < capacity (n - 1)) : Malformed utf8 (Utf8.encode before ++ (form n v ++ rest))
  | surrogate {before : List Char} {v : Nat} {rest : List UInt8} (hlow : 0xD800 ≤ v)
    (hhigh : v < 0xE000) : Malformed utf8 (Utf8.encode before ++ (form 3 v ++ rest))
  | tooLarge {before : List Char} {v : Nat} {rest : List UInt8} (hlow : 0x110000 ≤ v)
    (hhigh : v < capacity 4) : Malformed utf8 (Utf8.encode before ++ (form 4 v ++ rest))
  /-- A byte that can only stand inside a sequence, or nowhere. -/
  | stray {before : List Char} {b : UInt8} {rest : List UInt8}
    (hb : InRange continuation b ∨ 0xF8 ≤ b.toNat) :
    Malformed utf8 (Utf8.encode before ++ b :: rest)
  /-- Some of the bytes of a character, with no byte behind them that could go on. -/
  | truncated {before : List Char} {c : Char} {k : Nat} {rest : List UInt8} (hlow : 0 < k)
    (hhigh : k < c.utf8Size) (hrest : ∀ b ∈ rest.head?, ¬InRange continuation b) :
    Malformed utf8 (Utf8.encode before ++ ((String.utf8EncodeChar c).take k ++ rest))
  | loneSurrogate {e : Encoding} {order : ByteOrder} {before : List Char} {u : Nat} {rest : List Nat}
    (he : e.order? = some order) (hlone : Lone u rest) (hunits : ∀ v ∈ u :: rest, v < 0x10000) :
    Malformed e ((encodeUnits before ++ u :: rest).flatMap order.bytes)
  | oddLength {e : Encoding} {order : ByteOrder} {bytes : List UInt8} (he : e.order? = some order)
    (hlength : bytes.length % 2 = 1) : Malformed e bytes

/-! UTF-16 in either order of the bytes. -/

theorem decodeUtf16_eq_ok :
    decodeUtf16 order bytes = .ok cs ↔ bytes = Utf16.encode order cs := by
  constructor
  · intro h
    unfold decodeUtf16 at h
    split at h
    · rename_i heven
      obtain ⟨hbytes, hunits⟩ := flatMap_bytes_units order heven
      split at h
      · rename_i found hfound
        cases h
        rw [decodeUnits?_eq_some hunits] at hfound
        rw [Utf16.encode, ← hfound, hbytes]
      · cases h
    · cases h
  · rintro rfl
    have hread := (decodeUnits?_eq_some (t := cs) encodeUnits_lt).2 rfl
    rw [decodeUtf16, Utf16.encode, if_pos (length_flatMap_bytes _), units_flatMap_bytes encodeUnits_lt,
      hread]

theorem decodeUtf16_lone {before : List Char} {u : Nat} {rest : List Nat} (hlone : Lone u rest)
    (hunits : ∀ v ∈ u :: rest, v < 0x10000) :
    decodeUtf16 order ((encodeUnits before ++ u :: rest).flatMap order.bytes) =
      .error .loneSurrogate := by
  have hall : ∀ v ∈ encodeUnits before ++ u :: rest, v < 0x10000 :=
    List.forall_mem_append.2 ⟨encodeUnits_lt, hunits⟩
  rw [decodeUtf16, if_pos (length_flatMap_bytes _), units_flatMap_bytes hall,
    decodeUnits?_encodeUnits, decodeUnits?_lone hlone]
  rfl

/-! Bytes of characters in each encoding. -/

theorem decodeLatin1 (h : ∀ c ∈ cs, c.toNat < 0x100) :
    (cs.map fun c => UInt8.ofNat c.toNat).map (fun b => Char.ofNat b.toNat) = cs := by
  rw [List.map_map]
  refine (List.map_congr_left fun c hc => ?_).trans (List.map_id cs)
  simp only [Function.comp_apply, toNat_byte (h c hc), Char.ofNat_toNat, id]

/-- A byte by itself is the character with its value. -/
theorem toNat_ofNat_byte (b : UInt8) : (Char.ofNat b.toNat).toNat = b.toNat := by
  have hb := b.toNat_lt
  obtain ⟨c, hc⟩ := Utf8.exists_toNat_eq (v := b.toNat) (by omega)
  rw [← hc, Char.ofNat_toNat]

theorem encodeLatin1 (bytes : List UInt8) :
    (bytes.map fun b => Char.ofNat b.toNat).map (fun c => UInt8.ofNat c.toNat) = bytes := by
  rw [List.map_map]
  refine (List.map_congr_left fun b _ => ?_).trans (List.map_id bytes)
  simp only [Function.comp_apply, toNat_ofNat_byte, UInt8.ofNat_toNat, id]

theorem decodeAll_encode (h : e.Represents t) : e.decodeAll (e.encode t) = .ok t.toList := by
  cases e with
  | utf8 => exact mapError_eq_ok.2 (Utf8.decode_eq_ok.2 rfl)
  | utf16le => exact decodeUtf16_eq_ok.2 rfl
  | utf16be => exact decodeUtf16_eq_ok.2 rfl
  | latin1 => exact congrArg Except.ok (decodeLatin1 h)

theorem decodeAll_eq_ok (h : e.decodeAll bytes = .ok cs) :
    e.Represents (String.ofList cs) ∧ bytes = e.encode (String.ofList cs) := by
  have hchars : (String.ofList cs).toList = cs := String.toList_ofList
  cases e with
  | utf8 =>
    refine ⟨trivial, ?_⟩
    rw [encode, hchars]
    exact Utf8.decode_eq_ok.1 (mapError_eq_ok.1 h)
  | utf16le =>
    refine ⟨trivial, ?_⟩
    rw [encode, hchars]
    exact decodeUtf16_eq_ok.1 h
  | utf16be =>
    refine ⟨trivial, ?_⟩
    rw [encode, hchars]
    exact decodeUtf16_eq_ok.1 h
  | latin1 =>
    cases h
    constructor
    · intro c hc
      rw [hchars] at hc
      obtain ⟨b, -, rfl⟩ := List.mem_map.1 hc
      rw [toNat_ofNat_byte]
      exact b.toNat_lt
    · rw [encode, hchars, encodeLatin1]

/-- Whatever goes wrong in the bytes is reported. -/
theorem decodeAll_malformed (h : e.Malformed bytes) : ∃ fault, e.decodeAll bytes = .error fault := by
  have hutf8 : ∀ {bytes}, (∃ fault, Utf8.decode bytes = .error fault) →
      ∃ fault, utf8.decodeAll bytes = .error fault := by
    rintro bytes ⟨fault, hfault⟩
    exact ⟨_, mapError_eq_error.2 ⟨fault, hfault, rfl⟩⟩
  cases h with
  | overlong hlow hhigh hv =>
    rename_i n v _
    have hlarger : capacity (n - 1) ≤ capacity n ∧ ∀ c : Char, c.utf8Size = n →
        capacity (n - 1) ≤ c.toNat := by
      obtain rfl | rfl | rfl : n = 2 ∨ n = 3 ∨ n = 4 := by omega
      all_goals
        refine ⟨by decide, fun c hsize => ?_⟩
        have := Utf8.utf8Size_cases c
        simp only [Nat.add_one_sub_one, capacity]
        omega
    apply hutf8
    apply Utf8.decode_error_of_form
    · omega
    · omega
    · intro c hc hsize
      have := hlarger.2 c hsize
      omega
  | surrogate hlow hhigh =>
    apply hutf8
    apply Utf8.decode_error_of_form
    · omega
    · rw [capacity]
      omega
    · intro c hc hsize
      have := Utf8.toNat_cases c
      omega
  | tooLarge hlow hhigh =>
    apply hutf8
    apply Utf8.decode_error_of_form
    · omega
    · exact hhigh
    · intro c hc hsize
      have := Utf8.toNat_cases c
      omega
  | stray hb => exact hutf8 (Utf8.decode_error_of_stray hb)
  | truncated hlow hhigh hrest =>
    apply hutf8
    rw [Utf8.utf8EncodeChar_eq_form]
    exact Utf8.decode_error_of_truncated hlow hhigh hrest
  | loneSurrogate he hlone hunits =>
    cases e <;> cases he
    · exact ⟨_, decodeUtf16_lone hlone hunits⟩
    · exact ⟨_, decodeUtf16_lone hlone hunits⟩
  | oddLength he hlength =>
    have hodd : ∀ order, decodeUtf16 order bytes = .error (.oddLength bytes.length) := by
      intro order
      rw [decodeUtf16, if_neg (by omega)]
    cases e <;> cases he
    · exact ⟨_, hodd _⟩
    · exact ⟨_, hodd _⟩

/-- Reading gives back every text that was written, without a byte order mark, and gives no text for
any bytes but those of one. Whatever goes wrong in the bytes is reported, and in UTF-8 the index in
the message is where the longest part ends that is a text. -/
theorem decode_exact :
    (∀ (e : Encoding) (t : String), e.Represents t → e.decode (e.encode t) = .ok (withoutMark t)) ∧
    (∀ (e : Encoding) (bytes : List UInt8) (s : String), e.decode bytes = .ok s →
      ∃ t, e.Represents t ∧ bytes = e.encode t ∧ s = withoutMark t) ∧
    (∀ (e : Encoding) (bytes : List UInt8), e.Malformed bytes →
      ∃ fault, e.decode bytes = .error fault) ∧
    ∀ (bytes : List UInt8) (fault : DecodeFault), utf8.decode bytes = .error fault →
      ∃ n, Utf8.IsValidPrefix bytes n ∧
        (fault.message = "incomplete utf-8 byte sequence from index " ++ toString n ∨
          ∃ k : Nat, fault.message =
            "invalid utf-8 sequence of " ++ toString k ++ " bytes from index " ++ toString n) := by
  refine ⟨?_, ?_, ?_, ?_⟩
  · intro e t h
    rw [decode, decodeAll_encode h, ← ofList_dropByteOrderMark]
    rfl
  · intro e bytes s h
    cases hread : e.decodeAll bytes with
    | error fault =>
      rw [decode, hread] at h
      cases h
    | ok cs =>
      rw [decode, hread] at h
      cases h
      obtain ⟨hrepresents, hbytes⟩ := decodeAll_eq_ok hread
      refine ⟨String.ofList cs, hrepresents, hbytes, ?_⟩
      rw [← ofList_dropByteOrderMark, String.toList_ofList]
  · intro e bytes h
    obtain ⟨fault, hfault⟩ := decodeAll_malformed h
    refine ⟨fault, ?_⟩
    rw [decode, hfault]
    rfl
  · intro bytes fault h
    cases hread : utf8.decodeAll bytes with
    | ok cs =>
      rw [decode, hread] at h
      cases h
    | error found =>
      rw [decode, hread] at h
      cases h
      obtain ⟨⟨index, length⟩, hmalformed, rfl⟩ := mapError_eq_error.1 hread
      refine ⟨index, Utf8.decode_error_index hmalformed, ?_⟩
      cases length with
      | none => exact Or.inl rfl
      | some k => exact Or.inr ⟨k, rfl⟩

/-- Of two byte order marks one is dropped, and half of a pair is no character. -/
theorem decode_exact_pair :
    utf16be.encode "\uFEFF\uFEFF😀" = [0xFE, 0xFF, 0xFE, 0xFF, 0xD8, 0x3D, 0xDE, 0x00] ∧
    utf16be.decode [0xFE, 0xFF, 0xFE, 0xFF, 0xD8, 0x3D, 0xDE, 0x00] = .ok "\uFEFF😀" ∧
    (∃ t, utf16le.Represents t ∧ [0x3D, 0xD8, 0x00, 0xDE] = utf16le.encode t ∧
      "😀" = withoutMark t) ∧
    (∃ fault, utf16be.decode [0x00, 0x61, 0xD8, 0x3D] = .error fault) ∧
    ∃ n, Utf8.IsValidPrefix [0x61, 0xED, 0xA0, 0x80] n ∧
      ((DecodeFault.malformedUtf8 ⟨1, some 1⟩).message =
          "incomplete utf-8 byte sequence from index " ++ toString n ∨
        ∃ k : Nat, (DecodeFault.malformedUtf8 ⟨1, some 1⟩).message =
          "invalid utf-8 sequence of " ++ toString k ++ " bytes from index " ++ toString n) := by
  have hbytes : utf16be.encode "\uFEFF\uFEFF😀" =
      [0xFE, 0xFF, 0xFE, 0xFF, 0xD8, 0x3D, 0xDE, 0x00] := by decide +kernel
  refine ⟨hbytes, ?_, ?_, ?_, ?_⟩
  · rw [← hbytes]
    exact decode_exact.1 .utf16be "\uFEFF\uFEFF😀" trivial
  · exact decode_exact.2.1 .utf16le _ "😀" (by decide +kernel)
  · have hlone : Lone 0xD83D [] := Or.inr ⟨rfl, nofun⟩
    have hcut : [0x00, 0x61, 0xD8, 0x3D] =
        (encodeUnits ['a'] ++ [0xD83D]).flatMap ByteOrder.bigEndian.bytes := by decide
    rw [hcut]
    exact decode_exact.2.2.1 .utf16be _ (.loneSurrogate rfl hlone (by decide))
  · exact decode_exact.2.2.2 [0x61, 0xED, 0xA0, 0x80] _ (by decide +kernel)

end Encoding
end Ecma3.Text
