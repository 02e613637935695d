import Ecma3.Proofs.Text.Utf8
import Ecma3.Text.Utf16

/-! Which code units are read as UTF-16, and how code units and bytes make up each other. -/
namespace Ecma3.Text.Utf16

open Utf8 (toNat_byte eq_byte toNat_cases exists_toNat_eq)

variable {order : ByteOrder} {u v : Nat} {c : Char} {t : List Char} {us rest : List Nat}
  {bs : List UInt8}

/-- The code units of a character: its value, or a pair of surrogates that share its bits. -/
def charUnits (c : Char) : List Nat :=
  if c.toNat < 0x10000 then [c.toNat]
  else [0xD800 + (c.toNat - 0x10000) / 0x400, 0xDC00 + (c.toNat - 0x10000) % 0x400]

/-- The code units of the characters. -/
def encodeUnits (t : List Char) : List Nat := t.flatMap charUnits

/-- The two bytes of a code unit. -/
def ByteOrder.bytes : ByteOrder → Nat → List UInt8
  | littleEndian, u => [.ofNat (u % 0x100), .ofNat (u / 0x100)]
  | bigEndian, u => [.ofNat (u / 0x100), .ofNat (u % 0x100)]

/-- The bytes of the characters. -/
def encode (order : ByteOrder) (t : List Char) : List UInt8 :=
  (encodeUnits t).flatMap order.bytes

/-! Bytes and code units. -/

theorem unit_lt (first second : UInt8) : order.unit first second < 0x10000 := by
  have hfirst := first.toNat_lt
  have hsecond := second.toNat_lt
  cases order <;> simp only [ByteOrder.unit] <;> omega

theorem bytes_unit (first second : UInt8) :
    order.bytes (order.unit first second) = [first, second] := by
  have hfirst := first.toNat_lt
  have hsecond := second.toNat_lt
  cases order with
  | littleEndian =>
    rw [ByteOrder.unit, ByteOrder.bytes, eq_byte (b := first) (by omega),
      eq_byte (b := second) (by omega)]
  | bigEndian =>
    rw [ByteOrder.unit, ByteOrder.bytes, eq_byte (b := first) (by omega),
      eq_byte (b := second) (by omega)]

theorem units_bytes_append (hu : u < 0x10000) :
    units order (order.bytes u ++ bs) = u :: units order bs := by
  cases order with
  | littleEndian =>
    simp (disch := omega) only [ByteOrder.bytes, List.cons_append, List.nil_append, units,
      ByteOrder.unit, toNat_byte]
    rw [Nat.mul_comm, Nat.div_add_mod]
  | bigEndian =>
    simp (disch := omega) only [ByteOrder.bytes, List.cons_append, List.nil_append, units,
      ByteOrder.unit, toNat_byte]
    rw [Nat.mul_comm, Nat.div_add_mod]

theorem units_flatMap_bytes (h : ∀ u ∈ us, u < 0x10000) :
    units order (us.flatMap order.bytes) = us := by
  induction us with
  | nil => rfl
  | cons u us ih =>
    rw [List.forall_mem_cons] at h
    rw [List.flatMap_cons, units_bytes_append h.1, ih h.2]

/-- An even number of bytes is made up of code units. -/
theorem flatMap_bytes_units (order : ByteOrder) (h : bs.length % 2 = 0) :
    (units order bs).flatMap order.bytes = bs ∧ ∀ u ∈ units order bs, u < 0x10000 := by
  fun_induction units order bs with
  | case1 first second rest ih =>
    simp only [List.length_cons] at h
    obtain ⟨hbytes, hunits⟩ := ih (by omega)
    constructor
    · rw [List.flatMap_cons, bytes_unit, hbytes]
      rfl
    · exact List.forall_mem_cons.2 ⟨unit_lt first second, hunits⟩
  | case2 bs hshort =>
    match bs with
    | [] => exact ⟨rfl, nofun⟩
    | [_] => simp at h
    | first :: second :: rest => exact absurd rfl (hshort first second rest)

theorem length_flatMap_bytes (us : List Nat) : (us.flatMap order.bytes).length % 2 = 0 := by
  induction us with
  | nil => rfl
  | cons u us ih =>
    have hbytes : (order.bytes u).length = 2 := by cases order <;> rfl
    rw [List.flatMap_cons, List.length_append, hbytes]
    omega

/-! Code units and characters. -/

theorem isHighSurrogate_iff : isHighSurrogate u = true ↔ 0xD800 ≤ u ∧ u < 0xDC00 := by
  simp [isHighSurrogate]

theorem isLowSurrogate_iff : isLowSurrogate u = true ↔ 0xDC00 ≤ u ∧ u < 0xE000 := by
  simp [isLowSurrogate]

theorem charUnits_lt : ∀ u ∈ charUnits c, u < 0x10000 := by
  have hc := toNat_cases c
  intro u hu
  unfold charUnits at hu
  split at hu
  · rw [List.mem_singleton.1 hu]
    assumption
  · simp only [List.mem_cons, List.not_mem_nil, or_false] at hu
    omega

theorem encodeUnits_lt : ∀ u ∈ encodeUnits t, u < 0x10000 := by
  intro u hu
  obtain ⟨c, -, hu⟩ := List.mem_flatMap.1 hu
  exact charUnits_lt u hu

/-- A code unit that is half of a pair, without the other half. -/
def Lone (u : Nat) (rest : List Nat) : Prop :=
  isLowSurrogate u = true ∨ isHighSurrogate u = true ∧ ∀ v ∈ rest.head?, isLowSurrogate v = false

theorem decodeUnits?_lone (h : Lone u rest) : decodeUnits? (u :: rest) = none := by
  rcases h with hlow | ⟨hhigh, hrest⟩
  · have hhigh : isHighSurrogate u = false := by
      rw [isLowSurrogate_iff] at hlow
      rw [Bool.eq_false_iff, Ne, isHighSurrogate_iff]
      omega
    cases rest <;> simp [decodeUnits?, hlow, hhigh]
  · cases rest with
    | nil => simp [decodeUnits?, hhigh]
    | cons v rest => simp [decodeUnits?, hhigh, hrest v rfl]

/-- A code unit that is no surrogate is a character. -/
theorem decodeUnits?_single (hhigh : isHighSurrogate u = false) (hlow : isLowSurrogate u = false) :
    decodeUnits? (u :: rest) = (decodeUnits? rest).map (Char.ofNat u :: ·) := by
  cases rest with
  | nil => simp [decodeUnits?, hhigh, hlow]
  | cons v rest => simp [decodeUnits?, hhigh, hlow]

theorem decodeUnits?_pair (hhigh : isHighSurrogate u = true) (hlow : isLowSurrogate v = true) :
    decodeUnits? (u :: v :: rest) = (decodeUnits? rest).map
      (Char.ofNat (0x10000 + (u - 0xD800) * 0x400 + (v - 0xDC00)) :: ·) := by
  simp [decodeUnits?, hhigh, hlow]

theorem decodeUnits?_charUnits :
    decodeUnits? (charUnits c ++ rest) = (decodeUnits? rest).map (c :: ·) := by
  have hc := toNat_cases c
  unfold charUnits
  split
  · have hhigh : isHighSurrogate c.toNat = false := by
      rw [Bool.eq_false_iff, Ne, isHighSurrogate_iff]
      omega
    have hlow : isLowSurrogate c.toNat = false := by
      rw [Bool.eq_false_iff, Ne, isLowSurrogate_iff]
      omega
    rw [List.cons_append, List.nil_append, decodeUnits?_single hhigh hlow, Char.ofNat_toNat]
  · have hhigh := isHighSurrogate_iff (u := 0xD800 + (c.toNat - 0x10000) / 0x400)
    have hlow := isLowSurrogate_iff (u := 0xDC00 + (c.toNat - 0x10000) % 0x400)
    have hvalue : 0x10000 + (0xD800 + (c.toNat - 0x10000) / 0x400 - 0xD800) * 0x400 +
        (0xDC00 + (c.toNat - 0x10000) % 0x400 - 0xDC00) = c.toNat := by omega
    rw [List.cons_append, List.cons_append, List.nil_append,
      decodeUnits?_pair (hhigh.2 (by omega)) (hlow.2 (by omega)), hvalue, Char.ofNat_toNat]

theorem decodeUnits?_encodeUnits :
    decodeUnits? (encodeUnits t ++ rest) = (decodeUnits? rest).map (t ++ ·) := by
  induction t with
  | nil => cases h : decodeUnits? rest <;> simp [encodeUnits, h]
  | cons c t ih =>
    change decodeUnits? (charUnits c ++ encodeUnits t ++ rest) = _
    rw [List.append_assoc, decodeUnits?_charUnits, ih, Option.map_map]
    rfl

/-- Code units begin with those of a character, or with a surrogate that stands alone. -/
theorem units_cases (h : ∀ u ∈ us, u < 0x10000) :
    us = [] ∨ (∃ c rest, us = charUnits c ++ rest) ∨ ∃ u rest, us = u :: rest ∧ Lone u rest := by
  match us with
  | [] => exact Or.inl rfl
  | u :: rest =>
    right
    rw [List.forall_mem_cons] at h
    by_cases hlow : isLowSurrogate u = true
    · exact Or.inr ⟨u, rest, rfl, Or.inl hlow⟩
    by_cases hhigh : isHighSurrogate u = true
    · match rest with
      | [] => exact Or.inr ⟨u, [], rfl, Or.inr ⟨hhigh, nofun⟩⟩
      | v :: rest =>
        by_cases hpair : isLowSurrogate v = true
        · left
          rw [isHighSurrogate_iff] at hhigh
          rw [isLowSurrogate_iff] at hpair
          obtain ⟨c, hc⟩ := exists_toNat_eq
            (v := 0x10000 + (u - 0xD800) * 0x400 + (v - 0xDC00)) (by omega)
          refine ⟨c, rest, ?_⟩
          rw [charUnits, if_neg (by omega), hc, List.cons_append, List.cons_append, List.nil_append,
            List.cons.injEq, List.cons.injEq]
          exact ⟨by omega, by omega, rfl⟩
        · right
          refine ⟨u, v :: rest, rfl, Or.inr ⟨hhigh, ?_⟩⟩
          rintro _ ⟨⟩
          exact Bool.eq_false_iff.2 hpair
    · left
      rw [isLowSurrogate_iff] at hlow
      rw [isHighSurrogate_iff] at hhigh
      obtain ⟨c, hc⟩ := exists_toNat_eq (v := u) (by omega)
      refine ⟨c, rest, ?_⟩
      rw [charUnits, if_pos (by omega), hc]
      rfl

/-- Only the code units of a text are read, and they are read as that text. -/
theorem decodeUnits?_eq_some (h : ∀ u ∈ us, u < 0x10000) :
    decodeUnits? us = some t ↔ us = encodeUnits t := by
  constructor
  · intro hread
    induction hlength : us.length using Nat.strongRecOn generalizing us t with
    | _ length ih =>
      rcases units_cases h with rfl | ⟨c, rest, rfl⟩ | ⟨u, rest, rfl, hlone⟩
      · cases hread
        rfl
      · rw [decodeUnits?_charUnits] at hread
        obtain ⟨t, ht, rfl⟩ := Option.map_eq_some_iff.1 hread
        have hpos : 0 < (charUnits c).length := by unfold charUnits; split <;> simp
        have hrest := ih rest.length (by rw [← hlength, List.length_append]; omega)
          (List.forall_mem_append.1 h).2 ht rfl
        rw [hrest]
        rfl
      · rw [decodeUnits?_lone hlone] at hread
        cases hread
  · rintro rfl
    have hread : decodeUnits? (encodeUnits t ++ []) = (decodeUnits? []).map (t ++ ·) :=
      decodeUnits?_encodeUnits
    simpa [decodeUnits?] using hread

end Ecma3.Text.Utf16
