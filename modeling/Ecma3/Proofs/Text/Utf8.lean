import Mathlib.Data.List.Forall2
import Mathlib.Tactic.SplitIfs
import Ecma3.Text.Utf8

/-! Which bytes are read as UTF-8: those of characters one behind the other, and no others. -/
namespace Ecma3.Text.Utf8

open List (Forall₂)

variable {i k n v length : Nat} {b x : UInt8} {c d : Char} {s : Sequence} {t u : List Char}
  {bytes more rest rest' : List UInt8} {fault : MalformedUtf8}

/-- The sequence of so many bytes with the bits of a value, whether or not it is allowed. -/
def form : Nat → Nat → List UInt8
  | 1, v => [.ofNat v]
  | 2, v => [.ofNat (0xC0 + v / 64), .ofNat (0x80 + v % 64)]
  | 3, v => [.ofNat (0xE0 + v / 4096), .ofNat (0x80 + v / 64 % 64), .ofNat (0x80 + v % 64)]
  | 4, v => [.ofNat (0xF0 + v / 262144), .ofNat (0x80 + v / 4096 % 64),
      .ofNat (0x80 + v / 64 % 64), .ofNat (0x80 + v % 64)]
  | _, _ => []

/-- The least value that a sequence of so many bytes has no room for. -/
def capacity : Nat → Nat
  | 1 => 0x80
  | 2 => 0x800
  | 3 => 0x10000
  | 4 => 0x200000
  | _ => 0

/-- The bytes of the characters. -/
def encode (t : List Char) : List UInt8 := t.flatMap String.utf8EncodeChar

theorem toNat_byte (h : n < 0x100) : (UInt8.ofNat n).toNat = n := UInt8.toNat_ofNat_of_lt' h

theorem eq_byte (h : n = b.toNat) : UInt8.ofNat n = b := by
  rw [h, UInt8.ofNat_toNat]

theorem ofNat_byte_inj (hn : n < 0x100) (hk : k < 0x100) : UInt8.ofNat n = UInt8.ofNat k ↔ n = k := by
  constructor
  · intro h
    rw [← toNat_byte hn, ← toNat_byte hk, h]
  · intro h
    rw [h]

/-- The values of characters leave out the surrogates. -/
theorem toNat_cases (c : Char) : c.toNat < 0xD800 ∨ 0xE000 ≤ c.toNat ∧ c.toNat < 0x110000 := by
  have h := c.valid
  simp only [UInt32.isValidChar, Nat.isValidChar] at h
  change c.toNat < 0xD800 ∨ 0xDFFF < c.toNat ∧ c.toNat < 0x110000 at h
  omega

theorem exists_toNat_eq (h : v < 0xD800 ∨ 0xE000 ≤ v ∧ v < 0x110000) :
    ∃ c : Char, c.toNat = v := by
  have hvalid : v.isValidChar := by
    unfold Nat.isValidChar
    omega
  exact ⟨⟨UInt32.ofNatLT v (Char.isValidUInt32 v hvalid), hvalid⟩, rfl⟩

/-- A character takes the fewest bytes that have room for its value. -/
theorem utf8Size_cases (c : Char) :
    c.utf8Size = 1 ∧ c.toNat < 0x80 ∨ c.utf8Size = 2 ∧ 0x80 ≤ c.toNat ∧ c.toNat < 0x800 ∨
      c.utf8Size = 3 ∧ 0x800 ≤ c.toNat ∧ c.toNat < 0x10000 ∨
      c.utf8Size = 4 ∧ 0x10000 ≤ c.toNat ∧ c.toNat < 0x110000 := by
  have hvalue := toNat_cases c
  have hone := Char.utf8Size_eq_one_iff (c := c)
  have htwo := Char.utf8Size_eq_two_iff (c := c)
  have hthree := Char.utf8Size_eq_three_iff (c := c)
  have hfour := Char.utf8Size_eq_four_iff (c := c)
  simp only [UInt32.le_iff_toNat_le, UInt32.lt_iff_toNat_lt, UInt32.reduceToNat]
    at hone htwo hthree hfour
  change _ ↔ c.toNat ≤ _ at hone
  change _ ↔ _ < c.toNat ∧ c.toNat ≤ _ at htwo hthree
  change _ ↔ _ < c.toNat at hfour
  omega

theorem toNat_lt_capacity (c : Char) : c.toNat < capacity c.utf8Size := by
  rcases utf8Size_cases c with ⟨h, hc⟩ | ⟨h, hc⟩ | ⟨h, hc⟩ | ⟨h, hc⟩ <;> rw [h, capacity] <;> omega

theorem utf8EncodeChar_eq_form (c : Char) :
    String.utf8EncodeChar c = form c.utf8Size c.toNat := by
  have hval : c.val.toNat = c.toNat := rfl
  unfold String.utf8EncodeChar
  rcases utf8Size_cases c with ⟨hsize, hc⟩ | ⟨hsize, hc⟩ | ⟨hsize, hc⟩ | ⟨hsize, hc⟩
  all_goals simp only [hsize, form, hval]
  · rw [if_pos (by omega)]
  · rw [if_neg (by omega), if_pos (by omega),
      show c.toNat / 64 % 0x20 + 0xC0 = 0xC0 + c.toNat / 64 by omega,
      Nat.add_comm (c.toNat % 64)]
  · rw [if_neg (by omega), if_neg (by omega), if_pos (by omega),
      show c.toNat / 4096 % 0x10 + 0xE0 = 0xE0 + c.toNat / 4096 by omega,
      Nat.add_comm (c.toNat / 64 % 64), Nat.add_comm (c.toNat % 64)]
  · rw [if_neg (by omega), if_neg (by omega), if_neg (by omega),
      show c.toNat / 262144 % 8 + 0xF0 = 0xF0 + c.toNat / 262144 by omega,
      Nat.add_comm (c.toNat / 4096 % 64), Nat.add_comm (c.toNat / 64 % 64),
      Nat.add_comm (c.toNat % 64)]

theorem length_form (c : Char) : (form c.utf8Size c.toNat).length = c.utf8Size := by
  rcases c.utf8Size_eq with h | h | h | h <;> rw [h] <;> rfl

/-! First bytes, and what may follow them. -/

/-- The byte lies in the range. -/
def InRange (r : Nat × Nat) (b : UInt8) : Prop := r.1 ≤ b.toNat ∧ b.toNat ≤ r.2

/-- The bits of an open sequence with those of the bytes that complete it. -/
def Sequence.value (s : Sequence) (more : List UInt8) : Nat :=
  more.foldl (fun bits b => bits * 64 + (b.toNat - 0x80)) s.bits

theorem lead?_two (hlow : 2 ≤ v) (hhigh : v < 0x20) :
    lead? (0xC0 + v) = some ⟨1, v, [continuation]⟩ := by
  rw [lead?, if_neg (by omega), if_neg (by omega), if_pos (by omega), Nat.add_sub_cancel_left]

/-- The second byte is bounded where the form would be too long, or that of a surrogate. -/
theorem lead?_three (hv : v < 0x10) (hn : n < 0x40) (hlow : v = 0 → 0x20 ≤ n)
    (hhigh : v = 0xD → n < 0x20) : ∃ r, lead? (0xE0 + v) = some ⟨1, v, [r, continuation]⟩ ∧
      r.1 ≤ 0x80 + n ∧ 0x80 + n ≤ r.2 := by
  unfold lead?
  rw [if_neg (by omega), if_neg (by omega), if_neg (by omega)]
  by_cases hzero : v = 0
  · subst hzero
    exact ⟨_, rfl, by omega, by omega⟩
  · rw [if_neg (by omega)]
    by_cases hsurrogate : v = 0xD
    · subst hsurrogate
      exact ⟨_, rfl, by omega, by omega⟩
    · rw [if_neg (by omega), if_pos (by omega), Nat.add_sub_cancel_left]
      exact ⟨continuation, rfl, Nat.le_add_right _ _, by simp only [continuation]; omega⟩

/-- The second byte is bounded where the form would be too long, or the value too large. -/
theorem lead?_four (hv : v < 5) (hn : n < 0x40) (hlow : v = 0 → 0x10 ≤ n)
    (hhigh : v = 4 → n < 0x10) :
    ∃ r, lead? (0xF0 + v) = some ⟨1, v, [r, continuation, continuation]⟩ ∧
      r.1 ≤ 0x80 + n ∧ 0x80 + n ≤ r.2 := by
  unfold lead?
  rw [if_neg (by omega), if_neg (by omega), if_neg (by omega), if_neg (by omega),
    if_neg (by omega), if_neg (by omega)]
  by_cases hzero : v = 0
  · subst hzero
    exact ⟨_, rfl, by omega, by omega⟩
  · rw [if_neg (by omega)]
    by_cases hlast : v = 4
    · subst hlast
      exact ⟨_, rfl, by omega, by omega⟩
    · rw [if_pos (by omega), Nat.add_sub_cancel_left]
      exact ⟨continuation, rfl, Nat.le_add_right _ _, by simp only [continuation]; omega⟩

/-- The first byte of a character opens a sequence that the other bytes complete. -/
theorem lead?_form (c : Char) : ∃ b more s, form c.utf8Size c.toNat = b :: more ∧
    lead? b.toNat = some s ∧ s.taken = 1 ∧ Forall₂ InRange s.expected more ∧
    s.value more = c.toNat := by
  have hvalue := toNat_cases c
  rcases utf8Size_cases c with ⟨hsize, hc⟩ | ⟨hsize, hc⟩ | ⟨hsize, hc⟩ | ⟨hsize, hc⟩
  all_goals simp only [hsize, form]
  · refine ⟨_, _, ⟨1, c.toNat, []⟩, rfl, ?_, rfl, .nil, rfl⟩
    rw [toNat_byte (by omega), lead?, if_pos (by omega)]
  · refine ⟨_, _, ⟨1, c.toNat / 64, [continuation]⟩, rfl, ?_, rfl, ?_, ?_⟩
    · rw [toNat_byte (by omega)]
      exact lead?_two (by omega) (by omega)
    · simp (disch := omega) only [InRange, continuation, List.forall₂_cons, toNat_byte]
      exact ⟨by omega, .nil⟩
    · simp (disch := omega) only [Sequence.value, List.foldl_cons, List.foldl_nil, toNat_byte]
      omega
  · obtain ⟨r, hlead, hr⟩ := lead?_three (v := c.toNat / 4096) (n := c.toNat / 64 % 64)
      (by omega) (by omega) (by omega) (by omega)
    refine ⟨_, _, ⟨1, c.toNat / 4096, [r, continuation]⟩, rfl, ?_, rfl, ?_, ?_⟩
    · rwa [toNat_byte (by omega)]
    · simp (disch := omega) only [InRange, continuation, List.forall₂_cons, toNat_byte]
      exact ⟨hr, by omega, .nil⟩
    · simp (disch := omega) only [Sequence.value, List.foldl_cons, List.foldl_nil, toNat_byte]
      omega
  · obtain ⟨r, hlead, hr⟩ := lead?_four (v := c.toNat / 262144) (n := c.toNat / 4096 % 64)
      (by omega) (by omega) (by omega) (by omega)
    refine ⟨_, _, ⟨1, c.toNat / 262144, [r, continuation, continuation]⟩, rfl, ?_, rfl, ?_, ?_⟩
    · rwa [toNat_byte (by omega)]
    · simp (disch := omega) only [InRange, continuation, List.forall₂_cons, toNat_byte]
      exact ⟨hr, by omega, by omega, .nil⟩
    · simp (disch := omega) only [Sequence.value, List.foldl_cons, List.foldl_nil, toNat_byte]
      omega

/-- What a first byte tells: the bits that it holds, and the bytes that may follow. -/
theorem lead?_eq_some (h : lead? n = some s) :
    (n < 0x80 ∧ s = ⟨1, n, []⟩) ∨
    (∃ v, n = 0xC0 + v ∧ 2 ≤ v ∧ v < 0x20 ∧ s = ⟨1, v, [continuation]⟩) ∨
    (∃ v r, n = 0xE0 + v ∧ v < 0x10 ∧ s = ⟨1, v, [r, continuation]⟩ ∧ 0x80 ≤ r.1 ∧ r.2 ≤ 0xBF ∧
      (v = 0 → 0xA0 ≤ r.1) ∧ (v = 0xD → r.2 ≤ 0x9F)) ∨
    ∃ v r, n = 0xF0 + v ∧ v < 5 ∧ s = ⟨1, v, [r, continuation, continuation]⟩ ∧ 0x80 ≤ r.1 ∧
      r.2 ≤ 0xBF ∧ (v = 0 → 0x90 ≤ r.1) ∧ (v = 4 → r.2 ≤ 0x8F) := by
  unfold lead? at h
  split_ifs at h with hone hbare htwo hlong hsurrogate hthree hlonger hfour hlarge <;> cases h
  · exact Or.inl ⟨hone, rfl⟩
  · exact Or.inr (Or.inl ⟨n - 0xC0, by omega, by omega, by omega, rfl⟩)
  · refine Or.inr (Or.inr (Or.inl ⟨0, _, hlong, by omega, rfl, ?_⟩))
    omega
  · refine Or.inr (Or.inr (Or.inl ⟨0xD, _, hsurrogate, by omega, rfl, ?_⟩))
    omega
  · refine Or.inr (Or.inr (Or.inl ⟨n - 0xE0, _, by omega, by omega, rfl, ?_⟩))
    simp only [continuation]
    omega
  · refine Or.inr (Or.inr (Or.inr ⟨0, _, hlonger, by omega, rfl, ?_⟩))
    omega
  · refine Or.inr (Or.inr (Or.inr ⟨n - 0xF0, _, by omega, by omega, rfl, ?_⟩))
    simp only [continuation]
    omega
  · refine Or.inr (Or.inr (Or.inr ⟨4, _, hlarge, by omega, rfl, ?_⟩))
    omega

/-- A first byte and bytes that complete its sequence are those of a character. -/
theorem exists_form (h : lead? b.toNat = some s) (hmore : Forall₂ InRange s.expected more) :
    ∃ c : Char, form c.utf8Size c.toNat = b :: more := by
  rcases lead?_eq_some h with ⟨hb, rfl⟩ | ⟨v, hb, hlow, hhigh, rfl⟩ |
    ⟨v, r, hb, hv, rfl, hr⟩ | ⟨v, r, hb, hv, rfl, hr⟩
  all_goals
    simp only [List.forall₂_cons_left_iff, List.forall₂_nil_left_iff, InRange, continuation] at hmore
  · obtain ⟨c, hc⟩ := exists_toNat_eq (v := b.toNat) (by omega)
    have hsize : c.utf8Size = 1 := by have := utf8Size_cases c; omega
    exact ⟨c, by rw [hsize, form, hc, UInt8.ofNat_toNat, hmore]⟩
  · obtain ⟨x, _, hx, rfl, rfl⟩ := hmore
    obtain ⟨c, hc⟩ := exists_toNat_eq (v := v * 64 + (x.toNat - 0x80)) (by omega)
    have hsize : c.utf8Size = 2 := by have := utf8Size_cases c; omega
    refine ⟨c, ?_⟩
    rw [hsize, form, hc, eq_byte (b := b) (by omega), eq_byte (b := x) (by omega)]
  · obtain ⟨x, _, hx, ⟨y, _, hy, rfl, rfl⟩, rfl⟩ := hmore
    obtain ⟨c, hc⟩ := exists_toNat_eq
      (v := (v * 64 + (x.toNat - 0x80)) * 64 + (y.toNat - 0x80)) (by omega)
    have hsize : c.utf8Size = 3 := by have := utf8Size_cases c; omega
    refine ⟨c, ?_⟩
    rw [hsize, form, hc, eq_byte (b := b) (by omega), eq_byte (b := x) (by omega),
      eq_byte (b := y) (by omega)]
  · obtain ⟨x, _, hx, ⟨y, _, hy, ⟨z, _, hz, rfl, rfl⟩, rfl⟩, rfl⟩ := hmore
    obtain ⟨c, hc⟩ := exists_toNat_eq
      (v := ((v * 64 + (x.toNat - 0x80)) * 64 + (y.toNat - 0x80)) * 64 + (z.toNat - 0x80))
      (by omega)
    have hsize : c.utf8Size = 4 := by have := utf8Size_cases c; omega
    refine ⟨c, ?_⟩
    rw [hsize, form, hc, eq_byte (b := b) (by omega), eq_byte (b := x) (by omega),
      eq_byte (b := y) (by omega), eq_byte (b := z) (by omega)]

/-! Reading bytes. -/

/-- A byte that is expected is taken into the sequence. -/
theorem decodeFrom_inRange {taken bits : Nat} {r : Nat × Nat} {expected : List (Nat × Nat)}
    (h : InRange r x) : decodeFrom i (some ⟨taken, bits, r :: expected⟩) (x :: rest) =
      let s : Sequence := ⟨taken + 1, bits * 64 + (x.toNat - 0x80), expected⟩
      if expected.isEmpty then (decodeFrom (i + s.taken) none rest).map (Char.ofNat s.bits :: ·)
      else decodeFrom i (some s) rest := by
  have hx : (decide (r.1 ≤ x.toNat) && decide (x.toNat ≤ r.2)) = true := by
    simpa [InRange] using h
  rw [decodeFrom]
  simp only [hx, if_true]

theorem decodeFrom_not_inRange {taken bits : Nat} {r : Nat × Nat} {expected : List (Nat × Nat)}
    (h : ¬InRange r x) : decodeFrom i (some ⟨taken, bits, r :: expected⟩) (x :: rest) =
      .error ⟨i, some taken⟩ := by
  have hx : (decide (r.1 ≤ x.toNat) && decide (x.toNat ≤ r.2)) = false := by
    rwa [← Bool.decide_and, decide_eq_false_iff_not]
  rw [decodeFrom]
  simp only [hx, Bool.false_eq_true, if_false]

/-- An open sequence becomes a character when the bytes that it expects follow. -/
theorem decodeFrom_expected (h : Forall₂ InRange s.expected more) (hne : more ≠ []) :
    decodeFrom i (some s) (more ++ rest) =
      (decodeFrom (i + (s.taken + more.length)) none rest).map (Char.ofNat (s.value more) :: ·) := by
  induction more generalizing s with
  | nil => exact absurd rfl hne
  | cons x more ih =>
    obtain ⟨taken, bits, expected⟩ := s
    obtain ⟨r, expected, hx, hmore, rfl⟩ := List.forall₂_cons_right_iff.1 h
    rw [List.cons_append, decodeFrom_inRange hx]
    cases hmore with
    | nil => rfl
    | cons hy hmore =>
      dsimp only
      rw [if_neg (by simp), ih (.cons hy hmore) (by simp)]
      simp only [List.length_cons, Sequence.value, List.foldl_cons, Nat.add_assoc, Nat.add_comm 1]

/-- An open sequence is completed, or reported where it began. -/
theorem decodeFrom_open_cases (i : Nat) (hne : s.expected ≠ []) (bytes : List UInt8) :
    (∃ more rest, bytes = more ++ rest ∧ Forall₂ InRange s.expected more) ∨
      ∃ n, decodeFrom i (some s) bytes = .error ⟨i, n⟩ := by
  obtain ⟨taken, bits, expected⟩ := s
  induction expected generalizing taken bits bytes with
  | nil => exact absurd rfl hne
  | cons r expected ih =>
    cases bytes with
    | nil => exact Or.inr ⟨none, rfl⟩
    | cons x bytes =>
      by_cases hx : InRange r x
      · cases expected with
        | nil => exact Or.inl ⟨[x], bytes, rfl, .cons hx .nil⟩
        | cons r' expected =>
          rcases ih bytes (taken + 1) (bits * 64 + (x.toNat - 0x80)) (List.cons_ne_nil _ _) with
            ⟨more, rest, rfl, hmore⟩ | ⟨n, hn⟩
          · exact Or.inl ⟨x :: more, rest, rfl, .cons hx hmore⟩
          · right
            refine ⟨n, ?_⟩
            rw [decodeFrom_inRange hx]
            exact hn
      · exact Or.inr ⟨some taken, decodeFrom_not_inRange hx⟩

theorem decodeFrom_form (c : Char) : decodeFrom i none (form c.utf8Size c.toNat ++ rest) =
    (decodeFrom (i + c.utf8Size) none rest).map (c :: ·) := by
  obtain ⟨b, more, s, hform, hlead, htaken, hmore, hvalue⟩ := lead?_form c
  have hlength := length_form c
  rw [hform, List.length_cons, Nat.add_comm] at hlength
  rw [hform, List.cons_append, decodeFrom]
  simp only [hlead]
  by_cases hempty : s.expected = []
  · rw [hempty] at hmore
    cases hmore
    have hbits : s.bits = c.toNat := hvalue
    rw [if_pos (by simp [hempty]), htaken, ← hlength, hbits, Char.ofNat_toNat]
    rfl
  · have hne : more ≠ [] := by
      rintro rfl
      exact hempty (List.forall₂_nil_right_iff.1 hmore)
    rw [if_neg (by simpa using hempty), decodeFrom_expected hmore hne, hvalue, Char.ofNat_toNat,
      htaken, hlength]

/-- Bytes begin with those of a character, or are reported at once. -/
theorem decodeFrom_cases (i : Nat) (bytes : List UInt8) :
    bytes = [] ∨ (∃ (c : Char) (rest : List UInt8), bytes = form c.utf8Size c.toNat ++ rest) ∨
      ∃ n, decodeFrom i none bytes = .error ⟨i, n⟩ := by
  cases bytes with
  | nil => exact Or.inl rfl
  | cons b bytes =>
    right
    cases hlead : lead? b.toNat with
    | none => exact Or.inr ⟨some 1, by simp only [decodeFrom, hlead]⟩
    | some s =>
      by_cases hempty : s.expected = []
      · have hnone : Forall₂ InRange s.expected [] := by
          rw [hempty]
          exact .nil
        obtain ⟨c, hc⟩ := exists_form hlead hnone
        exact Or.inl ⟨c, bytes, by rw [hc]; rfl⟩
      · rcases decodeFrom_open_cases i hempty bytes with ⟨more, rest, rfl, hmore⟩ | ⟨n, hn⟩
        · obtain ⟨c, hc⟩ := exists_form hlead hmore
          exact Or.inl ⟨c, rest, by rw [hc]; rfl⟩
        · right
          refine ⟨n, ?_⟩
          rw [decodeFrom]
          simp only [hlead]
          rw [if_neg (by simpa using hempty), hn]

/-! Texts. -/

theorem encode_cons : encode (c :: t) = form c.utf8Size c.toNat ++ encode t := by
  rw [← utf8EncodeChar_eq_form]
  rfl

theorem length_encode (t : List Char) : (encode t).length = byteLength t := by
  induction t with
  | nil => rfl
  | cons c t ih => rw [encode_cons, List.length_append, length_form, ih, byteLength]

theorem decodeFrom_encode : decodeFrom i none (encode t ++ rest) =
    (decodeFrom (i + byteLength t) none rest).map (t ++ ·) := by
  induction t generalizing i with
  | nil =>
    change decodeFrom i none rest = (decodeFrom i none rest).map id
    cases decodeFrom i none rest <;> rfl
  | cons c t ih =>
    rw [encode_cons, List.append_assoc, decodeFrom_form, ih, byteLength, Nat.add_assoc]
    cases decodeFrom (i + (c.utf8Size + byteLength t)) none rest <;> rfl

/-- Bytes are those of a text, or are reported behind the text that they begin with. -/
theorem decodeFrom_text (i : Nat) (bytes : List UInt8) :
    (∃ t, bytes = encode t ∧ decodeFrom i none bytes = .ok t) ∨
      ∃ t rest n, bytes = encode t ++ rest ∧
        decodeFrom i none bytes = .error ⟨i + byteLength t, n⟩ := by
  induction hlength : bytes.length using Nat.strongRecOn generalizing i bytes with
  | _ length ih =>
    rcases decodeFrom_cases i bytes with rfl | ⟨c, rest, rfl⟩ | ⟨n, hn⟩
    · exact Or.inl ⟨[], rfl, rfl⟩
    · have hshorter : rest.length < length := by
        rw [← hlength, List.length_append, length_form]
        have := c.utf8Size_pos
        omega
      rcases ih rest.length hshorter (i + c.utf8Size) rest rfl with
        ⟨t, rfl, ht⟩ | ⟨t, rest, n, rfl, hn⟩
      · left
        refine ⟨c :: t, encode_cons.symm, ?_⟩
        rw [decodeFrom_form, ht]
        rfl
      · right
        refine ⟨c :: t, rest, n, by rw [encode_cons, List.append_assoc], ?_⟩
        rw [decodeFrom_form, hn, byteLength, ← Nat.add_assoc]
        rfl
    · exact Or.inr ⟨[], bytes, n, rfl, hn⟩

theorem decode_eq_ok : decode bytes = .ok t ↔ bytes = encode t := by
  constructor
  · intro h
    rcases decodeFrom_text 0 bytes with ⟨u, hbytes, hu⟩ | ⟨u, rest, n, -, hn⟩
    · cases hu.symm.trans h
      exact hbytes
    · cases hn.symm.trans h
  · rintro rfl
    have h : decodeFrom 0 none (encode t ++ []) =
        (decodeFrom (0 + byteLength t) none []).map (t ++ ·) := decodeFrom_encode
    rw [List.append_nil] at h
    exact h.trans (congrArg Except.ok (List.append_nil t))

/-- The bytes are those of a text. -/
def IsValid (bytes : List UInt8) : Prop := ∃ t, bytes = encode t

/-- So many bytes are those of a text, and no more than so many are. -/
structure IsValidPrefix (bytes : List UInt8) (n : Nat) : Prop where
  le : n ≤ bytes.length
  valid : IsValid (bytes.take n)
  longest : ∀ k ≤ bytes.length, IsValid (bytes.take k) → k ≤ n

/-- A fault is reported behind the longest part that is a text. -/
theorem decode_error_index (h : decode bytes = .error fault) : IsValidPrefix bytes fault.index := by
  rcases decodeFrom_text 0 bytes with ⟨t, -, ht⟩ | ⟨t, rest, n, rfl, hn⟩
  · cases ht.symm.trans h
  cases hn.symm.trans h
  rw [Nat.zero_add, ← length_encode]
  refine ⟨List.length_append ▸ Nat.le_add_right _ _, ⟨t, List.take_left⟩, ?_⟩
  rintro k hk ⟨u, hu⟩
  -- Whatever is read behind a valid part is reported there or further on.
  have hsplit : encode t ++ rest = encode u ++ (encode t ++ rest).drop k := by
    rw [← hu, List.take_append_drop]
  have hlength : byteLength u = k := by
    rw [← length_encode, ← hu, List.length_take, Nat.min_eq_left hk]
  have hread : decodeFrom 0 none (encode u ++ (encode t ++ rest).drop k) =
      (decodeFrom (0 + byteLength u) none ((encode t ++ rest).drop k)).map (u ++ ·) :=
    decodeFrom_encode
  rw [← hsplit, hn] at hread
  rcases decodeFrom_text (0 + byteLength u) ((encode t ++ rest).drop k) with
    ⟨w, -, hw⟩ | ⟨w, _, _, -, hw⟩
  · rw [hw] at hread
    cases hread
  · rw [hw] at hread
    injection hread with hfault
    have hindex := congrArg MalformedUtf8.index hfault
    dsimp only at hindex ⊢
    rw [length_encode]
    omega

/-! Sequences that are the form of no character. -/

/-- The number of bytes in the sequence that a byte opens. -/
def announced (b : UInt8) : Nat :=
  if b.toNat < 0x80 then 1 else if b.toNat < 0xE0 then 2 else if b.toNat < 0xF0 then 3 else 4

theorem form_eq_cons (hn : 0 < n) (hv : v < capacity n) : ∃ b more, form n v = b :: more ∧
    announced b = n ∧ more.length + 1 = n ∧ ∀ x ∈ more, InRange continuation x := by
  have htail : ∀ k, InRange continuation (.ofNat (0x80 + k % 64)) := by
    intro k
    rw [InRange, toNat_byte (by omega), continuation]
    omega
  have hpair : ∀ j k, ∀ x ∈ [.ofNat (0x80 + j % 64), .ofNat (0x80 + k % 64)],
      InRange continuation x := by
    intro j k
    exact List.forall_mem_cons.2 ⟨htail j, List.forall_mem_singleton.2 (htail k)⟩
  match n with
  | 1 =>
    refine ⟨_, _, rfl, ?_, rfl, List.forall_mem_nil _⟩
    rw [capacity] at hv
    rw [announced, toNat_byte (by omega), if_pos (by omega)]
  | 2 =>
    refine ⟨_, _, rfl, ?_, rfl, List.forall_mem_singleton.2 (htail v)⟩
    rw [capacity] at hv
    rw [announced, toNat_byte (by omega), if_neg (by omega), if_pos (by omega)]
  | 3 =>
    refine ⟨_, _, rfl, ?_, rfl, hpair _ v⟩
    rw [capacity] at hv
    rw [announced, toNat_byte (by omega), if_neg (by omega), if_neg (by omega), if_pos (by omega)]
  | 4 =>
    refine ⟨_, _, rfl, ?_, rfl, List.forall_mem_cons.2 ⟨htail _, hpair _ v⟩⟩
    rw [capacity] at hv
    rw [announced, toNat_byte (by omega), if_neg (by omega), if_neg (by omega), if_neg (by omega)]
  | n + 5 => exact absurd hv (Nat.not_lt_zero v)

theorem form_inj (hn : 0 < n) (hv : v < capacity n) (hk : k < capacity n)
    (h : form n v = form n k) : v = k := by
  match n with
  | 1 | 2 | 3 | 4 =>
    rw [capacity] at hv hk
    simp (disch := omega) only [form, List.cons.injEq, ofNat_byte_inj] at h
    omega
  | n + 5 => exact absurd hv (Nat.not_lt_zero v)

/-- A sequence that begins like that of a character is that sequence. -/
theorem eq_of_form_append (hn : 0 < n) (hv : v < capacity n)
    (h : form n v ++ rest = form c.utf8Size c.toNat ++ rest') : n = c.utf8Size ∧ v = c.toNat := by
  obtain ⟨b, more, hform, hb, hmore, -⟩ := form_eq_cons hn hv
  obtain ⟨x, others, hchar, hx, hothers, -⟩ := form_eq_cons c.utf8Size_pos (toNat_lt_capacity c)
  have hfirst : b = x := by
    rw [hform, hchar, List.cons_append, List.cons_append, List.cons.injEq] at h
    exact h.1
  obtain rfl : n = c.utf8Size := by rw [← hb, ← hx, hfirst]
  have hsame : form c.utf8Size v = form c.utf8Size c.toNat := by
    refine (List.append_inj h ?_).1
    rw [hform, hchar, List.length_cons, List.length_cons]
    omega
  exact ⟨rfl, form_inj hn hv (toNat_lt_capacity c) hsame⟩

/-- Behind a text, bytes that do not begin with a character are reported. -/
theorem decode_error_of_not_form (hne : bytes ≠ [])
    (h : ∀ (c : Char) (rest : List UInt8), bytes ≠ form c.utf8Size c.toNat ++ rest) :
    ∃ fault, decode (encode t ++ bytes) = .error fault := by
  rw [decode, decodeFrom_encode]
  rcases decodeFrom_cases (0 + byteLength t) bytes with rfl | ⟨c, rest, hc⟩ | ⟨n, hn⟩
  · exact absurd rfl hne
  · exact absurd hc (h c rest)
  · rw [hn]
    exact ⟨_, rfl⟩

/-- A form that is not the one of a character is reported. -/
theorem decode_error_of_form (hn : 0 < n) (hv : v < capacity n)
    (h : ∀ c : Char, c.toNat = v → c.utf8Size ≠ n) :
    ∃ fault, decode (encode t ++ (form n v ++ rest)) = .error fault := by
  apply decode_error_of_not_form
  · obtain ⟨b, more, hform, -⟩ := form_eq_cons hn hv
    rw [hform]
    exact List.cons_ne_nil _ _
  · intro c rest' heq
    obtain ⟨hsize, hvalue⟩ := eq_of_form_append hn hv heq
    exact h c hvalue.symm hsize.symm

/-- The first bytes of a character are reported if no byte follows that could go on. -/
theorem decode_error_of_truncated (hk : 0 < k) (hsize : k < c.utf8Size)
    (hrest : ∀ x ∈ rest.head?, ¬InRange continuation x) :
    ∃ fault, decode (encode t ++ ((form c.utf8Size c.toNat).take k ++ rest)) = .error fault := by
  obtain ⟨k, rfl⟩ := Nat.exists_eq_succ_of_ne_zero (Nat.ne_of_gt hk)
  obtain ⟨b, more, hform, hb, hmore, -⟩ := form_eq_cons c.utf8Size_pos (toNat_lt_capacity c)
  rw [hform, List.take_succ_cons, List.cons_append]
  apply decode_error_of_not_form
  · exact List.cons_ne_nil _ _
  intro d rest' heq
  obtain ⟨x, others, hchar, hx, hothers, htail⟩ := form_eq_cons d.utf8Size_pos (toNat_lt_capacity d)
  rw [hchar, List.cons_append, List.cons.injEq] at heq
  obtain ⟨rfl, heq⟩ := heq
  -- The byte behind the cut would be one of the bytes of `d`.
  have hcut : (more.take k).length = k := by
    rw [List.length_take, Nat.min_eq_left (by omega)]
  have hlength : k < others.length := by omega
  have hget := congrArg (·[k]?) heq
  rw [List.getElem?_append_right (Nat.le_of_eq hcut), hcut, Nat.sub_self,
    List.getElem?_append_left hlength, List.getElem?_eq_getElem hlength] at hget
  apply hrest others[k]
  · rw [List.head?_eq_getElem?]
    exact hget
  · exact htail _ (List.getElem_mem _)

/-- A byte that opens no sequence is reported. -/
theorem decode_error_of_stray (hb : InRange continuation b ∨ 0xF8 ≤ b.toNat) :
    ∃ fault, decode (encode t ++ b :: rest) = .error fault := by
  have hlead : lead? b.toNat = none := by
    rw [Option.eq_none_iff_forall_not_mem]
    intro s hs
    simp only [InRange, continuation] at hb
    rcases lead?_eq_some hs with ⟨h, -⟩ | ⟨v, h, -, hv, -⟩ | ⟨v, -, h, hv, -⟩ | ⟨v, -, h, hv, -⟩ <;>
      omega
  refine ⟨⟨0 + byteLength t, some 1⟩, ?_⟩
  rw [decode, decodeFrom_encode, decodeFrom]
  simp only [hlead]
  rfl

end Ecma3.Text.Utf8
