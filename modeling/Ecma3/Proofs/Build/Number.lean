import Ecma3.Proofs.Build.Inversion
import Ecma3.Proofs.Build.New
import Ecma3.Proofs.Decimal.Rounding
import Ecma3.Proofs.Text.Numeral
import Ecma3.Proofs.Token.Single

/-!
What the texts of numbers are built into. A decimal number is read only where its text is one token; a
hexadecimal one may have a sign besides, which no token has.
-/
namespace Ecma3.Build

open Text (byteLength isDigit isHexDigit numeral Sign)

variable {tree : ParseTree} {node : Node} {span : Span} {cs digits : List Char} {n : Int}
  {v : Int32}

namespace Literal

theorem int32?_eq_some : int32? n = some v ↔ v.toInt = n := by
  have hle : v.toInt ≤ 2147483647 := v.toInt_le
  have hge : -2147483648 ≤ v.toInt := v.le_toInt
  simp only [int32?, Bool.and_eq_true, decide_eq_true_eq, Option.ite_none_right_eq_some,
    Option.some.injEq]
  constructor
  · rintro ⟨⟨hn, hn'⟩, rfl⟩
    exact Int32.toInt_ofInt_of_le hn (Int.lt_add_one_iff.2 hn')
  · rintro rfl
    exact ⟨⟨hge, hle⟩, Int32.ofInt_toInt v⟩

theorem exists_int32 {n : Nat} : (∃ v : Int32, v.toInt = n) ↔ n ≤ 2147483647 := by
  constructor
  · rintro ⟨v, hv⟩
    have hle : v.toInt ≤ 2147483647 := v.toInt_le
    omega
  · intro h
    exact ⟨.ofInt n, Int32.toInt_ofInt_of_le (by omega) (by omega)⟩

theorem hexMagnitude?_eq_some {n : Nat} : hexMagnitude? digits = some n ↔
    (digits ≠ [] ∧ ∀ d ∈ digits, isHexDigit d = true) ∧ numeral 16 digits = n := by
  simp only [hexMagnitude?, Bool.or_eq_true, List.isEmpty_iff, Bool.not_eq_true', List.all_eq_false,
    Option.ite_none_left_eq_some, Option.some.injEq, not_or, not_exists, not_and, Bool.not_eq_true,
    Bool.not_eq_false]
  refine and_congr_right fun hdigits => ?_
  rw [Text.valueOf_eq_numeral hdigits.2]

/-- Hexadecimal digits behind a sign or none, and the number that they stand for. -/
inductive SignedHex : Int → List Char → Prop where
  | intro {negative : Bool} {sign digits : List Char} (hsign : Sign negative sign)
    (hdigits : digits ≠ [] ∧ ∀ d ∈ digits, isHexDigit d = true) :
    SignedHex (if negative then -(numeral 16 digits : Int) else numeral 16 digits) (sign ++ digits)

theorem signedHex?_eq_some : signedHex? cs = some n ↔ SignedHex n cs := by
  constructor
  · intro h
    unfold signedHex? at h
    split at h <;> simp only [Option.map_eq_some_iff, Option.bind_eq_bind, Option.pure_def,
      Option.bind_eq_some_iff, Option.some.injEq, hexMagnitude?_eq_some] at h <;>
      obtain ⟨_, ⟨_, ⟨hdigits, rfl⟩, rfl⟩, rfl⟩ := h
    · exact .intro .plus hdigits
    · exact .intro .minus hdigits
    · exact .intro .absent hdigits
  · rintro ⟨hsign, hdigits⟩
    have hmagnitude := hexMagnitude?_eq_some.2 ⟨hdigits, rfl⟩
    cases hsign with
    | plus =>
      rw [List.singleton_append, signedHex?, hmagnitude]
      rfl
    | minus =>
      rw [List.singleton_append, signedHex?, hmagnitude]
      rfl
    | absent =>
      rw [List.nil_append, signedHex?, hmagnitude]
      · rfl
      · rintro rest rfl
        cases hdigits.2 '+' List.mem_cons_self
      · rintro rest rfl
        cases hdigits.2 '-' List.mem_cons_self

/-- The text of a number in hexadecimal notation, with a sign behind the prefix or with none. -/
inductive HexText : Int → List Char → Prop where
  | intro {n : Int} {x : Char} {cs : List Char} (hx : x = 'x' ∨ x = 'X') (h : SignedHex n cs) :
    HexText n ('0' :: x :: cs)

theorem hexText_cons {x : Char} (hx : x = 'x' ∨ x = 'X') :
    HexText n ('0' :: x :: cs) ↔ SignedHex n cs :=
  ⟨fun ⟨_, h⟩ => h, .intro hx⟩

theorem hex?_eq_some_iff {text : String} : hex? text span = some node ↔
    ∃ v : Int32, HexText v.toInt text.toList ∧ node = .integer v span := by
  have hbind : ∀ cs, (do return Node.integer (← int32? (← signedHex? cs)) span) = some node ↔
      ∃ v : Int32, SignedHex v.toInt cs ∧ node = .integer v span := by
    intro cs
    simp only [Option.bind_eq_bind, Option.bind_eq_some_iff, Option.pure_def, Option.some.injEq,
      int32?_eq_some, signedHex?_eq_some]
    constructor
    · rintro ⟨_, h, v, rfl, rfl⟩
      exact ⟨v, h, rfl⟩
    · rintro ⟨v, h, rfl⟩
      exact ⟨_, h, v, rfl, rfl⟩
  unfold hex?
  split
  · rename_i cs htext
    refine (hbind cs).trans ?_
    rw [htext]
    exact exists_congr fun v => and_congr_left' (hexText_cons (Or.inl rfl)).symm
  · rename_i cs htext
    refine (hbind cs).trans ?_
    rw [htext]
    exact exists_congr fun v => and_congr_left' (hexText_cons (Or.inr rfl)).symm
  · rename_i hlower hupper
    refine iff_of_false nofun ?_
    rintro ⟨v, htext, -⟩
    generalize htoList : text.toList = cs at htext
    cases htext with
    | intro hx =>
      rcases hx with rfl | rfl
      · exact hlower _ htoList
      · exact hupper _ htoList

/-- A hexadecimal token is a number without a sign. -/
theorem hexText_iff (hsign : ∀ c ∈ cs[2]?, c ≠ '+' ∧ c ≠ '-') : HexText n cs ↔
    cs ∈ Token.language .hexLiteral ∧ (numeral 16 (cs.drop 2) : Int) = n := by
  rw [Token.mem_hexLiteral]
  constructor
  · rintro ⟨hx, hsigned, hdigits⟩
    cases hsigned with
    | absent => exact ⟨⟨_, hx, _, hdigits, rfl⟩, rfl⟩
    | plus => exact absurd rfl (hsign '+' rfl).1
    | minus => exact absurd rfl (hsign '-' rfl).2
  · rintro ⟨⟨x, hx, digits, hdigits, rfl⟩, rfl⟩
    exact .intro hx (.intro .absent hdigits)

theorem decimal?_of_parse? {text : String} {l : Decimal.Literal}
    (h : Decimal.Literal.parse? text.toList = some l) : decimal? text span =
      if l.fraction.isSome then some (.float l.toBinary64 span)
      else if l.exponent.isSome then none
      else (int32? (Text.valueOf 10 l.whole)).map fun v => .integer v span := by
  obtain ⟨whole, fraction, exponent⟩ := l
  unfold decimal?
  rw [h]
  cases fraction with
  | some digits => rfl
  | none =>
    cases exponent with
    | some digits => rfl
    | none => exact Option.map_eq_bind.symm

/-- A literal without a point is an integer where it is only digits. -/
theorem decimal?_eq_integer {text : String} (hpoint : '.' ∉ text.toList)
    (hmatch : text.toList ∈ Decimal.Literal.pattern.language) :
    decimal? text span = some node ↔ (∀ c ∈ text.toList, isDigit c = true) ∧
      ∃ v : Int32, v.toInt = numeral 10 text.toList ∧ node = .integer v span := by
  obtain ⟨l, hl⟩ := Option.isSome_iff_exists.1 (Decimal.Literal.parse?_isSome.2 hmatch)
  have hspells := Decimal.Literal.parse?_eq_some.1 hl
  have hnone : ¬l.fraction.isSome := fun h => hpoint (hspells.point_mem_iff.2 h)
  have hfraction := Option.not_isSome_iff_eq_none.1 hnone
  rw [decimal?_of_parse? hl, if_neg hnone, hspells.digits_iff hfraction]
  cases hexponent : l.exponent with
  | some exponent => simp
  | none =>
    have hwhole := hspells.whole_eq hfraction hexponent
    have hdigits := (hspells.digits_iff hfraction).2 hexponent
    rw [hwhole, Text.valueOf_eq_numeral fun c hc => Text.isHexDigit_of_isDigit (hdigits c hc)]
    simp only [Option.isSome_none, Bool.false_eq_true, if_false, Option.map_eq_some_iff,
      int32?_eq_some, true_and]
    exact exists_congr fun v => and_congr_right fun _ => eq_comm

end Literal

/-- What a decimal literal is built into. Its text must be one token; with a point it is a
floating-point number, the nearest one to what is written, and without one an integer of 32 bits that
is written in digits. -/
structure ReadsDecimal (tree : ParseTree) : Prop where
  built : ∀ limit levels, (within limit (levels + 1) tree none : Except BuildError Node) = leaf tree
  matched : tree.text.toList ∈ Decimal.Literal.pattern.language ↔ Lexeme.tokenize tree.text =
    .ok [⟨.decimalLiteral, tree.text, ⟨0, byteLength tree.text.toList⟩⟩]
  unmatched : tree.text.toList ∉ Decimal.Literal.pattern.language →
    (leaf tree : Except BuildError Node) = .error (.invalidLiteral .number tree.text tree.span)
  float : tree.text.toList ∈ Decimal.Literal.pattern.language → '.' ∈ tree.text.toList →
    ∃ l : Decimal.Literal, l.Spells tree.text.toList ∧ Binary64.Nearest l.toRat l.toBinary64 ∧
      (leaf tree : Except BuildError Node) = .ok (.float l.toBinary64 tree.span)
  integer : tree.text.toList ∈ Decimal.Literal.pattern.language → '.' ∉ tree.text.toList →
    (∀ c ∈ tree.text.toList, isDigit c = true) → numeral 10 tree.text.toList ≤ 2147483647 →
    ∃ v : Int32, v.toInt = numeral 10 tree.text.toList ∧
      (leaf tree : Except BuildError Node) = .ok (.integer v tree.span)
  unread : tree.text.toList ∈ Decimal.Literal.pattern.language → '.' ∉ tree.text.toList →
    ¬((∀ c ∈ tree.text.toList, isDigit c = true) ∧ numeral 10 tree.text.toList ≤ 2147483647) →
    (leaf tree : Except BuildError Node) = .error (.invalidLiteral .number tree.text tree.span)

/-- What a hexadecimal literal is built into: an integer of 32 bits, which may be written with a
sign. The texts without a sign that are read are tokens; no token has a sign. -/
structure ReadsHex (tree : ParseTree) : Prop where
  built : ∀ limit levels, (within limit (levels + 1) tree none : Except BuildError Node) = leaf tree
  integer : ∀ node, (leaf tree : Except BuildError Node) = .ok node ↔
    ∃ v : Int32, Literal.HexText v.toInt tree.text.toList ∧ node = .integer v tree.span
  unsigned : (∀ c ∈ tree.text.toList[2]?, c ≠ '+' ∧ c ≠ '-') → ∀ node,
    (leaf tree : Except BuildError Node) = .ok node ↔
      Lexeme.tokenize tree.text =
        .ok [⟨.hexLiteral, tree.text, ⟨0, byteLength tree.text.toList⟩⟩] ∧
      numeral 16 (tree.text.toList.drop 2) ≤ 2147483647 ∧
      ∃ v : Int32, v.toInt = numeral 16 (tree.text.toList.drop 2) ∧ node = .integer v tree.span
  signed : ∀ c ∈ tree.text.toList[2]?, c = '+' ∨ c = '-' →
    Lexeme.tokenize tree.text ≠ .ok [⟨.hexLiteral, tree.text, ⟨0, byteLength tree.text.toList⟩⟩]
  unread : (∀ node, (leaf tree : Except BuildError Node) ≠ .ok node) →
    (leaf tree : Except BuildError Node) = .error (.invalidLiteral .number tree.text tree.span)

section literal

variable {what : LiteralClass} {node? : Option Node}

theorem literal_eq_ok_iff :
    (literal what tree node? : Except BuildError Node) = .ok node ↔ node? = some node := by
  constructor
  · exact literal_eq_ok
  · rintro rfl
    rfl

/-- A literal that is not read is an error about it. -/
theorem literal_eq_error (h : ∀ node, node? ≠ some node) :
    (literal what tree node? : Except BuildError Node) =
      .error (.invalidLiteral what tree.text tree.span) := by
  rw [Option.eq_none_iff_forall_ne_some.2 h]
  rfl

end literal

theorem leaf_decimal (hkind : tree.kind = .decimalLiteral) : (leaf tree : Except BuildError Node) =
    literal .number tree (Literal.decimal? tree.text tree.span) := by
  rw [leaf, hkind]

theorem leaf_hex (hkind : tree.kind = .hexLiteral) : (leaf tree : Except BuildError Node) =
    literal .number tree (Literal.hex? tree.text tree.span) := by
  rw [leaf, hkind]

theorem readsDecimal (hkind : tree.kind = .decimalLiteral) : ReadsDecimal tree where
  built limit levels := by
    rw [within_succ, construct, hkind]
  matched := by
    rw [Lexeme.tokenize_eq_single, Token.spells_iff (t := .decimalLiteral) (by simp),
      Decimal.Literal.language_pattern]
  unmatched hmatch := by
    rw [← Decimal.Literal.parse?_isSome, Option.not_isSome_iff_eq_none] at hmatch
    rw [leaf_decimal hkind, Literal.decimal?, hmatch]
    rfl
  float hmatch hpoint := by
    obtain ⟨l, hl⟩ := Option.isSome_iff_exists.1 (Decimal.Literal.parse?_isSome.2 hmatch)
    have hspells := Decimal.Literal.parse?_eq_some.1 hl
    refine ⟨l, hspells, Decimal.Literal.nearest_toBinary64 hspells, ?_⟩
    rw [leaf_decimal hkind, Literal.decimal?_of_parse? hl, if_pos (hspells.point_mem_iff.1 hpoint)]
    rfl
  integer hmatch hpoint hdigits hle := by
    obtain ⟨v, hv⟩ := Literal.exists_int32.2 hle
    refine ⟨v, hv, ?_⟩
    rw [leaf_decimal hkind, literal_eq_ok_iff, Literal.decimal?_eq_integer hpoint hmatch]
    exact ⟨hdigits, v, hv, rfl⟩
  unread hmatch hpoint hnumber := by
    rw [leaf_decimal hkind]
    refine literal_eq_error fun node hnode => hnumber ?_
    obtain ⟨hdigits, v, hv, -⟩ := (Literal.decimal?_eq_integer hpoint hmatch).1 hnode
    exact ⟨hdigits, Literal.exists_int32.1 ⟨v, hv⟩⟩

/-- Zeros in front change nothing, and an exponent alone makes no floating-point number. -/
theorem readsDecimal_zeros :
    (∃ v : Int32, v.toInt = 7 ∧ (leaf (.leaf .decimalLiteral "007" ⟨0, 3⟩) : Except BuildError Node) =
      .ok (.integer v ⟨0, 3⟩)) ∧
    (leaf (.leaf .decimalLiteral "1e5" ⟨0, 3⟩) : Except BuildError Node) =
      .error (.invalidLiteral .number "1e5" ⟨0, 3⟩) := by
  have hzeros : ReadsDecimal (.leaf .decimalLiteral "007" ⟨0, 3⟩) := readsDecimal rfl
  have hexponent : ReadsDecimal (.leaf .decimalLiteral "1e5" ⟨0, 3⟩) := readsDecimal rfl
  refine ⟨hzeros.integer (hzeros.matched.2 ?_) ?_ (List.all_eq_true.1 ?_) ?_,
    hexponent.unread (hexponent.matched.2 ?_) ?_ fun hnumber => ?_⟩
  case refine_7 =>
    have hletter := hnumber.1 'e' (by decide +kernel)
    cases hletter
  all_goals decide +kernel

theorem leaf_hex_eq_ok (hkind : tree.kind = .hexLiteral) :
    (leaf tree : Except BuildError Node) = .ok node ↔
      ∃ v : Int32, Literal.HexText v.toInt tree.text.toList ∧ node = .integer v tree.span := by
  rw [leaf_hex hkind, literal_eq_ok_iff, Literal.hex?_eq_some_iff]

theorem readsHex (hkind : tree.kind = .hexLiteral) : ReadsHex tree where
  built limit levels := by
    rw [within_succ, construct, hkind]
  integer _ := leaf_hex_eq_ok hkind
  unsigned hsign node := by
    rw [leaf_hex_eq_ok hkind, Lexeme.tokenize_eq_single, Token.spells_iff (t := .hexLiteral) (by simp)]
    simp only [Literal.hexText_iff hsign]
    constructor
    · rintro ⟨v, ⟨hmem, hv⟩, rfl⟩
      exact ⟨hmem, Literal.exists_int32.1 ⟨v, hv.symm⟩, v, hv.symm, rfl⟩
    · rintro ⟨hmem, -, v, hv, rfl⟩
      exact ⟨v, ⟨hmem, hv.symm⟩, rfl⟩
  signed c hc hsign htoken := by
    rw [Lexeme.tokenize_eq_single, Token.spells_iff (t := .hexLiteral) (by simp),
      Token.mem_hexLiteral] at htoken
    obtain ⟨x, -, digits, ⟨-, hdigits⟩, htext⟩ := htoken
    rw [htext] at hc
    have hdigit := hdigits c (List.mem_of_getElem? hc)
    rcases hsign with rfl | rfl <;> cases hdigit
  unread hunread := by
    rw [leaf_hex hkind] at hunread ⊢
    exact literal_eq_error fun node hnode => hunread node (literal_eq_ok_iff.2 hnode)

/-- A sign is read behind the prefix. -/
theorem readsHex_negative :
    (leaf (.leaf .hexLiteral "0x-1" ⟨0, 4⟩) : Except BuildError Node) =
      .ok (.integer (-1) ⟨0, 4⟩) ∧
    Lexeme.tokenize "0x-1" ≠ .ok [⟨.hexLiteral, "0x-1", ⟨0, 4⟩⟩] := by
  have hreads : ReadsHex (.leaf .hexLiteral "0x-1" ⟨0, 4⟩) := readsHex rfl
  have htext : Literal.HexText (-1) "0x-1".toList :=
    .intro (Or.inl rfl) (@Literal.SignedHex.intro true ['-'] ['1'] .minus
      ⟨nofun, List.forall_mem_singleton.2 rfl⟩)
  exact ⟨(hreads.integer _).2 ⟨-1, htext, rfl⟩,
    hreads.signed '-' (by decide +kernel) (Or.inr rfl)⟩

end Ecma3.Build
