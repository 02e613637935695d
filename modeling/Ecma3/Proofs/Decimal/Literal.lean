import Ecma3.Decimal.Literal
import Ecma3.Proofs.Text.Numeral
import Ecma3.Proofs.Token.Longest.Literal

/-!
What is read as a decimal literal. The texts are those of a pattern that is not the one of the tokens,
but matches the same, and each text has its parts in one way only.
-/
namespace Ecma3.Decimal.Literal

open Text (isDigit Sign exists_sign)
open Token Token.Regex

variable {cs rest tail digits : List Char} {l : Literal} {c : Char}
  {exponent : Option (Bool × List Char)}

/-- Digits with or without a point and more digits, or a point and digits; and an exponent or none
behind either. -/
def pattern : Regex :=
  seq (either (seq (plus digit) (optional (seq (char '.') (star digit))))
      (seq (char '.') (plus digit)))
    (optional (seq (among ['e', 'E']) (seq (optional (among ['+', '-'])) (plus digit))))

theorem language_pattern : pattern.language = Token.language .decimalLiteral := by
  rw [language_decimalLiteral]
  simp only [pattern, fractionPart, exponentPart, Regex.language, add_mul, mul_assoc]

/-- The letter, the sign or none, and the digits of an exponent. -/
inductive ExponentText : Option (Bool × List Char) → List Char → Prop where
  | absent : ExponentText none []
  | signed {negative : Bool} {digits sign : List Char} {c : Char} (hc : c = 'e' ∨ c = 'E')
    (hsign : Sign negative sign) (hdigits : digits ≠ [] ∧ ∀ d ∈ digits, isDigit d = true) :
    ExponentText (some (negative, digits)) (c :: (sign ++ digits))

def fractionText : Option (List Char) → List Char
  | none => []
  | some digits => '.' :: digits

/-- The parts of a literal, written one behind the other, are the text. -/
structure Spells (l : Literal) (cs : List Char) : Prop where
  text : ∃ tail, cs = l.whole ++ (fractionText l.fraction ++ tail) ∧ ExponentText l.exponent tail
  whole : ∀ c ∈ l.whole, isDigit c = true
  fraction : ∀ digits ∈ l.fraction, ∀ c ∈ digits, isDigit c = true
  nonempty : l.whole ≠ [] ∨ l.fraction.getD [] ≠ []

theorem ExponentText.stops (h : ExponentText exponent tail) :
    ∀ c ∈ tail.head?, isDigit c = false := by
  cases h with
  | absent => nofun
  | signed hc =>
    rintro _ ⟨⟩
    rcases hc with rfl | rfl <;> rfl

/-- Digits up to something that is none. -/
theorem span_digits (h : ∀ c ∈ digits, isDigit c = true) (hstop : ∀ c ∈ rest.head?, isDigit c = false) :
    (digits ++ rest).takeWhile isDigit = digits ∧ (digits ++ rest).dropWhile isDigit = rest := by
  rw [List.takeWhile_append_of_pos h, List.dropWhile_append_of_pos h]
  cases rest with
  | nil => simp
  | cons c rest => simp [hstop c rfl]

theorem unsigned?_eq_some {negative : Bool} {found : Bool × List Char} :
    unsigned? negative cs = some found ↔
      (cs ≠ [] ∧ ∀ d ∈ cs, isDigit d = true) ∧ (negative, cs) = found := by
  simp [unsigned?, List.isEmpty_iff]

theorem exponentDigits?_eq_some {found : Bool × List Char} (hc : c = 'e' ∨ c = 'E') :
    exponentDigits? cs = some found ↔ ExponentText (some found) (c :: cs) := by
  constructor
  · intro h
    unfold exponentDigits? at h
    split at h <;> obtain ⟨hdigits, rfl⟩ := unsigned?_eq_some.1 h
    · exact .signed hc .plus hdigits
    · exact .signed hc .minus hdigits
    · exact .signed hc .absent hdigits
  · intro h
    cases h with
    | @signed _ digits _ _ _ hsign hdigits =>
      cases hsign with
      | absent =>
        have hsigned : ∀ d ∈ digits.head?, isDigit d = true := fun d hd =>
          hdigits.2 d (List.mem_of_head? hd)
        rw [List.nil_append, exponentDigits?]
        · exact unsigned?_eq_some.2 ⟨hdigits, rfl⟩
        · rintro rest rfl
          cases hsigned _ rfl
        · rintro rest rfl
          cases hsigned _ rfl
      | plus => exact unsigned?_eq_some.2 ⟨hdigits, rfl⟩
      | minus => exact unsigned?_eq_some.2 ⟨hdigits, rfl⟩

/-- The exponent that a text consists of, if it is one. -/
def exponent? : List Char → Option (Option (Bool × List Char))
  | [] => some none
  | c :: rest => if c = 'e' ∨ c = 'E' then (exponentDigits? rest).map some else none

theorem exponent?_eq_some : exponent? tail = some exponent ↔ ExponentText exponent tail := by
  cases tail with
  | nil =>
    rw [exponent?, Option.some.injEq]
    constructor
    · rintro rfl
      exact .absent
    · rintro ⟨⟩
      rfl
  | cons c rest =>
    rw [exponent?]
    constructor
    · intro h
      obtain ⟨hc, h⟩ := Option.ite_none_right_eq_some.1 h
      obtain ⟨found, hfound, rfl⟩ := Option.map_eq_some_iff.1 h
      exact (exponentDigits?_eq_some hc).1 hfound
    · intro h
      cases exponent with
      | none => cases h
      | some found =>
        have hc : c = 'e' ∨ c = 'E' := by
          cases h
          assumption
        rw [if_pos hc, (exponentDigits?_eq_some hc).2 h]
        rfl

/-- The digits behind a point, and what stands behind these. -/
def point : List Char → Option (List Char) × List Char
  | '.' :: rest => (some (rest.takeWhile isDigit), rest.dropWhile isDigit)
  | rest => (none, rest)

theorem point_eq (cs : List Char) : cs = fractionText (point cs).1 ++ (point cs).2 ∧
    ∀ digits ∈ (point cs).1, ∀ c ∈ digits, isDigit c = true := by
  unfold point
  split
  · rename_i rest
    refine ⟨by simp [fractionText], ?_⟩
    rintro _ ⟨⟩ c hc
    exact List.mem_takeWhile_imp hc
  · exact ⟨rfl, nofun⟩

theorem point_append {fraction : Option (List Char)} (htail : ExponentText exponent tail)
    (h : ∀ digits ∈ fraction, ∀ c ∈ digits, isDigit c = true) :
    point (fractionText fraction ++ tail) = (fraction, tail) := by
  cases fraction with
  | none =>
    cases htail with
    | absent => rfl
    | signed hc => rcases hc with rfl | rfl <;> rfl
  | some digits =>
    obtain ⟨htake, hdrop⟩ := span_digits (h digits rfl) htail.stops
    rw [fractionText, List.cons_append, point, htake, hdrop]

theorem parse?_eq (cs : List Char) : parse? cs =
    if cs.takeWhile isDigit = [] ∧ (point (cs.dropWhile isDigit)).1.getD [] = [] then none
    else (exponent? (point (cs.dropWhile isDigit)).2).map fun exponent =>
      ⟨cs.takeWhile isDigit, (point (cs.dropWhile isDigit)).1, exponent⟩ := by
  have hparts : parse? cs =
      if (cs.takeWhile isDigit).isEmpty && ((point (cs.dropWhile isDigit)).1.getD []).isEmpty then
        none
      else match (point (cs.dropWhile isDigit)).2 with
        | [] => some ⟨cs.takeWhile isDigit, (point (cs.dropWhile isDigit)).1, none⟩
        | c :: rest =>
          if c == 'e' || c == 'E' then (exponentDigits? rest).map fun e =>
            ⟨cs.takeWhile isDigit, (point (cs.dropWhile isDigit)).1, some e⟩
          else none := rfl
  simp only [hparts, Bool.and_eq_true, List.isEmpty_iff]
  split
  · rfl
  · cases (point (cs.dropWhile isDigit)).2 with
    | nil => rfl
    | cons c rest =>
      simp only [exponent?, Bool.or_eq_true, beq_iff_eq]
      split
      · rw [Option.map_map]
        rfl
      · rfl

/-- A text is read as the literal whose parts it is made up of. -/
theorem parse?_eq_some : parse? cs = some l ↔ l.Spells cs := by
  rw [parse?_eq]
  constructor
  · intro h
    rw [Option.ite_none_left_eq_some, Option.map_eq_some_iff] at h
    obtain ⟨hnonempty, exponent, hexponent, rfl⟩ := h
    obtain ⟨hrest, hfraction⟩ := point_eq (cs.dropWhile isDigit)
    refine ⟨⟨_, ?_, exponent?_eq_some.1 hexponent⟩, fun c hc => List.mem_takeWhile_imp hc,
      hfraction, not_and_or.1 hnonempty⟩
    rw [← hrest, List.takeWhile_append_dropWhile]
  · rintro ⟨⟨tail, rfl, htail⟩, hwhole, hfraction, hnonempty⟩
    have hstop : ∀ c ∈ (fractionText l.fraction ++ tail).head?, isDigit c = false := by
      cases hpoint : l.fraction with
      | none => exact htail.stops
      | some digits =>
        rintro _ ⟨⟩
        rfl
    obtain ⟨htake, hdrop⟩ := span_digits hwhole hstop
    rw [htake, hdrop, point_append htail hfraction, if_neg (not_and_or.2 hnonempty),
      exponent?_eq_some.2 htail]
    rfl

theorem mem_exponentText : tail ∈ exponentPart.language ↔ ∃ exponent, ExponentText exponent tail := by
  rw [mem_exponentPart]
  constructor
  · rintro (rfl | ⟨c, hc, sign, hsign, digits, hdigits, rfl⟩)
    · exact ⟨none, .absent⟩
    · have hdigits := mem_plus_oneOf.1 hdigits
      obtain ⟨negative, hsign⟩ := exists_sign.2 hsign
      exact ⟨_, .signed hc hsign hdigits⟩
  · rintro ⟨_, _ | ⟨hc, hsign, hdigits⟩⟩
    · exact Or.inl rfl
    · exact Or.inr ⟨_, hc, _, exists_sign.1 ⟨_, hsign⟩, _, mem_plus_oneOf.2 hdigits, rfl⟩

theorem mem_fractionText : cs ∈ fractionPart.language ↔
    ∃ fraction, cs = fractionText fraction ∧ ∀ digits ∈ fraction, ∀ c ∈ digits, isDigit c = true := by
  rw [mem_fractionPart]
  constructor
  · rintro (rfl | ⟨digits, hdigits, rfl⟩)
    · exact ⟨none, rfl, nofun⟩
    · refine ⟨some digits, rfl, ?_⟩
      rintro _ ⟨⟩
      exact hdigits
  · rintro ⟨_ | digits, rfl, h⟩
    · exact Or.inl rfl
    · exact Or.inr ⟨digits, h digits rfl, rfl⟩

/-- The texts that have parts are those that the pattern matches. -/
theorem mem_pattern : cs ∈ pattern.language ↔ ∃ l, Spells l cs := by
  rw [language_pattern, language_decimalLiteral]
  constructor
  · rintro (h | h)
    · obtain ⟨whole, hwhole, _, htail, rfl⟩ := mem_seq.1 h
      obtain ⟨_, hfraction, tail, hexponent, rfl⟩ := mem_seq.1 htail
      obtain ⟨hne, hdigits⟩ := mem_plus_oneOf.1 hwhole
      obtain ⟨fraction, rfl, hmore⟩ := mem_fractionText.1 hfraction
      obtain ⟨exponent, hexponent⟩ := mem_exponentText.1 hexponent
      exact ⟨⟨whole, fraction, exponent⟩, ⟨tail, rfl, hexponent⟩, hdigits, hmore, Or.inl hne⟩
    · obtain ⟨_, hpoint, _, htail, rfl⟩ := mem_seq.1 h
      obtain ⟨digits, hdigits, tail, hexponent, rfl⟩ := mem_seq.1 htail
      obtain rfl := mem_char.1 hpoint
      obtain ⟨hne, hdigits⟩ := mem_plus_oneOf.1 hdigits
      obtain ⟨exponent, hexponent⟩ := mem_exponentText.1 hexponent
      refine ⟨⟨[], some digits, exponent⟩, ⟨tail, rfl, hexponent⟩, nofun, ?_, Or.inr hne⟩
      rintro _ ⟨⟩
      exact hdigits
  · rintro ⟨⟨whole, fraction, exponent⟩, ⟨tail, rfl, hexponent⟩, hwhole, hfraction, hnonempty⟩
    have htail := mem_exponentText.2 ⟨exponent, hexponent⟩
    by_cases hne : whole = []
    · obtain ⟨digits, rfl⟩ : ∃ digits, fraction = some digits := by
        cases fraction with
        | none => exact absurd hne (by simpa using hnonempty)
        | some digits => exact ⟨digits, rfl⟩
      have hdigits : digits ≠ [] := by simpa [hne] using hnonempty
      subst hne
      exact Or.inr (mem_seq.2 ⟨_, mem_char.2 rfl, _, mem_seq.2 ⟨digits,
        mem_plus_oneOf.2 ⟨hdigits, hfraction digits rfl⟩, tail, htail, rfl⟩, rfl⟩)
    · exact Or.inl (mem_seq.2 ⟨whole, mem_plus_oneOf.2 ⟨hne, hwhole⟩, _, mem_seq.2 ⟨_,
        mem_fractionText.2 ⟨fraction, rfl, hfraction⟩, tail, htail, rfl⟩, rfl⟩)

theorem parse?_isSome : (parse? cs).isSome ↔ cs ∈ pattern.language := by
  simp only [Option.isSome_iff_exists, parse?_eq_some, mem_pattern]

namespace Spells

/-- A point in the text is the one before the fraction. -/
theorem point_mem_iff (h : l.Spells cs) : '.' ∈ cs ↔ l.fraction.isSome := by
  obtain ⟨whole, fraction, exponent⟩ := l
  obtain ⟨⟨tail, rfl, hexponent⟩, hwhole, hfraction, -⟩ := h
  have hdigits : ∀ digits : List Char, (∀ c ∈ digits, isDigit c = true) → '.' ∉ digits :=
    fun _ hdigits hpoint => absurd (hdigits _ hpoint) (by decide)
  have htail : '.' ∉ tail := by
    cases hexponent with
    | absent => exact List.not_mem_nil
    | signed hc hsign hmore =>
      have hmore := hdigits _ hmore.2
      rcases hc with rfl | rfl <;> cases hsign <;> simpa using hmore
  cases fraction with
  | none => simpa [fractionText, htail] using hdigits _ hwhole
  | some digits => simp [fractionText]

/-- A text without a point is digits if there is no exponent, and these are all that is before
the point then. -/
theorem digits_iff (h : l.Spells cs) (hpoint : l.fraction = none) :
    (∀ c ∈ cs, isDigit c = true) ↔ l.exponent = none := by
  obtain ⟨whole, fraction, exponent⟩ := l
  obtain ⟨⟨tail, rfl, hexponent⟩, hwhole, -, -⟩ := h
  obtain rfl : fraction = none := hpoint
  cases hexponent with
  | absent => simpa [fractionText] using hwhole
  | @signed _ _ _ c hc =>
    have hletter : isDigit c = false := by rcases hc with rfl | rfl <;> rfl
    refine iff_of_false (fun hdigits => ?_) nofun
    have hdigit := hdigits c (by simp)
    rw [hletter] at hdigit
    cases hdigit

theorem whole_eq (h : l.Spells cs) (hpoint : l.fraction = none) (hexponent : l.exponent = none) :
    l.whole = cs := by
  obtain ⟨tail, htext, htail⟩ := h.text
  rw [hexponent] at htail
  cases htail
  rw [htext, hpoint, fractionText, List.append_nil, List.append_nil]

end Spells

end Ecma3.Decimal.Literal
