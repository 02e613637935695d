import Ecma3.Proofs.Token.Longest
import Ecma3.Proofs.Token.Word

/-! Numbers and strings are the longest texts of their patterns. -/
namespace Ecma3.Token

open Text (isDigit isHexDigit)
open Regex

variable {cs text : List Char} {c : Char}

theorem mem_hexLiteral : text ∈ language .hexLiteral ↔ ∃ x, (x = 'x' ∨ x = 'X') ∧
    ∃ digits, (digits ≠ [] ∧ ∀ d ∈ digits, isHexDigit d = true) ∧ text = '0' :: x :: digits := by
  rw [language_of_pattern rfl]
  constructor
  · intro h
    obtain ⟨zero, hzero, _, hrest, rfl⟩ := mem_seq.1 h
    obtain ⟨_, hx, digits, hdigits, rfl⟩ := mem_seq.1 hrest
    obtain rfl := mem_char.1 hzero
    obtain ⟨x, hx, rfl⟩ := mem_among.1 hx
    exact ⟨x, by simpa using hx, digits, mem_plus_oneOf.1 hdigits, rfl⟩
  · rintro ⟨x, hx, digits, hdigits, rfl⟩
    exact mem_seq.2 ⟨['0'], mem_char.2 rfl, _, mem_seq.2 ⟨[x], mem_among.2 ⟨x, by simpa using hx,
      rfl⟩, _, mem_plus_oneOf.2 hdigits, rfl⟩, rfl⟩

theorem longest_hexLiteral : Longest (language .hexLiteral) cs (Pattern.hex? cs) where
  matched n hn := by
    refine ⟨Pattern.hex?_le hn, ?_⟩
    rw [mem_hexLiteral]
    unfold Pattern.hex? at hn
    split at hn
    · rename_i x rest
      simp only [Option.ite_none_right_eq_some, Option.some.injEq, Bool.and_eq_true,
        Bool.or_eq_true, beq_iff_eq, decide_eq_true_eq] at hn
      obtain ⟨⟨hx, hdigits⟩, rfl⟩ := hn
      have hrest := ((Longest.run_plus hdigits).matched _ rfl).2
      refine ⟨x, hx, _, mem_plus_oneOf.1 hrest, ?_⟩
      rw [Nat.add_comm]
      rfl
    · cases hn
  greatest text htext hinitial := by
    obtain ⟨x, hx, digits, hdigits, rfl⟩ := mem_hexLiteral.1 htext
    obtain ⟨more, rfl⟩ := hinitial
    have hle := (Longest.run isHexDigit _).le (mem_star_oneOf.2 hdigits.2)
      (List.prefix_append digits more)
    have hpos := List.length_pos_iff.2 hdigits.1
    have hx' : (x == 'x' || x == 'X') = true := by simpa using hx
    refine ⟨2 + Pattern.run isHexDigit (digits ++ more), ?_, ?_⟩
    · simp only [List.cons_append, Pattern.hex?, hx', Bool.true_and]
      rw [if_pos (by simp; omega)]
    · simp only [List.length_cons]
      omega

namespace Pattern

variable {quote : Char}

theorem stringBody_part {part : List Char} (h : part ∈ (stringPart quote).language)
    (rest : List Char) : stringBody quote (part ++ rest) =
      ((stringBody quote rest).1 + part.length, (stringBody quote rest).2) := by
  rcases mem_either.1 h with h | h
  · obtain ⟨c, hc, rfl⟩ := mem_except.1 h
    simp only [List.mem_cons, List.not_mem_nil, or_false, not_or] at hc
    obtain ⟨hquote, hslash, hfeed, hreturn⟩ := hc
    simp [stringBody_cons hslash, hquote, breaksString, hfeed, hreturn]
  · obtain ⟨slash, hslash, other, hother, rfl⟩ := mem_seq.1 h
    obtain rfl := mem_char.1 hslash
    obtain ⟨c, hc, rfl⟩ := mem_except.1 hother
    simp only [List.mem_cons, List.not_mem_nil, or_false, not_or] at hc
    simp [stringBody, breaksString, hc]

/-- A string is closed by the first quote that is none of its parts. -/
theorem stringBody_of_mem (hquote : quote ≠ '\\') {body : List Char}
    (h : body ∈ (star (stringPart quote)).language) (rest : List Char) :
    stringBody quote (body ++ quote :: rest) = (body.length + 1, true) := by
  obtain ⟨parts, rfl, hparts⟩ := mem_star.1 h
  clear h
  induction parts with
  | nil => simp [stringBody_cons hquote]
  | cons part parts ih =>
    rw [List.forall_mem_cons] at hparts
    rw [List.flatten_cons, List.append_assoc, stringBody_part hparts.1, ih hparts.2,
      List.length_append]
    congr 1
    omega

theorem mem_of_stringBody {cs : List Char} {n : Nat} (h : stringBody quote cs = (n, true)) :
    ∃ body ∈ (star (stringPart quote)).language, cs.take n = body ++ [quote] := by
  fun_induction stringBody quote cs generalizing n with
  | case4 c rest hc length closed hb ih =>
    simp only [Prod.mk.injEq] at h
    obtain ⟨rfl, rfl⟩ := h
    obtain ⟨body, hbody, htake⟩ := ih hb
    have hpart : ['\\', c] ∈ (stringPart quote).language := by
      refine mem_either.2 (Or.inr (mem_seq.2 ⟨['\\'], mem_char.2 rfl, [c], ?_, rfl⟩))
      simpa [breaksString] using hc
    exact ⟨_, append_mem_star hpart hbody, by simp [htake]⟩
  | case5 rest =>
    simp only [Prod.mk.injEq, and_true] at h
    subst h
    exact ⟨[], nil_mem_star, by simp⟩
  | case7 c rest hlone hescape hq hb length closed hr ih =>
    simp only [Prod.mk.injEq] at h
    obtain ⟨rfl, rfl⟩ := h
    obtain ⟨body, hbody, htake⟩ := ih hr
    have hslash : c ≠ '\\' := by
      rintro rfl
      cases rest with
      | nil => exact hlone rfl rfl
      | cons d rest => exact hescape d rest rfl rfl
    have hpart : [c] ∈ (stringPart quote).language :=
      mem_either.2 (Or.inl (mem_except.2 ⟨c, by simp_all [breaksString], rfl⟩))
    exact ⟨_, append_mem_star hpart hbody, by simp [htake]⟩
  | _ => simp at h

end Pattern

theorem mem_quoted {quote : Char} : text ∈ (quoted quote).language ↔
    ∃ body ∈ (star (stringPart quote)).language, text = quote :: (body ++ [quote]) := by
  rw [quoted, mem_seq]
  simp only [mem_seq, mem_char]
  constructor
  · rintro ⟨_, rfl, _, ⟨body, hbody, _, rfl, rfl⟩, rfl⟩
    exact ⟨body, hbody, rfl⟩
  · rintro ⟨body, hbody, rfl⟩
    exact ⟨_, rfl, _, ⟨body, hbody, _, rfl, rfl⟩, rfl⟩

theorem mem_stringLiteral : text ∈ language .stringLiteral ↔
    ∃ quote, Pattern.isQuote quote = true ∧ text ∈ (quoted quote).language := by
  simp only [language, patterns, Pattern.isQuote, List.mem_cons, List.not_mem_nil, or_false,
    exists_eq_or_imp, exists_eq_left, Bool.or_eq_true, beq_iff_eq]
  rfl

theorem longest_stringLiteral : Longest (language .stringLiteral) cs (Pattern.string? cs) where
  matched n hn := by
    refine ⟨Pattern.string?_le hn, mem_stringLiteral.2 ?_⟩
    cases cs with
    | nil => cases hn
    | cons quote rest =>
      simp only [Pattern.string?, Option.ite_none_right_eq_some, Option.some.injEq] at hn
      obtain ⟨hquote, hclosed, rfl⟩ := hn
      obtain ⟨body, hbody, htake⟩ := Pattern.mem_of_stringBody (Prod.ext rfl hclosed)
      refine ⟨quote, hquote, mem_quoted.2 ⟨body, hbody, ?_⟩⟩
      rw [Nat.add_comm, List.take_succ_cons, htake]
  greatest text htext hinitial := by
    obtain ⟨quote, hquote, hmem⟩ := mem_stringLiteral.1 htext
    obtain ⟨body, hbody, rfl⟩ := mem_quoted.1 hmem
    obtain ⟨rest, rfl⟩ := hinitial
    have hslash : quote ≠ '\\' := by
      rintro rfl
      cases hquote
    have hclosed := Pattern.stringBody_of_mem hslash hbody rest
    refine ⟨1 + (body.length + 1), ?_, ?_⟩
    · simp [Pattern.string?, hquote, hclosed]
    · rw [List.length_cons, List.length_append, List.length_singleton]
      omega

/-! Decimal numbers. -/

theorem mem_exponentPart : text ∈ exponentPart.language ↔ text = [] ∨
    ∃ c, (c = 'e' ∨ c = 'E') ∧ ∃ sign, (sign = [] ∨ sign = ['+'] ∨ sign = ['-']) ∧
      ∃ digits ∈ (plus digit).language, text = c :: (sign ++ digits) := by
  simp only [exponentPart, mem_optional, mem_seq, mem_among, List.mem_cons, List.not_mem_nil,
    or_false]
  constructor
  · rintro (rfl | ⟨_, ⟨c, hc, rfl⟩, _, ⟨sign, hsign, digits, hdigits, rfl⟩, rfl⟩)
    · exact Or.inl rfl
    · refine Or.inr ⟨c, hc, sign, ?_, digits, hdigits, rfl⟩
      rcases hsign with rfl | ⟨d, rfl | rfl, rfl⟩ <;> simp
  · rintro (rfl | ⟨c, hc, sign, hsign, digits, hdigits, rfl⟩)
    · exact Or.inl rfl
    · refine Or.inr ⟨[c], ⟨c, hc, rfl⟩, _, ⟨sign, ?_, digits, hdigits, rfl⟩, rfl⟩
      rcases hsign with rfl | rfl | rfl <;> simp

theorem take_sign (cs : List Char) : cs.take (Pattern.sign cs) = [] ∨
    cs.take (Pattern.sign cs) = ['+'] ∨ cs.take (Pattern.sign cs) = ['-'] := by
  unfold Pattern.sign
  split <;> simp

/-- What stands before digits is all of the sign. -/
theorem sign_append {sign digits : List Char} (hsign : sign = [] ∨ sign = ['+'] ∨ sign = ['-'])
    (hdigits : digits ∈ (plus digit).language) (rest : List Char) :
    Pattern.sign (sign ++ (digits ++ rest)) = sign.length := by
  rcases hsign with rfl | rfl | rfl
  · obtain ⟨hne, hall⟩ := mem_plus_oneOf.1 hdigits
    obtain ⟨d, digits, rfl⟩ := List.exists_cons_of_ne_nil hne
    have hd := hall d List.mem_cons_self
    unfold Pattern.sign
    split
    · simp_all [isDigit]
    · simp_all [isDigit]
    · rfl
  · rfl
  · rfl

theorem longest_exponentPart :
    Longest exponentPart.language cs (some (Pattern.exponent cs)) where
  matched n hn := by
    cases hn
    refine ⟨Pattern.exponent_le cs, mem_exponentPart.2 ?_⟩
    unfold Pattern.exponent
    split
    · exact Or.inl rfl
    · rename_i c rest
      split
      · rename_i hc
        dsimp only
        split
        · exact Or.inl rfl
        · rename_i hdigits
          have hrun := ((Longest.run_plus hdigits).matched _ rfl).2
          refine Or.inr ⟨c, by simpa using hc, _, take_sign rest, _, hrun, ?_⟩
          rw [Nat.add_assoc, Nat.add_comm 1, List.take_succ_cons, List.take_add]
      · exact Or.inl rfl
  greatest text htext hinitial := by
    refine ⟨_, rfl, ?_⟩
    rcases mem_exponentPart.1 htext with rfl | ⟨c, hc, sign, hsign, digits, hdigits, rfl⟩
    · exact Nat.zero_le _
    · obtain ⟨rest, rfl⟩ := hinitial
      obtain ⟨hne, hall⟩ := mem_plus_oneOf.1 hdigits
      have hpos := List.length_pos_iff.2 hne
      have hrun := (Longest.run isDigit _).le (mem_star_oneOf.2 hall)
        (List.prefix_append digits rest)
      have hc' : (c == 'e' || c == 'E') = true := by simpa using hc
      simp only [List.cons_append, List.append_assoc, Pattern.exponent, hc', if_true,
        sign_append hsign hdigits rest, List.drop_left]
      rw [if_neg (by omega)]
      simp only [List.length_cons, List.length_append]
      omega

theorem mem_fractionPart : text ∈ fractionPart.language ↔ text = [] ∨
    ∃ digits, (∀ d ∈ digits, isDigit d = true) ∧ text = '.' :: digits := by
  simp only [fractionPart, digit, mem_optional, mem_seq, mem_char, mem_star_oneOf]
  constructor
  · rintro (rfl | ⟨_, rfl, digits, hdigits, rfl⟩)
    · exact Or.inl rfl
    · exact Or.inr ⟨digits, hdigits, rfl⟩
  · rintro (rfl | ⟨digits, hdigits, rfl⟩)
    · exact Or.inl rfl
    · exact Or.inr ⟨_, rfl, digits, hdigits, rfl⟩

theorem longest_fractionPart :
    Longest fractionPart.language cs (some (Pattern.fraction cs)) where
  matched n hn := by
    cases hn
    refine ⟨Pattern.fraction_le cs, mem_fractionPart.2 ?_⟩
    unfold Pattern.fraction
    split
    · rename_i rest
      have hrun := ((Longest.run isDigit rest).matched _ rfl).2
      refine Or.inr ⟨_, mem_star_oneOf.1 hrun, ?_⟩
      rw [Nat.add_comm, List.take_succ_cons]
    · exact Or.inl rfl
  greatest text htext hinitial := by
    refine ⟨_, rfl, ?_⟩
    rcases mem_fractionPart.1 htext with rfl | ⟨digits, hdigits, rfl⟩
    · exact Nat.zero_le _
    · obtain ⟨rest, rfl⟩ := hinitial
      have hrun := (Longest.run isDigit _).le (mem_star_oneOf.2 hdigits)
        (List.prefix_append digits rest)
      simp only [List.cons_append, Pattern.fraction, List.length_cons]
      omega

/-- An exponent does not begin inside a fraction. -/
theorem longest_numberTail : Longest (seq fractionPart exponentPart).language cs
    (some (Pattern.fraction cs + Pattern.exponent (cs.drop (Pattern.fraction cs)))) := by
  refine longest_fractionPart.seq longest_exponentPart fun a ha hlt b hb hinitial => ?_
  rcases mem_exponentPart.1 hb with rfl | ⟨c, hc, sign, -, digits, -, rfl⟩
  · rfl
  · obtain ⟨rest, rfl⟩ := hinitial
    rcases mem_fractionPart.1 ha with rfl | ⟨whole, hwhole, rfl⟩
    · rcases hc with rfl | rfl <;> simp [Pattern.fraction] at hlt
    · simp only [List.cons_append, Pattern.fraction, List.length_cons] at hlt
      have hlt : whole.length < Pattern.run isDigit (whole ++ c :: (sign ++ digits) ++ rest) := by
        omega
      have hdigit := Pattern.of_lt_run hlt (List.prefix_append _ rest)
      rcases hc with rfl | rfl <;> simp [isDigit] at hdigit

theorem head_of_mem_numberTail (h : c :: text ∈ (seq fractionPart exponentPart).language) :
    c = '.' ∨ c = 'e' ∨ c = 'E' := by
  obtain ⟨a, ha, b, hb, heq⟩ := mem_seq.1 h
  rcases mem_fractionPart.1 ha with rfl | ⟨digits, -, rfl⟩
  · rcases mem_exponentPart.1 hb with rfl | ⟨e, he, sign, -, digits, -, rfl⟩
    · cases heq
    · obtain ⟨rfl, -⟩ := List.cons.inj heq
      exact Or.inr he
  · obtain ⟨rfl, -⟩ := List.cons.inj heq
    exact Or.inl rfl

theorem language_decimalLiteral : language .decimalLiteral =
    (seq (plus digit) (seq fractionPart exponentPart)).language +
      (seq (char '.') (seq (plus digit) exponentPart)).language := by
  ext text
  simp only [language, patterns, List.mem_cons, List.not_mem_nil, or_false, exists_eq_or_imp,
    exists_eq_left]
  rfl

/-- A number that begins with a digit has all digits in front of its other parts. -/
theorem longest_wholeNumber (h : Pattern.run isDigit cs ≠ 0) :
    Longest (seq (plus digit) (seq fractionPart exponentPart)).language cs
      (Pattern.decimal? cs) := by
  have hnumber : Pattern.decimal? cs = some (Pattern.run isDigit cs +
      (Pattern.fraction (cs.drop (Pattern.run isDigit cs)) +
        Pattern.exponent ((cs.drop (Pattern.run isDigit cs)).drop
          (Pattern.fraction (cs.drop (Pattern.run isDigit cs)))))) := by
    simp [Pattern.decimal?, h, Nat.add_assoc]
  rw [hnumber]
  refine (Longest.run_plus h).seq longest_numberTail fun a _ hlt b hb hinitial => ?_
  cases b with
  | nil => rfl
  | cons c b =>
    have hdigit := Pattern.of_lt_run hlt hinitial
    rcases head_of_mem_numberTail hb with rfl | rfl | rfl <;> simp [isDigit] at hdigit

theorem longest_pointNumber {rest : List Char} (h : Pattern.run isDigit rest ≠ 0) :
    Longest (seq (char '.') (seq (plus digit) exponentPart)).language ('.' :: rest)
      (Pattern.decimal? ('.' :: rest)) := by
  have hpoint : Longest (char '.').language ('.' :: rest) (some 1) :=
    .of_mem (mem_char.2 rfl) (by simp) fun other hother _ => by rw [mem_char.1 hother]
  have hdigits : Longest (seq (plus digit) exponentPart).language rest
      (some (Pattern.run isDigit rest +
        Pattern.exponent (rest.drop (Pattern.run isDigit rest)))) := by
    refine (Longest.run_plus h).seq longest_exponentPart fun a _ hlt b hb hinitial => ?_
    rcases mem_exponentPart.1 hb with rfl | ⟨c, hc, sign, -, digits, -, rfl⟩
    · rfl
    · have hdigit := Pattern.of_lt_run hlt hinitial
      rcases hc with rfl | rfl <;> simp [isDigit] at hdigit
  have hnumber : Pattern.decimal? ('.' :: rest) = some (1 + (Pattern.run isDigit rest +
      Pattern.exponent (rest.drop (Pattern.run isDigit rest)))) := by
    have hrun : Pattern.run isDigit ('.' :: rest) = 0 := by simp [Pattern.run, isDigit]
    have htwo : ¬1 + Pattern.run isDigit rest < 2 := by omega
    simp only [Pattern.decimal?, hrun, List.drop_zero, Pattern.fraction, htwo, decide_false,
      Bool.and_false, Nat.zero_add]
    simp [Nat.add_comm 1, Nat.add_right_comm]
  rw [hnumber]
  refine hpoint.seq hdigits fun a ha hlt => ?_
  rw [mem_char.1 ha] at hlt
  exact absurd hlt (by simp)

theorem longest_decimalLiteral :
    Longest (language .decimalLiteral) cs (Pattern.decimal? cs) := by
  rw [language_decimalLiteral]
  by_cases hwhole : Pattern.run isDigit cs = 0
  · have hleft : ∀ text ∈ (seq (plus digit) (seq fractionPart exponentPart)).language,
        ¬text <+: cs := by
      intro text htext hinitial
      obtain ⟨digits, hdigits, tail, -, rfl⟩ := mem_seq.1 htext
      obtain ⟨hne, hall⟩ := mem_plus_oneOf.1 hdigits
      have hpos := List.length_pos_iff.2 hne
      have hle := (Longest.run isDigit cs).le (mem_star_oneOf.2 hall)
        ((List.prefix_append digits tail).trans hinitial)
      omega
    refine .add_right hleft ?_
    by_cases hpoint : ∃ rest, cs = '.' :: rest ∧ Pattern.run isDigit rest ≠ 0
    · obtain ⟨rest, rfl, hrest⟩ := hpoint
      exact longest_pointNumber hrest
    · have hfraction : Pattern.fraction cs < 2 := by
        unfold Pattern.fraction
        split
        · rename_i rest
          have : Pattern.run isDigit rest = 0 := by simpa using hpoint
          omega
        · omega
      have hnone : Pattern.decimal? cs = none := by simp [Pattern.decimal?, hwhole, hfraction]
      rw [hnone]
      refine .of_none fun text htext hinitial => hpoint ?_
      obtain ⟨point, hp, tail, htail, rfl⟩ := mem_seq.1 htext
      obtain rfl := mem_char.1 hp
      obtain ⟨digits, hdigits, exponent, -, rfl⟩ := mem_seq.1 htail
      obtain ⟨hne, hall⟩ := mem_plus_oneOf.1 hdigits
      obtain ⟨rest, rfl⟩ := hinitial
      have hpos := List.length_pos_iff.2 hne
      have hle := (Longest.run isDigit (digits ++ exponent ++ rest)).le (mem_star_oneOf.2 hall)
        (by simp)
      exact ⟨digits ++ exponent ++ rest, by simp, by omega⟩
  · refine .add_left (fun text htext hinitial => hwhole ?_) (longest_wholeNumber hwhole)
    obtain ⟨point, hp, tail, -, rfl⟩ := mem_seq.1 htext
    obtain rfl := mem_char.1 hp
    obtain ⟨rest, rfl⟩ := hinitial
    simp [Pattern.run, isDigit]

end Ecma3.Token
