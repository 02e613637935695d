import Ecma3.Proofs.Token.Longest
import Ecma3.Proofs.Token.Word

/-! Names and punctuators are the longest texts of their patterns. -/
namespace Ecma3.Token

open Regex

variable {cs text : List Char} {c : Char}

/-- Ranges that begin too late hold no character before them. -/
theorem contains_of_lt {k : Nat} (h : c.toNat < k) (table : Unicode.RangeTable) :
    table.contains c = Unicode.RangeTable.contains (table.filter (·.1 < k)) c := by
  simp only [Unicode.RangeTable.contains, List.any_filter]
  congr 1
  funext range
  by_cases hrange : range.1 ≤ c.toNat
  · simp [hrange, Nat.lt_of_le_of_lt hrange h]
  · simp [hrange]

theorem contains_ascii {table : Unicode.RangeTable} (small : Unicode.RangeTable)
    (p : Char → Bool) (htable : table.filter (·.1 < 128) = small)
    (hsmall : ∀ n < 128, small.contains (Char.ofNat n) = p (Char.ofNat n)) (h : c.toNat < 128) :
    table.contains c = p c := by
  rw [contains_of_lt h, htable, ← Char.ofNat_toNat c]
  exact hsmall _ h

/-- The classes of names, for the characters that are decided without the tables. -/
theorem nameClasses_ascii (h : c.toNat < 128) :
    Unicode.letters.contains c = c.isAlpha ∧ Unicode.letterNumbers.contains c = false ∧
      Unicode.combiningMarks.contains c = false ∧ Unicode.decimalDigits.contains c = c.isDigit ∧
      Unicode.connectors.contains c = (c == '_') := by
  refine ⟨contains_ascii [(0x41, 0x5A), (0x61, 0x7A)] Char.isAlpha ?_ ?_ h,
    contains_ascii [] (fun _ => false) ?_ ?_ h,
    contains_ascii [] (fun _ => false) ?_ ?_ h,
    contains_ascii [(0x30, 0x39)] Char.isDigit ?_ ?_ h,
    contains_ascii [(0x5F, 0x5F)] (· == '_') ?_ ?_ h⟩ <;> decide +kernel

theorem ne_of_not_ascii {d : Char} (h : ¬c.toNat < 128) (hd : d.toNat < 128) :
    (c == d) = false := by
  rw [beq_eq_false_iff_ne]
  rintro rfl
  exact h hd

theorem nameStart_eq : nameStart = oneOf Unicode.isNameStart := by
  refine congrArg oneOf (funext fun c => ?_)
  by_cases hc : c.toNat < 128
  · simp [nameClasses_ascii hc, Unicode.isNameStart, Unicode.isAscii, hc]
  · have hline := ne_of_not_ascii hc (d := '_') (by decide)
    have hdollar := ne_of_not_ascii hc (d := '$') (by decide)
    simp [Unicode.isNameStart, Unicode.isAscii, hc, hline, hdollar]

theorem namePart_eq : namePart = oneOf Unicode.isNamePart := by
  refine congrArg oneOf (funext fun c => ?_)
  by_cases hc : c.toNat < 128
  · simp [nameClasses_ascii hc, Unicode.isNamePart, Unicode.isAscii, Char.isAlphanum, hc]
  · have hdollar := ne_of_not_ascii hc (d := '$') (by decide)
    simp [Unicode.isNamePart, Unicode.isNameStart, Unicode.isAscii, hc, hdollar]

theorem mem_identifier : text ∈ language .identifier ↔ ∃ c rest, text = c :: rest ∧
    Unicode.isNameStart c = true ∧ ∀ d ∈ rest, Unicode.isNamePart d = true := by
  rw [language_of_pattern rfl, nameStart_eq, namePart_eq, mem_seq]
  simp only [mem_oneOf, mem_star_oneOf]
  constructor
  · rintro ⟨_, ⟨c, hc, rfl⟩, rest, hrest, rfl⟩
    exact ⟨c, rest, rfl, hc, hrest⟩
  · rintro ⟨c, rest, rfl, hc, hrest⟩
    exact ⟨[c], ⟨c, hc, rfl⟩, rest, hrest, rfl⟩

theorem longest_identifier : Longest (language .identifier) cs (Pattern.name? cs) where
  matched n hn := by
    refine ⟨Pattern.name?_le hn, mem_identifier.2 ?_⟩
    cases cs with
    | nil => cases hn
    | cons c rest =>
      simp only [Pattern.name?, Option.ite_none_right_eq_some, Option.some.injEq] at hn
      obtain ⟨hc, rfl⟩ := hn
      have hrest := ((Longest.run Unicode.isNamePart rest).matched _ rfl).2
      refine ⟨c, rest.take (Pattern.run Unicode.isNamePart rest), ?_, hc, mem_star_oneOf.1 hrest⟩
      rw [Nat.add_comm, List.take_succ_cons]
  greatest text htext hinitial := by
    obtain ⟨c, rest, rfl, hc, hrest⟩ := mem_identifier.1 htext
    obtain ⟨more, rfl⟩ := hinitial
    have hle := (Longest.run Unicode.isNamePart _).le (mem_star_oneOf.2 hrest)
      (List.prefix_append rest more)
    refine ⟨_, by rw [List.cons_append, Pattern.name?, if_pos hc], ?_⟩
    rw [List.length_cons]
    omega

/-- Each reserved word could be a name. -/
theorem identifier_of_reserved {w : ReservedWord} (h : text ∈ language (.reserved w)) :
    text ∈ language .identifier := by
  rw [language_of_pattern rfl, mem_word] at h
  subst h
  have hchars : ∃ c rest, w.spelling.toList = c :: rest ∧ Unicode.isNameStart c = true ∧
      rest.all Unicode.isNamePart = true := by
    cases w <;> exact ⟨_, _, rfl, by decide +kernel, by decide +kernel⟩
  simpa only [mem_identifier, List.all_eq_true] using hchars

theorem longest_punctuator (mark : Punctuator) :
    Longest (language (.punctuator mark)) cs (Pattern.spelled? mark.spelling cs) := by
  rw [language_of_pattern rfl]
  unfold Pattern.spelled?
  split
  · rename_i h
    rw [← String.length_toList]
    refine .of_mem (mem_word.2 rfl) (List.isPrefixOf_iff_prefix.1 h) fun other hother _ => ?_
    rw [mem_word.1 hother]
  · rename_i h
    refine .of_none fun other hother hinitial => h (List.isPrefixOf_iff_prefix.2 ?_)
    rwa [← mem_word.1 hother]

end Ecma3.Token
