import Ecma3.Proofs.Token.Append
import Ecma3.Proofs.Token.Maximal

/-! Texts that consist of one token: those that a pattern of the token matches. -/
namespace Ecma3

open Text (byteLength)

variable {cs : List Char} {t : Token} {text : String} {span : Span}

namespace Token

/-- A pattern of the token matches all of the text, which is no reserved word instead of a name. -/
def Spells (t : Token) (cs : List Char) : Prop :=
  cs ∈ t.language ∧ (t = .identifier → ∀ w : ReservedWord, cs ≠ w.spelling.toList)

theorem spells_iff (ht : t ≠ .identifier) : t.Spells cs ↔ cs ∈ t.language :=
  and_iff_left fun hname => absurd hname ht

/-- The text from a place on is a candidate for the longest match there. -/
theorem exists_longest?_of_mem (h : cs ∈ t.language) :
    ∃ u, Pattern.longest? cs = some (u, cs.length) := by
  obtain ⟨k, v, hcandidate⟩ : ∃ k v, (v, k) ∈ Pattern.candidates cs := by
    have hunreserved : ∀ u : Token, u.isReserved = false → cs ∈ u.language →
        ∃ k v, (v, k) ∈ Pattern.candidates cs := by
      intro u hu hmem
      obtain ⟨k, hk, -⟩ := (longest_matched? hu).greatest cs hmem (List.prefix_refl cs)
      exact ⟨k, exists_candidate hk⟩
    cases t with
    | reserved w => exact hunreserved .identifier rfl (identifier_of_reserved h)
    | _ => exact hunreserved _ rfl h
  obtain ⟨⟨u, n⟩, hlongest⟩ := Option.isSome_iff_exists.1 (Pattern.longest?_isSome hcandidate)
  obtain ⟨hle, -, hmax⟩ := longest?_maximal hlongest
  have hn : n = cs.length := Nat.le_antisymm hle (hmax t cs h (List.prefix_refl cs))
  exact ⟨u, hn ▸ hlongest⟩

theorem longest?_whole : Pattern.longest? cs = some (t, cs.length) ↔ t.Spells cs := by
  constructor
  · intro h
    have hmem := (longest?_maximal h).2.1
    rw [List.take_length] at hmem
    refine ⟨hmem, fun hname w hw => ?_⟩
    have hword := (Pattern.mem_candidates (Pattern.longest?_mem h)).2 (Or.inl hname)
    rw [List.take_length, wordToken_eq_reserved.2 (mem_reserved.2 hw), hname] at hword
    cases hword
  · rintro ⟨hmem, hname⟩
    obtain ⟨u, hlongest⟩ := exists_longest?_of_mem hmem
    obtain ⟨-, hu, -⟩ := longest?_maximal hlongest
    have hcandidate := Pattern.mem_candidates (Pattern.longest?_mem hlongest)
    rw [List.take_length] at hu hcandidate
    rcases eq_or_identifier hmem hu with rfl | ⟨rfl, hreserved⟩ | ⟨ht, hreserved⟩
    · exact hlongest
    · -- A name that is spelled like a reserved word is that word.
      have hword := hcandidate.2 (Or.inl rfl)
      cases t with
      | reserved w =>
        rw [wordToken_eq_reserved.2 hmem] at hword
        cases hword
      | _ => cases hreserved
    · cases u with
      | reserved w => exact absurd (mem_reserved.1 hu) (hname ht w)
      | _ => cases hreserved

theorem family_blank {c : Char} (h : Cursor.isBlank c = true) (cs : List Char) :
    Family.of (c :: cs) = .mark := by
  have hall : [' ', '\t', '\x0b', '\x0c', '\u00A0', '\uFEFF'].all (fun b =>
      Text.isLineTerminator b = false ∧ Unicode.isNameStart b = false ∧
      Pattern.isQuote b = false ∧ (b == '/') = false ∧ (b == '0') = false ∧
      Text.isDigit b = false ∧ (b == '.') = false) = true := by
    decide +kernel
  obtain ⟨hline, hname, hquote, hslash, hzero, hdigit, hpoint⟩ :=
    of_decide_eq_true (List.all_eq_true.1 hall c (Cursor.isBlank_iff.1 h))
  simp only [Family.of, hline, hname, hquote, hslash, hzero, hdigit, hpoint, Bool.false_and,
    Bool.or_self, Bool.false_eq_true, if_false]

/-- No token begins with a blank. -/
theorem not_isBlank_of_mem {c : Char} (h : c :: cs ∈ t.language) : Cursor.isBlank c = false := by
  rw [Bool.eq_false_iff]
  intro hblank
  have hfamily := family_of_mem h
  rw [family_blank hblank] at hfamily
  cases t with
  | punctuator mark =>
    have hspelling := mem_punctuator.1 h
    have hall : mark.spelling.toList.all (!Cursor.isBlank ·) = true := by
      cases mark <;> decide +kernel
    rw [← hspelling, List.all_cons, hblank] at hall
    cases hall
  | _ => cases hfamily

end Token

theorem Lexeme.longest?_of_tokenize (h : tokenize text = .ok [⟨t, text, span⟩]) :
    Token.Pattern.longest? text.toList = some (t, text.toList.length) := by
  have hmem : Except.ok ⟨t, text, span⟩ ∈ (Cursor.ofString text).items := by
    change _ ∈ scan text
    rw [tokenize_eq_ok.1 h]
    exact List.mem_cons_self
  have hstart : (Cursor.ofString text).offset = byteLength [] := rfl
  obtain ⟨front, after, hsource, -, hlongest⟩ :=
    Cursor.Runs.longest (Cursor.runs_iff.2 rfl) hstart _ hmem
  -- The token is as long as the text, so nothing is left before it or behind it.
  have hlength := congrArg List.length hsource
  simp only [List.nil_append, Cursor.ofString, List.length_append] at hlength
  have hafter : after = [] := List.length_eq_zero_iff.1 (by omega)
  rwa [hafter, List.append_nil] at hlongest

theorem Lexeme.tokenize_of_longest? (h : Token.Pattern.longest? text.toList =
    some (t, text.toList.length)) :
    tokenize text = .ok [⟨t, text, ⟨0, byteLength text.toList⟩⟩] := by
  have hmem := (Token.longest?_whole.1 h).1
  obtain ⟨c, cs, htext⟩ : ∃ c cs, text.toList = c :: cs :=
    List.exists_cons_of_ne_nil fun hnil => by
      have hpos := Token.Pattern.longest?_pos h
      rw [hnil] at hpos
      exact absurd hpos (Nat.lt_irrefl 0)
  have hskip : (Cursor.ofString text).skipBlanks = Cursor.ofString text := by
    have hblank := Token.not_isBlank_of_mem (htext ▸ hmem)
    rw [Cursor.skipBlanks_eq, Cursor.ofString, htext,
      List.takeWhile_cons_of_neg (by simp [hblank]), List.dropWhile_cons_of_neg (by simp [hblank])]
    rfl
  have hnext : (Cursor.ofString text).next? =
      some (.ok ⟨t, text, ⟨0, byteLength text.toList⟩⟩, ⟨byteLength text.toList, []⟩) := by
    have hrest : (Cursor.ofString text).rest = text.toList := rfl
    rw [Cursor.next?_eq_some, hskip, Cursor.item, hrest, h]
    refine ⟨by rw [htext]; exact List.cons_ne_nil _ _, ?_⟩
    simp only [Cursor.text, Cursor.span, Cursor.advance, List.take_length, List.drop_length,
      String.ofList_toList, Cursor.ofString, Nat.zero_add]
  rw [tokenize_eq_ok, scan, Cursor.items_of_next?_eq_some hnext, Cursor.items_of_next?_eq_none rfl]
  rfl

/-- A text is cut into one token just if it is spelled like one. -/
theorem Lexeme.tokenize_eq_single :
    tokenize text = .ok [⟨t, text, ⟨0, byteLength text.toList⟩⟩] ↔ t.Spells text.toList :=
  ⟨fun h => Token.longest?_whole.1 (longest?_of_tokenize h),
    fun h => tokenize_of_longest? (Token.longest?_whole.2 h)⟩

end Ecma3
