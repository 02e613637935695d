import Ecma3.Proofs.Text.Numeral
import Ecma3.Proofs.Token.Cover
import Ecma3.Proofs.Token.Longest.Literal
import Ecma3.Proofs.Token.Longest.Name
import Ecma3.Proofs.Token.Longest.Trivia

/-!
The tokens of a text are as long as they can be: no pattern of any token matches more of the text
from where one begins. At most a reserved word is matched by the pattern of a second token, that of
names.
-/
namespace Ecma3

open Text (isDigit byteLength)

namespace Token

open Regex

variable {cs text : List Char} {t u : Token} {n : Nat}

/-- Each class matches the longest text of its token; the class of names that of identifiers. -/
theorem longest_matched? (ht : t.isReserved = false) :
    Longest t.language cs (Pattern.matched? cs t) := by
  cases t with
  | lineTerminator => exact longest_lineTerminator
  | lineComment => exact longest_lineComment
  | blockComment => exact longest_blockComment
  | reserved w => cases ht
  | identifier => exact longest_identifier
  | decimalLiteral => exact longest_decimalLiteral
  | hexLiteral => exact longest_hexLiteral
  | stringLiteral => exact longest_stringLiteral
  | punctuator mark => exact longest_punctuator mark

/-! Reserved words and the names that are none. -/

theorem ofSpelling?_spelling (w : ReservedWord) : ReservedWord.ofSpelling? w.spelling = some w := by
  cases w <;> decide +kernel

theorem ofSpelling?_eq_some {word : String} {w : ReservedWord} :
    ReservedWord.ofSpelling? word = some w ↔ word = w.spelling := by
  constructor
  · intro h
    unfold ReservedWord.ofSpelling? at h
    have hfound : w.spelling = word := by simpa using List.find?_some h
    exact hfound.symm
  · rintro rfl
    exact ofSpelling?_spelling w

theorem mem_reserved {w : ReservedWord} :
    text ∈ language (.reserved w) ↔ text = w.spelling.toList := by
  rw [language_of_pattern rfl, mem_word]

theorem mem_punctuator {mark : Punctuator} :
    text ∈ language (.punctuator mark) ↔ text = mark.spelling.toList := by
  rw [language_of_pattern rfl, mem_word]

theorem wordToken_eq_reserved {w : ReservedWord} :
    Pattern.wordToken cs = .reserved w ↔ cs ∈ language (.reserved w) := by
  have hword : Pattern.wordToken cs = .reserved w ↔
      ReservedWord.ofSpelling? (String.ofList cs) = some w := by
    unfold Pattern.wordToken
    split <;> simp_all
  rw [hword, ofSpelling?_eq_some, mem_reserved]
  constructor
  · intro h
    rw [← h, String.toList_ofList]
  · rintro rfl
    rw [String.ofList_toList]

/-- A candidate is a text of its token. -/
theorem mem_language_of_candidate (h : (t, n) ∈ Pattern.candidates cs) :
    n ≤ cs.length ∧ cs.take n ∈ t.language := by
  obtain ⟨hmatched, hword⟩ := Pattern.mem_candidates h
  cases ht : t.isReserved with
  | false => exact (longest_matched? ht).matched n hmatched
  | true =>
    cases t with
    | reserved w =>
      exact ⟨Pattern.matched?_le hmatched, wordToken_eq_reserved.1 (hword (Or.inr ⟨w, rfl⟩))⟩
    | _ => cases ht

theorem exists_candidate (h : Pattern.matched? cs t = some n) :
    ∃ u, (u, n) ∈ Pattern.candidates cs := by
  by_cases hname : t = .identifier ∨ t.isReserved = true
  · have hn : Pattern.name? cs = some n := by
      cases t with
      | reserved | identifier => exact h
      | _ => simp [isReserved] at hname
    exact ⟨Pattern.wordToken (cs.take n), by simp [Pattern.candidates, hn]⟩
  · refine ⟨t, ?_⟩
    cases t with
    | reserved | identifier => simp [isReserved] at hname
    | punctuator mark =>
      have hall : mark ∈ Punctuator.all := by cases mark <;> decide
      exact List.mem_append_right _ (List.mem_filterMap.2
        ⟨mark, hall, Option.map_eq_some_iff.2 ⟨n, h, rfl⟩⟩)
    | _ =>
      rw [Pattern.matched?] at h
      exact List.mem_append_left _ (by simp [h])

/-- The longest match is a text of its token, and no token has a longer one. -/
theorem longest?_maximal (h : Pattern.longest? cs = some (t, n)) :
    n ≤ cs.length ∧ cs.take n ∈ t.language ∧
      ∀ u : Token, ∀ text ∈ u.language, text <+: cs → text.length ≤ n := by
  obtain ⟨hn, hmem⟩ := mem_language_of_candidate (Pattern.longest?_mem h)
  have hunreserved : ∀ u : Token, u.isReserved = false → ∀ text ∈ u.language, text <+: cs →
      text.length ≤ n := by
    intro u hu text htext hinitial
    obtain ⟨k, hk, hle⟩ := (longest_matched? hu).greatest text htext hinitial
    obtain ⟨v, hv⟩ := exists_candidate hk
    exact hle.trans (Pattern.le_longest? h _ hv)
  refine ⟨hn, hmem, fun u text htext hinitial => ?_⟩
  cases u with
  | reserved w => exact hunreserved .identifier rfl text (identifier_of_reserved htext) hinitial
  | _ => exact hunreserved _ rfl text htext hinitial

/-! Which tokens have a text in common. -/

/-- What a text is told apart by: its first character, or the first two. -/
inductive Family where
  | lineTerminator
  | lineComment
  | blockComment
  | word
  | decimal
  | hex
  | string
  | mark
deriving DecidableEq

def family : Token → Family
  | .lineTerminator => .lineTerminator
  | .lineComment => .lineComment
  | .blockComment => .blockComment
  | .reserved _ | .identifier => .word
  | .decimalLiteral => .decimal
  | .hexLiteral => .hex
  | .stringLiteral => .string
  | .punctuator _ => .mark

def Family.of : List Char → Family
  | [] => .mark
  | c :: rest =>
    if Text.isLineTerminator c then .lineTerminator
    else if Unicode.isNameStart c then .word
    else if Pattern.isQuote c then .string
    else if c == '/' && rest.head? == some '/' then .lineComment
    else if c == '/' && rest.head? == some '*' then .blockComment
    else if c == '0' && (rest.head? == some 'x' || rest.head? == some 'X') then .hex
    else if isDigit c || c == '.' && rest.head?.any isDigit then .decimal
    else .mark

theorem not_isNameStart_of_isLineTerminator {c : Char} (h : Text.isLineTerminator c = true) :
    Unicode.isNameStart c = false := by
  simp only [Text.isLineTerminator, Bool.or_eq_true, beq_iff_eq] at h
  rcases h with ((rfl | rfl) | rfl) | rfl <;> decide +kernel

theorem family_identifier (h : text ∈ language .identifier) : Family.of text = .word := by
  obtain ⟨c, rest, rfl, hc, -⟩ := mem_identifier.1 h
  have hline : Text.isLineTerminator c = false := by
    rw [Bool.eq_false_iff]
    intro hline
    rw [not_isNameStart_of_isLineTerminator hline] at hc
    cases hc
  simp [Family.of, hline, hc]

theorem isDigit_class {c : Char} (h : isDigit c = true) : Text.isLineTerminator c = false ∧
    Unicode.isNameStart c = false ∧ Pattern.isQuote c = false ∧ c ≠ '/' := by
  refine Text.of_ascii (P := fun d => isDigit d = true → Text.isLineTerminator d = false ∧
    Unicode.isNameStart d = false ∧ Pattern.isQuote d = false ∧ d ≠ '/') ?_
    (Text.ascii_of_isHexDigit (Text.isHexDigit_of_isDigit h)) h
  decide +kernel

theorem family_decimalLiteral (h : text ∈ language .decimalLiteral) :
    Family.of text = .decimal := by
  rw [language_decimalLiteral] at h
  rcases h with h | h
  · obtain ⟨digits, hdigits, tail, htail, rfl⟩ := mem_seq.1 h
    obtain ⟨hne, hall⟩ := mem_plus_oneOf.1 hdigits
    obtain ⟨d, digits, rfl⟩ := List.exists_cons_of_ne_nil hne
    rw [List.forall_mem_cons] at hall
    have hx : ∀ x, x = 'x' ∨ x = 'X' → (digits ++ tail).head? ≠ some x := by
      rintro x hx hhead
      cases digits with
      | nil =>
        cases tail with
        | nil => cases hhead
        | cons c tail =>
          cases hhead
          rcases head_of_mem_numberTail htail with rfl | rfl | rfl <;> simp at hx
      | cons e digits =>
        cases hhead
        have hdigit := hall.2 x List.mem_cons_self
        rcases hx with rfl | rfl <;> simp [isDigit] at hdigit
    obtain ⟨hline, hname, hquote, hslash⟩ := isDigit_class hall.1
    rw [List.cons_append]
    generalize digits ++ tail = rest at hx ⊢
    simp [Family.of, hline, hname, hquote, hslash, hall.1, hx]
  · obtain ⟨point, hpoint, tail, htail, rfl⟩ := mem_seq.1 h
    obtain ⟨digits, hdigits, tail, -, rfl⟩ := mem_seq.1 htail
    obtain ⟨hne, hall⟩ := mem_plus_oneOf.1 hdigits
    obtain ⟨d, digits, rfl⟩ := List.exists_cons_of_ne_nil hne
    obtain rfl := mem_char.1 hpoint
    have hname : Unicode.isNameStart '.' = false := by decide +kernel
    simp [Family.of, hname, Text.isLineTerminator, Pattern.isQuote, hall d List.mem_cons_self]

theorem family_comment {c : Char} {rest : List Char} (h : c = '/' ∨ c = '*') :
    Family.of ('/' :: c :: rest) = if c = '/' then .lineComment else .blockComment := by
  have hname := not_isNameStart (c := '/') (Or.inr (Or.inr rfl))
  rcases h with rfl | rfl <;> simp [Family.of, hname, Text.isLineTerminator, Pattern.isQuote]

theorem family_of_mem (h : text ∈ t.language) : Family.of text = t.family := by
  cases t with
  | lineTerminator =>
    rcases mem_lineTerminator.1 h with rfl | ⟨c, hc, rfl⟩
    · rfl
    · simp [Family.of, hc, family]
  | lineComment =>
    rw [language_of_pattern rfl] at h
    obtain ⟨start, hstart, body, -, rfl⟩ := mem_seq.1 h
    obtain rfl := mem_word.1 hstart
    exact family_comment (Or.inl rfl)
  | blockComment =>
    rw [language_of_pattern rfl] at h
    obtain ⟨start, hstart, body, -, rfl⟩ := mem_seq.1 h
    obtain rfl := mem_word.1 hstart
    exact family_comment (Or.inr rfl)
  | reserved w => exact family_identifier (identifier_of_reserved h)
  | identifier => exact family_identifier h
  | decimalLiteral => exact family_decimalLiteral h
  | hexLiteral =>
    rw [language_of_pattern rfl] at h
    obtain ⟨zero, hzero, _, hrest, rfl⟩ := mem_seq.1 h
    obtain ⟨_, hletter, digits, -, rfl⟩ := mem_seq.1 hrest
    obtain rfl := mem_char.1 hzero
    obtain ⟨x, hx, rfl⟩ := mem_among.1 hletter
    obtain ⟨hline, hname, hquote, hslash⟩ := isDigit_class (c := '0') (by decide)
    simp only [List.mem_cons, List.not_mem_nil, or_false] at hx
    simp [Family.of, hline, hname, hquote, hx, family]
  | stringLiteral =>
    obtain ⟨quote, hquote, hmem⟩ := mem_stringLiteral.1 h
    obtain ⟨body, -, rfl⟩ := mem_quoted.1 hmem
    have hname := not_isNameStart (Or.inr (Or.inl hquote))
    have hline : Text.isLineTerminator quote = false := by
      simp only [Pattern.isQuote, Bool.or_eq_true, beq_iff_eq] at hquote
      rcases hquote with rfl | rfl <;> decide
    simp [Family.of, hline, hname, hquote, family]
  | punctuator mark =>
    rw [mem_punctuator.1 h]
    cases mark <;> decide +kernel

/-- At most a reserved word and a name have a text in common. -/
theorem eq_or_identifier (h : text ∈ t.language) (hu : text ∈ u.language) :
    u = t ∨ (u = .identifier ∧ t.isReserved = true) ∨ (t = .identifier ∧ u.isReserved = true) := by
  have hfamily : t.family = u.family := (family_of_mem h).symm.trans (family_of_mem hu)
  cases t with
  | reserved w =>
    cases u with
    | reserved v =>
      have hspelling := (mem_reserved.1 h).symm.trans (mem_reserved.1 hu)
      have heq := ofSpelling?_spelling w
      rw [String.toList_inj.1 hspelling, ofSpelling?_spelling] at heq
      cases heq
      exact Or.inl rfl
    | identifier => exact Or.inr (Or.inl ⟨rfl, rfl⟩)
    | _ => cases hfamily
  | identifier =>
    cases u with
    | reserved v => exact Or.inr (Or.inr ⟨rfl, rfl⟩)
    | identifier => exact Or.inl rfl
    | _ => cases hfamily
  | punctuator mark =>
    cases u with
    | punctuator other =>
      have hspelling := (mem_punctuator.1 h).symm.trans (mem_punctuator.1 hu)
      have heq := ofWord?_spelling mark
      rw [String.toList_inj.1 hspelling, ofWord?_spelling] at heq
      cases heq
      exact Or.inl rfl
    | _ => cases hfamily
  | _ => cases u <;> first | exact Or.inl rfl | cases hfamily

/-! Comments. -/

theorem commentClose?_end (before after : List Char) :
    ∃ n, Pattern.commentClose? (before ++ '*' :: '/' :: after) = some n ∧
      n ≤ before.length + 2 := by
  induction before with
  | nil => exact ⟨2, rfl, Nat.le_refl 2⟩
  | cons c before ih =>
    obtain ⟨n, hn, hle⟩ := ih
    by_cases hend : ∃ tail, c = '*' ∧ before ++ '*' :: '/' :: after = '/' :: tail
    · obtain ⟨tail, rfl, htail⟩ := hend
      exact ⟨2, by rw [List.cons_append, htail]; rfl, Nat.le_add_left _ _⟩
    · rw [List.cons_append, Pattern.commentClose?_cons fun tail hc heq => hend ⟨tail, hc, heq⟩,
        hn]
      exact ⟨n + 1, rfl, by rw [List.length_cons]; omega⟩

/-- A comment ends with the first star and slash behind its opening. -/
theorem comment_ends {left right : List Char} (h : text ∈ language .blockComment)
    (htext : text = '/' :: '*' :: (left ++ '*' :: '/' :: right)) : right = [] := by
  rw [language_of_pattern rfl] at h
  obtain ⟨start, hstart, body, hbody, rfl⟩ := mem_seq.1 h
  obtain rfl := mem_word.1 hstart
  have hbodyText : body = left ++ '*' :: '/' :: right := by simpa using htext
  obtain ⟨n, hn, hle⟩ := commentClose?_end left right
  have hclose := Pattern.commentClose?_of_mem hbody []
  rw [List.append_nil, hbodyText, hn, Option.some.injEq] at hclose
  have hlength : right.length = 0 := by
    simp only [List.length_append, List.length_cons] at hclose
    omega
  exact List.length_eq_zero_iff.1 hlength

end Token

theorem Cursor.longest?_of_item {c d : Cursor} {l : Lexeme} (h : c.item = (.ok l, d)) :
    Token.Pattern.longest? c.rest = some (l.token, l.text.toList.length) := by
  unfold item at h
  split at h
  · rename_i token n hn
    cases h
    have hle := (Token.longest?_maximal hn).1
    rw [hn, text, String.toList_ofList, List.length_take, Nat.min_eq_left hle]
  · cases h

/-- Each lexeme is the longest match at its place in the text. -/
theorem Cursor.Runs.longest {c : Cursor} {items : List Lexeme.Item} {before : List Char}
    (h : c.Runs items) (hoffset : c.offset = byteLength before) : ∀ l, .ok l ∈ items →
    ∃ front after, before ++ c.rest = front ++ l.text.toList ++ after ∧
      l.span = ⟨byteLength front, byteLength (front ++ l.text.toList)⟩ ∧
      Token.Pattern.longest? (l.text.toList ++ after) = some (l.token, l.text.toList.length) := by
  induction h generalizing before with
  | done => simp
  | @next c d i items h _ ih =>
    obtain ⟨gap, -, hrest, -, hspan, hstop⟩ := next?_eq h
    intro l hl
    rcases List.mem_cons.1 hl with rfl | hl
    · obtain ⟨hne, hitem⟩ := next?_eq_some.1 h
      have hlongest := longest?_of_item hitem
      rw [(item_eq hne hitem).2.1] at hlongest
      refine ⟨before ++ gap, d.rest, ?_, ?_, hlongest⟩
      · rw [hrest, List.append_assoc, List.append_assoc, List.append_assoc]
        rfl
      · change l.span = _ at hspan
        rw [hspan, hstop, hoffset]
        simp only [Text.byteLength_append]
        rfl
    · have hd : d.offset = byteLength (before ++ gap ++ i.text.toList) := by
        simp only [hstop, hoffset, Text.byteLength_append]
      simpa [hrest] using ih hd l hl

/-- A token that is cut from the text `rest` as its patterns say, and no token has more of it. -/
structure Lexeme.LongestAt (l : Lexeme) (rest : List Char) : Prop where
  starts : l.text.toList <+: rest
  matched : l.text.toList ∈ l.token.language
  longest : ∀ t : Token, ∀ text ∈ t.language, text <+: rest → text.length ≤ l.text.toList.length
  /-- Another token with this text is the name that a reserved word wins over. -/
  only : ∀ t : Token, l.text.toList ∈ t.language →
    t = l.token ∨ (t = .identifier ∧ l.token.isReserved = true)
  /-- A comment ends with the first star and slash behind its opening. -/
  comment : l.token = .blockComment → ∀ left right,
    l.text.toList = '/' :: '*' :: (left ++ '*' :: '/' :: right) → right = []
  name : l.token = .identifier → ∀ w : ReservedWord, l.text ≠ w.spelling

theorem Lexeme.longestAt_of_longest? {l : Lexeme} {after : List Char}
    (h : Token.Pattern.longest? (l.text.toList ++ after) =
      some (l.token, l.text.toList.length)) : l.LongestAt (l.text.toList ++ after) := by
  obtain ⟨-, hmem, hmax⟩ := Token.longest?_maximal h
  rw [List.take_left] at hmem
  have hword : l.token = .identifier → ∀ w : ReservedWord,
      l.text.toList ∉ Token.language (.reserved w) := by
    intro hname w hw
    have htoken := (Token.Pattern.mem_candidates (Token.Pattern.longest?_mem h)).2
      (Or.inl hname)
    rw [List.take_left, Token.wordToken_eq_reserved.2 hw, hname] at htoken
    cases htoken
  constructor
  case starts => exact List.prefix_append _ _
  case matched => exact hmem
  case longest => exact hmax
  case only =>
    intro t ht
    rcases Token.eq_or_identifier hmem ht with heq | hname | ⟨hname, hreserved⟩
    · exact Or.inl heq
    · exact Or.inr hname
    · cases t with
      | reserved w => exact absurd ht (hword hname w)
      | _ => cases hreserved
  case comment =>
    rintro hcomment left right htext
    exact Token.comment_ends (hcomment ▸ hmem) htext
  case name => exact fun hname w heq => hword hname w (Token.mem_reserved.2 (by rw [heq]))

/-- Every token of a text stands at its place in the text, and is the longest one there. -/
theorem Lexeme.tokenize_maximal {source : String} {lexemes : List Lexeme}
    (h : tokenize source = .ok lexemes) : ∀ l ∈ lexemes, ∃ before rest,
      source.toList = before ++ rest ∧
      l.span = ⟨byteLength before, byteLength (before ++ l.text.toList)⟩ ∧ l.LongestAt rest := by
  intro l hl
  have hscan : Except.ok l ∈ (Cursor.ofString source).items := by
    change _ ∈ scan source
    rw [tokenize_eq_ok.1 h]
    exact List.mem_map_of_mem hl
  have hstart : (Cursor.ofString source).offset = byteLength [] := rfl
  obtain ⟨before, after, hsource, hspan, hlongest⟩ :=
    Cursor.Runs.longest (Cursor.runs_iff.2 rfl) hstart l hscan
  rw [List.append_assoc] at hsource
  exact ⟨before, l.text.toList ++ after, hsource, hspan, longestAt_of_longest? hlongest⟩

theorem Lexeme.tokenize_maximal_word :
    tokenize "in/*/*/" =
      .ok [⟨.reserved .«in», "in", ⟨0, 2⟩⟩, ⟨.blockComment, "/*/*/", ⟨2, 7⟩⟩] ∧
    ∀ l ∈ ([⟨.reserved .«in», "in", ⟨0, 2⟩⟩, ⟨.blockComment, "/*/*/", ⟨2, 7⟩⟩] : List Lexeme),
      ∃ before rest, "in/*/*/".toList = before ++ rest ∧
        l.span = ⟨byteLength before, byteLength (before ++ l.text.toList)⟩ ∧
        l.LongestAt rest := by
  have h : tokenize "in/*/*/" =
      .ok [⟨.reserved .«in», "in", ⟨0, 2⟩⟩, ⟨.blockComment, "/*/*/", ⟨2, 7⟩⟩] := by
    decide +kernel
  exact ⟨h, tokenize_maximal h⟩

/-- The star of its opening does not end a comment, but may stand before a slash. -/
theorem Lexeme.comment_end_inside :
    tokenize "/*/*/" = .ok [⟨.blockComment, "/*/*/", ⟨0, 5⟩⟩] ∧
      ¬∀ left right, "/*/*/".toList = left ++ '*' :: '/' :: right → right = [] := by
  refine ⟨by decide +kernel, fun h => ?_⟩
  have hright := h ['/'] ['*', '/'] (by decide)
  cases hright

end Ecma3
