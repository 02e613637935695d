import Ecma3.Proofs.Grammar.Coherent
import Ecma3.Proofs.Token.Cover
import Ecma3.Proofs.Token.Word

/-!
Texts with more after them on a new line. What stands before the line feed is cut into the same
lexemes, unless a comment is opened there and closed only in the text after it.
-/
namespace Ecma3

open Text (byteLength isDigit isHexDigit)

variable {cs more : List Char} {c d : Cursor} {t : Token} {l : Lexeme} {n k : Nat}
  {lineBreak broken : Bool} {found : Option Lexeme.Item}

theorem Token.not_opens_lineTerminator {c : Char} (h : c = '\n' ∨ c = '\r') :
    t.opens c = false := by
  have hname : Unicode.isNameStart c = false := by rcases h with rfl | rfl <;> decide +kernel
  rcases h with rfl | rfl <;>
    cases t with
    | reserved | identifier => exact hname
    | punctuator p => cases p <;> decide
    | _ => decide

theorem Token.not_trivia_of_matched {c : Char} (h : Pattern.matched? (c :: cs) t = some n)
    (hslash : c ≠ '/') (hline : Text.isLineTerminator c = false) : t.isTrivia = false := by
  cases t with
  | lineTerminator =>
    have hreturn : c ≠ '\r' := by
      rintro rfl
      cases hline
    rw [Pattern.matched?, Pattern.lineTerminator?_cons c cs (fun _ heq => (hreturn heq).elim)] at h
    simp [hline] at h
  | lineComment =>
    rw [Pattern.matched?, Pattern.lineComment?_of_ne (by simp [hslash])] at h
    cases h
  | blockComment =>
    rw [Pattern.matched?, Pattern.blockComment?_of_ne (by simp [hslash])] at h
    cases h
  | _ => rfl

namespace Token.Pattern

theorem lineComment?_append_lineFeed (cs more : List Char) :
    lineComment? (cs ++ '\n' :: more) = lineComment? cs := by
  by_cases h : ∃ tail, cs = '/' :: '/' :: tail
  · obtain ⟨tail, rfl⟩ := h
    have hrun := run_append_stop (p := (!Text.isLineTerminator ·)) (d := '\n') rfl tail more
    simp only [List.cons_append, lineComment?, hrun]
  · have hcs : ∀ tail, cs ≠ '/' :: '/' :: tail := fun tail heq => h ⟨tail, heq⟩
    rw [lineComment?_of_ne hcs, lineComment?_of_ne]
    cases cs with
    | nil => simp
    | cons c cs => exact append_ne_cons_cons (by decide) (by simp) hcs

theorem stringBody_append_lineFeed {quote : Char} (hquote : quote ≠ '\n') (cs more : List Char) :
    stringBody quote (cs ++ '\n' :: more) = stringBody quote cs := by
  fun_induction stringBody quote cs with
  | case1 => simp [stringBody_cons, hquote.symm, breaksString]
  | case2 => simp [stringBody, breaksString]
  | case3 c cs hc => simp [stringBody, hc]
  | case4 c cs hc length closed hb ih => simp [stringBody, hc, ih, hb]
  | case5 cs hlone hescape =>
    have hc : quote ≠ '\\' := by
      rintro rfl
      cases cs with
      | nil => exact hlone rfl rfl
      | cons c cs => exact hescape c cs rfl rfl
    rw [List.cons_append, stringBody_cons hc, if_pos rfl]
  | case6 c cs hlone hescape hq hb =>
    have hc : c ≠ '\\' := by
      rintro rfl
      cases hb
    rw [List.cons_append, stringBody_cons hc, if_neg hq, if_pos hb]
  | case7 c cs hlone hescape hq hb length closed hr ih =>
    have hc : c ≠ '\\' := by
      rintro rfl
      cases cs with
      | nil => exact hlone rfl rfl
      | cons c cs => exact hescape c cs rfl rfl
    rw [List.cons_append, stringBody_cons hc, if_neg hq, if_neg hb, ih, hr]

theorem string?_append_lineFeed (cs more : List Char) :
    string? (cs ++ '\n' :: more) = string? cs := by
  cases cs with
  | nil => rfl
  | cons c cs =>
    simp only [List.cons_append, string?]
    by_cases hc : isQuote c = true
    · have hquote : c ≠ '\n' := by
        rintro rfl
        cases hc
      simp only [stringBody_append_lineFeed hquote]
    · simp [hc]

theorem commentClose?_infix (h : commentClose? cs = some n) : ['*', '/'] <:+: cs := by
  fun_induction commentClose? cs generalizing n with
  | case1 => cases h
  | case2 rest => exact (List.prefix_append ['*', '/'] rest).isInfix
  | case3 c rest _ ih =>
    obtain ⟨k, hk, -⟩ := Option.map_eq_some_iff.1 h
    exact (ih hk).trans (List.suffix_cons c rest).isInfix

theorem commentClose?_append (h : commentClose? cs = some n) (rest : List Char) :
    commentClose? (cs ++ rest) = some n := by
  fun_induction commentClose? cs generalizing n with
  | case1 => cases h
  | case2 => exact h
  | case3 c tail hne ih =>
    obtain ⟨k, hk, rfl⟩ := Option.map_eq_some_iff.1 h
    rw [List.cons_append, commentClose?_cons, ih hk, Option.map_some]
    intro more hc htail
    cases tail with
    | nil => cases hk
    | cons e tail =>
      rw [List.cons_append, List.cons.injEq] at htail
      exact hne tail hc (by rw [htail.1])

/-- A comment that is not closed before the line feed is closed after it or not at all. -/
theorem commentClose?_append_lineFeed (h : commentClose? cs = none)
    (hclose : commentClose? (cs ++ '\n' :: more) = some n) : ['*', '/'] <:+: more := by
  fun_induction commentClose? cs generalizing n with
  | case1 =>
    rw [List.nil_append, commentClose?_cons (by simp)] at hclose
    obtain ⟨k, hk, -⟩ := Option.map_eq_some_iff.1 hclose
    exact commentClose?_infix hk
  | case2 => cases h
  | case3 c rest hne ih =>
    rw [List.cons_append, commentClose?_cons] at hclose
    · obtain ⟨k, hk, -⟩ := Option.map_eq_some_iff.1 hclose
      exact ih (Option.map_eq_none_iff.1 h) hk
    · intro tail hc htail
      cases rest with
      | nil => cases htail
      | cons e rest =>
        rw [List.cons_append, List.cons.injEq] at htail
        exact hne rest hc (by rw [htail.1])

/-- The text opens a comment that is closed only in what follows. -/
def Straddles (cs more : List Char) : Prop :=
  (∃ rest, cs = '/' :: '*' :: rest) ∧ blockComment? cs = none ∧ ['*', '/'] <:+: more

theorem blockComment?_append_lineFeed (cs more : List Char) :
    blockComment? (cs ++ '\n' :: more) = blockComment? cs ∨ Straddles cs more := by
  by_cases h : ∃ rest, cs = '/' :: '*' :: rest
  · obtain ⟨rest, rfl⟩ := h
    simp only [List.cons_append, blockComment?]
    cases hclose : commentClose? rest with
    | some n => exact Or.inl (by rw [commentClose?_append hclose])
    | none =>
      cases hclose' : commentClose? (rest ++ '\n' :: more) with
      | none => exact Or.inl rfl
      | some n =>
        exact Or.inr ⟨⟨rest, rfl⟩, by rw [blockComment?, hclose, Option.map_none],
          commentClose?_append_lineFeed hclose hclose'⟩
  · have hcs : ∀ tail, cs ≠ '/' :: '*' :: tail := fun tail heq => h ⟨tail, heq⟩
    refine Or.inl ?_
    rw [blockComment?_of_ne hcs, blockComment?_of_ne]
    cases cs with
    | nil => simp
    | cons c cs => exact append_ne_cons_cons (by decide) (by simp) hcs

theorem candidates_append_lineFeed (hne : cs ≠ []) (hreturn : cs ≠ ['\r']) :
    candidates (cs ++ '\n' :: more) = candidates cs ∨ Straddles cs more :=
  (blockComment?_append_lineFeed cs more).imp_left fun hblock =>
    candidates_append_stop stops_lineFeed hne (fun _ => hreturn)
      (lineComment?_append_lineFeed cs more) hblock (string?_append_lineFeed cs more)

theorem longest?_append_lineFeed (hne : cs ≠ []) (hreturn : cs ≠ ['\r']) :
    longest? (cs ++ '\n' :: more) = longest? cs ∨ Straddles cs more :=
  (candidates_append_lineFeed hne hreturn).imp_left fun h => by rw [longest?, longest?, h]

theorem longest?_isSome {m : Token × Nat} (h : m ∈ candidates cs) : (longest? cs).isSome := by
  unfold longest?
  split
  · simp_all
  · rfl

/-- A line terminator is one whatever follows it. -/
theorem longest?_lineTerminator {c : Char} (hc : c = '\n' ∨ c = '\r')
    (h : lineTerminator? (c :: cs) = some n) :
    longest? (c :: cs) = some (.lineTerminator, n) := by
  have hmem : (Token.lineTerminator, n) ∈ candidates (c :: cs) := by
    simp [candidates, h]
  obtain ⟨⟨t, k⟩, hlongest⟩ := Option.isSome_iff_exists.1 (longest?_isSome hmem)
  have hmatched := longest?_matched hlongest
  have hslash : c ≠ '/' := by rcases hc with rfl | rfl <;> decide
  have ht : t = .lineTerminator := by
    cases htrivia : t.isTrivia with
    | false =>
      have hopens := opens_of_matched hmatched htrivia
      rw [not_opens_lineTerminator hc] at hopens
      cases hopens
    | true =>
      cases t with
      | lineTerminator => rfl
      | lineComment =>
        rw [matched?, lineComment?_of_ne (by simp [hslash])] at hmatched
        cases hmatched
      | blockComment =>
        rw [matched?, blockComment?_of_ne (by simp [hslash])] at hmatched
        cases hmatched
      | _ => cases htrivia
  subst ht
  rw [hlongest, Option.some.inj (hmatched.symm.trans h)]

/-- An open comment reads as a slash. -/
theorem longest?_of_straddles (h : Straddles cs more) :
    longest? cs = some (.punctuator .slash, 1) := by
  obtain ⟨⟨rest, rfl⟩, hblock, -⟩ := h
  have hslash : (Token.punctuator .slash, 1) ∈ candidates ('/' :: '*' :: rest) := by
    exact List.mem_append_right _ (List.mem_filterMap.2 ⟨.slash, by decide, rfl⟩)
  obtain ⟨⟨t, n⟩, hlongest⟩ := Option.isSome_iff_exists.1 (longest?_isSome hslash)
  have hmatched := longest?_matched hlongest
  have htrivia : t.isTrivia = false := by
    cases t with
    | lineTerminator => cases hmatched
    | lineComment => cases hmatched
    | blockComment =>
      rw [matched?, hblock] at hmatched
      cases hmatched
    | _ => rfl
  obtain ⟨p, rfl⟩ := punctuator_of_opens_slash (opens_of_matched hmatched htrivia)
  simp only [matched?, spelled?, Option.ite_none_right_eq_some, Option.some.injEq] at hmatched
  obtain ⟨hspelling, rfl⟩ := hmatched
  rw [hlongest]
  cases p
  case slash => rfl
  all_goals simp [Punctuator.spelling] at hspelling

/-! Names and numbers have no semicolons and no quotes, and only a semicolon ends in one. -/

/-- A character of no name and no number. -/
structure Foreign (d : Char) : Prop where
  name : Unicode.isNameStart d = false ∧ Unicode.isNamePart d = false
  digit : isDigit d = false
  hexDigit : isHexDigit d = false
  part : d ∉ ['.', '+', '-', 'e', 'E', '0', 'x', 'X']

theorem foreign_semicolon : Foreign ';' := ⟨by decide, by decide, by decide, by decide⟩

theorem foreign_quote {d : Char} (h : isQuote d = true) : Foreign d := by
  simp only [isQuote, Bool.or_eq_true, beq_iff_eq] at h
  rcases h with rfl | rfl <;> exact ⟨by decide, by decide, by decide, by decide⟩

section Foreign

variable {d : Char}

theorem Foreign.ne (hd : Foreign d) {c : Char}
    (hc : c ∈ ['.', '+', '-', 'e', 'E', '0', 'x', 'X']) : d ≠ c := by
  rintro rfl
  exact hd.part hc

theorem notMem_take_run {p : Char → Bool} (h : p d = false) (cs : List Char) :
    d ∉ cs.take (run p cs) := by
  rw [take_run]
  intro hd
  have hp := List.all_eq_true.1 (List.all_takeWhile (l := cs) (p := p)) d hd
  simp [h] at hp

variable (hd : Foreign d)
include hd

theorem notMem_name (h : name? cs = some n) : d ∉ cs.take n := by
  cases cs with
  | nil => cases h
  | cons c cs =>
    simp only [name?, Option.ite_none_right_eq_some, Option.some.injEq] at h
    obtain ⟨hc, rfl⟩ := h
    rw [Nat.add_comm, List.take_succ_cons, List.mem_cons, not_or]
    refine ⟨?_, notMem_take_run hd.name.2 cs⟩
    rintro rfl
    simp [hd.name.1] at hc

theorem notMem_fraction (cs : List Char) : d ∉ cs.take (fraction cs) := by
  unfold fraction
  split
  · rename_i rest
    rw [Nat.add_comm, List.take_succ_cons, List.mem_cons, not_or]
    exact ⟨hd.ne (by simp), notMem_take_run hd.digit rest⟩
  · simp

theorem notMem_sign (cs : List Char) : d ∉ cs.take (sign cs) := by
  have hplus : d ≠ '+' := hd.ne (by simp)
  have hminus : d ≠ '-' := hd.ne (by simp)
  unfold sign
  split <;> simp [hplus, hminus]

theorem notMem_exponent (cs : List Char) : d ∉ cs.take (exponent cs) := by
  cases cs with
  | nil => simp
  | cons c cs =>
    unfold exponent
    dsimp only
    split
    · rename_i hc
      split
      · simp
      · rw [Nat.add_assoc, Nat.add_comm, List.take_succ_cons, List.mem_cons, not_or, List.take_add,
          List.mem_append, not_or]
        refine ⟨hd.ne ?_, notMem_sign hd cs, notMem_take_run hd.digit _⟩
        simp only [Bool.or_eq_true, beq_iff_eq] at hc
        rcases hc with rfl | rfl <;> simp
    · simp

theorem notMem_decimal (h : decimal? cs = some n) : d ∉ cs.take n := by
  simp only [decimal?, Option.ite_none_left_eq_some, Option.some.injEq] at h
  obtain ⟨-, rfl⟩ := h
  rw [List.take_add, List.take_add, List.mem_append, List.mem_append, not_or, not_or]
  exact ⟨⟨notMem_take_run hd.digit cs, notMem_fraction hd _⟩, notMem_exponent hd _⟩

theorem notMem_hex (h : hex? cs = some n) : d ∉ cs.take n := by
  unfold hex? at h
  split at h
  · rename_i x rest
    simp only [Option.ite_none_right_eq_some, Bool.and_eq_true, Bool.or_eq_true, beq_iff_eq,
      Option.some.injEq] at h
    obtain ⟨⟨hx, -⟩, rfl⟩ := h
    rw [Nat.add_comm, List.take_succ_cons, List.take_succ_cons, List.mem_cons, List.mem_cons,
      not_or, not_or]
    refine ⟨hd.ne (by simp), hd.ne ?_, notMem_take_run hd.hexDigit rest⟩
    rcases hx with rfl | rfl <;> simp
  · cases h

end Foreign

/-- A token with a grammatical role does not end in a semicolon unless it is one. -/
theorem getLast?_ne_semicolon (h : longest? cs = some (t, n)) (htrivia : t.isTrivia = false)
    (ht : t ≠ .punctuator .semicolon) : (cs.take n).getLast? ≠ some ';' := by
  have hmatched := longest?_matched h
  have hmem : ';' ∉ cs.take n → (cs.take n).getLast? ≠ some ';' := fun hnot hlast =>
    hnot (List.mem_of_getLast? hlast)
  cases t with
  | lineTerminator | lineComment | blockComment => cases htrivia
  | reserved | identifier => exact hmem (notMem_name foreign_semicolon hmatched)
  | decimalLiteral => exact hmem (notMem_decimal foreign_semicolon hmatched)
  | hexLiteral => exact hmem (notMem_hex foreign_semicolon hmatched)
  | stringLiteral =>
    obtain ⟨quote, body, hquote, htext⟩ := string?_text hmatched
    rw [htext, ← List.cons_append, List.getLast?_concat]
    rintro ⟨⟩
    cases hquote
  | punctuator p =>
    simp only [matched?, spelled?, Option.ite_none_right_eq_some, List.isPrefixOf_iff_prefix,
      Option.some.injEq] at hmatched
    obtain ⟨⟨rest, rfl⟩, rfl⟩ := hmatched
    rw [← String.length_toList, List.take_left' rfl]
    cases p <;> first | exact (ht rfl).elim | decide

end Token.Pattern

namespace Token.RegexLiteral

theorem body?_le {inClass : Bool} (h : body? inClass cs = some n) : n ≤ cs.length := by
  fun_induction body? inClass cs generalizing n <;> grind [Option.map_eq_some_iff]

theorem body?_append {inClass : Bool} (h : body? inClass cs = some n) (rest : List Char) :
    body? inClass (cs ++ rest) = some n := by
  fun_induction body? inClass cs generalizing n with
  | case1 => cases h
  | case2 => cases h
  | case3 inClass c cs hc ih =>
    obtain ⟨k, hk, rfl⟩ := Option.map_eq_some_iff.1 h
    simp only [List.cons_append, body?, hc, Bool.false_eq_true, if_false, ih hk, Option.map_some]
  | case4 => cases h
  | case5 inClass c cs _ hc hslash =>
    have hne : c ≠ '\\' := by
      rintro rfl
      simp at hslash
    rw [List.cons_append, body?, if_neg hc, if_pos hslash, h]
    exact fun _ _ heq => (hne heq).elim
  | case6 inClass c cs hescape hc hslash ih =>
    obtain ⟨k, hk, rfl⟩ := Option.map_eq_some_iff.1 h
    rw [List.cons_append, body?, if_neg hc, if_neg hslash, ih hk, Option.map_some]
    intro e tail hbackslash htail
    cases cs with
    | nil => cases hk
    | cons e' cs => exact hescape e' cs hbackslash rfl

theorem length?_le (h : length? cs = some n) : n ≤ cs.length := by
  cases cs with
  | nil => cases h
  | cons first cs =>
    simp only [length?, Option.bind_eq_bind, Option.bind_eq_some_iff, Option.pure_def,
      Option.some.injEq] at h
    obtain ⟨k, hk, rfl⟩ := h
    have hbody := body?_le hk
    have hflags := Pattern.run_le isFlag (cs.drop k)
    simp only [Pattern.run, List.length_drop] at hflags
    simp only [List.length_cons]
    omega

/-- No regular expression goes on to the next line. -/
theorem length?_append_lineFeed (h : length? cs = some n) (more : List Char) :
    length? (cs ++ '\n' :: more) = some n := by
  cases cs with
  | nil => cases h
  | cons first cs =>
    simp only [length?, Option.bind_eq_bind, Option.bind_eq_some_iff, Option.pure_def,
      Option.some.injEq] at h
    obtain ⟨k, hk, rfl⟩ := h
    have hflags :=
      Pattern.run_append_stop (p := isFlag) (d := '\n') (by decide +kernel) (cs.drop k) more
    simp only [Pattern.run] at hflags
    simp only [List.cons_append, length?, body?_append hk, Option.bind_eq_bind, Option.bind_some,
      List.drop_append_of_le_length (body?_le hk), hflags, Option.pure_def]

theorem take_length? (h : length? cs = some n) : ∃ first body flags,
    cs.take n = first :: (body ++ '/' :: flags) ∧ ∀ c ∈ flags, isFlag c = true := by
  cases cs with
  | nil => cases h
  | cons first cs =>
    have hslash : length? ('/' :: cs) = some n := h
    obtain ⟨body, flags, htext, hflags, -⟩ := length?_text hslash
    cases n with
    | zero => cases htext
    | succ n =>
      rw [List.take_succ_cons, List.cons.injEq] at htext
      exact ⟨first, body, flags, by rw [List.take_succ_cons, htext.2], hflags⟩

end Token.RegexLiteral

/-- The same lexeme further on in a text. -/
def Lexeme.shift (k : Nat) (l : Lexeme) : Lexeme :=
  ⟨l.token, l.text, ⟨l.span.start + k, l.span.stop + k⟩⟩

namespace Cursor
open Token.Pattern

/-- The same place in a text that goes on with `more` on a new line. -/
def followedBy (c : Cursor) (more : List Char) : Cursor := ⟨c.offset, c.rest ++ '\n' :: more⟩

/-- Where the text of the cursor ends. -/
def stop (c : Cursor) : Nat := c.offset + byteLength c.rest

/-- The cursor behind the text and the line feed. -/
def past (c : Cursor) (more : List Char) : Cursor := ⟨c.stop + 1, more⟩

@[simp] theorem advance_stop (c : Cursor) (n : Nat) : (c.advance n).stop = c.stop := by
  have hcut := Text.byteLength_append (c.rest.take n) (c.rest.drop n)
  rw [List.take_append_drop] at hcut
  simp only [stop, advance]
  omega

theorem next?_stop {i : Lexeme.Item} (h : c.next? = some (i, d)) : d.stop = c.stop := by
  obtain ⟨-, h⟩ := next?_eq_some.1 h
  have hskip : c.skipBlanks.stop = c.stop := advance_stop c _
  rw [← hskip]
  unfold item at h
  split at h <;> cases h <;> exact advance_stop _ _

theorem advance_followedBy (h : n ≤ c.rest.length) :
    (c.followedBy more).advance n = (c.advance n).followedBy more := by
  simp [followedBy, advance, List.take_append_of_le_length h, List.drop_append_of_le_length h]

theorem skipBlanks_followedBy : (c.followedBy more).skipBlanks = c.skipBlanks.followedBy more := by
  have hrun : run isBlank (c.followedBy more).rest = run isBlank c.rest :=
    run_append_stop (d := '\n') (by decide) c.rest more
  rw [skipBlanks, hrun, advance_followedBy (run_le _ _)]
  rfl

theorem item_followedBy (hne : c.rest ≠ []) (hreturn : c.rest ≠ ['\r']) (h : c.item = (.ok l, d)) :
    (c.followedBy more).item = (.ok l, d.followedBy more) ∨ Straddles c.rest more := by
  obtain ⟨n, hn, htext, hspan, rfl⟩ := item_ok h
  refine (longest?_append_lineFeed hne hreturn).imp_left fun hlongest => ?_
  have hle : n ≤ c.rest.length := matched?_le (longest?_matched hn)
  have hlongest' : longest? (c.followedBy more).rest = some (l.token, n) := hlongest.trans hn
  have htext' : (c.followedBy more).text n = c.text n := by
    simp only [text, followedBy, List.take_append_of_le_length hle]
  have hspan' : (c.followedBy more).span n = c.span n := by
    simp only [span, advance_followedBy hle]
    rfl
  rw [item, hlongest']
  simp only [htext', hspan', advance_followedBy hle, ← htext, ← hspan]

/-- A line feed is a lexeme of its own, or ends a line together with a carriage return. -/
theorem item_lineFeed (more : List Char) (h : c.rest = [] ∨ c.rest = ['\r']) :
    ∃ l, (c.followedBy more).item = (.ok l, c.past more) ∧ l.token = .lineTerminator ∧
      l.breaksLine = true := by
  have hlongest : longest? (c.followedBy more).rest =
      some (.lineTerminator, c.rest.length + 1) := by
    simp only [followedBy]
    rcases h with h | h <;> rw [h]
    · exact longest?_lineTerminator (Or.inl rfl) rfl
    · exact longest?_lineTerminator (Or.inr rfl) rfl
  have htake : (c.followedBy more).rest.take (c.rest.length + 1) = c.rest ++ ['\n'] := by
    simp [followedBy, List.take_append, List.take_of_length_le]
  refine ⟨⟨.lineTerminator, (c.followedBy more).text (c.rest.length + 1),
    (c.followedBy more).span (c.rest.length + 1)⟩, ?_, rfl, ?_⟩
  · have hadvance : (c.followedBy more).advance (c.rest.length + 1) = c.past more := by
      have hlineFeed : byteLength ['\n'] = 1 := by decide
      rw [advance, htake, Text.byteLength_append, hlineFeed, past, stop, Nat.add_assoc]
      simp [followedBy]
    rw [item, hlongest]
    simp only [hadvance]
  · have hlineFeed : Text.isLineTerminator '\n' = true := by decide
    simp [Lexeme.breaksLine, text, htake, hlineFeed]

/-- A comment is open here that is closed in the text after it. -/
def Snags (d : Cursor) (l : Lexeme) (more : List Char) : Prop :=
  l.token = .punctuator .slash ∧ d.rest.head? = some '*' ∧ ['*', '/'] <:+: more

theorem item_of_straddles (h : Straddles c.rest more) (hitem : c.item = (.ok l, d)) :
    d.Snags l more := by
  rw [item, longest?_of_straddles h] at hitem
  cases hitem
  obtain ⟨⟨rest, hrest⟩, -, hclose⟩ := h
  exact ⟨rfl, by simp [advance, hrest], hclose⟩

theorem next?_of_item {i : Lexeme.Item} (h : (c.skipBlanks.followedBy more).item = (i, d)) :
    (c.followedBy more).next? = some (i, d) := by
  rw [next?_eq_some, skipBlanks_followedBy]
  exact ⟨by simp [followedBy], h⟩

theorem skipBlanks_past : c.skipBlanks.past more = c.past more := by
  rw [past, past, skipBlanks, advance_stop]

/-- Behind the text there is the line feed. -/
theorem next?_lineFeed (more : List Char)
    (h : c.skipBlanks.rest = [] ∨ c.skipBlanks.rest = ['\r']) :
    ∃ l, (c.followedBy more).next? = some (.ok l, c.past more) ∧ l.token = .lineTerminator ∧
      l.breaksLine = true := by
  obtain ⟨l, hitem, hl⟩ := item_lineFeed more h
  rw [skipBlanks_past] at hitem
  exact ⟨l, next?_of_item hitem, hl⟩

theorem next?_followedBy (more : List Char) (h : c.next? = some (.ok l, d))
    (hreturn : c.skipBlanks.rest ≠ ['\r']) :
    (c.followedBy more).next? = some (.ok l, d.followedBy more) ∨ d.Snags l more := by
  obtain ⟨hne, hitem⟩ := next?_eq_some.1 h
  exact (item_followedBy hne hreturn hitem).imp next?_of_item fun h => item_of_straddles h hitem

/-- A carriage return at the end of a text is the last lexeme. -/
theorem next?_return (h : c.skipBlanks.rest = ['\r']) (hnext : c.next? = some (.ok l, d)) :
    l.token.isTrivia = true ∧ d.rest = [] := by
  have hlongest : longest? c.skipBlanks.rest = some (.lineTerminator, 1) := by
    rw [h]
    exact longest?_lineTerminator (Or.inr rfl) rfl
  obtain ⟨-, hitem⟩ := next?_eq_some.1 hnext
  rw [item, hlongest] at hitem
  cases hitem
  exact ⟨rfl, by simp [advance, h]⟩

/-- What is significant in a text comes with more after it in the same way, but for a slash that
opens a comment then. -/
theorem nextSignificant_followedBy (h : c.nextSignificant lineBreak = (some (.ok l), broken, d)) :
    (c.followedBy more).nextSignificant lineBreak = (some (.ok l), broken, d.followedBy more) ∨
      d.Snags l more := by
  fun_induction nextSignificant lineBreak c with
  | case1 => cases h
  | case2 => cases h
  | case3 lineBreak c l' k hk htrivia ih =>
    by_cases hreturn : c.skipBlanks.rest = ['\r']
    · rw [nextSignificant_nil (next?_return hreturn hk).2] at h
      cases h
    · rcases next?_followedBy more hk hreturn with hk' | hsnag
      · rw [nextSignificant_eq, hk']
        simpa only [htrivia, if_true] using ih h
      · rw [hsnag.1] at htrivia
        cases htrivia
  | case4 lineBreak c l' k hk htrivia =>
    cases h
    by_cases hreturn : c.skipBlanks.rest = ['\r']
    · exact (htrivia (next?_return hreturn hk).1).elim
    · refine (next?_followedBy more hk hreturn).imp_left fun hk' => ?_
      rw [nextSignificant_eq, hk']
      simp only [htrivia, Bool.false_eq_true, if_false]

/-- Where nothing significant is left, what comes next is the first of what follows, on a line of
its own. -/
theorem nextSignificant_past (h : c.nextSignificant lineBreak = (none, broken, d)) :
    (c.followedBy more).nextSignificant lineBreak = (c.past more).nextSignificant true := by
  have hbreak : ∀ {lineBreak : Bool} {c : Cursor},
      c.skipBlanks.rest = [] ∨ c.skipBlanks.rest = ['\r'] →
      (c.followedBy more).nextSignificant lineBreak = (c.past more).nextSignificant true := by
    intro lineBreak c hend
    obtain ⟨l, hnext, htoken, hbreaks⟩ := next?_lineFeed more hend
    rw [nextSignificant_eq, hnext]
    simp [htoken, hbreaks, Token.isTrivia]
  fun_induction nextSignificant lineBreak c with
  | case1 lineBreak c hnone =>
    exact hbreak (Or.inl (next?_eq_none.1 hnone))
  | case2 => cases h
  | case3 lineBreak c l k hk htrivia ih =>
    by_cases hreturn : c.skipBlanks.rest = ['\r']
    · exact hbreak (Or.inr hreturn)
    · rcases next?_followedBy more hk hreturn with hk' | hsnag
      · have hpast : k.past more = c.past more := by rw [past, past, next?_stop hk]
        rw [nextSignificant_eq, hk', ← hpast]
        simpa only [htrivia, if_true] using ih h
      · rw [hsnag.1] at htrivia
        cases htrivia
  | case4 => cases h

/-- The same text further on. -/
def shift (k : Nat) (c : Cursor) : Cursor := ⟨c.offset + k, c.rest⟩

theorem item_shift (k : Nat) (h : c.item = (.ok l, d)) :
    (c.shift k).item = (.ok (l.shift k), d.shift k) := by
  obtain ⟨n, hn, htext, hspan, rfl⟩ := item_ok h
  have hn' : longest? (c.shift k).rest = some (l.token, n) := hn
  rw [item, hn']
  simp only [Lexeme.shift, htext, hspan, text, span, advance, shift, Nat.add_right_comm]

theorem skipBlanks_shift (k : Nat) : (c.shift k).skipBlanks = c.skipBlanks.shift k := by
  simp only [skipBlanks, advance, shift, Nat.add_right_comm]

theorem next?_shift (k : Nat) (h : c.next? = some (.ok l, d)) :
    (c.shift k).next? = some (.ok (l.shift k), d.shift k) := by
  obtain ⟨hne, hitem⟩ := next?_eq_some.1 h
  rw [next?_eq_some, skipBlanks_shift]
  exact ⟨hne, item_shift k hitem⟩

theorem nextSignificant_shift (k : Nat) {next : Option Lexeme}
    (h : c.nextSignificant lineBreak = (next.map .ok, broken, d)) :
    (c.shift k).nextSignificant lineBreak =
      ((next.map (Lexeme.shift k)).map .ok, broken, d.shift k) := by
  fun_induction nextSignificant lineBreak c with
  | case1 lineBreak c hnone =>
    obtain ⟨hnext, rfl, rfl⟩ : next = none ∧ lineBreak = broken ∧ c = d := by
      cases next <;> simp_all
    rw [next?_eq_none] at hnone
    rw [nextSignificant_eq, next?_eq_none.2 (by rwa [skipBlanks_shift]), hnext]
    rfl
  | case2 => cases next <;> simp at h
  | case3 lineBreak c l e hk htrivia ih =>
    have htrivia' : (l.shift k).token.isTrivia = true := htrivia
    rw [nextSignificant_eq, next?_shift k hk]
    simp only [htrivia', if_true]
    exact ih h
  | case4 lineBreak c l e hk htrivia =>
    have htrivia' : ¬(l.shift k).token.isTrivia = true := htrivia
    obtain ⟨hnext, rfl, rfl⟩ : next = some l ∧ lineBreak = broken ∧ e = d := by
      cases next <;> simp_all
    rw [nextSignificant_eq, next?_shift k hk, hnext]
    simp only [htrivia']
    rfl

/-- Whether a line ended before it changes nothing in what comes next. -/
theorem nextSignificant_broken (h : c.nextSignificant lineBreak = (found, broken, d)) :
    c.nextSignificant true = (found, true, d) := by
  fun_induction nextSignificant lineBreak c with
  | case1 lineBreak c hnone =>
    cases h
    rw [nextSignificant_eq, hnone]
  | case2 lineBreak c e k hk =>
    cases h
    rw [nextSignificant_eq, hk]
  | case3 lineBreak c l k hk htrivia ih =>
    rw [nextSignificant_eq, hk]
    simpa only [htrivia, if_true, Bool.true_or] using ih h
  | case4 lineBreak c l k hk htrivia =>
    cases h
    rw [nextSignificant_eq, hk]
    simp only [htrivia, Bool.false_eq_true, if_false]

end Cursor
end Ecma3
