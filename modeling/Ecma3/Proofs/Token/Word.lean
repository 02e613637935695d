import Ecma3.Proofs.Token.Match

/-! Words: texts that are one token, also with a blank after them. -/
namespace Ecma3.Token

open Text (isDigit isHexDigit)

namespace Pattern

variable {cs rest : List Char} {n : Nat} {d quote : Char}

theorem drop_append_le (cs rest : List Char) (h : n ≤ cs.length) :
    (cs ++ rest).drop n = cs.drop n ++ rest := List.drop_append_of_le_length h

/-- A character that ends every name, number and punctuator before it. -/
structure Stops (d : Char) : Prop where
  name : Unicode.isNamePart d = false
  hexDigit : isHexDigit d = false
  part : d ≠ '.' ∧ d ≠ '+' ∧ d ≠ '-'
  mark : ∀ p : Punctuator, d ∉ p.spelling.toList

theorem stops_blank : Stops ' ' :=
  ⟨by decide, by decide, by decide, fun p => by cases p <;> decide⟩

theorem stops_lineFeed : Stops '\n' :=
  ⟨by decide, by decide, by decide, fun p => by cases p <;> decide⟩

theorem Stops.digit (h : Stops d) : isDigit d = false := by
  have hhex := h.hexDigit
  simp only [isHexDigit, Bool.or_eq_false_iff] at hhex
  exact hhex.1.1

theorem Stops.ne (h : Stops d) {c : Char} (hc : Unicode.isNamePart c = true) : d ≠ c := by
  rintro rfl
  simp [h.name] at hc

theorem run_append_stop {p : Char → Bool} (h : p d = false) (cs rest : List Char) :
    run p (cs ++ d :: rest) = run p cs :=
  run_append_of_stop cs (by simpa using h)

theorem name?_append_stop (hd : Stops d) (h : cs ≠ []) : name? (cs ++ d :: rest) = name? cs := by
  cases cs with
  | nil => exact absurd rfl h
  | cons c cs => simp only [List.cons_append, name?, run_append_stop hd.name]

theorem fraction_le (cs : List Char) : fraction cs ≤ cs.length := by
  unfold fraction
  split
  · rename_i cs
    have := run_le isDigit cs
    simp only [List.length_cons]
    omega
  · exact Nat.zero_le _

theorem fraction_append_stop (hd : Stops d) (cs rest : List Char) :
    fraction (cs ++ d :: rest) = fraction cs := by
  have hpoint := hd.part.1
  cases cs with
  | nil =>
    simp only [List.nil_append]
    unfold fraction
    split <;> simp_all
  | cons c cs =>
    by_cases hc : c = '.'
    · subst hc
      simp only [List.cons_append, fraction, run_append_stop hd.digit]
    · simp only [List.cons_append]
      unfold fraction
      split <;> simp_all

theorem sign_le (cs : List Char) : sign cs ≤ cs.length := by
  unfold sign
  split <;> simp

theorem sign_append_stop (hd : Stops d) (cs rest : List Char) :
    sign (cs ++ d :: rest) = sign cs := by
  have hsign := hd.part.2
  cases cs with
  | nil =>
    simp only [List.nil_append]
    unfold sign
    split <;> simp_all
  | cons c cs =>
    simp only [List.cons_append]
    unfold sign
    split <;> simp_all

theorem exponent_append_stop (hd : Stops d) (cs rest : List Char) :
    exponent (cs ++ d :: rest) = exponent cs := by
  cases cs with
  | nil =>
    have hlower : d ≠ 'e' := hd.ne (by decide)
    have hupper : d ≠ 'E' := hd.ne (by decide)
    simp [exponent, hlower, hupper]
  | cons c cs =>
    simp only [List.cons_append, exponent, sign_append_stop hd, drop_append_le cs _ (sign_le cs),
      run_append_stop hd.digit]

theorem decimal?_append_stop (hd : Stops d) (cs rest : List Char) :
    decimal? (cs ++ d :: rest) = decimal? cs := by
  have hwhole := run_le isDigit cs
  have hpart := fraction_le (cs.drop (run isDigit cs))
  rw [List.length_drop] at hpart
  simp only [decimal?, run_append_stop hd.digit, drop_append_le cs _ hwhole,
    fraction_append_stop hd]
  rw [drop_append_le cs _ (by omega), exponent_append_stop hd]

theorem hex?_append_stop (hd : Stops d) (cs rest : List Char) :
    hex? (cs ++ d :: rest) = hex? cs := by
  have hzero : d ≠ '0' := hd.ne (by decide)
  have hlower : d ≠ 'x' := hd.ne (by decide)
  have hupper : d ≠ 'X' := hd.ne (by decide)
  match cs with
  | [] =>
    simp only [List.nil_append]
    unfold hex?
    split <;> simp_all
  | [c] =>
    by_cases hc : c = '0'
    · subst hc
      simp [hex?, hlower, hupper]
    · simp only [List.cons_append, List.nil_append]
      unfold hex?
      split <;> simp_all
  | c :: x :: cs =>
    by_cases hc : c = '0'
    · subst hc
      simp only [List.cons_append, hex?, run_append_stop hd.hexDigit]
    · simp only [List.cons_append]
      unfold hex?
      split <;> simp_all

theorem stringBody_cons {c : Char} (hc : c ≠ '\\') (cs : List Char) :
    stringBody quote (c :: cs) =
      if c = quote then (1, true)
      else if breaksString c then (0, false)
      else ((stringBody quote cs).1 + 1, (stringBody quote cs).2) := by
  rw [stringBody]
  all_goals simp_all

theorem stringBody_append (rest : List Char) (h : stringBody quote cs = (n, true)) :
    stringBody quote (cs ++ rest) = (n, true) := by
  fun_induction stringBody quote cs generalizing n with
  | case4 c cs hc length closed hb ih =>
    simp only [Prod.mk.injEq] at h
    obtain ⟨rfl, rfl⟩ := h
    simp [stringBody, hc, ih hb]
  | case5 cs hlone hescape =>
    have hc : quote ≠ '\\' := by
      rintro rfl
      cases cs with
      | nil => exact hlone rfl rfl
      | cons c cs => exact hescape c cs rfl rfl
    rw [List.cons_append, stringBody_cons hc, if_pos rfl, ← h]
  | case7 c cs hlone hescape hq hb length closed hr ih =>
    simp only [Prod.mk.injEq] at h
    obtain ⟨rfl, rfl⟩ := h
    have hc : c ≠ '\\' := by
      rintro rfl
      cases cs with
      | nil => exact hlone rfl rfl
      | cons c cs => exact hescape c cs rfl rfl
    rw [List.cons_append, stringBody_cons hc, if_neg hq, if_neg hb, ih hr]
  | _ => simp at h

theorem string?_append (h : string? cs = some n) : string? (cs ++ rest) = some n := by
  cases cs with
  | nil => cases h
  | cons c cs =>
    simp only [string?, List.cons_append] at h ⊢
    split at h
    · rename_i hq
      split at h
      · rename_i hclosed
        cases h
        have hbody := fun rest => stringBody_append rest (Prod.ext rfl hclosed)
        simp [hq, hbody]
      · cases h
    · cases h

theorem lineTerminator?_cons (c : Char) (cs : List Char)
    (h : ∀ tail, c = '\r' → cs ≠ '\n' :: tail) :
    lineTerminator? (c :: cs) = if Text.isLineTerminator c then some 1 else none := by
  unfold lineTerminator?
  split <;> simp_all

theorem lineTerminator?_append (h : cs ≠ []) (hreturn : d = '\n' → cs ≠ ['\r']) :
    lineTerminator? (cs ++ d :: rest) = lineTerminator? cs := by
  match cs with
  | [] => exact absurd rfl h
  | [c] =>
    rw [lineTerminator?_cons c [] (by simp)]
    exact lineTerminator?_cons c _ fun _ hc heq => hreturn (List.cons.inj heq).1 (by rw [hc])
  | c :: e :: cs =>
    by_cases hbreak : c = '\r' ∧ e = '\n'
    · obtain ⟨rfl, rfl⟩ := hbreak
      rfl
    · rw [lineTerminator?_cons c (e :: cs) (by simp_all)]
      exact lineTerminator?_cons c _ (by simp_all)

theorem spelled?_append_stop {spelling : String} (h : d ∉ spelling.toList)
    (cs rest : List Char) :
    spelled? spelling (cs ++ d :: rest) = spelled? spelling cs := by
  have hprefix : spelling.toList <+: cs ++ d :: rest ↔ spelling.toList <+: cs := by
    refine ⟨fun hlong => ?_, fun hshort => hshort.trans (List.prefix_append _ _)⟩
    rcases List.prefix_or_prefix_of_prefix hlong (List.prefix_append cs (d :: rest)) with hl | hl
    · exact hl
    · obtain ⟨more, hmore⟩ := hl
      rw [← hmore, List.prefix_append_right_inj] at hlong
      cases more with
      | nil => simp [← hmore]
      | cons c more =>
        obtain ⟨rfl, -⟩ := List.cons_prefix_cons.1 hlong
        simp [← hmore] at h
  simp only [spelled?, List.isPrefixOf_iff_prefix, hprefix]

theorem lineComment?_of_ne (h : ∀ tail, cs ≠ '/' :: '/' :: tail) : lineComment? cs = none := by
  unfold lineComment?
  split
  · exact absurd rfl (h _)
  · rfl

theorem blockComment?_of_ne (h : ∀ tail, cs ≠ '/' :: '*' :: tail) : blockComment? cs = none := by
  unfold blockComment?
  split
  · exact absurd rfl (h _)
  · rfl

/-- A text goes on to begin as it does. -/
theorem append_ne_cons_cons {a b : Char} (hd : d ≠ b) (hne : cs ≠ [])
    (h : ∀ tail, cs ≠ a :: b :: tail) : ∀ tail, cs ++ d :: rest ≠ a :: b :: tail := by
  intro tail heq
  match cs with
  | [] => exact hne rfl
  | [c] => simp_all
  | c :: e :: cs =>
    simp only [List.cons_append, List.cons.injEq] at heq
    exact h cs (by rw [heq.1, heq.2.1])

theorem lineTerminator?_le (h : lineTerminator? cs = some n) : n ≤ cs.length := by
  unfold lineTerminator? at h
  grind

theorem lineComment?_le (h : lineComment? cs = some n) : n ≤ cs.length := by
  unfold lineComment? at h
  grind [run_le]

theorem commentClose?_cons {c : Char} (h : ∀ tail, c = '*' → cs ≠ '/' :: tail) :
    commentClose? (c :: cs) = (commentClose? cs).map (· + 1) := by
  rw [commentClose?]
  simpa using h

theorem commentClose?_le (h : commentClose? cs = some n) : n ≤ cs.length := by
  fun_induction commentClose? cs generalizing n <;> grind [Option.map_eq_some_iff]

theorem blockComment?_le (h : blockComment? cs = some n) : n ≤ cs.length := by
  unfold blockComment? at h
  split at h
  · obtain ⟨k, hk, rfl⟩ := Option.map_eq_some_iff.1 h
    have hle := commentClose?_le hk
    simp only [List.length_cons]
    omega
  · cases h

theorem name?_le (h : name? cs = some n) : n ≤ cs.length := by
  cases cs with
  | nil => cases h
  | cons c cs =>
    simp only [name?, Option.ite_none_right_eq_some, Option.some.injEq] at h
    have := run_le Unicode.isNamePart cs
    simp only [List.length_cons]
    omega

theorem exponent_le (cs : List Char) : exponent cs ≤ cs.length := by
  unfold exponent
  grind [run_le, sign_le]

theorem decimal?_le (h : decimal? cs = some n) : n ≤ cs.length := by
  unfold decimal? at h
  grind [run_le, fraction_le, exponent_le]

theorem hex?_le (h : hex? cs = some n) : n ≤ cs.length := by
  unfold hex? at h
  grind [run_le]

theorem stringBody_le (quote : Char) (cs : List Char) : (stringBody quote cs).1 ≤ cs.length := by
  fun_induction stringBody quote cs <;> grind

theorem string?_le (h : string? cs = some n) : n ≤ cs.length := by
  unfold string? at h
  grind [stringBody_le]

theorem spelled?_le {spelling : String} (h : spelled? spelling cs = some n) : n ≤ cs.length := by
  simp only [spelled?, Option.ite_none_right_eq_some, Option.some.injEq,
    List.isPrefixOf_iff_prefix] at h
  rw [← h.2, ← String.length_toList]
  exact h.1.length_le

/-- A match lies in the text. -/
theorem matched?_le {t : Token} (h : matched? cs t = some n) : n ≤ cs.length := by
  cases t with
  | lineTerminator => exact lineTerminator?_le h
  | lineComment => exact lineComment?_le h
  | blockComment => exact blockComment?_le h
  | reserved | identifier => exact name?_le h
  | decimalLiteral => exact decimal?_le h
  | hexLiteral => exact hex?_le h
  | stringLiteral => exact string?_le h
  | punctuator => exact spelled?_le h

/-- A text has the same matches before a character that stops them, if comments and strings have
the same. -/
theorem candidates_append_stop (hd : Stops d) (hne : cs ≠ [])
    (hreturn : d = '\n' → cs ≠ ['\r'])
    (hline : lineComment? (cs ++ d :: rest) = lineComment? cs)
    (hblock : blockComment? (cs ++ d :: rest) = blockComment? cs)
    (hstring : string? (cs ++ d :: rest) = string? cs) :
    candidates (cs ++ d :: rest) = candidates cs := by
  have hnames : ((name? cs).map fun n => (wordToken ((cs ++ d :: rest).take n), n)) =
      (name? cs).map fun n => (wordToken (cs.take n), n) := by
    cases hname : name? cs with
    | none => rfl
    | some n => simp only [Option.map_some, List.take_append_of_le_length (name?_le hname)]
  have hmarks :
      (fun p : Punctuator => (spelled? p.spelling (cs ++ d :: rest)).map (punctuator p, ·)) =
        fun p => (spelled? p.spelling cs).map (punctuator p, ·) := by
    funext p
    rw [spelled?_append_stop (hd.mark p)]
  simp only [candidates, lineTerminator?_append hne hreturn, hline, hblock, hnames,
    name?_append_stop hd hne, decimal?_append_stop hd, hex?_append_stop hd, hstring, hmarks]

end Pattern

/-- The characters that a token can begin with. -/
def opens : Token → Char → Bool
  | .identifier, c | .reserved _, c => Unicode.isNameStart c
  | .decimalLiteral, c => isDigit c || c == '.'
  | .hexLiteral, c => c == '0'
  | .stringLiteral, c => Pattern.isQuote c
  | .punctuator p, c => p.spelling.toList.head? == some c
  | _, _ => false

variable {t : Token} {c : Char} {cs tail : List Char} {n : Nat} {word : String}

theorem opens_of_matched (h : Pattern.matched? (c :: cs) t = some n) (ht : t.isTrivia = false) :
    t.opens c = true := by
  cases t with
  | lineTerminator | lineComment | blockComment => cases ht
  | reserved | identifier =>
    simp only [Pattern.matched?, Pattern.name?, Option.ite_none_right_eq_some] at h
    exact h.1
  | decimalLiteral =>
    simp only [Pattern.matched?, Pattern.decimal?, Option.ite_none_left_eq_some] at h
    by_cases hc : isDigit c = true
    · simp [opens, hc]
    · have hrun : Pattern.run isDigit (c :: cs) = 0 := by simp [Pattern.run, hc]
      by_cases hdot : c = '.'
      · simp [opens, hdot]
      · have hfraction : Pattern.fraction (c :: cs) = 0 := by
          unfold Pattern.fraction
          split <;> simp_all
        simp [hrun, hfraction] at h
  | hexLiteral =>
    change Pattern.hex? (c :: cs) = some n at h
    unfold Pattern.hex? at h
    split at h
    · rename_i heq
      cases heq
      rfl
    · cases h
  | stringLiteral =>
    simp only [Pattern.matched?, Pattern.string?, Option.ite_none_right_eq_some] at h
    exact h.1
  | punctuator p =>
    simp only [Pattern.matched?, Pattern.spelled?, Option.ite_none_right_eq_some,
      List.isPrefixOf_iff_prefix] at h
    obtain ⟨⟨more, hmore⟩, -⟩ := h
    cases hp : p.spelling.toList with
    | nil => cases p <;> simp [Punctuator.spelling] at hp
    | cons d ds =>
      rw [hp, List.cons_append, List.cons.injEq] at hmore
      simp [opens, hp, hmore.1]

theorem not_isNameStart (h : Cursor.isBlank c = true ∨ Pattern.isQuote c = true ∨ c = '/') :
    Unicode.isNameStart c = false := by
  simp only [Cursor.isBlank, Pattern.isQuote, Bool.or_eq_true, beq_iff_eq] at h
  rcases h with (((((rfl | rfl) | rfl) | rfl) | rfl) | rfl) | (rfl | rfl) | rfl <;> decide +kernel

theorem not_opens_blank (h : Cursor.isBlank c = true) : t.opens c = false := by
  have hname := not_isNameStart (Or.inl h)
  simp only [Cursor.isBlank, Bool.or_eq_true, beq_iff_eq] at h
  rcases h with ((((rfl | rfl) | rfl) | rfl) | rfl) | rfl <;>
    cases t with
    | reserved | identifier => exact hname
    | punctuator p => cases p <;> decide
    | _ => decide

theorem stringLiteral_of_opens (h : t.opens c = true) (hc : Pattern.isQuote c = true) :
    t = .stringLiteral := by
  have hname := not_isNameStart (Or.inr (Or.inl hc))
  simp only [Pattern.isQuote, Bool.or_eq_true, beq_iff_eq] at hc
  rcases hc with rfl | rfl <;>
    cases t with
    | stringLiteral => rfl
    | reserved | identifier => exact absurd h (by simp [opens, hname])
    | punctuator p => cases p <;> simp [opens, Punctuator.spelling] at h
    | _ => cases h

theorem punctuator_of_opens_slash (h : t.opens '/' = true) : ∃ p, t = .punctuator p := by
  have hname := not_isNameStart (Or.inr (Or.inr rfl))
  cases t with
  | punctuator p => exact ⟨p, rfl⟩
  | reserved | identifier => exact absurd h (by simp [opens, hname])
  | _ => cases h

/-- No punctuator begins like a comment. -/
theorem not_comment_of_spelling (p : Punctuator) :
    (∀ tail, p.spelling.toList ≠ '/' :: '/' :: tail) ∧
      ∀ tail, p.spelling.toList ≠ '/' :: '*' :: tail := by
  cases p <;> simp [Punctuator.spelling]

/-- The token that a text is all of, unless it has no grammatical role. -/
def ofWord? (word : String) : Option Token :=
  match Pattern.longest? word.toList with
  | some (t, n) => if n = word.length && !t.isTrivia then some t else none
  | none => none

theorem ofWord?_eq_some : ofWord? word = some t ↔
    Pattern.longest? word.toList = some (t, word.length) ∧ t.isTrivia = false := by
  unfold ofWord?
  split
  · rename_i u n hlongest
    simp only [Option.ite_none_right_eq_some, Bool.and_eq_true, decide_eq_true_eq,
      Option.some.injEq, Bool.not_eq_true', hlongest, Prod.mk.injEq]
    constructor
    · rintro ⟨⟨rfl, ht⟩, rfl⟩
      exact ⟨⟨rfl, rfl⟩, ht⟩
    · rintro ⟨⟨rfl, rfl⟩, ht⟩
      exact ⟨⟨rfl, ht⟩, rfl⟩
  · simp_all

/-- A word begins with a character of its token. -/
theorem opens_of_ofWord? (h : ofWord? word = some t) :
    ∃ c cs, word.toList = c :: cs ∧ t.opens c = true := by
  obtain ⟨hlongest, ht⟩ := ofWord?_eq_some.1 h
  cases hword : word.toList with
  | nil =>
    have hpos : 0 < word.length := Pattern.longest?_pos hlongest
    rw [← String.length_toList, hword] at hpos
    exact absurd hpos (Nat.lt_irrefl 0)
  | cons c cs =>
    exact ⟨c, cs, rfl, opens_of_matched (hword ▸ Pattern.longest?_matched hlongest) ht⟩

/-- A word stays one token before a blank. -/
theorem longest?_word (h : ofWord? word = some t) (rest : List Char) :
    Pattern.longest? (word.toList ++ ' ' :: rest) = some (t, word.length) := by
  obtain ⟨hlongest, ht⟩ := ofWord?_eq_some.1 h
  obtain ⟨c, cs, hword, hopens⟩ := opens_of_ofWord? h
  have hcomment : ∀ tail, c :: cs = '/' :: tail →
      ∃ p : Punctuator, p.spelling.toList = '/' :: tail := by
    rintro tail ⟨⟩
    obtain ⟨p, rfl⟩ := punctuator_of_opens_slash hopens
    have hspelled := Pattern.longest?_matched hlongest
    simp only [Pattern.matched?, Pattern.spelled?, Option.ite_none_right_eq_some,
      List.isPrefixOf_iff_prefix, Option.some.injEq] at hspelled
    have hlength : p.spelling.toList.length = word.toList.length := by
      rw [String.length_toList, String.length_toList, hspelled.2]
    exact ⟨p, (hspelled.1.eq_of_length hlength).trans hword⟩
  have hstring : Pattern.string? (word.toList ++ ' ' :: rest) = Pattern.string? word.toList := by
    by_cases hquote : Pattern.isQuote c = true
    · have hmatched := Pattern.longest?_matched hlongest
      rw [stringLiteral_of_opens hopens hquote] at hmatched
      rw [Pattern.string?_append hmatched]
      exact hmatched.symm
    · simp [hword, Pattern.string?, hquote]
  have hcandidates : Pattern.candidates (word.toList ++ ' ' :: rest) =
      Pattern.candidates word.toList := by
    have hne : word.toList ≠ [] := by simp [hword]
    have hline : ∀ tail, word.toList ≠ '/' :: '/' :: tail := by
      intro tail heq
      obtain ⟨p, hp⟩ := hcomment _ (hword.symm.trans heq)
      exact (not_comment_of_spelling p).1 _ hp
    have hblock : ∀ tail, word.toList ≠ '/' :: '*' :: tail := by
      intro tail heq
      obtain ⟨p, hp⟩ := hcomment _ (hword.symm.trans heq)
      exact (not_comment_of_spelling p).2 _ hp
    refine Pattern.candidates_append_stop Pattern.stops_blank hne (by simp) ?_ ?_ hstring
    · rw [Pattern.lineComment?_of_ne hline,
        Pattern.lineComment?_of_ne (Pattern.append_ne_cons_cons (by decide) hne hline)]
    · rw [Pattern.blockComment?_of_ne hblock,
        Pattern.blockComment?_of_ne (Pattern.append_ne_cons_cons (by decide) hne hblock)]
  rw [← hlongest, Pattern.longest?, Pattern.longest?, hcandidates]

@[simp] theorem ofWord?_spelling (p : Punctuator) : ofWord? p.spelling = some (.punctuator p) := by
  cases p <;> decide +kernel

theorem ofWord?_new : ofWord? "new" = some (.reserved .new) := by decide +kernel

end Ecma3.Token
