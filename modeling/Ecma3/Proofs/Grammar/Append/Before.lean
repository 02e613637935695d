import Ecma3.Proofs.Grammar.Append.Behind
import Ecma3.Proofs.Grammar.Limit
import Ecma3.Proofs.Grammar.Program

/-!
A text before another one, which begins on a new line. Up to a semicolon at its end a run goes on as
in the text alone, but for a regular expression that reads as a comment which is closed in the other
text.
-/
namespace Ecma3

open Text (byteLength)

variable {source more : List Char} {c d : Cursor} {place n : Nat} {x y : Char}

/-- The character before this place. -/
def Text.EndsAt (source : List Char) (place : Nat) (x : Char) : Prop :=
  ∃ before after, source = before ++ x :: after ∧ place = byteLength (before ++ [x])

theorem Text.initial_unique {a b : List Char} (ha : a <+: source) (hb : b <+: source)
    (h : byteLength a = byteLength b) : a = b := by
  have hnil : ∀ {a b : List Char}, a <+: b → byteLength a = byteLength b → a = b := by
    rintro a _ ⟨rest, rfl⟩ hlength
    cases rest with
    | nil => simp
    | cons first rest =>
      have hpos := first.utf8Size_pos
      simp only [byteLength_append, byteLength] at hlength
      omega
  rcases List.prefix_or_prefix_of_prefix ha hb with hab | hba
  · exact hnil hab h
  · exact (hnil hba h.symm).symm

theorem Text.EndsAt.unique (hx : EndsAt source place x) (hy : EndsAt source place y) : x = y := by
  obtain ⟨before, after, hbefore, hplace⟩ := hx
  obtain ⟨before', after', hbefore', hplace'⟩ := hy
  have hinitial : before ++ [x] <+: source := ⟨after, by simp [hbefore]⟩
  have hinitial' : before' ++ [y] <+: source := ⟨after', by simp [hbefore']⟩
  have heq := congrArg List.getLast? (initial_unique hinitial hinitial' (hplace.symm.trans hplace'))
  simpa using heq

theorem Cursor.At.endsAt (h : c.At source) (hlast : (c.rest.take n).getLast? = some x) :
    Text.EndsAt source (c.advance n).offset x := by
  obtain ⟨before, hsource, hoffset⟩ := h
  obtain ⟨init, hinit⟩ := List.getLast?_eq_some_iff.1 hlast
  refine ⟨before ++ init, c.rest.drop n, ?_, ?_⟩
  · have hcut := List.take_append_drop n c.rest
    rw [hinit, List.append_assoc] at hcut
    rw [hsource, List.append_assoc, ← List.singleton_append, hcut]
  · simp [Cursor.advance, hinit, hoffset, Text.byteLength_append]

theorem Cursor.At.not_endsAt (h : c.At source) (hn : c.rest.take n ≠ [])
    (hlast : (c.rest.take n).getLast? ≠ some x) : ¬Text.EndsAt source (c.advance n).offset x := by
  intro hends
  cases hy : (c.rest.take n).getLast? with
  | none => exact hn (List.getLast?_eq_none_iff.1 hy)
  | some y => exact hlast (by rw [hy, (h.endsAt hy).unique hends])

theorem Cursor.At.stop (h : c.At source) : c.stop = byteLength source := by
  obtain ⟨before, rfl, hoffset⟩ := h
  rw [Cursor.stop, hoffset, Text.byteLength_append]

theorem Cursor.skipBytes?_followedBy (h : c.skipBytes? n = some d) :
    (c.followedBy more).skipBytes? n = some (d.followedBy more) := by
  obtain ⟨rest, hrest, rfl⟩ := Option.map_eq_some_iff.1 h
  obtain ⟨passed, hpassed, rfl⟩ := Text.eq_append_of_dropBytes? hrest
  have hdrop := Text.dropBytes?_append passed (rest ++ '\n' :: more)
  rw [← List.append_assoc, ← hpassed] at hdrop
  rw [skipBytes?, followedBy, hdrop]
  rfl

/-- A slash that opens a comment for the longer text has a star behind it. -/
theorem Cursor.Snags.rest {l : Lexeme} (h : d.Snags l more) (hitem : c.item = (.ok l, d)) :
    ∃ rest, c.rest = '/' :: '*' :: rest := by
  obtain ⟨n, hn, -, -, rfl⟩ := item_ok hitem
  obtain ⟨hslash, hstar, -⟩ := h
  have hmatched := Token.Pattern.longest?_matched hn
  rw [hslash] at hmatched
  simp only [Token.Pattern.matched?, Token.Pattern.spelled?, Option.ite_none_right_eq_some,
    List.isPrefixOf_iff_prefix, Option.some.injEq] at hmatched
  obtain ⟨⟨tail, htail⟩, rfl⟩ := hmatched
  have hrest : c.rest = '/' :: tail := htail.symm
  have hdrop : (c.advance Punctuator.slash.spelling.length).rest = tail := by
    rw [Cursor.advance, hrest]
    rfl
  rw [hdrop] at hstar
  obtain ⟨rest, rfl⟩ := List.head?_eq_some_iff.1 hstar
  exact ⟨rest, hrest⟩

theorem Token.isBarred_of_opens {t : Token} (h : t.opens '*' = true) : t.isBarred = true := by
  have hname : Unicode.isNameStart '*' = false := by decide +kernel
  cases t with
  | reserved | identifier => exact absurd h (by simp [opens, hname])
  | punctuator p => cases p <;> first | rfl | exact absurd h (by decide)
  | _ => exact absurd h (by decide)

theorem Cursor.nextSignificant_star (lineBreak : Bool) (h : c.rest.head? = some '*') :
    ∃ l d, c.nextSignificant lineBreak = (some (.ok l), lineBreak, d) ∧
      l.token.isBarred = true := by
  obtain ⟨rest, hrest⟩ := List.head?_eq_some_iff.1 h
  have hskip : c.skipBlanks.rest = '*' :: rest := by
    have hblank : isBlank '*' = false := by decide
    simp [skipBlanks, advance, Token.Pattern.run, hrest, hblank]
  have hstar : (Token.punctuator .star, 1) ∈ Token.Pattern.candidates ('*' :: rest) := by
    exact List.mem_append_right _ (List.mem_filterMap.2 ⟨.star, by decide, rfl⟩)
  obtain ⟨⟨t, n⟩, hlongest⟩ := Option.isSome_iff_exists.1 (Token.Pattern.longest?_isSome hstar)
  have hmatched := Token.Pattern.longest?_matched hlongest
  have htrivia : t.isTrivia = false :=
    Token.not_trivia_of_matched hmatched (by decide) (by decide)
  have hnext : c.next? = some (.ok ⟨t, c.skipBlanks.text n, c.skipBlanks.span n⟩,
      c.skipBlanks.advance n) := by
    rw [next?_eq_some, hskip, item, hskip, hlongest]
    exact ⟨List.cons_ne_nil _ _, rfl⟩
  have hbarred := Token.isBarred_of_opens (Token.opens_of_matched hmatched htrivia)
  refine ⟨⟨t, c.skipBlanks.text n, c.skipBlanks.span n⟩, c.skipBlanks.advance n, ?_, hbarred⟩
  rw [nextSignificant_eq, hnext]
  simp only [htrivia, Bool.false_eq_true, if_false]

namespace Grammar
open ParserM ParseTree

variable {limit : Nat} {s t u b : Session} {l literal : Lexeme} {tree : ParseTree}
  {L : List ParseTree} {text text' : String}

theorem Session.Walk.coherent (h : s.Walk L t) (hs : s.Coherent) :
    t.Coherent ∧ t.source = s.source := by
  induction h with
  | refl => exact ⟨hs, rfl⟩
  | level depth _ ih => exact ⟨ih.1.withDepth depth, ih.2⟩
  | pass _ _ _ hadvance ih | keep _ _ _ _ hadvance ih =>
    obtain ⟨hcoherent, hsource⟩ := (leads_advance ih.1.cursor).ok hadvance
    exact ⟨hcoherent, hsource.trans ih.2⟩
  | literal _ hcurrent hopen hliteral ih =>
    have hcoherent :=
      (leads_regexLiteral ih.1 (by rw [Session.token?, hcurrent]; rfl) hopen).ok hliteral
    obtain ⟨_, _, -, -, -, hadvance⟩ := regexLiteral_eq_ok hliteral
    obtain ⟨_, _, _, _, rfl⟩ := advance_eq_ok hadvance
    exact ⟨hcoherent.2, ih.2⟩

theorem Session.Coherent.endsAt (hs : s.Coherent) (hl : s.current = some l)
    (ht : l.token = .punctuator .semicolon) : Text.EndsAt s.source l.span.stop ';' := by
  obtain ⟨c, hat, hitem, -⟩ := hs.current l hl
  obtain ⟨n, hn, -, hspan, -⟩ := Cursor.item_ok hitem
  have hmatched := Token.Pattern.longest?_matched hn
  rw [ht] at hmatched
  simp only [Token.Pattern.matched?, Token.Pattern.spelled?, Option.ite_none_right_eq_some,
    List.isPrefixOf_iff_prefix, Option.some.injEq] at hmatched
  obtain ⟨⟨tail, htail⟩, rfl⟩ := hmatched
  rw [hspan]
  refine hat.endsAt ?_
  rw [← htail]
  rfl

theorem Session.Coherent.not_endsAt (hs : s.Coherent) (hl : s.current = some l)
    (ht : l.token ≠ .punctuator .semicolon) : ¬Text.EndsAt s.source l.span.stop ';' := by
  obtain ⟨c, hat, hitem, htrivia⟩ := hs.current l hl
  obtain ⟨n, hn, -, hspan, -⟩ := Cursor.item_ok hitem
  have hpos : 0 < n := Token.Pattern.longest?_pos hn
  have hle := Token.Pattern.matched?_le (Token.Pattern.longest?_matched hn)
  rw [hspan]
  refine hat.not_endsAt (fun hnil => ?_) (Token.Pattern.getLast?_ne_semicolon hn htrivia ht)
  have hlength := congrArg List.length hnil
  simp only [List.length_take, List.length_nil] at hlength
  omega

/-- What the slash at the current lexeme opens is cut where the slash is. -/
theorem Session.Coherent.regex (hs : s.Coherent) (hl : s.current = some l)
    (hliteral : s.regex? = some literal) : ∃ (c : Cursor) (n : Nat), c.At s.source ∧
      c.item = (.ok l, s.cursor) ∧ Token.RegexLiteral.length? c.rest = some n ∧
      literal.text = c.text n ∧ literal.span = c.span n := by
  obtain ⟨c, hat, hitem, -⟩ := hs.current l hl
  obtain ⟨k, -, -, hspan, -⟩ := Cursor.item_ok hitem
  obtain ⟨before, hsource, hoffset⟩ := hat
  have hstart : s.span.start = c.offset := by simp [Session.span, hl, hspan, Cursor.span]
  simp only [Session.regex?, hstart, hoffset, hsource, Text.dropBytes?_append,
    Option.bind_eq_bind, Option.bind_some, Option.bind_eq_some_iff, Option.pure_def,
    Option.some.injEq] at hliteral
  obtain ⟨n, hn, rfl⟩ := hliteral
  exact ⟨c, n, ⟨before, hsource, hoffset⟩, hitem, hn, rfl,
    by simp [Cursor.span, Cursor.advance, hoffset]⟩

theorem Session.Coherent.regex_not_endsAt (hs : s.Coherent) (hl : s.current = some l)
    (h : regexLiteral s = .ok tree u) : ¬Text.EndsAt u.source u.lastEnd ';' := by
  obtain ⟨literal, _, hliteral, -, -, hadvance⟩ := regexLiteral_eq_ok h
  obtain ⟨_, _, _, _, rfl⟩ := advance_eq_ok hadvance
  change ¬Text.EndsAt s.source literal.span.stop ';'
  obtain ⟨c, n, hat, -, hn, -, hspan⟩ := hs.regex hl hliteral
  obtain ⟨first, body, flags, htext, hflags⟩ := Token.RegexLiteral.take_length? hn
  rw [hspan]
  refine hat.not_endsAt (by simp [htext]) fun hlast => ?_
  rw [htext, List.getLast?_cons, List.getLast?_append, List.getLast?_cons] at hlast
  cases hflag : flags.getLast? with
  | none => simp [hflag] at hlast
  | some c =>
    have hsemicolon : c = ';' := by simpa [hflag] using hlast
    have hisFlag := hflags c (List.mem_of_getLast? hflag)
    rw [hsemicolon] at hisFlag
    exact absurd hisFlag (by decide +kernel)

/-- The session in a text with another one behind it. -/
def Session.followedBy (s : Session) (more : List Char) : Session where
  source := s.source ++ '\n' :: more
  size := s.size + (1 + byteLength more)
  limit := s.limit
  cursor := s.cursor.followedBy more
  current := s.current
  lineBreakBefore := s.lineBreakBefore
  lastEnd := s.lastEnd
  depth := s.depth

/-- Where the run `s` has come to its end, the other text is taken up from its start `b`. -/
def Session.resume (b s : Session) : Session :=
  { (b.behind (s.source ++ ['\n'])).marked true s.lastEnd with depth := s.depth }

/-- The session runs through the text under the limit. -/
structure Session.Through (limit : Nat) (text : String) (s : Session) : Prop where
  source : s.source = text.toList
  size : s.size = byteLength text.toList
  limit : s.limit = limit

/-- At the end of its text the run goes on with the other text. -/
theorem advance_resume (hs : s.Through limit text) (hat : s.cursor.At s.source)
    (hb : advance (.ofString limit text') = .ok () b) (h : advance s = .ok () u)
    (hend : u.current = none) : advance (s.followedBy text'.toList) = .ok () (b.resume u) := by
  obtain ⟨next, broken, d, hn, rfl⟩ := advance_eq_ok h
  obtain ⟨next', broken', d', hn', rfl⟩ := advance_eq_ok hb
  obtain rfl : next = none := hend
  have hlineFeed : byteLength ['\n'] = 1 := by decide
  have hpast : Cursor.shift (byteLength (s.source ++ ['\n']))
      (Session.ofString limit text').cursor = s.cursor.past text'.toList := by
    rw [Cursor.past, hat.stop, Text.byteLength_append, hlineFeed]
    simp [Cursor.shift, Cursor.ofString, Session.ofString]
  have hfound := Cursor.nextSignificant_broken
    (Cursor.nextSignificant_shift (byteLength (s.source ++ ['\n'])) hn')
  rw [hpast, ← Cursor.nextSignificant_past hn] at hfound
  refine (advance_of_next (s := s.followedBy text'.toList) hfound).trans ?_
  simp [Session.followedBy, Session.resume, Session.behind, Session.marked, Session.ofString,
    hs.size, hs.limit, hs.source, Text.byteLength_append, Session.passedEnd, hlineFeed,
    Nat.add_assoc]

/-- Passing a token does the same in the longer text, unless the text is at its end or comes to a
comment there. -/
theorem advance_followedBy (more : List Char) (h : advance s = .ok () u)
    (hcurrent : u.current.isSome) :
    advance (s.followedBy more) = .ok () (u.followedBy more) ∨
      ∃ l, u.current = some l ∧ u.cursor.Snags l more := by
  obtain ⟨next, broken, d, hn, rfl⟩ := advance_eq_ok h
  obtain ⟨l, rfl⟩ := Option.isSome_iff_exists.1 hcurrent
  refine (Cursor.nextSignificant_followedBy hn).imp (fun hn' => ?_) fun hsnag => ⟨l, rfl, hsnag⟩
  exact advance_of_next (s := s.followedBy more) hn'

theorem span_followedBy (more : List Char) (hl : s.current = some l) :
    (s.followedBy more).span = s.span := by
  simp [Session.span, Session.followedBy, hl]

theorem regex?_followedBy (hl : s.current = some l) (h : s.regex? = some literal) :
    (s.followedBy more).regex? = some literal := by
  simp only [Session.regex?, Option.bind_eq_bind, Option.bind_eq_some_iff, Option.pure_def,
    Option.some.injEq] at h
  obtain ⟨cs, hcs, n, hn, rfl⟩ := h
  obtain ⟨before, hsource, hstart⟩ := Text.eq_append_of_dropBytes? hcs
  have hsource' : (s.followedBy more).source = before ++ (cs ++ '\n' :: more) := by
    simp [Session.followedBy, hsource]
  have htake : (cs ++ '\n' :: more).take n = cs.take n :=
    List.take_append_of_le_length (Token.RegexLiteral.length?_le hn)
  simp only [Session.regex?, span_followedBy _ hl, hsource', ← hstart, Text.dropBytes?_append,
    Token.RegexLiteral.length?_append_lineFeed hn, htake, Option.bind_eq_bind, Option.bind_some,
    Option.pure_def]

theorem regexLiteral_followedBy (more : List Char) (hl : s.current = some l)
    (h : regexLiteral s = .ok tree u) (hcurrent : u.current.isSome) :
    regexLiteral (s.followedBy more) = .ok tree (u.followedBy more) ∨
      ∃ l, u.current = some l ∧ u.cursor.Snags l more := by
  obtain ⟨literal, cursor, hliteral, hcursor, rfl, hadvance⟩ := regexLiteral_eq_ok h
  refine (advance_followedBy more hadvance hcurrent).imp_left fun hadvance' => ?_
  rw [← span_followedBy more hl] at hcursor
  exact regexLiteral_of_ok (regex?_followedBy hl hliteral) (Cursor.skipBytes?_followedBy hcursor)
    hadvance'

theorem Session.Through.advance (hs : s.Through limit text)
    (h : ParserM.advance s = .ok () u) : u.Through limit text := by
  obtain ⟨_, _, _, _, rfl⟩ := advance_eq_ok h
  exact ⟨hs.source, hs.size, hs.limit⟩

theorem Session.Through.regexLiteral (hs : s.Through limit text)
    (h : ParserM.regexLiteral s = .ok tree u) : u.Through limit text := by
  obtain ⟨literal, cursor, -, -, -, hadvance⟩ := regexLiteral_eq_ok h
  have hliteral : Session.Through limit text { s with cursor, current := some literal } :=
    ⟨hs.source, hs.size, hs.limit⟩
  exact hliteral.advance hadvance

/-- Here the longer text has other lexemes: the text ends behind something else than a semicolon, or
a slash opens a comment that is closed in the other text. -/
def Session.Torn (s : Session) (more : List Char) : Prop :=
  (s.current = none ∧ ¬Text.EndsAt s.source s.lastEnd ';') ∨
    s.Coherent ∧ ∃ l, s.current = some l ∧ s.cursor.Snags l more

/-- A run that is torn at a slash comes to a token that begins with a star. -/
theorem Session.Torn.advance (h : s.Torn more) (hcurrent : s.current.isSome)
    (hadvance : ParserM.advance s = .ok () u) : ∃ t, u.token? = some t ∧ t.isBarred = true := by
  obtain ⟨hnone, -⟩ | ⟨-, l, -, -, hstar, -⟩ := h
  · simp [hnone] at hcurrent
  · obtain ⟨m, d, hn, hbarred⟩ := Cursor.nextSignificant_star false hstar
    obtain ⟨next, broken, e, hn', rfl⟩ := advance_eq_ok hadvance
    obtain rfl : next = some m := by
      cases next <;> simp_all
    exact ⟨m.token, rfl, hbarred⟩

/-- What it takes for a regular expression then begins like a comment. -/
theorem Session.Torn.regex (h : s.Torn more) (hcurrent : s.current.isSome)
    (hregex : regexLiteral s = .ok tree u) : ['*', '/'] <:+: more ∧
      ∃ t ∈ tree.atoms, t.kind = .regexLiteral ∧ ['/', '*'] <+: t.text.toList := by
  obtain ⟨hnone, -⟩ | ⟨hs, l, hl, hsnag⟩ := h
  · simp [hnone] at hcurrent
  obtain ⟨literal, _, hliteral, -, rfl, -⟩ := regexLiteral_eq_ok hregex
  obtain ⟨c, n, hat, hitem, hn, htext, -⟩ := hs.regex hl hliteral
  obtain ⟨rest, hrest⟩ := hsnag.rest hitem
  obtain ⟨first, body, flags, htake, -⟩ := Token.RegexLiteral.take_length? hn
  have hatom : (ParseTree.leaf .regexLiteral literal.text literal.span).atoms =
      [.leaf .regexLiteral literal.text literal.span] := atoms_of_isAtom rfl
  refine ⟨hsnag.2.2, .leaf .regexLiteral literal.text literal.span, by simp [hatom], rfl, ?_⟩
  have hliteralText : literal.text.toList = c.rest.take n := by
    rw [htext, Cursor.text, String.toList_ofList]
  have htwo : ['/', '*'] <+: c.rest := ⟨rest, hrest.symm⟩
  have hinitial : c.rest.take n <+: c.rest := List.take_prefix _ _
  refine List.prefix_of_prefix_length_le htwo
    (by rw [ParseTree.leaf, hliteralText]; exact hinitial) ?_
  simp only [ParseTree.leaf, hliteralText, htake, List.length_cons, List.length_append,
    List.length_nil]
  omega

/-- Runs in a text, and in the same text with another one behind it. -/
def Comparison.before (hb : advance (.ofString limit text') = .ok () b)
    (helse : b.token? ≠ some (.reserved .«else»)) (text : String) : Comparison where
  Rel _ n s s' := s.Through limit text ∧ s.Coherent ∧ s.current.isSome ∧ s.depth = n ∧
    s' = s.followedBy text'.toList
  Ended n s s' := s.current = none ∧ s.depth = n ∧ s' = b.resume s
  Stuck s := s.Torn text'.toList
  Lost _ L := ['*', '/'] <:+: text'.toList ∧
    ∃ t ∈ L, t.kind = .regexLiteral ∧ ['/', '*'] <+: t.text.toList
  Fails _ _ _ := True
  common := False
  shift := 0
  matched := id
  token := by rintro _ _ s _ ⟨-, -, -, -, rfl⟩; rfl
  text := by rintro _ _ s _ ⟨-, -, -, -, rfl⟩; rfl
  start := by
    rintro _ _ s _ ⟨-, -, hcurrent, -, rfl⟩
    obtain ⟨l, hl⟩ := Option.isSome_iff_exists.1 hcurrent
    rw [span_followedBy _ hl, Nat.add_zero]
  stop := by
    rintro _ _ s _ ⟨-, -, hcurrent, -, rfl⟩
    obtain ⟨l, hl⟩ := Option.isSome_iff_exists.1 hcurrent
    rw [span_followedBy _ hl, Nat.add_zero]
  lastEnd := by rintro _ s _ ⟨-, -, -, -, rfl⟩; rfl
  lineBreak := by rintro _ s _ ⟨-, -, -, -, rfl⟩; rfl
  refused := fun _ => Or.inl fun _ _ => trivial
  advance_ok := by
    rintro _ _ s _ t u ⟨hthrough, hs, -, rfl, rfl⟩ ht hu
    obtain ⟨l, hl, rfl⟩ := token?_eq_some ht
    obtain ⟨hcoherent, hsource⟩ := (leads_advance hs.cursor).ok hu
    have hdepth := (advance_keeps hu).2
    cases hcurrent : u.current with
    | none =>
      by_cases hsemicolon : l.token = .punctuator .semicolon
      · exact Or.inr ⟨_, advance_resume hthrough hs.cursor hb hu hcurrent,
          Or.inr ⟨hsemicolon, rfl, hdepth, rfl⟩⟩
      · refine Or.inl (Or.inl ⟨hcurrent, ?_⟩)
        obtain ⟨_, _, _, _, rfl⟩ := advance_eq_ok hu
        have hends := hs.not_endsAt hl hsemicolon
        simpa [Session.passedEnd, hl] using hends
    | some m =>
      have hsome : u.current.isSome := by rw [hcurrent]; rfl
      rcases advance_followedBy text'.toList hu hsome with hu' | hsnag
      · exact Or.inr ⟨_, hu', Or.inl ⟨hthrough.advance hu, hcoherent, rfl, hdepth, rfl⟩⟩
      · exact Or.inl (Or.inr ⟨hcoherent, hsnag⟩)
  advance_error _ _ _ := Or.inl trivial
  regex_ok := by
    rintro _ _ s _ t tree u ⟨hthrough, hs, -, rfl, rfl⟩ ht hopen hu
    obtain ⟨l, hl, rfl⟩ := token?_eq_some ht
    have hcoherent := ((leads_regexLiteral hs ht hopen).ok hu).2
    obtain ⟨hlimit, hdepth⟩ := regexLiteral_keeps hu
    have hthrough' := hthrough.regexLiteral hu
    cases hcurrent : u.current with
    | none => exact Or.inr (Or.inl (Or.inl ⟨hcurrent, hs.regex_not_endsAt hl hu⟩))
    | some m =>
      have hsome : u.current.isSome := by rw [hcurrent]; rfl
      rcases regexLiteral_followedBy text'.toList hl hu hsome with hu' | hsnag
      · refine Or.inr (Or.inr ⟨_, hu'.trans ?_, hthrough', hcoherent, rfl, hdepth, rfl⟩)
        exact congrArg (EStateM.Result.ok · _) (relocate_id tree).symm
      · exact Or.inr (Or.inl (Or.inr ⟨hcoherent, hsnag⟩))
  regex_error _ _ _ _ := Or.inl trivial
  enter_ok := by
    rintro _ _ s _ u ⟨hthrough, hs, hcurrent, rfl, rfl⟩ hu
    refine Or.inr ⟨_, enter_of_ok hu rfl rfl, ?_⟩
    rw [enter_eq_ok hu]
    exact ⟨⟨hthrough.source, hthrough.size, hthrough.limit⟩, hs.withDepth _, hcurrent, rfl, rfl⟩
  enter_error _ _ := Or.inl trivial
  leave := by
    rintro _ _ s _ ⟨hthrough, hs, hcurrent, hdepth, rfl⟩
    exact ⟨⟨hthrough.source, hthrough.size, hthrough.limit⟩, hs.withDepth _, hcurrent,
      by simp [hdepth], rfl⟩
  leave_fails _ := trivial
  leak _ _ _ _ := trivial
  ended :=
    { current h := h.1
      notElse := by
        rintro _ s _ ⟨-, -, rfl⟩
        have htoken : (b.resume s).token? = b.token? := by
          cases hcurrent : b.current <;>
            simp [Session.token?, Session.resume, Session.marked, Session.behind, hcurrent,
              Lexeme.shift]
        rwa [htoken]
      lastEnd := by rintro _ s _ ⟨-, -, rfl⟩; rfl
      leave := by
        rintro _ s _ ⟨hcurrent, hdepth, rfl⟩
        exact ⟨hcurrent, by simp [hdepth], rfl⟩
      fails _ := trivial }
  stuck :=
    { depth h depth := h.imp id fun ⟨hs, hsnag⟩ => ⟨hs.withDepth depth, hsnag⟩
      token := by
        rintro s t (⟨hnone, -⟩ | ⟨-, l, hl, hsnag⟩) ht
        · simp [Session.token?, hnone] at ht
        · rw [Session.token?, hl, Option.map_some, hsnag.1] at ht
          exact (Option.some.inj ht).symm
      advance := Session.Torn.advance
      regex := Session.Torn.regex
      fails _ := trivial }
  lost_mono := by
    rintro _ _ L M ⟨hclose, t, ht, hregex⟩ - hsub
    exact ⟨hclose, t, hsub ht, hregex⟩
  lost_fails _ := trivial

end Grammar
end Ecma3
