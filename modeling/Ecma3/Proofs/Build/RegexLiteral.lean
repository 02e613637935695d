import Ecma3.Proofs.Build.New
import Ecma3.Proofs.Grammar.Append.Before
import Ecma3.Proofs.Grammar.Simulation.Program
import Ecma3.Proofs.Outcome
import Ecma3.Proofs.Token.RegexLiteral

/-!
Regular expressions from the source to their nodes. The parser finds the slash that closes a literal by
its grammar and the builder takes the last one; these are the same, for no flag is a slash.
-/
namespace Ecma3

open Text (byteLength)

/-- There is one text at a place. -/
theorem Text.IsSlice.unique {source text other : List Char} {place : Span}
    (h : IsSlice source place text) (hother : IsSlice source place other) : text = other := by
  obtain ⟨before, after, rfl, hstart, hstop⟩ := h
  obtain ⟨before', after', hsource, hstart', hstop'⟩ := hother
  have hinitial : before ++ text = before' ++ other :=
    initial_unique (List.prefix_append _ after) (hsource ▸ List.prefix_append _ after')
      (hstop.symm.trans hstop')
  have hbefore : before = before' :=
    initial_unique (List.prefix_append _ text) (hinitial ▸ List.prefix_append _ other)
      (hstart.symm.trans hstart')
  rw [hbefore] at hinitial
  exact List.append_cancel_left hinitial

namespace Token.RegexLiteral

variable {before rest text flags after : List Char} {stop n : Nat}

/-- Where the literal ends whose first slash is at a place of the source. -/
def stop? (source : List Char) (start : Nat) : Option Nat := do
  let cs ← Text.dropBytes? start source
  let n ← length? cs
  return start + byteLength (cs.take n)

theorem Splits.take (h : Splits rest text flags after) :
    ('/' :: rest).take ('/' :: (text ++ '/' :: flags)).length = '/' :: (text ++ '/' :: flags) := by
  have hcut : '/' :: rest = '/' :: (text ++ '/' :: flags) ++ after := by simp [h.eq]
  rw [hcut, List.take_left']
  rfl

theorem Splits.notMem_flags (h : Splits rest text flags after) : '/' ∉ flags := by
  have hmem := (h.flags.matched _ rfl).2
  rw [List.take_left' rfl, language_flag, Regex.mem_star_oneOf] at hmem
  intro hslash
  have hflag := hmem _ hslash
  rw [isFlag_slash] at hflag
  cases hflag

theorem stop?_eq_some : stop? (before ++ '/' :: rest) (byteLength before) = some stop ↔
    ∃ text flags after, Splits rest text flags after ∧
      stop = byteLength (before ++ '/' :: (text ++ '/' :: flags)) := by
  simp only [stop?, Text.dropBytes?_append, Option.bind_eq_bind, Option.bind_some,
    Option.bind_eq_some_iff, Option.pure_def, Option.some.injEq, length?_eq_some,
    Text.byteLength_append]
  constructor
  · rintro ⟨_, ⟨text, flags, after, hsplits, rfl⟩, rfl⟩
    exact ⟨text, flags, after, hsplits, by rw [hsplits.take]⟩
  · rintro ⟨text, flags, after, hsplits, rfl⟩
    exact ⟨_, ⟨text, flags, after, hsplits, rfl⟩, by rw [hsplits.take]⟩

end Token.RegexLiteral

namespace Grammar
open ParserM ParseTree
open Token.RegexLiteral (Splits stop?)

variable {s t : Session} {l literal : Lexeme} {L : List ParseTree} {leaf : ParseTree}
  {source text flags : List Char}

/-- The literal that is cut for a slash ends where it is scanned to. -/
theorem regex?_map_stop (s : Session) :
    s.regex?.map (·.span.stop) = stop? s.source s.span.start := by
  unfold Session.regex? stop?
  cases Text.dropBytes? s.span.start s.source with
  | none => rfl
  | some cs =>
    simp only [Option.bind_eq_bind, Option.bind_some]
    cases Token.RegexLiteral.length? cs <;> rfl

theorem regexLiteral_unterminated (h : stop? s.source s.span.start = none) :
    regexLiteral s = .error (.unterminatedRegex ⟨s.span.start, s.size⟩) s := by
  rw [← regex?_map_stop, Option.map_eq_none_iff] at h
  rw [regexLiteral_eq, h]

theorem stop?_of_regexLiteral (h : regexLiteral s = .ok leaf t) :
    stop? s.source s.span.start = some leaf.span.stop := by
  obtain ⟨l, -, hregex, -, rfl, -⟩ := regexLiteral_eq_ok h
  rw [← regex?_map_stop, hregex]
  rfl

/-- The leaf is a regular expression with these parts, where it stands in the source. -/
structure CutRegex (source : List Char) (leaf : ParseTree) (text flags : List Char) : Prop where
  place : ∃ before rest after, source = before ++ '/' :: rest ∧ Splits rest text flags after ∧
    leaf.span = ⟨byteLength before, byteLength (before ++ '/' :: (text ++ '/' :: flags))⟩
  nonempty : text ≠ []
  text : leaf.text = String.ofList ('/' :: (text ++ '/' :: flags))

theorem CutRegex.slice (h : CutRegex source leaf text flags) :
    Text.IsSlice source leaf.span leaf.text.toList := by
  obtain ⟨before, rest, after, hsource, hsplits, hspan⟩ := h.place
  refine ⟨before, after, ?_, ?_, ?_⟩
  · rw [h.text, String.toList_ofList, hsource, hsplits.eq]
    simp
  · rw [hspan]
  · rw [hspan, h.text, String.toList_ofList]

theorem Session.Coherent.cutRegex (hs : s.Coherent) (hl : s.current = some l)
    (hopen : l.token.mayOpenRegex = true) (hliteral : s.regex? = some literal) :
    ∃ text flags, CutRegex s.source (.leaf .regexLiteral literal.text literal.span) text flags := by
  obtain ⟨c, n, ⟨before, hsource, hoffset⟩, hitem, hn, htext, hspan⟩ := hs.regex hl hliteral
  obtain ⟨k, hk, -⟩ := Cursor.item_ok hitem
  obtain ⟨rest, hrest, hcomment⟩ := Token.Pattern.slash_of_mayOpenRegex hk hopen
  rw [hrest] at hn
  obtain ⟨text, flags, after, hsplits, rfl⟩ := Token.RegexLiteral.length?_eq_some.1 hn
  have htake := hsplits.take
  rw [← hrest] at htake
  refine ⟨text, flags, ⟨before, rest, after, hrest ▸ hsource, hsplits, ?_⟩, ?_, ?_⟩
  · refine hspan.trans ?_
    rw [Cursor.span, Cursor.advance, htake, hoffset, Text.byteLength_append]
  · -- With nothing between them the two slashes would open a comment.
    rintro rfl
    exact hcomment (flags ++ after) hsplits.eq
  · refine htext.trans ?_
    rw [Cursor.text, htake]

theorem Session.Walk.cutRegex (h : s.Walk L t) (hs : s.Coherent) :
    ∀ leaf ∈ L, leaf.kind = .regexLiteral → ∃ text flags, CutRegex s.source leaf text flags := by
  induction h with
  | refl => nofun
  | level _ _ ih => exact ih
  | pass _ _ _ _ ih => exact ih
  | keep _ _ _ hkind _ ih =>
    rw [List.forall_mem_append, List.forall_mem_singleton]
    exact ⟨ih, fun hregex => absurd hregex hkind⟩
  | literal hwalk hcurrent hopen hliteral ih =>
    rw [List.forall_mem_append, List.forall_mem_singleton]
    refine ⟨ih, fun _ => ?_⟩
    obtain ⟨hcoherent, hsource⟩ := hwalk.coherent hs
    obtain ⟨literal, -, hregex, -, rfl, -⟩ := regexLiteral_eq_ok hliteral
    rw [← hsource]
    exact hcoherent.cutRegex hcurrent hopen hregex

theorem cutRegex_of_parse {limit : Nat} {source : String} {root : ParseTree}
    (hroot : parse limit source = .ok (some root)) (hleaf : leaf ∈ root.nodes)
    (hkind : leaf.kind = .regexLiteral) :
    ∃ text flags, CutRegex source.toList leaf text flags := by
  obtain ⟨s, t, hs, ht⟩ := parse_eq_ok.1 hroot
  obtain ⟨hcoherent, hsource⟩ := (leads_advance (Cursor.at_ofString source)).ok hs
  obtain ⟨hwalk, -⟩ := (program_moves s).ok ht
  have hatom : leaf ∈ (some root).toList.flatMap atoms := by
    rw [flatMap_atoms, List.mem_filter, hkind]
    exact ⟨by simpa using hleaf, rfl⟩
  have hcut := hwalk.cutRegex hcoherent leaf hatom hkind
  rwa [show s.source = source.toList from hsource] at hcut

end Grammar

namespace Build

open Token.RegexLiteral (Splits stop?)
open Grammar (CutRegex)

variable {source rest pattern flags after : List Char} {text : String} {span : Span} {leaf : ParseTree}

theorem regex?_of_splits (h : Splits rest pattern flags after) (hpattern : pattern ≠ [])
    (htext : text.toList = '/' :: (pattern ++ '/' :: flags)) : Literal.regex? text span =
      some (.regex (String.ofList pattern) (String.ofList flags) span) :=
  Literal.regex?_of_parts h.notMem_flags hpattern htext

theorem within_regex (h : CutRegex source leaf pattern flags) (hkind : leaf.kind = .regexLiteral)
    (limit levels : Nat) : (within limit (levels + 1) leaf none : Except BuildError Node) =
      .ok (.regex (String.ofList pattern) (String.ofList flags) leaf.span) := by
  obtain ⟨_, _, _, _, hsplits, _⟩ := h.place
  have htext : leaf.text.toList = '/' :: (pattern ++ '/' :: flags) := by
    rw [h.text, String.toList_ofList]
  rw [within_succ, construct, hkind]
  simp only [Build.leaf, hkind, regex?_of_splits hsplits h.nonempty htext]
  rfl

/-- What becomes of the regular expressions of a source. -/
structure ReadsRegex (source : String) : Prop where
  /-- A literal is scanned from a slash to the end of its parts. -/
  scanned : ∀ before rest stop, source.toList = before ++ '/' :: rest →
    (stop? source.toList (byteLength before) = some stop ↔
      ∃ pattern flags after, Splits rest pattern flags after ∧
        stop = byteLength (before ++ '/' :: (pattern ++ '/' :: flags)))
  /-- The parser takes what is scanned, from the slash at its current lexeme. -/
  taken : ∀ s : Grammar.Session, s.source = source.toList →
    (stop? source.toList s.span.start = none →
      Grammar.ParserM.regexLiteral s = .error (.unterminatedRegex ⟨s.span.start, s.size⟩) s) ∧
    ∀ leaf t, Grammar.ParserM.regexLiteral s = .ok leaf t →
      stop? source.toList s.span.start = some leaf.span.stop
  /-- What is cut from the source there is read as these parts. -/
  read : ∀ before rest pattern flags after, source.toList = before ++ '/' :: rest →
    Splits rest pattern flags after → pattern ≠ [] → ∀ (text : String) (span : Span),
    Text.IsSlice source.toList
      ⟨byteLength before, byteLength (before ++ '/' :: (pattern ++ '/' :: flags))⟩ text.toList →
    Literal.regex? text span = some (.regex (String.ofList pattern) (String.ofList flags) span)
  /-- All that is parsed as a regular expression has a node. -/
  built : ∀ limit root, Grammar.parse limit source = .ok (some root) → ∀ leaf ∈ root.nodes,
    leaf.kind = .regexLiteral → ∃ pattern flags, CutRegex source.toList leaf pattern flags ∧
      stop? source.toList leaf.span.start = some leaf.span.stop ∧
      Text.IsSlice source.toList leaf.span leaf.text.toList ∧
      leaf.text = "/" ++ String.ofList pattern ++ "/" ++ String.ofList flags ∧
      ∀ limit levels, (within limit (levels + 1) leaf none : Except BuildError Node) =
        .ok (.regex (String.ofList pattern) (String.ofList flags) leaf.span)

theorem readsRegex (source : String) : ReadsRegex source where
  scanned before rest stop hsource := by
    rw [hsource]
    exact Token.RegexLiteral.stop?_eq_some
  taken s hsource := by
    rw [← hsource]
    exact ⟨Grammar.regexLiteral_unterminated, fun _ _ => Grammar.stop?_of_regexLiteral⟩
  read before rest pattern flags after hsource hsplits hpattern text span hslice := by
    refine regex?_of_splits hsplits hpattern (hslice.unique ⟨before, after, ?_, rfl, rfl⟩)
    rw [hsource, hsplits.eq]
    simp
  built limit root hroot leaf hleaf hkind := by
    obtain ⟨pattern, flags, hcut⟩ := Grammar.cutRegex_of_parse hroot hleaf hkind
    obtain ⟨before, rest, after, hsource, hsplits, hspan⟩ := hcut.place
    refine ⟨pattern, flags, hcut, ?_, hcut.slice, ?_, within_regex hcut hkind⟩
    · rw [hsource, hspan]
      exact Token.RegexLiteral.stop?_eq_some.2 ⟨pattern, flags, after, hsplits, rfl⟩
    · rw [hcut.text, ← String.toList_inj]
      simp

/-- A slash in a class and one that is escaped do not close the literal. -/
theorem readsRegex_class : ∃ root leaf pattern flags,
    Grammar.parse 9 "a = /[/\\]]\\//gi" = .ok (some root) ∧ leaf ∈ root.nodes ∧
    leaf.text = "/" ++ String.ofList pattern ++ "/" ++ String.ofList flags ∧
    ∀ limit levels, (within limit (levels + 1) leaf none : Except BuildError Node) =
      .ok (.regex (String.ofList pattern) (String.ofList flags) ⟨4, 15⟩) := by
  have hsource : (Grammar.parse 9 "a = /[/\\]]\\//gi").toOption.any (fun root =>
      root.any fun root => root.nodes.any fun leaf =>
        leaf.kind == .regexLiteral && leaf.span == ⟨4, 15⟩) = true := by
    decide +kernel
  simp only [Option.any_eq_true, toOption_eq_some, List.any_eq_true, Bool.and_eq_true,
    beq_iff_eq] at hsource
  obtain ⟨_, hroot, root, rfl, leaf, hleaf, hkind, hspan⟩ := hsource
  obtain ⟨pattern, flags, -, -, -, htext, hbuilt⟩ :=
    (readsRegex _).built 9 root hroot leaf hleaf hkind
  exact ⟨root, leaf, pattern, flags, hroot, hleaf, htext, hspan ▸ hbuilt⟩

end Build

end Ecma3
