import Ecma3.Proofs.Grammar.Places.Program
import Ecma3.Proofs.Token.Cover

/-! The leaves of a tree stand in the text one behind the other, and each has a character of its
own. -/
namespace Ecma3.Grammar

open ParserM ParseTree
open Text (byteLength)

variable {source : List Char} {s t : Session} {l : Lexeme} {L : List ParseTree} {tree : ParseTree}
  {m n : Nat}

/-- Trees that stand one behind the other and are not empty begin one behind the other. -/
theorem row_starts {ts : List ParseTree} (h : Row source m ts n)
    (hfilled : ∀ t ∈ ts, t.span.start < t.span.stop) :
    (∀ t ∈ ts, m ≤ t.span.start) ∧ ts.Pairwise fun a b => a.span.start < b.span.start := by
  induction h with
  | nil => exact ⟨nofun, .nil⟩
  | @cons m k n t ts hfirst _ ih =>
    obtain ⟨hpos, hfilled⟩ := List.forall_mem_cons.1 hfilled
    obtain ⟨hlow, hstarts⟩ := ih hfilled
    have hplace := hfirst.place
    refine ⟨List.forall_mem_cons.2 ⟨hplace.low, fun u hu => ?_⟩, hstarts.cons fun u hu => ?_⟩
    · exact Nat.le_trans hfirst.le (hlow u hu)
    · exact Nat.lt_of_lt_of_le hpos (Nat.le_trans hplace.high (hlow u hu))

/-- The current lexeme is not empty. -/
theorem Session.Coherent.filled (hs : s.Coherent) (hcurrent : s.current = some l) :
    l.span.start < l.span.stop := by
  obtain ⟨c, -, hitem, -⟩ := hs.current l hcurrent
  have hne : c.rest ≠ [] := by
    intro hnil
    obtain ⟨n, hn, -⟩ := Cursor.item_ok hitem
    have hnone : Token.Pattern.longest? [] = none := by decide
    rw [hnil, hnone] at hn
    cases hn
  obtain ⟨htext, -, hspan, hoffset⟩ := Cursor.item_eq hne hitem
  have hpos := Text.byteLength_pos htext
  have hspan : l.span = ⟨c.offset, s.cursor.offset⟩ := hspan
  rw [hspan]
  dsimp only
  omega

/-- A regular expression has at least the slash that opens it. -/
theorem Session.Coherent.regex_filled (hs : s.Coherent) (hcurrent : s.current = some l)
    (hopen : l.token.mayOpenRegex = true) {literal : Lexeme} (hliteral : s.regex? = some literal) :
    literal.span.start < literal.span.stop := by
  obtain ⟨d, hskip, hoffset, -⟩ := hs.rescan hcurrent hopen hliteral
  have hbehind := (Cursor.skipBytes?_eq hskip).2
  have hstop := hs.stop_eq hcurrent
  have hfilled := hs.filled hcurrent
  have hstart : literal.span.start = l.span.start := by
    simp only [Session.regex?, Option.bind_eq_bind, Option.bind_eq_some_iff, Option.pure_def,
      Option.some.injEq] at hliteral
    obtain ⟨_, -, _, -, rfl⟩ := hliteral
    simp only [Session.span, hcurrent]
  omega

/-- The moves pass the leaves that they keep one behind the other. -/
theorem Session.Walk.row (h : s.Walk L t) (hs : s.Sited source) :
    t.Sited source ∧ Row source s.lastEnd L t.lastEnd ∧
      ∀ leaf ∈ L, leaf.span.start < leaf.span.stop := by
  induction h with
  | refl => exact ⟨hs, .nil (Nat.le_refl _), nofun⟩
  | level depth _ ih => exact ⟨ih.1.withDepth depth, ih.2⟩
  | @pass L t u l _ _ _ hadvance ih =>
    obtain ⟨ht, hrow, hfilled⟩ := ih
    obtain ⟨hu, hle⟩ := (spans_advance t ht).ok hadvance
    exact ⟨hu, hrow.mono (Nat.le_refl _) hle, hfilled⟩
  | @keep L t u l kind _ hcurrent _ _ hadvance ih =>
    obtain ⟨ht, hrow, hfilled⟩ := ih
    have htoken : t.token? = some l.token := by simp [Session.token?, hcurrent]
    obtain ⟨hu, hplace⟩ := (leads_advance_token ht htoken).ok hadvance
    have hspan : t.span = l.span := by simp only [Session.span, hcurrent]
    refine ⟨hu, hrow.append (.one (.leaf (hspan ▸ hplace))), List.forall_mem_append.2 ⟨hfilled, ?_⟩⟩
    exact List.forall_mem_singleton.2 (ht.coherent.filled hcurrent)
  | @literal L t u l tree _ hcurrent hopen hliteral ih =>
    obtain ⟨ht, hrow, hfilled⟩ := ih
    have htoken : t.token? = some l.token := by simp [Session.token?, hcurrent]
    obtain ⟨hu, htree⟩ := (leads_regexLiteral_sited ht htoken hopen).ok hliteral
    obtain ⟨literal, _, hregex, -, rfl, -⟩ := regexLiteral_eq_ok hliteral
    refine ⟨hu, hrow.append (.one htree), List.forall_mem_append.2 ⟨hfilled, ?_⟩⟩
    exact List.forall_mem_singleton.2 (ht.coherent.regex_filled hcurrent hopen hregex)

/-- The names and literals of a source begin one behind the other, in the order of its tree. -/
theorem parse_atoms_starts {limit : Nat} {text : String} {root : Option ParseTree}
    (h : parse limit text = .ok root) :
    (root.toList.flatMap atoms).Pairwise fun a b => a.span.start < b.span.start := by
  obtain ⟨s, t, hs, ht⟩ := parse_eq_ok.1 h
  obtain ⟨hsited, -⟩ := (leads_start limit text).ok hs
  obtain ⟨hwalk, -⟩ := (program_moves s).ok ht
  obtain ⟨-, hrow, hfilled⟩ := hwalk.row hsited
  exact (row_starts hrow hfilled).2

end Ecma3.Grammar
