import Ecma3.Proofs.Grammar.Simulation.Program
import Ecma3.Proofs.Token.Outline
import Mathlib.Data.List.Induction
import Mathlib.Data.List.Nodup

/-! Every name and literal of a text stands in its tree once, and in the same order. -/
namespace Ecma3.Grammar
open ParserM ParseTree

variable {s t : Session} {l : Lexeme} {lexemes : List Lexeme} {L : List ParseTree}

/-- The current lexeme, and what is significant after it. -/
def Session.upcoming (s : Session) : List Lexeme.Item :=
  (s.current.map .ok).toList ++ s.cursor.items.filter Lexeme.Item.isSignificant

/-- Without a current lexeme there is nothing left. -/
def Session.Settled (s : Session) : Prop := s.current = none → s.upcoming = []

/-- The leaves stand for the lexemes one by one, except that lexemes that are no names or literals
may be left out. -/
inductive Keeps : List Lexeme → List ParseTree → Prop where
  | nil : Keeps [] []
  | pass {lexemes : List Lexeme} {L : List ParseTree} {l : Lexeme} : Keeps lexemes L →
      l.token.isAtom = false → Keeps (lexemes ++ [l]) L
  | keep {lexemes : List Lexeme} {L : List ParseTree} {l : Lexeme} {kind : Kind} :
      Keeps lexemes L → Keeps (lexemes ++ [l]) (L ++ [.leaf kind l.text l.span])

theorem upcoming_advance (h : advance s = .ok () t) : t.Settled ∧
    s.cursor.items.filter Lexeme.Item.isSignificant = t.upcoming := by
  obtain ⟨next, broken, d, hn, rfl⟩ := advance_eq_ok h
  rcases Cursor.significant_nextSignificant hn with ⟨hnone, hfilter, hd⟩ | ⟨i, hi, hfilter⟩
  · have hnext : next = none := by simpa using hnone
    subst hnext
    have hupcoming : ∀ s : Session, s.current = none → s.cursor.items = [] → s.upcoming = [] := by
      intro s hs hcursor
      simp [Session.upcoming, hs, hcursor]
    refine ⟨fun _ => hupcoming _ rfl hd, ?_⟩
    rw [hfilter, hupcoming _ rfl hd]
  · rw [hfilter]
    cases next with
    | none => simp at hi
    | some l =>
      cases hi
      exact ⟨by simp [Session.Settled], rfl⟩

theorem upcoming_of_current (hcurrent : s.current = some l) (h : advance s = .ok () t) :
    s.upcoming = .ok l :: t.upcoming := by
  rw [← (upcoming_advance h).2]
  simp [Session.upcoming, hcurrent]

theorem Session.Walk.keeps (h : s.Walk L t) (hs : s.Settled)
    (hregex : ∀ leaf ∈ L, leaf.kind ≠ .regexLiteral) :
    t.Settled ∧ ∃ lexemes, s.upcoming = lexemes.map .ok ++ t.upcoming ∧ Keeps lexemes L := by
  induction h with
  | refl => exact ⟨hs, [], rfl, .nil⟩
  | level depth _ ih => exact ih hregex
  | @pass L t u l _ hcurrent htoken hadvance ih =>
    obtain ⟨-, lexemes, hupcoming, hkeeps⟩ := ih hregex
    refine ⟨(upcoming_advance hadvance).1, lexemes ++ [l], ?_, hkeeps.pass htoken⟩
    simp [hupcoming, upcoming_of_current hcurrent hadvance]
  | @keep L t u l kind _ hcurrent _ _ hadvance ih =>
    rw [List.forall_mem_append] at hregex
    obtain ⟨-, lexemes, hupcoming, hkeeps⟩ := ih hregex.1
    refine ⟨(upcoming_advance hadvance).1, lexemes ++ [l], ?_, hkeeps.keep⟩
    simp [hupcoming, upcoming_of_current hcurrent hadvance]
  | @literal L t u l tree _ _ _ hliteral _ =>
    obtain ⟨m, cursor, -, -, rfl, -⟩ := regexLiteral_eq_ok hliteral
    exact absurd rfl (hregex _ (List.mem_append_right _ List.mem_cons_self))

/-- The leaves have the texts and places of some of the lexemes, in their order. -/
theorem Keeps.sublist (h : Keeps lexemes L) :
    (L.map fun leaf => (leaf.text, leaf.span)).Sublist (lexemes.map fun l => (l.text, l.span)) := by
  induction h with
  | nil => simp
  | pass _ _ ih =>
    rw [List.map_append]
    exact ih.trans (List.sublist_append_left _ _)
  | keep _ ih =>
    rw [List.map_append, List.map_append]
    exact ih.append (List.Sublist.refl _)

theorem Keeps.exists_lexeme (h : Keeps lexemes L) : ∀ leaf ∈ L, ∃ l ∈ lexemes, l.span = leaf.span := by
  intro leaf hleaf
  obtain ⟨l, hl, hsame⟩ := List.mem_map.1 (h.sublist.subset (List.mem_map_of_mem hleaf))
  exact ⟨l, hl, (Prod.mk.inj hsame).2⟩

/-- Lexemes at the front that no leaf stands for are left out. -/
theorem Keeps.of_append {words rest : List Lexeme} (h : Keeps (words ++ rest) L)
    (hwords : ∀ l ∈ words, ∀ leaf ∈ L, l.span ≠ leaf.span) : Keeps rest L := by
  induction rest using List.reverseRecOn generalizing L with
  | nil =>
    -- All lexemes are words, so there are no leaves.
    rw [List.append_nil] at h
    cases L with
    | nil => exact .nil
    | cons leaf L =>
      obtain ⟨l, hl, hspan⟩ := h.exists_lexeme leaf List.mem_cons_self
      exact absurd hspan (hwords l hl leaf List.mem_cons_self)
  | append_singleton init last ih =>
    rw [← List.append_assoc] at h
    generalize hlexemes : words ++ init ++ [last] = lexemes at h
    cases h with
    | nil => simp at hlexemes
    | pass hkeeps hatom =>
      obtain ⟨rfl, hlast⟩ := List.append_inj' hlexemes rfl
      cases hlast
      exact (ih hkeeps hwords).pass hatom
    | keep hkeeps =>
      obtain ⟨rfl, hlast⟩ := List.append_inj' hlexemes rfl
      cases hlast
      exact (ih hkeeps fun l hl leaf hleaf => hwords l hl leaf (List.mem_append_left _ hleaf)).keep

theorem Keeps.mem (h : Keeps lexemes L) : ∀ l ∈ lexemes, l.token.isAtom = true →
    ∃ leaf ∈ L, leaf.span = l.span := by
  induction h with
  | nil => simp
  | @pass lexemes L l _ hl ih =>
    intro m hm hatom
    rcases List.mem_append.1 hm with hm | hm
    · exact ih m hm hatom
    · rw [List.mem_singleton] at hm
      simp [hm, hl] at hatom
  | @keep lexemes L l kind _ ih =>
    intro m hm hatom
    rcases List.mem_append.1 hm with hm | hm
    · obtain ⟨leaf, hleaf, hspan⟩ := ih m hm hatom
      exact ⟨leaf, List.mem_append_left _ hleaf, hspan⟩
    · rw [List.mem_singleton] at hm
      exact ⟨_, List.mem_append_right _ List.mem_cons_self, by rw [hm]; rfl⟩

/-- The leaves are cut from the text, one behind the other. -/
theorem Keeps.ordered {source : String} (hlexemes : Lexeme.tokenize source = .ok lexemes)
    (h : Keeps (Lexeme.significant lexemes) L) :
    L.Pairwise (fun a b => a.span.stop ≤ b.span.start) ∧
      ∀ leaf ∈ L, leaf.span.start < leaf.span.stop ∧
        Text.IsSlice source.toList leaf.span leaf.text.toList := by
  have hcover := Lexeme.scan_cover source
  rw [Lexeme.tokenize_eq_ok.1 hlexemes] at hcover
  have hsublist : (L.map fun leaf => (leaf.text, leaf.span)).Sublist
      (lexemes.map fun l => (l.text, l.span)) :=
    h.sublist.trans ((List.filter_sublist).map _)
  constructor
  · have hpairs : (lexemes.map fun l => (l.text, l.span)).Pairwise
        fun a b => a.2.stop ≤ b.2.start :=
      List.pairwise_map.2 (List.pairwise_map.1 hcover.ordered)
    exact List.pairwise_map.1 (hpairs.sublist hsublist)
  · intro leaf hleaf
    obtain ⟨l, hl, hsame⟩ := List.mem_map.1 (hsublist.subset (List.mem_map_of_mem hleaf))
    simp only [Prod.mk.injEq] at hsame
    rw [← hsame.1, ← hsame.2]
    have hitem : (.ok l : Lexeme.Item) ∈ lexemes.map .ok := List.mem_map_of_mem hl
    exact ⟨hcover.nonempty _ hitem, hcover.slice _ hitem⟩

/-- Leaves that stand one behind the other have places of their own. -/
theorem nodup_of_ordered (hordered : L.Pairwise fun a b => a.span.stop ≤ b.span.start)
    (hpos : ∀ leaf ∈ L, leaf.span.start < leaf.span.stop) : (L.map (·.span)).Nodup := by
  refine List.pairwise_map.2 (hordered.imp_of_mem fun {a b} ha _ hab hsame => ?_)
  have hpos := hpos a ha
  rw [hsame] at hab hpos
  omega

/-- The significant lexemes of a text that is parsed without regular expressions, and the leaves
that stand for them. -/
theorem keeps_of_parse {limit : Nat} {source : String} {root : Option ParseTree}
    (hroot : parse limit source = .ok root)
    (hregex : ∀ leaf ∈ root.toList.flatMap atoms, leaf.kind ≠ .regexLiteral) :
    ∃ lexemes, Lexeme.tokenize source = .ok lexemes ∧
      Keeps (Lexeme.significant lexemes) (root.toList.flatMap atoms) := by
  obtain ⟨s, t, hs, ht⟩ := parse_eq_ok.1 hroot
  obtain ⟨hsettled, hscan⟩ := upcoming_advance hs
  obtain ⟨hwalk, hend⟩ := (program_moves s).ok ht
  obtain ⟨hlast, kept, hkept, hkeeps⟩ := hwalk.keeps hsettled hregex
  rw [hlast hend, List.append_nil, ← hscan] at hkept
  obtain ⟨lexemes, hlexemes, rfl⟩ := Lexeme.tokenize_of_significant hkept
  exact ⟨lexemes, hlexemes, hkeeps⟩

/-- Nothing is lost, doubled or moved: a text whose tree has no regular expression consists of
tokens, the names and literals of the tree have their texts and places in it one behind the other,
and each token that is a name or literal is one of them. -/
theorem parse_atoms {limit : Nat} {source : String} {root : Option ParseTree}
    (hroot : parse limit source = .ok root)
    (hregex : ∀ t ∈ root.toList.flatMap nodes, t.kind ≠ .regexLiteral) :
    ∃ lexemes leaves, Lexeme.tokenize source = .ok lexemes ∧
      leaves = (root.toList.flatMap nodes).filter (·.kind.isAtom) ∧
      leaves.Pairwise (fun a b => a.span.stop ≤ b.span.start) ∧
      (∀ leaf ∈ leaves, leaf.span.start < leaf.span.stop ∧
        Text.IsSlice source.toList leaf.span leaf.text.toList) ∧
      ∀ l ∈ lexemes, l.token.isAtom = true → leaves.countP (·.span = l.span) = 1 := by
  have hatoms := flatMap_atoms root.toList
  have hkept : ∀ leaf ∈ root.toList.flatMap atoms, leaf.kind ≠ .regexLiteral := by
    intro leaf hleaf
    rw [hatoms] at hleaf
    exact hregex leaf (List.mem_filter.1 hleaf).1
  obtain ⟨lexemes, hlexemes, hkeeps⟩ := keeps_of_parse hroot hkept
  obtain ⟨hordered, hcut⟩ := hkeeps.ordered hlexemes
  have hnodup := nodup_of_ordered hordered fun leaf hleaf => (hcut leaf hleaf).1
  refine ⟨lexemes, root.toList.flatMap atoms, hlexemes, hatoms, hordered, hcut, ?_⟩
  intro l hl hatom
  have hsignificant : l ∈ Lexeme.significant lexemes := by
    refine List.mem_filter.2 ⟨hl, ?_⟩
    cases htoken : l.token <;> simp_all [Token.isAtom, Token.isTrivia]
  obtain ⟨leaf, hleaf, hspan⟩ := hkeeps.mem l hsignificant hatom
  have hcount := List.count_eq_one_of_mem hnodup (List.mem_map_of_mem hleaf)
  rw [hspan, List.count, List.countP_map] at hcount
  rw [← hcount]
  exact List.countP_congr fun a _ => by simp

theorem parse_atoms_member : ∃ root lexemes leaves, parse 4 "a = this.if" = .ok root ∧
    Lexeme.tokenize "a = this.if" = .ok lexemes ∧
    leaves = (root.toList.flatMap nodes).filter (·.kind.isAtom) ∧
    leaves.Pairwise (fun a b => a.span.stop ≤ b.span.start) ∧
    (∀ leaf ∈ leaves, leaf.span.start < leaf.span.stop ∧
      Text.IsSlice "a = this.if".toList leaf.span leaf.text.toList) ∧
    ∀ l ∈ lexemes, l.token.isAtom = true → leaves.countP (·.span = l.span) = 1 := by
  have hplain : (parse 4 "a = this.if").toOption.map (fun root =>
      (root.toList.flatMap nodes).all (·.kind != .regexLiteral)) = some true := by decide +kernel
  cases hroot : parse 4 "a = this.if" with
  | error e => simp [hroot, Except.toOption] at hplain
  | ok root =>
    simp only [hroot, Except.toOption, Option.map_some, Option.some.injEq, List.all_eq_true,
      bne_iff_ne] at hplain
    obtain ⟨lexemes, leaves, hatoms⟩ := parse_atoms hroot hplain
    exact ⟨root, lexemes, leaves, rfl, hatoms⟩

end Ecma3.Grammar
