import Ecma3.Proofs.Grammar.Coherent
import Ecma3.Proofs.ParseTree.Shape

/-! Leaves that parsers make, with the texts that strings and regular expressions have. -/
namespace Ecma3

namespace ParseTree

/-- A well-formed expression that holds together at least this tightly. -/
def Operand (least : Nat) (t : ParseTree) : Prop := t.WellFormed ∧ t.Binds least

/-- A well-formed tree of this kind. -/
def Has (kind : Kind) (t : ParseTree) : Prop := t.WellFormed ∧ t.kind = kind

theorem Operand.mono {t : ParseTree} {m n : Nat} (h : t.Operand n) (hm : m ≤ n) : t.Operand m :=
  ⟨h.1, h.2.mono hm⟩

theorem wellFormed_leaf {kind : Kind} {text : String} {span : Span}
    (h : Shape (.leaf kind text span)) : WellFormed (.leaf kind text span) :=
  .intro h (by simp [leaf])

theorem Has.eq_leaf {t : ParseTree} (h : t.Has .identifier) :
    t = .leaf .identifier t.text t.span := by
  obtain ⟨hwell, hkind⟩ := h
  have hshape := hwell.root
  simp only [Shape, hkind] at hshape
  cases t
  simp_all [leaf]

end ParseTree

namespace Grammar.ParserM
open ParseTree

variable {s : Session} {t : Token} {kind : Kind}

theorem token?_eq_some (h : s.token? = some t) : ∃ l, s.current = some l ∧ l.token = t := by
  simpa [Session.token?] using h

/-- A leaf holds the text of the current lexeme, which its token matched. -/
theorem leads_leaf_of_token (hs : s.Coherent) (ht : s.token? = some t) :
    Leads (leaf kind) s
      (fun tree u => (∃ cs n, Token.Pattern.longest? cs = some (t, n) ∧
        tree = .leaf kind (String.ofList (cs.take n)) s.span) ∧ u.Coherent) fun _ _ => True := by
  rw [leads_leaf]
  refine (leads_advance hs.cursor).imp fun _ u hu => ⟨?_, hu.1⟩
  obtain ⟨l, hl, rfl⟩ := token?_eq_some ht
  obtain ⟨c, -, hitem, -⟩ := hs.current l hl
  obtain ⟨n, hn, htext, -⟩ := Cursor.item_ok hitem
  exact ⟨c.rest, n, hn, by simp [Session.text, hl, htext, Cursor.text]⟩

theorem gives_leaf (h : ∀ text span, Shape (.leaf kind text span)) :
    Gives (leaf kind) (Has kind) := by
  intro s hs
  rw [leads_leaf]
  exact (leads_advance hs.cursor).imp fun _ u hu => ⟨⟨wellFormed_leaf (h _ _), rfl⟩, hu.1⟩

theorem gives_name : Gives (leaf .identifier) (Has .identifier) := gives_leaf fun _ _ => rfl

theorem leads_string (hs : s.Coherent) (ht : s.token? = some .stringLiteral) :
    Leads (leaf .stringLiteral) s (fun tree u => tree.Has .stringLiteral ∧ u.Coherent)
      fun _ _ => True := by
  refine (leads_leaf_of_token hs ht).imp fun tree u hu => ⟨?_, hu.2⟩
  obtain ⟨⟨cs, n, hn, rfl⟩, -⟩ := hu
  have hstring := Token.Pattern.longest?_matched hn
  exact ⟨wellFormed_leaf
    ⟨rfl, Build.Literal.string?_isSome hstring (by simp [ParseTree.leaf])⟩, rfl⟩

/-- Words and literals that are expressions by themselves. -/
theorem leads_simple (hs : s.Coherent) (ht : s.token? = some t) (hk : simpleKind? t = some kind) :
    Leads (leaf kind) s (fun tree u => tree.Operand 17 ∧ u.Coherent) fun _ _ => True := by
  have hbinds : ∀ tree : ParseTree, tree.kind = kind → tree.Binds 17 := by
    intro tree htree
    exact ⟨17, by rw [htree, simpleKind?_strength hk], Nat.le_refl _⟩
  have hleaf : (t = .stringLiteral ∧ kind = .stringLiteral) ∨
      ∀ text span, Shape (.leaf kind text span) := by
    unfold simpleKind? at hk
    split at hk <;> cases hk
    all_goals first
      | exact Or.inr fun _ _ => rfl
      | exact Or.inl ⟨rfl, rfl⟩
  rcases hleaf with ⟨rfl, rfl⟩ | hshape
  · exact (leads_string hs ht).imp fun tree u h => ⟨⟨h.1.1, hbinds tree h.1.2⟩, h.2⟩
  · exact (gives_leaf hshape s hs).imp fun tree u h => ⟨⟨h.1.1, hbinds tree h.1.2⟩, h.2⟩

/-- A regular expression is cut from the source at the slash that opens it. -/
theorem leads_regexLiteral (hs : s.Coherent) (ht : s.token? = some t)
    (hopen : t.mayOpenRegex = true) :
    Leads regexLiteral s (fun tree u => tree.Operand 17 ∧ u.Coherent) fun _ _ => True := by
  obtain ⟨l, hl, rfl⟩ := token?_eq_some ht
  obtain ⟨c, ⟨before, hsource, hoffset⟩, hitem, -⟩ := hs.current l hl
  obtain ⟨n, hn, -, hspan, -⟩ := Cursor.item_ok hitem
  obtain ⟨rest, hrest, hslash⟩ := Token.Pattern.slash_of_mayOpenRegex hn hopen
  have hdrop : Text.dropBytes? s.span.start s.source = some ('/' :: rest) := by
    have hstart : s.span.start = c.offset := by simp [Session.span, hl, hspan, Cursor.span]
    rw [hstart, hsource, ← hrest, hoffset, Text.dropBytes?_append]
  simp only [regexLiteral, leads_bind, leads_get, hdrop, Option.bind_eq_bind, Option.bind_some]
  cases hlen : Token.RegexLiteral.length? ('/' :: rest) with
  | none => exact trivial
  | some k =>
    simp only [Option.bind_some, Option.pure_def]
    split
    · exact trivial
    · rename_i cursor hcursor
      simp only [leads_bind, leads_set, leads_pure]
      refine (leads_advance (s := { s with cursor, current := _ }) ?_).imp fun _ u hu =>
        ⟨⟨?_, ?_⟩, hu.1⟩
      · exact hs.cursor.skipBytes? hcursor
      · refine wellFormed_leaf ⟨rfl, Build.Literal.regex?_isSome hlen hslash ?_⟩
        simp [ParseTree.leaf]
      · exact ⟨17, rfl, Nat.le_refl _⟩

end Grammar.ParserM
end Ecma3
