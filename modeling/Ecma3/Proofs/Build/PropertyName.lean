import Mathlib.Data.List.DropRight
import Ecma3.Proofs.Build.Made
import Ecma3.Proofs.Build.Object
import Ecma3.Proofs.Grammar.Everywhere
import Ecma3.Proofs.Outcome
import Ecma3.Proofs.Token.Single

/-!
The names of properties. A key that is a string loses the quotes around it, and with them any quotes
that its contents begin or end with.
-/
namespace Ecma3

namespace Build.Literal

variable {cs : List Char} {text content : String} {span : Span} {quote c : Char}

/-- The text has no quote at either end. -/
def Unquoted (text : String) : Prop :=
  (∀ c ∈ text.toList.head?, isQuote c = false) ∧ ∀ c ∈ text.toList.getLast?, isQuote c = false

theorem unquoted_of_notMem (h : ∀ c ∈ text.toList, isQuote c = false) : Unquoted text :=
  ⟨fun c hc => h c (List.mem_of_head? hc), fun c hc => h c (List.mem_of_getLast? hc)⟩

/-- The characters between the quotes at both ends. -/
def trim (cs : List Char) : List Char := (cs.dropWhile isQuote).rdropWhile isQuote

theorem propertyName_eq (text : String) :
    propertyName text = String.ofList (trim text.toList) := rfl

/-- Quotes around a text are not told from quotes in it. -/
theorem trim_quoted (hquote : isQuote quote = true) (body : List Char) :
    trim (quote :: (body ++ [quote])) = trim body := by
  rw [trim, trim, List.dropWhile_cons_of_pos hquote, List.dropWhile_append]
  split
  · -- There is nothing but quotes inside, and the closing one goes from the left as well.
    rename_i hempty
    rw [List.isEmpty_iff.1 hempty, List.dropWhile_cons_of_pos hquote, List.dropWhile_nil]
  · exact List.rdropWhile_concat_pos _ _ _ hquote

theorem dropWhile_eq_self :
    cs.dropWhile isQuote = cs ↔ ∀ c ∈ cs.head?, isQuote c = false := by
  cases cs with
  | nil => simp
  | cons c cs => simp [List.dropWhile_eq_self_iff]

theorem rdropWhile_eq_self :
    cs.rdropWhile isQuote = cs ↔ ∀ c ∈ cs.getLast?, isQuote c = false := by
  rw [List.rdropWhile_eq_self_iff]
  by_cases hcs : cs = []
  · simp [hcs]
  · simp [hcs, List.getLast?_eq_some_getLast]

/-- Nothing is lost only where there is no quote at either end. -/
theorem trim_eq_self : trim cs = cs ↔
    (∀ c ∈ cs.head?, isQuote c = false) ∧ ∀ c ∈ cs.getLast?, isQuote c = false := by
  rw [← dropWhile_eq_self, ← rdropWhile_eq_self]
  constructor
  · intro h
    have hsuffix : cs.dropWhile isQuote <:+ cs := List.dropWhile_suffix _
    have hprefix : trim cs <+: cs.dropWhile isQuote := List.rdropWhile_prefix _ _
    rw [h] at hprefix
    have hleft := hsuffix.eq_of_length (Nat.le_antisymm hsuffix.length_le hprefix.length_le)
    refine ⟨hleft, ?_⟩
    rw [trim, hleft] at h
    exact h
  · rintro ⟨hleft, hright⟩
    rw [trim, hleft, hright]

theorem propertyName_eq_self : propertyName text = text ↔ Unquoted text := by
  rw [propertyName_eq, Unquoted, ← trim_eq_self, ← String.toList_inj, String.toList_ofList]

theorem propertyName_of_string (h : string? text span = some (.string content quote span)) :
    propertyName text = propertyName content := by
  obtain ⟨_, _, hquote, htext, heq⟩ := string?_eq_some h
  cases heq
  rw [propertyName_eq, propertyName_eq, htext, trim_quoted hquote]

/-- A text that is one token, and that a string, is read as a string. -/
theorem string?_of_tokenize
    (h : Lexeme.tokenize text = .ok [⟨.stringLiteral, text, span⟩]) :
    (string? text span).isSome := by
  have hlongest := Lexeme.longest?_of_tokenize h
  refine string?_isSome (Token.Pattern.longest?_matched hlongest) ?_
  rw [List.take_length]

end Build.Literal

open Build.Literal (Unquoted propertyName)

namespace Grammar

variable {key : ParseTree} {limit : Nat} {source : String} {root : ParseTree}

theorem keyKind?_eq_some {token : Token} {kind : Kind} (h : keyKind? token = some kind) :
    (token = .stringLiteral ∧ kind = .stringLiteral) ∨ kind ≠ .stringLiteral ∧
      (token = .decimalLiteral ∨ token = .hexLiteral ∨ isNameLike token = true) := by
  unfold keyKind? at h
  split at h
  · exact .inl ⟨rfl, (Option.some.inj h).symm⟩
  · cases h
    exact .inr ⟨nofun, .inl rfl⟩
  · cases h
    exact .inr ⟨nofun, .inr (.inl rfl)⟩
  · split at h
    · cases h
      exact .inr ⟨nofun, .inr (.inr ‹_›)⟩
    · cases h

theorem IsKeyToken.string (h : IsKeyToken key) (hkind : key.kind = .stringLiteral) :
    ∃ content quote, Build.Literal.string? key.text key.span =
      some (.string content quote key.span) := by
  obtain ⟨cs, n, token, kind, span, hlongest, htoken, rfl⟩ := h
  obtain rfl : kind = .stringLiteral := hkind
  obtain ⟨rfl, -⟩ | ⟨hne, -⟩ := keyKind?_eq_some htoken
  · have hmatched := Token.Pattern.longest?_matched hlongest
    obtain ⟨node, hnode⟩ := Option.isSome_iff_exists.1
      (Build.Literal.string?_isSome hmatched String.toList_ofList)
    obtain ⟨content, quote, -, -, rfl⟩ := Build.string?_eq_some hnode
    exact ⟨content, quote, hnode⟩
  · exact absurd rfl hne

/-- A name or a number has no quotes. -/
theorem IsKeyToken.unquoted (h : IsKeyToken key) (hkind : key.kind ≠ .stringLiteral) :
    Unquoted key.text := by
  obtain ⟨cs, n, token, kind, span, hlongest, htoken, rfl⟩ := h
  obtain ⟨-, rfl⟩ | ⟨-, htoken⟩ := keyKind?_eq_some htoken
  · exact absurd rfl hkind
  · have hmatched := Token.Pattern.longest?_matched hlongest
    refine Build.Literal.unquoted_of_notMem fun c hc => Bool.eq_false_iff.2 fun hquote => ?_
    have hforeign : Token.Pattern.Foreign c := Token.Pattern.foreign_quote hquote
    rw [ParseTree.leaf, String.toList_ofList] at hc
    revert hc
    rcases htoken with rfl | rfl | hname
    · exact Token.Pattern.notMem_decimal hforeign hmatched
    · exact Token.Pattern.notMem_hex hforeign hmatched
    · cases token with
      | identifier | reserved => exact Token.Pattern.notMem_name hforeign hmatched
      | _ => cases hname

end Grammar

namespace ParseTree

variable {entry : ParseTree} {e : String × ParseTree}

/-- The entry of an object has a key that comes from a token. -/
def HasKey (entry : ParseTree) : Prop :=
  entry.kind = .namedValue → ∃ key value, entry.children = [key, value] ∧ Grammar.IsKeyToken key

/-- What the key of an entry stands for: the contents of a string, or the text of any other key. -/
inductive StandsFor (entry : ParseTree) : String × ParseTree → Prop where
  | string {key value : ParseTree} {content : String} {quote : Char}
    (hchildren : entry.children = [key, value]) (hkind : key.kind = .stringLiteral)
    (h : Build.Literal.string? key.text key.span = some (.string content quote key.span)) :
    StandsFor entry (content, value)
  | plain {key value : ParseTree} (hchildren : entry.children = [key, value])
    (hkind : key.kind ≠ .stringLiteral) (h : Unquoted key.text) : StandsFor entry (key.text, value)

theorem HasKey.standsFor (h : entry.HasKey) (hkind : entry.kind = .namedValue) :
    ∃ e, entry.StandsFor e := by
  obtain ⟨key, value, hchildren, hkey⟩ := h hkind
  by_cases hstring : key.kind = .stringLiteral
  · obtain ⟨content, quote, hcontent⟩ := hkey.string hstring
    exact ⟨(content, value), .string hchildren hstring hcontent⟩
  · exact ⟨(key.text, value), .plain hchildren hstring (hkey.unquoted hstring)⟩

/-- The value has the name that the key stands for, less the quotes at its ends. -/
theorem StandsFor.enters (h : entry.StandsFor e) (hkind : entry.kind = .namedValue) :
    entry.Enters (propertyName e.1, e.2) := by
  cases h with
  | string hchildren _ h =>
    exact ⟨hkind, _, hchildren, Build.Literal.propertyName_of_string h⟩
  | plain hchildren => exact ⟨hkind, _, hchildren, rfl⟩

end ParseTree

namespace Grammar

theorem keys_everywhere {limit : Nat} {source : String} {root : ParseTree}
    (hroot : parse limit source = .ok (some root)) : root.Everywhere ParseTree.HasKey := by
  have hother : ∀ t : ParseTree, t.kind ≠ .namedValue → t.HasKey := fun _ hne hkind =>
    absurd hkind hne
  have hcommon : ∀ t : ParseTree, t.kind.isCommon = true → t.HasKey := fun t ht =>
    hother t (Kind.ne_of_isCommon ht).2
  refine parse_everywhere hcommon (fun _ => ?_) (fun _ _ hkeeps => ?_) hroot
  · exact Inner.keeps_property hcommon fun key value _ hkey _ => ⟨key, value, rfl, hkey⟩
  · refine Inner.keeps_ifStatement hkeeps fun t ht => hother t ?_
    rw [ht]
    exact nofun

end Grammar

namespace Build

open List (Forall₂)

theorem exists_forall₂ {α β : Type} {R : α → β → Prop} {as : List α} (h : ∀ a ∈ as, ∃ b, R a b) :
    ∃ bs, Forall₂ R as bs := by
  induction as with
  | nil => exact ⟨[], .nil⟩
  | cons a as ih =>
    obtain ⟨⟨b, hb⟩, has⟩ := List.forall_mem_cons.1 h
    obtain ⟨bs, hbs⟩ := ih has
    exact ⟨b :: bs, .cons hb hbs⟩

/-- What becomes of the names that the keys of an object stand for: they lose the quotes at their
ends. Two that have none share a property only if they are the same, and if no name has any, these
are the names of the properties. -/
structure NamesProperties (object : ParseTree) (entries : List (String × ParseTree)) : Prop where
  keys : Forall₂ ParseTree.StandsFor object.children entries
  trimmed : ∀ limit levels, LastWins (within limit levels) object.span
    (entries.map fun e => (propertyName e.1, e.2)) (within limit (levels + 1) object none)
  merged : ∀ e ∈ entries, ∀ f ∈ entries, Unquoted e.1 → Unquoted f.1 →
    (propertyName e.1 = propertyName f.1 ↔ e.1 = f.1)
  kept : (∀ e ∈ entries, Unquoted e.1) → ∀ limit levels,
    LastWins (within limit levels) object.span entries (within limit (levels + 1) object none)

theorem map_propertyName {entries : List (String × ParseTree)} (h : ∀ e ∈ entries, Unquoted e.1) :
    entries.map (fun e => (propertyName e.1, e.2)) = entries := by
  have hsame : ∀ e ∈ entries, (propertyName e.1, e.2) = id e := fun e he => by
    rw [Literal.propertyName_eq_self.2 (h e he), id]
  rw [List.map_congr_left hsame, List.map_id]

theorem exists_namesProperties {limit : Nat} {source : String} {root object : ParseTree}
    (hroot : Grammar.parse limit source = .ok (some root)) (hobject : object ∈ root.nodes)
    (hkind : object.kind = .object) : ∃ entries, NamesProperties object entries := by
  have hshape := ((Grammar.parse_isRoot hroot).1.of_mem_nodes hobject).root
  simp only [ParseTree.Shape, hkind] at hshape
  have hkeys := ((Grammar.keys_everywhere hroot).of_mem_nodes hobject).inside
  obtain ⟨entries, hentries⟩ :=
    exists_forall₂ fun c hc => (hkeys c hc).root.standsFor (hshape c hc)
  have henters : Forall₂ ParseTree.Enters object.children
      (entries.map fun e => (propertyName e.1, e.2)) := by
    have hboth := (List.forall₂_and_left _ _).2 ⟨hshape, hentries⟩
    exact List.forall₂_map_right_iff.2 (hboth.imp fun _ _ h => h.2.enters h.1)
  refine ⟨entries, hentries, lastWins_object hkind henters, ?_, fun hunquoted => ?_⟩
  · intro e _ f _ he hf
    rw [Literal.propertyName_eq_self.2 he, Literal.propertyName_eq_self.2 hf]
  · rw [map_propertyName hunquoted] at henters
    exact lastWins_object hkind henters

/-- The text of a string names a property by its contents, unless these have a quote at one of their
ends. So in the objects of a source, keys with different contents name different properties unless
they differ in such quotes. -/
theorem names_of_source (text : String) (limit : Nat) :
    (∀ span, Lexeme.tokenize text = .ok [⟨.stringLiteral, text, span⟩] →
      ∃ content quote, Literal.string? text span = some (.string content quote span) ∧
        text.toList = quote :: (content.toList ++ [quote]) ∧
        (propertyName text = content ↔ Unquoted content)) ∧
    ∀ root, Grammar.parse limit text = .ok (some root) → ∀ object ∈ root.nodes,
      object.kind = .object → ∃ entries, NamesProperties object entries := by
  refine ⟨fun span htext => ?_, fun _ hroot _ hobject hkind =>
    exists_namesProperties hroot hobject hkind⟩
  obtain ⟨node, hnode⟩ := Option.isSome_iff_exists.1 (Literal.string?_of_tokenize htext)
  obtain ⟨content, quote, -, htoList, rfl⟩ := string?_eq_some hnode
  refine ⟨content, quote, hnode, htoList, ?_⟩
  rw [Literal.propertyName_of_string hnode]
  exact Literal.propertyName_eq_self

theorem names_of_source_quoted :
    (∃ content quote, Literal.string? "'a'" ⟨0, 3⟩ = some (.string content quote ⟨0, 3⟩) ∧
      "'a'".toList = quote :: (content.toList ++ [quote]) ∧
      (propertyName "'a'" = content ↔ Unquoted content)) ∧
    ∃ root object entries, Grammar.parse 9 "(\x7b'a': b\x7d)" = .ok (some root) ∧
      object ∈ root.nodes ∧ NamesProperties object entries ∧ ∀ limit levels,
        LastWins (within limit levels) object.span entries
          (within limit (levels + 1) object none) := by
  refine ⟨(names_of_source "'a'" 9).1 ⟨0, 3⟩ (by decide +kernel), ?_⟩
  have hsource : (Grammar.parse 9 "(\x7b'a': b\x7d)").toOption.any (fun root =>
      root.any fun root => root.nodes.any fun object =>
        object.kind == .object && object.children.all fun entry =>
          entry.children.head?.map (·.text) == some "'a'") = true := by
    decide +kernel
  simp only [Option.any_eq_true, toOption_eq_some, List.any_eq_true, Bool.and_eq_true, beq_iff_eq,
    List.all_eq_true] at hsource
  obtain ⟨_, hroot, root, rfl, object, hobject, hkind, htext⟩ := hsource
  obtain ⟨entries, hnames⟩ := (names_of_source _ 9).2 root hroot object hobject hkind
  refine ⟨root, object, entries, hroot, hobject, hnames, hnames.kept ?_⟩
  have hunquoted : ∀ entry ∈ object.children, ∀ e, entry.StandsFor e → Unquoted e.1 := by
    intro entry hmem e he
    have htext := htext entry hmem
    cases he with
    | plain _ _ hunquoted => exact hunquoted
    | @string key value content quote hchildren _ hcontent =>
      rw [hchildren, List.head?_cons, Option.map_some, Option.some.injEq] at htext
      obtain ⟨_, _, -, hquoted, heq⟩ := string?_eq_some hcontent
      cases heq
      rw [htext, show "'a'".toList = '\'' :: (['a'] ++ ['\'']) from rfl, List.cons.injEq]
        at hquoted
      refine Literal.unquoted_of_notMem fun c hc => ?_
      rw [← (List.append_inj' hquoted.2 rfl).1, List.mem_singleton] at hc
      rw [hc]
      rfl
  have hmem := (List.forall₂_and_left _ _).2 ⟨fun _ hentry => hentry, hnames.keys⟩
  exact forall_mem_right hmem fun entry e he => hunquoted entry he.1 e he.2

end Build

end Ecma3
