import Ecma3.Proofs.Build.Number
import Ecma3.Proofs.ParseTree.Values
import Ecma3.Proofs.Token.Literal

/-!
What names and literals stand for, said about their texts: positional notation for whole numbers, the
nearest floating-point number, what is between the quotes of a string and the slashes of a regular
expression. What is read is this.
-/
namespace Ecma3

open Text (isDigit numeral)
open Build.Literal (HexText)

variable {text : String} {span : Span} {n : Node} {role : Role} {t : ParseTree}

/-- What a name or literal stands for. Names are definitions where they are declared. -/
inductive ParseTree.Denotes (role : Role) (t : ParseTree) : Node → Prop where
  | identifier {isDefinition : Bool} (hkind : t.kind = .identifier)
    (hdefinition : isDefinition = true ↔ role = .declarator) :
    Denotes role t (.identifier t.text isDefinition t.span)
  | this (hkind : t.kind = .«this») : Denotes role t (.identifier "this" false t.span)
  | integer {v : Int32} (hkind : t.kind = .decimalLiteral) (hne : t.text.toList ≠ [])
    (hdigits : ∀ c ∈ t.text.toList, isDigit c = true) (hv : v.toInt = numeral 10 t.text.toList) :
    Denotes role t (.integer v t.span)
  | float {l : Decimal.Literal} {x : Binary64} (hkind : t.kind = .decimalLiteral)
    (hspells : l.Spells t.text.toList) (hpoint : '.' ∈ t.text.toList)
    (hx : Binary64.Nearest l.toRat x) : Denotes role t (.float x t.span)
  | hex {v : Int32} (hkind : t.kind = .hexLiteral) (hv : HexText v.toInt t.text.toList) :
    Denotes role t (.integer v t.span)
  | string {content : List Char} {quote : Char} (hkind : t.kind = .stringLiteral)
    (hquote : quote = '"' ∨ quote = '\'') (htext : t.text.toList = quote :: (content ++ [quote])) :
    Denotes role t (.string (String.ofList content) quote t.span)
  | regex {pattern flags : List Char} (hkind : t.kind = .regexLiteral) (hpattern : pattern ≠ [])
    (hflags : '/' ∉ flags) (htext : t.text.toList = '/' :: (pattern ++ '/' :: flags)) :
    Denotes role t (.regex (String.ofList pattern) (String.ofList flags) t.span)
  | null (hkind : t.kind = .nullLiteral) : Denotes role t (.null t.span)
  | true (hkind : t.kind = .trueLiteral) : Denotes role t (.boolean true t.span)
  | false (hkind : t.kind = .falseLiteral) : Denotes role t (.boolean false t.span)

namespace Build.Literal

theorem decimal?_eq_some_iff : decimal? text span = some n ↔
    (∃ l x, Decimal.Literal.Spells l text.toList ∧ '.' ∈ text.toList ∧
      Binary64.Nearest l.toRat x ∧ n = .float x span) ∨
    ∃ v : Int32, text.toList ≠ [] ∧ (∀ c ∈ text.toList, isDigit c = true) ∧
      v.toInt = numeral 10 text.toList ∧ n = .integer v span := by
  have hpoint_of : (∀ c ∈ text.toList, isDigit c = true) → '.' ∉ text.toList :=
    fun hdigits hpoint => absurd (hdigits '.' hpoint) (by decide)
  constructor
  · intro h
    cases hl : Decimal.Literal.parse? text.toList with
    | none => simp [decimal?, hl] at h
    | some l =>
      have hspells := Decimal.Literal.parse?_eq_some.1 hl
      by_cases hpoint : '.' ∈ text.toList
      · rw [decimal?_of_parse? hl, if_pos (hspells.point_mem_iff.1 hpoint), Option.some.injEq] at h
        exact Or.inl ⟨l, _, hspells, hpoint, Decimal.Literal.nearest_toBinary64 hspells, h.symm⟩
      · have hmatch := Decimal.Literal.parse?_isSome.1 (Option.isSome_of_eq_some hl)
        obtain ⟨hdigits, v, hv, rfl⟩ := (decimal?_eq_integer hpoint hmatch).1 h
        refine Or.inr ⟨v, fun hempty => ?_, hdigits, hv, rfl⟩
        rw [hempty] at hl
        cases hl
  · rintro (⟨l, x, hspells, hpoint, hx, rfl⟩ | ⟨v, hne, hdigits, hv, rfl⟩)
    · obtain rfl := hx.unique (Decimal.Literal.nearest_toBinary64 hspells)
      rw [decimal?_of_parse? (Decimal.Literal.parse?_eq_some.2 hspells),
        if_pos (hspells.point_mem_iff.1 hpoint)]
    · have hspells : Decimal.Literal.Spells ⟨text.toList, none, none⟩ text.toList :=
        ⟨⟨[], by simp [Decimal.Literal.fractionText], .absent⟩, hdigits, by simp, Or.inl hne⟩
      have hmatch := Decimal.Literal.mem_pattern.2 ⟨_, hspells⟩
      exact (decimal?_eq_integer (hpoint_of hdigits) hmatch).2 ⟨hdigits, v, hv, rfl⟩

theorem isQuote_iff {c : Char} : isQuote c = true ↔ c = '"' ∨ c = '\'' := by
  rw [isQuote, Bool.or_eq_true, beq_iff_eq, beq_iff_eq]

theorem string?_eq_some_iff : string? text span = some n ↔
    ∃ content quote, (quote = '"' ∨ quote = '\'') ∧ text.toList = quote :: (content ++ [quote]) ∧
      n = .string (String.ofList content) quote span := by
  constructor
  · intro h
    obtain ⟨content, quote, hquote, htext, rfl⟩ := string?_eq_some h
    exact ⟨content.toList, quote, isQuote_iff.1 hquote, htext, by rw [String.ofList_toList]⟩
  · rintro ⟨content, quote, hquote, htext, rfl⟩
    rw [string?, htext]
    simp [isQuote_iff.2 hquote]

theorem regex?_eq_some_iff : regex? text span = some n ↔
    ∃ pattern flags, pattern ≠ [] ∧ '/' ∉ flags ∧ text.toList = '/' :: (pattern ++ '/' :: flags) ∧
      n = .regex (String.ofList pattern) (String.ofList flags) span := by
  constructor
  · intro h
    obtain ⟨body, htext⟩ : ∃ body, text.toList = '/' :: body := by
      unfold regex? at h
      split at h
      · exact ⟨_, ‹_›⟩
      · cases h
    by_cases hslash : '/' ∈ body
    · obtain ⟨flags, pattern, hbody, hflags⟩ :=
        List.eq_append_cons_of_mem (List.mem_reverse.2 hslash)
      have hflags : '/' ∉ flags.reverse := fun hmem => hflags (List.mem_reverse.1 hmem)
      have htext : text.toList = '/' :: (pattern.reverse ++ '/' :: flags.reverse) := by
        rw [htext, ← List.reverse_reverse body, hbody]
        simp
      rw [regex?_eq hflags htext, Option.ite_none_left_eq_some, Option.some.injEq] at h
      exact ⟨_, _, h.1, hflags, htext, h.2.symm⟩
    · rw [regex?_of_notMem hslash htext] at h
      cases h
  · rintro ⟨pattern, flags, hpattern, hflags, htext, rfl⟩
    exact regex?_of_parts hflags hpattern htext

end Build.Literal

namespace ParseTree

open Build.Literal

/-- What a name or literal is read as is what it stands for. -/
theorem mem_value : n ∈ t.value role ↔ role ≠ .name ∧ t.Denotes role n := by
  constructor
  · intro h
    rw [value, List.mem_ite_nil_left] at h
    refine h.imp_right fun h => ?_
    cases hkind : t.kind <;> simp only [hkind, List.mem_singleton, List.not_mem_nil,
      Option.mem_toList] at h
    case identifier => exact h ▸ .identifier hkind decide_eq_true_iff
    case «this» => exact h ▸ .this hkind
    case decimalLiteral =>
      obtain ⟨l, x, hspells, hpoint, hx, rfl⟩ | ⟨v, hne, hdigits, hv, rfl⟩ :=
        decimal?_eq_some_iff.1 h
      · exact .float hkind hspells hpoint hx
      · exact .integer hkind hne hdigits hv
    case hexLiteral =>
      obtain ⟨v, hv, rfl⟩ := hex?_eq_some_iff.1 h
      exact .hex hkind hv
    case stringLiteral =>
      obtain ⟨content, quote, hquote, htext, rfl⟩ := string?_eq_some_iff.1 h
      exact .string hkind hquote htext
    case regexLiteral =>
      obtain ⟨pattern, flags, hpattern, hflags, htext, rfl⟩ := regex?_eq_some_iff.1 h
      exact .regex hkind hpattern hflags htext
    case nullLiteral => exact h ▸ .null hkind
    case trueLiteral => exact h ▸ .true hkind
    case falseLiteral => exact h ▸ .false hkind
  · rintro ⟨hrole, h⟩
    rw [value, if_neg hrole]
    cases h with
    | identifier hkind hdefinition =>
      rw [hkind, List.mem_singleton, Bool.eq_iff_iff.2 (hdefinition.trans decide_eq_true_iff.symm)]
    | this hkind | null hkind | true hkind | false hkind =>
      rw [hkind, List.mem_singleton]
    | float hkind hspells hpoint hx =>
      rw [hkind, Option.mem_toList]
      exact decimal?_eq_some_iff.2 (Or.inl ⟨_, _, hspells, hpoint, hx, rfl⟩)
    | integer hkind hne hdigits hv =>
      rw [hkind, Option.mem_toList]
      exact decimal?_eq_some_iff.2 (Or.inr ⟨_, hne, hdigits, hv, rfl⟩)
    | hex hkind hv =>
      rw [hkind, Option.mem_toList]
      exact hex?_eq_some_iff.2 ⟨_, hv, rfl⟩
    | string hkind hquote htext =>
      rw [hkind, Option.mem_toList]
      exact string?_eq_some_iff.2 ⟨_, _, hquote, htext, rfl⟩
    | regex hkind hpattern hflags htext =>
      rw [hkind, Option.mem_toList]
      exact regex?_eq_some_iff.2 ⟨_, _, hpattern, hflags, htext, rfl⟩

end ParseTree
end Ecma3
