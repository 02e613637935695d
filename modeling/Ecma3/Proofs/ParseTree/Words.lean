import Ecma3.ParseTree.Basic
import Ecma3.Token.Punctuator

/-! Expression trees written out again as the words they consist of. -/
namespace Ecma3.ParseTree
open Punctuator

variable {kind : Kind} {text : String} {span : Span} {children : List ParseTree} {t u v : ParseTree}

/-- The words of a node, given those of its children. Commas stand after all items of an array and
between the other things that are listed. -/
@[simp] def arrange (kind : Kind) (text : String) (parts : List (List String)) : List String :=
  match kind with
  | .parenthesized => "(" :: parts.flatten ++ [")"]
  | .array => "[" :: parts.flatten ++ ["]"]
  | .item => parts.flatten ++ [","]
  | .object => "\x7b" :: [","].intercalate parts ++ ["\x7d"]
  | .namedValue => [":"].intercalate parts
  | .arguments => "(" :: [","].intercalate parts ++ [")"]
  | .comma => [","].intercalate parts
  | .call => parts.flatten
  | .byField => ["."].intercalate parts
  | .byIndex => ["["].intercalate parts ++ ["]"]
  | .postIncrement | .postDecrement => parts.flatten ++ [text]
  | .conditional =>
    match parts with
    | [test, consequent, alternate] =>
      test ++ "?" :: consequent ++ ":" :: alternate
    | _ => []
  | _ =>
    match parts with
    | [] => [text]
    | [operand] => text :: operand
    | _ => [text].intercalate parts

mutual

/-- The words of an expression, from the first to the last. -/
def words : ParseTree → List String
  | ⟨kind, text, _, children⟩ => arrange kind text (wordsOf children)

/-- The words of each of the trees. -/
def wordsOf : List ParseTree → List (List String)
  | [] => []
  | t :: ts => words t :: wordsOf ts

end

mutual

/-- The tree without the places of its nodes. -/
def spanless : ParseTree → ParseTree
  | ⟨kind, text, _, children⟩ => ⟨kind, text, ⟨0, 0⟩, spanlessOf children⟩

def spanlessOf : List ParseTree → List ParseTree
  | [] => []
  | t :: ts => spanless t :: spanlessOf ts

end

theorem wordsOf_eq_map (ts : List ParseTree) : wordsOf ts = ts.map words := by
  induction ts with
  | nil => rfl
  | cons t ts ih => simp [wordsOf, ih]

theorem spanlessOf_eq_map (ts : List ParseTree) : spanlessOf ts = ts.map spanless := by
  induction ts with
  | nil => rfl
  | cons t ts ih => simp [spanlessOf, ih]

theorem intercalate_cons {α : Type} (separator : α) (part : List α) (parts : List (List α)) :
    [separator].intercalate (part :: parts) = part ++ parts.flatMap (separator :: ·) := by
  induction parts generalizing part with
  | nil => simp
  | cons next parts ih => simp [List.intercalate_cons_cons, ih]

theorem length_le_flatMap {α β : Type} {a : α} {as : List α} (f : α → List β) (h : a ∈ as) :
    (f a).length ≤ (as.flatMap f).length := by
  rw [List.flatMap_def]
  exact (List.sublist_flatten_of_mem (List.mem_map_of_mem h)).length_le

theorem length_flatMap_ge {α β : Type} (f : α → List β) {as : List α} (h : ∀ a ∈ as, f a ≠ []) :
    as.length ≤ (as.flatMap f).length := by
  induction as with
  | nil => simp
  | cons a as ih =>
    rw [List.forall_mem_cons] at h
    have hpos := List.length_pos_iff.2 h.1
    have := ih h.2
    simp only [List.length_cons, List.flatMap_cons, List.length_append]
    omega

theorem length_le_intercalate {α : Type} {separator : α} {part : List α} {parts : List (List α)}
    (h : part ∈ parts) : part.length ≤ ([separator].intercalate parts).length := by
  cases parts with
  | nil => cases h
  | cons first parts =>
    rw [intercalate_cons, List.length_append]
    rcases List.mem_cons.1 h with rfl | h
    · exact Nat.le_add_right _ _
    · have := length_le_flatMap (separator :: ·) h
      rw [List.length_cons] at this
      omega

theorem length_intercalate_ge {α : Type} (separator : α) {parts : List (List α)}
    (h : ∀ part ∈ parts, part ≠ []) : parts.length ≤ ([separator].intercalate parts).length := by
  cases parts with
  | nil => exact Nat.zero_le _
  | cons first parts =>
    have hpos := List.length_pos_iff.2 (h first List.mem_cons_self)
    have := length_flatMap_ge (separator :: ·) (show ∀ part ∈ parts, separator :: part ≠ [] by simp)
    rw [intercalate_cons, List.length_append, List.length_cons]
    omega

theorem words_mk : words ⟨kind, text, span, children⟩ = arrange kind text (children.map words) := by
  rw [words, wordsOf_eq_map]

theorem words_group :
    (group kind span children).words = arrange kind kind.name (children.map words) :=
  words_mk

theorem words_leaf : (leaf kind text span).words = arrange kind text [] := words_mk

theorem words_parenthesized : (group .parenthesized span [t]).words =
    leftParen.spelling :: (t.words ++ [rightParen.spelling]) := by
  change _ = "(" :: (t.words ++ [")"])
  simp [words_group]

theorem words_array : (group .array span children).words =
    leftBracket.spelling :: (children.flatMap words ++ [rightBracket.spelling]) := by
  change _ = "[" :: (children.flatMap words ++ ["]"])
  simp [words_group, List.flatMap]

theorem words_object : (group .object span children).words = leftBrace.spelling ::
    ([comma.spelling].intercalate (children.map words) ++ [rightBrace.spelling]) := by
  change _ = "\x7b" :: ([","].intercalate (children.map words) ++ ["\x7d"])
  simp [words_group]

theorem words_arguments : (group .arguments span children).words = leftParen.spelling ::
    ([comma.spelling].intercalate (children.map words) ++ [rightParen.spelling]) := by
  change _ = "(" :: ([","].intercalate (children.map words) ++ [")"])
  simp [words_group]

theorem words_hole : (group .item span []).words = [comma.spelling] := words_group

theorem words_element : (group .item span [t]).words = t.words ++ [comma.spelling] := by
  change _ = t.words ++ [","]
  simp [words_group]

theorem words_property : (group .namedValue span [t, u]).words =
    t.words ++ colon.spelling :: u.words := by
  change _ = t.words ++ ":" :: u.words
  simp [words_group]

theorem words_new : words ⟨.new, text, span, [t]⟩ = text :: t.words := words_mk

theorem words_call : (group .call span [t, u]).words = t.words ++ u.words := by
  simp [words_group]

theorem words_field : (group .byField span [t, u]).words = t.words ++ dot.spelling :: u.words := by
  change _ = t.words ++ "." :: u.words
  simp [words_group]

theorem words_index : (group .byIndex span [t, u]).words =
    t.words ++ leftBracket.spelling :: (u.words ++ [rightBracket.spelling]) := by
  change _ = t.words ++ "[" :: (u.words ++ ["]"])
  simp [words_group]

theorem words_conditional : words ⟨.conditional, text, span, [t, u, v]⟩ =
    t.words ++ question.spelling :: (u.words ++ colon.spelling :: v.words) := by
  change _ = t.words ++ "?" :: (u.words ++ ":" :: v.words)
  simp [words_mk]

theorem words_comma : (group .comma span children).words =
    [comma.spelling].intercalate (children.map words) := words_group

@[simp] theorem spanless_mk :
    spanless ⟨kind, text, span, children⟩ = ⟨kind, text, ⟨0, 0⟩, children.map spanless⟩ := by
  rw [spanless, spanlessOf_eq_map]

@[simp] theorem spanless_kind : t.spanless.kind = t.kind := by
  cases t
  rw [spanless_mk]

@[simp] theorem spanless_leaf :
    (leaf kind text span).spanless = leaf kind text ⟨0, 0⟩ := spanless_mk

@[simp] theorem spanless_group :
    (group kind span children).spanless = group kind ⟨0, 0⟩ (children.map spanless) := spanless_mk

end Ecma3.ParseTree
