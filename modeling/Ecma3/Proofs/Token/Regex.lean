import Mathlib.Computability.Language
import Ecma3.Token.Basic
import Ecma3.Text.Digit
import Ecma3.Unicode.Name

/-! Regular expressions, and those that the tokens are declared by. -/
namespace Ecma3.Token

open Text (isDigit isHexDigit)

/-- Regular expressions over characters. -/
inductive Regex where
  /-- No character. -/
  | empty
  /-- One character of a class. -/
  | oneOf (p : Char → Bool)
  | seq (first second : Regex)
  | either (first second : Regex)
  | star (r : Regex)

namespace Regex

/-- The texts that an expression matches. -/
def language : Regex → Language Char
  | empty => 1
  | oneOf p => {text | ∃ c, p c = true ∧ text = [c]}
  | seq first second => first.language * second.language
  | either first second => first.language + second.language
  | star r => KStar.kstar r.language

def char (c : Char) : Regex := oneOf (· == c)

/-- One of these characters. -/
def among (cs : List Char) : Regex := oneOf cs.contains

/-- Any character but these. -/
def except (cs : List Char) : Regex := oneOf (!cs.contains ·)

def word (text : String) : Regex := text.toList.foldr (fun c r => seq (char c) r) empty

def plus (r : Regex) : Regex := seq r (star r)

def optional (r : Regex) : Regex := either empty r

variable {r first second : Regex} {p : Char → Bool} {text : List Char}

@[simp] theorem mem_empty : text ∈ empty.language ↔ text = [] := Language.mem_one text

@[simp] theorem mem_oneOf : text ∈ (oneOf p).language ↔ ∃ c, p c = true ∧ text = [c] := Iff.rfl

@[simp] theorem mem_seq : text ∈ (seq first second).language ↔
    ∃ a ∈ first.language, ∃ b ∈ second.language, a ++ b = text := Language.mem_mul

@[simp] theorem mem_either : text ∈ (either first second).language ↔
    text ∈ first.language ∨ text ∈ second.language := Iff.rfl

theorem mem_star : text ∈ (star r).language ↔
    ∃ parts : List (List Char), text = parts.flatten ∧ ∀ part ∈ parts, part ∈ r.language :=
  Language.mem_kstar

/-- One more part in front of others. -/
theorem append_mem_star {part rest : List Char} (hpart : part ∈ r.language)
    (hrest : rest ∈ (star r).language) : part ++ rest ∈ (star r).language := by
  obtain ⟨parts, rfl, hparts⟩ := mem_star.1 hrest
  exact mem_star.2 ⟨part :: parts, rfl, List.forall_mem_cons.2 ⟨hpart, hparts⟩⟩

theorem nil_mem_star : [] ∈ (star r).language := mem_star.2 ⟨[], by simp⟩

@[simp] theorem mem_char {c : Char} : text ∈ (char c).language ↔ text = [c] := by
  simp [char]

@[simp] theorem mem_among {cs : List Char} :
    text ∈ (among cs).language ↔ ∃ c ∈ cs, text = [c] := by
  simp [among]

@[simp] theorem mem_except {cs : List Char} :
    text ∈ (except cs).language ↔ ∃ c, c ∉ cs ∧ text = [c] := by
  simp [except]

@[simp] theorem mem_word {spelling : String} :
    text ∈ (word spelling).language ↔ text = spelling.toList := by
  unfold word
  induction spelling.toList generalizing text with
  | nil => simp
  | cons c cs ih => simp [ih, eq_comm]

@[simp] theorem mem_optional : text ∈ (optional r).language ↔ text = [] ∨ text ∈ r.language := by
  simp [optional]

/-- Repeated characters of a class are a text of that class. -/
@[simp] theorem mem_star_oneOf :
    text ∈ (star (oneOf p)).language ↔ ∀ c ∈ text, p c = true := by
  rw [mem_star]
  constructor
  · rintro ⟨parts, rfl, hparts⟩ c hc
    obtain ⟨part, hpart, hc⟩ := List.mem_flatten.1 hc
    obtain ⟨d, hd, rfl⟩ := mem_oneOf.1 (hparts part hpart)
    rwa [List.mem_singleton.1 hc]
  · intro h
    refine ⟨text.map ([·]), (List.flatMap_singleton' text).symm, ?_⟩
    simpa using h

@[simp] theorem mem_plus_oneOf :
    text ∈ (plus (oneOf p)).language ↔ text ≠ [] ∧ ∀ c ∈ text, p c = true := by
  rw [plus, mem_seq]
  constructor
  · rintro ⟨a, ha, b, hb, rfl⟩
    obtain ⟨c, hc, rfl⟩ := mem_oneOf.1 ha
    rw [mem_star_oneOf] at hb
    exact ⟨by simp, List.forall_mem_cons.2 ⟨hc, hb⟩⟩
  · rintro ⟨hne, h⟩
    obtain ⟨c, cs, rfl⟩ := List.exists_cons_of_ne_nil hne
    rw [List.forall_mem_cons] at h
    exact ⟨[c], ⟨c, h.1, rfl⟩, cs, mem_star_oneOf.2 h.2, rfl⟩

theorem mem_plus_char : text ∈ (plus (char c)).language ↔
    ∃ k, text = List.replicate (k + 1) c := by
  unfold char
  rw [mem_plus_oneOf]
  constructor
  · rintro ⟨hne, h⟩
    have hlen := List.length_pos_iff.2 hne
    refine ⟨text.length - 1, List.eq_replicate_iff.2 ⟨by omega, fun d hd => ?_⟩⟩
    simpa using h d hd
  · rintro ⟨k, rfl⟩
    simp

end Regex

open Regex

/-! The classes and parts that several patterns share. -/

/-- Letters of any script, letter numbers, the low line and the dollar sign. -/
def nameStart : Regex :=
  oneOf fun c =>
    Unicode.letters.contains c || Unicode.letterNumbers.contains c || c == '_' || c == '$'

/-- What a name begins with, save the low line, and marks, digits and connectors. -/
def namePart : Regex :=
  oneOf fun c => Unicode.letters.contains c || Unicode.letterNumbers.contains c ||
    Unicode.combiningMarks.contains c || Unicode.decimalDigits.contains c ||
    Unicode.connectors.contains c || c == '$'

def digit : Regex := oneOf isDigit

/-- A point and any digits, or nothing. -/
def fractionPart : Regex := optional (seq (char '.') (star digit))

/-- A letter, a sign or none, and digits; or nothing. -/
def exponentPart : Regex :=
  optional (seq (among ['e', 'E']) (seq (optional (among ['+', '-'])) (plus digit)))

/-- A character inside a comment that is no star, or stars up to something else than a slash. -/
def commentPart : Regex := either (except ['*']) (seq (plus (char '*')) (except ['*', '/']))

/-- The rest of a comment that spans lines, with the stars and the slash that end it. -/
def commentRest : Regex := seq (star commentPart) (seq (plus (char '*')) (char '/'))

/-- What stands for one character between two quotes: any but the quote, or any behind a backslash.
None of the two is a line feed or a carriage return. -/
def stringPart (quote : Char) : Regex :=
  either (except [quote, '\\', '\n', '\r']) (seq (char '\\') (except ['\n', '\r']))

def quoted (quote : Char) : Regex := seq (char quote) (seq (star (stringPart quote)) (char quote))

/-- The expressions that declare a token. -/
def patterns : Token → List Regex
  | .lineTerminator =>
    [either (word "\r\n") (either (char '\n') (either (char '\r')
      (either (char '\u2028') (char '\u2029'))))]
  | .lineComment => [seq (word "//") (star (except ['\n', '\r', '\u2028', '\u2029']))]
  | .blockComment => [seq (word "/*") commentRest]
  | .reserved w => [word w.spelling]
  | .identifier => [seq nameStart (star namePart)]
  | .decimalLiteral =>
    [seq (plus digit) (seq fractionPart exponentPart),
      seq (char '.') (seq (plus digit) exponentPart)]
  | .hexLiteral => [seq (char '0') (seq (among ['x', 'X']) (plus (oneOf isHexDigit)))]
  | .stringLiteral => [quoted '"', quoted '\'']
  | .punctuator mark => [word mark.spelling]

/-- The texts that some pattern of the token matches. -/
def language (t : Token) : Language Char := {text | ∃ r ∈ t.patterns, text ∈ r.language}

theorem language_of_pattern {t : Token} {r : Regex} (h : t.patterns = [r]) :
    t.language = r.language := by
  ext text
  simp only [language, h, List.mem_singleton, exists_eq_left]
  rfl

end Ecma3.Token
