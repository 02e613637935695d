import Ecma3.Proofs.Token.Append
import Ecma3.Proofs.Token.Longest

/-!
The grammar of regular expression literals. What is scanned for the slash at the end is a sequence of
escapes, classes and single characters, and only one slash of a text can close such a sequence.
-/
namespace Ecma3.Token

open Text (isLineTerminator)
open Regex

theorem Longest.unique {L : Language Char} {cs : List Char} {n m : Nat} (hn : Longest L cs (some n))
    (hm : Longest L cs (some m)) : n = m := by
  have hle : ∀ {n m}, Longest L cs (some n) → Longest L cs (some m) → n ≤ m := by
    intro n m hn hm
    obtain ⟨hlength, hmem⟩ := hn.matched n rfl
    have hle := hm.le hmem (List.take_prefix n cs)
    rwa [List.length_take_of_le hlength] at hle
  exact Nat.le_antisymm (hle hn hm) (hle hm hn)

namespace RegexLiteral

variable {inClass a b d : Bool} {c : Char} {n : Nat} {cs text other rest flags after : List Char}

def lineEnds : List Char := ['\n', '\r', '\u2028', '\u2029']

/-- A backslash and what it escapes, on the same line. -/
def escape : Regex := seq (char '\\') (except lineEnds)

def classPart : Regex := either escape (except (']' :: '\\' :: lineEnds))

/-- A class, up to the first bracket that closes it. -/
def bracketed : Regex := seq (char '[') (seq (star classPart) (char ']'))

def part : Regex := either escape (either bracketed (except ('/' :: '[' :: '\\' :: lineEnds)))

def body : Regex := star part

def flag : Regex := either (oneOf Unicode.isAlphanumeric) (among ['_', '$'])

theorem mem_lineEnds : c ∈ lineEnds ↔ isLineTerminator c = true := by
  simp [lineEnds, isLineTerminator, or_assoc]

/-- Behind a bracket the scan is in a class, or out of it again. -/
def classAfter (inClass : Bool) (c : Char) : Bool :=
  if c == '[' then true else if c == ']' then false else inClass

theorem body?_escape (hc : c ∉ lineEnds) :
    body? inClass ('\\' :: c :: rest) = (body? inClass rest).map (· + 2) := by
  rw [body?, if_neg (mt mem_lineEnds.2 hc)]

theorem body?_cons (hc : c ≠ '\\') (hline : c ∉ lineEnds) (hslash : c = '/' → inClass = true) :
    body? inClass (c :: rest) = (body? (classAfter inClass c) rest).map (· + 1) := by
  have hopen : ¬(c == '/' && !inClass) = true := by simpa using hslash
  rw [body?, if_neg (mt mem_lineEnds.2 hline), if_neg hopen]
  · rfl
  · exact fun _ _ heq => absurd heq hc

/-- The scan passes over a text without an end in it, into a class or out of it. -/
def Passes (a b : Bool) (text : List Char) : Prop :=
  ∀ rest, body? a (text ++ rest) = (body? b rest).map (· + text.length)

namespace Passes

theorem nil : Passes a a [] := fun rest => by simp

theorem append (hcs : Passes a b cs) (htext : Passes b d text) : Passes a d (cs ++ text) := by
  intro rest
  rw [List.append_assoc, hcs, htext, Option.map_map, List.length_append]
  congr 1
  funext n
  exact (Nat.add_assoc n _ _).trans (congrArg (n + ·) (Nat.add_comm _ _))

theorem star {r : Regex} (h : ∀ text ∈ r.language, Passes a a text)
    (htext : text ∈ (Regex.star r).language) : Passes a a text := by
  obtain ⟨parts, rfl, hparts⟩ := mem_star.1 htext
  clear htext
  induction parts with
  | nil => exact nil
  | cons part parts ih =>
    rw [List.forall_mem_cons] at hparts
    exact (h part hparts.1).append (ih hparts.2)

theorem escape (h : text ∈ escape.language) : Passes a a text := by
  obtain ⟨_, hslash, _, hescaped, rfl⟩ := mem_seq.1 h
  obtain rfl := mem_char.1 hslash
  obtain ⟨c, hc, rfl⟩ := mem_except.1 hescaped
  exact fun rest => body?_escape hc

theorem single (hc : c ≠ '\\') (hline : c ∉ lineEnds) (hslash : c = '/' → a = true) :
    Passes a (classAfter a c) [c] :=
  fun _ => body?_cons hc hline hslash

theorem classPart (h : text ∈ classPart.language) : Passes true true text := by
  rcases mem_either.1 h with h | h
  · exact escape h
  · obtain ⟨c, hc, rfl⟩ := mem_except.1 h
    simp only [List.mem_cons, not_or] at hc
    have hpasses : Passes true (classAfter true c) [c] := single hc.2.1 hc.2.2 fun _ => rfl
    rwa [show classAfter true c = true by simp [classAfter, hc.1]] at hpasses

theorem bracketed (h : text ∈ bracketed.language) : Passes false false text := by
  obtain ⟨_, hopen, _, hrest, rfl⟩ := mem_seq.1 h
  obtain ⟨inner, hinner, _, hclose, rfl⟩ := mem_seq.1 hrest
  obtain rfl := mem_char.1 hopen
  obtain rfl := mem_char.1 hclose
  have hopen : Passes false true ['['] := single (by decide) (by decide) nofun
  have hclose : Passes true false [']'] := single (by decide) (by decide) nofun
  exact hopen.append ((star (fun _ => classPart) hinner).append hclose)

theorem part (h : text ∈ part.language) : Passes false false text := by
  rcases mem_either.1 h with h | h
  · exact escape h
  · rcases mem_either.1 h with h | h
    · exact bracketed h
    · obtain ⟨c, hc, rfl⟩ := mem_except.1 h
      simp only [List.mem_cons, not_or] at hc
      have hpasses : Passes false (classAfter false c) [c] :=
        single hc.2.2.1 hc.2.2.2 fun heq => absurd heq hc.1
      rwa [show classAfter false c = false by simp [classAfter, hc.2.1]] at hpasses

end Passes

/-- A body goes up to the first slash that is none of its parts. -/
theorem body?_of_mem (h : text ∈ body.language) (rest : List Char) :
    body? false (text ++ '/' :: rest) = some (text.length + 1) := by
  have hpasses : Passes false false text := .star (fun _ => Passes.part) h
  rw [hpasses, body?, if_neg (by decide), if_pos (by decide)]
  · rw [Option.map_some, Nat.add_comm]
  · exact fun _ _ heq => absurd heq (by decide)

/-- What makes a body complete, in a class or outside. -/
def remainder : Bool → Regex
  | false => body
  | true => seq (star classPart) (seq (char ']') body)

theorem escape_remainder (hc : c ∉ lineEnds) (h : text ∈ (remainder inClass).language) :
    '\\' :: c :: text ∈ (remainder inClass).language := by
  have hescape : ['\\', c] ∈ escape.language :=
    mem_seq.2 ⟨_, mem_char.2 rfl, _, mem_except.2 ⟨c, hc, rfl⟩, rfl⟩
  cases inClass with
  | false => exact append_mem_star (mem_either.2 (Or.inl hescape)) h
  | true =>
    obtain ⟨inner, hinner, closed, hclosed, rfl⟩ := mem_seq.1 h
    exact mem_seq.2 ⟨_, append_mem_star (mem_either.2 (Or.inl hescape)) hinner, _, hclosed, rfl⟩

theorem cons_remainder (hc : c ≠ '\\') (hline : c ∉ lineEnds) (hslash : c = '/' → inClass = true)
    (h : text ∈ (remainder (classAfter inClass c)).language) :
    c :: text ∈ (remainder inClass).language := by
  cases inClass with
  | false =>
    by_cases hopen : c = '['
    · subst hopen
      obtain ⟨inner, hinner, _, hclosed, rfl⟩ := mem_seq.1 h
      obtain ⟨_, hclose, text, htext, rfl⟩ := mem_seq.1 hclosed
      have hpart : '[' :: (inner ++ _) ∈ part.language :=
        mem_either.2 (Or.inr (mem_either.2 (Or.inl (mem_seq.2 ⟨_, mem_char.2 rfl, _,
          mem_seq.2 ⟨inner, hinner, _, hclose, rfl⟩, rfl⟩))))
      have hmem := append_mem_star hpart htext
      rw [List.cons_append, List.append_assoc] at hmem
      exact hmem
    · have hafter : classAfter false c = false := by simp [classAfter, hopen]
      have hsingle : [c] ∈ (except ('/' :: '[' :: '\\' :: lineEnds)).language :=
        mem_except.2 ⟨c, by simp_all, rfl⟩
      rw [hafter] at h
      exact append_mem_star (mem_either.2 (Or.inr (mem_either.2 (Or.inr hsingle)))) h
  | true =>
    by_cases hclose : c = ']'
    · subst hclose
      exact mem_seq.2 ⟨[], nil_mem_star, _, mem_seq.2 ⟨_, mem_char.2 rfl, text, h, rfl⟩, rfl⟩
    · have hafter : classAfter true c = true := by simp [classAfter, hclose]
      have hsingle : [c] ∈ (except (']' :: '\\' :: lineEnds)).language :=
        mem_except.2 ⟨c, by simp_all, rfl⟩
      rw [hafter] at h
      obtain ⟨inner, hinner, closed, hclosed, rfl⟩ := mem_seq.1 h
      exact mem_seq.2 ⟨_, append_mem_star (mem_either.2 (Or.inr hsingle)) hinner, _, hclosed, rfl⟩

theorem mem_of_body? (h : body? inClass cs = some n) :
    ∃ text ∈ (remainder inClass).language, cs.take n = text ++ ['/'] := by
  fun_induction body? inClass cs generalizing n with
  | case3 inClass c rest hc ih =>
    obtain ⟨k, hk, rfl⟩ := Option.map_eq_some_iff.1 h
    obtain ⟨text, htext, htake⟩ := ih hk
    exact ⟨_, escape_remainder (mt mem_lineEnds.1 hc) htext, by simp [htake]⟩
  | case5 inClass c rest _ hc hslash =>
    cases h
    simp only [Bool.and_eq_true, beq_iff_eq, Bool.not_eq_true'] at hslash
    obtain ⟨rfl, rfl⟩ := hslash
    exact ⟨[], nil_mem_star, rfl⟩
  | case6 inClass c rest hescape hc hslash ih =>
    obtain ⟨k, hk, rfl⟩ := Option.map_eq_some_iff.1 h
    obtain ⟨text, htext, htake⟩ := ih hk
    have hbackslash : c ≠ '\\' := by
      rintro rfl
      cases rest with
      | nil => cases hk
      | cons e rest => exact hescape e rest rfl rfl
    have hinside : c = '/' → inClass = true := by simpa using hslash
    exact ⟨_, cons_remainder hbackslash (mt mem_lineEnds.1 hc) hinside htext, by simp [htake]⟩
  | _ => cases h

theorem body?_eq_some : body? false cs = some n ↔
    ∃ text ∈ body.language, text ++ ['/'] <+: cs ∧ n = text.length + 1 := by
  constructor
  · intro h
    obtain ⟨text, htext, htake⟩ := mem_of_body? h
    have hlength := congrArg List.length htake
    rw [List.length_take_of_le (body?_le h), List.length_append] at hlength
    exact ⟨text, htext, htake ▸ List.take_prefix n cs, hlength⟩
  · rintro ⟨text, htext, ⟨rest, rfl⟩, rfl⟩
    rw [List.append_assoc]
    exact body?_of_mem htext rest

/-- The slash that closes a body is the first one outside its classes and escapes. -/
theorem body_unique (htext : text ∈ body.language) (hother : other ∈ body.language)
    (hslash : text ++ ['/'] <+: cs) (hslash' : other ++ ['/'] <+: cs) : other = text := by
  have hlength := (body?_eq_some.2 ⟨text, htext, hslash, rfl⟩).symm.trans
    (body?_eq_some.2 ⟨other, hother, hslash', rfl⟩)
  have hinitial := List.prefix_of_prefix_length_le hslash' hslash (by simp_all)
  exact (List.append_inj (hinitial.eq_of_length (by simp_all)) (by simp_all)).1

theorem language_flag : (star flag).language = (star (oneOf isFlag)).language := by
  have hflag : flag.language = (oneOf isFlag).language := by
    ext text
    simp [flag, isFlag, or_assoc, or_and_right, exists_or]
  simp only [Regex.language, hflag]

/-- The parts of a literal behind its first slash, and what stands behind the literal. -/
structure Splits (rest text flags after : List Char) : Prop where
  eq : rest = text ++ '/' :: (flags ++ after)
  mem : text ∈ body.language
  first : ∀ other ∈ body.language, other ++ ['/'] <+: rest → other = text
  flags : Longest (star flag).language (flags ++ after) (some flags.length)

/-- A literal is scanned to the end of its parts. -/
theorem length?_eq_some : length? ('/' :: rest) = some n ↔
    ∃ text flags after, Splits rest text flags after ∧
      n = ('/' :: (text ++ '/' :: flags)).length := by
  simp only [length?, Option.bind_eq_bind, Option.bind_eq_some_iff, Option.pure_def,
    Option.some.injEq, body?_eq_some]
  have hdrop : ∀ text tail : List Char, (text ++ '/' :: tail).drop (text.length + 1) = tail :=
    fun text tail => by simp
  constructor
  · rintro ⟨_, ⟨text, htext, ⟨tail, rfl⟩, rfl⟩, rfl⟩
    rw [List.append_assoc, List.singleton_append, hdrop]
    refine ⟨text, tail.takeWhile isFlag, tail.dropWhile isFlag, ⟨?_, htext, ?_, ?_⟩, ?_⟩
    · rw [List.takeWhile_append_dropWhile]
    · exact fun other hother hslash => body_unique htext hother ⟨tail, by simp⟩ hslash
    · rw [List.takeWhile_append_dropWhile, language_flag]
      exact .run isFlag tail
    · simp only [List.length_cons, List.length_append]
      omega
  · rintro ⟨text, flags, after, ⟨rfl, htext, -, hflags⟩, rfl⟩
    rw [language_flag] at hflags
    have hrun := (Longest.run isFlag (flags ++ after)).unique hflags
    refine ⟨_, ⟨text, htext, ⟨flags ++ after, by simp⟩, rfl⟩, ?_⟩
    rw [hdrop, show ((flags ++ after).takeWhile isFlag).length = flags.length from hrun]
    simp only [List.length_cons, List.length_append]
    omega

end RegexLiteral

end Ecma3.Token
