import Mathlib.Data.List.TakeWhile
import Ecma3.Proofs.Token.Regex
import Ecma3.Proofs.Token.Match

/-! The longest text of a language that a text begins with. -/
namespace Ecma3.Token

open Regex

/-- The length, if there is one, of the longest text of the language that `cs` begins with. -/
structure Longest (L : Language Char) (cs : List Char) (length? : Option Nat) : Prop where
  matched : ∀ n, length? = some n → n ≤ cs.length ∧ cs.take n ∈ L
  greatest : ∀ text ∈ L, text <+: cs → ∃ n, length? = some n ∧ text.length ≤ n

namespace Longest

variable {L M : Language Char} {cs text : List Char} {n m : Nat} {p : Char → Bool}

theorem of_none (h : ∀ text ∈ L, ¬text <+: cs) : Longest L cs none where
  matched := by simp
  greatest text htext hinitial := absurd hinitial (h text htext)

theorem of_mem (htext : text ∈ L) (hinitial : text <+: cs)
    (h : ∀ other ∈ L, other <+: cs → other.length ≤ text.length) :
    Longest L cs (some text.length) where
  matched k hk := by
    cases hk
    exact ⟨hinitial.length_le, (List.prefix_iff_eq_take.1 hinitial) ▸ htext⟩
  greatest other hother hinitial := ⟨_, rfl, h other hother hinitial⟩

theorem le (h : Longest L cs (some n)) (htext : text ∈ L) (hinitial : text <+: cs) :
    text.length ≤ n := by
  obtain ⟨_, heq, hle⟩ := h.greatest text htext hinitial
  cases heq
  exact hle

/-- A text of the first language that stops too soon has nothing of the second behind it. -/
theorem seq (hL : Longest L cs (some n)) (hM : Longest M (cs.drop n) (some m))
    (hstop : ∀ a ∈ L, a.length < n → ∀ b ∈ M, a ++ b <+: cs → b = []) :
    Longest (L * M) cs (some (n + m)) where
  matched k hk := by
    cases hk
    obtain ⟨hn, hfirst⟩ := hL.matched n rfl
    obtain ⟨hm, hsecond⟩ := hM.matched m rfl
    rw [List.length_drop] at hm
    refine ⟨by omega, Language.mem_mul.2 ⟨_, hfirst, _, hsecond, ?_⟩⟩
    rw [List.take_add]
  greatest text htext hinitial := by
    refine ⟨_, rfl, ?_⟩
    obtain ⟨a, ha, b, hb, rfl⟩ := Language.mem_mul.1 htext
    rw [List.length_append]
    rcases Nat.lt_or_eq_of_le (hL.le ha ((List.prefix_append a b).trans hinitial)) with hlt | heq
    · rw [hstop a ha hlt b hb hinitial, List.length_nil]
      omega
    · obtain ⟨rest, rfl⟩ := hinitial
      have := hM.le hb (by simp [← heq])
      omega

/-- A run is the longest text of its class. -/
theorem run (p : Char → Bool) (cs : List Char) :
    Longest (star (oneOf p)).language cs (some (Pattern.run p cs)) where
  matched k hk := by
    cases hk
    refine ⟨Pattern.run_le p cs, mem_star_oneOf.2 fun c hc => ?_⟩
    rw [Pattern.take_run] at hc
    exact List.mem_takeWhile_imp hc
  greatest text htext hinitial := by
    refine ⟨_, rfl, ?_⟩
    obtain ⟨rest, rfl⟩ := hinitial
    rw [Pattern.run, List.takeWhile_append_of_pos (mem_star_oneOf.1 htext), List.length_append]
    exact Nat.le_add_right _ _

theorem run_plus (h : Pattern.run p cs ≠ 0) :
    Longest (plus (oneOf p)).language cs (some (Pattern.run p cs)) where
  matched k hk := by
    have hrun := (run p cs).matched k hk
    cases hk
    refine ⟨hrun.1, mem_plus_oneOf.2 ⟨fun hnil => ?_, mem_star_oneOf.1 hrun.2⟩⟩
    rw [List.take_eq_nil_iff] at hnil
    rcases hnil with hnil | rfl
    · exact h hnil
    · exact h rfl
  greatest text htext := (run p cs).greatest text (mem_star_oneOf.2 (mem_plus_oneOf.1 htext).2)

/-- A language without a text for the beginning adds nothing to another one. -/
theorem add_left {length? : Option Nat} (hM : ∀ text ∈ M, ¬text <+: cs)
    (h : Longest L cs length?) : Longest (L + M) cs length? where
  matched n hn := ⟨(h.matched n hn).1, Or.inl (h.matched n hn).2⟩
  greatest text htext hinitial := by
    rcases htext with htext | htext
    · exact h.greatest text htext hinitial
    · exact absurd hinitial (hM text htext)

theorem add_right {length? : Option Nat} (hL : ∀ text ∈ L, ¬text <+: cs)
    (h : Longest M cs length?) : Longest (L + M) cs length? :=
  add_comm M L ▸ add_left hL h

/-- With one text for its first part, all that counts is what follows that text. -/
theorem word_seq {length? : Option Nat} (spelling : String) (h : Longest L cs length?) :
    Longest ((word spelling).language * L) (spelling.toList ++ cs)
      (length?.map (spelling.length + ·)) where
  matched k hk := by
    obtain ⟨n, rfl, rfl⟩ := Option.map_eq_some_iff.1 hk
    obtain ⟨hn, hmatch⟩ := h.matched n rfl
    refine ⟨by simp only [List.length_append, String.length_toList]; omega, ?_⟩
    refine Language.mem_mul.2 ⟨_, mem_word.2 rfl, _, hmatch, ?_⟩
    rw [← String.length_toList, List.take_length_add_append]
  greatest text htext hinitial := by
    obtain ⟨a, ha, b, hb, rfl⟩ := Language.mem_mul.1 htext
    obtain rfl := mem_word.1 ha
    obtain ⟨n, rfl, hle⟩ := h.greatest b hb ((List.prefix_append_right_inj _).1 hinitial)
    exact ⟨_, rfl, by simp only [List.length_append, String.length_toList]; omega⟩

theorem not_word_seq {spelling : String} (h : ¬spelling.toList <+: cs) :
    Longest ((word spelling).language * L) cs none :=
  of_none fun text htext hinitial => by
    obtain ⟨a, ha, b, -, rfl⟩ := Language.mem_mul.1 htext
    obtain rfl := mem_word.1 ha
    exact h ((List.prefix_append _ _).trans hinitial)

end Longest

namespace Pattern

variable {p : Char → Bool} {a b cs : List Char} {c : Char}

/-- What follows the beginning of a run is in the class. -/
theorem of_lt_run (h : a.length < run p cs) (hinitial : a ++ c :: b <+: cs) : p c = true := by
  obtain ⟨rest, rfl⟩ := hinitial
  induction a with
  | nil =>
    simp only [run, List.nil_append, List.cons_append, List.takeWhile_cons] at h
    split at h
    · assumption
    · simp at h
  | cons d a ih =>
    simp only [run, List.cons_append, List.takeWhile_cons, List.length_cons] at h
    split at h
    · exact ih (Nat.lt_of_succ_lt_succ h)
    · simp at h

end Pattern

end Ecma3.Token
