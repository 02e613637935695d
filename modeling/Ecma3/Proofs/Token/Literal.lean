import Mathlib.Data.List.TakeWhile
import Ecma3.Build.Literal
import Ecma3.Proofs.Token.Match
import Ecma3.Token.RegexLiteral

/-! Texts of strings and regular expressions, which always have a node. -/
namespace Ecma3.Token

variable {cs : List Char} {n : Nat} {text : String} {span : Span}

namespace Pattern

theorem stringBody_closed {quote : Char} (h : stringBody quote cs = (n, true)) :
    ∃ body, cs.take n = body ++ [quote] := by
  fun_induction stringBody quote cs generalizing n with
  | case4 c rest hc length closed hb ih =>
    simp only [Prod.mk.injEq] at h
    obtain ⟨rfl, rfl⟩ := h
    obtain ⟨body, hbody⟩ := ih hb
    exact ⟨'\\' :: c :: body, by simp [hbody]⟩
  | case5 rest =>
    simp only [Prod.mk.injEq, and_true] at h
    subst h
    exact ⟨[], by simp⟩
  | case7 c rest _ _ hq hb length closed hr ih =>
    simp only [Prod.mk.injEq] at h
    obtain ⟨rfl, rfl⟩ := h
    obtain ⟨body, hbody⟩ := ih hr
    exact ⟨c :: body, by simp [hbody]⟩
  | _ => simp at h

theorem string?_text (h : string? cs = some n) :
    ∃ quote body, isQuote quote = true ∧ cs.take n = quote :: (body ++ [quote]) := by
  cases cs with
  | nil => simp [string?] at h
  | cons c rest =>
    simp only [string?] at h
    split at h
    · rename_i hq
      split at h
      · rename_i hclosed
        cases h
        obtain ⟨body, hbody⟩ := stringBody_closed (Prod.ext rfl hclosed)
        exact ⟨c, body, hq, by rw [Nat.add_comm, List.take_succ_cons, hbody]⟩
      · simp at h
    · simp at h

/-- A slash that may open a regular expression opens no comment. -/
theorem slash_of_mayOpenRegex {t : Token} (h : longest? cs = some (t, n))
    (ht : t.mayOpenRegex = true) : ∃ rest, cs = '/' :: rest ∧ ∀ tail, rest ≠ '/' :: tail := by
  have hm := longest?_matched h
  cases t with
  | punctuator mark =>
    simp only [matched?, spelled?, Option.ite_none_right_eq_some, List.isPrefixOf_iff_prefix] at hm
    obtain ⟨⟨tail, rfl⟩, -⟩ := hm
    cases mark
    case slash =>
      refine ⟨tail, rfl, fun rest hrest => ?_⟩
      subst hrest
      exact not_comment_of_slash h rest rfl
    case slashAssign => exact ⟨'=' :: tail, rfl, by simp⟩
    all_goals simp [Token.mayOpenRegex] at ht
  | _ => simp [Token.mayOpenRegex] at ht

end Pattern

namespace RegexLiteral

theorem body?_text {inClass : Bool} (h : body? inClass cs = some n) :
    ∃ pattern, cs.take n = pattern ++ ['/'] ∧ (pattern = [] → ∃ tail, cs = '/' :: tail) := by
  fun_induction body? inClass cs generalizing n with
  | case3 inClass c rest hc ih =>
    obtain ⟨k, hk, rfl⟩ := Option.map_eq_some_iff.1 h
    obtain ⟨pattern, hp, -⟩ := ih hk
    exact ⟨'\\' :: c :: pattern, by simp [hp], by simp⟩
  | case5 inClass c rest _ hc hslash =>
    cases h
    have hc : c = '/' := by simp_all
    exact ⟨[], by simp [hc], fun _ => ⟨rest, by rw [hc]⟩⟩
  | case6 inClass c rest _ hc hslash ih =>
    obtain ⟨k, hk, rfl⟩ := Option.map_eq_some_iff.1 h
    obtain ⟨pattern, hp, -⟩ := ih hk
    exact ⟨c :: pattern, by simp [hp], by simp⟩
  | _ => simp at h

theorem isFlag_slash : isFlag '/' = false := by decide

/-- The literal splits at its last slash, since no flag is one. -/
theorem length?_text {rest : List Char} (h : length? ('/' :: rest) = some n) :
    ∃ pattern flags, ('/' :: rest).take n = '/' :: (pattern ++ '/' :: flags) ∧
      (∀ c ∈ flags, isFlag c = true) ∧ (pattern = [] → ∃ tail, rest = '/' :: tail) := by
  simp only [length?, Option.bind_eq_bind, Option.bind_eq_some_iff, Option.pure_def,
    Option.some.injEq] at h
  obtain ⟨k, hk, rfl⟩ := h
  obtain ⟨pattern, hp, hempty⟩ := body?_text hk
  refine ⟨pattern, (rest.drop k).takeWhile isFlag, ?_, ?_, hempty⟩
  · rw [show 1 + k + ((rest.drop k).takeWhile isFlag).length
      = (k + ((rest.drop k).takeWhile isFlag).length) + 1 by omega, List.take_succ_cons,
      List.take_add, hp, List.append_assoc,
      ← List.prefix_iff_eq_take.1 (List.takeWhile_prefix isFlag)]
    rfl
  · exact List.all_eq_true.1 List.all_takeWhile

end RegexLiteral

end Ecma3.Token

namespace Ecma3.Build.Literal

variable {cs : List Char} {n : Nat} {text : String} {span : Span}

theorem string?_isSome (h : Token.Pattern.string? cs = some n)
    (ht : text.toList = cs.take n) : (string? text span).isSome = true := by
  obtain ⟨quote, body, hq, hcs⟩ := Token.Pattern.string?_text h
  have hquote : isQuote quote = true := hq
  simp [string?, ht, hcs, hquote]

theorem takeWhile_reverse_flags {pattern flags : List Char} (h : '/' ∉ flags) :
    ((pattern ++ '/' :: flags).reverse.takeWhile (· ≠ '/')).reverse = flags := by
  rw [List.reverse_append, List.reverse_cons, List.append_assoc, List.takeWhile_append_of_pos]
  · simp
  · intro c hc
    have : c ∈ flags := List.mem_reverse.1 hc
    simp only [decide_not, Bool.not_eq_eq_eq_not, Bool.not_true, decide_eq_false_iff_not]
    rintro rfl
    exact h this

/-- What stands between the first slash and the last is the pattern. -/
theorem regex?_eq {pattern flags : List Char} (hslash : '/' ∉ flags)
    (ht : text.toList = '/' :: (pattern ++ '/' :: flags)) : regex? text span =
      if pattern = [] then none
      else some (.regex (String.ofList pattern) (String.ofList flags) span) := by
  simp only [regex?, ht, takeWhile_reverse_flags hslash]
  rw [List.take_left' (by simp only [List.length_append, List.length_cons]; omega)]
  simp only [List.isEmpty_iff]

theorem regex?_of_parts {pattern flags : List Char} (hslash : '/' ∉ flags) (hpattern : pattern ≠ [])
    (ht : text.toList = '/' :: (pattern ++ '/' :: flags)) : regex? text span =
      some (.regex (String.ofList pattern) (String.ofList flags) span) := by
  rw [regex?_eq hslash ht, if_neg hpattern]

/-- With one slash only there is no pattern. -/
theorem regex?_of_notMem {body : List Char} (hslash : '/' ∉ body) (ht : text.toList = '/' :: body) :
    regex? text span = none := by
  have hflags : body.reverse.takeWhile (· ≠ '/') = body.reverse :=
    List.takeWhile_eq_self_iff.2 fun c hc => by
      rw [decide_eq_true_iff]
      rintro rfl
      exact hslash (List.mem_reverse.1 hc)
  simp only [regex?, ht, hflags, List.reverse_reverse]
  simp

theorem regex?_isSome {rest : List Char} (h : Token.RegexLiteral.length? ('/' :: rest) = some n)
    (hrest : ∀ tail, rest ≠ '/' :: tail) (ht : text.toList = ('/' :: rest).take n) :
    (regex? text span).isSome = true := by
  obtain ⟨pattern, flags, hcs, hflags, hempty⟩ := Token.RegexLiteral.length?_text h
  have hslash : '/' ∉ flags := fun hmem => by
    have hflag := hflags _ hmem
    simp [Token.RegexLiteral.isFlag_slash] at hflag
  have hpattern : pattern ≠ [] := by
    intro hp
    obtain ⟨tail, htail⟩ := hempty hp
    exact hrest tail htail
  rw [regex?_of_parts hslash hpattern (ht.trans hcs)]
  rfl

end Ecma3.Build.Literal
