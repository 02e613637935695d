import Ecma3.Proofs.Token.Longest
import Ecma3.Proofs.Token.Word

/-! Line terminators and comments are the longest texts of their patterns. -/
namespace Ecma3.Token

open Regex

variable {cs text : List Char} {c : Char}

theorem mem_lineTerminator : text ∈ language .lineTerminator ↔
    text = ['\r', '\n'] ∨ ∃ c, Text.isLineTerminator c = true ∧ text = [c] := by
  have hword : "\r\n".toList = ['\r', '\n'] := by decide
  rw [language_of_pattern rfl]
  simp [hword, Text.isLineTerminator, or_and_right, exists_or, or_assoc]

theorem longest_lineTerminator :
    Longest (language .lineTerminator) cs (Pattern.lineTerminator? cs) where
  matched n hn := by
    rw [mem_lineTerminator]
    unfold Pattern.lineTerminator? at hn
    split at hn <;> grind
  greatest text htext hinitial := by
    obtain ⟨rest, rfl⟩ := hinitial
    rw [mem_lineTerminator] at htext
    rcases htext with rfl | ⟨c, hc, rfl⟩
    · exact ⟨2, rfl, by simp⟩
    · simp only [List.cons_append, List.nil_append]
      unfold Pattern.lineTerminator?
      split <;> simp_all

theorem longest_lineComment : Longest (language .lineComment) cs (Pattern.lineComment? cs) := by
  have hbody : except ['\n', '\r', '\u2028', '\u2029'] = oneOf (!Text.isLineTerminator ·) := by
    unfold Regex.except
    congr 1
    funext c
    rw [Bool.eq_iff_iff]
    simp [Text.isLineTerminator, and_assoc]
  rw [language_of_pattern rfl, hbody]
  unfold Pattern.lineComment?
  split
  · rename_i rest
    exact .word_seq "//" (.run _ rest)
  · rename_i hcs
    refine .not_word_seq ?_
    rintro ⟨rest, rfl⟩
    exact hcs rest rfl

namespace Pattern

theorem commentClose?_stars (k : Nat) (rest : List Char) :
    commentClose? (List.replicate (k + 1) '*' ++ '/' :: rest) = some (k + 2) := by
  induction k with
  | zero => rfl
  | succ k ih =>
    rw [List.replicate_succ, List.cons_append,
      commentClose?_cons (by simp [List.replicate_succ]), ih]
    rfl

theorem commentClose?_stars_cons {d : Char} (hstar : d ≠ '*') (hslash : d ≠ '/') (k : Nat)
    (rest : List Char) : commentClose? (List.replicate k '*' ++ d :: rest) =
      (commentClose? rest).map (· + (k + 1)) := by
  induction k with
  | zero => exact commentClose?_cons (by simp [hstar])
  | succ k ih =>
    rw [List.replicate_succ, List.cons_append, commentClose?_cons, ih, Option.map_map]
    · rfl
    · cases k <;> simp [List.replicate_succ, hslash]

/-- No part of a comment holds its end. -/
theorem commentClose?_part {part : List Char} (h : part ∈ commentPart.language)
    (rest : List Char) :
    commentClose? (part ++ rest) = (commentClose? rest).map (· + part.length) := by
  rcases mem_either.1 h with h | h
  · obtain ⟨d, hd, rfl⟩ := mem_except.1 h
    exact commentClose?_cons (by simp_all)
  · obtain ⟨stars, hstars, other, hother, rfl⟩ := mem_seq.1 h
    obtain ⟨k, rfl⟩ := mem_plus_char.1 hstars
    obtain ⟨d, hd, rfl⟩ := mem_except.1 hother
    simp only [List.mem_cons, List.not_mem_nil, or_false, not_or] at hd
    simpa using commentClose?_stars_cons hd.1 hd.2 (k + 1) rest

theorem commentClose?_of_mem {text : List Char}
    (h : text ∈ commentRest.language) (rest : List Char) :
    commentClose? (text ++ rest) = some text.length := by
  obtain ⟨body, hbody, close, hclose, rfl⟩ := mem_seq.1 h
  obtain ⟨parts, rfl, hparts⟩ := mem_star.1 hbody
  obtain ⟨stars, hstars, slash, hslash, rfl⟩ := mem_seq.1 hclose
  obtain ⟨k, rfl⟩ := mem_plus_char.1 hstars
  obtain rfl := mem_char.1 hslash
  clear h hbody hclose hstars hslash
  induction parts with
  | nil => simpa using commentClose?_stars k rest
  | cons part parts ih =>
    rw [List.forall_mem_cons] at hparts
    have hrest := ih hparts.2
    simp only [List.flatten_cons, List.append_assoc] at hrest ⊢
    rw [commentClose?_part hparts.1, hrest]
    simp only [Option.map_some, List.length_append]
    congr 1
    omega

/-- One more character in front of the rest of a comment, unless it makes an end with the next. -/
theorem cons_mem_comment {text : List Char}
    (h : text ∈ commentRest.language)
    (hend : ∀ tail, c = '*' → text ≠ '/' :: tail) :
    c :: text ∈ commentRest.language := by
  obtain ⟨body, hbody, close, hclose, rfl⟩ := mem_seq.1 h
  obtain ⟨parts, rfl, hparts⟩ := mem_star.1 hbody
  -- the same comment with other parts in front of its end
  have hwith : ∀ part ∈ commentPart.language, ∀ rest : List (List Char),
      (∀ p ∈ rest, p ∈ commentPart.language) →
      part ++ (rest.flatten ++ close) ∈ commentRest.language := fun part hpart rest hrest =>
    mem_seq.2 ⟨_, append_mem_star hpart (mem_star.2 ⟨rest, rfl, hrest⟩), close, hclose,
      List.append_assoc _ _ _⟩
  by_cases hc : c = '*'
  · subst hc
    cases parts with
    | nil =>
      obtain ⟨stars, hstars, slash, hslash, rfl⟩ := mem_seq.1 hclose
      obtain ⟨k, rfl⟩ := mem_plus_char.1 hstars
      have hmore := mem_seq.2 ⟨'*' :: List.replicate (k + 1) '*', mem_plus_char.2 ⟨k + 1, rfl⟩,
        slash, hslash, rfl⟩
      exact mem_seq.2 ⟨[], nil_mem_star, _, hmore, rfl⟩
    | cons part parts =>
      rw [List.forall_mem_cons] at hparts
      rw [List.flatten_cons, List.append_assoc, ← List.cons_append]
      refine hwith _ (mem_either.2 (Or.inr ?_)) parts hparts.2
      rcases mem_either.1 hparts.1 with hpart | hpart
      · obtain ⟨d, hd, rfl⟩ := mem_except.1 hpart
        have hslash : d ≠ '/' := by
          rintro rfl
          exact hend _ rfl rfl
        refine mem_seq.2 ⟨_, mem_plus_char.2 ⟨0, rfl⟩, [d], ?_, rfl⟩
        exact mem_except.2 ⟨d, by simp_all, rfl⟩
      · obtain ⟨stars, hstars, other, hother, rfl⟩ := mem_seq.1 hpart
        obtain ⟨k, rfl⟩ := mem_plus_char.1 hstars
        exact mem_seq.2 ⟨_, mem_plus_char.2 ⟨k + 1, rfl⟩, other, hother, rfl⟩
  · exact hwith [c] (mem_either.2 (Or.inl (mem_except.2 ⟨c, by simpa using hc, rfl⟩))) parts hparts

theorem mem_of_commentClose? {cs : List Char} {n : Nat} (h : commentClose? cs = some n) :
    cs.take n ∈ commentRest.language := by
  fun_induction commentClose? cs generalizing n with
  | case1 => cases h
  | case2 rest =>
    cases h
    refine mem_seq.2 ⟨[], nil_mem_star, ['*', '/'], ?_, rfl⟩
    exact mem_seq.2 ⟨['*'], mem_plus_char.2 ⟨0, rfl⟩, ['/'], mem_char.2 rfl, rfl⟩
  | case3 c rest hend ih =>
    obtain ⟨k, hk, rfl⟩ := Option.map_eq_some_iff.1 h
    refine cons_mem_comment (ih hk) fun tail hc htake => ?_
    have hrest := List.take_append_drop k rest
    rw [htake] at hrest
    exact hend _ hc hrest.symm

end Pattern

theorem longest_blockComment : Longest (language .blockComment) cs (Pattern.blockComment? cs) := by
  have hclose (rest : List Char) : Longest commentRest.language rest
      (Pattern.commentClose? rest) := {
    matched n hn := ⟨Pattern.commentClose?_le hn, Pattern.mem_of_commentClose? hn⟩
    greatest text htext hinitial := by
      obtain ⟨more, rfl⟩ := hinitial
      exact ⟨_, Pattern.commentClose?_of_mem htext more, Nat.le_refl _⟩ }
  rw [language_of_pattern rfl]
  unfold Pattern.blockComment?
  split
  · rename_i rest
    have h := Longest.word_seq "/*" (hclose rest)
    rwa [funext fun n => Nat.add_comm _ n] at h
  · rename_i hcs
    refine .not_word_seq ?_
    rintro ⟨rest, rfl⟩
    exact hcs rest rfl

end Ecma3.Token
