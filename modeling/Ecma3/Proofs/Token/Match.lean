import Ecma3.Token.Lexeme

/-! What the longest match says about the text: the class of the token matches, and no class
matches more. -/
namespace Ecma3.Token.Pattern

variable {cs : List Char} {t : Token} {n : Nat} {m : Token × Nat}

/-- What the class of a token matches at the start of a text. Reserved words and identifiers are
both matched as names. -/
def matched? (cs : List Char) : Token → Option Nat
  | .lineTerminator => lineTerminator? cs
  | .lineComment => lineComment? cs
  | .blockComment => blockComment? cs
  | .reserved _ | .identifier => name? cs
  | .decimalLiteral => decimal? cs
  | .hexLiteral => hex? cs
  | .stringLiteral => string? cs
  | .punctuator mark => spelled? mark.spelling cs

theorem wordToken_cases (cs : List Char) :
    wordToken cs = .identifier ∨ ∃ w, wordToken cs = .reserved w := by
  unfold wordToken
  split
  · exact Or.inr ⟨_, rfl⟩
  · exact Or.inl rfl

theorem mem_candidates (h : (t, n) ∈ candidates cs) :
    matched? cs t = some n ∧
      ((t = .identifier ∨ ∃ w, t = .reserved w) → wordToken (cs.take n) = t) := by
  simp only [candidates, List.mem_append, List.mem_filterMap, List.mem_cons, List.not_mem_nil,
    or_false, id_eq, exists_eq_right, Option.map_eq_some_iff] at h
  rcases h with h | ⟨p, -, k, hk, he⟩
  · rcases h with h | h | h | h | h | h | h <;>
      obtain ⟨k, hk, he⟩ := Option.map_eq_some_iff.1 h.symm <;> cases he
    · exact ⟨hk, by simp⟩
    · exact ⟨hk, by simp⟩
    · exact ⟨hk, by simp⟩
    · refine ⟨?_, fun _ => rfl⟩
      rcases wordToken_cases (cs.take n) with hw | ⟨w, hw⟩ <;> rw [hw] <;> exact hk
    · exact ⟨hk, by simp⟩
    · exact ⟨hk, by simp⟩
    · exact ⟨hk, by simp⟩
  · cases he
    exact ⟨hk, by simp⟩

theorem longest?_mem (h : longest? cs = some m) : m ∈ candidates cs := by
  unfold longest? at h
  split at h
  · simp at h
  · rename_i first rest hc
    cases h
    exact hc ▸ foldl_longer_mem first rest

theorem longest?_matched (h : longest? cs = some (t, n)) : matched? cs t = some n :=
  (mem_candidates (longest?_mem h)).1

theorem le_foldl_longer (rest : List (Token × Nat)) (first : Token × Nat) :
    ∀ k ∈ first :: rest, k.2 ≤ (rest.foldl longer first).2 := by
  induction rest generalizing first with
  | nil => simp
  | cons head rest ih =>
    intro k hk
    have hfirst := ih (longer first head) (longer first head) List.mem_cons_self
    have hlonger : first.2 ≤ (longer first head).2 ∧ head.2 ≤ (longer first head).2 := by
      unfold longer
      split <;> omega
    rw [List.foldl_cons]
    rcases List.mem_cons.1 hk with rfl | hk
    · omega
    · rcases List.mem_cons.1 hk with rfl | hk
      · omega
      · exact ih _ k (List.mem_cons_of_mem _ hk)

/-- No class matches more than the longest match. -/
theorem le_longest? (h : longest? cs = some m) : ∀ k ∈ candidates cs, k.2 ≤ m.2 := by
  unfold longest? at h
  split at h
  · simp at h
  · rename_i first rest hc
    cases h
    rw [hc]
    exact le_foldl_longer rest first

/-- Text that begins with a lone slash begins with no comment. -/
theorem not_comment_of_slash (h : longest? cs = some (.punctuator .slash, n)) (rest : List Char) :
    cs ≠ '/' :: '/' :: rest := by
  rintro rfl
  have hn : n = 1 := by
    have := longest?_matched h
    simp only [matched?, spelled?, Option.ite_none_right_eq_some, Option.some.injEq] at this
    exact this.2.symm
  have hle := le_longest? h (.lineComment, 2 + run (!Text.isLineTerminator ·) rest)
    (by simp [candidates, lineComment?])
  simp only at hle
  omega

/-! Runs of characters. -/

theorem run_append_of_stop {p : Char → Bool} (cs : List Char) {rest : List Char}
    (h : ∀ c ∈ rest.head?, p c = false) : run p (cs ++ rest) = run p cs := by
  induction cs with
  | nil =>
    cases rest with
    | nil => rfl
    | cons c rest => simp [run, h c rfl]
  | cons c cs ih =>
    simp only [run, List.cons_append, List.takeWhile_cons] at ih ⊢
    split <;> simp_all

theorem run_le (p : Char → Bool) (cs : List Char) : run p cs ≤ cs.length :=
  (List.takeWhile_sublist p).length_le

theorem take_run (p : Char → Bool) (cs : List Char) : cs.take (run p cs) = cs.takeWhile p :=
  (List.prefix_iff_eq_take.1 (List.takeWhile_prefix p)).symm

theorem drop_run (p : Char → Bool) (cs : List Char) : cs.drop (run p cs) = cs.dropWhile p := by
  have hsplit := List.take_append_drop (run p cs) cs
  rw [take_run] at hsplit
  exact List.append_cancel_left (hsplit.trans List.takeWhile_append_dropWhile.symm)

end Ecma3.Token.Pattern
