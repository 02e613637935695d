import Ecma3.Proofs.Text.Line

/-!
The lines of a text and the positions in it. Positions stand in the order of the offsets, and the
columns of each line are the offsets from where it begins to where the next one does.
-/
namespace Ecma3.Text

variable {ends : List Nat} {before after cs : List Char} {c : Char} {a b k m n : Nat}
  {ix : LineIndex} {text : String}

theorem byteLength_toList (text : String) : byteLength text.toList = text.utf8ByteSize := by
  have hbytes : ∀ cs : List Char, byteLength cs = (String.ofList cs).utf8ByteSize := by
    intro cs
    induction cs with
    | nil => rfl
    | cons c cs ih =>
      rw [String.ofList_cons, String.utf8ByteSize_append, byteLength, ih,
        String.utf8ByteSize_singleton]
  rw [hbytes, String.ofList_toList]

/-- How often a CR has its LF behind it. -/
def returnFeeds (cs : List Char) : Nat := (cs.zip cs.tail).count ('\r', '\n')

theorem returnFeeds_cons (h : c = '\r' → cs.head? ≠ some '\n') :
    returnFeeds (c :: cs) = returnFeeds cs := by
  cases cs with
  | nil => rfl
  | cons d cs =>
    have hpair : ((c, d) == ('\r', '\n')) = false := by
      rw [beq_eq_false_iff_ne]
      rintro ⟨⟩
      exact h rfl rfl
    simp only [returnFeeds, List.tail_cons, List.zip_cons_cons, List.count_cons, hpair]
    rfl

/-- Each character that ends lines ends one, but a CR before an LF. -/
theorem length_lineBreakEnds (offset : Nat) (cs : List Char) :
    (lineBreakEnds offset cs).length + returnFeeds cs = cs.countP isLineTerminator := by
  fun_induction lineBreakEnds offset cs with
  | case1 => rfl
  | case2 offset rest ih =>
    have hpair : returnFeeds ('\r' :: '\n' :: rest) = returnFeeds ('\n' :: rest) + 1 :=
      List.count_cons_self
    have hfeed : returnFeeds ('\n' :: rest) = returnFeeds rest :=
      returnFeeds_cons fun hreturn => absurd hreturn (by decide)
    rw [List.countP_cons_of_pos rfl, List.countP_cons_of_pos rfl, List.length_cons, ← ih, hpair,
      hfeed]
    omega
  | case3 offset c rest hcr next hterminator ih =>
    have hpair : returnFeeds (c :: rest) = returnFeeds rest := by
      refine returnFeeds_cons fun hreturn hfeed => ?_
      obtain ⟨tail, htail⟩ := List.head?_eq_some_iff.1 hfeed
      exact hcr tail hreturn htail
    rw [List.countP_cons_of_pos hterminator, List.length_cons, hpair, ← ih]
    omega
  | case4 offset c rest hcr next hterminator ih =>
    have hpair : returnFeeds (c :: rest) = returnFeeds rest := by
      refine returnFeeds_cons fun hreturn => ?_
      subst hreturn
      exact absurd rfl hterminator
    rw [List.countP_cons_of_neg hterminator, hpair, ← ih]

theorem countP_isLineTerminator (cs : List Char) : cs.countP isLineTerminator =
    cs.count '\n' + cs.count '\r' + cs.count '\u2028' + cs.count '\u2029' := by
  induction cs with
  | nil => rfl
  | cons c cs ih =>
    simp only [List.countP_cons, List.count_cons, ih, isLineTerminator, Bool.or_eq_true,
      beq_iff_eq]
    grind

namespace LineIndex

/-- What an index must know of a text. -/
structure Describes (ix : LineIndex) (text : String) : Prop where
  size_eq : ix.size = text.utf8ByteSize
  /-- A line begins at the start of the text, and behind each line end. -/
  starts : ∀ n, (∃ k, ix.lineStart? k = some n) ↔ n = 0 ∨ IsLineEnd text.toList n
  lines : ∀ k, (ix.lineStart? k).isSome ↔ k < ix.lineCount
  first : ix.lineStart? 0 = some 0
  increasing : ∀ j k m n, j < k → ix.lineStart? j = some m → ix.lineStart? k = some n → m < n
  /-- The separators U+2028 and U+2029 take three bytes. -/
  separated : ∀ before c after, text.toList = before ++ c :: after → c = '\u2028' ∨ c = '\u2029' →
    ∃ k, ix.lineStart? k = some (byteLength before + 3)
  /-- A CR and the LF behind it end one line and not two. -/
  count : ix.lineCount + returnFeeds text.toList = 1 + (text.toList.count '\n' +
    text.toList.count '\r' + text.toList.count '\u2028' + text.toList.count '\u2029')

theorem exists_lineStart? (text : String) (n : Nat) :
    (∃ k, (ofString text).lineStart? k = some n) ↔ n = 0 ∨ IsLineEnd text.toList n := by
  simp only [lineStart?, ofString, List.getElem?_toArray, ← List.mem_iff_getElem?, List.mem_cons,
    mem_lineBreakEnds, Nat.zero_add, exists_eq_left']

theorem describes_ofString (text : String) : (ofString text).Describes text where
  size_eq := byteLength_toList text
  starts := exists_lineStart? text
  lines k := by simp [lineStart?, lineCount]
  first := rfl
  increasing j k m n hjk hm hn := by
    obtain ⟨hj, rfl⟩ := Array.getElem?_eq_some_iff.1 hm
    obtain ⟨hk, rfl⟩ := Array.getElem?_eq_some_iff.1 hn
    exact increasing_starts text j k hj hk hjk
  separated before c after htext hc := by
    have hsize : c.utf8Size = 3 ∧ EndsLine [c] after := by
      rw [endsLine_singleton]
      rcases hc with rfl | rfl <;> exact ⟨rfl, rfl, nofun⟩
    refine (exists_lineStart? text _).2 (Or.inr ⟨before ++ [c], after, by simp [htext], ?_, ?_⟩)
    · rw [byteLength_append, byteLength, hsize.1, byteLength]
    · obtain ⟨d, hd, hends⟩ := hsize.2
      exact ⟨d, by simpa using hd, hends⟩
  count := by
    have hlength := length_lineBreakEnds 0 text.toList
    rw [countP_isLineTerminator] at hlength
    rw [← hlength, lineCount, ofString, List.size_toArray, List.length_cons]
    omega

/-- The line begins at or before the offset, as many bytes as the column says, and is the last one
that does. -/
structure Finds (ix : LineIndex) (o : Nat) (p : Position) : Prop where
  counted : p.line < ix.lineCount
  start : ∃ start, ix.lineStart? p.line = some start ∧ start + p.column = o
  last : ∀ k start, ix.lineStart? k = some start → start ≤ o → k ≤ p.line

/-- The line that the search finds is the line of the offset. -/
theorem finds_position (text : String) (o : Nat) :
    (ofString text).Finds (min o (ofString text).size) ((ofString text).position o) := by
  obtain ⟨i, hi, hbefore, hbehind⟩ :=
    exists_line (increasing_starts text) (min o (ofString text).size)
  simp only [position, hi]
  refine ⟨i.isLt, ⟨_, Array.getElem?_eq_getElem i.isLt, Nat.add_sub_cancel' hbefore⟩, ?_⟩
  intro k start hk hle
  by_contra hlt
  obtain ⟨hcounted, rfl⟩ := Array.getElem?_eq_some_iff.1 hk
  exact Nat.not_le_of_lt (hbehind k hcounted (Nat.lt_of_not_le hlt)) hle

namespace Finds

variable {p q : Position}

/-- Which line and column are found is determined by the offset. -/
theorem unique (hp : ix.Finds a p) (hq : ix.Finds a q) : p = q := by
  obtain ⟨m, hm, hpa⟩ := hp.start
  obtain ⟨n, hn, hqa⟩ := hq.start
  have hline : p.line = q.line :=
    Nat.le_antisymm (hq.last _ _ hm (by omega)) (hp.last _ _ hn (by omega))
  rw [hline, hn, Option.some.injEq] at hm
  have hcolumn : p.column = q.column := by omega
  cases p
  cases q
  rw [Position.mk.injEq]
  exact ⟨hline, hcolumn⟩

/-- A greater offset is found on a later line, or further on in the same line. -/
theorem lt (hp : ix.Finds a p) (hq : ix.Finds b q) (hab : a < b) :
    p.line < q.line ∨ p.line = q.line ∧ p.column < q.column := by
  obtain ⟨m, hm, hpa⟩ := hp.start
  obtain ⟨n, hn, hqb⟩ := hq.start
  rcases Nat.lt_or_eq_of_le (hq.last _ _ hm (by omega)) with hlt | hline
  · exact Or.inl hlt
  · rw [hline, hn, Option.some.injEq] at hm
    exact Or.inr ⟨hline, by omega⟩

end Finds

/-- The column lies in the line: before the next one begins, or up to the end of the text. -/
def Has (ix : LineIndex) (p : Position) : Prop :=
  ∃ start, ix.lineStart? p.line = some start ∧ start + p.column ≤ ix.size ∧
    ∀ next, ix.lineStart? (p.line + 1) = some next → start + p.column < next

theorem Finds.has {p : Position} (hp : ix.Finds a p) (ha : a ≤ ix.size) : ix.Has p := by
  obtain ⟨start, hstart, hsum⟩ := hp.start
  refine ⟨start, hstart, by omega, fun next hnext => ?_⟩
  by_contra hle
  have := hp.last _ _ hnext (by omega)
  omega

/-- A position that lies in a line is the one that its offset is found at. -/
theorem Has.finds (h : ix.Describes text) {p : Position} (hp : ix.Has p) :
    ∃ a ≤ ix.size, ix.Finds a p := by
  obtain ⟨start, hstart, hle, hnext⟩ := hp
  refine ⟨start + p.column, hle, ?_, ⟨start, hstart, rfl⟩, fun k later hk hlater => ?_⟩
  · rw [← h.lines, hstart]
    rfl
  · by_contra hbehind
    -- The next line begins no later than this one, and that is behind the column.
    obtain ⟨next, hsome⟩ : ∃ next, ix.lineStart? (p.line + 1) = some next := by
      have hcounted : k < ix.lineCount := (h.lines k).1 (by rw [hk]; rfl)
      exact Option.isSome_iff_exists.1 ((h.lines _).2 (by omega))
    have hbefore := hnext next hsome
    rcases Nat.lt_or_eq_of_le (Nat.lt_of_not_le hbehind) with hlt | heq
    · have := h.increasing _ _ _ _ hlt hsome hk
      omega
    · rw [← heq, hsome, Option.some.injEq] at hk
      omega

/-- The index of a text knows its lines. An offset is found on the last line that begins at or
before it, one past the end where the end is found. Offsets in the text keep their order as
positions, and every column of every line is the position of one of them. -/
theorem position_orders (text : String) :
    (ofString text).Describes text ∧
    (∀ a, (ofString text).Finds (min a text.utf8ByteSize) ((ofString text).position a)) ∧
    (∀ a, text.utf8ByteSize ≤ a →
      (ofString text).position a = (ofString text).position text.utf8ByteSize) ∧
    (∀ a b, a < b → b ≤ text.utf8ByteSize →
      ((ofString text).position a).le ((ofString text).position b) = true ∧
      ((ofString text).position b).le ((ofString text).position a) = false) ∧
    ∀ p, (ofString text).Has p ↔ ∃ a ≤ text.utf8ByteSize, (ofString text).position a = p := by
  have hdescribes := describes_ofString text
  have hfinds : ∀ a, (ofString text).Finds (min a text.utf8ByteSize) ((ofString text).position a) :=
    hdescribes.size_eq ▸ finds_position text
  have hinside : ∀ a ≤ text.utf8ByteSize,
      (ofString text).Finds a ((ofString text).position a) := by
    intro a ha
    have hfound := hfinds a
    rwa [Nat.min_eq_left ha] at hfound
  refine ⟨hdescribes, hfinds, fun a ha => ?_, fun a b hab hb => ?_, fun p => ?_⟩
  · have hpast := hfinds a
    rw [Nat.min_eq_right ha] at hpast
    exact hpast.unique (hinside _ (Nat.le_refl _))
  · have hlt := (hinside a (Nat.le_trans (Nat.le_of_lt hab) hb)).lt (hinside b hb) hab
    simp only [Position.le, Bool.or_eq_true, Bool.and_eq_true, decide_eq_true_eq, beq_iff_eq,
      Bool.or_eq_false_iff, Bool.and_eq_false_iff, decide_eq_false_iff_not, beq_eq_false_iff_ne]
    omega
  · constructor
    · intro hp
      obtain ⟨a, ha, hfound⟩ := hp.finds hdescribes
      rw [hdescribes.size_eq] at ha
      exact ⟨a, ha, (hinside a ha).unique hfound⟩
    · rintro ⟨a, ha, rfl⟩
      exact (hinside a ha).has (hdescribes.size_eq ▸ ha)

/-- Between a CR and its LF, behind them, and behind a separator at the end of the text. -/
theorem position_orders_returnFeed :
    (ofString "a\r\n\u2028").Describes "a\r\n\u2028" ∧ 2 < 3 ∧ 3 ≤ "a\r\n\u2028".utf8ByteSize ∧
    ((ofString "a\r\n\u2028").position 2).le ((ofString "a\r\n\u2028").position 3) = true ∧
    ((ofString "a\r\n\u2028").position 3).le ((ofString "a\r\n\u2028").position 2) = false ∧
    "a\r\n\u2028".utf8ByteSize ≤ 9 ∧
    (ofString "a\r\n\u2028").position 9 =
      (ofString "a\r\n\u2028").position "a\r\n\u2028".utf8ByteSize := by
  obtain ⟨hdescribes, -, hpast, horder, -⟩ := position_orders "a\r\n\u2028"
  have hsize : "a\r\n\u2028".utf8ByteSize = 6 := by decide
  have hinside : 3 ≤ "a\r\n\u2028".utf8ByteSize := by omega
  obtain ⟨hle, hlt⟩ := horder 2 3 (by decide) hinside
  exact ⟨hdescribes, by decide, hinside, hle, hlt, by omega, hpast 9 (by omega)⟩

end LineIndex
end Ecma3.Text
