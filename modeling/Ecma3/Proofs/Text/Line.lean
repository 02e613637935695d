import Mathlib.Data.List.TakeWhile
import Ecma3.Proofs.Text.Search
import Ecma3.Text.Line

/-! The ends of the lines of a text, and the positions that are counted with them. -/
namespace Ecma3.Text

variable {source cs before after : List Char} {c : Char} {offset o n k : Nat} {ends : List Nat}

/-- A line ends between the two parts of a text: the first one ends with a line terminator, and not
with a CR that the LF behind it belongs to. -/
def EndsLine (before after : List Char) : Prop :=
  ∃ c, before.getLast? = some c ∧ isLineTerminator c = true ∧ (c = '\r' → after.head? ≠ some '\n')

/-- A line of the text ends at the offset. -/
def IsLineEnd (source : List Char) (n : Nat) : Prop :=
  ∃ before after, source = before ++ after ∧ n = byteLength before ∧ EndsLine before after

/-- The ends of the lines that end at or before an offset, in their order. -/
structure LineEnds (source : List Char) (o : Nat) (ends : List Nat) : Prop where
  ordered : ends.Pairwise (· < ·)
  mem_iff : ∀ n, n ∈ ends ↔ IsLineEnd source n ∧ n ≤ o

theorem not_endsLine_nil : ¬EndsLine [] after := by
  rintro ⟨c, hc, -⟩
  cases hc

theorem endsLine_singleton : EndsLine [c] after ↔
    isLineTerminator c = true ∧ (c = '\r' → after.head? ≠ some '\n') := by
  simp [EndsLine]

theorem endsLine_cons (hbefore : before ≠ []) :
    EndsLine (c :: before) after ↔ EndsLine before after := by
  rw [EndsLine, EndsLine, List.getLast?_cons_of_ne_nil hbefore]

/-- A line of a text ends behind its first character or further on. -/
theorem isLineEnd_cons : IsLineEnd (c :: cs) n ↔
    (n = c.utf8Size ∧ EndsLine [c] cs) ∨ ∃ k, n = c.utf8Size + k ∧ IsLineEnd cs k := by
  constructor
  · rintro ⟨before, after, hsource, rfl, hends⟩
    obtain - | ⟨first, before⟩ := before
    · exact absurd hends not_endsLine_nil
    · rw [List.cons_append, List.cons.injEq] at hsource
      obtain ⟨rfl, rfl⟩ := hsource
      by_cases hbefore : before = []
      · subst hbefore
        exact Or.inl ⟨rfl, hends⟩
      · exact Or.inr ⟨_, rfl, before, after, rfl, rfl, (endsLine_cons hbefore).1 hends⟩
  · rintro (⟨rfl, hends⟩ | ⟨k, rfl, before, after, rfl, rfl, hends⟩)
    · exact ⟨[c], cs, rfl, rfl, hends⟩
    · have hbefore : before ≠ [] := by
        rintro rfl
        exact not_endsLine_nil hends
      exact ⟨c :: before, after, rfl, rfl, (endsLine_cons hbefore).2 hends⟩

theorem not_isLineEnd_nil : ¬IsLineEnd [] n := by
  rintro ⟨before, after, hsource, -, hends⟩
  obtain ⟨rfl, -⟩ := List.append_eq_nil_iff.1 hsource.symm
  exact not_endsLine_nil hends

/-- The offsets that are collected are the ends of lines. -/
theorem mem_lineBreakEnds :
    n ∈ lineBreakEnds offset cs ↔ ∃ k, n = offset + k ∧ IsLineEnd cs k := by
  fun_induction lineBreakEnds offset cs with
  | case1 offset => simp [not_isLineEnd_nil]
  | case2 offset rest ih =>
    -- Of the two characters only the second one ends a line.
    have hreturn : ¬EndsLine ['\r'] ('\n' :: rest) := by simp [endsLine_singleton]
    have hfeed : EndsLine ['\n'] rest := endsLine_singleton.2 ⟨rfl, nofun⟩
    have hsize : '\r'.utf8Size = 1 ∧ '\n'.utf8Size = 1 := ⟨rfl, rfl⟩
    rw [List.mem_cons, ih]
    simp only [isLineEnd_cons, hreturn, hfeed, hsize, and_false, and_true, false_or]
    constructor
    · rintro (rfl | ⟨k, rfl, hk⟩)
      · exact ⟨2, rfl, 1, rfl, Or.inl rfl⟩
      · exact ⟨2 + k, by omega, 1 + k, by omega, Or.inr ⟨k, rfl, hk⟩⟩
    · rintro ⟨_, rfl, _, rfl, rfl | ⟨k, rfl, hk⟩⟩
      · exact Or.inl rfl
      · exact Or.inr ⟨k, by omega, hk⟩
  | case3 offset c rest hcr next hterminator ih =>
    have hends : EndsLine [c] rest := by
      refine endsLine_singleton.2 ⟨hterminator, fun hreturn hfeed => ?_⟩
      obtain ⟨tail, htail⟩ := List.head?_eq_some_iff.1 hfeed
      exact hcr tail hreturn htail
    rw [List.mem_cons, ih]
    simp only [isLineEnd_cons, hends, and_true]
    constructor
    · rintro (rfl | ⟨k, rfl, hk⟩)
      · exact ⟨_, rfl, Or.inl rfl⟩
      · exact ⟨_, Nat.add_assoc _ _ _, Or.inr ⟨k, rfl, hk⟩⟩
    · rintro ⟨_, rfl, rfl | ⟨k, rfl, hk⟩⟩
      · exact Or.inl rfl
      · exact Or.inr ⟨k, (Nat.add_assoc _ _ _).symm, hk⟩
  | case4 offset c rest hcr next hterminator ih =>
    have hends : ¬EndsLine [c] rest := fun hends => hterminator (endsLine_singleton.1 hends).1
    rw [ih]
    simp only [isLineEnd_cons, hends, and_false, false_or]
    constructor
    · rintro ⟨k, rfl, hk⟩
      exact ⟨_, Nat.add_assoc _ _ _, k, rfl, hk⟩
    · rintro ⟨_, rfl, k, rfl, hk⟩
      exact ⟨k, (Nat.add_assoc _ _ _).symm, hk⟩

/-- A line does not end where it begins. -/
theorem IsLineEnd.pos (h : IsLineEnd source n) : 0 < n := by
  obtain ⟨before, after, -, rfl, hends⟩ := h
  obtain - | ⟨c, before⟩ := before
  · exact absurd hends not_endsLine_nil
  · exact Nat.lt_of_lt_of_le c.utf8Size_pos (Nat.le_add_right _ _)

theorem lt_of_mem_lineBreakEnds (h : n ∈ lineBreakEnds offset cs) : offset < n := by
  obtain ⟨k, rfl, hk⟩ := mem_lineBreakEnds.1 h
  exact Nat.lt_add_of_pos_right hk.pos

theorem ordered_lineBreakEnds (offset : Nat) (cs : List Char) :
    (lineBreakEnds offset cs).Pairwise (· < ·) := by
  fun_induction lineBreakEnds offset cs with
  | case1 => exact .nil
  | case2 offset rest ih => exact List.pairwise_cons.2 ⟨fun _ => lt_of_mem_lineBreakEnds, ih⟩
  | case3 offset c rest hcr next hterminator ih =>
    exact List.pairwise_cons.2 ⟨fun _ => lt_of_mem_lineBreakEnds, ih⟩
  | case4 offset c rest hcr next hterminator ih => exact ih

/-- In an ordered list, the numbers up to a bound come first. -/
theorem takeWhile_le_eq_filter (h : ends.Pairwise (· < ·)) :
    ends.takeWhile (· ≤ k) = ends.filter (· ≤ k) := by
  induction h with
  | nil => rfl
  | @cons n ends hn _ ih =>
    by_cases hle : n ≤ k
    · rw [List.takeWhile_cons_of_pos (by simpa using hle),
        List.filter_cons_of_pos (by simpa using hle), ih]
    · -- All that follow are greater still, so both lists end here.
      have hrest : ends.filter (· ≤ k) = [] := by
        refine List.filter_eq_nil_iff.2 fun m hm => ?_
        have := hn m hm
        simp only [decide_eq_true_eq]
        omega
      rw [List.takeWhile_cons_of_neg (by simpa using hle),
        List.filter_cons_of_neg (by simpa using hle), hrest]

/-- In an ordered list, the numbers behind those up to a bound are above it. -/
theorem lt_of_mem_dropWhile (h : ends.Pairwise (· < ·)) (hn : n ∈ ends.dropWhile (· ≤ k)) :
    k < n := by
  induction h with
  | nil => cases hn
  | @cons m ends hm _ ih =>
    by_cases hle : m ≤ k
    · rw [List.dropWhile_cons_of_pos (by simpa using hle)] at hn
      exact ih hn
    · rw [List.dropWhile_cons_of_neg (by simpa using hle)] at hn
      rcases List.mem_cons.1 hn with rfl | hn
      · omega
      · have := hm n hn
        omega

/-- Behind the numbers up to a bound, with a zero in front of them, there are none up to the bound. -/
theorem start_takeWhile (h : ends.Pairwise (· < ·)) :
    let passed := ends.takeWhile (· ≤ k)
    (0 :: ends)[passed.length]? = some (passed.getLastD 0) ∧ passed.getLastD 0 ≤ k ∧
      ∀ j n, passed.length < j → (0 :: ends)[j]? = some n → k < n := by
  intro passed
  have hsplit : 0 :: ends = (0 :: passed) ++ ends.dropWhile (· ≤ k) := by
    rw [List.cons_append, List.takeWhile_append_dropWhile]
  rw [hsplit]
  refine ⟨?_, ?_, fun j n hj hn => ?_⟩
  · have hlast : (0 :: passed).getLast? = some (passed.getLastD 0) := by
      rw [List.getLast?_cons, List.getLastD_eq_getLast?]
    rw [List.getElem?_append_left (by simp)]
    rwa [List.getLast?_eq_getElem?] at hlast
  · rcases List.mem_cons.1 (List.getLastD_mem_cons (l := passed) (a := 0)) with hzero | hmem
    · omega
    · simpa using List.mem_takeWhile_imp hmem
  · rw [List.getElem?_append_right hj] at hn
    exact lt_of_mem_dropWhile h (List.mem_of_getElem? hn)

namespace LineIndex

theorem increasing_starts (text : String) : Increasing (ofString text).starts := by
  have hordered : (0 :: lineBreakEnds 0 text.toList).Pairwise (· < ·) :=
    List.pairwise_cons.2 ⟨fun _ => lt_of_mem_lineBreakEnds, ordered_lineBreakEnds 0 _⟩
  exact List.pairwise_iff_getElem.1 hordered

variable {ix : LineIndex}

/-- The line that is found begins at or before the place, and all lines after it begin behind it. -/
theorem exists_line (hincreasing : Increasing ix.starts) (place : Nat) :
    ∃ i : Fin ix.starts.size, ix.line place = i ∧ ix.starts[i] ≤ place ∧
      ∀ j (hj : j < ix.starts.size), i.val < j → place < ix.starts[j] := by
  unfold LineIndex.line
  split
  · next i h =>
    refine ⟨i, rfl, Nat.le_of_eq (search_eq_ok h), fun j hj hlt => ?_⟩
    rw [← search_eq_ok h]
    exact hincreasing i j i.isLt hj hlt
  · next i h =>
    -- A miss is never in front of the first line, so the line before it is there.
    have hzero := search_ne_zero ix.first (Nat.zero_le place) h
    obtain ⟨hbefore, hbehind⟩ := search_eq_error hincreasing h
    refine ⟨i.pred hzero, rfl, ?_, fun j hj hlt => hbehind j hj (Nat.le_of_pred_lt hlt)⟩
    exact Nat.le_of_lt (hbefore _ _ (Nat.sub_one_lt (Fin.val_ne_zero_iff.2 hzero)))

/-- The search finds the last of the lines that begin at or before an offset. -/
theorem position_eq_takeWhile {text : String} {place : Nat} {passed : List Nat}
    (hplace : min o (ofString text).size = place)
    (hpassed : (lineBreakEnds 0 text.toList).takeWhile (· ≤ place) = passed) :
    (ofString text).position o = ⟨passed.length, place - passed.getLastD 0⟩ := by
  obtain ⟨hstart, hle, hlate⟩ := start_takeWhile (k := place) (ordered_lineBreakEnds 0 text.toList)
  obtain ⟨i, hi, hbefore, hbehind⟩ := exists_line (increasing_starts text) place
  rw [hpassed] at hstart hle hlate
  have hlength : i.val = passed.length := by
    rcases Nat.lt_trichotomy i.val passed.length with hlt | heq | hgt
    · obtain ⟨hcounted, hfirst⟩ := List.getElem?_eq_some_iff.1 hstart
      exact absurd (hfirst ▸ hle) (Nat.not_le_of_lt (hbehind passed.length hcounted hlt))
    · exact heq
    · have := hlate i _ hgt (List.getElem?_eq_getElem i.isLt)
      exact absurd hbefore (Nat.not_le_of_lt this)
  have hcolumn : (ofString text).starts[i] = passed.getLastD 0 := by
    rw [← hlength] at hstart
    exact (List.getElem?_eq_some_iff.1 hstart).2
  simp only [position, hplace, hi, hcolumn, hlength]

/-- The position of an offset in the text is counted with the lines that end at or before it. -/
theorem position_ofString {text : String} (h : o ≤ byteLength text.toList) :
    ∃ ends, LineEnds text.toList o ends ∧
      (ofString text).position o = ⟨ends.length, o - ends.getLastD 0⟩ := by
  have hordered := ordered_lineBreakEnds 0 text.toList
  refine ⟨(lineBreakEnds 0 text.toList).filter (· ≤ o), ⟨hordered.filter _, fun n => ?_⟩, ?_⟩
  · simp [mem_lineBreakEnds]
  · exact position_eq_takeWhile (Nat.min_eq_left h) (takeWhile_le_eq_filter hordered)

end LineIndex
end Ecma3.Text
