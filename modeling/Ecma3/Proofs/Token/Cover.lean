import Mathlib.Data.List.TakeWhile
import Ecma3.Proofs.Token.Match

/-!
How a text is cut into pieces. They stand in the text one behind the other, and around them nothing is
left over but blanks.
-/
namespace Ecma3

open Text (byteLength)

variable {c d : Cursor} {i : Lexeme.Item} {items : List Lexeme.Item} {lexemes : List Lexeme}
  {before gap cs rest : List Char} {source : String}

/-- The characters of a place in a text. -/
def Text.IsSlice (source : List Char) (place : Span) (text : List Char) : Prop :=
  ∃ before after, source = before ++ text ++ after ∧ place.start = byteLength before ∧
    place.stop = byteLength (before ++ text)

namespace Lexeme.Item

def text : Item → String
  | .ok l => l.text
  | .error e => e.text

def span : Item → Span
  | .ok l => l.span
  | .error e => e.span

end Lexeme.Item

namespace Cursor

/-- The pieces are taken one after the other until there is none left. -/
inductive Runs : Cursor → List Lexeme.Item → Prop where
  | done {c : Cursor} (h : c.next? = none) : Runs c []
  | next {c d : Cursor} {i : Lexeme.Item} {items : List Lexeme.Item} (h : c.next? = some (i, d))
    (hrest : Runs d items) : Runs c (i :: items)

theorem items_of_next?_eq_none (h : c.next? = none) : c.items = [] := by
  rw [items]
  split
  · rfl
  · simp_all

theorem items_of_next?_eq_some (h : c.next? = some (i, d)) : c.items = i :: d.items := by
  rw [items]
  split
  · simp_all
  · rename_i j k hk
    cases hk.symm.trans h
    rfl

/-- There is one run from each place, and it ends. -/
theorem runs_iff : c.Runs items ↔ items = c.items := by
  constructor
  · intro h
    induction h with
    | done h => rw [items_of_next?_eq_none h]
    | next h _ ih => rw [items_of_next?_eq_some h, ih]
  · rintro rfl
    fun_induction Cursor.items c with
    | case1 c h => exact .done h
    | case2 c i d h ih => exact .next h ih

theorem skipBlanks_eq (c : Cursor) :
    c.skipBlanks = ⟨c.offset + byteLength (c.rest.takeWhile isBlank), c.rest.dropWhile isBlank⟩ := by
  simp only [skipBlanks, advance, Token.Pattern.take_run, Token.Pattern.drop_run]

theorem next?_eq_some :
    c.next? = some (i, d) ↔ c.skipBlanks.rest ≠ [] ∧ c.skipBlanks.item = (i, d) := by
  simp [next?, List.isEmpty_iff]

theorem next?_eq_none : c.next? = none ↔ c.skipBlanks.rest = [] := by
  simp [next?, List.isEmpty_iff]

/-- A piece has at least one character, and the cursor goes on behind it. -/
theorem item_eq (hne : c.rest ≠ []) (h : c.item = (i, d)) :
    i.text.toList ≠ [] ∧ c.rest = i.text.toList ++ d.rest ∧ i.span = ⟨c.offset, d.offset⟩ ∧
      d.offset = c.offset + byteLength i.text.toList := by
  have hcut : ∃ n, 0 < n ∧ i.text = c.text n ∧ i.span = c.span n ∧ d = c.advance n := by
    unfold item at h
    split at h
    · rename_i token n hn
      cases h
      exact ⟨n, Token.Pattern.longest?_pos hn, rfl, rfl, rfl⟩
    · cases h
      exact ⟨_, Token.Pattern.errorLength_pos hne, rfl, rfl, rfl⟩
  obtain ⟨n, hn, htext, hspan, rfl⟩ := hcut
  rw [htext, Cursor.text, String.toList_ofList]
  refine ⟨?_, (List.take_append_drop n c.rest).symm, hspan, rfl⟩
  simpa [List.take_eq_nil_iff, hne] using Nat.ne_of_gt hn

/-- What is taken from the text is blanks and the piece behind them. -/
theorem next?_eq (h : c.next? = some (i, d)) :
    ∃ gap, (∀ x ∈ gap, isBlank x = true) ∧ c.rest = gap ++ i.text.toList ++ d.rest ∧
      i.text.toList ≠ [] ∧ i.span = ⟨c.offset + byteLength gap, d.offset⟩ ∧
      d.offset = c.offset + byteLength gap + byteLength i.text.toList := by
  obtain ⟨hne, hitem⟩ := next?_eq_some.1 h
  obtain ⟨htext, hrest, hspan, hoffset⟩ := item_eq hne hitem
  rw [skipBlanks_eq] at hrest hspan hoffset
  refine ⟨c.rest.takeWhile isBlank, fun x hx => List.mem_takeWhile_imp hx, ?_, htext, hspan, hoffset⟩
  rw [List.append_assoc, ← hrest, List.takeWhile_append_dropWhile]

/-- Behind the last piece there are only blanks. -/
theorem isBlank_of_next?_eq_none (h : c.next? = none) : ∀ x ∈ c.rest, isBlank x = true := by
  rw [next?_eq_none, skipBlanks_eq] at h
  simpa [List.dropWhile_eq_nil_iff] using h

theorem isBlank_iff {x : Char} :
    isBlank x = true ↔ x ∈ [' ', '\t', '\x0b', '\x0c', '\u00A0', '\uFEFF'] := by
  simp [isBlank, or_assoc]

end Cursor

/-- The pieces stand in the text, which itself stands behind `before`, one behind the other, and
each character of it that is in none of them is a blank. -/
structure Lexeme.Cover (before cs : List Char) (items : List Lexeme.Item) : Prop where
  slice : ∀ i ∈ items, Text.IsSlice (before ++ cs) i.span i.text.toList
  behind : ∀ i ∈ items, byteLength before ≤ i.span.start
  nonempty : ∀ i ∈ items, i.span.start < i.span.stop
  ordered : items.Pairwise fun a b => a.span.stop ≤ b.span.start
  blank : ∀ left x right, cs = left ++ x :: right → Cursor.isBlank x = true ∨
    ∃ i ∈ items, i.span.start ≤ byteLength (before ++ left) ∧
      byteLength (before ++ left) + x.utf8Size ≤ i.span.stop

theorem Text.byteLength_pos (h : cs ≠ []) : 0 < byteLength cs := by
  cases cs with
  | nil => exact absurd rfl h
  | cons x rest => exact Nat.add_pos_left x.utf8Size_pos _

/-- A character of two texts one behind the other is in the first or in the second. -/
theorem Text.cons_of_append_eq {x : Char} {left right : List Char}
    (h : cs ++ rest = left ++ x :: right) :
    (∃ more, cs = left ++ x :: more) ∨ ∃ more, left = cs ++ more ∧ rest = more ++ x :: right := by
  rcases List.append_eq_append_iff.1 h with ⟨more, rfl, hrest⟩ | ⟨more, rfl, hright⟩
  · exact Or.inr ⟨more, rfl, hrest⟩
  · cases more with
    | nil => exact Or.inr ⟨[], by simp, hright.symm⟩
    | cons y more =>
      obtain ⟨rfl, -⟩ := List.cons.inj hright
      exact Or.inl ⟨more, rfl⟩

namespace Lexeme.Cover

theorem done (h : ∀ x ∈ cs, Cursor.isBlank x = true) : Cover before cs [] where
  slice := by simp
  behind := by simp
  nonempty := by simp
  ordered := .nil
  blank := by
    rintro left x right rfl
    exact Or.inl (h x (by simp))

/-- One more piece in front of the others, with blanks before it. -/
theorem next (hgap : ∀ x ∈ gap, Cursor.isBlank x = true) (htext : i.text.toList ≠ [])
    (hstart : i.span.start = byteLength (before ++ gap))
    (hstop : i.span.stop = byteLength (before ++ gap ++ i.text.toList))
    (h : Cover (before ++ gap ++ i.text.toList) rest items) :
    Cover before (gap ++ i.text.toList ++ rest) (i :: items) := by
  have hpos := Text.byteLength_pos htext
  have hfirst : byteLength before ≤ i.span.start ∧ i.span.start < i.span.stop := by
    simp only [hstart, hstop, Text.byteLength_append]
    omega
  constructor
  case slice =>
    refine List.forall_mem_cons.2 ⟨⟨before ++ gap, rest, by simp, hstart, hstop⟩, fun k hk => ?_⟩
    simpa using h.slice k hk
  case behind =>
    refine List.forall_mem_cons.2 ⟨hfirst.1, fun k hk => ?_⟩
    exact Nat.le_trans (by omega) (h.behind k hk)
  case nonempty => exact List.forall_mem_cons.2 ⟨hfirst.2, h.nonempty⟩
  case ordered => exact List.pairwise_cons.2 ⟨fun k hk => hstop ▸ h.behind k hk, h.ordered⟩
  case blank =>
    intro left x right hx
    rw [List.append_assoc] at hx
    rcases Text.cons_of_append_eq hx with ⟨more, rfl⟩ | ⟨kept, rfl, hkept⟩
    · exact Or.inl (hgap x (by simp))
    · rcases Text.cons_of_append_eq hkept with ⟨more, hmore⟩ | ⟨last, rfl, hlast⟩
      · refine Or.inr ⟨i, List.mem_cons_self, ?_⟩
        simp only [hstart, hstop, hmore, Text.byteLength_append, byteLength]
        omega
      · rcases h.blank last x right hlast with hblank | ⟨k, hk, hinside⟩
        · exact Or.inl hblank
        · exact Or.inr ⟨k, List.mem_cons_of_mem _ hk, by simpa using hinside⟩

end Lexeme.Cover

/-- A run covers what is left of the text. -/
theorem Cursor.Runs.cover (h : c.Runs items) (hoffset : c.offset = byteLength before) :
    Lexeme.Cover before c.rest items := by
  induction h generalizing before with
  | done h => exact .done (isBlank_of_next?_eq_none h)
  | next h _ ih =>
    obtain ⟨gap, hgap, hrest, htext, hspan, hstop⟩ := next?_eq h
    rw [hrest]
    refine .next hgap htext ?_ ?_ (ih ?_)
    all_goals simp only [hspan, hstop, hoffset, Text.byteLength_append]

namespace Lexeme

theorem scan_cover (source : String) : Cover [] source.toList (scan source) :=
  Cursor.Runs.cover (c := .ofString source) (Cursor.runs_iff.2 rfl) rfl

/-- A text whose pieces are all lexemes has these for its tokens. -/
theorem tokenize_eq_ok : tokenize source = .ok lexemes ↔ scan source = lexemes.map .ok := by
  rw [tokenize]
  induction scan source generalizing lexemes with
  | nil => cases lexemes <;> simp [pure, Except.pure]
  | cons item items ih =>
    rw [List.mapM_cons]
    cases item with
    | error e => cases lexemes <;> simp [bind, Except.bind]
    | ok l =>
      constructor
      · intro h
        cases hrest : items.mapM id with
        | error e => simp [hrest, bind, Except.bind] at h
        | ok rest =>
          simp only [hrest, id, bind, Except.bind, pure, Except.pure, Except.ok.injEq] at h
          rw [← h, List.map_cons, ih.1 hrest]
      · intro h
        obtain ⟨first, rest, rfl, hfirst, hrest⟩ := List.map_eq_cons_iff.1 h.symm
        cases hfirst
        simp [ih.2 hrest.symm, bind, Except.bind, pure, Except.pure]

/-- Any other text has the first error among its pieces for the error. -/
theorem tokenize_eq_error {e : LexicalError} :
    tokenize source = .error e ↔
      ∃ (before : List Lexeme) (after : List Item),
        scan source = before.map .ok ++ .error e :: after := by
  rw [tokenize]
  induction scan source with
  | nil => simp [pure, Except.pure]
  | cons item items ih =>
    rw [List.mapM_cons]
    cases item with
    | error first =>
      constructor
      · rintro ⟨⟩
        exact ⟨[], items, rfl⟩
      · rintro ⟨before, after, h⟩
        cases before with
        | nil =>
          cases h
          rfl
        | cons => cases h
    | ok l =>
      have hskip : (do let rest ← items.mapM id; pure (l :: rest) : Except LexicalError _) = .error e ↔
          items.mapM id = .error e := by
        cases items.mapM id <;> simp [bind, Except.bind, pure, Except.pure]
      refine hskip.trans (ih.trans ?_)
      constructor
      · rintro ⟨before, after, h⟩
        exact ⟨l :: before, after, by rw [h]; rfl⟩
      · rintro ⟨before, after, h⟩
        cases before with
        | nil => cases h
        | cons _ before => exact ⟨before, after, (List.cons.inj h).2⟩

/-- The raw pieces of a text account for all of it, and its tokens are these pieces. -/
theorem scan_accounts (source : String) :
    (∀ items, (Cursor.ofString source).Runs items ↔ items = scan source) ∧
      (∀ i ∈ scan source, Text.IsSlice source.toList i.span i.text.toList ∧
        i.span.start < i.span.stop) ∧
      (scan source).Pairwise (fun a b => a.span.stop ≤ b.span.start) ∧
      (∀ before x after, source.toList = before ++ x :: after →
        x ∈ [' ', '\t', '\x0b', '\x0c', '\u00A0', '\uFEFF'] ∨
          ∃ i ∈ scan source, i.span.start ≤ byteLength before ∧
            byteLength before + x.utf8Size ≤ i.span.stop) ∧
      (∀ lexemes, tokenize source = .ok lexemes ↔ scan source = lexemes.map .ok) ∧
      ∀ e, tokenize source = .error e ↔ ∃ (before : List Lexeme) (after : List Item),
        scan source = before.map .ok ++ .error e :: after := by
  have hcover := scan_cover source
  refine ⟨fun items => Cursor.runs_iff, fun i hi => ⟨hcover.slice i hi, hcover.nonempty i hi⟩,
    hcover.ordered, fun before x after hx => ?_, fun _ => tokenize_eq_ok, fun _ => tokenize_eq_error⟩
  rw [← Cursor.isBlank_iff]
  exact hcover.blank before x after hx

end Lexeme
end Ecma3
