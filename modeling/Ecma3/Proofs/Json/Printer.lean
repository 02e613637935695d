import Std.Data.String.ToInt
import Ecma3.Json.Printer

/-!
The text of a value shows which value it is and where it ends, whatever stands behind it. Floats are
left out, since an infinite one is printed as null.
-/
namespace Ecma3.Json

variable {α : Type} {s : Spacing} {depth : Nat} {r r' : List Char}

/-- The value has no floats in it. -/
inductive Plain : Json → Prop where
  | null : Plain .null
  | bool (value : Bool) : Plain (.bool value)
  | int (value : Int) : Plain (.int value)
  | str (text : String) : Plain (.str text)
  | arr {elements : List Json} (h : ∀ j ∈ elements, Plain j) : Plain (.arr elements)
  | obj {members : List (String × Json)} (h : ∀ m ∈ members, Plain m.2) : Plain (.obj members)

/-! What texts begin with. -/

/-- The values that the first character tells apart. -/
inductive Form where
  | null
  | truth
  | number
  | text
  | array
  | object

/-- What begins with a character. Nothing begins with one that ends a value. -/
def Form.ofChar? : Char → Option Form
  | 'n' => some .null
  | 't' | 'f' => some .truth
  | '"' => some .text
  | '[' => some .array
  | '\x7b' => some .object
  | ',' | '\n' | ']' | '\x7d' => none
  | _ => some .number

def form : Json → Form
  | null => .null
  | bool _ => .truth
  | int _ | float _ => .number
  | str _ => .text
  | arr _ => .array
  | obj _ => .object

/-- No value goes on into the characters. -/
def Ends (r : List Char) : Prop := ∀ c ∈ r.head?, Form.ofChar? c = none

/-- What the text of `a` is followed by shows that it is no text of any other value. -/
def Splits (text : α → String) (a b : α) : Prop :=
  ∀ r r', Ends r → Ends r' → (text a).toList ++ r = (text b).toList ++ r' → a = b ∧ r = r'

/-! Strings. -/

def hexValue (c : Char) : Nat :=
  if c.isDigit then c.toNat - '0'.toNat else c.toNat - 'a'.toNat + 10

/-- Reads one character of a string, and gives what is behind it. -/
def unescape : List Char → Option (Char × List Char)
  | [] | '"' :: _ => none
  | '\\' :: 'u' :: '0' :: '0' :: high :: low :: rest =>
    some (.ofNat (16 * hexValue high + hexValue low), rest)
  | '\\' :: 'b' :: rest => some ('\x08', rest)
  | '\\' :: 'f' :: rest => some ('\x0c', rest)
  | '\\' :: 'n' :: rest => some ('\n', rest)
  | '\\' :: 'r' :: rest => some ('\r', rest)
  | '\\' :: 't' :: rest => some ('\t', rest)
  | '\\' :: c :: rest => some (c, rest)
  | c :: rest => some (c, rest)

theorem hexValue_hexDigit : ∀ n < 16, hexValue (hexDigit n) = n := by decide

theorem unescape_escape (c : Char) (rest : List Char) :
    unescape (escape c ++ rest) = some (c, rest) := by
  unfold escape
  by_cases hquote : c = '"'
  · subst hquote
    rfl
  by_cases hslash : c = '\\'
  · subst hslash
    rfl
  rw [if_neg hquote, if_neg hslash]
  iterate 5
    split
    · subst c
      rfl
  split
  · have hhigh := hexValue_hexDigit (c.toNat / 16) (by omega)
    have hlow := hexValue_hexDigit (c.toNat % 16) (by omega)
    have hvalue : 16 * (c.toNat / 16) + c.toNat % 16 = c.toNat := by omega
    simp only [List.cons_append, List.nil_append, unescape, hhigh, hlow, hvalue, Char.ofNat_toNat]
  · simp [unescape, hslash]

@[simp] theorem unescape_quote (rest : List Char) : unescape ('"' :: rest) = none := rfl

/-- The first quote that is not escaped ends a string. -/
theorem escapes_inj {cs ds : List Char}
    (h : cs.flatMap escape ++ '"' :: r = ds.flatMap escape ++ '"' :: r') : cs = ds ∧ r = r' := by
  have hread := congrArg unescape h
  induction cs generalizing ds with
  | nil =>
    cases ds with
    | nil => simpa using h
    | cons d ds => simp [unescape_escape] at hread
  | cons c cs ih =>
    cases ds with
    | nil => simp [unescape_escape] at hread
    | cons d ds =>
      simp only [List.flatMap_cons, List.append_assoc, unescape_escape, Option.some.injEq,
        Prod.mk.injEq] at hread
      obtain ⟨rfl, hrest⟩ := hread
      obtain ⟨rfl, hr⟩ := ih hrest (congrArg unescape hrest)
      exact ⟨rfl, hr⟩

theorem quote_inj {a b : String} (h : (quote a).toList ++ r = (quote b).toList ++ r') :
    a = b ∧ r = r' := by
  simp only [quote, String.toList_ofList, List.cons_append, List.append_assoc, List.nil_append,
    List.cons.injEq, true_and] at h
  obtain ⟨htext, hr⟩ := escapes_inj h
  exact ⟨String.toList_inj.1 htext, hr⟩

/-! Numbers. -/

def inNumber (c : Char) : Bool := c.isDigit || c == '-'

theorem ofChar?_of_inNumber {c : Char} (h : inNumber c = true) :
    Form.ofChar? c = some .number := by
  unfold Form.ofChar?
  split <;> first | rfl | exact absurd h (by decide)

theorem inNumber_toString (n : Int) : ∀ c ∈ (toString n).toList, inNumber c = true := by
  have hdigits : ∀ k : Nat, ∀ c ∈ k.repr.toList, inNumber c = true := by
    intro k c hc
    rw [Nat.repr, String.toList_ofList] at hc
    simp [inNumber, Nat.isDigit_of_mem_toDigits (by decide) (by decide) hc]
  intro c hc
  cases n with
  | ofNat k => exact hdigits k c hc
  | negSucc k =>
    have hc : c ∈ '-' :: (k + 1).repr.toList := by
      simpa [toString, Int.repr] using hc
    rcases List.mem_cons.1 hc with rfl | hc
    · rfl
    · exact hdigits (k + 1) c hc

theorem toList_toString_ne_nil (n : Int) : (toString n).toList ≠ [] := by
  cases n with
  | ofNat k => simp [toString, Int.repr]
  | negSucc k => simp [toString, Int.repr]

theorem takeWhile_number (n : Int) (hr : Ends r) :
    ((toString n).toList ++ r).takeWhile inNumber = (toString n).toList := by
  rw [List.takeWhile_append_of_pos (inNumber_toString n)]
  cases r with
  | nil => simp
  | cons c r =>
    have hc : ¬inNumber c = true := by
      intro hc
      have hend := hr c rfl
      rw [ofChar?_of_inNumber hc] at hend
      cases hend
    rw [List.takeWhile_cons_of_neg hc, List.append_nil]

theorem int_splits (n m : Int) : Splits (fun n : Int => toString n) n m := by
  intro r r' hr hr' h
  have hdigits := congrArg (List.takeWhile inNumber) h
  rw [takeWhile_number n hr, takeWhile_number m hr'] at hdigits
  have hsame : n = m := Int.repr_injective (String.toList_inj.1 hdigits)
  subst hsame
  exact ⟨rfl, List.append_cancel_left h⟩

/-! Entries between brackets. -/

/-- A bracket that ends a value. -/
def IsClosing (c : Char) : Prop := c = ']' ∨ c = '\x7d'

/-- The entries after the first one. -/
def following (s : Spacing) (depth : Nat) (text : α → String) (rest : List α) : List Char :=
  rest.flatMap fun a => ',' :: ((s.lineBreak depth).toList ++ (text a).toList)

theorem intercalate_map (s : Spacing) (depth : Nat) (text : α → String) (a : α) (rest : List α) :
    (("," ++ s.lineBreak depth).intercalate ((a :: rest).map text)).toList =
      (text a).toList ++ following s depth text rest := by
  induction rest generalizing a with
  | nil => simp [following]
  | cons b rest ih =>
    have hrest : ("," ++ s.lineBreak depth).intercalate ((a :: b :: rest).map text) =
        text a ++ ("," ++ s.lineBreak depth) ++
          ("," ++ s.lineBreak depth).intercalate ((b :: rest).map text) :=
      String.intercalate_cons_cons
    rw [hrest, String.toList_append, ih]
    simp [following, List.append_assoc]

theorem toList_enclose (opening closing : String) (text : α → String) (a : α) (rest : List α) :
    (s.enclose depth opening closing ((a :: rest).map text)).toList =
      opening.toList ++ ((s.lineBreak (depth + 1)).toList ++ ((text a).toList ++
        (following s (depth + 1) text rest ++ ((s.lineBreak depth).toList ++ closing.toList)))) := by
  have hentries := intercalate_map s (depth + 1) text a rest
  rw [List.map_cons] at hentries ⊢
  simp only [Spacing.enclose, String.toList_append, hentries, List.append_assoc]

/-- A line break, if there is one, begins with its own character. -/
theorem head_lineBreak (s : Spacing) (depth : Nat) (c : Char) (r : List Char) :
    ((s.lineBreak depth).toList ++ c :: r).head? = some '\n' ∨
      ((s.lineBreak depth).toList ++ c :: r).head? = some c := by
  cases s with
  | compact => exact Or.inr rfl
  | pretty =>
    left
    simp [Spacing.lineBreak]

theorem ends_of_head {c : Char} (h : r.head? = some c) (hc : Form.ofChar? c = none) : Ends r := by
  intro d hd
  rw [h] at hd
  cases hd
  exact hc

/-- What stands behind the last entry. -/
theorem head_closing {closing : Char} (hclosing : IsClosing closing) (r : List Char) :
    Ends ((s.lineBreak depth).toList ++ closing :: r) ∧
      ((s.lineBreak depth).toList ++ closing :: r).head? ≠ some ',' := by
  have hends : Form.ofChar? closing = none ∧ closing ≠ ',' := by
    rcases hclosing with rfl | rfl <;> exact ⟨rfl, by decide⟩
  rcases head_lineBreak s depth closing r with h | h
  · exact ⟨ends_of_head h rfl, by simp [h]⟩
  · exact ⟨ends_of_head h hends.1, by simp [h, hends.2]⟩

/-- Each entry after the first is behind a comma, and there is none behind the last. -/
theorem following_inj {text : α → String} {as bs : List α}
    (htext : ∀ a ∈ as, ∀ b ∈ bs, Splits text a b)
    (hr : Ends r ∧ r.head? ≠ some ',') (hr' : Ends r' ∧ r'.head? ≠ some ',')
    (h : following s depth text as ++ r = following s depth text bs ++ r') : as = bs ∧ r = r' := by
  have hends : ∀ (cs : List α) {r : List Char}, Ends r → Ends (following s depth text cs ++ r) := by
    intro cs r hr
    cases cs with
    | nil => exact hr
    | cons c cs => exact ends_of_head (c := ',') rfl rfl
  induction as generalizing bs with
  | nil =>
    cases bs with
    | nil => exact ⟨rfl, h⟩
    | cons b bs => exact absurd (congrArg List.head? h) hr.2
  | cons a as ih =>
    cases bs with
    | nil => exact absurd (congrArg List.head? h).symm hr'.2
    | cons b bs =>
      simp only [following, List.flatMap_cons, List.cons_append, List.append_assoc,
        List.cons.injEq, true_and, List.append_cancel_left_eq] at h
      obtain ⟨rfl, hrest⟩ := htext a List.mem_cons_self b List.mem_cons_self _ _
        (hends as hr.1) (hends bs hr'.1) h
      have htail : ∀ a ∈ as, ∀ b ∈ bs, Splits text a b := fun a ha b hb =>
        htext a (List.mem_cons_of_mem _ ha) b (List.mem_cons_of_mem _ hb)
      obtain ⟨rfl, hr⟩ := ih htail hrest
      exact ⟨rfl, hr⟩

/-- The text begins a value. -/
def Begins (text : String) : Prop := ∃ c rest, text.toList = c :: rest ∧ Form.ofChar? c ≠ none

/-- Brackets without entries are closed at once. -/
theorem first_ne_closing {closing : Char} (hclosing : IsClosing closing) {text : String}
    (htext : Begins text) (rest : List Char) :
    (s.lineBreak depth).toList ++ (text.toList ++ rest) ≠ closing :: r := by
  obtain ⟨c, tail, hc, hform⟩ := htext
  intro h
  have hhead := congrArg List.head? h
  rw [hc, List.cons_append] at hhead
  rcases head_lineBreak s depth c (tail ++ rest) with hline | hline
  · rw [hline] at hhead
    rcases hclosing with rfl | rfl <;> simp at hhead
  · rw [hline] at hhead
    cases hhead
    rcases hclosing with rfl | rfl <;> exact hform rfl

theorem enclose_inj {text : α → String} {as bs : List α} {opening closing : String} {bracket : Char}
    (hclosing : closing.toList = [bracket]) (hbracket : IsClosing bracket)
    (htext : ∀ a ∈ as, ∀ b ∈ bs, Splits text a b)
    (has : ∀ a ∈ as, Begins (text a)) (hbs : ∀ b ∈ bs, Begins (text b))
    (h : (s.enclose depth opening closing (as.map text)).toList ++ r =
      (s.enclose depth opening closing (bs.map text)).toList ++ r') : as = bs ∧ r = r' := by
  cases as with
  | nil =>
    cases bs with
    | nil => exact ⟨rfl, List.append_cancel_left h⟩
    | cons b bs =>
      rw [toList_enclose] at h
      simp only [List.map_nil, Spacing.enclose, String.toList_append, List.append_assoc,
        List.append_cancel_left_eq, hclosing, List.singleton_append] at h
      exact absurd h.symm (first_ne_closing hbracket (hbs b List.mem_cons_self) _)
  | cons a as =>
    cases bs with
    | nil =>
      rw [toList_enclose] at h
      simp only [List.map_nil, Spacing.enclose, String.toList_append, List.append_assoc,
        List.append_cancel_left_eq, hclosing, List.singleton_append] at h
      exact absurd h (first_ne_closing hbracket (has a List.mem_cons_self) _)
    | cons b bs =>
      rw [toList_enclose, toList_enclose] at h
      simp only [List.append_assoc, List.append_cancel_left_eq, hclosing,
        List.singleton_append] at h
      -- with a comma put before the first entry as well, all entries are of one kind
      have hall : following s (depth + 1) text (a :: as) ++
          ((s.lineBreak depth).toList ++ bracket :: r) =
          following s (depth + 1) text (b :: bs) ++
          ((s.lineBreak depth).toList ++ bracket :: r') := by
        simpa [following] using h
      obtain ⟨hsame, hrest⟩ := following_inj htext (head_closing hbracket r)
        (head_closing hbracket r') hall
      exact ⟨hsame, by simpa using hrest⟩

/-! All values. -/

theorem renderAll_eq (js : List Json) : renderAll s depth js = js.map (render s depth) := by
  induction js with
  | nil => rfl
  | cons j js ih => rw [renderAll, ih, List.map_cons]

/-- A member of an object. -/
def renderMember (s : Spacing) (depth : Nat) (m : String × Json) : String :=
  quote m.1 ++ s.colon ++ render s depth m.2

theorem renderMembers_eq (members : List (String × Json)) :
    renderMembers s depth members = members.map (renderMember s depth) := by
  induction members with
  | nil => rfl
  | cons m members ih =>
    obtain ⟨key, j⟩ := m
    rw [renderMembers, ih, List.map_cons, renderMember]

theorem head_enclose {opening : String} {c : Char} (h : opening.toList = [c]) (closing : String)
    (entries : List String) : ∃ rest, (s.enclose depth opening closing entries).toList = c :: rest := by
  cases entries with
  | nil => exact ⟨closing.toList, by simp [Spacing.enclose, h]⟩
  | cons e entries => simp [Spacing.enclose, h, List.append_assoc]

/-- The first character tells the form of the value. -/
theorem head_render (s : Spacing) (depth : Nat) {j : Json} (hj : j.Plain) :
    ∃ c rest, (render s depth j).toList = c :: rest ∧ Form.ofChar? c = some j.form := by
  cases hj with
  | null => exact ⟨'n', ['u', 'l', 'l'], by simp [render], rfl⟩
  | bool b =>
    cases b with
    | true => exact ⟨'t', ['r', 'u', 'e'], by simp [render], rfl⟩
    | false => exact ⟨'f', ['a', 'l', 's', 'e'], by simp [render], rfl⟩
  | int n =>
    obtain ⟨c, rest, hc⟩ := List.exists_cons_of_ne_nil (toList_toString_ne_nil n)
    have hnumber : inNumber c = true := by
      apply inNumber_toString n
      rw [hc]
      exact List.mem_cons_self
    exact ⟨c, rest, hc, ofChar?_of_inNumber hnumber⟩
  | str text => exact ⟨'"', _, String.toList_ofList, rfl⟩
  | arr _ =>
    have hbracket : "[".toList = ['['] := rfl
    obtain ⟨rest, h⟩ := head_enclose hbracket "]" _
    exact ⟨'[', rest, h, rfl⟩
  | obj _ =>
    have hbrace : "\x7b".toList = ['\x7b'] := rfl
    obtain ⟨rest, h⟩ := head_enclose hbrace "\x7d" _
    exact ⟨'\x7b', rest, h, rfl⟩

theorem begins_render {j : Json} (hj : j.Plain) : Begins (render s depth j) := by
  obtain ⟨c, rest, h, hform⟩ := head_render s depth hj
  exact ⟨c, rest, h, by simp [hform]⟩

theorem begins_member (m : String × Json) : Begins (renderMember s depth m) := by
  refine ⟨'"', ?_, ?_, nofun⟩
  · exact m.1.toList.flatMap escape ++ '"' :: (s.colon ++ render s depth m.2).toList
  · simp [renderMember, quote]

theorem form_eq {j k : Json} (hj : j.Plain) (hk : k.Plain)
    (h : (render s depth j).toList ++ r = (render s depth k).toList ++ r') : j.form = k.form := by
  obtain ⟨c, rest, hc, hform⟩ := head_render s depth hj
  obtain ⟨d, rest', hd, hform'⟩ := head_render s depth hk
  rw [hc, hd] at h
  obtain ⟨rfl, -⟩ := List.cons.inj h
  exact Option.some.inj (hform.symm.trans hform')

/-- A member is known from its text if its value is. -/
theorem member_splits {m m' : String × Json} (h : Splits (render s depth) m.2 m'.2) :
    Splits (renderMember s depth) m m' := by
  intro r r' hr hr' heq
  simp only [renderMember, String.toList_append, List.append_assoc] at heq
  obtain ⟨hkey, hrest⟩ := quote_inj heq
  obtain ⟨hvalue, hr⟩ := h r r' hr hr' (List.append_cancel_left hrest)
  exact ⟨Prod.ext hkey hvalue, hr⟩

/-- By induction on the value: the brackets of an array or object are taken off, and what is between
them splits into the texts of smaller values. -/
theorem render_splits {j k : Json} (hj : j.Plain) (hk : k.Plain) : Splits (render s depth) j k := by
  induction hj generalizing k depth with
  | null =>
    intro r r' hr hr' h
    have hform := form_eq .null hk h
    cases hk <;> cases hform
    exact ⟨rfl, List.append_cancel_left h⟩
  | bool b =>
    intro r r' hr hr' h
    have hform := form_eq (.bool b) hk h
    cases hk <;> cases hform
    rename_i b'
    cases b <;> cases b' <;> simp [render] at h ⊢ <;> exact h
  | int n =>
    intro r r' hr hr' h
    have hform := form_eq (.int n) hk h
    cases hk <;> cases hform
    rename_i m
    obtain ⟨rfl, hr⟩ := int_splits n m r r' hr hr' h
    exact ⟨rfl, hr⟩
  | str text =>
    intro r r' hr hr' h
    have hform := form_eq (.str text) hk h
    cases hk <;> cases hform
    obtain ⟨rfl, hr⟩ := quote_inj h
    exact ⟨rfl, hr⟩
  | arr hplain ih =>
    intro r r' hr hr' h
    have hform := form_eq (.arr hplain) hk h
    cases hk <;> cases hform
    rename_i hplain'
    simp only [render, renderAll_eq] at h
    obtain ⟨rfl, hr⟩ := enclose_inj rfl (Or.inl rfl) (fun a ha b hb => ih a ha (hplain' b hb))
      (fun a ha => begins_render (hplain a ha)) (fun b hb => begins_render (hplain' b hb)) h
    exact ⟨rfl, hr⟩
  | obj hplain ih =>
    intro r r' hr hr' h
    have hform := form_eq (.obj hplain) hk h
    cases hk <;> cases hform
    rename_i hplain'
    simp only [render, renderMembers_eq] at h
    obtain ⟨rfl, hr⟩ := enclose_inj rfl (Or.inr rfl)
      (fun a ha b hb => member_splits (ih a ha (hplain' b hb)))
      (fun a _ => begins_member a) (fun b _ => begins_member b) h
    exact ⟨rfl, hr⟩

/-- Values without floats that are printed alike are the same. -/
theorem render_inj {j k : Json} (hj : j.Plain) (hk : k.Plain)
    (h : render s depth j = render s depth k) : j = k := by
  have hends : Ends [] := nofun
  exact (render_splits hj hk [] [] hends hends (by rw [h])).1

end Ecma3.Json
