import Ecma3.Proofs.Grammar.Vocabulary
import Ecma3.Proofs.ParseTree.Shape
import Ecma3.Proofs.ParseTree.Words

/-! The trees of the grammar of expressions, and the words that they begin with and end before. -/
namespace Ecma3.Grammar
open ParseTree
open Token (ofWord?)

/-- The name of a property, before its colon. -/
inductive IsKey : ParseTree → Prop where
  | name {text : String} {span : Span} (h : IsName text) : IsKey (leaf .identifier text span)
  | literal {kind : Kind} {text : String} {span : Span} (h : IsLiteral kind text) :
    IsKey (leaf kind text span)

mutual

/-- Expressions of the grammar, except for functions and regular expressions, with how tightly their
outermost construct holds together. -/
inductive Construct : Nat → ParseTree → Prop where
  | simple {kind : Kind} {text : String} {span : Span} (h : IsSimple kind text) :
    Construct 17 (leaf kind text span)
  | array {items : List ParseTree} {span : Span} (h : ∀ i ∈ items, IsItem i) :
    Construct 17 (group .array span items)
  | object {properties : List ParseTree} {span : Span} (h : ∀ p ∈ properties, IsProperty p) :
    Construct 17 (group .object span properties)
  | parenthesized {e : ParseTree} {span : Span} (h : Grammatical 0 e) :
    Construct 17 (group .parenthesized span [e])
  | new {operand : ParseTree} {span : Span} (h : Grammatical 16 operand) :
    Construct 16 ⟨.new, "new", span, [operand]⟩
  | field {object : ParseTree} {name : String} {span place : Span} (h : Grammatical 15 object)
    (hname : IsName name) :
    Construct 15 (group .byField span [object, leaf .identifier name place])
  | index {object index : ParseTree} {span : Span} (h : Grammatical 15 object)
    (hindex : Grammatical 0 index) : Construct 15 (group .byIndex span [object, index])
  | call {callee : ParseTree} {arguments : List ParseTree} {span place : Span}
    (h : Grammatical 15 callee) (harguments : ∀ a ∈ arguments, Grammatical 1 a) :
    Construct 15 (group .call span [callee, group .arguments place arguments])
  | stepped {kind : Kind} {operator : String} {operand : ParseTree} {span : Span}
    (hop : postfixOperators.lookup operator = some kind) (h : Grammatical 15 operand) :
    Construct 14 ⟨kind, operator, span, [operand]⟩
  | unary {kind : Kind} {operator : String} {operand : ParseTree} {span : Span}
    (hop : unaryOperators.lookup operator = some kind) (h : Grammatical 13 operand) :
    Construct 13 ⟨kind, operator, span, [operand]⟩
  | binary {kind : Kind} {p : Nat} {operator : String} {left right : ParseTree} {span : Span}
    (hop : binaryOperators.lookup operator = some (kind, p)) (hleft : Grammatical (p + 2) left)
    (hright : Grammatical (p + 3) right) : Construct (p + 2) ⟨kind, operator, span, [left, right]⟩
  | conditional {test consequent alternate : ParseTree} {span : Span} (htest : Grammatical 3 test)
    (hconsequent : Grammatical 1 consequent) (halternate : Grammatical 1 alternate) :
    Construct 2 ⟨.conditional, "?", span, [test, consequent, alternate]⟩
  | assigned {kind : Kind} {operator : String} {target value : ParseTree} {span : Span}
    (hop : assignmentOperators.lookup operator = some kind) (htarget : Grammatical 15 target)
    (hvalue : Grammatical 1 value) : Construct 1 ⟨kind, operator, span, [target, value]⟩
  | comma {first : ParseTree} {others : List ParseTree} {span : Span} (hne : others ≠ [])
    (h : ∀ e ∈ first :: others, Grammatical 1 e) : Construct 0 (group .comma span (first :: others))

/-- Expressions of the grammar that hold together at least this tightly. -/
inductive Grammatical : Nat → ParseTree → Prop where
  | intro {least n : Nat} {e : ParseTree} (h : Construct n e) (hle : least ≤ n) :
    Grammatical least e

/-- A place of an array: left out, or with an element. -/
inductive IsItem : ParseTree → Prop where
  | hole {span : Span} : IsItem (group .item span [])
  | element {e : ParseTree} {span : Span} (h : Grammatical 1 e) : IsItem (group .item span [e])

/-- A property of an object. -/
inductive IsProperty : ParseTree → Prop where
  | intro {key value : ParseTree} {span : Span} (hkey : IsKey key) (h : Grammatical 1 value) :
    IsProperty (group .namedValue span [key, value])

end

variable {token : Token} {kind : Kind} {ws rest : List String} {w : String} {m n : Nat}

/-- What an expression that begins with the token is, before anything is put around it. -/
def openingKind? : Token → Option Kind
  | .reserved .new => some .new
  | .punctuator .leftBracket => some .array
  | .punctuator .leftBrace => some .object
  | .punctuator .leftParen => some .parenthesized
  | t => (unaryKind? t).or (simpleKind? t)

/-- What the token makes of an expression that comes before it. -/
def continuingKind? : Token → Option Kind
  | .punctuator .dot => some .byField
  | .punctuator .leftBracket => some .byIndex
  | .punctuator .leftParen => some .call
  | .punctuator .question => some .conditional
  | .punctuator .comma => some .comma
  | t => ((postfixKind? t).or (binaryKind? t)).or (assignmentKind? t)

def headToken? (ws : List String) : Option Token := ws.head?.bind ofWord?

@[simp] theorem headToken?_nil : headToken? [] = none := rfl

@[simp] theorem headToken?_cons : headToken? (w :: ws) = ofWord? w := rfl

theorem headToken?_of (h : ofWord? w = some token) : headToken? (w :: ws) = some token := h

/-- The first word begins an expression that holds together this tightly. -/
def Begins (n : Nat) (ws : List String) : Prop :=
  ∃ token kind k, headToken? ws = some token ∧ openingKind? token = some kind ∧
    kind.strength? = some k ∧ n ≤ k

/-- The first word, if there is one, continues no expression that holds together this tightly. -/
def Ends (n : Nat) (ws : List String) : Prop :=
  ∀ token kind k, headToken? ws = some token → continuingKind? token = some kind →
    kind.strength? = some k → k < n

theorem Begins.append (h : Begins n ws) (rest : List String) : Begins n (ws ++ rest) := by
  obtain ⟨token, kind, k, hhead, hkind⟩ := h
  refine ⟨token, kind, k, ?_, hkind⟩
  cases ws with
  | nil => cases hhead
  | cons => exact hhead

theorem Begins.mono (h : Begins n ws) (hm : m ≤ n) : Begins m ws := by
  obtain ⟨token, kind, k, hhead, hkind, hk, hn⟩ := h
  exact ⟨token, kind, k, hhead, hkind, hk, Nat.le_trans hm hn⟩

theorem Ends.mono (h : Ends m ws) (hm : m ≤ n) : Ends n ws :=
  fun token kind k hhead hkind hk => Nat.lt_of_lt_of_le (h token kind k hhead hkind hk) hm

theorem ends_nil : Ends n [] := fun _ _ _ h => by cases h

theorem ends_of_none (h : ofWord? w = some token) (hkind : continuingKind? token = none) :
    Ends n (w :: ws) := fun _ _ _ hhead hk _ => by
  cases h.symm.trans hhead
  cases hkind.symm.trans hk

theorem ends_of_strength (h : ofWord? w = some token) (hkind : continuingKind? token = some kind)
    (hk : kind.strength? = some m) (hn : m < n) : Ends n (w :: ws) := fun _ _ _ hhead hk' hs => by
  cases h.symm.trans hhead
  cases hkind.symm.trans hk'
  cases hk.symm.trans hs
  exact hn

theorem openingKind?_unary (h : unaryKind? token = some kind) : openingKind? token = some kind := by
  unfold unaryKind? at h
  split at h <;> cases h <;> rfl

theorem openingKind?_simple (h : simpleKind? token = some kind) :
    openingKind? token = some kind := by
  unfold simpleKind? at h
  split at h <;> cases h <;> rfl

theorem continuingKind?_stepped (h : postfixKind? token = some kind) :
    continuingKind? token = some kind := by
  unfold postfixKind? at h
  split at h <;> cases h <;> rfl

theorem continuingKind?_assignment (h : assignmentKind? token = some kind) :
    continuingKind? token = some kind := by
  unfold assignmentKind? at h
  split at h <;> cases h <;> rfl

theorem binaryOperator?_kind {allowIn : Bool} {p : Nat}
    (h : binaryOperator? allowIn token = some (kind, p)) : binaryKind? token = some kind := by
  simp only [binaryOperator?, Option.bind_eq_bind, Option.bind_eq_some_iff] at h
  obtain ⟨k, hk, q, -, h⟩ := h
  split at h <;> cases h
  exact hk

theorem binaryOperators_range {p : Nat} (h : binaryOperators.lookup w = some (kind, p)) :
    1 ≤ p ∧ p ≤ 10 := by
  obtain ⟨token, -, hkind⟩ := tabulates_binaryOperators.exists_token h
  exact binaryOperator?_range hkind

theorem continuingKind?_binary (h : binaryKind? token = some kind) :
    continuingKind? token = some kind := by
  unfold binaryKind? at h
  split at h <;> cases h <;> rfl

theorem Begins.not_of_none (h : Begins n ws) (ht : openingKind? token = none) :
    headToken? ws ≠ some token := by
  obtain ⟨other, kind, k, hhead, hkind, -⟩ := h
  intro heq
  cases hhead.symm.trans heq
  cases ht.symm.trans hkind

theorem Begins.not_of_strength (h : Begins n ws) (ht : openingKind? token = some kind)
    (hk : kind.strength? = some m) (hm : m < n) : headToken? ws ≠ some token := by
  obtain ⟨other, kind', k, hhead, hkind, hk', hle⟩ := h
  intro heq
  cases hhead.symm.trans heq
  cases ht.symm.trans hkind
  cases hk.symm.trans hk'
  omega

theorem Ends.not_of_strength (h : Ends n ws) (ht : continuingKind? token = some kind)
    (hk : kind.strength? = some m) (hm : n ≤ m) : headToken? ws ≠ some token :=
  fun heq => Nat.not_lt.2 hm (h _ _ _ heq ht hk)

theorem Begins.not_unary (h : Begins 14 ws) : (headToken? ws).bind unaryKind? = none := by
  rw [Option.bind_eq_none_iff]
  intro token hhead
  cases hkind : unaryKind? token with
  | none => rfl
  | some kind =>
    exact absurd hhead (h.not_of_strength (openingKind?_unary hkind) (unaryKind?_strength hkind)
      (Nat.lt_succ_self 13))

/-- Operators that would continue a looser expression do not come next. -/
theorem Ends.not_operator {operator? : Token → Option Kind} (h : Ends n ws)
    (hkind : ∀ token kind, operator? token = some kind → continuingKind? token = some kind)
    (hstrength : ∀ token kind, operator? token = some kind → kind.strength? = some n) :
    (headToken? ws).bind operator? = none := by
  rw [Option.bind_eq_none_iff]
  intro token hhead
  cases hop : operator? token with
  | none => rfl
  | some kind =>
    exact absurd hhead (h.not_of_strength (hkind _ _ hop) (hstrength _ _ hop) (Nat.le_refl n))

theorem Begins.ne_nil (h : Begins n ws) : ws ≠ [] := by
  rintro rfl
  obtain ⟨_, _, _, hhead, -⟩ := h
  cases hhead

theorem words_simple (h : simpleKind? token = some kind) {text : String} {span : Span} :
    (leaf kind text span).words = [text] := by
  rw [words_leaf]
  unfold simpleKind? at h
  split at h <;> cases h <;> rfl

theorem words_name {text : String} {span : Span} : (leaf .identifier text span).words = [text] :=
  words_simple (show simpleKind? .identifier = _ from rfl)

theorem arrange_stepped (h : postfixKind? token = some kind) (text : String) (ws : List String) :
    arrange kind text [ws] = ws ++ [text] := by
  unfold postfixKind? at h
  split at h <;> cases h <;> simp

theorem arrange_unary (h : unaryKind? token = some kind) (text : String) (ws : List String) :
    arrange kind text [ws] = text :: ws := by
  unfold unaryKind? at h
  split at h <;> cases h <;> rfl

theorem arrange_binary (h : binaryKind? token = some kind) (text : String) (ws vs : List String) :
    arrange kind text [ws, vs] = ws ++ text :: vs := by
  unfold binaryKind? at h
  split at h <;> cases h <;> simp

theorem arrange_assignment (h : assignmentKind? token = some kind) (text : String)
    (ws vs : List String) : arrange kind text [ws, vs] = ws ++ text :: vs := by
  unfold assignmentKind? at h
  split at h <;> cases h <;> simp

/-! The tokens that constructs begin with. -/

theorem headToken?_simple {text : String} {span : Span} (hkind : simpleKind? token = some kind)
    (h : ofWord? text = some token) :
    headToken? ((leaf kind text span).words ++ rest) = some token := by
  rw [words_simple hkind, List.singleton_append, headToken?_of h]

theorem headToken?_name {text : String} {span : Span} (h : ofWord? text = some token) :
    headToken? ((leaf .identifier text span).words ++ rest) = some token := by
  rw [words_name, List.singleton_append, headToken?_of h]

theorem headToken?_array {items : List ParseTree} {span : Span} :
    headToken? ((group .array span items).words ++ rest) = some (.punctuator .leftBracket) := by
  rw [words_array]
  exact Token.ofWord?_spelling .leftBracket

theorem headToken?_object {properties : List ParseTree} {span : Span} :
    headToken? ((group .object span properties).words ++ rest) = some (.punctuator .leftBrace) := by
  rw [words_object]
  exact Token.ofWord?_spelling .leftBrace

theorem headToken?_parenthesized {e : ParseTree} {span : Span} :
    headToken? ((group .parenthesized span [e]).words ++ rest) =
      some (.punctuator .leftParen) := by
  rw [words_parenthesized]
  exact Token.ofWord?_spelling .leftParen

theorem headToken?_arguments {arguments : List ParseTree} {span : Span} :
    headToken? ((group .arguments span arguments).words ++ rest) =
      some (.punctuator .leftParen) := by
  rw [words_arguments]
  exact Token.ofWord?_spelling .leftParen

mutual

/-- An expression begins with a word that begins something as tight as the expression is. -/
theorem Construct.begins {e : ParseTree} {n : Nat} (h : Construct n e) : Begins n e.words := by
  match h with
  | .simple hsimple =>
    obtain ⟨token, hword, hkind⟩ := isSimple_iff.1 hsimple
    rw [words_simple hkind]
    exact ⟨_, _, _, hword, openingKind?_simple hkind, simpleKind?_strength hkind, Nat.le_refl _⟩
  | .array _ =>
    rw [words_array]
    exact ⟨_, _, _, Token.ofWord?_spelling .leftBracket, rfl, rfl, Nat.le_refl _⟩
  | .object _ =>
    rw [words_object]
    exact ⟨_, _, _, Token.ofWord?_spelling .leftBrace, rfl, rfl, Nat.le_refl _⟩
  | .parenthesized _ =>
    rw [words_parenthesized]
    exact ⟨_, _, _, Token.ofWord?_spelling .leftParen, rfl, rfl, Nat.le_refl _⟩
  | .new _ =>
    rw [words_new]
    exact ⟨_, _, _, Token.ofWord?_new, rfl, rfl, Nat.le_refl _⟩
  | .unary hop _ =>
    obtain ⟨token, hop, hkind⟩ := tabulates_unaryOperators.exists_token hop
    rw [words_mk, List.map_singleton, arrange_unary hkind]
    exact ⟨_, _, _, hop, openingKind?_unary hkind, unaryKind?_strength hkind, Nat.le_refl _⟩
  | .field hobject _ =>
    rw [words_field]
    exact hobject.begins.append _
  | .index hobject _ =>
    rw [words_index]
    exact hobject.begins.append _
  | .call hcallee _ =>
    rw [words_call]
    exact hcallee.begins.append _
  | .stepped hop hoperand =>
    obtain ⟨token, -, hkind⟩ := tabulates_postfixOperators.exists_token hop
    rw [words_mk, List.map_singleton, arrange_stepped hkind]
    exact (hoperand.begins.mono (by omega)).append _
  | .binary hop hleft _ =>
    obtain ⟨token, -, hkind⟩ := tabulates_binaryOperators.exists_token hop
    rw [words_mk, List.map_cons, List.map_singleton, arrange_binary (binaryOperator?_kind hkind)]
    exact hleft.begins.append _
  | .conditional htest _ _ =>
    rw [words_conditional]
    exact (htest.begins.mono (by omega)).append _
  | .assigned hop htarget _ =>
    obtain ⟨token, -, hkind⟩ := tabulates_assignmentOperators.exists_token hop
    rw [words_mk, List.map_cons, List.map_singleton, arrange_assignment hkind]
    exact (htarget.begins.mono (by omega)).append _
  | .comma _ hall =>
    rw [words_comma, List.map_cons, intercalate_cons]
    exact ((hall _ List.mem_cons_self).begins.mono (by omega)).append _

theorem Grammatical.begins {e : ParseTree} {n : Nat} (h : Grammatical n e) : Begins n e.words := by
  match h with
  | .intro hconstruct hle => exact hconstruct.begins.mono hle

end

theorem IsItem.ne_nil {i : ParseTree} (h : IsItem i) : i.words ≠ [] := by
  cases h with
  | hole => simp [words_hole]
  | element => simp [words_element]

theorem IsProperty.ne_nil {p : ParseTree} (h : IsProperty p) : p.words ≠ [] := by
  cases h with
  | intro => simp [words_property]

theorem Grammatical.tighter {e : ParseTree} (h : Grammatical n e) :
    Construct n e ∨ Grammatical (n + 1) e := by
  obtain ⟨hconstruct, hle⟩ := h
  rcases Nat.eq_or_lt_of_le hle with rfl | hlt
  · exact Or.inl hconstruct
  · exact Or.inr ⟨hconstruct, hlt⟩

theorem Grammatical.primary {e : ParseTree} (h : Grammatical 17 e) : Construct 17 e := by
  rcases h.tighter with h | ⟨h, hle⟩
  · exact h
  · cases h with
    | binary hop =>
      have := binaryOperators_range hop
      omega
    | _ => omega

theorem Grammatical.mono {e : ParseTree} (h : Grammatical n e) (hm : m ≤ n) : Grammatical m e := by
  obtain ⟨hconstruct, hle⟩ := h
  exact ⟨hconstruct, Nat.le_trans hm hle⟩

/-- One token with a grammatical role. -/
def IsWord (w : String) : Prop := ∃ token, ofWord? w = some token

theorem isWord_spelling (p : Punctuator) : IsWord p.spelling := ⟨_, Token.ofWord?_spelling p⟩

theorem isWord_intercalate {parts : List (List String)} (h : ∀ ws ∈ parts, ∀ w ∈ ws, IsWord w) :
    ∀ w ∈ [Punctuator.comma.spelling].intercalate parts, IsWord w := by
  cases parts with
  | nil => simp
  | cons part parts =>
    rw [List.forall_mem_cons] at h
    rw [intercalate_cons, List.forall_mem_append]
    refine ⟨h.1, fun w hw => ?_⟩
    obtain ⟨ws, hws, hw⟩ := List.mem_flatMap.1 hw
    rcases List.mem_cons.1 hw with rfl | hw
    · exact isWord_spelling _
    · exact h.2 ws hws w hw

theorem IsKey.not_mark {key : ParseTree} (h : IsKey key) (ws : List String) (p : Punctuator) :
    headToken? (key.words ++ ws) ≠ some (.punctuator p) := by
  cases h with
  | name h =>
    obtain ⟨token, htoken, hname⟩ := isName_iff.1 h
    rw [headToken?_name htoken]
    rcases isNameLike_cases hname with rfl | ⟨word, rfl⟩ <;> simp
  | literal h =>
    obtain ⟨token, hword, hkind, htoken⟩ := h.exists_token
    rw [headToken?_simple hkind hword]
    rcases htoken with rfl | rfl | rfl <;> simp

theorem IsKey.isWord {key : ParseTree} (h : IsKey key) : ∀ w ∈ key.words, IsWord w := by
  cases h with
  | name h =>
    obtain ⟨token, htoken, -⟩ := isName_iff.1 h
    simpa [words_name] using ⟨token, htoken⟩
  | literal h =>
    obtain ⟨token, hword, hkind, -⟩ := h.exists_token
    rw [words_simple hkind]
    simpa using ⟨_, hword⟩

mutual

/-- The words of an expression are tokens. -/
theorem Construct.isWord {e : ParseTree} {n : Nat} (h : Construct n e) :
    ∀ w ∈ e.words, IsWord w := by
  match h with
  | .simple hsimple =>
    obtain ⟨token, hword, hkind⟩ := isSimple_iff.1 hsimple
    rw [words_simple hkind]
    simpa using ⟨_, hword⟩
  | .array hitems =>
    simp only [words_array, List.forall_mem_cons, List.forall_mem_append, List.mem_flatMap]
    refine ⟨isWord_spelling _, ?_, isWord_spelling _, by simp⟩
    rintro w ⟨i, hi, hw⟩
    exact (hitems i hi).isWord w hw
  | .object hproperties =>
    simp only [words_object, List.forall_mem_cons, List.forall_mem_append]
    refine ⟨isWord_spelling _, isWord_intercalate ?_, isWord_spelling _, by simp⟩
    intro ws hws
    obtain ⟨p, hp, rfl⟩ := List.mem_map.1 hws
    exact (hproperties p hp).isWord
  | .parenthesized he =>
    simp only [words_parenthesized, List.forall_mem_cons, List.forall_mem_append]
    exact ⟨isWord_spelling _, he.isWord, isWord_spelling _, by simp⟩
  | .new hoperand =>
    rw [words_new, List.forall_mem_cons]
    exact ⟨⟨_, Token.ofWord?_new⟩, hoperand.isWord⟩
  | .unary hop hoperand =>
    obtain ⟨token, hop, hkind⟩ := tabulates_unaryOperators.exists_token hop
    rw [words_mk, List.map_singleton, arrange_unary hkind, List.forall_mem_cons]
    exact ⟨⟨_, hop⟩, hoperand.isWord⟩
  | .field hobject hname =>
    obtain ⟨token, htoken, -⟩ := isName_iff.1 hname
    simp only [words_field, words_name, List.forall_mem_cons, List.forall_mem_append]
    exact ⟨hobject.isWord, isWord_spelling _, ⟨token, htoken⟩, by simp⟩
  | .index hobject hindex =>
    simp only [words_index, List.forall_mem_cons, List.forall_mem_append]
    exact ⟨hobject.isWord, isWord_spelling _, hindex.isWord, isWord_spelling _, by simp⟩
  | .call hcallee harguments =>
    simp only [words_call, words_arguments, List.forall_mem_cons, List.forall_mem_append]
    refine ⟨hcallee.isWord, isWord_spelling _, isWord_intercalate ?_, isWord_spelling _, by simp⟩
    intro ws hws
    obtain ⟨a, ha, rfl⟩ := List.mem_map.1 hws
    exact (harguments a ha).isWord
  | .stepped hop hoperand =>
    obtain ⟨token, hop, hkind⟩ := tabulates_postfixOperators.exists_token hop
    rw [words_mk, List.map_singleton, arrange_stepped hkind, List.forall_mem_append]
    exact ⟨hoperand.isWord, by simpa using ⟨_, hop⟩⟩
  | .binary hop hleft hright =>
    obtain ⟨token, hop, hkind⟩ := tabulates_binaryOperators.exists_token hop
    rw [words_mk, List.map_cons, List.map_singleton, arrange_binary (binaryOperator?_kind hkind),
      List.forall_mem_append, List.forall_mem_cons]
    exact ⟨hleft.isWord, ⟨_, hop⟩, hright.isWord⟩
  | .conditional htest hconsequent halternate =>
    simp only [words_conditional, List.forall_mem_cons, List.forall_mem_append]
    exact ⟨htest.isWord, isWord_spelling _, hconsequent.isWord, isWord_spelling _,
      halternate.isWord⟩
  | .assigned hop htarget hvalue =>
    obtain ⟨token, hop, hkind⟩ := tabulates_assignmentOperators.exists_token hop
    rw [words_mk, List.map_cons, List.map_singleton, arrange_assignment hkind,
      List.forall_mem_append, List.forall_mem_cons]
    exact ⟨htarget.isWord, ⟨_, hop⟩, hvalue.isWord⟩
  | .comma _ hall =>
    rw [words_comma]
    refine isWord_intercalate fun ws hws => ?_
    obtain ⟨e, he, rfl⟩ := List.mem_map.1 hws
    exact (hall e he).isWord

theorem Grammatical.isWord {e : ParseTree} {n : Nat} (h : Grammatical n e) :
    ∀ w ∈ e.words, IsWord w := by
  match h with
  | .intro hconstruct _ => exact hconstruct.isWord

theorem IsItem.isWord {i : ParseTree} (h : IsItem i) : ∀ w ∈ i.words, IsWord w := by
  match h with
  | .hole =>
    simp only [words_hole, List.forall_mem_cons]
    exact ⟨isWord_spelling _, by simp⟩
  | .element he =>
    simp only [words_element, List.forall_mem_cons, List.forall_mem_append]
    exact ⟨he.isWord, isWord_spelling _, by simp⟩

theorem IsProperty.isWord {p : ParseTree} (h : IsProperty p) : ∀ w ∈ p.words, IsWord w := by
  match h with
  | .intro hkey hvalue =>
    simp only [words_property, List.forall_mem_cons, List.forall_mem_append]
    exact ⟨hkey.isWord, isWord_spelling _, hvalue.isWord⟩

end

end Ecma3.Grammar
