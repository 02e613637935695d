import Ecma3.Grammar.Program
import Ecma3.Proofs.Grammar.Reads

/-! Lists and primary expressions, parsed from their words. -/
namespace Ecma3.Grammar
open ParserM ParseTree Punctuator
open Token (ofWord? ofWord?_spelling)

variable {inner : Inner} {limit depth : Nat} {e : ParseTree} {rest ws : List String} {n : Nat}

/-- From the words of the tree, the parser comes to that tree and to what follows. -/
def Recovers (limit depth : Nat) (p : ParserM ParseTree) (e : ParseTree) (rest : List String) :
    Prop :=
  Parses limit depth p (e.words ++ rest) rest fun t => t.spanless = e.spanless

/-- The production for the goal gives the tree, if these words follow. -/
def Goal.Accepts : Goal → ParseTree → List String → Prop
  | .assignment true, e, rest => Grammatical 1 e ∧ Ends 1 rest
  | .binary true least, e, rest =>
    1 ≤ least ∧ least ≤ 11 ∧ Grammatical (least + 2) e ∧ Ends (least + 2) rest
  | .unary, e, rest => Grammatical 13 e ∧ Ends 13 rest
  | .memberBase, e, _ => Grammatical 16 e
  | _, _, _ => False

/-- The parsers for what stands inside recover every tree that is accepted, provided that the bound
and the nesting limit leave room for its words. -/
def Inner.Completes (limit : Nat) (inner : Inner) : Prop :=
  ∀ goal e rest depth, Goal.Accepts goal e rest → e.words.length < inner.bound →
    depth + 2 * e.words.length ≤ limit → Recovers limit depth (inner.parse goal) e rest

theorem ends_mark {p : Punctuator} (h : continuingKind? (.punctuator p) = none) :
    Ends n (p.spelling :: ws) := ends_of_none (ofWord?_spelling p) h

theorem ends_comma : Ends 1 (comma.spelling :: ws) :=
  ends_of_strength (ofWord?_spelling comma) rfl rfl Nat.one_pos

namespace Inner

theorem parses_commaSeparated {element : ParserM ParseTree} {first : ParseTree}
    {others : List ParseTree} (hbound : others.length < inner.bound) (hrest : Ends 0 rest)
    (helement : ∀ e ∈ first :: others, ∀ ws, Ends 1 ws → Recovers limit depth element e ws) :
    Parses limit depth (inner.commaSeparated element)
      ([comma.spelling].intercalate ((first :: others).map words) ++ rest) rest
      fun found => found.1.spanless = first.spanless ∧
        found.2.map spanless = others.map spanless := by
  have hstop : headToken? rest ≠ some (.punctuator .comma) := fun hcomma =>
    absurd (hrest _ _ _ hcomma rfl rfl) (Nat.lt_irrefl 0)
  rw [List.map_cons, intercalate_cons, List.flatMap_map, List.append_assoc]
  rw [List.forall_mem_cons] at helement
  have hends : Ends 1 (others.flatMap (comma.spelling :: words ·) ++ rest) := by
    cases others with
    | nil => exact hrest.mono (Nat.zero_le 1)
    | cons => exact ends_comma
  refine (helement.1 _ hends).bind fun t ht => ?_
  refine (parses_collect (G := Ends 1) hbound (hrest.mono (Nat.zero_le 1)) ?_
    (fun e _ ws => ends_comma) fun e he ws hws => ?_).bind fun ts hts => .pure ⟨ht, hts⟩
  · refine (parses_accept_not hstop).bind_eq ?_
    exact .pure rfl
  · refine (parses_accept (ofWord?_spelling comma)).bind_eq ?_
    exact (helement.2 e he ws hws).bind fun t ht => .pure ⟨t, rfl, ht⟩

theorem parses_argumentList {element : ParserM ParseTree} {elements : List ParseTree} {span : Span}
    (hbound : elements.length ≤ inner.bound)
    (hbegins : ∀ e ∈ elements, Begins 1 e.words)
    (helement : ∀ e ∈ elements, ∀ ws, Ends 1 ws → Recovers limit depth element e ws) :
    Recovers limit depth (inner.argumentList element) (group .arguments span elements) rest := by
  rw [Recovers, words_arguments, List.cons_append, List.append_assoc]
  refine (parses_demand (ofWord?_spelling leftParen) _).bind fun start _ => ?_
  refine (parses_sees _).bind fun seen hseen => ?_
  extract_lets close
  have hclose : ∀ ts : List ParseTree, ts.map spanless = elements.map spanless →
      Parses limit depth (close ts) (rightParen.spelling :: rest) rest
        fun t => t.spanless = (group .arguments span elements).spanless := by
    intro ts hts
    refine (parses_demand (ofWord?_spelling rightParen) _).bind fun _ _ => ?_
    refine (parses_spanFrom _).bind fun place _ => .pure ?_
    rw [spanless_group, spanless_group, hts]
  cases elements with
  | nil =>
    have hright : seen = true := by
      simp only [hseen, List.map_nil, List.intercalate_nil, List.nil_append, List.singleton_append,
        headToken?_cons, ofWord?_spelling, beq_self_eq_true]
    rw [if_pos hright]
    exact hclose [] rfl
  | cons first others =>
    have hfirst := (hbegins first List.mem_cons_self).append
      (others.flatMap (comma.spelling :: words ·) ++ ([rightParen.spelling] ++ rest))
    have hright : seen = false := by
      rw [hseen, beq_eq_false_iff_ne, List.map_cons, intercalate_cons, List.flatMap_map,
        List.append_assoc]
      exact hfirst.not_of_none rfl
    rw [if_neg (by simp [hright])]
    have hends : Ends 0 ([rightParen.spelling] ++ rest) := ends_mark rfl
    refine (parses_commaSeparated (Nat.lt_of_succ_le hbound) hends helement).bind
      fun found hfound => ?_
    exact hclose (found.1 :: found.2) (by rw [List.map_cons, List.map_cons, hfound.1, hfound.2])

theorem parses_expressionOf {element : ParserM ParseTree} (he : Grammatical 0 e)
    (hbound : e.words.length ≤ inner.bound) (hrest : Ends 0 rest)
    (helement : ∀ a, Grammatical 1 a → a.words.length ≤ e.words.length → ∀ ws, Ends 1 ws →
      Recovers limit depth element a ws) :
    Recovers limit depth (inner.expressionOf element) e rest := by
  rcases he.tighter with he | he
  · cases he with
    | @comma first others span hne hall =>
      have hlength : (others.length + 1) ≤
          ([comma.spelling].intercalate ((first :: others).map words)).length := by
        refine Nat.le_trans ?_ (length_intercalate_ge _ ?_)
        · simp
        · intro part hpart
          obtain ⟨e, he, rfl⟩ := List.mem_map.1 hpart
          exact (hall e he).begins.ne_nil
      rw [words_comma] at hbound helement
      rw [Recovers, words_comma]
      refine (parses_commaSeparated (by omega) hrest fun e he ws hws =>
        helement e (hall e he) (length_le_intercalate (List.mem_map_of_mem he)) ws hws).bind
          fun found hfound => ?_
      have hsome : found.2.isEmpty = false := by
        have hsame := congrArg List.length hfound.2
        rw [List.length_map, List.length_map] at hsame
        rw [List.isEmpty_eq_false_iff, ← List.length_pos_iff, hsame]
        exact List.length_pos_iff.2 hne
      obtain ⟨a, as⟩ := found
      simp only [hsome, Bool.false_eq_true, if_false]
      refine (parses_spanFrom _).bind fun place _ => .pure ?_
      rw [spanless_group, spanless_group, List.map_cons, List.map_cons, hfound.1, hfound.2]
  · have hpos := List.length_pos_iff.2 he.begins.ne_nil
    have hone : [comma.spelling].intercalate ([e].map words) = e.words := by simp
    have hfound : Parses limit depth (inner.commaSeparated element)
        ([comma.spelling].intercalate ([e].map words) ++ rest) rest
        fun found => found.1.spanless = e.spanless ∧ found.2.map spanless = [].map spanless := by
      refine parses_commaSeparated (Nat.lt_of_lt_of_le hpos hbound) hrest fun a ha ws hws => ?_
      rw [List.mem_singleton.1 ha]
      exact helement e he (Nat.le_refl _) ws hws
    rw [hone] at hfound
    refine hfound.bind fun found hfound => ?_
    obtain ⟨a, as⟩ := found
    have hnone : as = [] := List.map_eq_nil_iff.1 hfound.2
    subst hnone
    exact .pure hfound.1

theorem parses_parenthesized (h : inner.Completes limit) {span : Span} (he : Grammatical 0 e)
    (hbound : (group .parenthesized span [e]).words.length ≤ inner.bound)
    (hroom : depth + 2 * (group .parenthesized span [e]).words.length ≤ limit + 1) :
    Recovers limit depth inner.parenthesized (group .parenthesized span [e]) rest := by
  rw [words_parenthesized, List.length_cons, List.length_append, List.length_singleton]
    at hbound hroom
  rw [Recovers, words_parenthesized, List.cons_append, List.append_assoc]
  refine (parses_demand (ofWord?_spelling leftParen) _).bind fun _ _ => ?_
  refine (parses_expressionOf he (by omega) (ends_mark rfl) fun a ha hle ws hws => ?_).bind
    fun t ht => ?_
  · exact h (.assignment true) a ws depth ⟨ha, hws⟩ (by omega) (by omega)
  · refine (parses_demand (ofWord?_spelling rightParen) _).bind fun _ _ => .pure ?_
    rw [spanless_group, spanless_group, List.map_singleton, List.map_singleton, ht]

theorem parses_arrayItem (h : inner.Completes limit) {i : ParseTree} (hi : IsItem i)
    (hbound : i.words.length ≤ inner.bound) (hroom : depth + 2 * i.words.length ≤ limit + 1) :
    Parses limit depth inner.arrayItem (i.words ++ ws) ws
      fun found => ∃ t, found = .more t ∧ t.spanless = i.spanless := by
  cases hi with
  | hole =>
    refine (parses_token? (headToken?_of (ofWord?_spelling comma))).bind_eq ?_
    refine parses_currentSpan.bind fun place _ => ?_
    exact parses_advance.bind fun _ _ => .pure ⟨_, rfl, by simp⟩
  | @element e span he =>
    rw [words_element, List.append_assoc] at *
    have hbegins := he.begins.append ([comma.spelling] ++ ws)
    refine (parses_token? rfl).bind fun found hfound => ?_
    split
    · exact absurd hfound.symm (hbegins.not_of_none rfl)
    · exact absurd hfound.symm (hbegins.not_of_none rfl)
    · rw [List.length_append, List.length_singleton] at hbound hroom
      refine (h (.assignment true) e _ depth ⟨he, ends_comma⟩ (by omega) (by omega)).bind
        fun t ht => ?_
      refine (parses_accept (ofWord?_spelling comma)).bind_eq ?_
      refine .pure ⟨_, rfl, ?_⟩
      rw [wrap, spanless_group, spanless_group, List.map_singleton, List.map_singleton, ht]

theorem parses_array (h : inner.Completes limit) {items : List ParseTree} {span : Span}
    (hitems : ∀ i ∈ items, IsItem i) (hbound : (group .array span items).words.length ≤ inner.bound)
    (hroom : depth + 2 * (group .array span items).words.length ≤ limit + 1) :
    Recovers limit depth inner.array (group .array span items) rest := by
  rw [words_array, List.length_cons, List.length_append] at hbound hroom
  rw [Recovers, words_array, List.cons_append, List.append_assoc]
  have hcount : items.length ≤ (items.flatMap words).length :=
    length_flatMap_ge words fun i hi => (hitems i hi).ne_nil
  refine (parses_demand (ofWord?_spelling leftBracket) _).bind fun _ _ => ?_
  refine (parses_collect (G := fun _ => True) (by omega) trivial ?_ (fun _ _ _ => trivial)
    fun i hi ws _ => ?_).bind fun ts hts => ?_
  · refine (parses_token? (headToken?_of (ofWord?_spelling rightBracket))).bind_eq ?_
    exact .pure rfl
  · have hlength := length_le_flatMap words hi
    exact parses_arrayItem h (hitems i hi) (by omega) (by omega)
  · refine (parses_demand (ofWord?_spelling rightBracket) _).bind fun _ _ => .pure ?_
    rw [spanless_group, spanless_group, hts]

theorem parses_simple {token : Token} {kind : Kind} {text : String} {span : Span}
    (hkind : simpleKind? token = some kind) :
    Recovers limit depth (leaf kind) (.leaf kind text span) rest := by
  rw [Recovers, words_simple hkind, List.singleton_append]
  refine (parses_leaf kind).mono fun t ht => ?_
  obtain ⟨place, rfl⟩ := ht
  rw [spanless_leaf, spanless_leaf]

theorem parses_name {text : String} {span : Span} :
    Recovers limit depth (leaf .identifier) (.leaf .identifier text span) rest :=
  parses_simple (show simpleKind? .identifier = _ from rfl)

theorem parses_key {key : ParseTree} (hkey : IsKey key) :
    Recovers limit depth propertyName key rest := by
  cases hkey with
  | @name text span h =>
    obtain ⟨token, htoken, hname⟩ := isName_iff.1 h
    refine (parses_token? (headToken?_name htoken)).bind_eq ?_
    rcases isNameLike_cases hname with rfl | ⟨word, rfl⟩
    · exact parses_name
    · exact parses_name
  | @literal kind text span h =>
    obtain ⟨token, hword, hkind, htoken⟩ := h.exists_token
    refine (parses_token? (headToken?_simple hkind hword)).bind_eq ?_
    have hleaf : Recovers limit depth (leaf kind) (.leaf kind text span) rest := parses_simple hkind
    rcases htoken with rfl | rfl | rfl <;> cases hkind <;> exact hleaf

theorem parses_property (h : inner.Completes limit) {p : ParseTree} (hp : IsProperty p)
    {R : Turn ParseTree → Prop} (hbound : p.words.length ≤ inner.bound)
    (hroom : depth + 2 * p.words.length ≤ limit + 1) (hws : Ends 1 ws)
    (hdone : ∀ t, t.spanless = p.spanless →
      Parses limit depth (do if ← acceptMark .comma then return .more t else return .last t)
        ws rest R) :
    Parses limit depth inner.property (p.words ++ ws) rest R := by
  cases hp with
  | @intro key value span hkey hvalue =>
    rw [words_property, List.length_append, List.length_cons] at hbound hroom
    rw [words_property, List.append_assoc, List.cons_append]
    refine (parses_sees_not (hkey.not_mark _ _)).bind_eq ?_
    rw [if_neg Bool.false_ne_true]
    refine (parses_key hkey).bind fun name hname => ?_
    refine (parses_demand (ofWord?_spelling colon) _).bind fun _ _ => ?_
    refine (h (.assignment true) value ws depth ⟨hvalue, hws⟩ (by omega) (by omega)).bind
      fun v hv => hdone _ ?_
    rw [spanless_group, spanless_group]
    simp [hname, hv]

theorem parses_properties (h : inner.Completes limit) {properties : List ParseTree} {bound : Nat}
    (hproperties : ∀ p ∈ properties, IsProperty p)
    (hcount : properties.length < bound)
    (hbound : ∀ p ∈ properties, p.words.length ≤ inner.bound)
    (hroom : ∀ p ∈ properties, depth + 2 * p.words.length ≤ limit + 1) :
    Parses limit depth (collect inner.property bound)
      ([comma.spelling].intercalate (properties.map words) ++ rightBrace.spelling :: rest)
      (rightBrace.spelling :: rest)
      fun found => found.map spanless = properties.map spanless := by
  induction properties generalizing bound with
  | nil =>
    obtain ⟨bound, rfl⟩ := Nat.exists_eq_add_one_of_ne_zero (Nat.ne_of_gt hcount)
    have hstop : Parses limit depth inner.property (rightBrace.spelling :: rest)
        (rightBrace.spelling :: rest) (· = .stop) := by
      refine (parses_sees_of (headToken?_of (ofWord?_spelling rightBrace))).bind_eq ?_
      rw [if_pos rfl]
      exact .pure rfl
    refine hstop.bind_eq ?_
    exact .pure rfl
  | cons p properties ih =>
    obtain ⟨bound, rfl⟩ := Nat.exists_eq_add_one_of_ne_zero (Nat.ne_zero_of_lt hcount)
    rw [List.forall_mem_cons] at hproperties hbound hroom
    cases properties with
    | nil =>
      rw [List.map_singleton, List.intercalate_singleton]
      have hlast : Parses limit depth inner.property (p.words ++ rightBrace.spelling :: rest)
          (rightBrace.spelling :: rest) fun found =>
            ∃ t, found = .last t ∧ t.spanless = p.spanless := by
        refine parses_property h hproperties.1 hbound.1 hroom.1 (ends_mark rfl) fun t ht => ?_
        refine (parses_accept_not (by simp)).bind_eq ?_
        exact .pure ⟨t, rfl, ht⟩
      refine hlast.bind fun found hfound => ?_
      obtain ⟨t, rfl, ht⟩ := hfound
      exact .pure (by rw [List.map_singleton, List.map_singleton, ht])
    | cons next properties =>
      rw [List.map_cons, List.map_cons, List.intercalate_cons_cons, ← List.map_cons,
        List.append_assoc, List.append_assoc]
      have hmore : ∀ ws, Parses limit depth inner.property (p.words ++ comma.spelling :: ws) ws
          fun found => ∃ t, found = .more t ∧ t.spanless = p.spanless := by
        intro ws
        refine parses_property h hproperties.1 hbound.1 hroom.1 ends_comma fun t ht => ?_
        refine (parses_accept (ofWord?_spelling comma)).bind_eq ?_
        exact .pure ⟨t, rfl, ht⟩
      refine (hmore _).bind fun found hfound => ?_
      obtain ⟨t, rfl, ht⟩ := hfound
      rw [List.length_cons, Nat.add_lt_add_iff_right] at hcount
      refine (ih hproperties.2 hcount hbound.2 hroom.2).bind fun ts hts => .pure ?_
      rw [List.map_cons, List.map_cons (l := next :: properties), ht, hts]

theorem parses_object (h : inner.Completes limit) {properties : List ParseTree} {span : Span}
    (hproperties : ∀ p ∈ properties, IsProperty p)
    (hbound : (group .object span properties).words.length ≤ inner.bound)
    (hroom : depth + 2 * (group .object span properties).words.length ≤ limit + 1) :
    Recovers limit depth inner.object (group .object span properties) rest := by
  rw [words_object, List.length_cons, List.length_append] at hbound hroom
  rw [Recovers, words_object, List.cons_append, List.append_assoc]
  have hlength : ∀ p ∈ properties,
      p.words.length ≤ ([comma.spelling].intercalate (properties.map words)).length :=
    fun p hp => length_le_intercalate (List.mem_map_of_mem hp)
  have hcount : (properties.map words).length ≤
      ([comma.spelling].intercalate (properties.map words)).length := by
    refine length_intercalate_ge _ fun part hpart => ?_
    obtain ⟨p, hp, rfl⟩ := List.mem_map.1 hpart
    exact (hproperties p hp).ne_nil
  rw [List.length_map] at hcount
  refine (parses_demand (ofWord?_spelling leftBrace) _).bind fun _ _ => ?_
  refine (parses_properties h hproperties (by omega) (fun p hp => ?_) fun p hp => ?_).bind
    fun ts hts => ?_
  · have := hlength p hp
    omega
  · have := hlength p hp
    omega
  · refine (parses_demand (ofWord?_spelling rightBrace) _).bind fun _ _ => .pure ?_
    rw [spanless_group, spanless_group, hts]

theorem parses_primary (h : inner.Completes limit) (he : Construct 17 e)
    (hbound : e.words.length ≤ inner.bound) (hroom : depth + 2 * e.words.length ≤ limit + 1) :
    Recovers limit depth inner.primary e rest := by
  cases he with
  | @simple kind text span hsimple =>
    obtain ⟨token, htoken, hkind⟩ := isSimple_iff.1 hsimple
    refine (parses_token? (headToken?_simple hkind htoken)).bind_eq ?_
    simp only [hkind]
    exact parses_simple hkind
  | @array items span hitems =>
    refine (parses_token? headToken?_array).bind_eq ?_
    exact parses_array h hitems hbound hroom
  | @object properties span hproperties =>
    refine (parses_token? headToken?_object).bind_eq ?_
    exact parses_object h hproperties hbound hroom
  | @parenthesized e span he =>
    refine (parses_token? headToken?_parenthesized).bind_eq ?_
    exact parses_parenthesized h he hbound hroom
  | binary hop =>
    have := binaryOperators_range hop
    omega

theorem parses_memberBase (h : inner.Completes limit) (he : Grammatical 16 e)
    (hbound : e.words.length ≤ inner.bound) (hroom : depth + 2 * e.words.length ≤ limit + 1) :
    Recovers limit depth inner.memberBase e rest := by
  rcases he.tighter with he | he
  · cases he with
    | @new operand span hoperand =>
      rw [words_new, List.length_cons] at hbound hroom
      rw [Recovers, words_new, List.cons_append]
      refine (parses_sees_of (headToken?_of Token.ofWord?_new)).bind_eq ?_
      rw [if_pos rfl]
      refine parses_currentSpan.bind fun _ _ => ?_
      refine parses_advance.bind fun _ _ => ?_
      refine .nested (by omega)
        (h .memberBase operand rest (depth + 1) hoperand (by omega) (by omega)) fun t ht => .pure ?_
      rw [spanless_mk, spanless_mk, List.map_singleton, List.map_singleton, ht]
    | binary hop =>
      have := binaryOperators_range hop
      omega
  · have hfirst : headToken? (e.words ++ rest) ≠ some (.reserved .new) :=
      (he.begins.append rest).not_of_strength rfl rfl (Nat.lt_succ_self 16)
    refine (parses_sees_not hfirst).bind_eq ?_
    rw [if_neg Bool.false_ne_true]
    exact parses_primary h he.primary hbound hroom

end Inner
end Ecma3.Grammar
