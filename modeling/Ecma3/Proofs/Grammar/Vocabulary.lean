import Ecma3.Grammar.Operator
import Ecma3.Proofs.Token.Single

/-!
The words of expressions, as the language has them: its operators with the kinds of their nodes and
how tightly they bind, its reserved words, names and literals. The parser goes by the tokens of the
words, and takes them for the same.
-/
namespace Ecma3.Grammar
open Token (ofWord? ofWord?_eq_some)

def reservedWords : List String :=
  ["break", "case", "catch", "continue", "debugger", "default", "delete", "do", "else", "finally",
   "for", "function", "if", "in", "instanceof", "new", "return", "switch", "this", "throw", "try",
   "typeof", "var", "void", "while", "with", "null", "true", "false"]

/-- Binary operators with their kinds and precedences, from the loosest on. -/
def binaryOperators : List (String × Kind × Nat) :=
  [("||", .logicalOr, 1), ("&&", .logicalAnd, 2), ("|", .bitOr, 3), ("^", .bitXor, 4),
   ("&", .bitAnd, 5),
   ("==", .equal, 6), ("!=", .notEqual, 6), ("===", .same, 6), ("!==", .notSame, 6),
   ("<", .less, 7), (">", .greater, 7), ("<=", .lessEqual, 7), (">=", .greaterEqual, 7),
   ("instanceof", .instanceOf, 7), ("in", .«in», 7),
   ("<<", .shiftLeft, 8), (">>", .shiftRight, 8), (">>>", .shiftRightUnsigned, 8),
   ("+", .add, 9), ("-", .subtract, 9),
   ("*", .multiply, 10), ("/", .divide, 10), ("%", .modulo, 10)]

/-- Operators in front of their operand. -/
def unaryOperators : List (String × Kind) :=
  [("delete", .delete), ("void", .void), ("typeof", .typeOf), ("++", .increment),
   ("--", .decrement), ("+", .plus), ("-", .negate), ("~", .bitNot), ("!", .logicalNot)]

/-- Operators behind their operand. -/
def postfixOperators : List (String × Kind) :=
  [("++", .postIncrement), ("--", .postDecrement)]

def assignmentOperators : List (String × Kind) :=
  [("=", .assign), ("+=", .addAssign), ("-=", .subtractAssign), ("*=", .multiplyAssign),
   ("/=", .divideAssign), ("%=", .moduloAssign), ("<<=", .shiftLeftAssign),
   (">>=", .shiftRightAssign), (">>>=", .shiftRightUnsignedAssign), ("&=", .bitAndAssign),
   ("|=", .bitOrAssign), ("^=", .bitXorAssign)]

/-- Reserved words that are expressions by themselves. -/
def wordExpressions : List (String × Kind) :=
  [("this", .«this»), ("null", .nullLiteral), ("true", .trueLiteral), ("false", .falseLiteral)]

/-- A name in the wide sense, which can be a reserved word. -/
def IsName (text : String) : Prop := text.toList ∈ Token.language .identifier

/-- Numbers and strings, by the patterns of their tokens. -/
inductive IsLiteral : Kind → String → Prop where
  | decimal {text : String} (h : text.toList ∈ Token.language .decimalLiteral) :
    IsLiteral .decimalLiteral text
  | hex {text : String} (h : text.toList ∈ Token.language .hexLiteral) : IsLiteral .hexLiteral text
  | string {text : String} (h : text.toList ∈ Token.language .stringLiteral) :
    IsLiteral .stringLiteral text

/-- Expressions of a single word. -/
inductive IsSimple : Kind → String → Prop where
  | identifier {text : String} (h : IsName text) (hword : text ∉ reservedWords) :
    IsSimple .identifier text
  | word {kind : Kind} {text : String} (h : wordExpressions.lookup text = some kind) :
    IsSimple kind text
  | literal {kind : Kind} {text : String} (h : IsLiteral kind text) : IsSimple kind text

variable {α : Type} {token : Token} {kind : Kind} {text w : String}

/-- The spelling of a token that has only one. -/
def spelling? : Token → Option String
  | .punctuator p => some p.spelling
  | .reserved r => some r.spelling
  | _ => none

def tokens : List Token :=
  Punctuator.all.map .punctuator ++ ReservedWord.all.map .reserved ++
    [.identifier, .decimalLiteral, .hexLiteral, .stringLiteral, .lineTerminator, .lineComment,
      .blockComment]

theorem mem_tokens (t : Token) : t ∈ tokens := by
  cases t with
  | punctuator p => cases p <;> decide +kernel
  | reserved r => cases r <;> decide +kernel
  | _ => decide +kernel

theorem ofWord?_eq_some_iff_spells (ht : token.isTrivia = false) :
    ofWord? w = some token ↔ token.Spells w.toList := by
  rw [ofWord?_eq_some, ← String.length_toList, Token.longest?_whole, and_iff_left ht]

theorem ofWord?_of_spelling? (h : spelling? token = some w) : ofWord? w = some token := by
  cases token with
  | punctuator p =>
    cases h
    rw [ofWord?_eq_some_iff_spells rfl, Token.spells_iff (by simp), Token.mem_punctuator]
  | reserved r =>
    cases h
    rw [ofWord?_eq_some_iff_spells rfl, Token.spells_iff (by simp), Token.mem_reserved]
  | _ => cases h

theorem spelling?_of_ofWord? (h : ofWord? w = some token) :
    spelling? token = none ∨ spelling? token = some w := by
  have hmem := ((ofWord?_eq_some_iff_spells (ofWord?_eq_some.1 h).2).1 h).1
  cases token with
  | punctuator p => exact Or.inr (by rw [String.toList_inj.1 (Token.mem_punctuator.1 hmem)]; rfl)
  | reserved r => exact Or.inr (by rw [String.toList_inj.1 (Token.mem_reserved.1 hmem)]; rfl)
  | _ => exact Or.inl rfl

/-- The table has the spellings of the tokens that the parser makes something of, with what it
makes of them. -/
structure Tabulates (table : List (String × α)) (meaning? : Token → Option α) : Prop where
  spelled : ∀ e ∈ table, e.1 ∈ tokens.filterMap spelling?
  meaning : ∀ t ∈ tokens, meaning? t = (spelling? t).bind fun w => table.lookup w

/-- Such a table says of every word what the parser makes of it. -/
theorem Tabulates.lookup_eq {table : List (String × α)} {meaning? : Token → Option α}
    (h : Tabulates table meaning?) (w : String) : table.lookup w = (ofWord? w).bind meaning? := by
  by_cases hspelled : ∃ t, spelling? t = some w
  · obtain ⟨t, ht⟩ := hspelled
    rw [ofWord?_of_spelling? ht, Option.bind_some, h.meaning t (mem_tokens t), ht, Option.bind_some]
  · have htable : table.lookup w = none := by
      refine List.lookup_eq_none_iff.2 fun e he => bne_iff_ne.2 ?_
      rintro rfl
      obtain ⟨t, -, ht⟩ := List.mem_filterMap.1 (h.spelled e he)
      exact hspelled ⟨t, ht⟩
    rw [htable, eq_comm, Option.bind_eq_none_iff]
    intro t ht
    rcases spelling?_of_ofWord? ht with hnone | hsome
    · rw [h.meaning t (mem_tokens t), hnone, Option.bind_none]
    · exact absurd ⟨t, hsome⟩ hspelled

/-- A word in the table has the token that the parser goes by. -/
theorem Tabulates.exists_token {table : List (String × α)} {meaning? : Token → Option α} {a : α}
    (h : Tabulates table meaning?) (hword : table.lookup w = some a) :
    ∃ token, ofWord? w = some token ∧ meaning? token = some a := by
  rwa [h.lookup_eq, Option.bind_eq_some_iff] at hword

theorem tabulates_binaryOperators : Tabulates binaryOperators (binaryOperator? true) where
  spelled := by decide +kernel
  meaning := by decide +kernel

theorem tabulates_unaryOperators : Tabulates unaryOperators unaryKind? where
  spelled := by decide +kernel
  meaning := by decide +kernel

theorem tabulates_postfixOperators : Tabulates postfixOperators postfixKind? where
  spelled := by decide +kernel
  meaning := by decide +kernel

theorem tabulates_assignmentOperators : Tabulates assignmentOperators assignmentKind? where
  spelled := by decide +kernel
  meaning := by decide +kernel

theorem tabulates_wordExpressions :
    Tabulates wordExpressions fun t => if t.isReserved then simpleKind? t else none where
  spelled := by decide +kernel
  meaning := by decide +kernel

theorem mem_reservedWords : w ∈ reservedWords ↔ ∃ r : ReservedWord, w = r.spelling := by
  have hall : reservedWords = ReservedWord.all.map (·.spelling) := by decide +kernel
  rw [hall, List.mem_map]
  constructor
  · rintro ⟨r, -, rfl⟩
    exact ⟨r, rfl⟩
  · rintro ⟨r, rfl⟩
    exact ⟨r, by cases r <;> decide, rfl⟩

theorem isNameLike_cases (h : isNameLike token = true) :
    token = .identifier ∨ ∃ word, token = .reserved word := by
  cases token with
  | identifier => exact Or.inl rfl
  | reserved word => exact Or.inr ⟨word, rfl⟩
  | _ => cases h

/-- Names in the wide sense are the words that the parser reads as one. -/
theorem isName_iff : IsName text ↔ ∃ token, ofWord? text = some token ∧ isNameLike token = true := by
  constructor
  · intro h
    by_cases hword : ∃ r : ReservedWord, text.toList = r.spelling.toList
    · obtain ⟨r, hr⟩ := hword
      exact ⟨.reserved r, ofWord?_of_spelling? (by rw [String.toList_inj.1 hr]; rfl), rfl⟩
    · exact ⟨.identifier, (ofWord?_eq_some_iff_spells rfl).2 ⟨h, fun _ r hr => hword ⟨r, hr⟩⟩, rfl⟩
  · rintro ⟨token, htoken, hname⟩
    have hmem := ((ofWord?_eq_some_iff_spells (ofWord?_eq_some.1 htoken).2).1 htoken).1
    rcases isNameLike_cases hname with rfl | ⟨r, rfl⟩
    · exact hmem
    · exact Token.identifier_of_reserved hmem

theorem IsLiteral.exists_token (h : IsLiteral kind text) : ∃ token, ofWord? text = some token ∧
    simpleKind? token = some kind ∧
      (token = .stringLiteral ∨ token = .decimalLiteral ∨ token = .hexLiteral) := by
  cases h with
  | decimal h =>
    exact ⟨.decimalLiteral, (ofWord?_eq_some_iff_spells rfl).2 ((Token.spells_iff (by simp)).2 h),
      rfl, Or.inr (Or.inl rfl)⟩
  | hex h =>
    exact ⟨.hexLiteral, (ofWord?_eq_some_iff_spells rfl).2 ((Token.spells_iff (by simp)).2 h), rfl,
      Or.inr (Or.inr rfl)⟩
  | string h =>
    exact ⟨.stringLiteral, (ofWord?_eq_some_iff_spells rfl).2 ((Token.spells_iff (by simp)).2 h),
      rfl, Or.inl rfl⟩

/-- Expressions of a single word are those of the parser. -/
theorem isSimple_iff : IsSimple kind text ↔
    ∃ token, ofWord? text = some token ∧ simpleKind? token = some kind := by
  constructor
  · rintro (⟨hname, hword⟩ | hword | hliteral)
    · refine ⟨.identifier, (ofWord?_eq_some_iff_spells rfl).2 ⟨hname, fun _ r hr => ?_⟩, rfl⟩
      exact hword (mem_reservedWords.2 ⟨r, String.toList_inj.1 hr⟩)
    · obtain ⟨token, htoken, hkind⟩ := tabulates_wordExpressions.exists_token hword
      exact ⟨token, htoken, (Option.ite_none_right_eq_some.1 hkind).2⟩
    · obtain ⟨token, htoken, hkind, -⟩ := hliteral.exists_token
      exact ⟨token, htoken, hkind⟩
  · rintro ⟨token, htoken, hkind⟩
    have hspells := (ofWord?_eq_some_iff_spells (ofWord?_eq_some.1 htoken).2).1 htoken
    cases token with
    | reserved r =>
      refine .word ?_
      rw [tabulates_wordExpressions.lookup_eq, htoken, Option.bind_some]
      exact hkind
    | identifier =>
      cases hkind
      refine .identifier hspells.1 fun hword => ?_
      obtain ⟨r, rfl⟩ := mem_reservedWords.1 hword
      exact hspells.2 rfl r rfl
    | decimalLiteral =>
      cases hkind
      exact .literal (.decimal hspells.1)
    | hexLiteral =>
      cases hkind
      exact .literal (.hex hspells.1)
    | stringLiteral =>
      cases hkind
      exact .literal (.string hspells.1)
    | _ => cases hkind

end Ecma3.Grammar
