import Mathlib.Data.List.Induction
import Mathlib.Data.Nat.Digits.Defs
import Ecma3.Text.Digit

/-! The numbers that digits stand for, in positional notation. -/
namespace Ecma3.Text

variable {base : Nat} {c : Char} {digits : List Char}

/-- The place of a digit among the digits, which are the same in either case. -/
def digitPlace (c : Char) : Nat := "0123456789abcdef".toList.idxOf c.toLower

/-- The sum of the digits, each times the power of the base for its place. -/
def numeral (base : Nat) (digits : List Char) : Nat :=
  Nat.ofDigits base (digits.reverse.map digitPlace)

/-- A sign in front of digits, or none; `true` is for negative numbers. -/
inductive Sign : Bool → List Char → Prop where
  | absent : Sign false []
  | plus : Sign false ['+']
  | minus : Sign true ['-']

theorem exists_sign {sign : List Char} :
    (∃ negative, Sign negative sign) ↔ sign = [] ∨ sign = ['+'] ∨ sign = ['-'] := by
  constructor
  · rintro ⟨_, _ | _ | _⟩ <;> simp
  · rintro (rfl | rfl | rfl)
    · exact ⟨_, .absent⟩
    · exact ⟨_, .plus⟩
    · exact ⟨_, .minus⟩

theorem isHexDigit_of_isDigit (h : isDigit c = true) : isHexDigit c = true := by
  rw [isHexDigit, h]
  rfl

theorem ascii_of_isHexDigit (h : isHexDigit c = true) : c.toNat < 128 := by
  simp only [isHexDigit, isDigit, Bool.or_eq_true, Bool.and_eq_true, decide_eq_true_eq] at h
  have hle : ∀ d : Char, c ≤ d → c.toNat ≤ d.toNat := fun _ hd => hd
  have hlast : '9'.toNat < 128 ∧ 'f'.toNat < 128 ∧ 'F'.toNat < 128 := by decide
  rcases h with (⟨-, h⟩ | ⟨-, h⟩) | ⟨-, h⟩ <;> have := hle _ h <;> omega

/-- What holds of the first 128 characters one by one. -/
theorem of_ascii {P : Char → Prop} (hall : ∀ n < 128, P (Char.ofNat n)) (hc : c.toNat < 128) :
    P c := by
  rw [← Char.ofNat_toNat c]
  exact hall c.toNat hc

theorem digitValue_eq_digitPlace (h : isHexDigit c = true) : digitValue c = digitPlace c :=
  of_ascii (P := fun d => isHexDigit d = true → digitValue d = digitPlace d) (by decide +kernel)
    (ascii_of_isHexDigit h) h

theorem valueOf_concat (base : Nat) (digits : List Char) (c : Char) :
    valueOf base (digits ++ [c]) = valueOf base digits * base + digitValue c := by
  rw [valueOf, List.foldl_append]
  rfl

theorem numeral_concat (base : Nat) (digits : List Char) (c : Char) :
    numeral base (digits ++ [c]) = digitPlace c + base * numeral base digits := by
  rw [numeral, List.reverse_append, List.reverse_singleton, List.singleton_append, List.map_cons,
    Nat.ofDigits_cons]
  rfl

theorem numeral_append (base : Nat) (digits more : List Char) : numeral base (digits ++ more) =
    numeral base digits * base ^ more.length + numeral base more := by
  rw [numeral, List.reverse_append, List.map_append, Nat.ofDigits_append, List.length_map,
    List.length_reverse, Nat.add_comm, Nat.mul_comm]
  rfl

theorem valueOf_eq_numeral (h : ∀ c ∈ digits, isHexDigit c = true) :
    valueOf base digits = numeral base digits := by
  induction digits using List.reverseRecOn with
  | nil => rfl
  | append_singleton digits c ih =>
    rw [List.forall_mem_append, List.forall_mem_singleton] at h
    rw [valueOf_concat, numeral_concat, ih h.1, digitValue_eq_digitPlace h.2, Nat.mul_comm,
      Nat.add_comm]

end Ecma3.Text
