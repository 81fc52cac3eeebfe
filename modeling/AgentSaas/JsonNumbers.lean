import AgentSaas.JsonReader
import Mathlib.Algebra.Ring.Nat

/-! The numbers of the language, as far as their texts go: what a conversion to text and back
promises. -/

namespace AgentSaas.JsonNumbers
open ToolCallRepair (Text unit units)
open JsonStrings JsonReader

/-- The whole text is a number. The flag says that it has neither fraction nor exponent. -/
def Numeral (whole : Bool) (text : Text) : Prop := ∀ ε : Type, scanNumber (ε := ε) text = .ok ((text, whole), [])

def digitsValue (digits : Text) : Nat := digits.foldl (fun value char => 10 * value + (char - unit '0')) 0

/-- `BigInt(literal)` -/
def bigInt (literal : Text) : Int :=
  if (scanSign literal).1.isEmpty then digitsValue literal else -digitsValue (scanSign literal).2

def MAX_SAFE_INTEGER : Int := 9007199254740991

def isSafe (value : Int) : Bool := -MAX_SAFE_INTEGER ≤ value && value ≤ MAX_SAFE_INTEGER

/-- `toInt` is the value of a number that is an integer. Only `-0` is not read back as it was. -/
structure Numbers (N : Type) where
  zero : N
  negativeZero : N
  isFinite : N → Bool
  toInt : N → Option Int
  ofNat : Nat → N
  toText : N → Text
  ofText : Text → N
  zero_ne : zero ≠ negativeZero
  finite_zero : isFinite zero = true
  text_zero : toText zero = units "0"
  text_negativeZero : toText negativeZero = units "0"
  toInt_zero : toInt zero = some 0
  toInt_negativeZero : toInt negativeZero = some 0
  numeral : ∀ value, isFinite value = true → ∃ whole, Numeral whole (toText value)
  ofText_toText : ∀ value, isFinite value = true → value ≠ negativeZero → ofText (toText value) = value
  toInt_numeral : ∀ value, isFinite value = true → Numeral true (toText value) → toInt value = some (bigInt (toText value))
  finite_ofNat : ∀ value : Nat, isSafe value → isFinite (ofNat value) = true
  toInt_ofNat : ∀ value : Nat, isSafe value → toInt (ofNat value) = some (value : Int)
  eq_ofNat : ∀ number (value : Nat), isFinite number = true → isSafe value → toInt number = some (value : Int) →
    number = ofNat value ∨ number = negativeZero

namespace Numbers

variable {N : Type} [DecidableEq N] (numbers : Numbers N)

/-- `-0` is read as `0`. -/
def plain (value : N) : N := if value = numbers.negativeZero then numbers.zero else value

@[simp] theorem plain_plain (value : N) : numbers.plain (numbers.plain value) = numbers.plain value := by
  unfold plain
  split
  · exact if_neg numbers.zero_ne
  · rfl

@[simp] theorem toText_plain (value : N) : numbers.toText (numbers.plain value) = numbers.toText value := by
  unfold plain
  split
  next same => rw [same, numbers.text_zero, numbers.text_negativeZero]
  · rfl

@[simp] theorem toInt_plain (value : N) : numbers.toInt (numbers.plain value) = numbers.toInt value := by
  unfold plain
  split
  next same => rw [same, numbers.toInt_zero, numbers.toInt_negativeZero]
  · rfl

theorem isFinite_plain {value : N} (finite : numbers.isFinite value = true) : numbers.isFinite (numbers.plain value) = true := by
  unfold plain
  split
  · exact numbers.finite_zero
  · exact finite

theorem plain_ne (value : N) : numbers.plain value ≠ numbers.negativeZero := by
  unfold plain
  split
  · exact numbers.zero_ne
  · assumption

theorem ofText_plain {value : N} (finite : numbers.isFinite value = true) :
    numbers.ofText (numbers.toText value) = numbers.plain value := by
  rw [← numbers.toText_plain]
  exact numbers.ofText_toText _ (numbers.isFinite_plain finite) (numbers.plain_ne value)

end Numbers

/-- `JSON.parse`: any string, and of members with one key the last. -/
def standard {N : Type} (numbers : Numbers N) : Dialect N Empty where
  number literal _ := .ok (numbers.ofText literal)
  string _ := .ok ()
  repeated _ := .ok ()

theorem decimal_eq (value : Nat) : decimal value = (Nat.toDigits 10 value).map Char.toNat := by
  rw [decimal, units, Nat.toString_eq_repr, Nat.toList_repr]

theorem isDigit_decimal {value char : Nat} (member : char ∈ decimal value) : isDigit char = true := by
  rw [decimal_eq] at member
  obtain ⟨digit, inside, rfl⟩ := List.mem_map.mp member
  have bounds := Nat.isDigit_of_mem_toDigits (by decide) (by decide) inside
  simp only [Char.isDigit, Bool.and_eq_true, decide_eq_true_eq] at bounds
  simp only [isDigit, Bool.and_eq_true, decide_eq_true_eq]
  exact bounds

theorem digitsValue_decimal (value : Nat) : digitsValue (decimal value) = value := by
  have digits := Nat.ofDigitChars_ten_toDigits (n := value)
  rw [Nat.ofDigitChars_eq_foldl] at digits
  rw [decimal_eq, digitsValue, List.foldl_map]
  exact digits

theorem decimal_head (value : Nat) (positive : 0 < value) : ∃ char rest, decimal value = char :: rest ∧ unit '1' ≤ char ∧ char ≤ unit '9' := by
  induction value using Nat.strongRecOn with
  | ind value ih =>
    by_cases small : value < 10
    · refine ⟨value.digitChar.toNat, [], ?_, ?_⟩
      · rw [decimal_eq, Nat.toDigits_of_lt_base small]
        rfl
      · have cases : ∀ digit < 10, 0 < digit → unit '1' ≤ digit.digitChar.toNat ∧ digit.digitChar.toNat ≤ unit '9' := by decide
        exact cases value small positive
    · obtain ⟨char, rest, same, bounds⟩ := ih (value / 10) (by omega) (by omega)
      refine ⟨char, rest ++ [(value % 10).digitChar.toNat], ?_, bounds⟩
      rw [decimal_eq] at same ⊢
      rw [Nat.toDigits_of_base_le (by decide) (by omega), List.map_append, same]
      rfl

theorem scanInteger_decimal {ε : Type} (value : Nat) : scanInteger (ε := ε) (decimal value) = .ok (decimal value, []) := by
  by_cases zero : value = 0
  · rw [zero, show decimal 0 = [unit '0'] by decide]
    rfl
  · obtain ⟨char, rest, same, low, high⟩ := decimal_head value (Nat.pos_of_ne_zero zero)
    have digits : ∀ other ∈ decimal value, isDigit other = true := fun _ => isDigit_decimal
    have none : unit '0' < unit '1' := by decide
    rw [same] at digits ⊢
    rw [scanInteger, if_neg (by omega), if_pos ⟨low, high⟩, List.takeWhile_eq_self_iff.mpr digits, List.dropWhile_eq_nil_iff.mpr digits]

theorem decimal_sign (value : Nat) : scanSign (decimal value) = ([], decimal value) := by
  cases same : decimal value with
  | nil => rfl
  | cons char rest =>
    have digit : isDigit char = true := isDigit_decimal (by rw [same]; exact List.mem_cons_self)
    refine if_neg ?_
    rintro rfl
    exact absurd digit (by decide)

theorem numeral_decimal (value : Nat) : Numeral true (decimal value) := by
  intro ε
  rw [scanNumber, decimal_sign]
  simp only [scanInteger_decimal, bind, Except.bind]
  simp [scanFraction, scanExponent, pure, Except.pure]

theorem scanSign_negative (rest : Text) : scanSign (unit '-' :: rest) = ([unit '-'], rest) := by
  rw [scanSign, if_pos rfl]

theorem numeral_negative (value : Nat) : Numeral true (unit '-' :: decimal value) := by
  intro ε
  rw [scanNumber, scanSign_negative]
  simp only [scanInteger_decimal, bind, Except.bind]
  simp [scanFraction, scanExponent, pure, Except.pure]

theorem bigInt_decimal (value : Nat) : bigInt (decimal value) = value := by
  rw [bigInt, decimal_sign, digitsValue_decimal]
  rfl

theorem bigInt_negative (value : Nat) : bigInt (unit '-' :: decimal value) = -value := by
  rw [bigInt, scanSign_negative, digitsValue_decimal]
  rfl

/-! Numbers that are integers, each with its own text. A fraction is not read. -/

inductive Whole
  | integer (value : Int)
  | negativeZero
  | infinite
  deriving DecidableEq, Repr

namespace Whole

def toInt : Whole → Option Int
  | .integer value => some value
  | .negativeZero => some 0
  | .infinite => none

def integerText (value : Int) : Text := if value < 0 then unit '-' :: decimal value.natAbs else decimal value.natAbs

def toText : Whole → Text
  | .integer value => integerText value
  | .negativeZero => units "0"
  | .infinite => units "Infinity"

def power : Text → Option Nat
  | [] => some 1
  | char :: rest =>
    if (char = unit 'e' ∨ char = unit 'E') ∧ (scanExponentSign rest).1 ≠ [unit '-'] then
      some (10 ^ digitsValue (scanExponentSign rest).2)
    else none

def ofText (literal : Text) : Whole :=
  let (sign, rest) := scanSign literal
  match power (rest.dropWhile isDigit) with
  | some factor =>
    let value := digitsValue (rest.takeWhile isDigit) * factor
    if sign.isEmpty then .integer value else if value = 0 then .negativeZero else .integer (-value)
  | none => .infinite

theorem numeral (value : Whole) (finite : value.toInt.isSome) : Numeral true value.toText := by
  cases value with
  | integer value =>
    change Numeral true (integerText value)
    unfold integerText
    split
    · exact numeral_negative _
    · exact numeral_decimal _
  | negativeZero => exact numeral_decimal 0
  | infinite => cases finite

theorem takeWhile_decimal (value : Nat) : (decimal value).takeWhile isDigit = decimal value :=
  List.takeWhile_eq_self_iff.mpr fun _ => isDigit_decimal

theorem dropWhile_decimal (value : Nat) : (decimal value).dropWhile isDigit = [] := List.dropWhile_eq_nil_iff.mpr fun _ => isDigit_decimal

theorem ofText_integerText (value : Int) : ofText (integerText value) = .integer value := by
  unfold integerText ofText
  by_cases negative : value < 0
  · rw [if_pos negative, scanSign_negative]
    simp only [dropWhile_decimal, takeWhile_decimal, digitsValue_decimal, power, Nat.mul_one]
    rw [if_neg (by simp), if_neg (by omega)]
    exact congrArg integer (by omega)
  · rw [if_neg negative, decimal_sign]
    simp only [dropWhile_decimal, takeWhile_decimal, digitsValue_decimal, power, Nat.mul_one]
    rw [if_pos (by rfl)]
    exact congrArg integer (by omega)

theorem bigInt_integerText (value : Int) : bigInt (integerText value) = value := by
  unfold integerText
  split
  · rw [bigInt_negative]
    omega
  · rw [bigInt_decimal]
    omega

def numbers : Numbers Whole where
  zero := .integer 0
  negativeZero := .negativeZero
  isFinite value := value.toInt.isSome
  toInt := toInt
  ofNat value := .integer value
  toText := toText
  ofText := ofText
  zero_ne := nofun
  finite_zero := rfl
  text_zero := by decide
  text_negativeZero := rfl
  toInt_zero := rfl
  toInt_negativeZero := rfl
  numeral value finite := ⟨true, numeral value finite⟩
  ofText_toText value finite other := by
    cases value with
    | integer value => exact ofText_integerText value
    | negativeZero => exact absurd rfl other
    | infinite => cases finite
  toInt_numeral value finite _ := by
    cases value with
    | integer value => exact congrArg some (bigInt_integerText value).symm
    | negativeZero => decide
    | infinite => cases finite
  finite_ofNat _ _ := rfl
  toInt_ofNat _ _ := rfl
  eq_ofNat number value _ _ same := by
    cases number with
    | integer other => exact .inl (congrArg integer (Option.some.inj same))
    | negativeZero => exact .inr rfl
    | infinite => cases same

end Whole

end AgentSaas.JsonNumbers
