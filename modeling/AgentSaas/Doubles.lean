import Mathlib.Algebra.Order.Ring.Int
import Mathlib.Data.Int.ConditionallyCompleteOrder

/-! Whole numbers kept in doubles, and the operators that read them as words of 32 bits. -/

namespace AgentSaas.Doubles

/-- The whole number of a double that is nearest, with an even fraction of two that are equally near. -/
def nearest (value : Int) : Int :=
  let size := value.natAbs
  if size ≤ 9007199254740992 then value
  else
    let step := 2 ^ (size.log2 - 52)
    let above := size % step * 2
    let kept := if step < above ∨ above = step ∧ size / step % 2 = 1 then size / step + 1 else size / step
    value.sign * (kept * step : Nat)

/-- `first + second` -/
def add (first second : Int) : Int := nearest (first + second)

/-- `first * second` -/
def multiply (first second : Int) : Int := nearest (first * second)

def word (value : Int) : BitVec 32 := BitVec.ofInt 32 value

/-- `first & second` -/
def both (first second : Int) : Int := (word first &&& word second).toInt

/-- `first | second` -/
def either (first second : Int) : Int := (word first ||| word second).toInt

/-- `first ^ second` -/
def exclusive (first second : Int) : Int := (word first ^^^ word second).toInt

/-- `~value` -/
def complement (value : Int) : Int := (~~~word value).toInt

/-- `value << bits` -/
def shiftLeft (value : Int) (bits : Nat) : Int := (word value <<< (bits % 32)).toInt

/-- `value >> bits` -/
def shiftRight (value : Int) (bits : Nat) : Int := ((word value).sshiftRight (bits % 32)).toInt

/-- `value >>> bits` -/
def shiftRightZero (value : Int) (bits : Nat) : Int := (word value >>> (bits % 32)).toNat

def Signed (value : Int) : Prop := -2147483648 ≤ value ∧ value < 2147483648

theorem nearest_exact {value : Int} (low : -9007199254740992 ≤ value) (high : value ≤ 9007199254740992) :
    nearest value = value := by
  have small : value.natAbs ≤ 9007199254740992 := by omega
  simp only [nearest]
  rw [if_pos small]

theorem signed_toInt (value : BitVec 32) : Signed value.toInt :=
  ⟨BitVec.le_toInt value, BitVec.toInt_lt⟩

theorem word_add {first second : Int} (low : -9007199254740992 ≤ first + second) (high : first + second ≤ 9007199254740992) :
    word (add first second) = word first + word second := by
  rw [add, nearest_exact low high]
  exact BitVec.ofInt_add first second

@[simp] theorem word_toInt (value : BitVec 32) : word value.toInt = value := BitVec.ofInt_toInt

@[simp] theorem word_toNat (value : BitVec 32) : word value.toNat = value := by
  rw [word, BitVec.ofInt_natCast, BitVec.ofNat_toNat, BitVec.setWidth_eq]

@[simp] theorem word_both (first second : Int) : word (both first second) = word first &&& word second := word_toInt _

@[simp] theorem word_either (first second : Int) : word (either first second) = word first ||| word second := word_toInt _

@[simp] theorem word_exclusive (first second : Int) : word (exclusive first second) = word first ^^^ word second := word_toInt _

@[simp] theorem word_complement (value : Int) : word (complement value) = ~~~word value := word_toInt _

@[simp] theorem word_shiftLeft (value : Int) (bits : Nat) : word (shiftLeft value bits) = word value <<< (bits % 32) := word_toInt _

@[simp] theorem word_shiftRightZero (value : Int) (bits : Nat) : word (shiftRightZero value bits) = word value >>> (bits % 32) :=
  word_toNat _

theorem word_truncated (value : Int) : word (either value 0) = word value := by
  rw [word_either]
  exact BitVec.or_zero

theorem shiftRight_natCast {value : Nat} (bounded : value < 2147483648) (bits : Nat) :
    shiftRight value bits = (value >>> (bits % 32) : Nat) := by
  have kept : (word value).toInt = value := by
    rw [word, BitVec.toInt_ofInt]
    exact Int.bmod_eq_of_le (by omega) (by omega)
  rw [shiftRight, BitVec.toInt_sshiftRight, kept]
  rfl

end AgentSaas.Doubles
