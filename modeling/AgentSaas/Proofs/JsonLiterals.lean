import AgentSaas.JsonGrammar
import AgentSaas.JsonReader
import AgentSaas.Outcomes

/-! The reader takes a number literal where the grammar spells one, and nothing of what ends it. -/

namespace AgentSaas.Proofs.JsonLiterals
open JsonReader JsonValues JsonGrammar
open ToolCallRepair (Text unit units)

variable {ε : Type} {text found left rest : Text}

def Ends (rest : Text) : Prop :=
  ∀ char ∈ rest.head?, isDigit char = false ∧ char ≠ unit '.' ∧ char ≠ unit 'e' ∧ char ≠ unit 'E'

theorem ends_cons {char : Nat} (digit : isDigit char = false) (point : char ≠ unit '.') (small : char ≠ unit 'e')
    (great : char ≠ unit 'E') : Ends (char :: rest) := by
  rintro _ ⟨⟩
  exact ⟨digit, point, small, great⟩

@[simp] theorem isDigit_iff {char : Nat} : isDigit char = true ↔ Digit char := by
  simp [isDigit, Digit]

/-- What a number is followed by, as far as its digits go. -/
def Apart (rest : Text) : Prop := ∀ char ∈ rest.head?, ¬ Digit char

theorem scanDigits_spelled {fault : Fault ε} (digits : Digits text) (apart : Apart rest) :
    scanDigits fault (text ++ rest) = .ok (text, rest) := by
  obtain ⟨filled, each⟩ := digits
  have each : ∀ char ∈ text, isDigit char = true := fun char inside => isDigit_iff.mpr (each char inside)
  have first : (text ++ rest).head?.any isDigit = true := by
    cases text with
    | nil => exact absurd rfl filled
    | cons char text => exact each char List.mem_cons_self
  have stops : rest.takeWhile isDigit = [] ∧ rest.dropWhile isDigit = rest := by
    cases rest with
    | nil => exact ⟨rfl, rfl⟩
    | cons char rest =>
      have other : ¬ isDigit char = true := fun digit => apart char rfl (isDigit_iff.mp digit)
      exact ⟨List.takeWhile_cons_of_neg other, List.dropWhile_cons_of_neg other⟩
  rw [scanDigits, if_pos first, List.takeWhile_append_of_pos each, List.dropWhile_append_of_pos each, stops.1, stops.2, List.append_nil]

theorem digits_sound {first : Nat} {later : Text} (digit : Digit first) (taken : (first :: later).takeWhile isDigit = found)
    (dropped : (first :: later).dropWhile isDigit = left) : first :: later = found ++ left ∧ ∃ more, found = first :: more ∧ ∀ char ∈ more, Digit char := by
  subst taken dropped
  refine ⟨List.takeWhile_append_dropWhile.symm, later.takeWhile isDigit, List.takeWhile_cons_of_pos (isDigit_iff.mpr digit), fun char inside => ?_⟩
  exact isDigit_iff.mp (List.mem_takeWhile_imp inside)

theorem scanDigits_sound {fault : Fault ε} (scanned : scanDigits fault text = .ok (found, left)) : text = found ++ left ∧ Digits found := by
  unfold scanDigits at scanned
  split at scanned
  next digit =>
    cases text with
    | nil => cases digit
    | cons first later =>
      obtain ⟨taken, dropped⟩ := Prod.mk.inj (Except.ok.inj scanned)
      have own : Digit first := isDigit_iff.mp digit
      obtain ⟨same, more, rfl, each⟩ := digits_sound own taken dropped
      exact ⟨same, List.cons_ne_nil _ _, List.forall_mem_cons.mpr ⟨own, each⟩⟩
  next => cases scanned

theorem scanInteger_spelled (integer : Integer text) (apart : Apart rest) : scanInteger (ε := ε) (text ++ rest) = .ok (text, rest) := by
  cases integer with
  | zero => rfl
  | @digits first more low high each =>
    have bounds : unit '0' < unit '1' := by decide
    have own : Digit first := ⟨by omega, high⟩
    have all : scanDigits (.number : Fault ε) (first :: more ++ rest) = .ok (first :: more, rest) :=
      scanDigits_spelled ⟨List.cons_ne_nil _ _, List.forall_mem_cons.mpr ⟨own, each⟩⟩ apart
    have digit : (first :: more ++ rest).head?.any isDigit = true := isDigit_iff.mpr own
    rw [scanDigits, if_pos digit] at all
    rw [List.cons_append, scanInteger, if_neg (by omega), if_pos ⟨low, high⟩]
    exact all

theorem scanInteger_sound (scanned : scanInteger (ε := ε) text = .ok (found, left)) : text = found ++ left ∧ Integer found := by
  unfold scanInteger at scanned
  split at scanned
  next first later =>
    split at scanned
    next zero =>
      cases scanned
      subst zero
      exact ⟨rfl, .zero⟩
    split at scanned
    next digit =>
      have bounds : unit '0' < unit '1' := by decide
      obtain ⟨taken, dropped⟩ := Prod.mk.inj (Except.ok.inj scanned)
      obtain ⟨same, more, rfl, each⟩ := digits_sound ⟨by omega, digit.2⟩ taken dropped
      exact ⟨same, .digits digit.1 digit.2 each⟩
    next => cases scanned
  next => cases scanned

theorem scanFraction_spelled (fraction : Fraction text) (apart : Apart rest) (point : rest.head? ≠ some (unit '.')) :
    scanFraction (ε := ε) (text ++ rest) = .ok (text, rest) := by
  cases fraction with
  | absent =>
    cases rest with
    | nil => rfl
    | cons char rest => exact if_neg fun same => point (congrArg some same)
  | point digits =>
    rw [List.cons_append, scanFraction, if_pos rfl, scanDigits_spelled digits apart]
    rfl

theorem scanFraction_sound (scanned : scanFraction (ε := ε) text = .ok (found, left)) : text = found ++ left ∧ Fraction found := by
  unfold scanFraction at scanned
  split at scanned
  next char later =>
    split at scanned
    next point =>
      subst point
      cases digits : scanDigits (.fraction : Fault ε) later with
      | error =>
        rw [digits] at scanned
        cases scanned
      | ok pair =>
        rw [digits] at scanned
        cases scanned
        obtain ⟨rfl, some⟩ := scanDigits_sound digits
        exact ⟨rfl, .point some⟩
    next =>
      cases scanned
      exact ⟨rfl, .absent⟩
  next =>
    cases scanned
    exact ⟨rfl, .absent⟩

theorem scanExponentSign_spelled {sign digits : Text} (signed : sign = [] ∨ sign = [unit '+'] ∨ sign = [unit '-']) (some : Digits digits) :
    scanExponentSign (sign ++ (digits ++ rest)) = (sign, digits ++ rest) := by
  rcases signed with rfl | rfl | rfl
  · cases digits with
    | nil => exact absurd rfl some.1
    | cons first later =>
      have own := some.2 first List.mem_cons_self
      have bounds : unit '+' < unit '0' ∧ unit '-' < unit '0' := by decide
      unfold Digit at own
      exact if_neg (by omega)
  · rfl
  · rfl

theorem scanExponent_spelled (exponent : Exponent text) (apart : Apart rest)
    (letter : ∀ char ∈ rest.head?, ¬ (char = unit 'e' ∨ char = unit 'E')) : scanExponent (ε := ε) (text ++ rest) = .ok (text, rest) := by
  cases exponent with
  | absent =>
    cases rest with
    | nil => rfl
    | cons char rest => exact if_neg (letter char rfl)
  | power marked signed digits =>
    rw [List.cons_append, List.cons_append, List.append_assoc, scanExponent, if_pos marked]
    simp only [scanExponentSign_spelled signed digits, scanDigits_spelled digits apart]
    rfl

theorem scanExponentSign_sound (text : Text) : text = (scanExponentSign text).1 ++ (scanExponentSign text).2 ∧
    ((scanExponentSign text).1 = [] ∨ (scanExponentSign text).1 = [unit '+'] ∨ (scanExponentSign text).1 = [unit '-']) := by
  unfold scanExponentSign
  split
  · split
    next sign => exact ⟨rfl, .inr (sign.imp (congrArg ([·])) (congrArg ([·])))⟩
    next => exact ⟨rfl, .inl rfl⟩
  · exact ⟨rfl, .inl rfl⟩

theorem scanExponent_sound (scanned : scanExponent (ε := ε) text = .ok (found, left)) : text = found ++ left ∧ Exponent found := by
  unfold scanExponent at scanned
  split at scanned
  next char later =>
    split at scanned
    next letter =>
      obtain ⟨same, signed⟩ := scanExponentSign_sound later
      generalize scanExponentSign later = pair at same signed scanned
      obtain ⟨sign, remaining⟩ := pair
      dsimp only at same signed scanned
      subst same
      cases digits : scanDigits (.exponent : Fault ε) remaining with
      | error =>
        rw [digits] at scanned
        cases scanned
      | ok pair =>
        rw [digits] at scanned
        cases scanned
        obtain ⟨rfl, some⟩ := scanDigits_sound digits
        exact ⟨by simp, .power letter signed some⟩
    next =>
      cases scanned
      exact ⟨rfl, .absent⟩
  next =>
    cases scanned
    exact ⟨rfl, .absent⟩

theorem apart_of_ends (ends : Ends rest) : Apart rest := fun char inside digit => by
  have none := (ends char inside).1
  rw [isDigit_iff.mpr digit] at none
  cases none

theorem exponent_apart (exponent : Exponent text) (ends : Ends rest) : Apart (text ++ rest) ∧ (text ++ rest).head? ≠ some (unit '.') := by
  cases exponent with
  | absent => exact ⟨apart_of_ends ends, fun point => (ends _ point).2.1 rfl⟩
  | power marked _ _ =>
    have bounds : unit '9' < unit 'e' ∧ unit '9' < unit 'E' ∧ unit '.' < unit 'e' ∧ unit '.' < unit 'E' := by decide
    constructor
    · rintro _ ⟨⟩ digit
      unfold Digit at digit
      omega
    · intro point
      have same := Option.some.inj point
      omega

theorem fraction_apart (fraction : Fraction text) (apart : Apart rest) : Apart (text ++ rest) := by
  cases fraction with
  | absent => exact apart
  | point _ =>
    rintro _ ⟨⟩ digit
    exact absurd digit (by unfold Digit; decide)

theorem scanSign_spelled {sign integer : Text} (signed : sign = [] ∨ sign = [unit '-']) (whole : Integer integer) :
    scanSign (sign ++ (integer ++ rest)) = (sign, integer ++ rest) := by
  rcases signed with rfl | rfl
  · obtain ⟨char, more, rfl, digit⟩ := whole.head
    refine if_neg ?_
    rintro rfl
    exact absurd digit (by unfold Digit; decide)
  · rfl

theorem scanNumber_spelled {whole : Bool} (number : Number text whole) (ends : Ends rest) :
    scanNumber (ε := ε) (text ++ rest) = .ok ((text, whole), rest) := by
  cases number with
  | parts signed integer fraction exponent =>
    obtain ⟨apart, point⟩ := exponent_apart exponent ends
    have letter : ∀ char ∈ rest.head?, ¬ (char = unit 'e' ∨ char = unit 'E') := fun char inside =>
      not_or.mpr (ends char inside).2.2
    simp only [List.append_assoc]
    rw [scanNumber, scanSign_spelled signed integer]
    simp only [scanInteger_spelled integer (fraction_apart fraction apart), scanFraction_spelled fraction apart point,
      scanExponent_spelled exponent (apart_of_ends ends) letter, bind, Except.bind, pure, Except.pure, List.append_assoc]

theorem scanSign_sound (text : Text) :
    text = (scanSign text).1 ++ (scanSign text).2 ∧ ((scanSign text).1 = [] ∨ (scanSign text).1 = [unit '-']) := by
  unfold scanSign
  split
  · split
    next sign => exact ⟨rfl, .inr (congrArg ([·]) sign)⟩
    next => exact ⟨rfl, .inl rfl⟩
  · exact ⟨rfl, .inl rfl⟩

theorem scanNumber_sound {whole : Bool} (scanned : scanNumber (ε := ε) text = .ok ((found, whole), left)) :
    text = found ++ left ∧ Number found whole := by
  obtain ⟨same, signed⟩ := scanSign_sound text
  unfold scanNumber at scanned
  generalize scanSign text = pair at same signed scanned
  obtain ⟨sign, unsigned⟩ := pair
  dsimp only at same signed scanned
  subst same
  obtain ⟨⟨digits, first⟩, integer, scanned⟩ := Outcomes.of_ok_bind scanned
  obtain ⟨⟨fraction, second⟩, point, scanned⟩ := Outcomes.of_ok_bind scanned
  obtain ⟨⟨exponent, third⟩, letter, returned⟩ := Outcomes.of_ok_bind scanned
  clear scanned
  obtain ⟨rfl, whole⟩ := scanInteger_sound integer
  obtain ⟨rfl, part⟩ := scanFraction_sound point
  obtain ⟨rfl, power⟩ := scanExponent_sound letter
  cases returned
  exact ⟨by simp, .parts signed whole part power⟩

theorem scanNumber_append {whole : Bool} (ends : Ends rest) (scanned : scanNumber (ε := ε) text = .ok ((found, whole), [])) :
    scanNumber (ε := ε) (text ++ rest) = .ok ((found, whole), rest) := by
  obtain ⟨same, number⟩ := scanNumber_sound scanned
  rw [same, List.append_nil]
  exact scanNumber_spelled number ends

theorem scanNumber_head {whole : Bool} (scanned : scanNumber (ε := ε) text = .ok ((found, whole), left)) :
    ∃ char rest, text = char :: rest ∧ (char = unit '-' ∨ isDigit char = true) := by
  obtain ⟨same, number⟩ := scanNumber_sound scanned
  cases number with
  | parts signed integer fraction exponent =>
    obtain ⟨first, later, rfl, digit⟩ := integer.head
    obtain rfl | rfl := signed
    · exact ⟨first, _, same, .inr (isDigit_iff.mpr digit)⟩
    · exact ⟨_, _, same, .inl rfl⟩

end AgentSaas.Proofs.JsonLiterals
