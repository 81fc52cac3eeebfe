import Mathlib.Data.List.Basic

/-! The code points of a text in UTF-16. A surrogate that is not half of a pair is one by itself. -/

namespace AgentSaas.CodePoints

def isHigh (unit : Nat) : Bool := 0xD800 ≤ unit && unit ≤ 0xDBFF

def isLow (unit : Nat) : Bool := 0xDC00 ≤ unit && unit ≤ 0xDFFF

/-- `Array.from(text)` -/
def codePoints : List Nat → List (List Nat)
  | [] => []
  | [unit] => [[unit]]
  | first :: second :: rest =>
    if isHigh first && isLow second then [first, second] :: codePoints rest else [first] :: codePoints (second :: rest)

def Pairs (first : Nat) (rest : List Nat) : Prop := isHigh first = true ∧ ∃ second ∈ rest.head?, isLow second = true

theorem codePoints_pair {first second : Nat} {rest : List Nat} (high : isHigh first = true) (low : isLow second = true) :
    codePoints (first :: second :: rest) = [first, second] :: codePoints rest := by
  simp [codePoints, high, low]

theorem codePoints_single {first : Nat} {rest : List Nat} (apart : ¬ Pairs first rest) :
    codePoints (first :: rest) = [first] :: codePoints rest := by
  cases rest with
  | nil => rfl
  | cons second later =>
    have lone : (isHigh first && isLow second) = false := by
      by_contra pair
      rw [Bool.not_eq_false, Bool.and_eq_true] at pair
      exact apart ⟨pair.1, second, rfl, pair.2⟩
    simp [codePoints, lone]

theorem codePoints_induction {motive : List Nat → Prop} (nil : motive [])
    (pair : ∀ first second rest, isHigh first = true → isLow second = true → motive rest → motive (first :: second :: rest))
    (single : ∀ first rest, ¬ Pairs first rest → motive rest → motive (first :: rest)) (text : List Nat) : motive text := by
  induction length : text.length using Nat.strongRecOn generalizing text with
  | ind size ih =>
    cases text with
    | nil => exact nil
    | cons first rest =>
      by_cases here : Pairs first rest
      · obtain ⟨high, second, next, low⟩ := here
        obtain ⟨later, rfl⟩ := List.head?_eq_some_iff.mp next
        exact pair first second later high low (ih later.length (by rw [← length, List.length_cons, List.length_cons]; omega) later rfl)
      · exact single first rest here (ih rest.length (by rw [← length, List.length_cons]; omega) rest rfl)

@[simp] theorem flatten_codePoints (text : List Nat) : (codePoints text).flatten = text := by
  induction text using codePoints_induction with
  | nil => rfl
  | pair first second rest high low ih => simp [codePoints_pair high low, ih]
  | single first rest apart ih => simp [codePoints_single apart, ih]

theorem length_codePoints_le (text : List Nat) : (codePoints text).length ≤ text.length := by
  induction text using codePoints_induction with
  | nil => exact Nat.le_refl _
  | pair first second rest high low ih =>
    rw [codePoints_pair high low]
    simp only [List.length_cons]
    omega
  | single first rest apart ih =>
    rw [codePoints_single apart]
    simp only [List.length_cons]
    omega

/-- No pair has one half in each text. -/
def Clean (front back : List Nat) : Prop :=
  ∀ high ∈ front.getLast?, ∀ low ∈ back.head?, isHigh high = true → isLow low = false

theorem Clean.tail {first : Nat} {front back : List Nat} (clean : Clean (first :: front) back) : Clean front back := by
  intro high last low next surrogate
  cases front with
  | nil => cases last
  | cons head rest => exact clean high (by simpa [List.getLast?_cons_cons] using last) low next surrogate

theorem codePoints_append {front back : List Nat} (clean : Clean front back) :
    codePoints (front ++ back) = codePoints front ++ codePoints back := by
  induction front using codePoints_induction with
  | nil => rfl
  | pair first second rest high low ih =>
    rw [List.cons_append, List.cons_append, codePoints_pair high low, codePoints_pair high low, ih clean.tail.tail]
    rfl
  | single first rest apart ih =>
    have still : ¬ Pairs first (rest ++ back) := by
      rintro ⟨high, second, next, low⟩
      cases rest with
      | nil =>
        have clear := clean first rfl second next high
        rw [clear] at low
        cases low
      | cons head tail => exact apart ⟨high, second, next, low⟩
    rw [List.cons_append, codePoints_single still, codePoints_single apart, ih clean.tail]
    rfl

theorem codePoints_split {text : List Nat} {front back : List (List Nat)} (parts : codePoints text = front ++ back) :
    codePoints front.flatten = front ∧ codePoints back.flatten = back := by
  induction text using codePoints_induction generalizing front with
  | nil =>
    obtain ⟨rfl, rfl⟩ := List.append_eq_nil_iff.mp parts.symm
    exact ⟨rfl, rfl⟩
  | pair first second rest high low ih =>
    cases front with
    | nil =>
      refine ⟨rfl, ?_⟩
      rw [List.nil_append] at parts
      rw [← parts, flatten_codePoints]
    | cons point front =>
      rw [codePoints_pair high low, List.cons_append] at parts
      obtain ⟨rfl, others⟩ := List.cons.inj parts
      obtain ⟨own, later⟩ := ih others
      refine ⟨?_, later⟩
      rw [List.flatten_cons, List.cons_append, List.cons_append, List.nil_append, codePoints_pair high low, own]
  | single first rest apart ih =>
    cases front with
    | nil =>
      refine ⟨rfl, ?_⟩
      rw [List.nil_append] at parts
      rw [← parts, flatten_codePoints]
    | cons point front =>
      rw [codePoints_single apart, List.cons_append] at parts
      obtain ⟨rfl, others⟩ := List.cons.inj parts
      obtain ⟨own, later⟩ := ih others
      refine ⟨?_, later⟩
      have whole : front.flatten ++ back.flatten = rest := by
        rw [← List.flatten_append, ← others, flatten_codePoints]
      have still : ¬ Pairs first front.flatten := by
        rintro ⟨high, second, next, low⟩
        exact apart ⟨high, second, by rw [← whole, List.head?_append, next]; rfl, low⟩
      rw [List.flatten_cons, List.cons_append, List.nil_append, codePoints_single still, own]

theorem codePoints_plain {text : List Nat} (plain : ∀ unit ∈ text, isHigh unit = false) :
    codePoints text = text.map ([·]) := by
  induction text with
  | nil => rfl
  | cons first rest ih =>
    have apart : ¬ Pairs first rest := fun pair =>
      absurd pair.1 (by simp [plain first (List.mem_cons_self ..)])
    rw [codePoints_single apart, ih fun unit member => plain unit (List.mem_cons_of_mem _ member)]
    rfl

def unitsOf (code : Nat) : List Nat :=
  if code < 0x10000 then [code] else [0xD800 + (code - 0x10000) / 0x400, 0xDC00 + (code - 0x10000) % 0x400]

end AgentSaas.CodePoints
