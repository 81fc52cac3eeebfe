import AgentSaas.JsonReader

/-! Bytes in the alphabet of URLs, six bits a unit. -/

namespace AgentSaas.Base64Url
open ToolCallRepair (Text unit units)

def digit (bits : Nat) : Nat :=
  if bits < 26 then unit 'A' + bits
  else if bits < 52 then unit 'a' + (bits - 26)
  else if bits < 62 then unit '0' + (bits - 52)
  else if bits = 62 then unit '-'
  else unit '_'

/-- `buffer.toString('base64url')` -/
def encode : List Nat → Text
  | first :: second :: third :: rest =>
    digit (first / 4) :: digit (first % 4 * 16 + second / 16) :: digit (second % 16 * 4 + third / 64) :: digit (third % 64) :: encode rest
  | [first, second] => [digit (first / 4), digit (first % 4 * 16 + second / 16), digit (second % 16 * 4)]
  | [first] => [digit (first / 4), digit (first % 4 * 16)]
  | [] => []

/-- The two units of the other alphabet are known as well. -/
def valueOf (char : Nat) : Option Nat :=
  if unit 'A' ≤ char ∧ char ≤ unit 'Z' then some (char - unit 'A')
  else if unit 'a' ≤ char ∧ char ≤ unit 'z' then some (char - unit 'a' + 26)
  else if unit '0' ≤ char ∧ char ≤ unit '9' then some (char - unit '0' + 52)
  else if char = unit '-' ∨ char = unit '+' then some 62
  else if char = unit '_' ∨ char = unit '/' then some 63
  else none

def join : List Nat → List Nat
  | first :: second :: third :: fourth :: rest =>
    (first * 4 + second / 16) :: (second % 16 * 16 + third / 4) :: (third % 4 * 64 + fourth) :: join rest
  | [first, second, third] => [first * 4 + second / 16, second % 16 * 16 + third / 4]
  | [first, second] => [first * 4 + second / 16]
  | _ => []

/-- `Buffer.from(text, 'base64url')`: what is in neither alphabet is passed over. -/
def decode (text : Text) : List Nat := join (text.filterMap valueOf)

theorem valueOf_digit : ∀ bits < 64, valueOf (digit bits) = some bits := by decide

theorem decode_encode {bytes : List Nat} (octets : ∀ byte ∈ bytes, byte < 256) : decode (encode bytes) = bytes := by
  unfold decode
  fun_induction encode bytes with
  | case1 first second third rest ih =>
    obtain ⟨one, octets⟩ := List.forall_mem_cons.mp octets
    obtain ⟨two, octets⟩ := List.forall_mem_cons.mp octets
    obtain ⟨three, octets⟩ := List.forall_mem_cons.mp octets
    rw [List.filterMap_cons_some (valueOf_digit _ (by omega)), List.filterMap_cons_some (valueOf_digit _ (by omega)),
      List.filterMap_cons_some (valueOf_digit _ (by omega)), List.filterMap_cons_some (valueOf_digit _ (by omega)), join, ih octets]
    simp only [List.cons.injEq, and_true]
    omega
  | case2 first second =>
    obtain ⟨one, octets⟩ := List.forall_mem_cons.mp octets
    obtain ⟨two, _⟩ := List.forall_mem_cons.mp octets
    rw [List.filterMap_cons_some (valueOf_digit _ (by omega)), List.filterMap_cons_some (valueOf_digit _ (by omega)),
      List.filterMap_cons_some (valueOf_digit _ (by omega)), List.filterMap_nil, join]
    simp only [List.cons.injEq, and_true]
    omega
  | case3 first =>
    obtain ⟨one, _⟩ := List.forall_mem_cons.mp octets
    rw [List.filterMap_cons_some (valueOf_digit _ (by omega)), List.filterMap_cons_some (valueOf_digit _ (by omega)), List.filterMap_nil, join]
    simp only [List.cons.injEq, and_true]
    omega
  | case4 => rfl

theorem digit_plain : ∀ bits < 64, digit bits < 0x80 ∧ digit bits ≠ unit '.' ∧ 0x20 ≤ digit bits ∧ digit bits ≠ unit '"' ∧
    digit bits ≠ unit '\\' := by decide

theorem mem_encode {bytes : List Nat} (octets : ∀ byte ∈ bytes, byte < 256) : ∀ char ∈ encode bytes, ∃ bits < 64, char = digit bits := by
  fun_induction encode bytes with
  | case1 first second third rest ih =>
    obtain ⟨one, octets⟩ := List.forall_mem_cons.mp octets
    obtain ⟨two, octets⟩ := List.forall_mem_cons.mp octets
    obtain ⟨three, octets⟩ := List.forall_mem_cons.mp octets
    simp only [List.forall_mem_cons]
    exact ⟨⟨_, by omega, rfl⟩, ⟨_, by omega, rfl⟩, ⟨_, by omega, rfl⟩, ⟨_, by omega, rfl⟩, ih octets⟩
  | case2 first second =>
    obtain ⟨one, octets⟩ := List.forall_mem_cons.mp octets
    obtain ⟨two, _⟩ := List.forall_mem_cons.mp octets
    simp only [List.forall_mem_cons, List.not_mem_nil, false_implies, implies_true, and_true]
    exact ⟨⟨_, by omega, rfl⟩, ⟨_, by omega, rfl⟩, ⟨_, by omega, rfl⟩⟩
  | case3 first =>
    obtain ⟨one, _⟩ := List.forall_mem_cons.mp octets
    simp only [List.forall_mem_cons, List.not_mem_nil, false_implies, implies_true, and_true]
    exact ⟨⟨_, by omega, rfl⟩, ⟨_, by omega, rfl⟩⟩
  | case4 => exact fun char member => absurd member List.not_mem_nil

theorem length_encode (bytes : List Nat) : (encode bytes).length = (bytes.length * 4 + 2) / 3 := by
  fun_induction encode bytes with
  | case1 first second third rest ih =>
    simp only [List.length_cons, ih]
    omega
  | case2 | case3 => simp
  | case4 => rfl

end AgentSaas.Base64Url
