import AgentSaas.CacheSchema.Digest
import Mathlib.Data.List.DropRight

/-! UTF-8 read back. What cannot be part of a code point is read as U+FFFD. -/

namespace AgentSaas.Utf8
open CodePoints CacheSchema
open ToolCallRepair (Text unit units)

/-- How many bytes the code point still needs, what it is so far, and between which bounds its next
byte is. -/
structure Decoder where
  needed : Nat
  code : Nat
  lower : Nat
  upper : Nat
  deriving DecidableEq, Repr

def ready : Decoder := ⟨0, 0, 0x80, 0xBF⟩

/-- The first byte of a code point. -/
def start (byte : Nat) : Decoder × Text :=
  if byte < 0x80 then (ready, [byte])
  else if 0xC2 ≤ byte ∧ byte ≤ 0xDF then (⟨1, byte - 0xC0, 0x80, 0xBF⟩, [])
  else if 0xE0 ≤ byte ∧ byte ≤ 0xEF then
    (⟨2, byte - 0xE0, if byte = 0xE0 then 0xA0 else 0x80, if byte = 0xED then 0x9F else 0xBF⟩, [])
  else if 0xF0 ≤ byte ∧ byte ≤ 0xF4 then
    (⟨3, byte - 0xF0, if byte = 0xF0 then 0x90 else 0x80, if byte = 0xF4 then 0x8F else 0xBF⟩, [])
  else (ready, [0xFFFD])

def step (decoder : Decoder) (byte : Nat) : Decoder × Text :=
  if decoder.needed = 0 then start byte
  else if decoder.lower ≤ byte ∧ byte ≤ decoder.upper then
    let code := decoder.code * 0x40 + (byte - 0x80)
    if decoder.needed = 1 then (ready, unitsOf code) else (⟨decoder.needed - 1, code, 0x80, 0xBF⟩, [])
  else ((start byte).1, 0xFFFD :: (start byte).2)

def decodeFrom (decoder : Decoder) : List Nat → Text
  | [] => if decoder.needed = 0 then [] else [0xFFFD]
  | byte :: rest => (step decoder byte).2 ++ decodeFrom (step decoder byte).1 rest

/-- `buffer.toString('utf-8')` -/
def decode (bytes : List Nat) : Text := decodeFrom ready bytes

/-! Texts that are what they are encoded from. -/

inductive Scalar : List Nat → Prop
  | plain {char} (bounded : char < 0x10000) (high : isHigh char = false) (low : isLow char = false) : Scalar [char]
  | pair {first second} (high : isHigh first = true) (low : isLow second = true) : Scalar [first, second]

/-- `text.isWellFormed()` -/
def WellFormed (text : Text) : Prop := ∀ point ∈ codePoints text, Scalar point

theorem isHigh_iff {char : Nat} : isHigh char = true ↔ 0xD800 ≤ char ∧ char ≤ 0xDBFF := by
  simp [isHigh]

theorem isLow_iff {char : Nat} : isLow char = true ↔ 0xDC00 ≤ char ∧ char ≤ 0xDFFF := by
  simp [isLow]

/-! A code point is read back from its bytes. -/

theorem start_plain {byte : Nat} (small : byte < 0x80) : start byte = (ready, [byte]) := if_pos small

theorem decodeFrom_ready (byte : Nat) (rest : List Nat) :
    decodeFrom ready (byte :: rest) = (start byte).2 ++ decodeFrom (start byte).1 rest := rfl

theorem decodeFrom_next {needed code lower upper byte : Nat} (rest : List Nat) (least : lower ≤ byte) (most : byte ≤ upper) :
    decodeFrom ⟨needed + 2, code, lower, upper⟩ (byte :: rest) =
      decodeFrom ⟨needed + 1, code * 0x40 + (byte - 0x80), 0x80, 0xBF⟩ rest := by
  simp [decodeFrom, step, least, most]

theorem decodeFrom_last {code lower upper byte : Nat} (point : Nat) (rest : List Nat) (least : lower ≤ byte) (most : byte ≤ upper)
    (same : code * 0x40 + (byte - 0x80) = point) : decodeFrom ⟨1, code, lower, upper⟩ (byte :: rest) = unitsOf point ++ decodeFrom ready rest := by
  simp [decodeFrom, step, least, most, same]

theorem utf8Point_single (char : Nat) : utf8Point [char] =
    if char < 0x80 then [char]
    else if char < 0x800 then [0xC0 + char / 0x40, 0x80 + char % 0x40]
    else if isHigh char || isLow char then [0xEF, 0xBF, 0xBD]
    else [0xE0 + char / 0x1000, 0x80 + char / 0x40 % 0x40, 0x80 + char % 0x40] := rfl

theorem utf8Point_pair (high low : Nat) {point : Nat} (same : point = 0x10000 + (high - 0xD800) * 0x400 + (low - 0xDC00)) :
    utf8Point [high, low] = [0xF0 + point / 0x40000, 0x80 + point / 0x1000 % 0x40, 0x80 + point / 0x40 % 0x40, 0x80 + point % 0x40] := by
  rw [same]
  rfl

theorem decodeFrom_point {point : List Nat} (scalar : Scalar point) (rest : List Nat) :
    decodeFrom ready (utf8Point point ++ rest) = point ++ decodeFrom ready rest := by
  cases scalar with
  | @plain char bounded high low =>
    have surrogate : ¬ (isHigh char || isLow char) = true := by rw [high, low]; decide
    have apart : char < 0xD800 ∨ 0xE000 ≤ char := by
      simp only [isHigh, isLow, Bool.and_eq_false_iff, decide_eq_false_iff_not] at high low
      omega
    have plain : unitsOf char = [char] := if_pos bounded
    rw [utf8Point_single, if_neg surrogate]
    split
    next small => rw [List.singleton_append, decodeFrom_ready, start_plain small]
    split
    next large small =>
      rw [List.cons_append, List.singleton_append, decodeFrom_ready, start, if_neg (by omega), if_pos (by omega), List.nil_append,
        decodeFrom_last char _ (by omega) (by omega) (by omega), plain]
    next two three =>
      rw [List.cons_append, List.cons_append, List.singleton_append, decodeFrom_ready, start, if_neg (by omega), if_neg (by omega),
        if_pos (by omega), List.nil_append, decodeFrom_next _ (by split <;> omega) (by split <;> omega),
        decodeFrom_last char _ (by omega) (by omega) (by omega), plain]
  | @pair first second high low =>
    rw [isHigh_iff] at high
    rw [isLow_iff] at low
    obtain ⟨point, same⟩ : ∃ point, point = 0x10000 + (first - 0xD800) * 0x400 + (second - 0xDC00) := ⟨_, rfl⟩
    have whole : unitsOf point = [first, second] := by
      rw [unitsOf, if_neg (by omega)]
      simp only [List.cons.injEq, and_true]
      omega
    rw [utf8Point_pair first second same, List.cons_append, List.cons_append, List.cons_append, List.singleton_append, decodeFrom_ready, start,
      if_neg (by omega), if_neg (by omega), if_neg (by omega), if_pos (by omega), List.nil_append,
      decodeFrom_next _ (by split <;> omega) (by split <;> omega), decodeFrom_next _ (by omega) (by omega),
      decodeFrom_last point _ (by omega) (by omega) (by omega), whole]

theorem decode_points {points : List (List Nat)} (scalars : ∀ point ∈ points, Scalar point) :
    decode (points.flatMap utf8Point) = points.flatten := by
  induction points with
  | nil => rfl
  | cons point rest ih =>
    obtain ⟨first, others⟩ := List.forall_mem_cons.mp scalars
    rw [List.flatMap_cons, List.flatten_cons, ← ih others]
    exact decodeFrom_point first _

theorem decode_encode {text : Text} (formed : WellFormed text) : decode (encode text) = text := by
  rw [encode, decode_points formed, flatten_codePoints]

section Ascii

variable {text : Text}

theorem codePoints_ascii (ascii : ∀ char ∈ text, char < 0x80) : codePoints text = text.map ([·]) := by
  apply codePoints_plain
  intro char member
  have small := ascii char member
  simp only [isHigh, Bool.and_eq_false_iff, decide_eq_false_iff_not]
  omega

theorem wellFormed_ascii (ascii : ∀ char ∈ text, char < 0x80) : WellFormed text := by
  intro point member
  rw [codePoints_ascii ascii] at member
  obtain ⟨char, inside, rfl⟩ := List.mem_map.mp member
  have small := ascii char inside
  refine .plain (by omega) ?_ ?_
  all_goals
    simp only [isHigh, isLow, Bool.and_eq_false_iff, decide_eq_false_iff_not]
    omega

theorem encode_ascii (ascii : ∀ char ∈ text, char < 0x80) : encode text = text := by
  rw [encode, codePoints_ascii ascii, List.flatMap_map]
  refine (List.flatMap_congr fun char member => ?_).trans (List.flatMap_singleton' text)
  exact if_pos (ascii char member)

end Ascii

/-! Where a code point ends among the bytes. -/

/-- `(byte & 0xc0) === 0x80` -/
def isContinuation (byte : Nat) : Bool := byte &&& 0xC0 == 0x80

def width (first : Nat) : Nat := if first < 0x80 then 1 else if first < 0xE0 then 2 else if first < 0xF0 then 3 else 4

theorem isContinuation_tail : ∀ bits < 0x40, isContinuation (0x80 + bits) = true := by decide

theorem isContinuation_small : ∀ byte < 0x80, isContinuation byte = false := by decide

theorem isContinuation_large : ∀ bits < 0x40, isContinuation (0xC0 + bits) = false := by decide

/-- The first byte says how many there are, and only the others continue it. -/
structure Framed (bytes : List Nat) : Prop where
  framed : ∃ first rest, bytes = first :: rest ∧ isContinuation first = false ∧ (∀ byte ∈ rest, isContinuation byte = true) ∧
    bytes.length = width first

theorem Framed.intro {first : Nat} {rest : List Nat} (plain : isContinuation first = false) (others : ∀ byte ∈ rest, isContinuation byte = true)
    (whole : rest.length + 1 = width first) : Framed (first :: rest) :=
  ⟨first, rest, rfl, plain, others, whole⟩

theorem framed_point {point : List Nat} (scalar : Scalar point) : Framed (utf8Point point) := by
  have tail (bits : Nat) : isContinuation (0x80 + bits % 0x40) = true := isContinuation_tail _ (Nat.mod_lt _ (by decide))
  have large {byte : Nat} (least : 0xC0 ≤ byte) (most : byte < 0x100) : isContinuation byte = false := by
    obtain ⟨bits, rfl⟩ := Nat.exists_eq_add_of_le least
    exact isContinuation_large bits (by omega)
  cases scalar with
  | @plain char bounded high low =>
    have surrogate : ¬ (isHigh char || isLow char) = true := by rw [high, low]; decide
    rw [utf8Point_single, if_neg surrogate]
    split
    next small => exact .intro (isContinuation_small char small) (by simp) (by rw [width, if_pos small]; rfl)
    split
    next two =>
      refine .intro (large (by omega) (by omega)) (by simp [tail]) ?_
      rw [width, if_neg (by omega), if_pos (by omega)]
      rfl
    next three =>
      refine .intro (large (by omega) (by omega)) (by simp [tail]) ?_
      rw [width, if_neg (by omega), if_neg (by omega), if_pos (by omega)]
      rfl
  | @pair first second high low =>
    rw [isHigh_iff] at high
    rw [isLow_iff] at low
    obtain ⟨point, same⟩ : ∃ point, point = 0x10000 + (first - 0xD800) * 0x400 + (second - 0xDC00) := ⟨_, rfl⟩
    rw [utf8Point_pair first second same]
    refine .intro (large (by omega) (by omega)) (by simp [tail]) ?_
    rw [width, if_neg (by omega), if_neg (by omega), if_neg (by omega)]
    rfl

theorem Framed.length_le {bytes : List Nat} (framed : Framed bytes) : bytes.length ≤ 4 := by
  obtain ⟨first, rest, _, _, _, whole⟩ := framed.framed
  rw [whole, width]
  repeat' split
  all_goals omega

theorem Framed.front {front back : List Nat} (framed : Framed (front ++ back)) (some : front ≠ []) :
    ∃ first rest, front = first :: rest ∧ isContinuation first = false ∧ (∀ byte ∈ rest, isContinuation byte = true) ∧
      front.length + back.length = width first := by
  obtain ⟨first, rest, same, plain, others, whole⟩ := framed.framed
  cases front with
  | nil => exact absurd rfl some
  | cons head front =>
    rw [List.cons_append] at same
    obtain ⟨rfl, rfl⟩ := List.cons.inj same
    exact ⟨head, front, rfl, plain, fun byte member => others byte (List.mem_append_left _ member), by rw [← List.length_append, whole]⟩

theorem Framed.back {front back : List Nat} (framed : Framed (front ++ back)) (some : front ≠ []) :
    ∀ byte ∈ back, isContinuation byte = true := by
  obtain ⟨first, rest, same, plain, others, whole⟩ := framed.framed
  cases front with
  | nil => exact absurd rfl some
  | cons head front =>
    rw [List.cons_append] at same
    obtain ⟨rfl, rfl⟩ := List.cons.inj same
    exact fun byte member => others byte (List.mem_append_right _ member)

section Cuts

variable {α : Type}

/-- A list of lists, cut after some of the items: between two lists, or inside one. -/
inductive Cut (lists : List (List α)) (front back : List α) : Prop
  | between (whole later : List (List α)) (all : lists = whole ++ later) (front_eq : front = whole.flatten) (back_eq : back = later.flatten)
  | inside (whole later : List (List α)) (first last : List α) (all : lists = whole ++ (first ++ last) :: later) (filled : first ≠ [])
      (more : last ≠ []) (front_eq : front = whole.flatten ++ first) (back_eq : back = last ++ later.flatten)

theorem cut (lists : List (List α)) (count : Nat) : Cut lists (lists.flatten.take count) (lists.flatten.drop count) := by
  induction lists generalizing count with
  | nil => exact .between [] [] rfl (by simp) (by simp)
  | cons list rest ih =>
    by_cases inside : count < list.length
    · cases count with
      | zero => exact .between [] (list :: rest) rfl rfl rfl
      | succ count =>
        refine .inside [] rest (list.take (count + 1)) (list.drop (count + 1)) (by rw [List.take_append_drop]; rfl) ?_ ?_ ?_ ?_
        · intro empty
          have size := List.length_take_of_le (Nat.le_of_lt inside)
          rw [empty] at size
          cases size
        · intro empty
          have size := List.drop_eq_nil_iff.mp empty
          omega
        · rw [List.flatten_cons, List.take_append_of_le_length (Nat.le_of_lt inside)]
          rfl
        · rw [List.flatten_cons, List.drop_append_of_le_length (Nat.le_of_lt inside)]
    · obtain ⟨more, rfl⟩ := Nat.exists_eq_add_of_le (Nat.le_of_not_lt inside)
      rw [List.flatten_cons, List.take_length_add_append, List.drop_length_add_append]
      cases ih more with
      | between whole later all front_eq back_eq =>
        exact .between (list :: whole) later (by rw [all]; rfl) (by rw [front_eq]; rfl) back_eq
      | inside whole later first last all filled more front_eq back_eq =>
        refine .inside (list :: whole) later first last (by rw [all]; rfl) filled more ?_ back_eq
        rw [front_eq, List.flatten_cons, List.append_assoc]

end Cuts

end AgentSaas.Utf8
