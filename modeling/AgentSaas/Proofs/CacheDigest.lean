import AgentSaas.CacheSchema.NumberDigest
import AgentSaas.Sha256
import AgentSaas.Utf8
import Mathlib.Data.List.GetD
import Mathlib.Data.List.Induction

/-! The digest that is computed with numbers is SHA-256. No sum is rounded, so each number stands
for a word, and the words are those of the standard. -/

namespace AgentSaas.Proofs.CacheDigest
open AgentSaas.CacheSchema Doubles
open ToolCallRepair (Text unit units)

/-- A number between so many words, positive or negative. -/
def Within (count : Nat) (value : Int) : Prop := -(count * 4294967296 : Int) ≤ value ∧ value ≤ count * 4294967296

theorem within_of_signed {value : Int} (signed : Signed value) : Within 1 value := by
  obtain ⟨low, high⟩ := signed
  constructor <;> omega

theorem add_within {first second : Int} {left right : Nat} (few : left + right ≤ 1024) (one : Within left first)
    (other : Within right second) : Within (left + right) (add first second) := by
  obtain ⟨low, high⟩ := one
  obtain ⟨least, most⟩ := other
  rw [add, nearest_exact (by omega) (by omega)]
  constructor <;> push_cast <;> omega

theorem word_add_within {first second : Int} {left right : Nat} (few : left + right ≤ 1024) (one : Within left first)
    (other : Within right second) : word (add first second) = word first + word second := by
  obtain ⟨low, high⟩ := one
  obtain ⟨least, most⟩ := other
  exact word_add (by omega) (by omega)

theorem signed_either (first second : Int) : Signed (either first second) := signed_toInt _

theorem within_exclusive (first second : Int) : Within 1 (exclusive first second) := within_of_signed (signed_toInt _)

theorem word_sum {first second : Int} (one : Within 1 first) (other : Within 1 second) :
    word (either (add first second) 0) = word first + word second := by
  rw [word_truncated, word_add_within (by omega) one other]

theorem word_sum₄ {first second third fourth : Int} (one : Within 1 first) (two : Within 1 second) (three : Within 1 third)
    (four : Within 1 fourth) :
    word (either (add (add (add first second) third) fourth) 0) = word first + word second + word third + word fourth := by
  have pair := add_within (by omega) one two
  have triple := add_within (by omega) pair three
  rw [word_truncated, word_add_within (by omega) triple four, word_add_within (by omega) pair three,
    word_add_within (by omega) one two]

theorem word_sum₅ {first second third fourth fifth : Int} (one : Within 1 first) (two : Within 1 second) (three : Within 1 third)
    (four : Within 1 fourth) (five : Within 1 fifth) :
    word (either (add (add (add (add first second) third) fourth) fifth) 0) =
      word first + word second + word third + word fourth + word fifth := by
  have pair := add_within (by omega) one two
  have triple := add_within (by omega) pair three
  have quadruple := add_within (by omega) triple four
  rw [word_truncated, word_add_within (by omega) quadruple five, word_add_within (by omega) triple four,
    word_add_within (by omega) pair three, word_add_within (by omega) one two]

theorem word_rotate (value : Int) {bits : Nat} (positive : 0 < bits) (bounded : bits < 32) :
    word (NumberDigest.rotate value bits) = rotate (word value) bits := by
  rw [NumberDigest.rotate, word_either, word_shiftRightZero, word_shiftLeft, Nat.mod_eq_of_lt bounded,
    Nat.mod_eq_of_lt (by omega : 32 - bits < 32)]
  rfl

theorem word_rotations (value : Int) {first second third : Nat} (one : 0 < first ∧ first < 32) (two : 0 < second ∧ second < 32)
    (three : 0 < third ∧ third < 32) :
    word (exclusive (exclusive (NumberDigest.rotate value first) (NumberDigest.rotate value second)) (NumberDigest.rotate value third)) =
      rotate (word value) first ^^^ rotate (word value) second ^^^ rotate (word value) third := by
  rw [word_exclusive, word_exclusive, word_rotate value one.1 one.2, word_rotate value two.1 two.2, word_rotate value three.1 three.2]

theorem word_shifted (value : Int) {first second shift : Nat} (one : 0 < first ∧ first < 32) (two : 0 < second ∧ second < 32)
    (bounded : shift < 32) :
    word (exclusive (exclusive (NumberDigest.rotate value first) (NumberDigest.rotate value second)) (shiftRightZero value shift)) =
      rotate (word value) first ^^^ rotate (word value) second ^^^ word value >>> shift := by
  rw [word_exclusive, word_exclusive, word_rotate value one.1 one.2, word_rotate value two.1 two.2, word_shiftRightZero,
    Nat.mod_eq_of_lt bounded]

structure Stands (numbers : List Int) (words : List Word) : Prop where
  same : words = numbers.map word
  signed : ∀ value ∈ numbers, Signed value

theorem Stands.length {numbers : List Int} {words : List Word} (stands : Stands numbers words) : numbers.length = words.length := by
  rw [stands.same, List.length_map]

theorem Stands.getD {numbers : List Int} {words : List Word} (stands : Stands numbers words) (index : Nat) :
    word (numbers.getD index 0) = words.getD index 0 := by
  rw [stands.same]
  exact (List.getD_map numbers 0 word).symm

theorem Stands.getD_within {numbers : List Int} {words : List Word} (stands : Stands numbers words) (index : Nat) :
    Within 1 (numbers.getD index 0) := by
  apply within_of_signed
  by_cases inside : index < numbers.length
  · rw [List.getD_eq_getElem _ _ inside]
    exact stands.signed _ (List.getElem_mem inside)
  · rw [List.getD_eq_default _ _ (by omega)]
    exact ⟨by omega, by omega⟩

theorem Stands.extend {numbers : List Int} {words : List Word} (stands : Stands numbers words) :
    Stands (NumberDigest.extend numbers) (extend words) := by
  rw [NumberDigest.extend, CacheSchema.extend]
  constructor
  · rw [List.map_append, List.map_singleton, ← stands.same,
      word_sum₄ (stands.getD_within _) (within_exclusive _ _) (stands.getD_within _) (within_exclusive _ _),
      word_shifted _ (by decide) (by decide) (by decide), word_shifted _ (by decide) (by decide) (by decide)]
    simp only [stands.getD, stands.length]
  · intro value member
    rw [List.mem_append, List.mem_singleton] at member
    rcases member with old | rfl
    · exact stands.signed value old
    · exact signed_either _ _

theorem Stands.extends {numbers : List Int} {words : List Word} (stands : Stands numbers words) (turns : List Nat) :
    Stands (turns.foldl (fun schedule _ => NumberDigest.extend schedule) numbers) (turns.foldl (fun schedule _ => CacheSchema.extend schedule) words) := by
  induction turns generalizing numbers words with
  | nil => exact stands
  | cons turn turns ih => exact ih stands.extend

def wordsOf (working : NumberDigest.Working) : Working :=
  ⟨word working.a, word working.b, word working.c, word working.d, word working.e, word working.f, word working.g, word working.h⟩

/-- The places of `working` are numbers of one word. -/
structure Narrow (working : NumberDigest.Working) : Prop where
  a : Within 1 working.a
  b : Within 1 working.b
  c : Within 1 working.c
  d : Within 1 working.d
  e : Within 1 working.e
  f : Within 1 working.f
  g : Within 1 working.g
  h : Within 1 working.h

theorem within_either (first second : Int) : Within 1 (either first second) := within_of_signed (signed_either first second)

theorem round_words {working : NumberDigest.Working} (narrow : Narrow working) {constant value : Int} (one : Within 1 constant)
    (other : Within 1 value) :
    wordsOf (NumberDigest.round working constant value) = round (wordsOf working) (word constant) (word value) := by
  have first := word_sum₅ narrow.h (within_exclusive (exclusive (NumberDigest.rotate working.e 6) (NumberDigest.rotate working.e 11))
    (NumberDigest.rotate working.e 25)) (within_exclusive (both working.e working.f) (both (complement working.e) working.g)) one other
  have second := word_sum (within_exclusive (exclusive (NumberDigest.rotate working.a 2) (NumberDigest.rotate working.a 13))
    (NumberDigest.rotate working.a 22)) (within_exclusive (exclusive (both working.a working.b) (both working.a working.c))
      (both working.b working.c))
  rw [word_rotations _ (by decide) (by decide) (by decide), word_exclusive, word_both, word_both, word_complement] at first
  rw [word_rotations _ (by decide) (by decide) (by decide), word_exclusive, word_exclusive, word_both, word_both, word_both] at second
  rw [NumberDigest.round, wordsOf]
  dsimp only
  rw [word_sum (within_either _ _) (within_either _ _), word_sum narrow.d (within_either _ _), first, second]
  rfl

theorem round_narrow {working : NumberDigest.Working} (narrow : Narrow working) (constant value : Int) :
    Narrow (NumberDigest.round working constant value) where
  a := within_either _ _
  b := narrow.a
  c := narrow.b
  d := narrow.c
  e := within_either _ _
  f := narrow.e
  g := narrow.f
  h := narrow.g

theorem rounds_words {working : NumberDigest.Working} (narrow : Narrow working) (steps : List (Int × Int))
    (small : ∀ step ∈ steps, Within 1 step.1 ∧ Within 1 step.2) :
    wordsOf (steps.foldl (fun working step => NumberDigest.round working step.1 step.2) working) =
        (steps.map (Prod.map word word)).foldl (fun working step => round working step.1 step.2) (wordsOf working) ∧
      Narrow (steps.foldl (fun working step => NumberDigest.round working step.1 step.2) working) := by
  induction steps generalizing working with
  | nil => exact ⟨rfl, narrow⟩
  | cons step steps ih =>
    obtain ⟨one, other⟩ := small step List.mem_cons_self
    obtain ⟨same, last⟩ := ih (round_narrow narrow step.1 step.2) fun later member => small later (List.mem_cons_of_mem _ member)
    refine ⟨?_, last⟩
    rw [List.foldl_cons, same, round_words narrow one other]
    rfl

theorem constants_words : NumberDigest.constants.map word = constants := by decide

theorem constants_within : ∀ constant ∈ NumberDigest.constants, Within 1 constant := by
  have small : ∀ constant ∈ NumberDigest.constants, 0 ≤ constant ∧ constant ≤ 4294967296 := by decide
  intro constant member
  obtain ⟨low, high⟩ := small constant member
  constructor <;> omega

theorem initial_words : wordsOf NumberDigest.initial = initial := by decide

/-- Four bytes of a message, from the highest to the lowest. What is behind its end is zero. -/
def fourBytes (bytes : List Nat) (place : Nat) : Word :=
  BitVec.ofNat 32 (bytes.getD (place * 4) 0) <<< 24 ||| BitVec.ofNat 32 (bytes.getD (place * 4 + 1) 0) <<< 16 |||
    BitVec.ofNat 32 (bytes.getD (place * 4 + 2) 0) <<< 8 ||| BitVec.ofNat 32 (bytes.getD (place * 4 + 3) 0)

structure Holds (words : NumberDigest.Numbers) (bytes : List Nat) : Prop where
  length : words.length = (bytes.length + 3) / 4
  signed : ∀ (place : Nat) value, NumberDigest.read words place = some value → Signed value
  word : ∀ place : Nat, word ((NumberDigest.read words place).getD 0) = fourBytes bytes place

theorem read_natCast (numbers : NumberDigest.Numbers) (index : Nat) : NumberDigest.read numbers index = numbers[index]?.join := by
  rw [NumberDigest.read, if_neg (by omega)]
  rfl

theorem read_assign (numbers : NumberDigest.Numbers) (index place : Nat) (value : Int) :
    NumberDigest.read (NumberDigest.assign numbers index value) place =
      if place = index then some value else NumberDigest.read numbers place := by
  rw [read_natCast, read_natCast, NumberDigest.assign, if_neg (by omega), Int.toNat_natCast]
  by_cases inside : index < numbers.length
  · rw [if_pos inside, List.getElem?_set]
    by_cases same : index = place
    · rw [if_pos same, if_pos (same ▸ inside), if_pos same.symm]
      rfl
    · rw [if_neg same, if_neg (Ne.symm same)]
  · rw [if_neg inside, List.append_assoc]
    by_cases before : place < numbers.length
    · rw [List.getElem?_append_left before, if_neg (by omega)]
    · rw [List.getElem?_append_right (by omega), List.getElem?_eq_none (by omega : numbers.length ≤ place)]
      by_cases hole : place < index
      · rw [List.getElem?_append_left (by rw [List.length_replicate]; omega), List.getElem?_replicate_of_lt (by omega), if_neg (by omega)]
        rfl
      · rw [List.getElem?_append_right (by rw [List.length_replicate]; omega), List.length_replicate]
        by_cases same : place = index
        · rw [if_pos same, show place - numbers.length - (index - numbers.length) = 0 by omega]
          rfl
        · rw [if_neg same, List.getElem?_eq_none (by rw [List.length_singleton]; omega)]

theorem assign_length (numbers : NumberDigest.Numbers) (index : Nat) (value : Int) :
    (NumberDigest.assign numbers index value).length = max numbers.length (index + 1) := by
  rw [NumberDigest.assign, if_neg (by omega), Int.toNat_natCast]
  split
  next inside => rw [List.length_set]; omega
  next outside => rw [List.length_append, List.length_append, List.length_replicate, List.length_singleton]; omega

theorem getD_snoc (bytes : List Nat) (byte index : Nat) :
    (bytes ++ [byte]).getD index 0 = if index = bytes.length then byte else bytes.getD index 0 := by
  by_cases before : index < bytes.length
  · rw [List.getD_append _ _ _ _ before, if_neg (by omega)]
  · rw [List.getD_append_right _ _ _ _ (by omega)]
    by_cases same : index = bytes.length
    · rw [if_pos same, same, Nat.sub_self]
      rfl
    · rw [if_neg same, List.getD_eq_default _ _ (by rw [List.length_singleton]; omega), List.getD_eq_default _ _ (by omega)]

theorem fourBytes_elsewhere {bytes : List Nat} {place : Nat} (byte : Nat) (elsewhere : place ≠ bytes.length / 4) :
    fourBytes (bytes ++ [byte]) place = fourBytes bytes place := by
  rw [fourBytes, getD_snoc, getD_snoc, getD_snoc, getD_snoc, if_neg (by omega), if_neg (by omega), if_neg (by omega),
    if_neg (by omega)]
  rfl

theorem fourBytes_here (bytes : List Nat) (byte : Nat) :
    fourBytes (bytes ++ [byte]) (bytes.length / 4) =
      fourBytes bytes (bytes.length / 4) ||| BitVec.ofNat 32 byte <<< (24 - bytes.length % 4 * 8) := by
  have behind {place : Nat} (late : bytes.length % 4 ≤ place) : bytes.getD (bytes.length / 4 * 4 + place) 0 = 0 :=
    List.getD_eq_default _ _ (by omega)
  obtain left | left | left | left : bytes.length % 4 = 0 ∨ bytes.length % 4 = 1 ∨ bytes.length % 4 = 2 ∨ bytes.length % 4 = 3 := by
    omega
  · have first : bytes.getD (bytes.length / 4 * 4) 0 = 0 := behind (by omega : _ ≤ 0)
    rw [fourBytes, fourBytes, getD_snoc, getD_snoc, getD_snoc, getD_snoc, if_pos (by omega), if_neg (by omega), if_neg (by omega),
      if_neg (by omega), first, behind (by omega : _ ≤ 1), behind (by omega : _ ≤ 2), behind (by omega : _ ≤ 3), left]
    simp
  · rw [fourBytes, fourBytes, getD_snoc, getD_snoc, getD_snoc, getD_snoc, if_neg (by omega), if_pos (by omega), if_neg (by omega),
      if_neg (by omega), behind (by omega : _ ≤ 1), behind (by omega : _ ≤ 2), behind (by omega : _ ≤ 3), left]
    simp
  · rw [fourBytes, fourBytes, getD_snoc, getD_snoc, getD_snoc, getD_snoc, if_neg (by omega), if_neg (by omega), if_pos (by omega),
      if_neg (by omega), behind (by omega : _ ≤ 2), behind (by omega : _ ≤ 3), left]
    simp
  · rw [fourBytes, fourBytes, getD_snoc, getD_snoc, getD_snoc, getD_snoc, if_neg (by omega), if_neg (by omega), if_neg (by omega),
      if_pos (by omega), behind (by omega : _ ≤ 3), left]
    simp

theorem Holds.snoc {words : NumberDigest.Numbers} {bytes : List Nat} (holds : Holds words bytes) (byte : Nat)
    (short : bytes.length < 2147483648) : Holds (NumberDigest.putByte words bytes.length byte) (bytes ++ [byte]) := by
  have place : shiftRight bytes.length 2 = (bytes.length / 4 : Nat) := by
    rw [shiftRight_natCast short]
    exact congrArg Nat.cast (Nat.shiftRight_eq_div_pow bytes.length 2)
  rw [NumberDigest.putByte, place]
  constructor
  · rw [assign_length, holds.length, List.length_append, List.length_singleton]
    omega
  · intro index value found
    rw [read_assign] at found
    split at found
    next => exact Option.some.inj found ▸ signed_either _ _
    next => exact holds.signed index value found
  · intro index
    rw [read_assign]
    by_cases here : index = bytes.length / 4
    · rw [if_pos here, here, fourBytes_here, Option.getD_some, word_either, holds.word, word_shiftLeft,
        Nat.mod_eq_of_lt (by omega : 24 - bytes.length % 4 * 8 < 32)]
      rfl
    · rw [if_neg here, fourBytes_elsewhere byte here, holds.word]

theorem putBytes_holds {bytes : List Nat} (short : bytes.length < 2147483648) : Holds (NumberDigest.putBytes bytes) bytes := by
  induction bytes using List.reverseRecOn with
  | nil =>
    have empty (place : Nat) : NumberDigest.read (NumberDigest.putBytes []) place = none := by
      rw [read_natCast]
      rfl
    refine ⟨rfl, fun place value found => ?_, fun place => ?_⟩
    · rw [empty] at found
      cases found
    · rw [empty, fourBytes, List.getD_nil, List.getD_nil, List.getD_nil, List.getD_nil]
      decide
  | append_singleton bytes byte ih =>
    rw [List.length_append, List.length_singleton] at short
    have grown : NumberDigest.putBytes (bytes ++ [byte]) =
        NumberDigest.putByte (NumberDigest.putBytes bytes) bytes.length byte := by
      rw [NumberDigest.putBytes, List.zipIdx_append, List.foldl_append]
      rw [Nat.zero_add]
      rfl
    rw [grown]
    exact (ih (by omega)).snoc byte (by omega)

structure Padded (words : NumberDigest.Numbers) (bytes : List Nat) : Prop where
  length : words.length = wordCount bytes
  signed : ∀ place : Nat, Signed ((NumberDigest.read words place).getD 0)
  word : ∀ place : Nat, word ((NumberDigest.read words place).getD 0) = wordAt bytes place

theorem wordAt_before {bytes : List Nat} {place : Nat} (before : place + 1 ≠ wordCount bytes) :
    wordAt bytes place = fourBytes (bytes ++ [0x80]) place := by
  have marked (index : Nat) : paddedByte bytes index = (bytes ++ [0x80]).getD index 0 := by
    rw [getD_snoc, paddedByte]
    by_cases inside : index < bytes.length
    · rw [if_pos inside, if_neg (by omega)]
    · rw [if_neg inside, List.getD_eq_default _ _ (by omega)]
  rw [wordAt, if_neg before, marked, marked, marked, marked]
  rfl

theorem lastIndex_eq {length : Nat} (short : length < 268435456) :
    add (multiply (add (shiftRight (add length 8) 6) 1) 16) (-1) = (((length + 8) / 64 + 1) * 16 - 1 : Nat) := by
  have sum : add length 8 = (length + 8 : Nat) := nearest_exact (by omega) (by omega)
  have shifted : shiftRight (length + 8 : Nat) 6 = ((length + 8) / 64 : Nat) := by
    rw [shiftRight_natCast (by omega)]
    exact congrArg Nat.cast (Nat.shiftRight_eq_div_pow (length + 8) 6)
  have next : add ((length + 8) / 64 : Nat) 1 = ((length + 8) / 64 + 1 : Nat) := nearest_exact (by omega) (by omega)
  have whole : multiply ((length + 8) / 64 + 1 : Nat) 16 = (((length + 8) / 64 + 1) * 16 : Nat) := nearest_exact (by omega) (by omega)
  rw [sum, shifted, next, whole, add, nearest_exact (by omega) (by omega)]
  omega

theorem messageWords_padded {bytes : List Nat} (short : bytes.length < 268435456) :
    Padded (NumberDigest.messageWords bytes) bytes := by
  have bits : multiply bytes.length 8 = (bytes.length * 8 : Nat) := nearest_exact (by omega) (by omega)
  have holds := (putBytes_holds (by omega : bytes.length < 2147483648)).snoc 0x80 (by omega)
  rw [NumberDigest.messageWords, lastIndex_eq short, bits]
  constructor
  · rw [assign_length, holds.length, List.length_append, List.length_singleton, wordCount]
    omega
  · intro place
    rw [read_assign]
    by_cases last : place = ((bytes.length + 8) / 64 + 1) * 16 - 1
    · rw [if_pos last, Option.getD_some]
      constructor <;> omega
    · rw [if_neg last]
      cases found : NumberDigest.read (NumberDigest.putByte (NumberDigest.putBytes bytes) bytes.length 0x80) place with
      | none => exact ⟨by decide, by decide⟩
      | some value => exact holds.signed place value found
  · intro place
    rw [read_assign]
    by_cases last : place = ((bytes.length + 8) / 64 + 1) * 16 - 1
    · rw [if_pos last, Option.getD_some, wordAt, if_pos (by rw [wordCount]; omega)]
      exact BitVec.ofInt_natCast 32 _
    · rw [if_neg last, holds.word, wordAt_before (by rw [wordCount]; omega)]

theorem scheduleOf_stands {words : NumberDigest.Numbers} {bytes : List Nat} (padded : Padded words bytes) {offset : Nat}
    (small : offset < 4294967296) : Stands (NumberDigest.scheduleOf words offset) (scheduleOf bytes offset) := by
  apply Stands.extends
  have place {index : Nat} (member : index ∈ List.range 16) : add offset index = (offset + index : Nat) := by
    rw [List.mem_range] at member
    exact nearest_exact (by omega) (by omega)
  constructor
  · rw [List.map_map]
    apply List.map_congr_left
    intro index member
    rw [Function.comp_apply, place member, padded.word]
  · intro value member
    obtain ⟨index, inside, rfl⟩ := List.mem_map.mp member
    rw [place inside]
    exact padded.signed (offset + index)

theorem compress_words {words : NumberDigest.Numbers} {bytes : List Nat} (padded : Padded words bytes) {offset : Nat}
    (small : offset < 4294967296) {hash : NumberDigest.Working} (narrow : Narrow hash) :
    wordsOf (NumberDigest.compress words hash offset) = compress bytes (wordsOf hash) offset := by
  have stands := scheduleOf_stands padded small
  obtain ⟨same, last⟩ := rounds_words narrow (NumberDigest.constants.zip (NumberDigest.scheduleOf words offset))
    fun step member => ⟨constants_within _ (List.of_mem_zip member).1, within_of_signed (stands.signed _ (List.of_mem_zip member).2)⟩
  have steps : (NumberDigest.constants.zip (NumberDigest.scheduleOf words offset)).map (Prod.map word word) =
      constants.zip (scheduleOf bytes offset) := by
    rw [stands.same, ← constants_words, List.zip_map]
  rw [steps] at same
  rw [NumberDigest.compress, compress, ← same]
  generalize (NumberDigest.constants.zip (NumberDigest.scheduleOf words offset)).foldl
    (fun working step => NumberDigest.round working step.1 step.2) hash = final at last
  simp only [wordsOf]
  rw [word_sum narrow.a last.a, word_sum narrow.b last.b, word_sum narrow.c last.c, word_sum narrow.d last.d,
    word_sum narrow.e last.e, word_sum narrow.f last.f, word_sum narrow.g last.g, word_sum narrow.h last.h]

theorem compress_narrow (words : NumberDigest.Numbers) (hash : NumberDigest.Working) (offset : Nat) :
    Narrow (NumberDigest.compress words hash offset) :=
  ⟨within_either _ _, within_either _ _, within_either _ _, within_either _ _, within_either _ _, within_either _ _,
    within_either _ _, within_either _ _⟩

theorem compresses_words {words : NumberDigest.Numbers} {bytes : List Nat} (padded : Padded words bytes) {offsets : List Nat}
    (small : ∀ offset ∈ offsets, offset < 4294967296) {hash : NumberDigest.Working} (narrow : Narrow hash) :
    wordsOf (offsets.foldl (NumberDigest.compress words) hash) = offsets.foldl (compress bytes) (wordsOf hash) := by
  induction offsets generalizing hash with
  | nil => rfl
  | cons offset offsets ih =>
    rw [List.foldl_cons, List.foldl_cons, ← compress_words padded (small offset List.mem_cons_self) narrow]
    exact ih (fun later member => small later (List.mem_cons_of_mem _ member)) (compress_narrow words hash offset)

/-- So many hexadecimal digits of a number, the lowest last. -/
def digits : Nat → Nat → Text
  | 0, _ => []
  | places + 1, value => digits places (value / 16) ++ [JsonStrings.hexDigit (value % 16)]

theorem digits_zero (places : Nat) : digits places 0 = List.replicate places (unit '0') := by
  induction places with
  | zero => rfl
  | succ places ih =>
    rw [digits, Nat.zero_div, ih, List.replicate_succ']
    rfl

theorem padStart_toHex {places value : Nat} (bounded : value < 16 ^ (places + 1)) :
    NumberDigest.padStart (NumberDigest.toHex value) (places + 1) (unit '0') = digits (places + 1) value := by
  induction places generalizing value with
  | zero =>
    rw [NumberDigest.toHex, if_pos (by omega), digits, Nat.mod_eq_of_lt (by omega)]
    rfl
  | succ places ih =>
    rw [NumberDigest.toHex]
    split
    next small =>
      rw [digits, Nat.div_eq_of_lt small, digits_zero, Nat.mod_eq_of_lt small]
      rfl
    next large =>
      have fewer : value / 16 < 16 ^ (places + 1) := by
        rw [Nat.div_lt_iff_lt_mul (by decide)]
        exact bounded
      rw [digits, ← ih fewer, NumberDigest.padStart, NumberDigest.padStart, List.length_append, List.length_singleton,
        Nat.add_sub_add_right, List.append_assoc]

theorem hexWord_digits (value : Word) : hexWord value = digits 8 value.toNat := by
  rw [hexWord]
  simp only [digits, List.map_cons, List.map_nil, List.nil_append, List.cons_append, Nat.div_div_eq_div_mul, Nat.div_one]

theorem hexWord_words (value : Int) : NumberDigest.hexWord value = hexWord (word value) := by
  rw [hexWord_digits, NumberDigest.hexWord, shiftRightZero, Nat.zero_mod, BitVec.ushiftRight_zero, Int.toNat_natCast]
  exact padStart_toHex (word value).isLt

theorem offsets_eq {words : NumberDigest.Numbers} {bytes : List Nat} (padded : Padded words bytes) :
    NumberDigest.offsets words = (List.range (wordCount bytes / 16)).map (· * 16) := by
  rw [NumberDigest.offsets, padded.length, show (wordCount bytes + 15) / 16 = wordCount bytes / 16 by rw [wordCount]; omega]

/-- No number is rounded and no word is lost: the digest over numbers is the one over words. -/
theorem cacheDigest_words {value : Text} (short : (encode value).length < 268435456) :
    NumberDigest.cacheDigest value = cacheDigest value := by
  have padded := messageWords_padded short
  have small : ∀ offset ∈ (List.range (wordCount (encode value) / 16)).map (· * 16), offset < 4294967296 := by
    intro offset member
    obtain ⟨block, inside, rfl⟩ := List.mem_map.mp member
    rw [List.mem_range, wordCount] at inside
    omega
  have narrow : Narrow NumberDigest.initial := by
    constructor <;> constructor <;> decide
  have same := compresses_words padded small narrow
  rw [initial_words] at same
  rw [NumberDigest.cacheDigest, cacheDigest, offsets_eq padded, ← same]
  generalize ((List.range (wordCount (encode value) / 16)).map (· * 16)).foldl
    (NumberDigest.compress (NumberDigest.messageWords (encode value))) NumberDigest.initial = hash
  simp only [wordsOf, List.flatMap_cons, List.flatMap_nil, hexWord_words]

/-- The bytes as the standard has them. -/
def octets (bytes : List Nat) : List Sha256.Byte := bytes.map (BitVec.ofNat 8)

theorem append_words (first second third fourth : Sha256.Byte) :
    first ++ second ++ third ++ fourth = first.setWidth 32 <<< 24 ||| second.setWidth 32 <<< 16 ||| third.setWidth 32 <<< 8 |||
      fourth.setWidth 32 := by
  have beyond (byte : Sha256.Byte) {index : Nat} (late : 8 ≤ index) : byte.getLsbD index = false :=
    BitVec.getLsbD_of_ge byte index late
  apply BitVec.eq_of_getLsbD_eq
  intro index bounded
  simp only [BitVec.getLsbD_append, BitVec.getLsbD_or, BitVec.getLsbD_shiftLeft, BitVec.getLsbD_setWidth]
  grind

theorem append_low (bits : BitVec 64) :
    (bits >>> 24).setWidth 8 ++ (bits >>> 16).setWidth 8 ++ (bits >>> 8).setWidth 8 ++ (bits >>> 0).setWidth 8 = bits.setWidth 32 := by
  apply BitVec.eq_of_getLsbD_eq
  intro index bounded
  simp only [BitVec.getLsbD_append, BitVec.getLsbD_setWidth, BitVec.getLsbD_ushiftRight]
  grind

theorem setWidth_octet {byte : Nat} (bounded : byte < 256) : (BitVec.ofNat 8 byte).setWidth 32 = BitVec.ofNat 32 byte := by
  rw [BitVec.setWidth_ofNat_of_le_of_lt (by omega) bounded]

theorem shifted_away {length place : Nat} (short : length < 4294967296) (far : 32 ≤ place) :
    (BitVec.ofNat 64 length >>> place).setWidth 8 = 0#8 := by
  apply BitVec.eq_of_toNat_eq
  rw [BitVec.toNat_setWidth, BitVec.toNat_ushiftRight, BitVec.toNat_ofNat, Nat.mod_eq_of_lt (lt_trans short (by decide)),
    Nat.shiftRight_eq_div_pow, Nat.div_eq_of_lt (lt_of_lt_of_le short (Nat.pow_le_pow_right (by decide) far : 2 ^ 32 ≤ 2 ^ place))]
  rfl

theorem octets_getD (bytes : List Nat) (index : Nat) : (octets bytes).getD index 0 = BitVec.ofNat 8 (bytes.getD index 0) :=
  List.getD_map bytes 0 (BitVec.ofNat 8)

theorem pad_getD {bytes : List Nat} {index : Nat} (before : index + 8 < wordCount bytes * 4) :
    (Sha256.pad (octets bytes)).getD index 0 = BitVec.ofNat 8 (paddedByte bytes index) := by
  have same : (octets bytes).length = bytes.length := List.length_map _
  rw [wordCount] at before
  rw [Sha256.pad, same, paddedByte]
  by_cases inside : index < bytes.length
  · rw [if_pos inside, List.getD_append _ _ _ _ (by omega), octets_getD]
  · rw [if_neg inside, List.getD_append_right _ _ _ _ (by omega), same]
    by_cases mark : index = bytes.length
    · rw [if_pos mark, mark, Nat.sub_self]
      rfl
    · obtain ⟨next, later⟩ : ∃ next, index - bytes.length = next + 1 := ⟨index - bytes.length - 1, by omega⟩
      have zero : next < Sha256.zeros bytes.length := by
        rw [Sha256.zeros]
        omega
      rw [if_neg mark, later, List.getD_cons_succ, List.getD_append _ _ _ _ (by rw [List.length_replicate]; exact zero),
        List.getD_replicate _ zero]
      rfl

theorem pad_length_bytes {bytes : List Nat} {index : Nat} (inside : index < 8) :
    (Sha256.pad (octets bytes)).getD (wordCount bytes * 4 - 8 + index) 0 =
      (Sha256.lengthBytes (BitVec.ofNat 64 (8 * bytes.length))).getD index 0 := by
  have same : (octets bytes).length = bytes.length := List.length_map _
  have place : wordCount bytes * 4 - 8 + index - bytes.length = Sha256.zeros bytes.length + index + 1 := by
    rw [wordCount, Sha256.zeros]
    omega
  rw [Sha256.pad, same, List.getD_append_right _ _ _ _ (by rw [same, wordCount]; omega), same, place, List.getD_cons_succ,
    List.getD_append_right _ _ _ _ (by rw [List.length_replicate]; omega), List.length_replicate, Nat.add_sub_cancel_left]

theorem paddedByte_octet {bytes : List Nat} (octet : ∀ byte ∈ bytes, byte < 256) (index : Nat) : paddedByte bytes index < 256 := by
  rw [paddedByte]
  split
  next inside =>
    rw [List.getD_eq_getElem _ _ inside]
    exact octet _ (List.getElem_mem inside)
  next => split <;> decide

theorem parse_pad {bytes : List Nat} (octet : ∀ byte ∈ bytes, byte < 256) (short : bytes.length < 268435456) {index : Nat}
    (inside : index < wordCount bytes) : (Sha256.parse (Sha256.pad (octets bytes)))[index]? = some (wordAt bytes index) := by
  have same : (octets bytes).length = bytes.length := List.length_map _
  have whole : (Sha256.pad (octets bytes)).length = wordCount bytes * 4 := by
    rw [Sha256.pad_length, same, wordCount]
    omega
  rw [Sha256.parse_get (by omega)]
  apply congrArg some
  by_cases before : index + 2 < wordCount bytes
  · rw [pad_getD (by omega), pad_getD (by omega), pad_getD (by omega), pad_getD (by omega), append_words, wordAt, if_neg (by omega),
      setWidth_octet (paddedByte_octet octet _), setWidth_octet (paddedByte_octet octet _), setWidth_octet (paddedByte_octet octet _),
      setWidth_octet (paddedByte_octet octet _)]
  · have tail {place later : Nat} (near : later < 8) (there : index * 4 + place = wordCount bytes * 4 - 8 + later) :
        (Sha256.pad (octets bytes)).getD (index * 4 + place) 0 =
          (Sha256.lengthBytes (BitVec.ofNat 64 (8 * bytes.length))).getD later 0 := by
      rw [there, pad_length_bytes near]
    have plenty : 16 ≤ wordCount bytes := by
      rw [wordCount]
      omega
    by_cases last : index + 1 = wordCount bytes
    · have first := tail (by decide : 4 < 8) (by omega : index * 4 + 0 = _)
      have low := append_low (BitVec.ofNat 64 (8 * bytes.length))
      rw [BitVec.setWidth_ofNat_of_le (by decide), Nat.mul_comm] at low
      rw [Nat.add_zero] at first
      rw [first, tail (by decide : 5 < 8) (by omega), tail (by decide : 6 < 8) (by omega), tail (by decide : 7 < 8) (by omega),
        wordAt, if_pos last, ← low, Nat.mul_comm]
      rfl
    · have first := tail (by decide : 0 < 8) (by omega : index * 4 + 0 = _)
      have high (place : Nat) (far : 32 ≤ place) := shifted_away (by omega : 8 * bytes.length < 4294967296) far
      have behind (place : Nat) : paddedByte bytes (index * 4 + place) = 0 := by
        rw [wordCount] at inside before last
        rw [paddedByte, if_neg (by omega), if_neg (by omega)]
      have front := behind 0
      rw [Nat.add_zero] at first front
      rw [first, tail (by decide : 1 < 8) (by omega), tail (by decide : 2 < 8) (by omega), tail (by decide : 3 < 8) (by omega),
        wordAt, if_neg last, front, behind, behind, behind]
      rw [show (Sha256.lengthBytes (BitVec.ofNat 64 (8 * bytes.length))).getD 0 0 = 0#8 from high 56 (by decide),
        show (Sha256.lengthBytes (BitVec.ofNat 64 (8 * bytes.length))).getD 1 0 = 0#8 from high 48 (by decide),
        show (Sha256.lengthBytes (BitVec.ofNat 64 (8 * bytes.length))).getD 2 0 = 0#8 from high 40 (by decide),
        show (Sha256.lengthBytes (BitVec.ofNat 64 (8 * bytes.length))).getD 3 0 = 0#8 from high 32 (by decide)]
      decide

theorem parse_words {bytes : List Nat} (octet : ∀ byte ∈ bytes, byte < 256) (short : bytes.length < 268435456) :
    Sha256.parse (Sha256.pad (octets bytes)) = (List.range (wordCount bytes)).map (wordAt bytes) := by
  apply List.ext_getElem?
  intro index
  by_cases inside : index < wordCount bytes
  · rw [parse_pad octet short inside, List.getElem?_map, List.getElem?_range inside]
    rfl
  · have same : (octets bytes).length = bytes.length := List.length_map _
    rw [List.getElem?_eq_none, List.getElem?_eq_none]
    · rw [List.length_map, List.length_range]
      omega
    · rw [Sha256.parse_length, Sha256.pad_length, same]
      rw [wordCount] at inside
      omega

theorem blocks_words (word : Nat → Word) (count : Nat) :
    Sha256.blocks ((List.range count).map word) =
      (List.range (count / 16)).map fun index => (List.range 16).map fun place => word (index * 16 + place) := by
  rw [Sha256.blocks, List.length_map, List.length_range]
  apply List.map_congr_left
  intro index member
  rw [List.mem_range] at member
  apply List.ext_getElem?
  intro place
  rw [List.getElem?_take, List.getElem?_map]
  split
  next inside => rw [List.getElem?_drop, List.getElem?_map, List.getElem?_range (by omega), List.getElem?_range inside]; rfl
  next outside => rw [List.getElem?_eq_none (by rw [List.length_range]; omega)]; rfl

theorem rotate_right (value : Word) {bits : Nat} (bounded : bits < 32) : rotate value bits = value.rotateRight bits := by
  rw [rotate, BitVec.rotateRight_def, Nat.mod_eq_of_lt bounded]

theorem extend_next (schedule : List Word) : extend schedule = schedule ++ [Sha256.next schedule] := by
  rw [extend, Sha256.next, rotate_right _ (by decide), rotate_right _ (by decide), rotate_right _ (by decide), rotate_right _ (by decide),
    Sha256.smallSigma0, Sha256.smallSigma1]
  apply congrArg fun value => schedule ++ [value]
  ac_rfl

theorem scheduleFrom_fold (block : List Word) (turns : Nat) :
    Sha256.scheduleFrom block turns = (List.range turns).foldl (fun schedule _ => extend schedule) block := by
  induction turns with
  | zero => rfl
  | succ turns ih =>
    rw [Sha256.scheduleFrom, List.range_succ, List.foldl_append, ← ih]
    exact (extend_next _).symm

def hashOf (working : Working) : Sha256.Hash :=
  ⟨working.a, working.b, working.c, working.d, working.e, working.f, working.g, working.h⟩

theorem round_hash (working : Working) (constant word : Word) :
    hashOf (round working constant word) = Sha256.round (hashOf working) constant word := by
  rw [CacheSchema.round, Sha256.round, Sha256.bigSigma0, Sha256.bigSigma1, Sha256.ch, Sha256.maj]
  simp only [hashOf, rotate_right _ (by decide : 2 < 32), rotate_right _ (by decide : 13 < 32), rotate_right _ (by decide : 22 < 32),
    rotate_right _ (by decide : 6 < 32), rotate_right _ (by decide : 11 < 32), rotate_right _ (by decide : 25 < 32)]

theorem rounds_hash (steps : List (Word × Word)) (working : Working) :
    hashOf (steps.foldl (fun working step => round working step.1 step.2) working) =
      steps.foldl (fun hash step => Sha256.round hash step.1 step.2) (hashOf working) := by
  induction steps generalizing working with
  | nil => rfl
  | cons step steps ih => rw [List.foldl_cons, List.foldl_cons, ih, round_hash]

theorem constants_same : Sha256.constants = constants := by decide

theorem compress_hash (bytes : List Nat) (working : Working) (offset : Nat) :
    hashOf (compress bytes working offset) =
      Sha256.compress (hashOf working) ((List.range 16).map fun index => wordAt bytes (offset + index)) := by
  have same := rounds_hash (constants.zip (scheduleOf bytes offset)) working
  rw [compress, Sha256.compress, Sha256.schedule, scheduleFrom_fold, constants_same]
  rw [scheduleOf] at same ⊢
  rw [← same]
  generalize (constants.zip _).foldl (fun working step => round working step.1 step.2) working = final
  simp only [hashOf, BitVec.add_comm]

theorem compresses_hash (bytes : List Nat) (blocks : List Nat) (working : Working) :
    hashOf ((blocks.map (· * 16)).foldl (compress bytes) working) =
      (blocks.map fun block => (List.range 16).map fun index => wordAt bytes (block * 16 + index)).foldl Sha256.compress (hashOf working) := by
  induction blocks generalizing working with
  | nil => rfl
  | cons block blocks ih =>
    rw [List.map_cons, List.foldl_cons, List.map_cons, List.foldl_cons, ih, compress_hash]

/-- Two digits for each byte. -/
def hexadecimal (bytes : List Sha256.Byte) : Text :=
  bytes.flatMap fun byte => [JsonStrings.hexDigit (byte.toNat / 16), JsonStrings.hexDigit (byte.toNat % 16)]

theorem hexadecimal_word (word : Word) : hexadecimal (Sha256.wordBytes word) = hexWord word := by
  have byte (place : Nat) : ((word >>> place).setWidth 8).toNat = word.toNat / 2 ^ place % 256 := by
    rw [BitVec.toNat_setWidth, BitVec.toNat_ushiftRight, Nat.shiftRight_eq_div_pow]
  have bounded := word.isLt
  have high (place : Nat) : word.toNat / place % 256 / 16 = word.toNat / (place * 16) % 16 := by
    rw [← Nat.div_div_eq_div_mul]
    omega
  have low (place : Nat) : word.toNat / place % 256 % 16 = word.toNat / place % 16 := by
    omega
  simp only [hexadecimal, Sha256.wordBytes, List.map_cons, List.map_nil, List.flatMap_cons, List.flatMap_nil, byte, high, low]
  rfl

theorem hexadecimal_append (front back : List Sha256.Byte) : hexadecimal (front ++ back) = hexadecimal front ++ hexadecimal back :=
  List.flatMap_append

theorem hexadecimal_words (words : List Word) : hexadecimal (words.flatMap Sha256.wordBytes) = words.flatMap hexWord := by
  induction words with
  | nil => rfl
  | cons word words ih => rw [List.flatMap_cons, hexadecimal_append, hexadecimal_word, ih, List.flatMap_cons]

theorem hexadecimal_length (bytes : List Sha256.Byte) : (hexadecimal bytes).length = bytes.length * 2 := by
  induction bytes with
  | nil => rfl
  | cons byte bytes ih =>
    rw [List.length_cons, Nat.add_mul, ← ih]
    rfl

theorem encode_octets (text : Text) (bounded : ∀ char ∈ text, char < 0x10000) :
    ∀ byte ∈ encode text, byte < 256 := by
  induction text using CodePoints.codePoints_induction with
  | nil => intro byte member; cases member
  | pair first second rest high low ih =>
    intro byte member
    rw [encode, CodePoints.codePoints_pair high low, List.flatMap_cons, List.mem_append] at member
    rcases member with here | later
    · have head := Utf8.isHigh_iff.mp high
      have tail := Utf8.isLow_iff.mp low
      simp only [utf8Point, List.mem_cons, List.not_mem_nil, or_false] at here
      omega
    · exact ih (fun char inside => bounded char (List.mem_cons_of_mem _ (List.mem_cons_of_mem _ inside))) byte later
  | single first rest apart ih =>
    intro byte member
    rw [encode, CodePoints.codePoints_single apart, List.flatMap_cons, List.mem_append] at member
    rcases member with here | later
    · have small := bounded first List.mem_cons_self
      rw [utf8Point] at here
      split at here
      next => simp only [List.mem_cons, List.not_mem_nil, or_false] at here; omega
      next =>
        split at here
        next => simp only [List.mem_cons, List.not_mem_nil, or_false] at here; omega
        next =>
          split at here
          · simp only [List.mem_cons, List.not_mem_nil, or_false] at here; omega
          · simp only [List.mem_cons, List.not_mem_nil, or_false] at here; omega
    · exact ih (fun char inside => bounded char (List.mem_cons_of_mem _ inside)) byte later

theorem cacheDigest_octets {value : Text} (octet : ∀ byte ∈ encode value, byte < 256) (short : (encode value).length < 268435456) :
    cacheDigest value = units "sha256:" ++ hexadecimal (Sha256.digest (octets (encode value))) := by
  have same := compresses_hash (encode value) (List.range (wordCount (encode value) / 16)) initial
  rw [Sha256.digest, Sha256.hashOf, parse_words octet short, blocks_words, hexadecimal_words]
  rw [cacheDigest]
  apply congrArg (units "sha256:" ++ ·)
  rw [show Sha256.initial = hashOf initial from rfl, ← same]
  rfl

/-- `cacheDigest` is SHA-256: of a text whose UTF-8 has fewer than 2^28 bytes it returns the mark and
the 64 digits of the digest that the standard gives its bytes. -/
theorem cacheDigest_sha256 {value : Text} (bounded : ∀ char ∈ value, char < 0x10000)
    (short : (encode value).length < 268435456) :
    NumberDigest.cacheDigest value = units "sha256:" ++ hexadecimal (Sha256.digest (octets (encode value))) ∧
      (hexadecimal (Sha256.digest (octets (encode value)))).length = 64 := by
  constructor
  · rw [cacheDigest_words short]
    exact cacheDigest_octets (encode_octets value bounded) short
  · rw [hexadecimal_length]
    rfl

/-- The example of the standard, in one block. -/
theorem cacheDigest_sha256_abc :
    NumberDigest.cacheDigest (units "abc") =
      units "sha256:" ++ units "ba7816bf8f01cfea414140de5dae2223b00361a396177a9cb410ff61f20015ad" := by
  have whole : NumberDigest.cacheDigest (units "abc") = _ := (cacheDigest_sha256 (by decide) (by decide)).1
  refine whole.trans ?_
  decide +kernel

end AgentSaas.Proofs.CacheDigest
