import AgentSaas.AppContract.DuplicateFreeJson
import AgentSaas.AppContract.Jcs
import AgentSaas.Proofs.JsonTexts

/-! Both readers accept what one grammar spells with distinct keys, the stricter one only with
numbers and strings of its kind. -/

namespace AgentSaas.Proofs.DuplicateFreeJson
open AppContract.DuplicateFreeJson
open JsonValues JsonNumbers JsonGrammar JsonLiterals JsonTexts
open AppContract.Jcs (JcsError hasLoneSurrogate iJson parseIJson)
open CodePoints
open ToolCallRepair (Text unit units isSpace)
open JsonReader (scanInteger scanFraction scanExponent)

variable {N : Type} {numbers : Numbers N} {rest : Text}

theorem isSpace_of_blank : ∀ char ∈ units " \t\n\r", isSpace char = true := by decide

theorem isSpace_of_begins {char : Nat} (begins : Begins char) : isSpace char = false := by
  have each : ∀ char ∈ units "ntf\"[\x7b-", isSpace char = false := by decide
  have digits : ∀ char < unit '9' + 1, unit '0' ≤ char → isSpace char = false := by decide
  rcases begins with inside | digit
  · exact each char inside
  · exact digits char (Nat.lt_succ_of_le digit.2) digit.1

theorem skipWhitespace_cons {char : Nat} (visible : isSpace char = false) : skipWhitespace (char :: rest) = char :: rest :=
  List.dropWhile_cons_of_neg (by simp [visible])

theorem skipWhitespace_append {before : Text} (blank : Blank before) (text : Text) : skipWhitespace (before ++ text) = skipWhitespace text :=
  List.dropWhile_append_of_pos fun char inside => isSpace_of_blank char (blank char inside)

theorem closeString_plain {char : Nat} (quote : char ≠ unit '"') (escape : char ≠ unit '\\') : closeString (char :: rest) = closeString rest := by
  cases rest with
  | nil => exact if_neg quote
  | cons next rest => rw [closeString, if_neg escape, if_neg quote]

theorem closeString_escape (letter : Nat) : closeString (unit '\\' :: letter :: rest) = closeString rest := by
  rw [closeString, if_pos rfl]

theorem closeString_quote : closeString (unit '"' :: rest) = some rest := by
  cases rest with
  | nil => rfl
  | cons next rest => rfl

theorem hex_plain {char value : Nat} (hex : Hex char value) : char ≠ unit '"' ∧ char ≠ unit '\\' := by
  have each : ∀ value < 10, unit '0' + value ≠ unit '"' ∧ unit '0' + value ≠ unit '\\' := by decide
  have letters : ∀ value < 6, (unit 'a' + value ≠ unit '"' ∧ unit 'a' + value ≠ unit '\\') ∧
      unit 'A' + value ≠ unit '"' ∧ unit 'A' + value ≠ unit '\\' := by decide
  cases hex with
  | digit small => exact each _ small
  | lower small => exact (letters _ small).1
  | upper small => exact (letters _ small).2

theorem closeString_chars {text out : Text} (chars : Chars text out) : closeString (text ++ unit '"' :: rest) = some rest := by
  induction chars with
  | nil => exact closeString_quote
  | plain _ quote escape _ ih => exact (closeString_plain quote escape).trans ih
  | escape _ _ ih => exact (closeString_escape _).trans ih
  | unicode first second third fourth _ ih =>
    apply (closeString_escape _).trans
    apply (closeString_plain (hex_plain first).1 (hex_plain first).2).trans
    apply (closeString_plain (hex_plain second).1 (hex_plain second).2).trans
    apply (closeString_plain (hex_plain third).1 (hex_plain third).2).trans
    exact (closeString_plain (hex_plain fourth).1 (hex_plain fourth).2).trans ih

theorem jsonParse_string {text out : Text} (chars : Chars text out) :
    jsonParse numbers (unit '"' :: (text ++ [unit '"'])) = .ok (.string out) := by
  rw [jsonParse, JsonReader.parse, JsonRoundTrip.parseValue_string, parseString_spelled chars rfl]
  rfl

theorem parseString_chars {text out : Text} (chars : Chars text out) :
    parseString numbers (unit '"' :: (text ++ unit '"' :: rest)) = .ok (out, rest) := by
  have slice : (unit '"' :: (text ++ unit '"' :: rest)).take ((unit '"' :: (text ++ unit '"' :: rest)).length - rest.length) =
      unit '"' :: (text ++ [unit '"']) := by
    have whole : unit '"' :: (text ++ unit '"' :: rest) = (unit '"' :: (text ++ [unit '"'])) ++ rest := by simp
    rw [whole, List.length_append, Nat.add_sub_cancel, List.take_left]
  rw [parseString, if_pos rfl, closeString_chars chars]
  simp only [slice, jsonParse_string chars]

theorem skipOptional_ok {scan : Text → Except (JsonReader.Stop Empty) (Text × Text)} {text found : Text}
    (scanned : scan text = .ok (found, rest)) : skipOptional scan text = rest := by
  rw [skipOptional, scanned]

theorem matchNumber_number {literal : Text} {whole : Bool} (number : Number literal whole) (ends : Ends rest) :
    matchNumber (literal ++ rest) = some rest := by
  cases number with
  | parts signed integer fraction exponent =>
    obtain ⟨apart, point⟩ := exponent_apart exponent ends
    have letter : ∀ char ∈ rest.head?, ¬ (char = unit 'e' ∨ char = unit 'E') := fun char inside =>
      not_or.mpr (ends char inside).2.2
    simp only [List.append_assoc]
    rw [matchNumber, scanSign_spelled signed integer]
    simp only [scanInteger_spelled integer (fraction_apart fraction apart)]
    rw [skipOptional_ok (scanFraction_spelled fraction apart point),
      skipOptional_ok (scanExponent_spelled exponent (apart_of_ends ends) letter)]

theorem parseValue_scalar {steps char : Nat} {text : Text} (begins : Begins char) (brace : char ≠ unit '\x7b') (bracket : char ≠ unit '[')
    (quote : char ≠ unit '"') (scanned : matchScalar (char :: text) = some rest) :
    parseValue numbers (steps + 1) (char :: text) = .ok rest := by
  rw [parseValue, skipWhitespace_cons (isSpace_of_begins begins)]
  simp only [if_neg brace, if_neg bracket, if_neg quote, scanned]

theorem matchScalar_number {literal : Text} {whole : Bool} (number : Number literal whole) (ends : Ends rest) :
    matchScalar (literal ++ rest) = some rest := by
  have matched := matchNumber_number number ends
  obtain ⟨char, more, rfl, first⟩ := number.head
  have literals : ∀ letters ∈ [units "true", units "false", units "null"],
      letters ≠ [] ∧ ∀ head ∈ letters.head?, head ≠ unit '-' ∧ unit '9' < head := by decide
  have none (letters : Text) (inside : letters ∈ [units "true", units "false", units "null"]) :
      ¬ letters.isPrefixOf (char :: (more ++ rest)) = true := by
    obtain ⟨filled, heads⟩ := literals letters inside
    intro found
    obtain ⟨later, same⟩ := List.isPrefixOf_iff_prefix.mp found
    cases letters with
    | nil => exact filled rfl
    | cons head letters =>
      obtain ⟨dash, far⟩ := heads head rfl
      obtain ⟨rfl, _⟩ := List.cons.inj same
      rcases first with sign | digit
      · exact dash sign
      · exact absurd digit.2 (Nat.not_le.mpr far)
  rw [List.cons_append] at matched ⊢
  rw [matchScalar, if_neg (none _ (by decide)), if_neg (none _ (by decide)), if_neg (none _ (by decide))]
  exact matched

theorem parseValue_object (steps : Nat) (rest : Text) : parseValue numbers (steps + 1) (unit '\x7b' :: rest) =
    if (skipWhitespace rest).head? = some (unit '\x7d') then .ok (skipWhitespace rest).tail
    else parseObject numbers steps [] (skipWhitespace rest) := by
  rw [parseValue, skipWhitespace_cons (by decide)]
  rfl

theorem parseValue_array (steps : Nat) (rest : Text) : parseValue numbers (steps + 1) (unit '[' :: rest) =
    if (skipWhitespace rest).head? = some (unit ']') then .ok (skipWhitespace rest).tail
    else parseArray numbers steps (skipWhitespace rest) := by
  rw [parseValue, skipWhitespace_cons (by decide)]
  rfl

theorem parseValue_string (steps : Nat) (rest : Text) : parseValue numbers (steps + 1) (unit '"' :: rest) =
    (parseString numbers (unit '"' :: rest)).map Prod.snd := by
  rw [parseValue, skipWhitespace_cons (by decide)]
  rfl

theorem parseValue_skip {before : Text} (blank : Blank before) (steps : Nat) (text : Text) :
    parseValue numbers (steps + 1) (before ++ text) = parseValue numbers (steps + 1) text := by
  rw [parseValue, parseValue, skipWhitespace_append blank]

/-! The scan goes to the end of what is spelled exactly where no key stands twice in an object. -/

def Refused {α : Type} (result : Except V2ContractError α) : Prop := ∃ key, result = v2Fail (units "重复 JSON key: " ++ key)

def Settles {α : Type} (distinct : Prop) (result expected : Except V2ContractError α) : Prop :=
  distinct ∧ result = expected ∨ ¬ distinct ∧ Refused result

section Settles

variable {α β : Type} {first second : Prop} {result expected : Except V2ContractError α}

theorem Settles.congr (settles : Settles first result expected) (same : first ↔ second) : Settles second result expected := by
  unfold Settles at settles ⊢
  rwa [← same]

theorem Settles.bind {value : α} {next : α → Except V2ContractError β} {last : Except V2ContractError β}
    (settles : Settles first result (.ok value)) (later : Settles second (next value) last) :
    Settles (first ∧ second) (result >>= next) last := by
  rcases settles with ⟨distinct, rfl⟩ | ⟨repeated, key, rfl⟩
  · exact later.congr ⟨fun other => ⟨distinct, other⟩, And.right⟩
  · exact .inr ⟨fun both => repeated both.1, key, rfl⟩

theorem Settles.trans {last : Except V2ContractError α} (settles : Settles first result expected) (later : Settles second expected last) :
    Settles (first ∧ second) result last := by
  rcases settles with ⟨distinct, rfl⟩ | ⟨repeated, refused⟩
  · exact later.congr ⟨fun other => ⟨distinct, other⟩, And.right⟩
  · exact .inr ⟨fun both => repeated both.1, refused⟩

end Settles

structure Stops (rest : Text) : Prop where
  ends : Ends rest
  visible : ∀ char ∈ rest.head?, isSpace char = false

theorem Stops.comma (rest : Text) : Stops (unit ',' :: rest) := ⟨(Closes.comma rest).ends, by rintro _ ⟨⟩; decide⟩

theorem Stops.bracket (rest : Text) : Stops (unit ']' :: rest) := ⟨(Closes.bracket rest).ends, by rintro _ ⟨⟩; decide⟩

theorem Stops.brace (rest : Text) : Stops (unit '\x7d' :: rest) := ⟨(Closes.brace rest).ends, by rintro _ ⟨⟩; decide⟩

theorem Stops.skip (stops : Stops rest) : skipWhitespace rest = rest := by
  cases rest with
  | nil => rfl
  | cons char rest => exact skipWhitespace_cons (stops.visible char rfl)

def continueObject (numbers : Numbers N) (steps : Nat) (keys : List Text) (rest : Text) : Except V2ContractError Text :=
  if rest.head? = some (unit '\x7d') then .ok rest.tail
  else if rest.head? ≠ some (unit ',') then v2FailPlain
  else parseObject numbers steps keys rest.tail

def continueArray (numbers : Numbers N) (steps : Nat) (rest : Text) : Except V2ContractError Text :=
  if rest.head? = some (unit ']') then .ok rest.tail
  else if rest.head? ≠ some (unit ',') then v2FailPlain
  else parseArray numbers steps rest.tail

def Scans (numbers : Numbers N) (text : Text) : Phrase → Prop
  | .value tree => ∀ (steps : Nat) (rest : Text), Ends rest → 2 * text.length ≤ steps →
      Settles (Distinct tree) (parseValue numbers steps (text ++ rest)) (.ok rest)
  | .item tree => ∀ (steps : Nat) (rest : Text), Stops rest → 2 * text.length ≤ steps →
      ∃ left, skipWhitespace left = rest ∧ Settles (Distinct tree) (parseValue numbers steps (text ++ rest)) (.ok left)
  | .items trees => ∀ (steps : Nat) (rest : Text), 2 * text.length + 1 ≤ steps →
      Settles (∀ tree ∈ trees, Distinct tree) (parseArray numbers steps (text ++ unit ']' :: rest)) (.ok rest)
  | .member member => ∀ (steps : Nat) (keys : List Text) (rest : Text), Stops rest → 2 * text.length ≤ steps + 6 →
      Settles (member.1 ∉ keys ∧ Distinct member.2) (parseObject numbers (steps + 1) keys (text ++ rest))
        (continueObject numbers steps (keys ++ [member.1]) rest)
  | .members trees => ∀ (steps : Nat) (keys : List Text) (rest : Text), 2 * text.length + 1 ≤ steps →
      Settles (Repeats (fun _ => False) keys trees ∧ ∀ member ∈ trees, Distinct member.2)
        (parseObject numbers steps keys (text ++ unit '\x7d' :: rest)) (.ok rest)

section Each

variable {text before after word key name more : Text} {tree : Tree} {trees : List Tree} {entry : Text × Tree} {members : List (Text × Tree)}

theorem Scans.item (opens : Blank before) (spells : Spells word (.value tree)) (closes : Blank after)
    (ih : Scans numbers word (.value tree)) : Scans numbers (before ++ word ++ after) (.item tree) := by
  intro steps rest stops enough
  obtain ⟨char, more, same, _⟩ := spells.begins
  have filled : word.length = more.length + 1 := congrArg List.length same
  simp only [List.length_append] at enough
  refine ⟨after ++ rest, (skipWhitespace_append closes rest).trans stops.skip, ?_⟩
  cases steps with
  | zero => omega
  | succ steps =>
    rw [List.append_assoc, List.append_assoc, parseValue_skip opens]
    exact ih (steps + 1) (after ++ rest) (ends_append closes stops.ends) (by omega)

theorem parseArray_step {steps : Nat} {left : Text} {distinct : Prop} (filled : text ≠ []) (skipped : skipWhitespace left = rest)
    (settles : Settles distinct (parseValue numbers steps text) (.ok left)) :
    Settles distinct (parseArray numbers (steps + 1) text) (continueArray numbers steps rest) := by
  have later : Settles True (continueArray numbers steps rest) (continueArray numbers steps rest) := .inl ⟨trivial, rfl⟩
  subst skipped
  have none : ¬ text.isEmpty = true := fun empty => filled (List.isEmpty_iff.mp empty)
  rw [parseArray, if_neg none]
  exact (settles.bind later).congr (iff_of_eq (and_true _))

theorem item_filled (spells : Spells text (.item tree)) : text ++ rest ≠ [] := by
  obtain ⟨before, char, more, _, rfl, _⟩ := spells.item_begins
  simp

theorem Scans.lastItem (spells : Spells text (.item tree)) (ih : Scans numbers text (.item tree)) : Scans numbers text (.items [tree]) := by
  intro steps rest enough
  cases steps with
  | zero => omega
  | succ steps =>
    obtain ⟨left, skipped, settles⟩ := ih steps _ (.bracket rest) (by omega)
    exact (parseArray_step (item_filled spells) skipped settles).congr List.forall_mem_singleton.symm

theorem Scans.nextItem (spells : Spells text (.item tree)) (ih : Scans numbers text (.item tree))
    (later : Scans numbers more (.items trees)) : Scans numbers (text ++ unit ',' :: more) (.items (tree :: trees)) := by
  intro steps rest enough
  rw [List.length_append, List.length_cons] at enough
  cases steps with
  | zero => omega
  | succ steps =>
    obtain ⟨left, skipped, settles⟩ := ih steps _ (.comma (more ++ unit ']' :: rest)) (by omega)
    have others : Settles (∀ tree ∈ trees, Distinct tree) (continueArray numbers steps (unit ',' :: (more ++ unit ']' :: rest))) (.ok rest) :=
      later steps rest (by omega)
    rw [List.append_assoc, List.cons_append]
    exact ((parseArray_step (item_filled spells) skipped settles).trans others).congr List.forall_mem_cons.symm

theorem Scans.member (opens : Blank before) (chars : Chars key name) (closes : Blank after) (ih : Scans numbers text (.item tree)) :
    Scans numbers (before ++ unit '"' :: key ++ unit '"' :: after ++ unit ':' :: text) (.member (name, tree)) := by
  intro steps keys rest stops enough
  simp only [List.length_append, List.length_cons] at enough
  obtain ⟨left, skipped, settles⟩ := ih steps rest stops (by omega)
  simp only [List.append_assoc, List.cons_append]
  have start : skipWhitespace (before ++ unit '"' :: (key ++ unit '"' :: (after ++ unit ':' :: (text ++ rest)))) =
      unit '"' :: (key ++ unit '"' :: (after ++ unit ':' :: (text ++ rest))) :=
    (skipWhitespace_append opens _).trans (skipWhitespace_cons (by decide))
  have colon : skipWhitespace (after ++ unit ':' :: (text ++ rest)) = unit ':' :: (text ++ rest) :=
    (skipWhitespace_append closes _).trans (skipWhitespace_cons (by decide))
  have some : ¬ (before ++ unit '"' :: (key ++ unit '"' :: (after ++ unit ':' :: (text ++ rest)))).isEmpty = true := by simp
  rw [parseObject, if_neg some, start, parseString_chars chars]
  by_cases repeated : name ∈ keys
  · refine .inr ⟨fun both => both.1 repeated, name, ?_⟩
    exact if_pos (by simpa using repeated)
  · have later : Settles True (continueObject numbers steps (keys ++ [name]) rest) (continueObject numbers steps (keys ++ [name]) rest) :=
      .inl ⟨trivial, rfl⟩
    have fresh : ¬ keys.contains name = true := by simpa using repeated
    have both : Settles (name ∉ keys ∧ Distinct tree) (parseValue numbers steps (text ++ rest) >>= fun left =>
        continueObject numbers steps (keys ++ [name]) (skipWhitespace left)) (continueObject numbers steps (keys ++ [name]) rest) :=
      (settles.bind (skipped.symm ▸ later)).congr ⟨fun both => ⟨repeated, both.1⟩, fun both => ⟨both.2, trivial⟩⟩
    simp only [bind, Except.bind, if_neg fresh, colon]
    exact both

theorem Scans.lastMember (ih : Scans numbers text (.member entry)) : Scans numbers text (.members [entry]) := by
  intro steps keys rest enough
  cases steps with
  | zero => omega
  | succ steps =>
    refine (ih steps keys _ (.brace rest) (by omega)).congr ?_
    rw [repeats_cons, List.forall_mem_singleton]
    exact and_congr_left fun _ => (and_iff_left repeats_nil).symm

theorem Scans.nextMember (ih : Scans numbers text (.member entry)) (later : Scans numbers more (.members members)) :
    Scans numbers (text ++ unit ',' :: more) (.members (entry :: members)) := by
  intro steps keys rest enough
  rw [List.length_append, List.length_cons] at enough
  cases steps with
  | zero => omega
  | succ steps =>
    have first := ih steps keys _ (.comma (more ++ unit '\x7d' :: rest)) (by omega)
    have others : Settles (Repeats (fun _ => False) (keys ++ [entry.1]) members ∧ ∀ member ∈ members, Distinct member.2)
        (continueObject numbers steps (keys ++ [entry.1]) (unit ',' :: (more ++ unit '\x7d' :: rest))) (.ok rest) :=
      later steps (keys ++ [entry.1]) rest (by omega)
    rw [List.append_assoc, List.cons_append]
    refine (first.trans others).congr ?_
    rw [repeats_cons, List.forall_mem_cons]
    exact and_and_and_comm

theorem distinct_array : Distinct (.array trees : Tree) ↔ ∀ tree ∈ trees, Distinct tree := by
  constructor
  · intro distinct
    cases distinct with
    | array each => exact each
  · exact .array

theorem distinct_object : Distinct (.object members : Tree) ↔
    Repeats (fun _ => False) [] members ∧ ∀ member ∈ members, Distinct member.2 := by
  rw [repeats_never]
  constructor
  · intro distinct
    cases distinct with
    | object nodup each => exact ⟨⟨nofun, nodup⟩, each⟩
  · rintro ⟨⟨_, nodup⟩, each⟩
    exact .object nodup each

theorem Scans.array (spells : Spells text (.items trees)) (ih : Scans numbers text (.items trees)) :
    Scans numbers (unit '[' :: text ++ [unit ']']) (.value (.array trees)) := by
  intro steps rest ends enough
  obtain ⟨before, char, later, blank, same, begins⟩ := spells.items_begin
  have start : skipWhitespace (text ++ unit ']' :: rest) = char :: (later ++ unit ']' :: rest) := by
    rw [same, List.append_assoc, List.cons_append, skipWhitespace_append blank, skipWhitespace_cons (isSpace_of_begins begins)]
  simp only [List.length_append, List.length_cons, List.length_nil] at enough
  match steps, enough with
  | steps + 3, enough =>
    have settles := ih (steps + 2) rest (by omega)
    have skipped : parseArray numbers (steps + 2) (text ++ unit ']' :: rest) =
        parseArray numbers (steps + 2) (char :: (later ++ unit ']' :: rest)) := by
      rw [same, List.append_assoc, List.cons_append, parseArray, parseArray, parseValue_skip blank]
      simp
    have bracket : ¬ some char = some (unit ']') := fun close => (begins_opens begins).2.1 (Option.some.inj close)
    rw [List.cons_append, List.cons_append, List.append_assoc, List.singleton_append, parseValue_array, start, List.head?_cons,
      if_neg bracket, ← skipped]
    exact settles.congr distinct_array.symm

theorem Scans.object (spells : Spells text (.members members)) (ih : Scans numbers text (.members members)) :
    Scans numbers (unit '\x7b' :: text ++ [unit '\x7d']) (.value (.object members)) := by
  intro steps rest ends enough
  obtain ⟨before, later, blank, same⟩ := spells.members_begin
  have start : skipWhitespace (text ++ unit '\x7d' :: rest) = unit '"' :: (later ++ unit '\x7d' :: rest) := by
    rw [same, List.append_assoc, List.cons_append, skipWhitespace_append blank, skipWhitespace_cons (by decide)]
  simp only [List.length_append, List.length_cons, List.length_nil] at enough
  match steps, enough with
  | steps + 2, enough =>
    have settles := ih (steps + 1) [] rest (by omega)
    have skipped : parseObject numbers (steps + 1) [] (text ++ unit '\x7d' :: rest) =
        parseObject numbers (steps + 1) [] (unit '"' :: (later ++ unit '\x7d' :: rest)) := by
      rw [same, List.append_assoc, List.cons_append, parseObject, parseObject, skipWhitespace_append blank]
      simp
    have brace : ¬ some (unit '"') = some (unit '\x7d') := by decide
    rw [List.cons_append, List.cons_append, List.append_assoc, List.singleton_append, parseValue_object, start, List.head?_cons,
      if_neg brace, ← skipped]
    exact settles.congr distinct_object.symm

theorem Scans.plain (distinct : Distinct tree)
    (read : ∀ (steps : Nat) (rest : Text), Ends rest → parseValue numbers (steps + 1) (text ++ rest) = .ok rest) (filled : text ≠ []) :
    Scans numbers text (.value tree) := by
  intro steps rest ends enough
  have long := List.length_pos_iff.mpr filled
  cases steps with
  | zero => omega
  | succ steps => exact .inl ⟨distinct, read steps rest ends⟩

theorem Scans.literal {char : Nat} {letters : Text} (same : text = char :: letters) (begins : Begins char) (brace : char ≠ unit '\x7b')
    (bracket : char ≠ unit '[') (quote : char ≠ unit '"') (scanned : ∀ rest, matchScalar (char :: (letters ++ rest)) = some rest)
    (distinct : Distinct tree) : Scans numbers text (.value tree) := by
  subst same
  exact .plain distinct (fun _ rest _ => parseValue_scalar begins brace bracket quote (scanned rest)) (List.cons_ne_nil _ _)

end Each

theorem scans {text : Text} {phrase : Phrase} (spells : Spells text phrase) : Scans numbers text phrase := by
  induction spells with
  | null =>
    have letters : units "null" = unit 'n' :: units "ull" := by decide
    exact .literal letters (.inl (by decide)) (by decide) (by decide) (by decide) (fun _ => rfl) .null
  | true =>
    have letters : units "true" = unit 't' :: units "rue" := by decide
    exact .literal letters (.inl (by decide)) (by decide) (by decide) (by decide) (fun _ => rfl) (.bool _)
  | false =>
    have letters : units "false" = unit 'f' :: units "alse" := by decide
    exact .literal letters (.inl (by decide)) (by decide) (by decide) (by decide) (fun _ => rfl) (.bool _)
  | number number =>
    obtain ⟨char, more, rfl, first⟩ := number.head
    have apart : char ≠ unit '\x7b' ∧ char ≠ unit '[' ∧ char ≠ unit '"' := by
      rcases first with rfl | digit
      · decide
      · have bounds : unit '"' < unit '0' ∧ unit '9' < unit '\x7b' ∧ unit '9' < unit '[' := by decide
        unfold Digit at digit
        omega
    have begins : Begins char := first.imp_left fun dash => by
      rw [dash]
      decide
    refine .plain (.number _) (fun steps rest ends => ?_) (List.cons_ne_nil _ _)
    exact parseValue_scalar begins apart.1 apart.2.1 apart.2.2 (matchScalar_number number ends)
  | string chars =>
    refine .plain (.string _) (fun steps rest _ => ?_) (List.cons_ne_nil _ _)
    rw [List.cons_append, List.cons_append, List.append_assoc, List.singleton_append, parseValue_string, parseString_chars chars]
    rfl
  | emptyArray blanks =>
    refine .plain (.array nofun) (fun steps rest _ => ?_) (List.cons_ne_nil _ _)
    rw [List.cons_append, List.cons_append, List.append_assoc, List.singleton_append, parseValue_array, skipWhitespace_append blanks,
      skipWhitespace_cons (by decide)]
    rfl
  | emptyObject blanks =>
    refine .plain (.object .nil nofun) (fun steps rest _ => ?_) (List.cons_ne_nil _ _)
    rw [List.cons_append, List.cons_append, List.append_assoc, List.singleton_append, parseValue_object, skipWhitespace_append blanks,
      skipWhitespace_cons (by decide)]
    rfl
  | array spells ih => exact .array spells ih
  | object spells ih => exact .object spells ih
  | item opens spells closes ih => exact .item opens spells closes ih
  | lastItem spells ih => exact .lastItem spells ih
  | nextItem spells _ ih later => exact .nextItem spells ih later
  | member opens chars closes _ ih => exact .member opens chars closes ih
  | lastMember _ ih => exact .lastMember ih
  | nextMember _ _ ih later => exact .nextMember ih later

theorem parsed_iff {text : Text} : (∃ value, jsonParse numbers text = .ok value) ↔ ∃ tree, Document text tree := by
  rw [jsonParse, parse_accepts]
  constructor
  · rintro ⟨tree, document, _⟩
    exact ⟨tree, document⟩
  · rintro ⟨tree, document⟩
    exact ⟨tree, document, document.admits.mono (fun _ _ => ⟨_, rfl⟩) (fun _ _ => rfl) fun _ _ => rfl⟩

theorem scanned_iff {text : Text} {tree : Tree} (document : Document text tree) :
    (∃ left, skipWhitespace left = [] ∧ parseValue numbers (2 * text.length + 2) text = .ok left) ↔ Distinct tree := by
  have none : Stops [] := ⟨nofun, nofun⟩
  obtain ⟨left, skipped, settles⟩ := scans document (2 * text.length + 2) [] none (by omega)
  rw [List.append_nil] at settles
  rcases settles with ⟨distinct, passed⟩ | ⟨repeated, key, refused⟩
  · exact iff_of_true ⟨left, skipped, passed⟩ distinct
  · refine iff_of_false ?_ repeated
    rintro ⟨other, _, passed⟩
    rw [refused] at passed
    cases passed

theorem parseJson_ok_iff {text : Text} : (∃ value, parseJsonWithoutDuplicateKeys numbers text = .ok value) ↔
    (∃ left, skipWhitespace left = [] ∧ parseValue numbers (2 * text.length + 2) text = .ok left) ∧
      ∃ value, jsonParse numbers text = .ok value := by
  constructor
  · rintro ⟨value, returned⟩
    obtain ⟨left, passed, returned⟩ := Outcomes.of_ok_bind returned
    split at returned
    next ended =>
      split at returned
      next found parsed => exact ⟨⟨left, List.isEmpty_iff.mp ended, passed⟩, found, parsed⟩
      next => cases returned
    next => cases returned
  · rintro ⟨⟨left, skipped, passed⟩, value, parsed⟩
    refine ⟨value, ?_⟩
    rw [parseJsonWithoutDuplicateKeys, passed]
    simp only [bind, Except.bind, skipped, List.isEmpty_nil, if_true, parsed]

/-! What I-JSON asks of numbers and strings. -/

/-- Every surrogate is half of a pair. -/
def Paired (text : Text) : Prop := ∀ unit, [unit] ∈ codePoints text → isHigh unit = false ∧ isLow unit = false

theorem hasLoneSurrogate_iff {text : Text} : hasLoneSurrogate text = false ↔ Paired text := by
  induction text using codePoints_induction with
  | nil => exact iff_of_true rfl nofun
  | pair first second rest high low ih =>
    rw [Paired, codePoints_pair high low]
    simp only [hasLoneSurrogate, high, low, if_true]
    rw [ih]
    simp [Paired]
  | single first rest apart ih =>
    have whole : Paired (first :: rest) ↔ (isHigh first = false ∧ isLow first = false) ∧ Paired rest := by
      rw [Paired, codePoints_single apart]
      simp only [Paired, List.mem_cons, List.cons.injEq, and_true, forall_eq_or_imp]
    rw [whole, ← ih]
    cases high : isHigh first with
    | true =>
      refine iff_of_false ?_ (by simp)
      cases rest with
      | nil => simp [hasLoneSurrogate, high]
      | cons next later =>
        have low : isLow next = false := by
          by_contra low
          exact apart ⟨high, next, rfl, Bool.eq_true_of_not_eq_false low⟩
        simp [hasLoneSurrogate, high, low]
    | false =>
      cases low : isLow first with
      | true =>
        rw [hasLoneSurrogate.eq_def]
        simp [high, low]
      | false =>
        rw [hasLoneSurrogate.eq_def]
        simp [high, low]

variable (numbers) in
/-- An integer literal is safe, and every number is finite. -/
def Exact (literal : Text × Bool) : Prop :=
  (literal.2 = true → isSafe (bigInt literal.1) = true) ∧ numbers.isFinite (numbers.ofText literal.1) = true

variable (numbers) in
/-- What I-JSON asks beyond distinct keys. -/
abbrev Portable : Tree → Prop := Made (Exact numbers) Paired

theorem number_accepted {literal : Text × Bool} :
    (∃ value, (iJson numbers).number literal.1 literal.2 = .ok value) ↔ Exact numbers literal := by
  obtain ⟨literal, whole⟩ := literal
  simp only [iJson, Exact]
  cases whole <;> cases isSafe (bigInt literal) <;> cases numbers.isFinite (numbers.ofText literal) <;> simp

theorem string_accepted {text : Text} : (iJson numbers).string text = .ok () ↔ Paired text := by
  rw [← hasLoneSurrogate_iff]
  simp only [iJson]
  cases hasLoneSurrogate text <;> simp

theorem granted_iff {tree : Tree} : Granted (iJson numbers) tree ↔ Portable numbers tree := by
  rw [Portable, ← admits_iff_made]
  constructor
  · exact fun granted => granted.mono (fun _ => number_accepted.mp) (fun _ => string_accepted.mp) fun _ => nofun
  · exact fun admits => admits.mono (fun _ => number_accepted.mpr) (fun _ => string_accepted.mpr) fun _ => False.elim

theorem parseIJson_ok_iff {text : Text} : (∃ value, parseIJson numbers text = .ok value) ↔
    ∃ value, JsonReader.parse (iJson numbers) text = .ok value := by
  rw [parseIJson]
  cases JsonReader.parse (iJson numbers) text with
  | ok value => exact iff_of_true ⟨value, rfl⟩ ⟨value, rfl⟩
  | error stop => exact iff_of_false nofun nofun

/-- Both readers accept the texts of one grammar in which no object has a key twice. -/
theorem accepts_distinct (numbers : Numbers N) (text : Text) :
    ((∃ value, parseJsonWithoutDuplicateKeys numbers text = .ok value) ↔ ∃ tree, Document text tree ∧ Distinct tree) ∧
      ((∃ value, parseIJson numbers text = .ok value) ↔ ∃ tree, Document text tree ∧ Distinct tree ∧ Portable numbers tree) := by
  constructor
  · rw [parseJson_ok_iff, parsed_iff]
    constructor
    · rintro ⟨passed, tree, document⟩
      exact ⟨tree, document, (scanned_iff document).mp passed⟩
    · rintro ⟨tree, document, distinct⟩
      exact ⟨(scanned_iff document).mpr distinct, tree, document⟩
  · rw [parseIJson_ok_iff, parse_accepts]
    constructor
    · rintro ⟨tree, document, granted⟩
      have portable := granted_iff.mp granted
      exact ⟨tree, document, portable.distinct, portable⟩
    · rintro ⟨tree, document, _, portable⟩
      exact ⟨tree, document, granted_iff.mpr portable⟩

end AgentSaas.Proofs.DuplicateFreeJson
