import AgentSaas.Proofs.JsonRoundTrip
import Mathlib.Data.List.DropRight

/-! The reader accepts a text exactly where the grammar spells a tree that the dialect admits. -/

namespace AgentSaas.Proofs.JsonTexts
open JsonReader JsonValues JsonGrammar JsonLiterals JsonRoundTrip
open ToolCallRepair (Text unit units)

variable {N ε : Type} {dialect : Dialect N ε} {rest : Text}

theorem hexValue_of_hex {char value : Nat} (hex : Hex char value) : hexValue char = some value := by
  cases hex with
  | digit small =>
    have all : ∀ value < 10, hexValue (unit '0' + value) = some value := by decide
    exact all _ small
  | lower small =>
    have all : ∀ value < 6, hexValue (unit 'a' + value) = some (10 + value) := by decide
    exact all _ small
  | upper small =>
    have all : ∀ value < 6, hexValue (unit 'A' + value) = some (10 + value) := by decide
    exact all _ small

theorem hex_of_hexValue {char value : Nat} (found : hexValue char = some value) : Hex char value := by
  have nine : unit '9' = unit '0' + 9 := by decide
  have f : unit 'f' = unit 'a' + 5 ∧ unit 'F' = unit 'A' + 5 := by decide
  unfold hexValue at found
  split at found
  next digit =>
    obtain ⟨offset, rfl⟩ := Nat.exists_eq_add_of_le digit.1
    cases found
    rw [Nat.add_sub_cancel_left]
    exact .digit (by omega)
  split at found
  next lower =>
    obtain ⟨offset, rfl⟩ := Nat.exists_eq_add_of_le lower.1
    cases found
    rw [Nat.add_sub_cancel_left, Nat.add_comm offset]
    exact .lower (by omega)
  split at found
  next upper =>
    obtain ⟨offset, rfl⟩ := Nat.exists_eq_add_of_le upper.1
    cases found
    rw [Nat.add_sub_cancel_left, Nat.add_comm offset]
    exact .upper (by omega)
  next => cases found

theorem escapeOf_of_mem : ∀ pair ∈ escapes, escapeOf pair.1 = some pair.2 ∧ pair.1 ≠ unit 'u' := by decide

theorem mem_of_escapeOf {letter char : Nat} (found : escapeOf letter = some char) : (letter, char) ∈ escapes := by
  unfold escapeOf at found
  iterate 8
    split at found
    next same =>
      rw [same, ← Option.some.inj found]
      decide
  cases found

theorem parseChars_spelled {front text out : Text} (chars : Chars text out) (accepted : dialect.string (front ++ out) = .ok ()) :
    parseChars dialect front (text ++ unit '"' :: rest) = .ok (front ++ out, rest) := by
  induction chars generalizing front with
  | nil =>
    rw [List.append_nil] at accepted ⊢
    rw [List.nil_append, parseChars.eq_def]
    simp only [if_true, accepted]
  | plain control quote escape _ ih =>
    rw [List.cons_append, parseChars_plain front quote escape (by omega), ih (by simpa using accepted)]
    simp
  | escape pair _ ih =>
    obtain ⟨found, short⟩ := escapeOf_of_mem _ pair
    rw [List.cons_append, List.cons_append, parseChars_escape front found short, ih (by simpa using accepted)]
    simp
  | unicode first second third fourth _ ih =>
    have open_quote : ¬ unit '\\' = unit '"' := by decide
    simp only [List.cons_append]
    rw [parseChars.eq_def]
    simp only [if_neg open_quote, if_true, parseHex4, hexValue_of_hex first, hexValue_of_hex second, hexValue_of_hex third,
      hexValue_of_hex fourth, bind, Option.bind_some, pure]
    rw [ih (by simpa using accepted)]
    simp

theorem parseString_spelled {text out : Text} (chars : Chars text out) (accepted : dialect.string out = .ok ()) :
    parseString dialect (unit '"' :: (text ++ unit '"' :: rest)) = .ok (out, rest) := by
  have whole : parseChars dialect [] (text ++ unit '"' :: rest) = .ok ([] ++ out, rest) := parseChars_spelled chars accepted
  rw [parseString, expect, if_pos rfl]
  exact whole

theorem parseHex4_some {first second third fourth char : Nat} (found : parseHex4 first second third fourth = some char) :
    ∃ one two three four, Hex first one ∧ Hex second two ∧ Hex third three ∧ Hex fourth four ∧
      char = one * 4096 + two * 256 + three * 16 + four := by
  simp only [parseHex4, bind, Option.bind_eq_some_iff, pure, Option.some.injEq] at found
  obtain ⟨one, first, two, second, three, third, four, fourth, same⟩ := found
  exact ⟨one, two, three, four, hex_of_hexValue first, hex_of_hexValue second, hex_of_hexValue third, hex_of_hexValue fourth, same.symm⟩

theorem parseChars_sound {front text found : Text} (parsed : parseChars dialect front text = .ok (found, rest)) :
    ∃ body out, text = body ++ unit '"' :: rest ∧ Chars body out ∧ found = front ++ out := by
  fun_induction parseChars dialect front text with
  | case1 | case3 | case4 | case6 | case7 | case9 | case10 => cases parsed
  | case2 out rest accepted =>
    cases parsed
    exact ⟨[], [], rfl, .nil, (List.append_nil _).symm⟩
  | case5 out first second third fourth next char hex opens ih =>
    obtain ⟨body, more, rfl, chars, rfl⟩ := ih parsed
    obtain ⟨one, two, three, four, first, second, third, fourth, rfl⟩ := parseHex4_some hex
    exact ⟨_, _, rfl, .unicode first second third fourth chars, List.append_assoc ..⟩
  | case8 out escape later plain char short opens ih =>
    obtain ⟨body, more, rfl, chars, rfl⟩ := ih parsed
    exact ⟨_, _, rfl, .escape (mem_of_escapeOf short) chars, List.append_assoc ..⟩
  | case11 out char later quote escape control ih =>
    obtain ⟨body, more, rfl, chars, rfl⟩ := ih parsed
    exact ⟨_, _, rfl, .plain (by omega) quote escape chars, List.append_assoc ..⟩

theorem parseString_sound {text found : Text} (parsed : parseString dialect text = .ok (found, rest)) :
    ∃ body, text = unit '"' :: (body ++ unit '"' :: rest) ∧ Chars body found ∧ dialect.string found = .ok () := by
  have accepted := parseString_accepted parsed
  unfold parseString at parsed
  split at parsed
  next later opened =>
    unfold expect at opened
    split at opened
    next next remaining =>
      split at opened
      next quote =>
        cases opened
        subst quote
        obtain ⟨body, out, rfl, chars, rfl⟩ := parseChars_sound parsed
        exact ⟨body, rfl, chars, accepted⟩
      · cases opened
    · cases opened
  · cases parsed

/-! What is read as a value is spelled as one. -/

variable (dialect) in
abbrev Granted : Tree → Prop :=
  Admits (fun literal => ∃ value, dialect.number literal.1 literal.2 = .ok value) (fun text => dialect.string text = .ok ())
    fun key => dialect.repeated key = .ok ()

def PassesItem (dialect : Dialect N ε) (text rest : Text) : Prop :=
  ∃ front tree, text = front ++ rest ∧ Spells front (.item tree) ∧ Granted dialect tree

def PassesItems (dialect : Dialect N ε) (text rest : Text) : Prop :=
  ∃ front trees, text = front ++ unit ']' :: rest ∧ Spells front (.items trees) ∧ ∀ tree ∈ trees, Granted dialect tree

def PassesMembers (dialect : Dialect N ε) (keys : List Text) (text rest : Text) : Prop :=
  ∃ front trees, text = front ++ unit '\x7d' :: rest ∧ Spells front (.members trees) ∧
    Repeats (fun key => dialect.repeated key = .ok ()) keys trees ∧ (∀ member ∈ trees, dialect.string member.1 = .ok ()) ∧
      ∀ member ∈ trees, Granted dialect member.2

section Sound

variable {text left : Text} {value : Value N}

theorem isWhitespace_iff {char : Nat} : isWhitespace char = true ↔ char ∈ units " \t\n\r" := by
  have all : units " \t\n\r" = [unit ' ', unit '\t', unit '\n', unit '\r'] := by decide
  simp [isWhitespace, all, or_assoc]

theorem skipWhitespace_blank (text : Text) : ∃ before, Blank before ∧ text = before ++ skipWhitespace text := by
  refine ⟨text.takeWhile isWhitespace, fun char inside => ?_, List.takeWhile_append_dropWhile.symm⟩
  exact isWhitespace_iff.mp (List.mem_takeWhile_imp inside)

theorem skipWhitespace_head {char : Nat} (found : (skipWhitespace text).head? = some char) :
    ∃ before, Blank before ∧ text = before ++ char :: (skipWhitespace text).tail := by
  obtain ⟨before, blank, same⟩ := skipWhitespace_blank text
  refine ⟨before, blank, same.trans ?_⟩
  rw [List.eq_cons_of_mem_head? found]
  rfl

theorem expect_sound {char : Nat} (found : expect (ε := ε) char text = .ok ((), rest)) : text = char :: rest := by
  unfold expect at found
  split at found
  · split at found
    next same =>
      cases found
      rw [same]
    next => cases found
  next => cases found

theorem expect_skip_sound {char : Nat} (found : expect (ε := ε) char (skipWhitespace text) = .ok ((), rest)) :
    ∃ before, Blank before ∧ text = before ++ char :: rest := by
  obtain ⟨before, blank, same⟩ := skipWhitespace_blank text
  exact ⟨before, blank, same.trans (congrArg (before ++ ·) (expect_sound found))⟩

theorem parseItems_sound {steps : Nat}
    (values : ∀ {text rest : Text} {value : Value N}, parseValue dialect steps text = .ok (value, rest) → PassesItem dialect text rest)
    (items : ∀ {out : List (Value N)} {text rest : Text} {value : Value N}, parseItems dialect steps out text = .ok (value, rest) →
      PassesItems dialect text rest)
    {out : List (Value N)} (parsed : parseItems dialect (steps + 1) out text = .ok (value, rest)) : PassesItems dialect text rest := by
  rw [parseItems] at parsed
  obtain ⟨⟨own, later⟩, inner, parsed⟩ := Outcomes.of_ok_bind parsed
  obtain ⟨front, tree, passed, item, granted⟩ := values inner
  dsimp only at parsed
  split at parsed
  next comma =>
    obtain ⟨after, blank, same⟩ := skipWhitespace_head comma
    obtain ⟨more, trees, again, spelled, each⟩ := items parsed
    refine ⟨front ++ after ++ unit ',' :: more, tree :: trees, ?_, .nextItem (item.item_blank blank) spelled,
      List.forall_mem_cons.mpr ⟨granted, each⟩⟩
    rw [passed, same, again]
    simp
  next =>
    obtain ⟨⟨_, last⟩, close, returned⟩ := Outcomes.of_ok_bind parsed
    cases returned
    obtain ⟨after, blank, same⟩ := expect_skip_sound close
    refine ⟨front ++ after, [tree], ?_, .lastItem (item.item_blank blank), by simpa using granted⟩
    rw [passed, same]
    simp

theorem parseKey_sound {out : List (Text × Value N)} {key : Text} (parsed : parseKey dialect out text = .ok (key, rest)) :
    parseString dialect text = .ok (key, rest) ∧ (key ∈ out.map Prod.fst → dialect.repeated key = .ok ()) := by
  obtain ⟨⟨found, later⟩, string, parsed⟩ := Outcomes.of_ok_bind parsed
  dsimp only at parsed
  split at parsed
  next =>
    split at parsed
    next accepted =>
      cases parsed
      exact ⟨string, fun _ => accepted⟩
    next => cases parsed
  next absent =>
    cases parsed
    exact ⟨string, fun inside => absurd (by simpa using inside) absent⟩

theorem parseMembers_sound {steps : Nat}
    (values : ∀ {text rest : Text} {value : Value N}, parseValue dialect steps text = .ok (value, rest) → PassesItem dialect text rest)
    (members : ∀ {out : List (Text × Value N)} {text rest : Text} {value : Value N},
      parseMembers dialect steps out text = .ok (value, rest) → PassesMembers dialect (out.map Prod.fst) text rest)
    {out : List (Text × Value N)} (parsed : parseMembers dialect (steps + 1) out text = .ok (value, rest)) :
    PassesMembers dialect (out.map Prod.fst) text rest := by
  rw [parseMembers] at parsed
  obtain ⟨⟨key, afterKey⟩, string, parsed⟩ := Outcomes.of_ok_bind parsed
  obtain ⟨⟨_, afterColon⟩, colon, parsed⟩ := Outcomes.of_ok_bind parsed
  obtain ⟨⟨own, afterValue⟩, inner, parsed⟩ := Outcomes.of_ok_bind parsed
  obtain ⟨string, fresh⟩ := parseKey_sound string
  obtain ⟨body, opened, chars, accepted⟩ := parseString_sound string
  obtain ⟨before, opens, start⟩ := skipWhitespace_blank text
  obtain ⟨between, closes, named⟩ := expect_skip_sound colon
  obtain ⟨front, tree, item, spelled, granted⟩ := values inner
  have member := Spells.member opens chars closes spelled
  have passed : text = before ++ unit '"' :: body ++ unit '"' :: between ++ unit ':' :: front ++ afterValue := by
    rw [start, opened, named, item]
    simp
  generalize before ++ unit '"' :: body ++ unit '"' :: between ++ unit ':' :: front = whole at member passed
  dsimp only at parsed
  split at parsed
  next comma =>
    obtain ⟨after, blank, same⟩ := skipWhitespace_head comma
    obtain ⟨more, trees, again, rest_spelled, repeats, keys, each⟩ := members parsed
    refine ⟨whole ++ after ++ unit ',' :: more, (key, tree) :: trees, ?_, .nextMember (member.member_blank blank) rest_spelled,
      repeats_cons.mpr ⟨fresh, ?_⟩, List.forall_mem_cons.mpr ⟨accepted, keys⟩, List.forall_mem_cons.mpr ⟨granted, each⟩⟩
    · rw [passed, same, again]
      simp
    · refine repeats_congr (fun other => ?_) repeats
      rw [Dictionaries.Dictionary.mem_keys_setEntries, List.mem_append, List.mem_singleton, or_comm]
  next =>
    obtain ⟨⟨_, last⟩, close, returned⟩ := Outcomes.of_ok_bind parsed
    cases returned
    obtain ⟨after, blank, same⟩ := expect_skip_sound close
    refine ⟨whole ++ after, [(key, tree)], ?_, .lastMember (member.member_blank blank), repeats_cons.mpr ⟨fresh, repeats_nil⟩,
      by simpa using accepted, by simpa using granted⟩
    rw [passed, same]
    simp

theorem parseLiteral_sound {literal : Text} {wanted : Value N} (parsed : parseLiteral (ε := ε) literal wanted text = .ok (value, rest)) :
    text = literal ++ rest := by
  unfold parseLiteral at parsed
  split at parsed
  next found =>
    obtain ⟨later, rfl⟩ := List.isPrefixOf_iff_prefix.mp found
    cases parsed
    rw [List.drop_left]
  next => cases parsed

theorem parseNumber_sound (parsed : parseNumber dialect text = .ok (value, rest)) :
    ∃ literal whole, text = literal ++ rest ∧ Number literal whole ∧ ∃ value, dialect.number literal whole = .ok value := by
  obtain ⟨⟨⟨literal, whole⟩, later⟩, scanned, parsed⟩ := Outcomes.of_ok_bind parsed
  dsimp only at parsed
  split at parsed
  next number accepted =>
    cases parsed
    obtain ⟨same, number⟩ := scanNumber_sound scanned
    exact ⟨literal, whole, same, number, _, accepted⟩
  next => cases parsed

theorem passesItem_of_value {before word : Text} {tree : Tree} (blank : Blank before) (spelled : Spells word (.value tree))
    (granted : Granted dialect tree) (same : text = before ++ (word ++ rest)) : PassesItem dialect text rest := by
  have none : Blank [] := List.forall_mem_nil _
  exact ⟨before ++ word ++ [], tree, by rw [same]; simp, .item blank spelled none, granted⟩

theorem parseValue_sound {steps : Nat}
    (members : ∀ {text rest : Text} {value : Value N}, parseMembers dialect steps [] text = .ok (value, rest) →
      PassesMembers dialect [] text rest)
    (items : ∀ {text rest : Text} {value : Value N}, parseItems dialect steps [] text = .ok (value, rest) → PassesItems dialect text rest)
    (parsed : parseValue dialect (steps + 1) text = .ok (value, rest)) : PassesItem dialect text rest := by
  obtain ⟨before, blank, start⟩ := skipWhitespace_blank text
  rw [parseValue] at parsed
  split at parsed
  · cases parsed
  next char later same =>
    rw [same] at start
    split at parsed
    next brace =>
      subst brace
      split at parsed
      next close =>
        obtain ⟨between, inner, again⟩ := skipWhitespace_head close
        cases parsed
        refine passesItem_of_value blank (.emptyObject inner) (.object repeats_nil (List.forall_mem_nil _) (List.forall_mem_nil _)) ?_
        apply start.trans
        simpa using again
      next =>
        obtain ⟨front, trees, rfl, spelled, repeats, keys, each⟩ := members parsed
        refine passesItem_of_value blank (.object spelled) (.object repeats keys each) ?_
        rw [start]
        simp
    split at parsed
    next bracket =>
      subst bracket
      split at parsed
      next close =>
        obtain ⟨between, inner, again⟩ := skipWhitespace_head close
        cases parsed
        refine passesItem_of_value blank (.emptyArray inner) (.array (List.forall_mem_nil _)) ?_
        apply start.trans
        simpa using again
      next =>
        obtain ⟨between, inner, again⟩ := skipWhitespace_blank later
        obtain ⟨front, trees, rest_same, spelled, each⟩ := items parsed
        refine passesItem_of_value blank (.array (spelled.blank_items inner)) (.array each) ?_
        rw [start, again, rest_same]
        simp
    split at parsed
    next =>
      cases string : parseString dialect (char :: later) with
      | error =>
        rw [string] at parsed
        cases parsed
      | ok pair =>
        rw [string] at parsed
        cases parsed
        obtain ⟨body, opened, chars, accepted⟩ := parseString_sound string
        refine passesItem_of_value blank (.string chars) (.string accepted) ?_
        rw [start, opened]
        simp
    split at parsed
    next => exact passesItem_of_value blank .true (.bool true) (start.trans (congrArg (before ++ ·) (parseLiteral_sound parsed)))
    split at parsed
    next => exact passesItem_of_value blank .false (.bool false) (start.trans (congrArg (before ++ ·) (parseLiteral_sound parsed)))
    split at parsed
    next => exact passesItem_of_value blank .null .null (start.trans (congrArg (before ++ ·) (parseLiteral_sound parsed)))
    split at parsed
    next =>
      obtain ⟨literal, whole, opened, number, accepted⟩ := parseNumber_sound parsed
      exact passesItem_of_value blank (.number number) (.number accepted) (start.trans (congrArg (before ++ ·) opened))
    next => cases parsed

theorem values_sound (dialect : Dialect N ε) (steps : Nat) :
    (∀ {text rest : Text} {value : Value N}, parseValue dialect steps text = .ok (value, rest) → PassesItem dialect text rest) ∧
      (∀ {out : List (Text × Value N)} {text rest : Text} {value : Value N}, parseMembers dialect steps out text = .ok (value, rest) →
        PassesMembers dialect (out.map Prod.fst) text rest) ∧
      ∀ {out : List (Value N)} {text rest : Text} {value : Value N}, parseItems dialect steps out text = .ok (value, rest) →
        PassesItems dialect text rest := by
  induction steps with
  | zero => exact ⟨nofun, nofun, nofun⟩
  | succ steps ih =>
    obtain ⟨values, members, items⟩ := ih
    exact ⟨parseValue_sound members items, parseMembers_sound values members, parseItems_sound values items⟩

theorem parse_sound (parsed : parse dialect text = .ok value) : ∃ tree, Document text tree ∧ Granted dialect tree := by
  obtain ⟨⟨found, later⟩, inner, parsed⟩ := Outcomes.of_ok_bind parsed
  obtain ⟨front, tree, passed, item, granted⟩ := (values_sound dialect _).1 inner
  dsimp only at parsed
  split at parsed
  next ended =>
    obtain ⟨after, blank, same⟩ := skipWhitespace_blank later
    rw [List.isEmpty_iff.mp ended, List.append_nil] at same
    rw [same] at passed
    exact ⟨tree, passed ▸ item.item_blank blank, granted⟩
  next => cases parsed

end Sound

section Complete

/-- What may come after an item: no blank, and nothing that would go on with a number. -/
structure Closes (rest : Text) : Prop where
  ends : Ends rest
  visible : ∀ char ∈ rest.head?, isWhitespace char = false

theorem Closes.comma (rest : Text) : Closes (unit ',' :: rest) :=
  ⟨ends_cons (by decide) (by decide) (by decide) (by decide), by rintro _ ⟨⟩; decide⟩

theorem Closes.bracket (rest : Text) : Closes (unit ']' :: rest) :=
  ⟨ends_cons (by decide) (by decide) (by decide) (by decide), by rintro _ ⟨⟩; decide⟩

theorem Closes.brace (rest : Text) : Closes (unit '\x7d' :: rest) :=
  ⟨ends_cons (by decide) (by decide) (by decide) (by decide), by rintro _ ⟨⟩; decide⟩

theorem skipWhitespace_append {before : Text} (blank : Blank before) (visible : ∀ char ∈ rest.head?, isWhitespace char = false) :
    skipWhitespace (before ++ rest) = rest := by
  have each : ∀ char ∈ before, isWhitespace char = true := fun char inside => isWhitespace_iff.mpr (blank char inside)
  rw [skipWhitespace, List.dropWhile_append_of_pos each]
  cases rest with
  | nil => rfl
  | cons char rest => exact skipWhitespace_cons (visible char rfl)

theorem ends_append {after : Text} (blank : Blank after) (ends : Ends rest) : Ends (after ++ rest) := by
  cases after with
  | nil => exact ends
  | cons char after =>
    have each : ∀ char ∈ units " \t\n\r", isDigit char = false ∧ char ≠ unit '.' ∧ char ≠ unit 'e' ∧ char ≠ unit 'E' := by decide
    rintro _ ⟨⟩
    exact each char (blank char List.mem_cons_self)

theorem begins_opens {char : Nat} (begins : Begins char) : isWhitespace char = false ∧ char ≠ unit ']' ∧ char ≠ unit '\x7d' := by
  have each : ∀ char ∈ units "ntf\"[\x7b-", isWhitespace char = false ∧ char ≠ unit ']' ∧ char ≠ unit '\x7d' := by decide
  rcases begins with inside | digit
  · exact each char inside
  · have bounds : unit ' ' < unit '0' ∧ unit '\t' < unit '0' ∧ unit '\n' < unit '0' ∧ unit '\r' < unit '0' ∧
      unit '9' < unit ']' ∧ unit '9' < unit '\x7d' := by decide
    unfold Digit at digit
    simp only [isWhitespace, Bool.or_eq_false_iff, beq_eq_false_iff_ne]
    omega

theorem parseValue_skip (steps : Nat) (text : Text) : parseValue dialect (steps + 1) (skipWhitespace text) = parseValue dialect (steps + 1) text := by
  rw [parseValue, parseValue, skipWhitespace, skipWhitespace, List.dropWhile_idempotent]

theorem parseItems_skip (steps : Nat) (out : List (Value N)) (text : Text) :
    parseItems dialect (steps + 2) out (skipWhitespace text) = parseItems dialect (steps + 2) out text := by
  rw [parseItems, parseItems, parseValue_skip]

/-- How a stretch of text is read that is spelled, with steps enough and whatever comes after it. -/
def Completes (dialect : Dialect N ε) (text : Text) : Phrase → Prop
  | .value tree => Granted dialect tree → ∀ (steps : Nat) (rest : Text), Ends rest → 2 * text.length ≤ steps →
      ∃ value, parseValue dialect steps (text ++ rest) = .ok (value, rest)
  | .item tree => Granted dialect tree → ∀ (steps : Nat) (rest : Text), Closes rest → 2 * text.length ≤ steps →
      ∃ value left, parseValue dialect steps (text ++ rest) = .ok (value, left) ∧ skipWhitespace left = rest
  | .items trees => (∀ tree ∈ trees, Granted dialect tree) → ∀ (steps : Nat) (out : List (Value N)) (rest : Text),
      2 * text.length + 1 ≤ steps → ∃ value, parseItems dialect steps out (text ++ unit ']' :: rest) = .ok (value, rest)
  | .member member => dialect.string member.1 = .ok () → Granted dialect member.2 →
      ∀ (steps : Nat) (out : List (Text × Value N)) (rest : Text), (member.1 ∈ out.map Prod.fst → dialect.repeated member.1 = .ok ()) →
        Closes rest → 2 * text.length ≤ steps + 6 → ∃ value, parseMembers dialect (steps + 1) out (text ++ rest) =
          if rest.head? = some (unit ',') then
            parseMembers dialect steps (Dictionaries.Dictionary.setEntries out member.1 value) rest.tail
          else (expect (unit '\x7d') rest).map fun found =>
            (.object (Dictionaries.Dictionary.setEntries out member.1 value), found.2)
  | .members trees => (∀ member ∈ trees, dialect.string member.1 = .ok ()) → (∀ member ∈ trees, Granted dialect member.2) →
      ∀ (steps : Nat) (out : List (Text × Value N)) (rest : Text),
        Repeats (fun key => dialect.repeated key = .ok ()) (out.map Prod.fst) trees → 2 * text.length + 1 ≤ steps →
          ∃ value, parseMembers dialect steps out (text ++ unit '\x7d' :: rest) = .ok (value, rest)

section Each

variable {text before after word key name more : Text} {tree : Tree} {trees : List Tree} {entry : Text × Tree} {members : List (Text × Tree)}

theorem Completes.item (opens : Blank before) (spells : Spells word (.value tree)) (closes : Blank after)
    (ih : Completes dialect word (.value tree)) : Completes dialect (before ++ word ++ after) (.item tree) := by
  intro granted steps rest closed enough
  obtain ⟨char, more, same, begins⟩ := spells.begins
  have filled : word.length = more.length + 1 := congrArg List.length same
  simp only [List.length_append] at enough
  have skipped : skipWhitespace (before ++ (word ++ (after ++ rest))) = word ++ (after ++ rest) := by
    rw [same]
    apply skipWhitespace_append opens
    rintro _ ⟨⟩
    exact (begins_opens begins).1
  cases steps with
  | zero => omega
  | succ steps =>
    obtain ⟨value, parsed⟩ := ih granted (steps + 1) (after ++ rest) (ends_append closes closed.ends) (by omega)
    refine ⟨value, after ++ rest, ?_, skipWhitespace_append closes closed.visible⟩
    rw [← parseValue_skip, List.append_assoc, List.append_assoc, skipped]
    exact parsed

theorem Completes.lastItem (ih : Completes dialect text (.item tree)) : Completes dialect text (.items [tree]) := by
  intro granted steps out rest enough
  cases steps with
  | zero => omega
  | succ steps =>
    obtain ⟨value, left, parsed, skipped⟩ := ih (granted tree List.mem_cons_self) steps _ (.bracket rest) (by omega)
    refine ⟨.array (out ++ [value]), ?_⟩
    rw [parseItems_step parsed, skipped]
    rfl

theorem Completes.nextItem (ih : Completes dialect text (.item tree)) (later : Completes dialect more (.items trees)) :
    Completes dialect (text ++ unit ',' :: more) (.items (tree :: trees)) := by
  intro granted steps out rest enough
  obtain ⟨first, each⟩ := List.forall_mem_cons.mp granted
  rw [List.length_append, List.length_cons] at enough
  cases steps with
  | zero => omega
  | succ steps =>
    obtain ⟨value, left, parsed, skipped⟩ := ih first steps _ (.comma (more ++ unit ']' :: rest)) (by omega)
    obtain ⟨found, returned⟩ := later each steps (out ++ [value]) rest (by omega)
    refine ⟨found, ?_⟩
    rw [List.append_assoc, List.cons_append, parseItems_step parsed, skipped, List.head?_cons, if_pos rfl]
    exact returned

theorem parseKey_complete {out : List (Text × Value N)} (read : parseString dialect text = .ok (name, rest))
    (repeats : name ∈ out.map Prod.fst → dialect.repeated name = .ok ()) : parseKey dialect out text = .ok (name, rest) := by
  rw [parseKey, read]
  simp only [bind, Except.bind]
  split
  next inside => rw [repeats (by simpa using inside)]
  next => rfl

theorem expect_skip_complete {char : Nat} (blank : Blank after) (visible : isWhitespace char = false) :
    expect (ε := ε) char (skipWhitespace (after ++ char :: rest)) = .ok ((), rest) := by
  rw [skipWhitespace_append blank (by rintro _ ⟨⟩; exact visible), expect, if_pos rfl]

theorem Completes.member (opens : Blank before) (chars : Chars key name) (closes : Blank after)
    (ih : Completes dialect text (.item tree)) :
    Completes dialect (before ++ unit '"' :: key ++ unit '"' :: after ++ unit ':' :: text) (.member (name, tree)) := by
  intro accepted granted steps out rest repeats closed enough
  simp only [List.length_append, List.length_cons] at enough
  obtain ⟨value, left, parsed, skipped⟩ := ih granted steps rest closed (by omega)
  refine ⟨value, ?_⟩
  have start : skipWhitespace (before ++ unit '"' :: (key ++ unit '"' :: (after ++ unit ':' :: (text ++ rest)))) =
      unit '"' :: (key ++ unit '"' :: (after ++ unit ':' :: (text ++ rest))) :=
    skipWhitespace_append opens (by rintro _ ⟨⟩; decide)
  have named : parseKey dialect out (unit '"' :: (key ++ unit '"' :: (after ++ unit ':' :: (text ++ rest)))) =
      .ok (name, after ++ unit ':' :: (text ++ rest)) := parseKey_complete (parseString_spelled chars accepted) repeats
  have colon : expect (ε := ε) (unit ':') (skipWhitespace (after ++ unit ':' :: (text ++ rest))) = .ok ((), text ++ rest) :=
    expect_skip_complete closes (by decide)
  simp only [List.append_assoc, List.cons_append]
  rw [parseMembers, start, named]
  simp only [bind, Except.bind, colon, parsed, skipped]
  split
  next => rfl
  next => cases expect (ε := ε) (unit '\x7d') rest <;> rfl

theorem Completes.lastMember (ih : Completes dialect text (.member entry)) : Completes dialect text (.members [entry]) := by
  intro keys granted steps out rest repeats enough
  cases steps with
  | zero => omega
  | succ steps =>
    obtain ⟨value, same⟩ := ih (keys entry List.mem_cons_self) (granted entry List.mem_cons_self) steps out _
      (repeats_cons.mp repeats).1 (.brace rest) (by omega)
    exact ⟨_, same⟩

theorem Completes.nextMember (ih : Completes dialect text (.member entry)) (later : Completes dialect more (.members members)) :
    Completes dialect (text ++ unit ',' :: more) (.members (entry :: members)) := by
  intro keys granted steps out rest repeats enough
  obtain ⟨first, others⟩ := repeats_cons.mp repeats
  rw [List.length_append, List.length_cons] at enough
  cases steps with
  | zero => omega
  | succ steps =>
    obtain ⟨value, same⟩ := ih (keys entry List.mem_cons_self) (granted entry List.mem_cons_self) steps out _ first
      (.comma (more ++ unit '\x7d' :: rest)) (by omega)
    have grown : Repeats (fun key => dialect.repeated key = .ok ())
        ((Dictionaries.Dictionary.setEntries out entry.1 value).map Prod.fst) members := by
      refine repeats_congr (fun key => ?_) others
      rw [Dictionaries.Dictionary.mem_keys_setEntries, List.mem_append, List.mem_singleton, or_comm]
    obtain ⟨found, returned⟩ := later (fun member inside => keys member (.tail _ inside)) (fun member inside => granted member (.tail _ inside))
      steps _ rest grown (by omega)
    refine ⟨found, ?_⟩
    rw [List.append_assoc, List.cons_append, same, List.head?_cons, if_pos rfl]
    exact returned

theorem parseNumber_spelled {literal : Text} {whole : Bool} {value : N} (number : Number literal whole)
    (accepted : dialect.number literal whole = .ok value) (ends : Ends rest) :
    parseNumber dialect (literal ++ rest) = .ok (.number value, rest) := by
  rw [parseNumber, scanNumber_spelled number ends]
  simp only [bind, Except.bind, accepted]

theorem Completes.array (spells : Spells text (.items trees)) (ih : Completes dialect text (.items trees)) :
    Completes dialect (unit '[' :: text ++ [unit ']']) (.value (.array trees)) := by
  intro granted steps rest ends enough
  obtain ⟨before, char, more, blank, same, begins⟩ := spells.items_begin
  obtain ⟨visible, bracket, _⟩ := begins_opens begins
  have start : skipWhitespace (text ++ unit ']' :: rest) = char :: (more ++ unit ']' :: rest) := by
    rw [same, List.append_assoc, List.cons_append]
    apply skipWhitespace_append blank
    rintro _ ⟨⟩
    exact visible
  simp only [List.length_append, List.length_cons, List.length_nil] at enough
  cases granted with
  | array each =>
    match steps, enough with
    | steps + 3, enough =>
      obtain ⟨value, parsed⟩ := ih each (steps + 2) [] rest (by omega)
      refine ⟨value, ?_⟩
      rw [List.cons_append, List.cons_append, List.append_assoc, List.singleton_append, parseValue_array, parseItems_skip, start, List.head?_cons,
        if_neg fun close => bracket (Option.some.inj close)]
      exact parsed

theorem Completes.object (spells : Spells text (.members members)) (ih : Completes dialect text (.members members)) :
    Completes dialect (unit '\x7b' :: text ++ [unit '\x7d']) (.value (.object members)) := by
  intro granted steps rest ends enough
  obtain ⟨before, more, blank, same⟩ := spells.members_begin
  have start : skipWhitespace (text ++ unit '\x7d' :: rest) = unit '"' :: (more ++ unit '\x7d' :: rest) := by
    rw [same, List.append_assoc, List.cons_append]
    apply skipWhitespace_append blank
    rintro _ ⟨⟩
    decide
  simp only [List.length_append, List.length_cons, List.length_nil] at enough
  cases granted with
  | object repeats keys each =>
    match steps, enough with
    | steps + 1, enough =>
      obtain ⟨value, parsed⟩ := ih keys each steps [] rest repeats (by omega)
      refine ⟨value, ?_⟩
      rw [List.cons_append, List.cons_append, List.append_assoc, List.singleton_append, parseValue_object, start, List.head?_cons,
        if_neg fun close => absurd (Option.some.inj close) (by decide)]
      exact parsed

end Each

theorem completes {text : Text} {phrase : Phrase} (spells : Spells text phrase) : Completes dialect text phrase := by
  induction spells with
  | null =>
    intro _ steps rest _ enough
    cases steps with
    | zero => exact absurd enough (by decide)
    | succ steps => exact ⟨_, parseValue_null steps rest⟩
  | true =>
    intro _ steps rest _ enough
    cases steps with
    | zero => exact absurd enough (by decide)
    | succ steps => exact ⟨_, parseValue_bool steps true rest⟩
  | false =>
    intro _ steps rest _ enough
    cases steps with
    | zero => exact absurd enough (by decide)
    | succ steps => exact ⟨_, parseValue_bool steps false rest⟩
  | number number =>
    intro granted steps rest ends enough
    obtain ⟨char, more, rfl, first⟩ := number.head
    cases granted with
    | number kind =>
      obtain ⟨value, accepted⟩ := kind
      cases steps with
      | zero => simp at enough
      | succ steps =>
        refine ⟨.number value, ?_⟩
        rw [List.cons_append, parseValue_number (first.imp_right isDigit_iff.mpr)]
        exact parseNumber_spelled number accepted ends
  | @string text out chars =>
    intro granted steps rest _ enough
    cases granted with
    | string accepted =>
      cases steps with
      | zero => simp at enough
      | succ steps =>
        refine ⟨.string out, ?_⟩
        rw [List.cons_append, List.cons_append, List.append_assoc, List.singleton_append, parseValue_string, parseString_spelled chars accepted]
        rfl
  | @emptyArray blank blanks =>
    intro _ steps rest _ enough
    cases steps with
    | zero => simp at enough
    | succ steps =>
      refine ⟨.array [], ?_⟩
      rw [List.cons_append, List.cons_append, List.append_assoc, List.singleton_append, parseValue_array,
        skipWhitespace_append blanks (by rintro _ ⟨⟩; decide)]
      rfl
  | array spells ih => exact .array spells ih
  | @emptyObject blank blanks =>
    intro _ steps rest _ enough
    cases steps with
    | zero => simp at enough
    | succ steps =>
      refine ⟨.object [], ?_⟩
      rw [List.cons_append, List.cons_append, List.append_assoc, List.singleton_append, parseValue_object,
        skipWhitespace_append blanks (by rintro _ ⟨⟩; decide)]
      rfl
  | object spells ih => exact .object spells ih
  | item opens spells closes ih => exact .item opens spells closes ih
  | lastItem _ ih => exact .lastItem ih
  | nextItem _ _ ih later => exact .nextItem ih later
  | member opens chars closes _ ih => exact .member opens chars closes ih
  | lastMember _ ih => exact .lastMember ih
  | nextMember _ _ ih later => exact .nextMember ih later

theorem parse_accepts {text : Text} :
    (∃ value, parse dialect text = .ok value) ↔ ∃ tree, Document text tree ∧ Granted dialect tree := by
  constructor
  · rintro ⟨value, parsed⟩
    exact parse_sound parsed
  · rintro ⟨tree, document, granted⟩
    have none : Closes [] := ⟨nofun, nofun⟩
    obtain ⟨value, left, parsed, skipped⟩ := completes document granted (2 * text.length + 2) [] none (by omega)
    rw [List.append_nil] at parsed
    refine ⟨value, ?_⟩
    rw [parse, parsed]
    simp only [bind, Except.bind, skipped]
    rfl

end Complete

end AgentSaas.Proofs.JsonTexts
