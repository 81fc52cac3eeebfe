import AgentSaas.Proofs.JsonLiterals

/-! A value is read back from its text. -/

namespace AgentSaas.Proofs.JsonRoundTrip
open JsonReader JsonValues JsonStrings JsonLiterals CodePoints Dictionaries
open ToolCallRepair (Text unit units)

variable {N ε : Type} (dialect : Dialect N ε)

theorem hexValue_hexDigit : ∀ digit < 16, hexValue (hexDigit digit) = some digit := by decide

theorem parseHex4_unicodeEscape {char : Nat} (bounded : char < 65536) :
    parseHex4 (hexDigit (char / 4096 % 16)) (hexDigit (char / 256 % 16)) (hexDigit (char / 16 % 16)) (hexDigit (char % 16)) =
      some char := by
  have digits (value : Nat) : hexValue (hexDigit (value % 16)) = some (value % 16) := hexValue_hexDigit _ (Nat.mod_lt _ (by decide))
  simp only [parseHex4, digits, bind, Option.bind_some, pure, Option.some.injEq]
  omega

variable {dialect} {rest : Text}

theorem parseChars_plain (out : Text) {char : Nat} (quote : char ≠ unit '"') (escape : char ≠ unit '\\') (control : ¬ char < 0x20) :
    parseChars dialect out (char :: rest) = parseChars dialect (out ++ [char]) rest := by
  rw [parseChars.eq_def]
  simp only [if_neg quote, if_neg escape, if_neg control]

theorem parseChars_escape (out : Text) {escape char : Nat} (found : escapeOf escape = some char) (short : escape ≠ unit 'u') :
    parseChars dialect out (unit '\\' :: escape :: rest) = parseChars dialect (out ++ [char]) rest := by
  have open_quote : ¬ unit '\\' = unit '"' := by decide
  rw [parseChars.eq_def]
  simp only [if_neg open_quote, if_neg short, found, if_true]

theorem parseChars_unicodeEscape (out : Text) {char : Nat} (bounded : char < 65536) :
    parseChars dialect out (unicodeEscape char ++ rest) = parseChars dialect (out ++ [char]) rest := by
  have open_quote : ¬ unit '\\' = unit '"' := by decide
  have hex := parseHex4_unicodeEscape bounded
  simp only [unicodeEscape, List.cons_append, List.nil_append]
  rw [parseChars.eq_def]
  simp only [if_neg open_quote, if_true, hex]

theorem parseChars_quoteUnit (out : Text) (char : Nat) :
    parseChars dialect out (quoteUnit char ++ rest) = parseChars dialect (out ++ [char]) rest := by
  have short (escape : Nat) {letters : Text} {code : Nat} (same : letters = [unit '\\', escape]) (found : escapeOf escape = some code)
      (plain : escape ≠ unit 'u') : parseChars dialect out (letters ++ rest) = parseChars dialect (out ++ [code]) rest := by
    rw [same]
    exact parseChars_escape out found plain
  unfold quoteUnit
  split
  next same => exact same ▸ short (unit 'b') (by decide) rfl (by decide)
  split
  next same => exact same ▸ short (unit 't') (by decide) rfl (by decide)
  split
  next same => exact same ▸ short (unit 'n') (by decide) rfl (by decide)
  split
  next same => exact same ▸ short (unit 'f') (by decide) rfl (by decide)
  split
  next same => exact same ▸ short (unit 'r') (by decide) rfl (by decide)
  split
  next same => exact same ▸ short (unit '"') (by decide) rfl (by decide)
  split
  next same => exact same ▸ short (unit '\\') (by decide) rfl (by decide)
  split
  next coded =>
    refine parseChars_unicodeEscape out ?_
    simp only [isHigh, isLow, Bool.or_eq_true, Bool.and_eq_true, decide_eq_true_eq] at coded
    omega
  next quote escape plain =>
    refine parseChars_plain out quote escape fun control => plain ?_
    simp [control]

theorem parseChars_quoted (text out rest : Text) :
    parseChars dialect out ((codePoints text).flatMap quotePoint ++ rest) = parseChars dialect (out ++ text) rest := by
  induction text using codePoints_induction generalizing out with
  | nil => rw [List.append_nil]; rfl
  | pair first second later high low ih =>
    have plain {char : Nat} (out : Text) (rest : Text) (surrogate : 0xD800 ≤ char) :
        parseChars dialect out (char :: rest) = parseChars dialect (out ++ [char]) rest := by
      have quote : unit '"' < 0xD800 := by decide
      have escape : unit '\\' < 0xD800 := by decide
      exact parseChars_plain out (by omega) (by omega) (by omega)
    simp only [isHigh, isLow, Bool.and_eq_true, decide_eq_true_eq] at high low
    have pair : codePoints (first :: second :: later) = [first, second] :: codePoints later :=
      codePoints_pair (by simp [isHigh, high]) (by simp [isLow, low])
    rw [pair, List.flatMap_cons]
    simp only [quotePoint, List.cons_append, List.nil_append]
    rw [plain out _ high.1, plain _ _ (Nat.le_trans (by decide) low.1), ih, List.append_assoc, List.append_assoc]
    rfl
  | single first later apart ih =>
    rw [codePoints_single apart, List.flatMap_cons, List.append_assoc]
    simp only [quotePoint]
    rw [parseChars_quoteUnit, ih, List.append_assoc]
    rfl

theorem parseString_quote {text : Text} (accepted : dialect.string text = .ok ()) (rest : Text) :
    parseString dialect (quote text ++ rest) = .ok (text, rest) := by
  have body : parseChars dialect [] ((codePoints text).flatMap quotePoint ++ unit '"' :: rest) =
      parseChars dialect ([] ++ text) (unit '"' :: rest) := parseChars_quoted ..
  have close : parseChars dialect ([] ++ text) (unit '"' :: rest) = .ok (text, rest) := by
    rw [parseChars.eq_def]
    simp only [if_true, List.nil_append, accepted]
  simp only [quote, List.cons_append, List.append_assoc, List.nil_append]
  rw [parseString, expect, if_pos rfl]
  exact body.trans close

theorem skipWhitespace_cons {char : Nat} (visible : isWhitespace char = false) : skipWhitespace (char :: rest) = char :: rest := by
  rw [skipWhitespace, List.dropWhile_cons, visible]
  rfl

structure Opens (text : Text) : Prop where
  filled : text ≠ []
  visible : ∀ char ∈ text.head?, isWhitespace char = false ∧ char ≠ unit ']' ∧ char ≠ unit '\x7d'

theorem Opens.cons {char : Nat} (visible : isWhitespace char = false) (bracket : char ≠ unit ']') (brace : char ≠ unit '\x7d') :
    Opens (char :: rest) := by
  refine ⟨List.cons_ne_nil _ _, ?_⟩
  rintro _ ⟨⟩
  exact ⟨visible, bracket, brace⟩

theorem Opens.skip {text : Text} (opens : Opens text) (rest : Text) : skipWhitespace (text ++ rest) = text ++ rest := by
  cases text with
  | nil => exact absurd rfl opens.filled
  | cons char text => exact skipWhitespace_cons (opens.visible char rfl).1

variable (dialect) (numberText : N → Text) (read : N → N)

def Readable (value : N) : Prop :=
  ∃ whole, scanNumber (ε := ε) (numberText value) = .ok ((numberText value, whole), []) ∧
    dialect.number (numberText value) whole = .ok (read value)

abbrev Legible : Value N → Prop := Made (Readable dialect numberText read) fun text => dialect.string text = .ok ()

variable {dialect numberText read}

theorem Legible.opens {value : Value N} (legible : Legible dialect numberText read value) : Opens (text numberText value) := by
  cases legible with
  | null => exact .cons (by decide) (by decide) (by decide)
  | bool value => cases value <;> exact .cons (by decide) (by decide) (by decide)
  | number kind =>
    obtain ⟨whole, scanned, _⟩ := kind
    obtain ⟨char, rest, same, first⟩ := scanNumber_head scanned
    change Opens (numberText _)
    rw [same]
    obtain rfl | digit := first
    · exact .cons (by decide) (by decide) (by decide)
    · simp only [isDigit, Bool.and_eq_true, decide_eq_true_eq] at digit
      have bounds : unit ' ' < unit '0' ∧ unit '\t' < unit '0' ∧ unit '\n' < unit '0' ∧ unit '\r' < unit '0' ∧
        unit '9' < unit ']' ∧ unit '9' < unit '\x7d' := by decide
      refine .cons ?_ (by omega) (by omega)
      simp only [isWhitespace, Bool.or_eq_false_iff, beq_eq_false_iff_ne]
      omega
  | string => exact .cons (by decide) (by decide) (by decide)
  | array => 
    rw [text_array]
    exact .cons (by decide) (by decide) (by decide)
  | object => 
    rw [text_object]
    exact .cons (by decide) (by decide) (by decide)

theorem parseNumber_text {value : N} (readable : Readable dialect numberText read value) (ends : Ends rest) :
    parseNumber dialect (numberText value ++ rest) = .ok (.number (read value), rest) := by
  obtain ⟨whole, scanned, accepted⟩ := readable
  rw [parseNumber, scanNumber_append ends scanned]
  simp only [bind, Except.bind, accepted, List.nil_append]

def Reads (dialect : Dialect N ε) (numberText : N → Text) (read : N → N) (value : Value N) : Prop :=
  ∀ (steps : Nat) (rest : Text), Ends rest → 2 * (text numberText value).length ≤ steps →
    parseValue dialect steps (text numberText value ++ rest) = .ok (arranged read id value, rest)

theorem parseValue_number {steps char : Nat} (first : char = unit '-' ∨ isDigit char = true) :
    parseValue dialect (steps + 1) (char :: rest) = parseNumber dialect (char :: rest) := by
  have opens : isWhitespace char = false ∧ char ≠ unit '\x7b' ∧ char ≠ unit '[' ∧ char ≠ unit '"' ∧ char ≠ unit 't' ∧ char ≠ unit 'f' ∧
      char ≠ unit 'n' := by
    obtain rfl | digit := first
    · decide
    · simp only [isDigit, Bool.and_eq_true, decide_eq_true_eq] at digit
      have bounds : unit ' ' < unit '0' ∧ unit '\t' < unit '0' ∧ unit '\n' < unit '0' ∧ unit '\r' < unit '0' ∧ unit '"' < unit '0' ∧
        unit '9' < unit '\x7b' ∧ unit '9' < unit '[' ∧ unit '9' < unit 't' ∧ unit '9' < unit 'f' ∧ unit '9' < unit 'n' := by decide
      simp only [isWhitespace, Bool.or_eq_false_iff, beq_eq_false_iff_ne]
      omega
  obtain ⟨visible, brace, bracket, quote, t, f, n⟩ := opens
  rw [parseValue, skipWhitespace_cons visible]
  simp only [if_neg brace, if_neg bracket, if_neg quote, if_neg t, if_neg f, if_neg n]
  rw [if_pos first]

theorem reads_number {value : N} (readable : Readable dialect numberText read value) :
    Reads dialect numberText read (.number value) := by
  intro steps rest ends enough
  have parsed := parseNumber_text readable ends
  obtain ⟨whole, scanned, _⟩ := readable
  obtain ⟨char, later, same, first⟩ := scanNumber_head scanned
  change 2 * (numberText value).length ≤ steps at enough
  change parseValue dialect steps (numberText value ++ rest) = _
  rw [same] at enough parsed ⊢
  cases steps with
  | zero => simp at enough
  | succ steps =>
    rw [List.cons_append, parseValue_number first]
    exact parsed

theorem parseValue_string (steps : Nat) (rest : Text) : parseValue dialect (steps + 1) (unit '"' :: rest) =
    (parseString dialect (unit '"' :: rest)).map fun found => (.string found.1, found.2) := by
  rw [parseValue, skipWhitespace_cons (by decide)]
  rfl

theorem reads_string {value : Text} (accepted : dialect.string value = .ok ()) : Reads dialect numberText read (.string value) := by
  intro steps rest ends enough
  have parsed := parseString_quote accepted rest
  have two : 0 < (text numberText (.string value)).length := Nat.succ_pos _
  cases steps with
  | zero => omega
  | succ steps =>
    change parseValue dialect (steps + 1) (quote value ++ rest) = _
    rw [quote, List.cons_append] at parsed ⊢
    rw [parseValue_string, parsed]
    rfl

theorem join_cons (first second : Text) (parts : List Text) :
    Splitting.join [unit ','] (first :: second :: parts) = first ++ unit ',' :: Splitting.join [unit ','] (second :: parts) := by
  simp [Splitting.join, List.intercalate]

theorem parseItems_step {steps : Nat} {out : List (Value N)} {value : Value N} {text rest : Text}
    (parsed : parseValue dialect steps text = .ok (value, rest)) :
    parseItems dialect (steps + 1) out text =
      if (skipWhitespace rest).head? = some (unit ',') then parseItems dialect steps (out ++ [value]) (skipWhitespace rest).tail
      else (expect (unit ']') (skipWhitespace rest)).map fun found => (.array (out ++ [value]), found.2) := by
  rw [parseItems, parsed]
  simp only [bind, Except.bind]
  split
  · rfl
  · cases expect (ε := ε) (unit ']') (skipWhitespace rest) <;> rfl

theorem parseItems_text {items : List (Value N)} (filled : items ≠ []) (legible : ∀ item ∈ items, Legible dialect numberText read item)
    (each : ∀ item ∈ items, Reads dialect numberText read item) (out : List (Value N)) (steps : Nat) (rest : Text)
    (enough : 2 * (Splitting.join [unit ','] (items.map (text numberText))).length + 1 ≤ steps) :
    parseItems dialect steps out (Splitting.join [unit ','] (items.map (text numberText)) ++ unit ']' :: rest) =
      .ok (.array (out ++ items.map (arranged read id)), rest) := by
  induction items generalizing out steps with
  | nil => exact absurd rfl filled
  | cons item items ih =>
    cases steps with
    | zero => simp at enough
    | succ steps =>
      have own := each item List.mem_cons_self
      cases items with
      | nil =>
        simp only [List.map_cons, List.map_nil, Splitting.join, List.intercalate_singleton] at enough ⊢
        have close : Ends (unit ']' :: rest) := ends_cons (by decide) (by decide) (by decide) (by decide)
        rw [parseItems_step (own steps _ close (by omega)), skipWhitespace_cons (by decide)]
        rfl
      | cons second items =>
        rw [List.map_cons, List.map_cons, join_cons, ← List.map_cons] at enough ⊢
        rw [List.length_append, List.length_cons] at enough
        have positive : 0 < (text numberText item).length := List.length_pos_iff.mpr (legible item List.mem_cons_self).opens.filled
        have comma (later : Text) : Ends (unit ',' :: later) := ends_cons (by decide) (by decide) (by decide) (by decide)
        rw [List.append_assoc, List.cons_append, parseItems_step (own steps _ (comma _) (by omega)), skipWhitespace_cons (by decide),
          List.head?_cons, if_pos rfl, List.tail_cons, ih (List.cons_ne_nil _ _) (fun item member => legible item (.tail _ member))
            (fun item member => each item (.tail _ member)) _ steps (by omega), List.append_assoc]
        rfl

theorem setEntries_fresh {out : List (Text × Value N)} {key : Text} (fresh : key ∉ out.map Prod.fst) (value : Value N) :
    Dictionary.setEntries out key value = out ++ [(key, value)] := by
  induction out with
  | nil => rfl
  | cons entry out ih =>
    obtain ⟨other, later⟩ := not_or.mp (List.mem_cons.not.mp fresh)
    rw [Dictionary.setEntries, if_neg (Ne.symm other), ih later]
    rfl

theorem parseKey_quote {out : List (Text × Value N)} {key : Text} (fresh : key ∉ out.map Prod.fst)
    (accepted : dialect.string key = .ok ()) (rest : Text) : parseKey dialect out (quote key ++ rest) = .ok (key, rest) := by
  have absent : (out.map Prod.fst).contains key = false := by simpa using fresh
  rw [parseKey, parseString_quote accepted]
  simp only [bind, Except.bind, absent]
  rfl

theorem parseMembers_step {steps : Nat} {out : List (Text × Value N)} {key : Text} {value : Value N} {valueText rest : Text}
    (fresh : key ∉ out.map Prod.fst) (accepted : dialect.string key = .ok ())
    (parsed : parseValue dialect steps valueText = .ok (value, rest)) :
    parseMembers dialect (steps + 1) out (quote key ++ unit ':' :: valueText) =
      if (skipWhitespace rest).head? = some (unit ',') then
        parseMembers dialect steps (out ++ [(key, value)]) (skipWhitespace rest).tail
      else (expect (unit '\x7d') (skipWhitespace rest)).map fun found => (.object (out ++ [(key, value)]), found.2) := by
  have visible : skipWhitespace (quote key ++ unit ':' :: valueText) = quote key ++ unit ':' :: valueText :=
    skipWhitespace_cons (by decide)
  have colon : expect (ε := ε) (unit ':') (skipWhitespace (unit ':' :: valueText)) = .ok ((), valueText) := by
    rw [skipWhitespace_cons (by decide), expect, if_pos rfl]
  rw [parseMembers, visible, parseKey_quote fresh accepted]
  simp only [bind, Except.bind, colon, parsed]
  rw [setEntries_fresh fresh]
  split
  · rfl
  · cases expect (ε := ε) (unit '\x7d') (skipWhitespace rest) <;> rfl

theorem parseMembers_text {members : List (Text × Value N)} (filled : members ≠ [])
    (legible : ∀ member ∈ members, dialect.string member.1 = .ok ())
    (each : ∀ member ∈ members, Reads dialect numberText read member.2) (out : List (Text × Value N))
    (nodup : ((out ++ members).map Prod.fst).Nodup) (steps : Nat) (rest : Text)
    (enough : 2 * (Splitting.join [unit ','] ((members.map (Prod.map id (text numberText))).map memberText)).length + 1 ≤ steps) :
    parseMembers dialect steps out
        (Splitting.join [unit ','] ((members.map (Prod.map id (text numberText))).map memberText) ++ unit '\x7d' :: rest) =
      .ok (.object (out ++ members.map (Prod.map id (arranged read id))), rest) := by
  induction members generalizing out steps with
  | nil => exact absurd rfl filled
  | cons member members ih =>
    obtain ⟨key, value⟩ := member
    cases steps with
    | zero => simp at enough
    | succ steps =>
      have own : Reads dialect numberText read value := each _ List.mem_cons_self
      have accepted : dialect.string key = .ok () := legible _ List.mem_cons_self
      have fresh : key ∉ out.map Prod.fst := by
        rw [List.map_append, List.nodup_append] at nodup
        exact fun inside => nodup.2.2 _ inside _ List.mem_cons_self rfl
      cases members with
      | nil =>
        simp only [List.map_cons, List.map_nil, Splitting.join, List.intercalate_singleton, memberText, Prod.map_apply, id,
          List.length_append, List.length_cons] at enough ⊢
        have close : Ends (unit '\x7d' :: rest) := ends_cons (by decide) (by decide) (by decide) (by decide)
        rw [List.append_assoc, List.cons_append, parseMembers_step fresh accepted (own steps _ close (by omega)),
          skipWhitespace_cons (by decide)]
        rfl
      | cons second members =>
        rw [List.map_cons, List.map_cons, List.map_cons, List.map_cons, join_cons, ← List.map_cons, ← List.map_cons] at enough ⊢
        simp only [List.length_append, List.length_cons, memberText, Prod.map_apply, id] at enough ⊢
        have comma (later : Text) : Ends (unit ',' :: later) := ends_cons (by decide) (by decide) (by decide) (by decide)
        have grown : ((out ++ [(key, arranged read id value)] ++ second :: members).map Prod.fst).Nodup := by
          simpa using nodup
        rw [List.append_assoc, List.append_assoc, List.cons_append, List.cons_append,
          parseMembers_step fresh accepted (own steps _ (comma _) (by omega)), skipWhitespace_cons (by decide), List.head?_cons,
          if_pos rfl, List.tail_cons, ih (List.cons_ne_nil _ _) (fun member inside => legible member (.tail _ inside))
            (fun member inside => each member (.tail _ inside)) _ grown steps (by omega), List.append_assoc]
        rfl

theorem parseLiteral_append (literal : Text) (value : Value N) (rest : Text) :
    parseLiteral (ε := ε) literal value (literal ++ rest) = .ok (value, rest) := by
  rw [parseLiteral, if_pos (List.isPrefixOf_iff_prefix.mpr (List.prefix_append literal rest)), List.drop_left]

theorem parseValue_literal {steps char : Nat} {literal letters : Text} {value : Value N} (same : literal = char :: letters)
    (branch : ∀ rest, parseValue dialect (steps + 1) (char :: rest) = parseLiteral literal value (char :: rest)) (rest : Text) :
    parseValue dialect (steps + 1) (literal ++ rest) = .ok (value, rest) := by
  have parsed := parseLiteral_append (ε := ε) literal value rest
  have first : literal ++ rest = char :: (letters ++ rest) := by rw [same, List.cons_append]
  rw [first] at parsed ⊢
  exact (branch _).trans parsed

theorem parseValue_array (steps : Nat) (rest : Text) : parseValue dialect (steps + 1) (unit '[' :: rest) =
    if (skipWhitespace rest).head? = some (unit ']') then .ok (.array [], (skipWhitespace rest).tail)
    else parseItems dialect steps [] (skipWhitespace rest) := by
  rw [parseValue, skipWhitespace_cons (by decide)]
  rfl

theorem parseValue_object (steps : Nat) (rest : Text) : parseValue dialect (steps + 1) (unit '\x7b' :: rest) =
    if (skipWhitespace rest).head? = some (unit '\x7d') then .ok (.object [], (skipWhitespace rest).tail)
    else parseMembers dialect steps [] rest := by
  rw [parseValue, skipWhitespace_cons (by decide)]
  rfl

theorem Opens.append {text : Text} (opens : Opens text) (rest : Text) : Opens (text ++ rest) := by
  cases text with
  | nil => exact absurd rfl opens.filled
  | cons char text => exact ⟨List.cons_ne_nil _ _, opens.visible⟩

theorem Opens.bracket {text : Text} (opens : Opens text) : ¬ text.head? = some (unit ']') := fun close =>
  (opens.visible _ close).2.1 rfl

theorem Opens.brace {text : Text} (opens : Opens text) : ¬ text.head? = some (unit '\x7d') := fun close =>
  (opens.visible _ close).2.2 rfl

theorem Opens.join {first : Text} (opens : Opens first) (parts : List Text) : Opens (Splitting.join [unit ','] (first :: parts)) := by
  cases parts with
  | nil =>
    rw [Splitting.join, List.intercalate_singleton]
    exact opens
  | cons second parts =>
    rw [join_cons]
    exact opens.append _

theorem Legible.steps {value : Value N} (legible : Legible dialect numberText read value) {steps : Nat}
    (enough : 2 * (text numberText value).length ≤ steps) : ∃ fewer, steps = fewer + 1 := by
  have positive := List.length_pos_iff.mpr legible.opens.filled
  exact ⟨steps - 1, by omega⟩

theorem parseValue_null (steps : Nat) (rest : Text) : parseValue dialect (steps + 1) (units "null" ++ rest) = .ok (.null, rest) := by
  have letters : units "null" = unit 'n' :: units "ull" := by decide
  refine parseValue_literal letters (fun rest => ?_) rest
  rw [parseValue, skipWhitespace_cons (by decide)]
  rfl

theorem parseValue_bool (steps : Nat) (value : Bool) (rest : Text) :
    parseValue dialect (steps + 1) (boolText value ++ rest) = .ok (.bool value, rest) := by
  cases value with
  | true =>
    have letters : units "true" = unit 't' :: units "rue" := by decide
    refine parseValue_literal letters (fun rest => ?_) rest
    rw [parseValue, skipWhitespace_cons (by decide)]
    rfl
  | false =>
    have letters : units "false" = unit 'f' :: units "alse" := by decide
    refine parseValue_literal letters (fun rest => ?_) rest
    rw [parseValue, skipWhitespace_cons (by decide)]
    rfl

theorem reads {value : Value N} (legible : Legible dialect numberText read value) : Reads dialect numberText read value := by
  induction legible with
  | null =>
    intro steps rest ends enough
    obtain ⟨steps, rfl⟩ := Legible.steps (.null : Legible dialect numberText read .null) enough
    exact parseValue_null steps rest
  | bool value =>
    intro steps rest ends enough
    obtain ⟨steps, rfl⟩ := Legible.steps (.bool value : Legible dialect numberText read (.bool value)) enough
    exact parseValue_bool steps value rest
  | number kind => exact reads_number kind
  | string kind => exact reads_string kind
  | @array items each ih =>
    intro steps rest ends enough
    obtain ⟨steps, rfl⟩ := Legible.steps (.array each) enough
    rw [text_array, arrayText] at enough ⊢
    rw [List.length_cons, List.length_append] at enough
    rw [List.cons_append, List.append_assoc, parseValue_array, arranged_array]
    cases items with
    | nil => rfl
    | cons item items =>
      have first : Opens (Splitting.join [unit ','] ((item :: items).map (text numberText))) :=
        (Legible.opens (each item List.mem_cons_self)).join _
      rw [first.skip, if_neg (first.append _).bracket]
      exact parseItems_text (List.cons_ne_nil _ _) each ih [] steps rest (by omega)
  | @object members nodup keys each ih =>
    intro steps rest ends enough
    obtain ⟨steps, rfl⟩ := Legible.steps (.object nodup keys each) enough
    rw [text_object, objectText] at enough ⊢
    rw [List.length_cons, List.length_append] at enough
    rw [List.cons_append, List.append_assoc, parseValue_object, arranged_object]
    cases members with
    | nil => rfl
    | cons member members =>
      have key : Opens (memberText (Prod.map id (text numberText) member)) :=
        .cons (by decide) (by decide) (by decide)
      have first : Opens (Splitting.join [unit ','] (((member :: members).map (Prod.map id (text numberText))).map memberText)) :=
        key.join _
      rw [first.skip, if_neg (first.append _).brace]
      exact parseMembers_text (List.cons_ne_nil _ _) keys ih [] nodup steps rest (by omega)

theorem parse_text {value : Value N} (legible : Legible dialect numberText read value) :
    parse dialect (text numberText value) = .ok (arranged read id value) := by
  have all := reads legible (2 * (text numberText value).length + 2) [] nofun (by omega)
  rw [List.append_nil] at all
  rw [parse, all]
  rfl

theorem parse_canonical {value : Value N} (legible : Legible dialect numberText read value) :
    parse dialect (canonical numberText value) = .ok (normal read value) := by
  have sorted : Legible dialect numberText read (normal id value) := legible.normal fun _ => id
  rw [canonical_eq, parse_text sorted, arranged_normal]

/-! What is read is made of what the dialect accepts. -/

theorem parseChars_accepted {out text found rest : Text} (parsed : parseChars dialect out text = .ok (found, rest)) :
    dialect.string found = .ok () := by
  fun_induction parseChars dialect out text with
  | case1 | case3 | case4 | case6 | case7 | case9 | case10 => cases parsed
  | case2 out rest accepted =>
    cases parsed
    exact accepted
  | case5 out first second third fourth next char hex opens ih => exact ih parsed
  | case8 out escape later plain char short opens ih => exact ih parsed
  | case11 out char rest quote escape control ih => exact ih parsed

theorem parseString_accepted {text found rest : Text} (parsed : parseString dialect text = .ok (found, rest)) :
    dialect.string found = .ok () := by
  unfold parseString at parsed
  split at parsed
  · exact parseChars_accepted parsed
  · cases parsed

theorem parseKey_accepted {out : List (Text × Value N)} {text key rest : Text} (parsed : parseKey dialect out text = .ok (key, rest)) :
    dialect.string key = .ok () := by
  obtain ⟨⟨found, later⟩, string, parsed⟩ := Outcomes.of_ok_bind parsed
  have accepted := parseString_accepted string
  dsimp only at parsed
  split at parsed
  · split at parsed
    · cases parsed
      exact accepted
    · cases parsed
  · cases parsed
    exact accepted

/-- A value as the dialect reads one. -/
abbrev Accepted (dialect : Dialect N ε) : Value N → Prop :=
  Made (fun value => ∃ literal whole, dialect.number literal whole = .ok value) fun text => dialect.string text = .ok ()

theorem parseNumber_accepted {text rest : Text} {value : Value N} (parsed : parseNumber dialect text = .ok (value, rest)) :
    Accepted dialect value := by
  obtain ⟨⟨⟨literal, whole⟩, later⟩, _, parsed⟩ := Outcomes.of_ok_bind parsed
  dsimp only at parsed
  split at parsed
  next number accepted =>
    cases parsed
    exact .number ⟨literal, whole, accepted⟩
  next => cases parsed

theorem made_set {numbers : N → Prop} {strings : Text → Prop} {members : List (Text × Value N)} {key : Text} {value : Value N}
    (made : Made numbers strings (.object members)) (string : strings key) (own : Made numbers strings value) :
    Made numbers strings (.object (Dictionary.setEntries members key value)) := by
  cases made with
  | object nodup keys each =>
    refine .object (Dictionary.nodup_setEntries nodup key value) (fun member inside => ?_) fun member inside => ?_
    · obtain rfl | ⟨old, _⟩ := (Dictionary.mem_setEntries nodup).mp inside
      · exact string
      · exact keys member old
    · obtain rfl | ⟨old, _⟩ := (Dictionary.mem_setEntries nodup).mp inside
      · exact own
      · exact each member old

theorem made_push {numbers : N → Prop} {strings : Text → Prop} {items : List (Value N)} {value : Value N}
    (made : Made numbers strings (.array items)) (own : Made numbers strings value) : Made numbers strings (.array (items ++ [value])) := by
  cases made with
  | array each =>
    refine .array fun item inside => ?_
    obtain old | new := List.mem_append.mp inside
    · exact each item old
    · exact List.mem_singleton.mp new ▸ own

theorem parseMembers_accepted {steps : Nat}
    (values : ∀ {text rest : Text} {value : Value N}, parseValue dialect steps text = .ok (value, rest) → Accepted dialect value)
    (members : ∀ {out : List (Text × Value N)} {text rest : Text} {value : Value N}, Accepted dialect (.object out) →
      parseMembers dialect steps out text = .ok (value, rest) → Accepted dialect value)
    {out : List (Text × Value N)} {text rest : Text} {value : Value N} (made : Accepted dialect (.object out))
    (parsed : parseMembers dialect (steps + 1) out text = .ok (value, rest)) : Accepted dialect value := by
  rw [parseMembers] at parsed
  obtain ⟨⟨key, later⟩, string, parsed⟩ := Outcomes.of_ok_bind parsed
  obtain ⟨⟨_, later⟩, _, parsed⟩ := Outcomes.of_ok_bind parsed
  obtain ⟨⟨own, later⟩, inner, parsed⟩ := Outcomes.of_ok_bind parsed
  have grown := made_set made (parseKey_accepted string) (values inner)
  dsimp only at parsed
  split at parsed
  · exact members grown parsed
  · obtain ⟨⟨_, later⟩, _, parsed⟩ := Outcomes.of_ok_bind parsed
    cases parsed
    exact grown

theorem parseItems_accepted {steps : Nat}
    (values : ∀ {text rest : Text} {value : Value N}, parseValue dialect steps text = .ok (value, rest) → Accepted dialect value)
    (items : ∀ {out : List (Value N)} {text rest : Text} {value : Value N}, Accepted dialect (.array out) →
      parseItems dialect steps out text = .ok (value, rest) → Accepted dialect value)
    {out : List (Value N)} {text rest : Text} {value : Value N} (made : Accepted dialect (.array out))
    (parsed : parseItems dialect (steps + 1) out text = .ok (value, rest)) : Accepted dialect value := by
  rw [parseItems] at parsed
  obtain ⟨⟨own, later⟩, inner, parsed⟩ := Outcomes.of_ok_bind parsed
  have grown := made_push made (values inner)
  dsimp only at parsed
  split at parsed
  · exact items grown parsed
  · obtain ⟨⟨_, later⟩, _, parsed⟩ := Outcomes.of_ok_bind parsed
    cases parsed
    exact grown

theorem parseLiteral_value {literal text rest : Text} {value found : Value N}
    (parsed : parseLiteral (ε := ε) literal value text = .ok (found, rest)) : found = value := by
  unfold parseLiteral at parsed
  split at parsed
  · cases parsed
    rfl
  · cases parsed

theorem parseValue_accepted {steps : Nat}
    (members : ∀ {text rest : Text} {value : Value N}, parseMembers dialect steps [] text = .ok (value, rest) → Accepted dialect value)
    (items : ∀ {text rest : Text} {value : Value N}, parseItems dialect steps [] text = .ok (value, rest) → Accepted dialect value)
    {text rest : Text} {value : Value N} (parsed : parseValue dialect (steps + 1) text = .ok (value, rest)) :
    Accepted dialect value := by
  rw [parseValue] at parsed
  split at parsed
  · cases parsed
  next char later same =>
    split at parsed
    · split at parsed
      · cases parsed
        exact .object .nil nofun nofun
      · exact members parsed
    split at parsed
    · split at parsed
      · cases parsed
        exact .array nofun
      · exact items parsed
    split at parsed
    · cases string : parseString dialect (char :: later) with
      | error => rw [string] at parsed; cases parsed
      | ok pair =>
        rw [string] at parsed
        cases parsed
        exact .string (parseString_accepted string)
    split at parsed
    · exact parseLiteral_value parsed ▸ .bool true
    split at parsed
    · exact parseLiteral_value parsed ▸ .bool false
    split at parsed
    · exact parseLiteral_value parsed ▸ .null
    split at parsed
    · exact parseNumber_accepted parsed
    · cases parsed

theorem values_accepted (dialect : Dialect N ε) (steps : Nat) :
    (∀ {text rest : Text} {value : Value N}, parseValue dialect steps text = .ok (value, rest) → Accepted dialect value) ∧
      (∀ {out : List (Text × Value N)} {text rest : Text} {value : Value N}, Accepted dialect (.object out) →
        parseMembers dialect steps out text = .ok (value, rest) → Accepted dialect value) ∧
      ∀ {out : List (Value N)} {text rest : Text} {value : Value N}, Accepted dialect (.array out) →
        parseItems dialect steps out text = .ok (value, rest) → Accepted dialect value := by
  induction steps with
  | zero => exact ⟨nofun, fun _ => nofun, fun _ => nofun⟩
  | succ steps ih =>
    obtain ⟨values, members, items⟩ := ih
    exact ⟨parseValue_accepted (members (.object .nil nofun nofun)) (items (.array nofun)), parseMembers_accepted values members,
      parseItems_accepted values items⟩

theorem parse_accepted {text : Text} {value : Value N} (parsed : parse dialect text = .ok value) : Accepted dialect value := by
  obtain ⟨⟨found, rest⟩, inner, parsed⟩ := Outcomes.of_ok_bind parsed
  have made := (values_accepted dialect _).1 inner
  dsimp only at parsed
  split at parsed
  · cases parsed
    exact made
  · cases parsed

end AgentSaas.Proofs.JsonRoundTrip
