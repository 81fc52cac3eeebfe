import AgentSaas.Proofs.ToolCallGate

/-! A call that is written out in tags is read back. The closing tags are looked for in the lower
case of the text, which lines up with the text itself as long as no letter grows. -/

namespace AgentSaas.Proofs.XmlishCalls
open ToolCallRepair ToolCallPrefixes ToolCallGate

variable {Arguments : Type} {runtime : Runtime Arguments} {maxPayloadBytes : Nat}

def renderParameter (parameter : Text × Text) : Text :=
  units "<parameter=" ++ (parameter.1 ++ unit '>' :: (parameter.2 ++ units "</parameter>"))

def renderBody (parameters : List (Text × Text)) : Text := parameters.flatMap renderParameter

def render (name : Text) (parameters : List (Text × Text)) : Text :=
  units "<function=" ++ (name ++ unit '>' :: (renderBody parameters ++ units "</function>"))

def beginsTag (tag text : Text) : Bool := (text.take tag.length).map lowerAscii = tag

def holdsTag (tag : Text) : Text → Bool
  | [] => false
  | char :: rest => beginsTag tag (char :: rest) || holdsTag tag rest

structure IsTag (tag : Text) : Prop where
  plain : Plain tag
  opens : ∃ more, tag = unit '<' :: more ∧ unit '<' ∉ more

theorem isTag_function : IsTag (units "</function>") := ⟨plain_function, units "/function>", by decide, by decide⟩

theorem isTag_parameter : IsTag (units "</parameter>") := ⟨⟨by decide, by decide⟩, units "/parameter>", by decide, by decide⟩

section Tags

variable {tag text front back before : Text}

theorem lowerAscii_bracket {char : Nat} (lowered : lowerAscii char = unit '<') : char = unit '<' := by
  have bracket : unit '<' = 60 := by decide
  unfold lowerAscii at lowered
  split at lowered <;> omega

theorem beginsTag_append (isTag : IsTag tag) (some : front ≠ []) (none : beginsTag tag front = false)
    (opens : back.head? = Option.some (unit '<')) : beginsTag tag (front ++ back) = false := by
  rw [Bool.eq_false_iff]
  intro begins
  have begins : ((front ++ back).take tag.length).map lowerAscii = tag := of_decide_eq_true begins
  by_cases inside : tag.length ≤ front.length
  · rw [List.take_append_of_le_length inside] at begins
    exact absurd (decide_eq_true begins) (Bool.eq_false_iff.mp none)
  · obtain ⟨more, rfl, only⟩ := isTag.opens
    obtain ⟨count, long⟩ := Nat.exists_eq_succ_of_ne_zero fun empty => some (List.length_eq_zero_iff.mp empty)
    have place : (unit '<' :: more)[front.length]? = Option.some (unit '<') := by
      rw [← begins, List.getElem?_map, List.getElem?_take_of_lt (by omega), List.getElem?_append_right (Nat.le_refl _), Nat.sub_self,
        ← List.head?_eq_getElem?, opens]
      rfl
    rw [long, List.getElem?_cons_succ] at place
    exact only (List.mem_of_getElem? place)

theorem beginsTag_of_other (isTag : IsTag tag) {char : Nat} (other : char ≠ unit '<') (rest : Text) : beginsTag tag (char :: rest) = false := by
  obtain ⟨more, rfl, _⟩ := isTag.opens
  rw [Bool.eq_false_iff]
  intro begins
  have begins : ((char :: rest).take (more.length + 1)).map lowerAscii = unit '<' :: more := of_decide_eq_true begins
  rw [List.take_succ_cons, List.map_cons] at begins
  exact other (lowerAscii_bracket (List.cons.inj begins).1)

theorem holdsTag_plain (isTag : IsTag tag) (plain : ∀ char ∈ front, char ≠ unit '<') : holdsTag tag (front ++ back) = holdsTag tag back := by
  induction front with
  | nil => rfl
  | cons char front ih =>
    obtain ⟨other, plain⟩ := List.forall_mem_cons.mp plain
    rw [List.cons_append, holdsTag, beginsTag_of_other isTag other, Bool.false_or, ih plain]

theorem holdsTag_append (isTag : IsTag tag) (first : holdsTag tag front = false) (last : holdsTag tag back = false)
    (opens : back.head? = some (unit '<')) : holdsTag tag (front ++ back) = false := by
  induction front with
  | nil => exact last
  | cons char front ih =>
    rw [holdsTag, Bool.or_eq_false_iff] at first
    rw [List.cons_append, holdsTag, ih first.2, Bool.or_false]
    exact beginsTag_append isTag (List.cons_ne_nil _ _) first.1 opens

theorem prefix_lower (plain : Plain tag) (runtime : Runtime Arguments) :
    tag.isPrefixOf (toLowerCaseFrom runtime before text) = beginsTag tag text := by
  rw [Bool.eq_iff_iff, List.isPrefixOf_iff_prefix, (lower_prefixes plain).1, List.prefix_iff_eq_take, ← List.map_take, eq_comm]
  exact (decide_eq_true_iff).symm

theorem indexFrom_tag {offset : Nat} (isTag : IsTag tag) (even : 0x130 ∉ front) (none : holdsTag tag front = false)
    (begins : beginsTag tag back = true) :
    indexFrom tag offset (toLowerCaseFrom runtime before (front ++ back)) = some (offset + front.length) := by
  have opens : back.head? = some (unit '<') := by
    obtain ⟨more, rfl, _⟩ := isTag.opens
    cases back with
    | nil => cases begins
    | cons char back =>
      by_contra other
      rw [beginsTag_of_other isTag fun bracket => other (congrArg some bracket)] at begins
      cases begins
  induction front generalizing before offset with
  | nil =>
    have found : tag.isPrefixOf (toLowerCaseFrom runtime before back) = true := (prefix_lower isTag.plain runtime).trans begins
    rw [List.nil_append]
    cases lowered : toLowerCaseFrom runtime before back with
    | nil =>
      obtain ⟨more, rfl, _⟩ := isTag.opens
      rw [lowered] at found
      cases found
    | cons char lower =>
      rw [lowered] at found
      rw [indexFrom, if_pos found]
      rfl
  | cons char front ih =>
    obtain ⟨other, even⟩ := not_or.mp (List.mem_cons.not.mp even)
    rw [holdsTag, Bool.or_eq_false_iff] at none
    have absent : tag.isPrefixOf (toLowerCaseFrom runtime before (char :: front ++ back)) = false :=
      (prefix_lower isTag.plain runtime).trans (beginsTag_append isTag (List.cons_ne_nil _ _) none.1 opens)
    obtain ⟨lowered, one⟩ : ∃ lowered, lowerUnit runtime before char (front ++ back) = [lowered] := by
      rcases lowerUnit_cases runtime before char (front ++ back) with ⟨_, one⟩ | ⟨same, _⟩ | ⟨_, _, one, _⟩
      · exact ⟨_, one⟩
      · exact absurd same.symm other
      · exact ⟨_, one⟩
    rw [List.cons_append, toLowerCaseFrom, one, List.singleton_append] at absent ⊢
    rw [indexFrom, if_neg (Bool.eq_false_iff.mp absent), ih even none.2, List.length_cons]
    exact congrArg some (by omega)

theorem indexOf_tag (isTag : IsTag tag) (own : toLowerCase runtime tag = tag) (earlier : 0x130 ∉ before) (even : 0x130 ∉ front)
    (none : holdsTag tag front = false) (begins : beginsTag tag back = true) :
    indexOfAsciiCaseInsensitive runtime (before ++ (front ++ back)) tag before.length = some (before.length + front.length) := by
  rw [indexOfAsciiCaseInsensitive, own, indexOf, toLowerCase, drop_lower earlier]
  exact indexFrom_tag isTag even none begins

end Tags

section Places

variable {name : Text} {before middle after : Text}

theorem indexOf_unit {stop : Nat} (plain : ∀ char ∈ middle, char ≠ stop) :
    indexOf (before ++ (middle ++ stop :: after)) [stop] before.length = some (before.length + middle.length) := by
  rw [indexOf, List.drop_left]
  generalize before.length = offset
  induction middle generalizing offset with
  | nil => simp [indexFrom]
  | cons char middle ih =>
    obtain ⟨other, plain⟩ := List.forall_mem_cons.mp plain
    rw [List.cons_append, indexFrom, if_neg (by simpa using Ne.symm other), ih plain, List.length_cons]
    exact congrArg some (by omega)

theorem slice_middle (before middle after : Text) :
    slice (before ++ (middle ++ after)) before.length (before.length + middle.length) = middle := by
  rw [slice, ← List.append_assoc, List.take_left' (List.length_append ..), List.drop_left]

theorem bounds_of_isXmlNameUnit {char : Nat} (inName : isXmlNameUnit char = true) : char < 128 ∧ char ≠ unit '>' ∧ char ≠ unit '<' := by
  have low : char < 128 := by
    have letters : unit 'Z' < 128 ∧ unit 'z' < 128 ∧ unit '9' < 128 ∧ unit '_' < 128 ∧ unit '-' < 128 ∧ unit '.' < 128 ∧ unit ':' < 128 := by
      decide
    simp only [isXmlNameUnit, isPlainNameUnit, isAlphanumeric, Bool.or_eq_true, Bool.and_eq_true, decide_eq_true_eq] at inName
    omega
  have each : ∀ char < 128, isXmlNameUnit char = true → char ≠ unit '>' ∧ char ≠ unit '<' := by decide
  exact ⟨low, each char low inName⟩

theorem name_units (valid : validXmlName name = true) : ∀ char ∈ name, char < 128 ∧ char ≠ unit '>' ∧ char ≠ unit '<' := fun char inside => by
  simp only [validXmlName, Bool.and_eq_true, List.all_eq_true] at valid
  exact bounds_of_isXmlNameUnit (valid.2 char inside)

end Places

/-- A parameter that is written as it may be: neither closing tag stands in its value. -/
structure Written (entry : Text × Text) : Prop where
  name : validXmlName entry.1 = true
  own : entry.1 ≠ units "__proto__"
  parameter : holdsTag (units "</parameter>") entry.2 = false
  function : holdsTag (units "</function>") entry.2 = false
  even : 0x130 ∉ entry.2

def reading (parameter : Text × Text) : Text × Text := (parameter.1, normalizeXmlParameter parameter.2)

theorem parseParameters_step {body rest : Text} {args : List (Text × Text)} {start nameEnd valueEnd : Nat} {name : Text}
    (left : skipWhitespace (body.drop start) = rest) (some : rest ≠ [])
    (opened : toLowerCase runtime (rest.take (units "<parameter=").length) = units "<parameter=")
    (named : indexOf body [unit '>'] (body.length - rest.length + (units "<parameter=").length) = Option.some nameEnd)
    (sliced : slice body (body.length - rest.length + (units "<parameter=").length) nameEnd = name) (valid : validXmlName name = true)
    (fresh : name ∉ args.map Prod.fst)
    (valued : indexOfAsciiCaseInsensitive runtime body (units "</parameter>") (nameEnd + 1) = Option.some valueEnd) :
    parseParameters runtime body args start = parseParameters runtime body
      (setParameter args name (normalizeXmlParameter (slice body (nameEnd + 1) valueEnd))) (valueEnd + (units "</parameter>").length) := by
  subst left
  rw [parseParameters]
  dsimp only
  split
  next empty => exact absurd (List.isEmpty_iff.mp empty) some
  rw [if_neg (not_not_intro opened)]
  split
  next missing => cases missing.symm.trans named
  next found same =>
    cases same.symm.trans named
    rw [sliced]
    have accepted : ¬ (!validXmlName name || (args.map Prod.fst).contains name) = true := by simp [valid, fresh]
    rw [if_neg accepted]
    split
    next missing => cases missing.symm.trans valued
    next found same =>
      cases same.symm.trans valued
      rfl

theorem even_units {name : Text} (valid : validXmlName name = true) : 0x130 ∉ name := fun inside =>
  absurd (name_units valid _ inside).1 (by decide)

theorem Written.even_render {entry : Text × Text} (written : Written entry) : 0x130 ∉ renderParameter entry := by
  have close : 0x130 ∉ units "<parameter=" ∧ 0x130 ∉ units "</parameter>" ∧ 0x130 ≠ unit '>' := by decide
  simp only [renderParameter, List.mem_append, List.mem_cons, not_or]
  exact ⟨close.1, even_units written.name, close.2.2, written.even, close.2.1⟩

theorem even_body {parameters : List (Text × Text)} (written : ∀ entry ∈ parameters, Written entry) : 0x130 ∉ renderBody parameters := by
  simp only [renderBody, List.mem_flatMap, not_exists, not_and]
  exact fun entry inside => (written entry inside).even_render

theorem setParameter_own {entry : Text × Text} (written : Written entry) (args : List (Text × Text)) :
    setParameter args entry.1 (normalizeXmlParameter entry.2) = args ++ [reading entry] := if_neg written.own

theorem map_reading (parameters : List (Text × Text)) : (parameters.map reading).map Prod.fst = parameters.map Prod.fst := by
  rw [List.map_map]
  rfl

theorem parseParameters_entry {entry : Text × Text} {args : List (Text × Text)} (front back : Text) (written : Written entry)
    (even : 0x130 ∉ front) (fresh : entry.1 ∉ args.map Prod.fst) :
    parseParameters runtime (front ++ (renderParameter entry ++ back)) args front.length =
      parseParameters runtime (front ++ (renderParameter entry ++ back)) (args ++ [reading entry]) (front ++ renderParameter entry).length := by
  obtain ⟨name, value⟩ := entry
  have close : 0x130 ∉ units "<parameter=" ∧ 0x130 ≠ unit '>' := by decide
  have left : renderParameter (name, value) ++ back = units "<parameter=" ++ (name ++ unit '>' :: (value ++ (units "</parameter>" ++ back))) := by
    simp [renderParameter]
  have byName : front ++ (renderParameter (name, value) ++ back) =
      (front ++ units "<parameter=") ++ (name ++ unit '>' :: (value ++ (units "</parameter>" ++ back))) := by
    rw [left, List.append_assoc]
  have byValue : front ++ (renderParameter (name, value) ++ back) =
      (front ++ units "<parameter=" ++ name ++ [unit '>']) ++ (value ++ (units "</parameter>" ++ back)) := by
    rw [left]
    simp
  have start : (front ++ (renderParameter (name, value) ++ back)).length - (renderParameter (name, value) ++ back).length +
      (units "<parameter=").length = (front ++ units "<parameter=").length := by
    rw [List.length_append, Nat.add_sub_cancel, List.length_append]
  have nameEnd : (front ++ units "<parameter=").length + name.length + 1 = (front ++ units "<parameter=" ++ name ++ [unit '>']).length := by
    simp only [List.length_append, List.length_cons, List.length_nil]
  have named : indexOf (front ++ (renderParameter (name, value) ++ back)) [unit '>'] (front ++ units "<parameter=").length =
      some ((front ++ units "<parameter=").length + name.length) := by
    rw [byName]
    exact indexOf_unit fun char inside => (name_units written.name char inside).2.1
  have sliced : slice (front ++ (renderParameter (name, value) ++ back)) (front ++ units "<parameter=").length
      ((front ++ units "<parameter=").length + name.length) = name := by
    rw [byName]
    exact slice_middle ..
  have valued : indexOfAsciiCaseInsensitive runtime (front ++ (renderParameter (name, value) ++ back)) (units "</parameter>")
      ((front ++ units "<parameter=").length + name.length + 1) =
      some ((front ++ units "<parameter=" ++ name ++ [unit '>']).length + value.length) := by
    rw [nameEnd, byValue]
    refine indexOf_tag isTag_parameter rfl ?_ written.even written.parameter rfl
    simp only [List.mem_append, List.mem_singleton, not_or]
    exact ⟨⟨⟨even, close.1⟩, even_units written.name⟩, close.2⟩
  have valueSliced : slice (front ++ (renderParameter (name, value) ++ back)) ((front ++ units "<parameter=").length + name.length + 1)
      ((front ++ units "<parameter=" ++ name ++ [unit '>']).length + value.length) = value := by
    rw [nameEnd, byValue]
    exact slice_middle ..
  have behind : (front ++ units "<parameter=" ++ name ++ [unit '>']).length + value.length + (units "</parameter>").length =
      (front ++ renderParameter (name, value)).length := by
    simp only [renderParameter, List.length_append, List.length_cons, List.length_nil]
    omega
  have skipped : skipWhitespace ((front ++ (renderParameter (name, value) ++ back)).drop front.length) = renderParameter (name, value) ++ back := by
    rw [List.drop_left, left]
    rfl
  have opened : toLowerCase runtime ((renderParameter (name, value) ++ back).take (units "<parameter=").length) = units "<parameter=" := by
    rw [left, List.take_left]
    rfl
  have filled : renderParameter (name, value) ++ back ≠ [] := by
    rw [left]
    exact List.cons_ne_nil _ _
  rw [← start] at named sliced
  rw [parseParameters_step skipped filled opened named sliced written.name fresh (start ▸ valued), start, valueSliced, behind,
    setParameter_own written]

theorem parseParameters_rendered (done parameters : List (Text × Text)) (written : ∀ entry ∈ done ++ parameters, Written entry)
    (nodup : ((done ++ parameters).map Prod.fst).Nodup) :
    parseParameters runtime (renderBody (done ++ parameters)) (done.map reading) (renderBody done).length =
      .ok ((done ++ parameters).map reading) := by
  induction parameters generalizing done with
  | nil =>
    rw [List.append_nil, parseParameters, List.drop_length]
    rfl
  | cons entry parameters ih =>
    have own : Written entry := written entry (by simp)
    have earlier : 0x130 ∉ renderBody done := even_body fun entry inside => written entry (List.mem_append_left _ inside)
    have fresh : entry.1 ∉ (done.map reading).map Prod.fst := by
      rw [map_reading]
      rw [List.map_append, List.nodup_append] at nodup
      exact fun inside => nodup.2.2 _ inside entry.1 List.mem_cons_self rfl
    have parts : renderBody (done ++ entry :: parameters) = renderBody done ++ (renderParameter entry ++ renderBody parameters) := by
      simp [renderBody]
    have grown : renderBody done ++ renderParameter entry = renderBody (done ++ [entry]) := by simp [renderBody]
    have later := ih (done ++ [entry]) (by simpa using written) (by simpa using nodup)
    rw [List.append_assoc, List.singleton_append, List.map_append] at later
    rw [parts, parseParameters_entry _ _ own earlier fresh, grown, ← parts]
    exact later

theorem Written.no_function {entry : Text × Text} (written : Written entry) : holdsTag (units "</function>") (renderParameter entry) = false := by
  have outside : holdsTag (units "</function>") (entry.2 ++ units "</parameter>") = false :=
    holdsTag_append isTag_function written.function (by decide) rfl
  have plain : ∀ char ∈ units "parameter=" ++ (entry.1 ++ [unit '>']), char ≠ unit '<' := by
    simp only [List.mem_append, List.mem_singleton]
    rintro char (letter | inside | rfl)
    · exact (by decide : ∀ char ∈ units "parameter=", char ≠ unit '<') char letter
    · exact (name_units written.name char inside).2.2
    · decide
  have parts : renderParameter entry = unit '<' :: ((units "parameter=" ++ (entry.1 ++ [unit '>'])) ++ (entry.2 ++ units "</parameter>")) := by
    have letters : units "<parameter=" = unit '<' :: units "parameter=" := by decide
    rw [renderParameter, letters]
    simp
  have opening : beginsTag (units "</function>") (renderParameter entry) = false := rfl
  rw [parts] at opening ⊢
  rw [holdsTag, opening, Bool.false_or, holdsTag_plain isTag_function plain, outside]

theorem no_function {parameters : List (Text × Text)} (written : ∀ entry ∈ parameters, Written entry) :
    holdsTag (units "</function>") (renderBody parameters) = false := by
  induction parameters with
  | nil => rfl
  | cons entry parameters ih =>
    obtain ⟨own, written⟩ := List.forall_mem_cons.mp written
    rw [renderBody, List.flatMap_cons]
    cases parameters with
    | nil =>
      rw [List.flatMap_nil, List.append_nil]
      exact own.no_function
    | cons next parameters => exact holdsTag_append isTag_function own.no_function (ih written) rfl

theorem length_render (name : Text) (parameters : List (Text × Text)) : (render name parameters).length =
    (units "<function=").length + name.length + 1 + (renderBody parameters).length + (units "</function>").length := by
  simp only [render, List.length_append, List.length_cons]
  omega

/-- A call as it is read. -/
def call (runtime : Runtime Arguments) (name : Text) (parameters : List (Text × Text)) : RepairedToolCall Arguments :=
  ⟨name, runtime.ofParameters (parameters.map reading), .xmlish, 0, (render name parameters).length⟩

theorem parseXmlish_rendered {name : Text} {parameters : List (Text × Text)} (valid : validXmlName name = true)
    (written : ∀ entry ∈ parameters, Written entry) (nodup : (parameters.map Prod.fst).Nodup) :
    parseXmlish runtime maxPayloadBytes (render name parameters) (render name parameters) =
      if byteLength (renderBody parameters) ≤ maxPayloadBytes then .ok (call runtime name parameters, [])
      else .error ⟨.xmlish, .rejectedOverCap⟩ := by
  have named : ∀ char ∈ name, decide (char ≠ unit '>') = true := fun char inside => decide_eq_true (name_units valid char inside).2.1
  have taken : (name ++ unit '>' :: (renderBody parameters ++ units "</function>")).takeWhile (· ≠ unit '>') = name := by
    rw [List.takeWhile_append_of_pos named, List.takeWhile_cons_of_neg (by simp), List.append_nil]
  have dropped : (name ++ unit '>' :: (renderBody parameters ++ units "</function>")).dropWhile (· ≠ unit '>') =
      unit '>' :: (renderBody parameters ++ units "</function>") := by
    rw [List.dropWhile_append_of_pos named, List.dropWhile_cons_of_neg (by simp)]
  have whole : render name parameters = (units "<function=" ++ name ++ [unit '>']) ++ (renderBody parameters ++ units "</function>") := by
    simp [render]
  have bodyStart : (render name parameters).length - (renderBody parameters ++ units "</function>").length =
      (units "<function=" ++ name ++ [unit '>']).length := by
    rw [whole, List.length_append, Nat.add_sub_cancel]
  have functionEnd : indexOfAsciiCaseInsensitive runtime (render name parameters) (units "</function>")
      (units "<function=" ++ name ++ [unit '>']).length =
      some ((units "<function=" ++ name ++ [unit '>']).length + (renderBody parameters).length) := by
    rw [whole]
    refine indexOf_tag isTag_function rfl ?_ (even_body written) (no_function written) rfl
    simp only [List.mem_append, List.mem_singleton, not_or]
    exact ⟨⟨by decide, even_units valid⟩, by decide⟩
  have body : slice (render name parameters) (units "<function=" ++ name ++ [unit '>']).length
      ((units "<function=" ++ name ++ [unit '>']).length + (renderBody parameters).length) = renderBody parameters := by
    rw [whole]
    exact slice_middle ..
  have stop : (units "<function=" ++ name ++ [unit '>']).length + (renderBody parameters).length + (units "</function>").length =
      (render name parameters).length := by
    rw [length_render]
    simp only [List.length_append, List.length_cons, List.length_nil]
  have parsed : parseParameters runtime (renderBody parameters) [] 0 = .ok (parameters.map reading) :=
    parseParameters_rendered [] parameters written nodup
  have dropped_start : (render name parameters).drop (units "<function=").length = name ++ unit '>' :: (renderBody parameters ++ units "</function>") := by
    rw [render, List.drop_left]
  rw [parseXmlish, dropped_start]
  dsimp only
  rw [taken, dropped, List.drop_succ_cons, List.drop_zero, bodyStart, functionEnd]
  simp only [require, List.isEmpty_cons, Bool.not_false, if_true, valid, body, stop, parsed, Nat.sub_self, List.drop_length, bind,
    Except.bind, decide_eq_true_eq]
  by_cases fits : byteLength (renderBody parameters) ≤ maxPayloadBytes
  · simp only [if_pos fits]
    rfl
  · simp only [if_neg fits]

theorem byteLength_ascii {first : Text} (ascii : ∀ char ∈ first, char < 128) (last : Text) :
    byteLength (first ++ last) = first.length + byteLength last := by
  induction first with
  | nil => simp
  | cons char first ih =>
    obtain ⟨own, ascii⟩ := List.forall_mem_cons.mp ascii
    rw [List.cons_append, byteLength.eq_def (char :: (first ++ last))]
    simp only [if_pos own]
    rw [ih ascii, List.length_cons]
    omega

theorem byteLength_body {name : Text} {parameters : List (Text × Text)} (valid : validXmlName name = true) :
    byteLength (renderBody parameters) ≤ byteLength (render name parameters) := by
  have whole : render name parameters = (units "<function=" ++ name ++ [unit '>']) ++ (renderBody parameters ++ units "</function>") := by
    simp [render]
  have ascii : ∀ char ∈ units "<function=" ++ name ++ [unit '>'], char < 128 := by
    simp only [List.mem_append, List.mem_singleton]
    rintro char ((letter | inside) | rfl)
    · exact (by decide : ∀ char ∈ units "<function=", char < 128) char letter
    · exact (name_units valid char inside).1
    · decide
  have part := byteLength_append_le (renderBody parameters) (units "</function>")
  rw [whole, byteLength_ascii ascii]
  omega

theorem analyzeCalls_rendered {name : Text} {parameters : List (Text × Text)} {allowed : List Text} (listed : name ∈ allowed)
    (valid : validXmlName name = true) (written : ∀ entry ∈ parameters, Written entry) (nodup : (parameters.map Prod.fst).Nodup) :
    analyzeCalls runtime maxPayloadBytes (render name parameters) allowed 0 [] (render name parameters) =
      if byteLength (render name parameters) ≤ maxPayloadBytes then .promotable .xmlish [call runtime name parameters]
      else .rejected .xmlish .rejectedOverCap := by
  have parsed : parseOne runtime maxPayloadBytes (render name parameters) (render name parameters) =
      parseXmlish runtime maxPayloadBytes (render name parameters) (render name parameters) := if_pos (by simp [render])
  rw [parseXmlish_rendered valid written nodup] at parsed
  have body : byteLength (renderBody parameters) ≤ byteLength (render name parameters) := byteLength_body valid
  have sliced : slice (render name parameters) 0 (render name parameters).length = render name parameters := by
    simp [slice]
  have some : ¬ (render name parameters).isEmpty = true := Bool.false_ne_true
  have inside : ¬ (!allowed.contains name) = true := by simpa using listed
  rw [analyzeCalls, if_neg some]
  by_cases fits : byteLength (renderBody parameters) ≤ maxPayloadBytes
  · rw [if_pos fits] at parsed
    rw [parsed]
    simp only [call, sliced, Nat.zero_add]
    by_cases whole : byteLength (render name parameters) ≤ maxPayloadBytes
    · rw [if_pos whole, if_neg (Nat.not_lt.mpr whole), if_neg inside]
      rfl
    · rw [if_neg whole, if_pos (Nat.lt_of_not_le whole)]
  · rw [if_neg fits] at parsed
    rw [parsed, if_neg fun whole => fits (body.trans whole)]

theorem mem_markers {text : Text} {offset : Nat} (found : offset ∈ matchAll matchMarker 0 0 none text) : offset ∈ findMarkerOffsets text := by
  rw [findMarkerOffsets, List.mem_mergeSort, List.mem_eraseDups]
  exact List.mem_append_left _ found

theorem marker_first (rest : Text) : 0 ∈ findMarkerOffsets (units "<function=" ++ rest) := by
  apply mem_markers
  have opening : matchMarker none (units "<function=" ++ rest) = some 10 := rfl
  have letters : units "<function=" ++ rest = unit '<' :: (units "function=" ++ rest) := rfl
  rw [letters] at opening ⊢
  rw [matchAll, opening]
  exact List.mem_cons_self

theorem analyze_opened (rest : Text) (allowed : List Text) :
    analyzeAssistantToolCallText runtime maxPayloadBytes (units "<function=" ++ rest) allowed =
      if (findMarkerOffsets (units "<function=" ++ rest)).any (isProtected · (findMarkdownCodeRanges (units "<function=" ++ rest))) then
        .rejected (syntaxAt ((units "<function=" ++ rest).drop ((findMarkerOffsets (units "<function=" ++ rest)).headD 0))) .rejectedProtectedRange
      else analyzeCalls runtime maxPayloadBytes (units "<function=" ++ rest) allowed 0 [] (units "<function=" ++ rest) := by
  have marked := marker_first rest
  have blank : skipWhitespace (units "<function=" ++ rest) = units "<function=" ++ rest := rfl
  have some : ¬ (units "<function=" ++ rest).isEmpty = true := Bool.false_ne_true
  have start : isPotentialCallStart (units "<function=" ++ rest) = true := rfl
  generalize units "<function=" ++ rest = text at *
  unfold analyzeAssistantToolCallText
  dsimp only
  rw [blank, if_neg some, start]
  cases markers : findMarkerOffsets text with
  | nil =>
    rw [markers] at marked
    cases marked
  | cons marker markers =>
    simp only [Bool.not_true, Bool.false_eq_true, if_false, List.headD_cons]

theorem analyze_unprotected {rest : Text} (allowed : List Text) (unprotected : ∀ offset ∈ findMarkerOffsets (units "<function=" ++ rest),
    isProtected offset (findMarkdownCodeRanges (units "<function=" ++ rest)) = false) :
    analyzeAssistantToolCallText runtime maxPayloadBytes (units "<function=" ++ rest) allowed =
      analyzeCalls runtime maxPayloadBytes (units "<function=" ++ rest) allowed 0 [] (units "<function=" ++ rest) := by
  rw [analyze_opened, if_neg]
  simpa using unprotected

theorem analyze_protected {rest : Text} {offset : Nat} (allowed : List Text) (marked : offset ∈ findMarkerOffsets (units "<function=" ++ rest))
    (inside : isProtected offset (findMarkdownCodeRanges (units "<function=" ++ rest)) = true) : ∃ form,
      analyzeAssistantToolCallText runtime maxPayloadBytes (units "<function=" ++ rest) allowed = .rejected form .rejectedProtectedRange := by
  rw [analyze_opened, if_pos (List.any_eq_true.mpr ⟨offset, marked, inside⟩)]
  exact ⟨_, rfl⟩

theorem ranges_of_plain {text : Text} (plain : indexOf text [unit '`'] 0 = none) : findMarkdownCodeRanges text = [] := by
  rw [findMarkdownCodeRanges, findMarkdownCodeRangesFrom]
  split
  · split
    next => rfl
    next found => cases plain.symm.trans found
  · rfl

def LineBreak (text : Text) : Prop := text = units "\r\n" ∨ text = units "\r" ∨ text = units "\n"

/-- The value without a line break at its start and one at its end, where it has them. -/
structure Trimmed (value trimmed : Text) : Prop where
  parts : ∃ opening closing, (opening = [] ∨ LineBreak opening) ∧ (closing = [] ∨ LineBreak closing) ∧ value = opening ++ trimmed ++ closing
  whole : (∀ char ∈ value.head?, char ≠ unit '\r' ∧ char ≠ unit '\n') → (∀ char ∈ value.getLast?, char ≠ unit '\r' ∧ char ≠ unit '\n') →
    trimmed = value

theorem consumeLineBreak_parts {value rest : Text} (consumed : consumeLineBreak value = some rest) :
    ∃ opening, LineBreak opening ∧ value = opening ++ rest := by
  cases value with
  | nil => cases consumed
  | cons first value =>
    simp only [consumeLineBreak] at consumed
    split at consumed
    next carriage =>
      split at consumed
      next feed =>
        obtain ⟨later, rfl⟩ := List.head?_eq_some_iff.mp feed
        cases consumed
        refine ⟨units "\r\n", .inl rfl, ?_⟩
        rw [carriage]
        rfl
      next =>
        cases consumed
        refine ⟨units "\r", .inr (.inl rfl), ?_⟩
        rw [carriage]
        rfl
    next =>
      split at consumed
      next feed =>
        cases consumed
        refine ⟨units "\n", .inr (.inr rfl), ?_⟩
        rw [feed]
        rfl
      next => cases consumed

/-- What `value.replace(/(?:\r\n|[\r\n])$/, '')` leaves. -/
def withoutTrailing (value : Text) : Text :=
  if (units "\r\n").isSuffixOf value then value.dropLast.dropLast
  else if (units "\r").isSuffixOf value || (units "\n").isSuffixOf value then value.dropLast
  else value

theorem withoutTrailing_parts (value : Text) :
    ∃ closing, (closing = [] ∨ LineBreak closing) ∧ value = withoutTrailing value ++ closing := by
  unfold withoutTrailing
  split
  next both =>
    obtain ⟨front, rfl⟩ := List.isSuffixOf_iff_suffix.mp both
    have letters : units "\r\n" = [unit '\r'] ++ [unit '\n'] := rfl
    refine ⟨units "\r\n", .inr (.inl rfl), ?_⟩
    rw [letters, ← List.append_assoc, List.dropLast_concat, List.dropLast_concat, List.append_assoc]
  next =>
    split
    next one =>
      rcases Bool.or_eq_true_iff.mp one with carriage | feed
      · obtain ⟨front, rfl⟩ := List.isSuffixOf_iff_suffix.mp carriage
        exact ⟨units "\r", .inr (.inr (.inl rfl)), congrArg (· ++ units "\r") List.dropLast_concat.symm⟩
      · obtain ⟨front, rfl⟩ := List.isSuffixOf_iff_suffix.mp feed
        exact ⟨units "\n", .inr (.inr (.inr rfl)), congrArg (· ++ units "\n") List.dropLast_concat.symm⟩
    next => exact ⟨[], .inl rfl, (List.append_nil _).symm⟩

theorem withoutTrailing_of_last {value : Text} (last : ∀ char ∈ value.getLast?, char ≠ unit '\r' ∧ char ≠ unit '\n') :
    withoutTrailing value = value := by
  have other (front : Text) {char : Nat} (breaks : char = unit '\r' ∨ char = unit '\n') : ¬ (front ++ [char]).isSuffixOf value = true := by
    intro suffix
    obtain ⟨earlier, rfl⟩ := List.isSuffixOf_iff_suffix.mp suffix
    have apart := last char (by simp)
    exact breaks.elim apart.1 apart.2
  have both : ¬ (units "\r\n").isSuffixOf value = true := other [unit '\r'] (.inr rfl)
  have carriage : ¬ (units "\r").isSuffixOf value = true := other [] (.inl rfl)
  have feed : ¬ (units "\n").isSuffixOf value = true := other [] (.inr rfl)
  rw [withoutTrailing, if_neg both, if_neg (by simp [carriage, feed])]

theorem trimmed_normalize (value : Text) : Trimmed value (normalizeXmlParameter value) := by
  have folded : normalizeXmlParameter value = withoutTrailing ((consumeLineBreak value).getD value) := rfl
  constructor
  · rw [folded]
    obtain ⟨closing, closes, same⟩ := withoutTrailing_parts ((consumeLineBreak value).getD value)
    cases consumed : consumeLineBreak value with
    | none =>
      rw [consumed] at same
      exact ⟨[], closing, .inl rfl, closes, same⟩
    | some rest =>
      obtain ⟨opening, opens, whole⟩ := consumeLineBreak_parts consumed
      rw [consumed] at same
      refine ⟨opening, closing, .inr opens, closes, whole.trans ?_⟩
      rw [List.append_assoc]
      exact congrArg (opening ++ ·) same
  · intro first last
    have none : consumeLineBreak value = none := by
      cases value with
      | nil => rfl
      | cons char value =>
        obtain ⟨carriage, feed⟩ := first char rfl
        rw [consumeLineBreak, if_neg carriage, if_neg feed]
    rw [folded, none]
    exact withoutTrailing_of_last last

theorem analyze_rendered {name : Text} {parameters : List (Text × Text)} {allowed : List Text} (listed : name ∈ allowed)
    (valid : validXmlName name = true) (written : ∀ entry ∈ parameters, Written entry) (nodup : (parameters.map Prod.fst).Nodup)
    (unprotected : ∀ offset ∈ findMarkerOffsets (render name parameters),
      isProtected offset (findMarkdownCodeRanges (render name parameters)) = false) :
    analyzeAssistantToolCallText runtime maxPayloadBytes (render name parameters) allowed =
      if byteLength (render name parameters) ≤ maxPayloadBytes then .promotable .xmlish [call runtime name parameters]
      else .rejected .xmlish .rejectedOverCap :=
  (analyze_unprotected allowed unprotected).trans (analyzeCalls_rendered listed valid written nodup)

/-- A call that is written out is read back, with each value less a line break at its ends. -/
theorem reads_rendered_call (runtime : Runtime Arguments) (maxPayloadBytes : Nat) (name : Text) (parameters : List (Text × Text))
    (allowedToolNames : List Text) (listed : name ∈ allowedToolNames) (valid : validXmlName name = true)
    (written : ∀ entry ∈ parameters, Written entry) (nodup : (parameters.map Prod.fst).Nodup)
    (unprotected : ∀ offset ∈ findMarkerOffsets (render name parameters),
      isProtected offset (findMarkdownCodeRanges (render name parameters)) = false)
    (fits : byteLength (render name parameters) ≤ maxPayloadBytes) :
    analyzeAssistantToolCallText runtime maxPayloadBytes (render name parameters) allowedToolNames =
        .promotable .xmlish [⟨name, runtime.ofParameters (parameters.map fun entry => (entry.1, normalizeXmlParameter entry.2)), .xmlish, 0,
          (render name parameters).length⟩] ∧
      ∀ entry ∈ parameters, Trimmed entry.2 (normalizeXmlParameter entry.2) := by
  refine ⟨?_, fun entry _ => trimmed_normalize entry.2⟩
  exact (analyze_rendered listed valid written nodup unprotected).trans (if_pos fits)

def read : Text := units "read"

theorem written_plain : Written (units "path", units "notes") := ⟨rfl, by decide, by decide, by decide, by decide⟩

theorem unprotected_of_plain {text : Text} (plain : indexOf text [unit '`'] 0 = none) :
    ∀ offset ∈ findMarkerOffsets text, isProtected offset (findMarkdownCodeRanges text) = false := by
  rw [ranges_of_plain plain]
  exact fun _ _ => rfl

theorem byteLength_of_ascii {text : Text} (ascii : ∀ char ∈ text, char < 128) : byteLength text = text.length := by
  have bytes := byteLength_ascii ascii []
  rw [List.append_nil] at bytes
  exact bytes

theorem reads_rendered_call_plain :
    analyzeAssistantToolCallText silent DEFAULT_TOOL_CALL_REPAIR_MAX_PAYLOAD_BYTES (render read [(units "path", units "notes")]) [read] =
        .promotable .xmlish [⟨read, [(units "path", units "notes")], .xmlish, 0, (render read [(units "path", units "notes")]).length⟩] ∧
      ∀ entry ∈ [(units "path", units "notes")], Trimmed entry.2 (normalizeXmlParameter entry.2) := by
  have fits : byteLength (render read [(units "path", units "notes")]) ≤ DEFAULT_TOOL_CALL_REPAIR_MAX_PAYLOAD_BYTES := by
    rw [byteLength_of_ascii (by decide)]
    have short : (render read [(units "path", units "notes")]).length = 59 := by decide
    rw [short, DEFAULT_TOOL_CALL_REPAIR_MAX_PAYLOAD_BYTES]
    omega
  exact reads_rendered_call silent DEFAULT_TOOL_CALL_REPAIR_MAX_PAYLOAD_BYTES read [(units "path", units "notes")] [read] (by decide) rfl
    (List.forall_mem_singleton.mpr written_plain) (by decide) (unprotected_of_plain (by decide)) fits

/-! What is not read back as it was written: a value with a line break at its end, a name that is
none, a marker in backticks, and a call that is too long. -/

def ReadBack (name : Text) (parameters : List (Text × Text)) : Prop :=
  analyzeAssistantToolCallText silent DEFAULT_TOOL_CALL_REPAIR_MAX_PAYLOAD_BYTES (render name parameters) [name] =
    .promotable .xmlish [⟨name, parameters, .xmlish, 0, (render name parameters).length⟩]

theorem readBack_iff {name : Text} {parameters : List (Text × Text)} (valid : validXmlName name = true)
    (written : ∀ entry ∈ parameters, Written entry) (nodup : (parameters.map Prod.fst).Nodup)
    (unprotected : ∀ offset ∈ findMarkerOffsets (render name parameters),
      isProtected offset (findMarkdownCodeRanges (render name parameters)) = false) :
    ReadBack name parameters ↔ byteLength (render name parameters) ≤ DEFAULT_TOOL_CALL_REPAIR_MAX_PAYLOAD_BYTES ∧
      parameters.map reading = parameters := by
  rw [ReadBack, analyze_rendered List.mem_cons_self valid written nodup unprotected]
  split
  next fits => simp [call, silent, fits]
  next above => simp [above]

theorem line_break_lost : ¬ ReadBack read [(units "path", units "notes\n")] := by
  have written : Written (units "path", units "notes\n") := ⟨rfl, by decide, by decide, by decide, by decide⟩
  rw [readBack_iff rfl (List.forall_mem_singleton.mpr written) (by decide) (unprotected_of_plain (by decide))]
  exact fun both => absurd both.2 (by decide)

theorem name_rejected : ¬ ReadBack (units "a b") [] := by
  have parsed : parseOne silent DEFAULT_TOOL_CALL_REPAIR_MAX_PAYLOAD_BYTES (render (units "a b") []) (render (units "a b") []) =
      .error ⟨.xmlish, .rejectedMalformed⟩ := rfl
  have calls : analyzeCalls silent DEFAULT_TOOL_CALL_REPAIR_MAX_PAYLOAD_BYTES (render (units "a b") []) [units "a b"] 0 []
      (render (units "a b") []) = .rejected .xmlish .rejectedMalformed := by
    have some : ¬ (render (units "a b") []).isEmpty = true := Bool.false_ne_true
    rw [analyzeCalls, if_neg some, parsed]
  intro readBack
  have analyzed := (analyze_unprotected [units "a b"] (unprotected_of_plain (by decide))).symm.trans readBack
  cases calls.symm.trans analyzed

theorem ranges_tick : ∃ later, findMarkdownCodeRanges (render read [(units "path", units "`[x]`")]) = ⟨31, 36⟩ :: later := by
  rw [findMarkdownCodeRanges, findMarkdownCodeRangesFrom]
  have opened : indexOf (render read [(units "path", units "`[x]`")]) [unit '`'] 0 = some 31 := by decide
  split
  · split
    next absent => cases opened.symm.trans absent
    next start found =>
      obtain rfl : 31 = start := Option.some.inj (opened.symm.trans found)
      have closed : indexOf (render read [(units "path", units "`[x]`")]) [unit '`'] 32 = some 35 := by decide
      dsimp only
      split
      next absent => cases closed.symm.trans absent
      next stop found =>
        obtain rfl : 35 = stop := Option.some.inj (closed.symm.trans found)
        exact ⟨_, rfl⟩
  next outside => exact absurd (by decide) outside

theorem marker_in_backticks : ¬ ReadBack read [(units "path", units "`[x]`")] := by
  obtain ⟨later, ranges⟩ := ranges_tick
  have marked : 32 ∈ findMarkerOffsets (render read [(units "path", units "`[x]`")]) := mem_markers (by decide)
  have inside : isProtected 32 (findMarkdownCodeRanges (render read [(units "path", units "`[x]`")])) = true := by
    rw [ranges]
    rfl
  intro readBack
  obtain ⟨form, rejected⟩ := analyze_protected [read] marked inside
  cases rejected.symm.trans readBack

theorem holdsTag_replicate {tag : Text} (isTag : IsTag tag) (count : Nat) : holdsTag tag (List.replicate count (unit 'A')) = false := by
  have letter : ∀ char ∈ List.replicate count (unit 'A'), char ≠ unit '<' := fun char inside => by
    rw [List.eq_of_mem_replicate inside]
    decide
  have plain : holdsTag tag (List.replicate count (unit 'A') ++ []) = holdsTag tag [] := holdsTag_plain isTag letter
  rwa [List.append_nil] at plain

theorem written_replicate (count : Nat) : Written (units "path", List.replicate count (unit 'A')) :=
  ⟨rfl, (by decide : units "path" ≠ units "__proto__"), holdsTag_replicate isTag_parameter count, holdsTag_replicate isTag_function count,
    fun inside => absurd (List.eq_of_mem_replicate inside) (by decide)⟩

theorem not_readBack_of_long {value : Text} (written : Written (units "path", value))
    (long : DEFAULT_TOOL_CALL_REPAIR_MAX_PAYLOAD_BYTES ≤ byteLength value) : ¬ ReadBack read [(units "path", value)] := by
  have front : ∀ char ∈ units "<function=read><parameter=path>", char < 128 := by decide
  have whole : render read [(units "path", value)] =
      units "<function=read><parameter=path>" ++ (value ++ units "</parameter></function>") := by
    simp [render, renderBody, renderParameter]
    rfl
  have bytes : DEFAULT_TOOL_CALL_REPAIR_MAX_PAYLOAD_BYTES < byteLength (render read [(units "path", value)]) := by
    have inside := byteLength_append_le value (units "</parameter></function>")
    have opening : (units "<function=read><parameter=path>").length = 31 := by decide
    rw [whole, byteLength_ascii front, opening]
    omega
  have calls := @analyzeCalls_rendered _ silent DEFAULT_TOOL_CALL_REPAIR_MAX_PAYLOAD_BYTES _ _ [read] List.mem_cons_self rfl
    (List.forall_mem_singleton.mpr written) (List.nodup_cons.mpr ⟨List.not_mem_nil, List.nodup_nil⟩)
  rw [if_neg (Nat.not_le.mpr bytes)] at calls
  intro readBack
  cases protectedMarker : (findMarkerOffsets (render read [(units "path", value)])).any
      (isProtected · (findMarkdownCodeRanges (render read [(units "path", value)]))) with
  | true =>
    obtain ⟨offset, marked, inside⟩ := List.any_eq_true.mp protectedMarker
    obtain ⟨form, rejected⟩ := analyze_protected [read] marked inside
    cases rejected.symm.trans readBack
  | false =>
    have unprotected : ∀ offset ∈ findMarkerOffsets (render read [(units "path", value)]),
        isProtected offset (findMarkdownCodeRanges (render read [(units "path", value)])) = false := by
      simpa using List.any_eq_false.mp protectedMarker
    cases calls.symm.trans ((analyze_unprotected [read] unprotected).symm.trans readBack)

theorem long_rejected : ¬ ReadBack read [(units "path", List.replicate DEFAULT_TOOL_CALL_REPAIR_MAX_PAYLOAD_BYTES (unit 'A'))] := by
  generalize counted : DEFAULT_TOOL_CALL_REPAIR_MAX_PAYLOAD_BYTES = count
  apply not_readBack_of_long (written_replicate count)
  have ascii : ∀ char ∈ List.replicate count (unit 'A'), char < 128 := fun char inside => by
    rw [List.eq_of_mem_replicate inside]
    decide
  rw [byteLength_of_ascii ascii, List.length_replicate, counted]

theorem exact_readBack_refuted :
    ¬ ReadBack read [(units "path", units "notes\n")] ∧ ¬ ReadBack (units "a b") [] ∧ ¬ ReadBack read [(units "path", units "`[x]`")] ∧
      ¬ ReadBack read [(units "path", List.replicate DEFAULT_TOOL_CALL_REPAIR_MAX_PAYLOAD_BYTES (unit 'A'))] :=
  ⟨line_break_lost, name_rejected, marker_in_backticks, long_rejected⟩

end AgentSaas.Proofs.XmlishCalls
