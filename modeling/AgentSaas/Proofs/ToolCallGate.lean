import Mathlib.Algebra.Ring.Nat
import AgentSaas.Proofs.ToolCallPrefixes
import AgentSaas.StreamGates

/-! The gate in front of the stream lets a text through whole or not at all, however the text
is split, and a text it let through holds no call. -/

namespace AgentSaas.Proofs.ToolCallGate
open ToolCallRepair ToolCallPrefixes Prefixes StreamGates

variable {Arguments : Type} {runtime : Runtime Arguments} {maxPayloadBytes : Nat} {text start rest after : Text}
  {call : RepairedToolCall Arguments}

/-! Every text a call is read from was a call that could still come. -/

theorem payload_accepted (opened : rest.head? = some (unit '\x7b')) : couldBePayload rest = true := by
  cases rest with
  | nil => rfl
  | cons first rest =>
    cases opened
    rfl

theorem spaces_accepted {next : Text → Bool} (spaced : rest.head?.any isHorizontal = true)
    (accepted : next (skipHorizontalWhitespace rest) = true) : opens isHorizontal (skip isHorizontal (orEnd next)) rest = true := by
  cases rest with
  | nil => rfl
  | cons first rest =>
    simp only [opens, skip, orEnd, Bool.and_eq_true, Bool.or_eq_true]
    exact ⟨spaced, .inr accepted⟩

theorem literal_accepted {expected : Text} {next : Text → Bool} (read : expected.isPrefixOf rest = true)
    (accepted : next (rest.drop expected.length) = true) : literal expected next rest = true := by
  rw [literal, if_pos read]
  exact accepted

theorem afterBracket_accepted {toolPrefix : Bool} {form : ToolCallRepairSyntax} (parsed : parseBracketHeader toolPrefix form rest = .ok after)
    (opened : (skipWhitespace after).head? = some (unit '\x7b')) : couldBeAfterBracket toolPrefix rest = true := by
  unfold parseBracketHeader at parsed
  unfold couldBeAfterBracket
  split at parsed
  next tool =>
    cases parsed
    rw [if_pos tool]
    exact payload_accepted opened
  next named =>
    rw [if_neg named]
    split at parsed
    next consumed =>
      cases parsed
      have lineBreak : consumeLineBreak (rest.dropWhile isHorizontal) = some after := consumed
      simp only [skip, orEnd, couldBeLineBreak, lineBreak, Option.any_some, Bool.or_eq_true]
      exact .inr (payload_accepted opened)
    next => cases parsed

theorem bracket_accepted (parsed : parseBracket runtime maxPayloadBytes text start = .ok (call, after)) : couldBeBracketPrefix start = true := by
  obtain ⟨shut, name, form, rest, header, opened, _⟩ := of_parseBracket parsed
  unfold couldBeBracketPrefix
  dsimp only
  generalize (start.drop 1).takeWhile (· ≠ unit ']') = heading at *
  generalize (start.drop 1).dropWhile (· ≠ unit ']') = closed at *
  split
  next => rfl
  next =>
    have fine := name
    simp only [validPlainName, Bool.and_eq_true, decide_eq_true_eq] at fine
    rw [if_neg (by simp [fine.2, fine.1.2]), if_neg (by simp [shut]), if_neg (by simp [name])]
    exact afterBracket_accepted header opened

theorem message_accepted (parsed : parseHarmonyMessage rest = .ok after) (opened : after.head? = some (unit '\x7b')) :
    maybe (units "<|message|>") (skip isSpace couldBePayload) couldBePayload rest = true := by
  unfold parseHarmonyMessage at parsed
  unfold maybe
  split at parsed
  next read =>
    cases parsed
    rw [if_pos read]
    exact payload_accepted opened
  next unread =>
    rw [if_neg unread, Bool.or_eq_true]
    split at parsed
    · cases parsed
    · cases parsed
      exact .inr (payload_accepted opened)

theorem harmony_accepted (parsed : parseHarmony runtime maxPayloadBytes text start = .ok (call, after)) : couldBeHarmonyPrefix start = true := by
  obtain ⟨⟨target, name, code, payload, shape⟩, _⟩ := of_parseHarmony parsed
  obtain ⟨channel, found, targetEq⟩ := shape.channel
  unfold couldBeHarmonyPrefix
  dsimp only
  split
  next => rfl
  next =>
    simp only [oneOf, found, ← targetEq]
    apply spaces_accepted shape.spaced
    apply literal_accepted shape.toward.1
    rw [← shape.toward.2]
    have fine := shape.valid
    simp only [validPlainName, Bool.and_eq_true, decide_eq_true_eq, Bool.not_eq_true'] at fine
    simp only [word, orEnd, Bool.and_eq_true, Bool.or_eq_true, decide_eq_true_eq, Bool.not_eq_true', fine.1.1]
    refine ⟨fine.1.2, .inr ⟨trivial, ?_⟩⟩
    apply spaces_accepted shape.parted
    apply literal_accepted shape.coded.1
    rw [← shape.coded.2]
    simp only [skip, orEnd, Bool.or_eq_true]
    apply Or.inr
    exact message_accepted shape.messaged shape.opened

theorem drop_take_append (front back : Text) (stop : Nat) :
    slice (front ++ back) front.length stop = back.take (stop - front.length) := by
  rw [slice, List.drop_take, List.drop_left]

theorem space_of_ascii {char : Nat} (lowered : lowerAscii char = unit '<') : isSpace char = false := by
  have same : char = unit '<' := by
    unfold lowerAscii at lowered
    split at lowered
    next upper =>
      change char + 0x20 = 0x3C at lowered
      omega
    next => exact lowered
  rw [same]
  rfl

/-- Past the part that keeps its length, an index into the lower case reads what is there. -/
theorem read_at_index {front rest : Text} {marker : Text} {index : Nat} (plain : Plain marker) (some : marker ≠ []) (kept : 0x130 ∉ front)
    (within : front.length ≤ index) (last : index ≠ front.length → rest = [])
    (read : marker <+: (toLowerCase runtime (front ++ rest)).drop index) : marker <+: rest.map lowerAscii := by
  obtain ⟨more, rfl⟩ := Nat.exists_eq_add_of_le within
  rw [toLowerCase, ← List.drop_drop, drop_lower kept] at read
  cases more with
  | zero => exact (lower_prefixes plain).1.mp read
  | succ more =>
    rw [last (by omega), toLowerCaseFrom, List.drop_nil] at read
    exact absurd (List.prefix_nil.mp read) some

theorem body_accepted {front : Text} {functionEnd : Nat} {args : List (Text × Text)} (kept : 0x130 ∉ front)
    (found : indexOfAsciiCaseInsensitive runtime (front ++ rest) (units "</function>") front.length = some functionEnd)
    (parsed : parseParameters runtime (slice (front ++ rest) front.length functionEnd) [] 0 = .ok args) :
    orEnd (couldBeXmlishBody runtime) (skipWhitespace rest) = true := by
  obtain ⟨later, read⟩ := prefix_of_indexOf found
  change units "</function>" <+: _ at read
  rw [drop_take_append] at parsed
  have split := List.take_append_drop (functionEnd - front.length) rest
  have bodyLength : (rest.take (functionEnd - front.length)).length = min (functionEnd - front.length) rest.length := List.length_take
  have closingLength : (rest.drop (functionEnd - front.length)).length = rest.length - (functionEnd - front.length) := List.length_drop
  generalize rest.take (functionEnd - front.length) = body at *
  generalize rest.drop (functionEnd - front.length) = closing at *
  rw [orEnd, Bool.or_eq_true]
  apply Or.inr
  simp only [couldBeXmlishBody, compatible_lower plain_parameter, compatible_lower plain_function, Bool.or_eq_true]
  by_cases blank : skipWhitespace body = []
  · have spaces : ∀ char ∈ body, isSpace char = true := List.dropWhile_eq_nil_iff.mp blank
    have keptBody : 0x130 ∉ front ++ body := by
      intro member
      rcases List.mem_append.mp member with member | member
      · exact kept member
      · exact absurd (spaces _ member) (by decide)
    rw [← split, ← List.append_assoc] at read
    have closes : units "</function>" <+: closing.map lowerAscii := by
      apply read_at_index plain_function (by decide) keptBody _ _ read
      · rw [List.length_append]
        omega
      · rw [List.length_append]
        intro different
        apply List.eq_nil_of_length_eq_zero
        omega
    cases closing with
    | nil => exact absurd (List.prefix_nil.mp closes) (by decide)
    | cons first closing =>
      have opened : isSpace first = false := space_of_ascii (List.cons_prefix_cons.mp closes).1.symm
      rw [skipWhitespace, ← split, List.dropWhile_append_of_pos spaces, List.dropWhile_cons_of_neg (by simp [opened])]
      rw [compatible, compatible, List.isPrefixOf_iff_prefix.mpr closes]
      simp
  · rw [← split, skipWhitespace_append blank]
    have named : toLowerCase runtime ((skipWhitespace body).take (units "<parameter=").length) = units "<parameter=" :=
      (of_parseParameters parsed).resolve_left blank
    have reads : units "<parameter=" <+: ((skipWhitespace body).take (units "<parameter=").length).map lowerAscii := by
      apply (lower_prefixes plain_parameter).1.mp
      exact (congrArg (units "<parameter=" <+: ·) named).mpr (List.prefix_refl _)
    have whole : units "<parameter=" <+: (skipWhitespace body ++ closing).map lowerAscii := by
      apply reads.trans
      exact (((List.take_prefix _ _).trans (List.prefix_append _ _))).map lowerAscii
    rw [compatible, List.isPrefixOf_iff_prefix.mpr whole]
    simp

theorem word_of_stop {allowed : Nat → Bool} {limit stop : Nat} {next : Text → Bool} {name more : Text} (some : name ≠ [])
    (within : name.length ≤ limit) (all : ∀ char ∈ name, allowed char = true) (stops : allowed stop = false)
    (accepted : next (stop :: more) = true) : word allowed limit next (name ++ stop :: more) = true := by
  have taken : (name ++ stop :: more).takeWhile allowed = name := by
    rw [List.takeWhile_append_of_pos all, List.takeWhile_cons_of_neg (by simp [stops]), List.append_nil]
  have dropped : (name ++ stop :: more).dropWhile allowed = stop :: more := by
    rw [List.dropWhile_append_of_pos all, List.dropWhile_cons_of_neg (by simp [stops])]
  simp only [word, taken, dropped, orEnd, Bool.and_eq_true, Bool.or_eq_true, decide_eq_true_eq, Bool.not_eq_true']
  exact ⟨within, .inr ⟨by simpa [List.isEmpty_iff] using some, accepted⟩⟩

theorem stop_of_dropWhile {stop : Nat} (some : rest.dropWhile (· ≠ stop) ≠ []) :
    ∃ more, rest.dropWhile (· ≠ stop) = stop :: more := by
  obtain ⟨first, more, dropped⟩ := List.exists_cons_of_ne_nil some
  have stopped := List.head?_dropWhile_not (· ≠ stop) rest
  rw [dropped, List.head?_cons] at stopped
  have same : first = stop := by simpa using stopped
  exact ⟨more, by rw [dropped, same]⟩

/-- Up to its body a call is ASCII, and blanks before it take no more room in lower case. -/
theorem header_keeps {white name : Text} (spaces : ∀ char ∈ white, isSpace char = true) (named : name.all isXmlNameUnit = true) :
    0x130 ∉ white ++ (units "<function=" ++ (name ++ [unit '>'])) := by
  intro member
  rcases List.mem_append.mp member with member | member
  · exact absurd (spaces _ member) (by decide)
  · rcases List.mem_append.mp member with member | member
    · exact absurd member (by decide)
    · rcases List.mem_append.mp member with member | member
      · exact absurd (List.all_eq_true.mp named _ member) (by decide)
      · exact absurd member (by decide)

theorem xmlish_accepted {white : Text} (spaces : ∀ char ∈ white, isSpace char = true) (opened : units "<function=" <+: start)
    (parsed : parseXmlish runtime maxPayloadBytes (white ++ start) start = .ok (call, after)) : couldBeXmlishPrefix runtime start = true := by
  obtain ⟨⟨some, valid, functionEnd, args, found, parameters⟩, _⟩ := of_parseXmlish parsed
  obtain ⟨inner, rfl⟩ := opened
  simp only [xmlName, List.drop_left] at some valid found parameters
  obtain ⟨body, stopped⟩ := stop_of_dropWhile (by simpa only [List.isEmpty_eq_false_iff] using some)
  have whole := List.takeWhile_append_dropWhile (p := (· ≠ unit '>')) (l := inner)
  rw [stopped] at whole
  generalize inner.takeWhile (· ≠ unit '>') = name at valid whole
  simp only [validXmlName, Bool.and_eq_true, decide_eq_true_eq, Bool.not_eq_true', List.isEmpty_eq_false_iff] at valid
  simp only [couldBeXmlishPrefix, Bool.if_true_left, Bool.or_eq_true, List.drop_left]
  apply Or.inr
  rw [← whole]
  apply word_of_stop valid.1.1 valid.1.2 (List.all_eq_true.mp valid.2) rfl
  have text : white ++ (units "<function=" ++ inner) = white ++ (units "<function=" ++ (name ++ [unit '>'])) ++ body := by
    rw [← whole]
    simp
  have bodyStart : (white ++ (units "<function=" ++ inner)).length - ((unit '>' :: body).drop 1).length =
      (white ++ (units "<function=" ++ (name ++ [unit '>']))).length := by
    rw [text, List.drop_succ_cons, List.drop_zero, List.length_append]
    omega
  rw [stopped, bodyStart, text] at found parameters
  exact body_accepted (header_keeps spaces valid.2) found parameters

theorem call_accepted {white : Text} (spaces : ∀ char ∈ white, isSpace char = true) (whole : white ++ start = text)
    (parsed : parseOne runtime maxPayloadBytes text start = .ok (call, after)) : couldBePotentialCallPrefix runtime start = true := by
  subst whole
  unfold parseOne at parsed
  unfold couldBePotentialCallPrefix
  split at parsed
  next opened =>
    have read := List.isPrefixOf_iff_prefix.mp opened
    rw [if_neg, if_pos]
    · exact xmlish_accepted spaces read parsed
    · rw [compatible, opened, Bool.or_true]
    · obtain ⟨inner, rfl⟩ := read
      intro bracket
      cases bracket
  next unopened =>
    split at parsed
    next harmony =>
      rw [if_neg]
      · split
        next near =>
          have reading : start.isPrefixOf (units "<function=") = true := by
            simpa [compatible, unopened] using near
          rw [couldBeXmlishPrefix, if_pos reading]
        next => exact harmony_accepted parsed
      · intro bracket
        cases start with
        | nil => cases bracket
        | cons first start =>
          cases bracket
          exact absurd harmony (Bool.eq_false_iff.mp rfl)
    next =>
      split at parsed
      next bracket =>
        rw [if_pos bracket]
        exact bracket_accepted parsed
      next => cases parsed

theorem first_of_promotable {allowed : List Text} {form : ToolCallRepairSyntax} {calls : List (RepairedToolCall Arguments)}
    (promotable : analyzeAssistantToolCallText runtime maxPayloadBytes text allowed = .promotable form calls) :
    ∃ call after, parseOne runtime maxPayloadBytes text (skipWhitespace text) = .ok (call, after) := by
  simp only [analyzeAssistantToolCallText] at promotable
  split at promotable
  · cases promotable
  next some =>
    split at promotable
    · cases promotable
    · split at promotable
      · cases promotable
      · split at promotable
        · cases promotable
        · rw [analyzeCalls, if_neg some] at promotable
          split at promotable
          · cases promotable
          next call after parsed => exact ⟨call, after, parsed⟩

def judge (runtime : Runtime Arguments) (text : Text) : Verdict :=
  let probe := skipWhitespace text
  if probe.isEmpty then .wait
  else if classifyDsmlPrefix runtime probe = .confirmed then .drop
  else if classifyDsmlPrefix runtime probe = .begun || couldBePotentialCallPrefix runtime probe then .wait
  else .pass

theorem judge_sound (runtime : Runtime Arguments) : Judge (judge runtime) := by
  refine ⟨rfl, ?_⟩
  intro front back judged
  simp only [judge] at judged ⊢
  split at judged
  next => exact absurd rfl judged
  next some =>
    have probed : skipWhitespace front ≠ [] := by simpa only [List.isEmpty_iff] using some
    rw [skipWhitespace_append probed, if_neg some, if_neg (by simp [probed])]
    generalize skipWhitespace front = probe at *
    split at judged
    next confirmed =>
      rw [if_pos confirmed, classifyDsmlPrefix_append probed (by simp [confirmed]), if_pos confirmed]
    next unconfirmed =>
      split at judged
      next => exact absurd rfl judged
      next released =>
        have fixed := released
        simp only [Bool.or_eq_true, decide_eq_true_eq, not_or] at fixed
        rw [if_neg unconfirmed, if_neg released, classifyDsmlPrefix_append probed fixed.1, if_neg unconfirmed, if_neg]
        simp only [Bool.or_eq_true, decide_eq_true_eq, not_or]
        exact ⟨fixed.1, fun could => fixed.2 (closed_potentialCall runtime probe back could)⟩

theorem unpromotable_of_pass (passes : judge runtime text = .pass) (allowed : List Text) (form : ToolCallRepairSyntax)
    (calls : List (RepairedToolCall Arguments)) : analyzeAssistantToolCallText runtime maxPayloadBytes text allowed ≠ .promotable form calls := by
  intro promotable
  obtain ⟨call, after, parsed⟩ := first_of_promotable promotable
  have whole : text.takeWhile isSpace ++ skipWhitespace text = text := List.takeWhile_append_dropWhile
  have spaces : ∀ char ∈ text.takeWhile isSpace, isSpace char = true := fun char member => List.mem_takeWhile_imp member
  have could := call_accepted spaces whole parsed
  simp only [judge, could, Bool.or_true, if_true] at passes
  split at passes
  · cases passes
  · split at passes
    · cases passes
    · cases passes

def view (gate : ToolCallRepairStreamGate) : Gate Nat :=
  match gate.state with
  | .probing | .candidate => .waiting gate.pending
  | .passthrough => .passing
  | .suppressing => .dropping

/-- The gate stands where the one that only judges stands, and no text was too long for it. -/
structure Refines (runtime : Runtime Arguments) (gate : ToolCallRepairStreamGate) (abstract : Gate Nat) : Prop where
  viewed : view gate = abstract
  held : ∀ text, abstract = .waiting text → judge runtime text = .wait
  dropped : gate.state = .suppressing → gate.pending = []
  uncapped : gate.forcedOverCap = false

variable {gate : ToolCallRepairStreamGate} {abstract : Gate Nat}

theorem start_refines (runtime : Runtime Arguments) : Refines runtime {} (.waiting []) := by
  refine ⟨rfl, ?_, ?_, rfl⟩
  · intro text same
    cases same
    rfl
  · intro state
    cases state

theorem Refines.passes_iff (refines : Refines runtime gate abstract) : gate.state = .passthrough ↔ abstract = .passing := by
  rw [← refines.viewed, view]
  cases gate.state <;> simp

def shown : Gate Nat → List Text
  | .waiting held => if held.isEmpty then [] else [held]
  | .passing | .dropping => []

theorem Refines.visible_eq (refines : Refines runtime gate abstract) : gate.visible = shown abstract := by
  have dropped := refines.dropped
  rw [← refines.viewed, ToolCallRepairStreamGate.visible, view]
  cases state : gate.state with
  | probing => simp [shown]
  | candidate => simp [shown]
  | passthrough => simp [shown]
  | suppressing => simp [shown, dropped state]

theorem probe_refines (runtime : Runtime Arguments) (gate : ToolCallRepairStreamGate) (waits : gate.state = .probing ∨ gate.state = .candidate) (uncapped : gate.forcedOverCap = false) :
    let probed := gate.probe runtime
    Refines runtime probed.1 (settled (judge runtime) gate.pending).1 ∧ probed.2.flatten = (settled (judge runtime) gate.pending).2 ∧
      probed.1.pendingBytes = gate.pendingBytes := by
  have viewed : view gate = .waiting gate.pending := by
    rcases waits with state | state <;> rw [view, state]
  have running : gate.state ≠ .suppressing := by
    rcases waits with state | state <;> simp [state]
  have waiting : judge runtime gate.pending = .wait → ∀ text, Gate.waiting gate.pending = .waiting text → judge runtime text = .wait := by
    intro wait text same
    cases same
    exact wait
  unfold ToolCallRepairStreamGate.probe
  by_cases blank : (skipWhitespace gate.pending).isEmpty = true
  · have wait : judge runtime gate.pending = .wait := by simp only [judge, blank, if_true]
    simp only [settled, wait, blank, if_true]
    exact ⟨⟨viewed, waiting wait, fun state => absurd state running, uncapped⟩, rfl, trivial⟩
  · by_cases confirmed : classifyDsmlPrefix runtime (skipWhitespace gate.pending) = .confirmed
    · have drop : judge runtime gate.pending = .drop := by simp only [judge, if_neg blank, if_pos confirmed]
      simp only [settled, drop, if_neg blank, if_pos confirmed]
      exact ⟨⟨rfl, fun _ same => (by cases same), fun _ => rfl, uncapped⟩, rfl, trivial⟩
    · by_cases could : (classifyDsmlPrefix runtime (skipWhitespace gate.pending) = .begun ||
          couldBePotentialCallPrefix runtime (skipWhitespace gate.pending)) = true
      · have wait : judge runtime gate.pending = .wait := by simp only [judge, if_neg blank, if_neg confirmed, if_pos could]
        simp only [settled, wait, if_neg blank, if_neg confirmed, if_pos could]
        exact ⟨⟨rfl, waiting wait, fun state => (by cases state), uncapped⟩, rfl, trivial⟩
      · have pass : judge runtime gate.pending = .pass := by simp only [judge, if_neg blank, if_neg confirmed, if_neg could]
        simp only [settled, pass, if_neg blank, if_neg confirmed, if_neg could]
        exact ⟨⟨rfl, fun _ same => (by cases same), fun state => (by cases state), uncapped⟩, by simp, trivial⟩

theorem push_waiting (refines : Refines runtime gate abstract) (waits : gate.state = .probing ∨ gate.state = .candidate) {delta : Text}
    (some : ¬delta.isEmpty = true) (room : ¬maxPayloadBytes + MAX_STREAM_WRAPPER_BYTES < gate.pendingBytes + byteLength delta) :
    let pushed := gate.push runtime .repair maxPayloadBytes delta
    let judged := push (judge runtime) abstract delta
    Refines runtime pushed.1 judged.1 ∧ pushed.2.flatten = judged.2 ∧ pushed.1.pendingBytes = gate.pendingBytes + byteLength delta := by
  have viewed : .waiting gate.pending = abstract := by
    rw [← refines.viewed]
    rcases waits with state | state <;> rw [view, state]
  have probed : gate.push runtime .repair maxPayloadBytes delta = ToolCallRepairStreamGate.probe runtime
      { gate with pending := gate.pending ++ delta, pendingBytes := gate.pendingBytes + byteLength delta } := by
    unfold ToolCallRepairStreamGate.push
    rw [if_neg some, if_neg (by rcases waits with state | state <;> simp [state]), if_neg (by rcases waits with state | state <;> simp [state])]
    exact if_neg room
  subst viewed
  rw [probed]
  obtain ⟨follows, released, bytes⟩ := probe_refines runtime
    { gate with pending := gate.pending ++ delta, pendingBytes := gate.pendingBytes + byteLength delta } waits refines.uncapped
  exact ⟨follows, released, bytes⟩

theorem push_refines (maxPayloadBytes : Nat) (refines : Refines runtime gate abstract) (delta : Text)
    (within : gate.pendingBytes + byteLength delta ≤ maxPayloadBytes + MAX_STREAM_WRAPPER_BYTES) :
    let pushed := gate.push runtime .repair maxPayloadBytes delta
    let judged := push (judge runtime) abstract delta
    Refines runtime pushed.1 judged.1 ∧ pushed.2.flatten = judged.2 ∧ pushed.1.pendingBytes ≤ gate.pendingBytes + byteLength delta := by
  by_cases empty : delta = []
  · subst empty
    simp only [ToolCallRepairStreamGate.push, List.isEmpty_nil, if_true]
    cases abstract with
    | waiting held =>
      have wait := refines.held held rfl
      simp only [push, List.append_nil, settled, wait]
      exact ⟨refines, rfl, Nat.le_add_right _ _⟩
    | passing => exact ⟨refines, rfl, Nat.le_add_right _ _⟩
    | dropping => exact ⟨refines, rfl, Nat.le_add_right _ _⟩
  · have some : ¬delta.isEmpty = true := by simpa [List.isEmpty_iff] using empty
    have room : ¬maxPayloadBytes + MAX_STREAM_WRAPPER_BYTES < gate.pendingBytes + byteLength delta := by omega
    have viewed := refines.viewed
    have waits : gate.state = .probing ∨ gate.state = .candidate ∨ gate.state = .passthrough ∨ gate.state = .suppressing := by
      cases gate.state <;> simp
    rcases waits with state | state | state | state
    · obtain ⟨follows, released, bytes⟩ := push_waiting refines (.inl state) some room
      exact ⟨follows, released, Nat.le_of_eq bytes⟩
    · obtain ⟨follows, released, bytes⟩ := push_waiting refines (.inr state) some room
      exact ⟨follows, released, Nat.le_of_eq bytes⟩
    · rw [view, state] at viewed
      subst viewed
      rw [ToolCallRepairStreamGate.push, if_neg some]
      simp only [state, ne_eq, not_true_eq_false, decide_false, decide_true, Bool.or_true, if_true]
      exact ⟨refines, by simp [push], Nat.le_add_right _ _⟩
    · rw [view, state] at viewed
      subst viewed
      rw [ToolCallRepairStreamGate.push, if_neg some]
      simp only [state, ne_eq, not_true_eq_false, decide_false, reduceCtorEq, Bool.or_false, Bool.false_eq_true, if_false, if_true]
      exact ⟨refines, rfl, Nat.le_add_right _ _⟩

theorem pushAll_refines (maxPayloadBytes : Nat) (refines : Refines runtime gate abstract) (deltas : List Text)
    (within : gate.pendingBytes + (deltas.map byteLength).sum ≤ maxPayloadBytes + MAX_STREAM_WRAPPER_BYTES) :
    let pushed := gate.pushAll runtime .repair maxPayloadBytes deltas
    let judged := pushAll (judge runtime) abstract deltas
    Refines runtime pushed.1 judged.1 ∧ pushed.2.flatten = judged.2 := by
  induction deltas generalizing gate abstract with
  | nil => exact ⟨refines, rfl⟩
  | cons delta deltas ih =>
    rw [List.map_cons, List.sum_cons] at within
    obtain ⟨follows, released, bytes⟩ := push_refines maxPayloadBytes refines delta (by omega)
    obtain ⟨last, later⟩ := ih follows (by omega)
    refine ⟨last, ?_⟩
    simp only [ToolCallRepairStreamGate.pushAll, pushAll, List.flatten_append, released, later]

variable {other : ToolCallRepairStreamGate} {params : FinishParams}

theorem finish_alike (maxPayloadBytes : Nat) (params : FinishParams) (first : Refines runtime gate abstract) (second : Refines runtime other abstract) :
    gate.finish runtime .repair maxPayloadBytes params = other.finish runtime .repair maxPayloadBytes params := by
  have passes : gate.state = .passthrough ↔ other.state = .passthrough := first.passes_iff.trans second.passes_iff.symm
  have decision : gate.decide runtime maxPayloadBytes params = other.decide runtime maxPayloadBytes params := by
    simp only [ToolCallRepairStreamGate.decide, first.uncapped, second.uncapped, ne_eq, passes]
  simp only [ToolCallRepairStreamGate.finish, decision, first.visible_eq, second.visible_eq, ne_eq, passes]

theorem finish_cases (runtime : Runtime Arguments) (maxPayloadBytes : Nat) (gate : ToolCallRepairStreamGate) (params : FinishParams) :
    let finished := gate.finish runtime .repair maxPayloadBytes params
    finished.visibleText = [] ∨ finished.visibleText = gate.visible ∧ finished.promotedToolCalls = [] := by
  simp only [ToolCallRepairStreamGate.finish, reduceCtorEq, if_false]
  split
  · split
    · exact .inl rfl
    · exact .inl rfl
  · split
    · exact .inl rfl
    · exact .inr ⟨rfl, rfl⟩
  · exact .inr ⟨rfl, rfl⟩

theorem promotable_of_promoted (uncapped : gate.forcedOverCap = false)
    (promoted : (gate.finish runtime .repair maxPayloadBytes params).promotedToolCalls ≠ []) :
    ∃ form calls, analyzeAssistantToolCallText runtime maxPayloadBytes params.text params.allowedToolNames = .promotable form calls := by
  simp only [ToolCallRepairStreamGate.finish, reduceCtorEq, if_false] at promoted
  split at promoted
  next form calls promotable =>
    simp only [ToolCallRepairStreamGate.decide, uncapped, Bool.false_eq_true, if_false] at promotable
    split at promotable
    · cases promotable
    · exact ⟨form, calls, promotable⟩
  next => split at promoted <;> exact absurd rfl promoted
  next => exact absurd rfl promoted

/-- What a stream that fits lets through, and how it ends: as the judged text says. -/
theorem stream_settles (runtime : Runtime Arguments) (maxPayloadBytes : Nat) (deltas : List Text) (whole : deltas.flatten = params.text)
    (within : (deltas.map byteLength).sum ≤ maxPayloadBytes + MAX_STREAM_WRAPPER_BYTES) :
    ∃ gate, Refines runtime gate (settled (judge runtime) params.text).1 ∧
      (stream runtime .repair maxPayloadBytes deltas params).finalization = gate.finish runtime .repair maxPayloadBytes params ∧
      (stream runtime .repair maxPayloadBytes deltas params).released.flatten =
        (settled (judge runtime) params.text).2 ++ (gate.finish runtime .repair maxPayloadBytes params).visibleText.flatten := by
  obtain ⟨last, released⟩ := pushAll_refines maxPayloadBytes (start_refines runtime) deltas (by simpa using within)
  rw [pushAll_eq_settled (judge_sound runtime), whole] at last released
  refine ⟨_, last, rfl, ?_⟩
  simp only [stream, List.flatten_append, released]

theorem released_whole (maxPayloadBytes : Nat) (refines : Refines runtime gate (settled (judge runtime) params.text).1) :
    let finished := gate.finish runtime .repair maxPayloadBytes params
    let released := (settled (judge runtime) params.text).2 ++ finished.visibleText.flatten
    (released = params.text ∨ released = []) ∧ (finished.promotedToolCalls ≠ [] → released = []) := by
  have visible := refines.visible_eq
  have cases := finish_cases runtime maxPayloadBytes gate params
  cases verdict : judge runtime params.text with
  | wait =>
    simp only [settled, verdict, shown] at visible cases ⊢
    rcases cases with hidden | ⟨seen, unpromoted⟩
    · simp [hidden]
    · refine ⟨.inl ?_, fun promoted => absurd unpromoted promoted⟩
      rw [seen, visible]
      split
      next empty => simp [List.isEmpty_iff.mp empty]
      next => simp
  | pass =>
    simp only [settled, verdict, shown] at visible cases ⊢
    rw [visible] at cases
    have hidden : (gate.finish runtime .repair maxPayloadBytes params).visibleText = [] := cases.elim id And.left
    refine ⟨.inl (by simp [hidden]), ?_⟩
    intro promoted
    obtain ⟨form, calls, promotable⟩ := promotable_of_promoted refines.uncapped promoted
    exact absurd promotable (unpromotable_of_pass verdict _ _ _)
  | drop =>
    simp only [settled, verdict, shown] at visible cases ⊢
    rw [visible] at cases
    have hidden : (gate.finish runtime .repair maxPayloadBytes params).visibleText = [] := cases.elim id And.left
    simp [hidden]

/-- However a text is split, as long as it fits: the whole of it is released or nothing, the
same calls are promoted, and none from a text that was released. -/
theorem stream_invariant (runtime : Runtime Arguments) (maxPayloadBytes : Nat) (params : FinishParams) (first second : List Text)
    (firstWhole : first.flatten = params.text) (secondWhole : second.flatten = params.text)
    (firstWithin : (first.map byteLength).sum ≤ maxPayloadBytes + MAX_STREAM_WRAPPER_BYTES)
    (secondWithin : (second.map byteLength).sum ≤ maxPayloadBytes + MAX_STREAM_WRAPPER_BYTES) :
    let one := stream runtime .repair maxPayloadBytes first params
    let two := stream runtime .repair maxPayloadBytes second params
    one.released.flatten = two.released.flatten ∧
      (one.released.flatten = params.text ∨ one.released.flatten = []) ∧
      one.finalization.promotedToolCalls = two.finalization.promotedToolCalls ∧
      (one.finalization.promotedToolCalls ≠ [] → one.released.flatten = []) := by
  obtain ⟨gate, refines, finalization, released⟩ := stream_settles runtime maxPayloadBytes first firstWhole firstWithin
  obtain ⟨other, refines', finalization', released'⟩ := stream_settles runtime maxPayloadBytes second secondWhole secondWithin
  have alike := finish_alike maxPayloadBytes params refines refines'
  have settles := released_whole maxPayloadBytes refines
  dsimp only at settles ⊢
  rw [released, released', finalization, finalization', ← alike]
  exact ⟨rfl, settles.1, rfl, settles.2⟩

def silent : Runtime (List (Text × Text)) where
  parseObject _ := none
  ofParameters parameters := parameters
  stringify _ := []
  sha256 text := text
  lower _ char _ := char
  lower_outside _ _ _ outside := outside

def functor : FinishParams where
  text := units "<functor>"
  allowedToolNames := [units "read"]
  nativeToolCallsPresent := false

theorem stream_invariant_functor :
    let one := stream silent .repair 0 [units "<fun", units "ctor", units ">"] functor
    let two := stream silent .repair 0 [units "<functor>"] functor
    one.released.flatten = two.released.flatten ∧
      (one.released.flatten = functor.text ∨ one.released.flatten = []) ∧
      one.finalization.promotedToolCalls = two.finalization.promotedToolCalls ∧
      (one.finalization.promotedToolCalls ≠ [] → one.released.flatten = []) :=
  stream_invariant silent 0 functor [units "<fun", units "ctor", units ">"] [units "<functor>"] (by decide +kernel) (by decide +kernel)
    (by decide +kernel) (by decide +kernel)

variable {mode : ToolCallRepairMode} {released pushed : Text}

/-- What was pushed is released or pending, unless nothing of it ever will be. -/
structure Conserved (mode : ToolCallRepairMode) (gate : ToolCallRepairStreamGate) (released pushed : Text) : Prop where
  whole : gate.state ≠ .suppressing → released ++ gate.pending = pushed
  held : mode = .repair → gate.state ≠ .passthrough → released = []
  clear : mode ≠ .repair ∨ gate.state = .passthrough → gate.pending = []
  repairs : gate.state = .suppressing → mode = .repair

theorem Conserved.released_eq (conserved : Conserved mode gate released pushed) (passes : mode ≠ .repair ∨ gate.state = .passthrough) :
    released = pushed := by
  have running : gate.state ≠ .suppressing := by
    intro suppresses
    rcases passes with other | passing
    · exact other (conserved.repairs suppresses)
    · cases passing.symm.trans suppresses
  have whole := conserved.whole running
  rwa [conserved.clear passes, List.append_nil] at whole

theorem push_passing (runtime : Runtime Arguments) (maxPayloadBytes : Nat) (passes : mode ≠ .repair ∨ gate.state = .passthrough) (delta : Text) :
    (gate.push runtime mode maxPayloadBytes delta).1 = gate ∧ (gate.push runtime mode maxPayloadBytes delta).2.flatten = delta := by
  unfold ToolCallRepairStreamGate.push
  split
  next empty => exact ⟨rfl, (List.isEmpty_iff.mp empty).symm⟩
  next =>
    rw [if_pos (by simpa using passes)]
    exact ⟨rfl, List.append_nil _⟩

theorem push_suppressing (suppresses : gate.state = .suppressing) (delta : Text) :
    gate.push runtime .repair maxPayloadBytes delta = (gate, []) := by
  unfold ToolCallRepairStreamGate.push
  simp [suppresses]

theorem probe_conserved (waits : gate.state ≠ .passthrough) (runs : gate.state ≠ .suppressing) :
    Conserved .repair (gate.probe runtime).1 (gate.probe runtime).2.flatten gate.pending := by
  have clear : ¬(ToolCallRepairMode.repair ≠ .repair ∨ gate.state = .passthrough) := not_or.mpr ⟨fun other => other rfl, waits⟩
  unfold ToolCallRepairStreamGate.probe
  dsimp only
  split
  next => exact ⟨fun _ => rfl, fun _ _ => rfl, fun passes => absurd passes clear, fun state => absurd state runs⟩
  next =>
    split
    next => exact ⟨fun state => absurd rfl state, fun _ _ => rfl, fun _ => rfl, fun _ => rfl⟩
    next =>
      split
      next => exact ⟨fun _ => rfl, fun _ _ => rfl, fun passes => by simp at passes, fun _ => rfl⟩
      next => exact ⟨fun _ => by simp, fun _ state => absurd rfl state, fun _ => rfl, fun _ => rfl⟩

theorem push_conserved (runtime : Runtime Arguments) (maxPayloadBytes : Nat) (conserved : Conserved mode gate released pushed) (delta : Text) :
    Conserved mode (gate.push runtime mode maxPayloadBytes delta).1
      (released ++ (gate.push runtime mode maxPayloadBytes delta).2.flatten) (pushed ++ delta) := by
  by_cases passes : mode ≠ .repair ∨ gate.state = .passthrough
  · obtain ⟨same, output⟩ := push_passing runtime maxPayloadBytes passes delta
    have clear := conserved.clear passes
    rw [same, output]
    refine ⟨fun running => ?_, fun repair state => ?_, fun _ => clear, conserved.repairs⟩
    · rw [← conserved.whole running, clear, List.append_nil, List.append_nil]
    · exact absurd passes (not_or.mpr ⟨fun other => other repair, state⟩)
  · obtain ⟨repairs, waits⟩ := not_or.mp passes
    cases Decidable.not_not.mp repairs
    cases conserved.held rfl waits
    by_cases suppresses : gate.state = .suppressing
    · rw [push_suppressing suppresses]
      exact ⟨fun running => absurd suppresses running, fun _ _ => rfl, conserved.clear, fun _ => rfl⟩
    · cases conserved.whole suppresses
      unfold ToolCallRepairStreamGate.push
      split
      next empty =>
        rw [List.isEmpty_iff.mp empty, List.append_nil]
        exact conserved
      next =>
        rw [if_neg (by simpa using waits)]
        dsimp only
        split
        next => exact ⟨fun state => absurd rfl state, fun _ _ => rfl, fun _ => rfl, fun _ => rfl⟩
        next => exact probe_conserved waits suppresses

theorem pushAll_conserved (runtime : Runtime Arguments) (maxPayloadBytes : Nat) (deltas : List Text)
    (conserved : Conserved mode gate released pushed) :
    Conserved mode (gate.pushAll runtime mode maxPayloadBytes deltas).1
      (released ++ (gate.pushAll runtime mode maxPayloadBytes deltas).2.flatten) (pushed ++ deltas.flatten) := by
  induction deltas generalizing gate released pushed with
  | nil => simpa [ToolCallRepairStreamGate.pushAll] using conserved
  | cons delta deltas ih =>
    have later := ih (push_conserved runtime maxPayloadBytes conserved delta)
    simpa only [ToolCallRepairStreamGate.pushAll, List.flatten_cons, List.flatten_append, List.append_assoc] using later

theorem pushAll_stays (stays : ∀ delta, (gate.push runtime mode maxPayloadBytes delta).1 = gate) (deltas : List Text) :
    (gate.pushAll runtime mode maxPayloadBytes deltas).1 = gate := by
  induction deltas with
  | nil => rfl
  | cons delta deltas ih =>
    simp only [ToolCallRepairStreamGate.pushAll]
    rw [stays delta]
    exact ih

theorem abort_conserved (conserved : Conserved mode gate released pushed) :
    Conserved mode (gate.abort mode).1 (released ++ (gate.abort mode).2.flatten) pushed ∧
      (mode ≠ .repair ∨ (gate.abort mode).1.state = .passthrough ∨ gate.state = .suppressing) := by
  unfold ToolCallRepairStreamGate.abort
  split
  next ends => exact ⟨by simpa using conserved, by simpa [or_assoc] using ends⟩
  next waits =>
    simp only [Bool.or_eq_true, decide_eq_true_eq, not_or] at waits
    refine ⟨⟨fun _ => ?_, fun _ state => absurd rfl state, fun _ => rfl, fun state => by cases state⟩, .inr (.inl rfl)⟩
    rw [← conserved.whole waits.2]
    split
    next empty => simp [List.isEmpty_iff.mp empty]
    next => simp

/-- However much was pushed when the stream is aborted, and whatever is pushed after it, all of it comes out
once and in order, or none of it where a call is being suppressed. -/
theorem aborted_whole (runtime : Runtime Arguments) (mode : ToolCallRepairMode) (maxPayloadBytes : Nat) (before after : List Text) :
    let pushed := ToolCallRepairStreamGate.pushAll runtime mode maxPayloadBytes {} before
    let aborted := pushed.1.abort mode
    let later := aborted.1.pushAll runtime mode maxPayloadBytes after
    (pushed.2 ++ aborted.2 ++ later.2).flatten = if pushed.1.state = .suppressing then [] else (before ++ after).flatten := by
  intro pushed aborted later
  have start : Conserved mode {} [] [] := ⟨fun _ => rfl, fun _ _ => rfl, fun _ => rfl, fun state => by cases state⟩
  have conserved := pushAll_conserved runtime maxPayloadBytes before start
  obtain ⟨kept, ends⟩ := abort_conserved conserved
  have total := pushAll_conserved runtime maxPayloadBytes after kept
  simp only [List.nil_append] at total
  simp only [List.flatten_append]
  split
  next suppresses =>
    cases conserved.repairs suppresses
    have same : aborted.1 = pushed.1 := by simp [aborted, ToolCallRepairStreamGate.abort, suppresses]
    have last : later.1 = pushed.1 := by
      apply (pushAll_stays (fun delta => ?_) after).trans same
      rw [push_suppressing (same ▸ suppresses)]
    exact total.held rfl (by rw [last, suppresses]; decide)
  next runs =>
    have passes : mode ≠ .repair ∨ aborted.1.state = .passthrough := by
      rcases ends with other | passing | suppresses
      · exact .inl other
      · exact .inr passing
      · exact absurd suppresses runs
    have last : later.1 = aborted.1 := pushAll_stays (fun delta => (push_passing runtime maxPayloadBytes passes delta).1) after
    exact total.released_eq (by rw [last]; exact passes)

end AgentSaas.Proofs.ToolCallGate
