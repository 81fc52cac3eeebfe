import AgentSaas.SessionMerge
import Mathlib.Data.List.Nodup

/-! What a refresh keeps of the messages a client shows. The merged list is the server's
list and then some of the client's messages. A bubble that still waits for the server is
among them unless it stands before the last text and is not the last bubble in flight. -/

namespace AgentSaas.Proofs.SessionMerge
open AgentSaas.SessionMerge Scans ToolCallRepair

/-- A user bubble in flight of which the server shows nothing yet. -/
structure Waiting (server : List MessageItem) (message : MessageItem) : Prop where
  inFlight : message.inFlight = true
  id : message.id ∉ server.map MessageItem.id
  clientMsgId : ∀ other ∈ server, ∀ name, userClientMessageId message = some name → userClientMessageId other ≠ some name
  content : message.content ≠ lastServerUserContent server

structure Survives (server messages merged : List MessageItem) : Prop where
  extends_server : ∃ kept, kept.Sublist messages ∧ merged = server ++ kept
  unique : (merged.map MessageItem.id).Nodup
  waiting : ∀ message ∈ messages, Waiting server message → message ∈ merged

/-- The server shows the last text of the client, as its own last text or as one of the same run. -/
structure Covers (server messages : List MessageItem) (anchorIdx : Nat) (content : Text) (runId : Option Text) : Prop where
  last : lastIndex MessageItem.isText messages = some anchorIdx
  text : ∃ id, messages[anchorIdx]? = some (.text id content runId)
  filled : blank content = false
  shown : (∃ latest, lastContent MessageItem.isText server = some latest ∧ content <+: latest) ∨
    ∃ run id text, runId = some run ∧ .text id text (some run) ∈ server ∧ content <+: text

def Covered (server messages : List MessageItem) : Prop := ∃ anchorIdx content runId, Covers server messages anchorIdx content runId

/-- The bubble at the index is the last one in flight, or it stands after the last text. -/
def Reached (messages : List MessageItem) (index : Nat) : Prop :=
  lastIndex MessageItem.inFlight messages = some index ∨ ∃ anchor, lastIndex MessageItem.isText messages = some anchor ∧ anchor < index

theorem append_eq (server tail : List MessageItem) :
    appendUnprojectedLocalTail server tail = server ++ tail.filter (unprojected server) := by
  simp only [appendUnprojectedLocalTail]
  split
  next empty => simp [List.isEmpty_iff.mp empty]
  next =>
    split
    next empty => rw [List.isEmpty_iff.mp empty, List.append_nil]
    next => rfl

theorem user_of_inFlight {message : MessageItem} (flying : message.inFlight = true) :
    ∃ id content status clientMsgId, message = .user id content status clientMsgId := by
  cases message with
  | user id content status clientMsgId => exact ⟨id, content, status, clientMsgId, rfl⟩
  | _ => simp [MessageItem.inFlight] at flying

theorem text_of_isText {message : MessageItem} (chosen : message.isText = true) :
    ∃ id content runId, message = .text id content runId := by
  cases message with
  | text id content runId => exact ⟨id, content, runId, rfl⟩
  | _ => simp [MessageItem.isText] at chosen

theorem Waiting.unprojected {server : List MessageItem} {message : MessageItem} (waiting : Waiting server message) :
    unprojected server message = true := by
  obtain ⟨id, content, status, clientMsgId, rfl⟩ := user_of_inFlight waiting.inFlight
  have named : projected userClientMessageId server (.user id content status clientMsgId) = false := by
    cases given : userClientMessageId (.user id content status clientMsgId) with
    | none => simp [projected, given]
    | some name =>
      simp only [projected, given, Option.any_some, decide_eq_false_iff_not, List.mem_filterMap, not_exists, not_and]
      intro other member
      exact waiting.clientMsgId other member name given
  have absent := waiting.id
  simp only [AgentSaas.SessionMerge.unprojected, named]
  simp [projected, toolCallIdentity, assistantIdentity, compactionIdentity, runtimeFailureIdentity]
  simpa using absent

section Branches
variable {server messages : List MessageItem}

theorem isRunText_iff {content : Text} {runId : Option Text} {message : MessageItem} :
    isRunText runId content message = true ↔ ∃ id text, message = .text id text runId ∧ content <+: text := by
  cases message with
  | text id text other =>
    simp only [isRunText, Bool.and_eq_true, decide_eq_true_eq, List.isPrefixOf_iff_prefix, MessageItem.text.injEq]
    constructor
    · rintro ⟨rfl, shown⟩
      exact ⟨id, text, ⟨rfl, rfl, rfl⟩, shown⟩
    · rintro ⟨_, _, ⟨rfl, rfl, rfl⟩, shown⟩
      exact ⟨rfl, shown⟩
  | _ => simp [isRunText]

theorem matching_iff {content : Text} {runId : Option Text} :
    (if runId.isSome then lastIndex (isRunText runId content) server else none).isSome = true ↔
      ∃ run id text, runId = some run ∧ .text id text (some run) ∈ server ∧ content <+: text := by
  cases runId with
  | none => simp
  | some run =>
    simp only [Option.isSome_some, if_true, Option.some.injEq]
    constructor
    · intro found
      obtain ⟨index, found⟩ := Option.isSome_iff_exists.mp found
      obtain ⟨⟨message, member, chosen⟩, -⟩ := lastIndex_spec found
      obtain ⟨id, text, rfl, shown⟩ := isRunText_iff.mp chosen
      exact ⟨run, id, text, rfl, List.mem_of_getElem? member, shown⟩
    · rintro ⟨_, id, text, rfl, member, shown⟩
      obtain ⟨index, found⟩ := lastIndex_isSome member (isRunText_iff.mpr ⟨id, text, rfl, shown⟩)
      exact Option.isSome_iff_exists.mpr ⟨index, found⟩

theorem latest_iff {content : Text} :
    (lastContent MessageItem.isText server).any (content.isPrefixOf ·) = true ↔
      ∃ latest, lastContent MessageItem.isText server = some latest ∧ content <+: latest := by
  cases lastContent MessageItem.isText server with
  | none => simp
  | some latest => simp

theorem covers_iff {anchorIdx : Nat} {id content : Text} {runId : Option Text}
    (last : lastIndex MessageItem.isText messages = some anchorIdx)
    (found : messages[anchorIdx]? = some (.text id content runId)) :
    Covered server messages ↔ blank content = false ∧
      ((lastContent MessageItem.isText server).any (content.isPrefixOf ·) = true ∨
        (if runId.isSome then lastIndex (isRunText runId content) server else none).isSome = true) := by
  rw [latest_iff, matching_iff]
  constructor
  · rintro ⟨other, otherContent, otherRun, covers⟩
    obtain ⟨otherId, text⟩ := covers.text
    have here : other = anchorIdx := Option.some.inj (covers.last.symm.trans last)
    subst here
    rw [found] at text
    cases text
    exact ⟨covers.filled, covers.shown⟩
  · rintro ⟨filled, shown⟩
    exact ⟨anchorIdx, content, runId, last, ⟨id, found⟩, filled, shown⟩

theorem mem_drop {start index : Nat} {message : MessageItem}
    (found : messages[index]? = some message) (inside : start ≤ index) : message ∈ messages.drop start := by
  apply List.mem_of_getElem? (i := index - start)
  rw [List.getElem?_drop, Nat.add_sub_cancel' inside, found]

/-- Once the server shows the last text, every bubble in flight before it is kept, and of
what comes after it at least the bubbles in flight. -/
theorem covered_tail (covered : Covered server messages) :
    ∃ tail : List MessageItem, mergeServerMessagesWithLocalTail server messages = server ++ tail.filter (unprojected server) ∧
      tail.Sublist messages ∧ ∀ message ∈ messages, Waiting server message → message ∈ tail := by
  have covered' := covered
  obtain ⟨anchorIdx, content, runId, covers⟩ := covered
  obtain ⟨id, anchored⟩ := covers.text
  obtain ⟨filled, shown⟩ := (covers_iff covers.last anchored).mp covered'
  let early := (messages.take anchorIdx).filter fun message =>
    message.inFlight && message.content ≠ lastServerUserContent server
  obtain ⟨historical, computed⟩ : ∃ historical : Bool, mergeServerMessagesWithLocalTail server messages = server ++
      (early ++ if historical then (messages.drop (anchorIdx + 1)).filter (stillOpen runId)
        else messages.drop (anchorIdx + 1)).filter (unprojected server) := by
    simp only [mergeServerMessagesWithLocalTail, covers.last, anchored, filled, Bool.false_eq_true, if_false, append_eq]
    rw [if_pos (by simpa only [Bool.or_eq_true] using shown)]
    exact ⟨_, rfl⟩
  refine ⟨_, computed, ?_, fun message member waits => ?_⟩
  · have first : early.Sublist (messages.take anchorIdx) := List.filter_sublist
    have rest : (messages.drop (anchorIdx + 1)).Sublist (messages.drop anchorIdx) := by
      rw [← List.drop_drop]
      exact List.drop_sublist ..
    rw [← List.take_append_drop anchorIdx messages]
    apply first.append
    rw [List.take_append_drop]
    cases historical
    · exact rest
    · exact List.filter_sublist.trans rest
  · obtain ⟨index, found⟩ := List.getElem?_of_mem member
    rcases Nat.lt_trichotomy index anchorIdx with before | rfl | later
    · apply List.mem_append_left
      have taken : message ∈ messages.take anchorIdx := by
        apply List.mem_of_getElem? (i := index)
        rw [List.getElem?_take_of_lt before, found]
      exact List.mem_filter.mpr ⟨taken, by simp [waits.inFlight, waits.content]⟩
    · rw [anchored] at found
      cases found
      exact absurd waits.inFlight (by simp [MessageItem.inFlight])
    · apply List.mem_append_right
      have taken := mem_drop found later
      cases historical
      · exact taken
      · apply List.mem_filter.mpr
        exact ⟨taken, by simp [stillOpen, waits.inFlight]⟩

theorem lastIndex_of_start {start : Nat} (found : inflightTailStart server messages = some start) :
    lastIndex MessageItem.inFlight messages = some start :=
  (Option.filter_eq_some_iff.mp found).1

theorem Waiting.start_of_last {message : MessageItem} {index : Nat} (waiting : Waiting server message)
    (member : messages[index]? = some message) (last : lastIndex MessageItem.inFlight messages = some index) :
    inflightTailStart server messages = some index := by
  have apart : lastServerUserContent server ≠ message.content := Ne.symm waiting.content
  simp [inflightTailStart, last, member, apart]

theorem open_tail (uncovered : ¬ Covered server messages) :
    ∃ start, mergeServerMessagesWithLocalTail server messages = server ++ (messages.drop start).filter (unprojected server) ∧
      ∀ index message, messages[index]? = some message → Waiting server message → (start ≤ index ↔ Reached messages index) := by
  have before {start index : Nat} {message : MessageItem} (found : inflightTailStart server messages = some start)
      (member : messages[index]? = some message) (waiting : Waiting server message) : index ≤ start :=
    le_lastIndex (lastIndex_of_start found) member waiting.inFlight
  cases last : lastIndex MessageItem.isText messages with
  | none =>
    have reached {index : Nat} {message : MessageItem} (member : messages[index]? = some message)
        (waiting : Waiting server message) : Reached messages index ↔ inflightTailStart server messages = some index := by
      simp only [Reached, last, reduceCtorEq, false_and, exists_false, or_false]
      exact ⟨waiting.start_of_last member, lastIndex_of_start⟩
    cases found : inflightTailStart server messages with
    | none =>
      refine ⟨messages.length, by simp [mergeServerMessagesWithLocalTail, last, found], fun index message member waiting => ?_⟩
      have inside := (List.getElem?_eq_some_iff.mp member).1
      rw [reached member waiting, found]
      simpa using inside
    | some start =>
      refine ⟨start, by simp [mergeServerMessagesWithLocalTail, last, found, append_eq], fun index message member waiting => ?_⟩
      have inside := before found member waiting
      rw [reached member waiting, found, Option.some.injEq]
      omega
  | some anchorIdx =>
    obtain ⟨⟨anchor, here, chosen⟩, -⟩ := lastIndex_spec last
    obtain ⟨id, content, runId, rfl⟩ := text_of_isText chosen
    have other {index : Nat} {message : MessageItem} (member : messages[index]? = some message)
        (waiting : Waiting server message) : index ≠ anchorIdx := by
      rintro rfl
      rw [here] at member
      cases member
      exact absurd waiting.inFlight (by simp [MessageItem.inFlight])
    have reached {index : Nat} {message : MessageItem} (member : messages[index]? = some message)
        (waiting : Waiting server message) :
        Reached messages index ↔ inflightTailStart server messages = some index ∨ anchorIdx < index := by
      simp only [Reached, last, Option.some.injEq, exists_eq_left']
      exact or_congr_left ⟨waiting.start_of_last member, lastIndex_of_start⟩
    rw [covers_iff last here, not_and, ← Bool.or_eq_true] at uncovered
    cases found : (inflightTailStart server messages).filter (· < anchorIdx) with
    | none =>
      have late {index : Nat} {message : MessageItem} (member : messages[index]? = some message)
          (waiting : Waiting server message) : Reached messages index ↔ anchorIdx < index := by
        rw [reached member waiting]
        refine ⟨fun either => either.elim (fun first => ?_) fun after => after, .inr⟩
        have apart := other member waiting
        have later : anchorIdx ≤ index := by simpa [first] using found
        omega
      cases filled : blank content with
      | true =>
        refine ⟨anchorIdx + 1, by simp [mergeServerMessagesWithLocalTail, last, here, filled, found, append_eq],
          fun index message member waiting => ?_⟩
        rw [late member waiting]
        omega
      | false =>
        refine ⟨anchorIdx, ?_, fun index message member waiting => ?_⟩
        · simp only [mergeServerMessagesWithLocalTail, last, here, filled, found, append_eq, Bool.false_eq_true, if_false,
            Option.getD_none]
          rw [if_neg (uncovered filled)]
        · have apart := other member waiting
          rw [late member waiting]
          omega
    | some start =>
      obtain ⟨first, early⟩ := Option.filter_eq_some_iff.mp found
      have early : start < anchorIdx := by simpa using early
      refine ⟨start, ?_, fun index message member waiting => ?_⟩
      · cases filled : blank content with
        | true => simp [mergeServerMessagesWithLocalTail, last, here, filled, found, append_eq]
        | false =>
          simp only [mergeServerMessagesWithLocalTail, last, here, filled, found, append_eq, Bool.false_eq_true, if_false,
            Option.getD_some]
          rw [if_neg (uncovered filled)]
      · have inside := before first member waiting
        rw [reached member waiting, first, Option.some.injEq]
        omega

end Branches

theorem index_unique {messages : List MessageItem} (unique : (messages.map MessageItem.id).Nodup) {index other : Nat}
    {message : MessageItem} (first : messages[index]? = some message) (second : messages[other]? = some message) :
    index = other := by
  obtain ⟨inside, here⟩ := List.getElem?_eq_some_iff.mp first
  obtain ⟨inside', there⟩ := List.getElem?_eq_some_iff.mp second
  exact (List.Nodup.of_map _ unique).getElem_inj_iff.mp (here.trans there.symm)

theorem extended {server messages tail : List MessageItem} (serverIds : (server.map MessageItem.id).Nodup)
    (localIds : (messages.map MessageItem.id).Nodup) (taken : tail.Sublist messages)
    (waiting : ∀ message ∈ messages, Waiting server message → message ∈ tail) :
    Survives server messages (server ++ tail.filter (unprojected server)) := by
  have kept : (tail.filter (unprojected server)).Sublist messages := List.filter_sublist.trans taken
  refine ⟨⟨_, kept, rfl⟩, ?_, fun message member waits => ?_⟩
  · rw [List.map_append]
    refine serverIds.append ((kept.map _).nodup localIds) fun id inServer inTail => ?_
    obtain ⟨message, member, rfl⟩ := List.mem_map.mp inTail
    have absent := (List.mem_filter.mp member).2
    simp only [unprojected, Bool.and_eq_true, Bool.not_eq_true', List.contains_eq_mem, decide_eq_false_iff_not] at absent
    exact absent.1.1.1.1.1 inServer
  · exact List.mem_append_right _ (List.mem_filter.mpr ⟨waiting message member waits, waits.unprojected⟩)

/-- The merged list has every message that the user still waits for exactly when the server
shows the last text already, or no bubble that waits stands before the last text without
being the last one in flight. -/
theorem survives_iff (server messages : List MessageItem) (serverIds : (server.map MessageItem.id).Nodup)
    (localIds : (messages.map MessageItem.id).Nodup) :
    Survives server messages (mergeServerMessagesWithLocalTail server messages) ↔
      Covered server messages ∨
        ∀ index message, messages[index]? = some message → Waiting server message → Reached messages index := by
  by_cases covered : Covered server messages
  · simp only [covered, true_or, iff_true]
    obtain ⟨tail, merged, taken, waiting⟩ := covered_tail covered
    rw [merged]
    exact extended serverIds localIds taken waiting
  · simp only [covered, false_or]
    obtain ⟨start, merged, reaches⟩ := open_tail covered
    rw [merged]
    constructor
    · intro survives index message member waits
      apply (reaches index message member waits).mp
      have kept := survives.waiting message (List.mem_of_getElem? member) waits
      rcases List.mem_append.mp kept with inServer | inTail
      · exact (waits.id (List.mem_map_of_mem inServer)).elim
      · obtain ⟨offset, found⟩ := List.getElem?_of_mem (List.mem_filter.mp inTail).1
        rw [List.getElem?_drop] at found
        have same := index_unique localIds member found
        omega
    · intro reached
      apply extended serverIds localIds (List.drop_sublist _ _)
      intro message member waits
      obtain ⟨index, found⟩ := List.getElem?_of_mem member
      exact mem_drop found ((reaches index message found waits).mpr (reached index message found waits))

theorem survives_iff_covered :
    Survives [.user (units "s1") (units "hi") none none, .text (units "s2") (units "hello") none]
      [.user (units "u1") (units "more") (some .queued) none, .text (units "m1") (units "hel") none]
      (mergeServerMessagesWithLocalTail
        [.user (units "s1") (units "hi") none none, .text (units "s2") (units "hello") none]
        [.user (units "u1") (units "more") (some .queued) none, .text (units "m1") (units "hel") none]) := by
  apply (survives_iff _ _ (by decide) (by decide)).mpr
  left
  exact ⟨1, units "hel", none, by decide, ⟨units "m1", rfl⟩, by decide, .inl ⟨units "hello", by decide, by decide⟩⟩

/-- Two bubbles are queued and the answer to the second is streaming: the first is lost. -/
theorem earlier_bubble_lost :
    ¬ ∀ server messages : List MessageItem, (server.map MessageItem.id).Nodup → (messages.map MessageItem.id).Nodup →
      Survives server messages (mergeServerMessagesWithLocalTail server messages) := by
  intro survives
  let first : MessageItem := .user (units "u2") (units "one") (some .queued) (some (units "c2"))
  have kept := (survives [.user (units "s1") (units "hi") none none]
    [.user (units "s1") (units "hi") none none, first,
      .user (units "u3") (units "two") (some .queued) (some (units "c3")), .text (units "m4") (units "so") none]
    (by decide) (by decide)).waiting first (by simp) ⟨by decide, by decide, by decide, by decide⟩
  exact absurd kept (by decide)

end AgentSaas.Proofs.SessionMerge
