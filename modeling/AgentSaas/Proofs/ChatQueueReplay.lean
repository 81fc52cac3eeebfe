import AgentSaas.Proofs.ChatQueue

/-! Frames about one message that come in any order and any number of times: which arrival
orders show the newest terminal frame. -/

namespace AgentSaas.Proofs.ChatQueueReplay
open AgentSaas.ChatQueue AgentSaas.Dictionaries AgentSaas.Proofs.ChatQueue

structure About (sessionId clientMsgId runId : String) (frame : ChatQueueItemPatch) : Prop where
  session : frame.sessionId = sessionId
  message : frame.clientMsgId = some clientMsgId
  run : frame.runId = some runId
  source : frame.sourceRunId ≠ some ""

variable {dateParse : String → Option Int} {sessionId clientMsgId runId : String}
  {frame newest : ChatQueueItemPatch} {frames : List ChatQueueItemPatch} {state : ChatQueueState}

def timeOf (dateParse : String → Option Int) (updatedAt : Option String) : Option Int := truthy updatedAt >>= dateParse

/-- The queue is ready for frames about the message, or has its item. -/
structure Follows (sessionId clientMsgId : String) (state : ChatQueueState) : Prop where
  own : isForeign state sessionId = false
  present : state.items.has clientMsgId = true ∨ state.order = [] ∧ state.items.get clientMsgId = none
  source : ∀ item, state.items.get clientMsgId = some item → item.sourceRunId ≠ ""

structure Settles (dateParse : String → Option Int) (current : Option ChatQueueItem) (frame : ChatQueueItemPatch)
    (item : ChatQueueItem) : Prop where
  status : item.status = settleServerStatus dateParse current frame.status frame.updatedAt
  updatedAt : item.updatedAt =
    (truthy ((if item.status ≠ frame.status then current else none).bind (·.updatedAt))).or
      (frame.updatedAt.or (current.bind (·.updatedAt)))

theorem canonicalizeItem_about (dateParse : String → Option Int) (about : About sessionId clientMsgId runId frame)
    (named : clientMsgId ≠ "") (ran : runId ≠ "") {current : Option ChatQueueItem}
    (source : ∀ item, current = some item → item.sourceRunId ≠ "") :
    ∃ item, canonicalizeItem dateParse frame current = some item ∧ item.clientMsgId = clientMsgId ∧
      item.sessionId = sessionId ∧ item.sourceRunId ≠ "" ∧ Settles dateParse current frame item := by
  have filled : ∃ name, name ≠ "" ∧
      (frame.sourceRunId <|> current.map (·.sourceRunId) <|> some runId) = some name := by
    cases known : frame.sourceRunId with
    | some name => exact ⟨name, fun wrong => about.source (wrong ▸ known), rfl⟩
    | none =>
      cases current with
      | none => exact ⟨runId, ran, rfl⟩
      | some item => exact ⟨item.sourceRunId, source item rfl, rfl⟩
  obtain ⟨name, nonempty, filled⟩ := filled
  have same {text : String} (filled : text ≠ "") : truthy (some text) = some text :=
    truthy_eq_self fun wrong => filled (Option.some.inj wrong)
  simp only [canonicalizeItem, about.message, about.run, about.session, Option.some_or, Option.orElse_eq_orElse,
    Option.orElse_eq_or] at filled ⊢
  rw [filled, same named, same ran, same nonempty]
  exact ⟨_, rfl, rfl, rfl, nonempty, ⟨rfl, rfl⟩⟩

theorem findItemKey_follows (follows : Follows sessionId clientMsgId state) (named : clientMsgId ≠ "")
    (runId sourceRunId : Option String) :
    (findItemKey state ⟨some clientMsgId, runId, sourceRunId⟩).bind state.items.get = state.items.get clientMsgId := by
  have same : truthy (some clientMsgId) = some clientMsgId :=
    truthy_eq_self fun wrong => named (Option.some.inj wrong)
  simp only [findItemKey, same]
  cases known : state.items.has clientMsgId with
  | true => simp [Option.filter, known]
  | false =>
    obtain wrong | ⟨empty, absent⟩ := follows.present
    · simp [known] at wrong
    · simp [Option.filter, known, empty, absent]

theorem upsert_follows (dateParse : String → Option Int) (follows : Follows sessionId clientMsgId state)
    (about : About sessionId clientMsgId runId frame) (named : clientMsgId ≠ "") (ran : runId ≠ "") :
    let next := reduceChatQueueEvent dateParse state (.serverUpsert frame)
    Follows sessionId clientMsgId next ∧ ∃ item, next.items.get clientMsgId = some item ∧
      Settles dateParse (state.items.get clientMsgId) frame item := by
  obtain ⟨item, settled, message, session, source, settles⟩ :=
    canonicalizeItem_about dateParse about named ran follows.source
  intro next
  have own := follows.own
  have next_eq : next = withServerUpsert dateParse state frame := rfl
  rw [isForeign, ← about.session] at own
  simp only [withServerUpsert, own, about.message, findItemKey_follows follows named, settled, message] at next_eq
  have here : next.items.get clientMsgId = some item := by
    rw [next_eq]
    exact Dictionary.get_set_self ..
  refine ⟨⟨?_, .inl (has_iff.mpr ⟨item, here⟩), ?_⟩, item, here, settles⟩
  · rw [next_eq]
    cases known : state.sessionId with
    | none =>
      change (truthy (some item.sessionId)).any (sessionId ≠ ·) = false
      rw [session]
      by_cases empty : sessionId = "" <;> simp [truthy, Option.filter, empty]
    | some sessionId =>
      have own := follows.own
      simp only [isForeign, known] at own ⊢
      exact own
  · intro other found
    rw [here] at found
    cases found
    exact source

/-! What one frame makes of the status and the time. -/

theorem compareIso_of_times {left right : Option String} {a b : Int} (first : timeOf dateParse left = some a)
    (second : timeOf dateParse right = some b) : compareIso dateParse left right = some (a - b) := by
  simp only [timeOf, Option.bind_eq_bind, Option.bind_eq_some_iff] at first second
  obtain ⟨leftText, left, first⟩ := first
  obtain ⟨rightText, right, second⟩ := second
  simp [compareIso, left, right, first, second]

theorem truthy_of_time {text : Option String} (valid : (timeOf dateParse text).isSome) : truthy text = text := by
  apply truthy_eq_self
  rintro rfl
  simp [timeOf, truthy, Option.filter] at valid

theorem Settles.taken {current : Option ChatQueueItem} {item : ChatQueueItem} (settles : Settles dateParse current frame item)
    (valid : (timeOf dateParse frame.updatedAt).isSome) (same : item.status = frame.status) :
    item.updatedAt = frame.updatedAt := by
  have filled := truthy_of_time valid
  rw [settles.updatedAt, if_neg (not_not.mpr same)]
  cases known : frame.updatedAt with
  | none => simp [known, timeOf, truthy] at valid
  | some => simp [truthy]

theorem Settles.kept {current item : ChatQueueItem} (settles : Settles dateParse (some current) frame item)
    (valid : (timeOf dateParse current.updatedAt).isSome) (other : item.status ≠ frame.status) :
    item.updatedAt = current.updatedAt := by
  have filled := truthy_of_time valid
  rw [settles.updatedAt, if_pos other, Option.bind_some, filled]
  cases known : current.updatedAt with
  | none => simp [known, timeOf, truthy] at valid
  | some => rfl

theorem settle_open {current : Option ChatQueueItem} {incoming : ChatQueueStatus} {updatedAt : Option String}
    (unsettled : ∀ item, current = some item → isChatQueueTerminalStatus item.status = false)
    (terminal : isChatQueueTerminalStatus incoming = true) :
    settleServerStatus dateParse current incoming updatedAt = incoming := by
  have served : incoming ≠ .cancelPending := by
    rintro rfl
    cases terminal
  cases current with
  | none => simp [settleServerStatus, served]
  | some item => simp [settleServerStatus, served, unsettled item rfl, terminal]

theorem settle_closed {current : ChatQueueItem} {incoming : ChatQueueStatus} {updatedAt : Option String}
    (settled : isChatQueueTerminalStatus current.status = true) :
    settleServerStatus dateParse (some current) incoming updatedAt =
      if isChatQueueTerminalStatus incoming && (compareIso dateParse updatedAt current.updatedAt).getD 0 > 0 then incoming
      else current.status := by
  have served : current.status ≠ .cancelPending ∧ current.status ≠ .queued := by
    constructor <;> intro wrong <;> simp [wrong, isChatQueueTerminalStatus] at settled
  by_cases asked : incoming = .cancelPending
  · subst asked
    simp [settleServerStatus, served, isChatQueueTerminalStatus]
  · cases terminal : isChatQueueTerminalStatus incoming with
    | false => simp [settleServerStatus, asked, served, settled, terminal]
    | true =>
      by_cases same : current.status = incoming
      · subst same
        simp [settleServerStatus, asked, settled]
      · simp [settleServerStatus, asked, served, settled, terminal, same]

theorem settle_kept {current : Option ChatQueueItem} {incoming : ChatQueueStatus} {updatedAt : Option String}
    (other : settleServerStatus dateParse current incoming updatedAt ≠ incoming)
    (terminal : isChatQueueTerminalStatus (settleServerStatus dateParse current incoming updatedAt) = true) :
    ∃ item, current = some item ∧ settleServerStatus dateParse current incoming updatedAt = item.status := by
  cases current with
  | none =>
    simp only [settleServerStatus] at other terminal
    split at terminal
    next => cases terminal
    next served => exact absurd (if_neg served) other
  | some item =>
    refine ⟨item, rfl, ?_⟩
    simp only [settleServerStatus] at other terminal ⊢
    split_ifs at other terminal ⊢ <;> first | rfl | exact absurd rfl other | cases terminal

/-- Frames about one message with valid times, a time for each. -/
structure Arrivals (dateParse : String → Option Int) (sessionId clientMsgId runId : String)
    (frames : List ChatQueueItemPatch) : Prop where
  about : ∀ frame ∈ frames, About sessionId clientMsgId runId frame
  valid : ∀ frame ∈ frames, (timeOf dateParse frame.updatedAt).isSome
  distinct : ∀ frame ∈ frames, ∀ other ∈ frames,
    timeOf dateParse frame.updatedAt = timeOf dateParse other.updatedAt → frame = other

/-- The terminal frame with the greatest time. -/
structure Newest (dateParse : String → Option Int) (frames : List ChatQueueItemPatch) (newest : ChatQueueItemPatch) : Prop where
  member : newest ∈ frames
  terminal : isChatQueueTerminalStatus newest.status = true
  latest : ∀ frame ∈ frames, isChatQueueTerminalStatus frame.status = true → ∀ time last,
    timeOf dateParse frame.updatedAt = some time → timeOf dateParse newest.updatedAt = some last → time ≤ last

def Shows (item : ChatQueueItem) (frame : ChatQueueItemPatch) : Prop :=
  item.status = frame.status ∧ item.updatedAt = frame.updatedAt

def Traces (frames : List ChatQueueItemPatch) (item : ChatQueueItem) : Prop :=
  ∃ frame ∈ frames, item.updatedAt = frame.updatedAt ∧
    (isChatQueueTerminalStatus item.status = true → item.status = frame.status)

variable {item : ChatQueueItem}

theorem Settles.traces {current : Option ChatQueueItem} (arrivals : Arrivals dateParse sessionId clientMsgId runId frames)
    (settles : Settles dateParse current frame item) (member : frame ∈ frames)
    (traced : ∀ item, current = some item → Traces frames item) : Traces frames item := by
  by_cases same : item.status = frame.status
  · exact ⟨frame, member, settles.taken (arrivals.valid frame member) same, fun _ => same⟩
  · cases current with
    | none =>
      refine ⟨frame, member, by simp [settles.updatedAt, truthy], fun terminal => ?_⟩
      rw [settles.status] at same terminal
      obtain ⟨item, wrong, -⟩ := settle_kept same terminal
      cases wrong
    | some before =>
      obtain ⟨earlier, known, time, status⟩ := traced before rfl
      have valid : (timeOf dateParse before.updatedAt).isSome := time ▸ arrivals.valid earlier known
      refine ⟨earlier, known, (settles.kept valid same).trans time, fun terminal => ?_⟩
      rw [settles.status] at same terminal ⊢
      obtain ⟨item, found, kept⟩ := settle_kept same terminal
      cases found
      exact kept.trans (status (kept ▸ terminal))

theorem Settles.shows {current : Option ChatQueueItem} (arrivals : Arrivals dateParse sessionId clientMsgId runId frames)
    (best : Newest dateParse frames newest) (settles : Settles dateParse current newest item)
    (traced : ∀ item, current = some item → Traces frames item) : Shows item newest := by
  have valid := arrivals.valid newest best.member
  suffices same : item.status = newest.status from ⟨same, settles.taken valid same⟩
  rw [settles.status]
  by_cases unsettled : ∀ item, current = some item → isChatQueueTerminalStatus item.status = false
  · exact settle_open unsettled best.terminal
  · push Not at unsettled
    obtain ⟨before, rfl, settled⟩ := unsettled
    have settled : isChatQueueTerminalStatus before.status = true := by simpa using settled
    obtain ⟨earlier, known, time, status⟩ := traced before rfl
    have status := status settled
    obtain ⟨last, final⟩ := Option.isSome_iff_exists.mp valid
    obtain ⟨first, start⟩ := Option.isSome_iff_exists.mp (arrivals.valid earlier known)
    have order : first ≤ last := best.latest earlier known (status ▸ settled) first last start final
    rw [settle_closed settled, compareIso_of_times final (time ▸ start), best.terminal]
    by_cases equal : first = last
    · subst equal
      have one := arrivals.distinct earlier known newest best.member (start.trans final.symm)
      simp [status, one]
    · have later : first < last := by omega
      simp [later]

theorem Settles.still {current : ChatQueueItem} (arrivals : Arrivals dateParse sessionId clientMsgId runId frames)
    (best : Newest dateParse frames newest) (shown : Shows current newest) (member : frame ∈ frames)
    (settles : Settles dateParse (some current) frame item) (other : frame.status ≠ newest.status) : Shows item newest := by
  have settled : isChatQueueTerminalStatus current.status = true := shown.1 ▸ best.terminal
  have kept : item.status = current.status := by
    rw [settles.status, settle_closed settled]
    cases terminal : isChatQueueTerminalStatus frame.status with
    | false => rfl
    | true =>
      obtain ⟨last, final⟩ := Option.isSome_iff_exists.mp (arrivals.valid newest best.member)
      obtain ⟨time, start⟩ := Option.isSome_iff_exists.mp (arrivals.valid frame member)
      have order := best.latest frame member terminal time last start final
      rw [compareIso_of_times start (shown.2 ▸ final)]
      simp [Int.not_lt.mpr order]
  have apart : item.status ≠ frame.status := by
    rw [kept, shown.1]
    exact other.symm
  exact ⟨kept.trans shown.1, (settles.kept (shown.2 ▸ arrivals.valid newest best.member) apart).trans shown.2⟩

def Hides (frames : List ChatQueueItemPatch) (newest : ChatQueueItemPatch) (item : ChatQueueItem) : Prop :=
  ∃ frame ∈ frames, frame ≠ newest ∧ isChatQueueTerminalStatus frame.status = true ∧ Shows item frame

theorem Settles.hides {current : ChatQueueItem} (arrivals : Arrivals dateParse sessionId clientMsgId runId frames)
    (hidden : Hides frames newest current) (member : frame ∈ frames) (other : frame ≠ newest)
    (settles : Settles dateParse (some current) frame item) : Hides frames newest item := by
  obtain ⟨shown, known, apart, terminal, status, time⟩ := hidden
  have settled : isChatQueueTerminalStatus current.status = true := status ▸ terminal
  by_cases same : item.status = frame.status
  · refine ⟨frame, member, other, ?_, same, settles.taken (arrivals.valid frame member) same⟩
    rw [← same, settles.status, settle_closed settled]
    split
    next newer => exact (Bool.and_eq_true_iff.mp newer).1
    next => exact settled
  · refine ⟨shown, known, apart, terminal, ?_, (settles.kept (time ▸ arrivals.valid shown known) same).trans time⟩
    rw [settles.status] at same ⊢
    rw [settle_closed settled] at same ⊢
    split at same
    next => exact absurd rfl same
    next older =>
      rw [if_neg older]
      exact status

theorem Settles.hidden {current : ChatQueueItem} (arrivals : Arrivals dateParse sessionId clientMsgId runId frames)
    (best : Newest dateParse frames newest) (shown : Shows current newest) (member : frame ∈ frames) (other : frame ≠ newest)
    (settles : Settles dateParse (some current) frame item) (same : frame.status = newest.status) :
    Hides frames newest item := by
  have settled : isChatQueueTerminalStatus current.status = true := shown.1 ▸ best.terminal
  have kept : item.status = frame.status := by
    rw [settles.status, settle_closed settled, shown.1, same]
    exact ite_self _
  exact ⟨frame, member, other, same ▸ best.terminal, kept, settles.taken (arrivals.valid frame member) kept⟩

theorem Hides.not_shows (arrivals : Arrivals dateParse sessionId clientMsgId runId frames)
    (best : Newest dateParse frames newest) (hidden : Hides frames newest item) : ¬Shows item newest := by
  obtain ⟨frame, member, apart, -, -, time⟩ := hidden
  intro shown
  exact apart (arrivals.distinct frame member newest best.member (congrArg (timeOf dateParse) (time.symm.trans shown.2)))

def upsert (dateParse : String → Option Int) (state : ChatQueueState) (frame : ChatQueueItemPatch) : ChatQueueState :=
  reduceChatQueueEvent dateParse state (.serverUpsert frame)

theorem upserts_keep (arrivals : Arrivals dateParse sessionId clientMsgId runId frames) (named : clientMsgId ≠ "")
    (ran : runId ≠ "") (kept : Option ChatQueueItem → Prop) {rest : List ChatQueueItemPatch} (inside : rest ⊆ frames)
    (step : ∀ frame ∈ rest, ∀ current item, kept current → Settles dateParse current frame item → kept (some item))
    (follows : Follows sessionId clientMsgId state) (start : kept (state.items.get clientMsgId)) :
    let next := rest.foldl (upsert dateParse) state
    Follows sessionId clientMsgId next ∧ kept (next.items.get clientMsgId) := by
  induction rest generalizing state with
  | nil => exact ⟨follows, start⟩
  | cons frame rest ih =>
    have member := inside (List.mem_cons_self ..)
    obtain ⟨follows, item, here, settles⟩ := upsert_follows dateParse follows (arrivals.about frame member) named ran
    apply ih (List.subset_of_cons_subset inside)
    · intro later listed
      exact step later (List.mem_cons_of_mem _ listed)
    · exact follows
    · change kept ((reduceChatQueueEvent dateParse state (.serverUpsert frame)).items.get clientMsgId)
      rw [here]
      exact step frame (List.mem_cons_self ..) _ item start settles

/-- After the newest terminal frame: it stays shown if and only if no frame of its status
follows. -/
theorem shows_after_iff (arrivals : Arrivals dateParse sessionId clientMsgId runId frames)
    (best : Newest dateParse frames newest) (named : clientMsgId ≠ "") (ran : runId ≠ "")
    {after : List ChatQueueItemPatch} (inside : after ⊆ frames) (last : newest ∉ after)
    (follows : Follows sessionId clientMsgId state) (here : state.items.get clientMsgId = some item)
    (shown : Shows item newest) :
    (∃ item, (after.foldl (upsert dateParse) state).items.get clientMsgId = some item ∧ Shows item newest) ↔
      ∀ frame ∈ after, frame.status ≠ newest.status := by
  induction after generalizing state item with
  | nil => simp [here, shown]
  | cons frame rest ih =>
    have member := inside (List.mem_cons_self ..)
    have inside := List.subset_of_cons_subset inside
    obtain ⟨apart, last⟩ := List.ne_and_not_mem_of_not_mem_cons last
    obtain ⟨next, settled, found, settles⟩ := upsert_follows dateParse follows (arrivals.about frame member) named ran
    rw [here] at settles
    rw [List.forall_mem_cons, List.foldl_cons]
    by_cases same : frame.status = newest.status
    · refine iff_of_false ?_ fun both => both.1 same
      rintro ⟨final, final_eq, wrong⟩
      have hidden := settles.hidden arrivals best shown member (Ne.symm apart) same
      have kept := upserts_keep arrivals named ran
        (fun current => ∃ item, current = some item ∧ Hides frames newest item) inside ?_ next ⟨settled, found, hidden⟩
      · obtain ⟨_, item, final_eq', hidden⟩ := kept
        cases final_eq.symm.trans final_eq'
        exact hidden.not_shows arrivals best wrong
      · rintro later listed _ item ⟨before, rfl, hidden⟩ settles
        exact ⟨item, rfl, settles.hides arrivals hidden (inside listed) fun wrong => last (wrong ▸ listed)⟩
    · have still := settles.still arrivals best shown member same
      rw [show upsert dateParse state frame = reduceChatQueueEvent dateParse state (.serverUpsert frame) from rfl,
        ih inside last next found still]
      exact ⟨fun all => ⟨same, all⟩, fun both => both.2⟩

/-- Frames about one message, from an empty queue: the item shows the newest terminal frame
if and only if no frame of its status comes after its last arrival. -/
theorem shows_newest_iff (dateParse : String → Option Int) {sessionId clientMsgId runId : String} (own : Option String)
    (ours : isForeign (createChatQueueState own) sessionId = false) (named : clientMsgId ≠ "") (ran : runId ≠ "")
    {before after : List ChatQueueItemPatch} {newest : ChatQueueItemPatch} (last : newest ∉ after)
    (arrivals : Arrivals dateParse sessionId clientMsgId runId (before ++ newest :: after))
    (best : Newest dateParse (before ++ newest :: after) newest) :
    let state := (before ++ newest :: after).foldl
      (fun state frame => reduceChatQueueEvent dateParse state (.serverUpsert frame)) (createChatQueueState own)
    (∃ item, state.items.get clientMsgId = some item ∧ item.status = newest.status ∧ item.updatedAt = newest.updatedAt) ↔
      ∀ frame ∈ after, frame.status ≠ newest.status := by
  have created : Follows sessionId clientMsgId (createChatQueueState own) :=
    ⟨ours, .inr ⟨rfl, rfl⟩, fun _ wrong => by cases wrong⟩
  have early : before ⊆ before ++ newest :: after := List.subset_append_left ..
  have late : after ⊆ before ++ newest :: after := fun frame member =>
    List.mem_append_right _ (List.mem_cons_of_mem _ member)
  have reached := upserts_keep arrivals named ran
    (fun current => ∀ item, current = some item → Traces (before ++ newest :: after) item) early ?_ created ?_
  · obtain ⟨follows, traced⟩ := reached
    obtain ⟨follows, item, here, settles⟩ :=
      upsert_follows dateParse follows (arrivals.about newest best.member) named ran
    intro state
    rw [show state = after.foldl (upsert dateParse) _ from List.foldl_append]
    exact shows_after_iff arrivals best named ran late last follows here (settles.shows arrivals best traced)
  · intro frame member current item traced settles other found
    cases found
    exact settles.traces arrivals (early member) traced
  · intro item wrong
    cases wrong

/-- `Date.parse` on three instants. -/
def clock (text : String) : Option Int :=
  if text = "2026-01-01T00:00:05.000Z" then some 1767225605000
  else if text = "2026-01-01T00:00:07.000Z" then some 1767225607000
  else if text = "2026-01-01T00:00:10.000Z" then some 1767225610000
  else none

def arrival (status : ChatQueueStatus) (updatedAt : String) : ChatQueueItemPatch :=
  queuedPatch "s1" "m1" "r1" status (some updatedAt)

def early : ChatQueueItemPatch := arrival .completed "2026-01-01T00:00:05.000Z"

def conflicting : ChatQueueItemPatch := arrival .failed "2026-01-01T00:00:07.000Z"

def final : ChatQueueItemPatch := arrival .completed "2026-01-01T00:00:10.000Z"

def inOrder : List ChatQueueItemPatch := [early] ++ final :: [conflicting]

theorem inOrder_arrivals : Arrivals clock "s1" "m1" "r1" inOrder := by
  constructor
  · intro frame member
    have same : ∀ frame ∈ inOrder, frame.sessionId = "s1" ∧ frame.clientMsgId = some "m1" ∧ frame.runId = some "r1" ∧
      frame.sourceRunId ≠ some "" := by decide
    obtain ⟨session, message, run, source⟩ := same frame member
    exact ⟨session, message, run, source⟩
  · decide
  · decide

theorem final_newest : Newest clock inOrder final := by
  refine ⟨by decide, rfl, fun frame listed _ time last start close => ?_⟩
  have latest : ∀ frame ∈ inOrder, (timeOf clock frame.updatedAt).getD 0 ≤ (timeOf clock final.updatedAt).getD 0 := by
    decide
  simpa [start, close] using latest frame listed

/-- The older completion comes first, the older failure last. -/
theorem shows_newest_in_order :
    let state := inOrder.foldl
      (fun state frame => reduceChatQueueEvent clock state (.serverUpsert frame)) (createChatQueueState (some "s1"))
    ∃ item, state.items.get "m1" = some item ∧ item.status = final.status ∧ item.updatedAt = final.updatedAt := by
  refine (shows_newest_iff clock (some "s1") (by decide) (by decide) (by decide) (by decide)
    inOrder_arrivals final_newest).mpr ?_
  decide

/-- The older completion comes after the newest one, and then the older failure: the failure
wins, though its time is before the newest. -/
theorem newest_rolled_back :
    let state := [final, early, conflicting].foldl
      (fun state frame => reduceChatQueueEvent clock state (.serverUpsert frame)) (createChatQueueState (some "s1"))
    (state.items.get "m1").map (fun item => (item.status, item.updatedAt)) =
        some (.failed, some "2026-01-01T00:00:07.000Z") ∧
      (final.status, final.updatedAt) = (.completed, some "2026-01-01T00:00:10.000Z") ∧
      ∀ frame ∈ [final, early, conflicting], (timeOf clock frame.updatedAt).getD 0 ≤ (timeOf clock final.updatedAt).getD 0 := by
  decide +kernel

end AgentSaas.Proofs.ChatQueueReplay
