import AgentSaas.GroupMessages
import Mathlib.Data.List.Basic

/-! Grouping loses no message and shows none twice, but for the files that are delivered while a step
is under way: such a file stands in the section of its step and beside the sections. -/

namespace AgentSaas.Proofs.GroupMessages
open BusinessSteps AgentSaas.GroupMessages

def unitMessages : RenderUnit → List MessageItem
  | .message message => [message]
  | .activityGroup group => group.items
  | .businessStep _ => []

def sectionMessages (step : BusinessStepSection) : List MessageItem := step.items.flatMap unitMessages

def itemMessages : RenderItem → List MessageItem
  | .single unit => unitMessages unit
  | .businessStepSection step => sectionMessages step

def flattened (items : List RenderItem) : List MessageItem := items.flatMap itemMessages

def within (items : List RenderItem) : List MessageItem :=
  items.flatMap fun
    | .single _ => []
    | .businessStepSection step => sectionMessages step

def beside (items : List RenderItem) : List MessageItem :=
  items.flatMap fun
    | .single unit => unitMessages unit
    | .businessStepSection _ => []

def unitGroups : RenderUnit → List ActivityGroup
  | .activityGroup group => [group]
  | _ => []

def groups (items : List RenderItem) : List ActivityGroup :=
  items.flatMap fun
    | .single unit => unitGroups unit
    | .businessStepSection step => step.items.flatMap unitGroups

def sections (items : List RenderItem) : List BusinessStepSection :=
  items.flatMap fun
    | .single _ => []
    | .businessStepSection step => [step]

theorem count_flattened (items : List RenderItem) (message : MessageItem) :
    (flattened items).count message = (beside items).count message + (within items).count message := by
  induction items with
  | nil => rfl
  | cons item rest ih =>
    simp only [flattened, beside, within, List.flatMap_cons, List.count_append] at ih ⊢
    cases item with
    | single unit =>
      simp only [itemMessages, List.count_nil]
      omega
    | businessStepSection step =>
      simp only [itemMessages, List.count_nil]
      omega

section Loop

variable {loading : Bool} {options : GroupMessagesOptions} {projection : BusinessStepProjection}

def secondCopy (options : GroupMessagesOptions) (grouping : Grouping) (message : MessageItem) : List MessageItem :=
  if grouping.inSection options ∧ isArtifact message then [message] else []

/-- The files that are delivered while a step is under way. -/
def delivered (loading : Bool) (options : GroupMessagesOptions) (projection : BusinessStepProjection) :
    Grouping → List MessageItem → List MessageItem
  | _, [] => []
  | grouping, message :: rest =>
    let handled := grouping.handleAnchored loading options projection message
    (if isShown options projection message then secondCopy options handled message else []) ++
      delivered loading options projection (grouping.add loading options projection message) rest

theorem isArtifact_of_delivered (grouping : Grouping) (messages : List MessageItem) :
    ∀ message ∈ delivered loading options projection grouping messages, isArtifact message := by
  induction messages generalizing grouping with
  | nil =>
    intro message member
    cases member
  | cons first rest ih =>
    intro message member
    rw [delivered, List.mem_append] at member
    cases member with
    | inl here =>
      split at here
      next =>
        unfold secondCopy at here
        split at here
        next arrived =>
          rw [List.mem_singleton.mp here]
          exact arrived.2
        next => cases here
      next => cases here
    | inr later => exact ih _ message later

def inside (grouping : Grouping) : List MessageItem := grouping.currentSection.elim [] sectionMessages

def insideGroups (grouping : Grouping) : List ActivityGroup :=
  grouping.currentSection.elim [] fun step => step.items.flatMap unitGroups

/-- Where the messages of a pass are when `seen` of them have been read and `shown` of these are to be
seen. What waits for the end of a section waits only while one is open. -/
structure Keeps (options : GroupMessagesOptions) (seen shown twice : List MessageItem) (grouping : Grouping) : Prop where
  all : ∀ message, (beside grouping.result).count message + (within grouping.result).count message +
    (inside grouping).count message + grouping.currentGroup.count message +
    grouping.currentSectionMainTail.count message = shown.count message + twice.count message
  main : ∀ message, isArtifact message → (beside grouping.result).count message +
    grouping.currentSectionMainTail.count message = shown.count message
  kept : ∀ message, isArtifact message → (within grouping.result).count message + (inside grouping).count message =
    twice.count message
  activity : ∀ message ∈ grouping.currentGroup, isActivity message
  idle : grouping.currentSection = none → grouping.currentSectionMainTail = []
  flat : grouping.currentSection.isSome → options.sectioning
  latest : (inside grouping ++ grouping.currentGroup).Sublist seen
  ordered : ∀ group ∈ groups grouping.result ++ insideGroups grouping, group.items.Sublist seen
  closed : ∀ step ∈ sections grouping.result, (sectionMessages step).Sublist seen

@[simp] theorem beside_push (items : List RenderItem) (unit : RenderUnit) :
    beside (items ++ [.single unit]) = beside items ++ unitMessages unit := by
  simp [beside]

@[simp] theorem within_push (items : List RenderItem) (unit : RenderUnit) :
    within (items ++ [.single unit]) = within items := by
  simp [within]

@[simp] theorem groups_push (items : List RenderItem) (unit : RenderUnit) :
    groups (items ++ [.single unit]) = groups items ++ unitGroups unit := by
  simp [groups]

@[simp] theorem sections_push (items : List RenderItem) (unit : RenderUnit) :
    sections (items ++ [.single unit]) = sections items := by
  simp [sections]

theorem keeps_start : Keeps options [] [] [] .start where
  all _ := rfl
  main _ _ := rfl
  kept _ _ := rfl
  activity _ member := by cases member
  idle _ := rfl
  flat opened := by cases opened
  latest := .slnil
  ordered _ member := by cases member
  closed _ member := by cases member

theorem not_artifact_of_activity {message : MessageItem} (active : isActivity message) : isArtifact message = false := by
  obtain ⟨_, body⟩ := message
  cases body <;> first | rfl | cases active

theorem count_eq_zero_of_activity {messages : List MessageItem} (active : ∀ message ∈ messages, isActivity message)
    {message : MessageItem} (artifact : isArtifact message) : messages.count message = 0 := by
  apply List.count_eq_zero_of_not_mem
  intro member
  rw [not_artifact_of_activity (active message member)] at artifact
  cases artifact

theorem items_of_unitGroups {unit : RenderUnit} {group : ActivityGroup} (member : group ∈ unitGroups unit) :
    group.items = unitMessages unit := by
  cases unit with
  | activityGroup other =>
    rw [List.mem_singleton.mp member]
    rfl
  | message _ | businessStep _ => cases member

variable {seen shown twice extra group tail : List MessageItem} {result : List RenderItem}
  {current : Option BusinessStepSection} {step : BusinessStepSection} {unit : RenderUnit}

/-! A unit is shown: the group that is held, or a message that has just been read, or an event. -/

theorem Keeps.push (keeps : Keeps options seen shown twice ⟨result, group, current, tail⟩)
    (moved : unitMessages unit = group ++ extra) :
    Keeps options (seen ++ extra) (shown ++ extra) twice ⟨result ++ [.single unit], [], current, tail⟩ := by
  have later : seen.Sublist (seen ++ extra) := List.sublist_append_left seen extra
  constructor
  case all =>
    intro message
    have all := keeps.all message
    simp only [beside_push, within_push, moved, List.count_append, List.count_nil] at all ⊢
    simp only [inside] at all ⊢
    omega
  case main =>
    intro message artifact
    have main := keeps.main message artifact
    simp only [beside_push, moved, List.count_append, count_eq_zero_of_activity keeps.activity artifact] at main ⊢
    omega
  case kept =>
    intro message artifact
    rw [within_push]
    exact keeps.kept message artifact
  case activity =>
    intro message member
    cases member
  case idle => exact keeps.idle
  case flat => exact keeps.flat
  case latest =>
    rw [List.append_nil]
    exact ((List.sublist_append_left _ _).trans keeps.latest).trans later
  case ordered =>
    intro other member
    rw [groups_push] at member
    simp only [List.mem_append] at member
    rcases member with (earlier | added) | opened
    · exact (keeps.ordered other (List.mem_append_left _ earlier)).trans later
    · rw [items_of_unitGroups added, moved]
      exact ((List.sublist_append_right _ _).trans keeps.latest).append (List.Sublist.refl extra)
    · exact (keeps.ordered other (List.mem_append_right _ opened)).trans later
  case closed =>
    rw [sections_push]
    exact fun other member => (keeps.closed other member).trans later

theorem Keeps.put (keeps : Keeps options seen shown twice ⟨result, group, some step, tail⟩)
    (moved : unitMessages unit = group ++ extra) :
    Keeps options (seen ++ extra) (shown ++ extra) (twice ++ extra.filter isArtifact)
      ⟨result, [], some { step with items := step.items ++ [unit] }, tail ++ extra.filter isArtifact⟩ := by
  have later : seen.Sublist (seen ++ extra) := List.sublist_append_left seen extra
  have messages : sectionMessages { step with items := step.items ++ [unit] } = sectionMessages step ++ (group ++ extra) := by
    rw [← moved]
    simp [sectionMessages]
  constructor
  case all =>
    intro message
    have all := keeps.all message
    simp only [inside, Option.elim_some, messages, List.count_append, List.count_nil] at all ⊢
    omega
  case main =>
    intro message artifact
    have main := keeps.main message artifact
    simp only [List.count_append, List.count_filter artifact] at main ⊢
    omega
  case kept =>
    intro message artifact
    have kept := keeps.kept message artifact
    simp only [inside, Option.elim_some, messages, List.count_append, List.count_filter artifact,
      count_eq_zero_of_activity keeps.activity artifact] at kept ⊢
    omega
  case activity =>
    intro message member
    cases member
  case idle =>
    intro closed
    cases closed
  case flat => exact keeps.flat
  case latest =>
    simp only [inside, Option.elim_some, messages, List.append_nil, ← List.append_assoc]
    exact keeps.latest.append (List.Sublist.refl extra)
  case ordered =>
    intro other member
    simp only [insideGroups, Option.elim_some, List.flatMap_append, List.mem_append, List.flatMap_cons, List.flatMap_nil,
      List.append_nil] at member
    rcases member with earlier | held | added
    · exact (keeps.ordered other (List.mem_append_left _ earlier)).trans later
    · exact (keeps.ordered other (List.mem_append_right _ held)).trans later
    · rw [items_of_unitGroups added, moved]
      exact ((List.sublist_append_right _ _).trans keeps.latest).append (List.Sublist.refl extra)
  case closed => exact fun other member => (keeps.closed other member).trans later

/-! The same for a pass that holds no group. -/

variable {grouping : Grouping} {message : MessageItem}

theorem Keeps.pushed (keeps : Keeps options seen shown twice grouping) (flushed : grouping.currentGroup = [])
    (moved : unitMessages unit = extra) :
    Keeps options (seen ++ extra) (shown ++ extra) twice (grouping.push unit) := by
  obtain ⟨result, group, current, tail⟩ := grouping
  obtain rfl : group = [] := flushed
  exact keeps.push moved

theorem Keeps.sunk (keeps : Keeps options seen shown twice grouping) (flushed : grouping.currentGroup = [])
    (moved : unitMessages unit = extra)
    (plain : grouping.currentSection.isSome → extra.filter isArtifact = []) :
    Keeps options (seen ++ extra) (shown ++ extra) twice (grouping.sink unit) := by
  obtain ⟨result, group, current, tail⟩ := grouping
  obtain rfl : group = [] := flushed
  cases current with
  | none => exact keeps.push moved
  | some step =>
    have put := keeps.put moved
    rw [plain rfl, List.append_nil, List.append_nil] at put
    exact put

theorem Keeps.delivered (keeps : Keeps options seen shown twice grouping) (flushed : grouping.currentGroup = [])
    (opened : grouping.currentSection.isSome) (artifact : isArtifact message) :
    Keeps options (seen ++ [message]) (shown ++ [message]) (twice ++ [message])
      ((grouping.sink (.message message)).hold message) := by
  obtain ⟨result, group, current, tail⟩ := grouping
  obtain rfl : group = [] := flushed
  obtain ⟨step, rfl⟩ := Option.isSome_iff_exists.mp opened
  have moved : unitMessages (.message message) = [] ++ [message] := rfl
  have put := keeps.put moved
  rw [List.filter_cons_of_pos artifact, List.filter_nil] at put
  exact put

theorem Keeps.flushGroup (keeps : Keeps options seen shown twice grouping) (isLast : Bool) :
    Keeps options seen shown twice (grouping.flushGroup isLast loading) := by
  obtain ⟨result, group, current, tail⟩ := grouping
  cases group with
  | nil => exact keeps
  | cons first rest =>
    have moved (active : Bool) : unitMessages (.activityGroup ⟨"ag-" ++ first.id, first :: rest, active⟩) =
        first :: rest ++ [] := (List.append_nil _).symm
    cases current with
    | none =>
      have push := keeps.push (moved (isGroupActive (first :: rest) isLast loading))
      rw [List.append_nil, List.append_nil] at push
      exact push
    | some step =>
      have put := keeps.put (moved (isGroupActive (first :: rest) isLast loading))
      rw [List.filter_nil, List.append_nil, List.append_nil, List.append_nil, List.append_nil] at put
      exact put

theorem currentGroup_sink (grouping : Grouping) (unit : RenderUnit) :
    (grouping.sink unit).currentGroup = grouping.currentGroup := by
  unfold Grouping.sink
  split <;> rfl

theorem isSome_sink (grouping : Grouping) (unit : RenderUnit) :
    (grouping.sink unit).currentSection.isSome = grouping.currentSection.isSome := by
  unfold Grouping.sink
  split
  next step found =>
    rw [found]
    rfl
  next => rfl

@[simp] theorem currentGroup_flushGroup (grouping : Grouping) (isLast : Bool) :
    (grouping.flushGroup isLast loading).currentGroup = [] := by
  unfold Grouping.flushGroup
  split
  next empty => exact empty
  next => exact currentGroup_sink _ _

@[simp] theorem isSome_flushGroup (grouping : Grouping) (isLast : Bool) :
    (grouping.flushGroup isLast loading).currentSection.isSome = grouping.currentSection.isSome := by
  unfold Grouping.flushGroup
  split
  next => rfl
  next => exact isSome_sink _ _

@[simp] theorem currentSection_closeSection (grouping : Grouping) (atStreamEnd : Bool) :
    (grouping.closeSection atStreamEnd loading).currentSection = none := by
  unfold Grouping.closeSection
  split
  next none => exact none
  next => rfl

@[simp] theorem currentGroup_closeSection (grouping : Grouping) (atStreamEnd : Bool) :
    (grouping.closeSection atStreamEnd loading).currentGroup = grouping.currentGroup := by
  unfold Grouping.closeSection
  split <;> rfl

theorem beside_tail (messages : List MessageItem) :
    beside (messages.map fun message => .single (.message message)) = messages := by
  induction messages with
  | nil => rfl
  | cons message rest ih =>
    rw [List.map_cons]
    exact congrArg (message :: ·) ih

theorem flatMap_tail (f : RenderItem → List α) (nothing : ∀ message, f (.single (.message message)) = [])
    (messages : List MessageItem) : (messages.map fun message => .single (.message message)).flatMap f = [] := by
  apply List.flatMap_eq_nil_iff.mpr
  intro item member
  obtain ⟨message, -, rfl⟩ := List.mem_map.mp member
  exact nothing message

theorem Keeps.closeSection (keeps : Keeps options seen shown twice grouping) (atStreamEnd : Bool) :
    Keeps options seen shown twice (grouping.closeSection atStreamEnd loading) := by
  obtain ⟨result, group, current, tail⟩ := grouping
  cases current with
  | none => exact keeps
  | some step =>
    have besideClosed (closed : BusinessStepSection) : beside (result ++ [.businessStepSection closed] ++
        tail.map fun message => .single (.message message)) = beside result ++ tail := by
      have tailBeside := beside_tail tail
      simp only [beside, List.flatMap_append, List.flatMap_cons, List.flatMap_nil, List.append_nil] at tailBeside ⊢
      rw [tailBeside]
    have withinClosed (closed : BusinessStepSection) : within (result ++ [.businessStepSection closed] ++
        tail.map fun message => .single (.message message)) = within result ++ sectionMessages closed := by
      simp only [within, List.flatMap_append, List.flatMap_cons, List.flatMap_nil, List.append_nil]
      rw [flatMap_tail _ (fun _ => rfl), List.append_nil]
    constructor
    case all =>
      intro message
      have all := keeps.all message
      have same : (sectionMessages (step.close atStreamEnd loading)).count message = (sectionMessages step).count message := rfl
      simp only [Grouping.closeSection, besideClosed, withinClosed, inside, Option.elim_some, Option.elim_none,
        List.count_append, List.count_nil, same] at all ⊢
      omega
    case main =>
      intro message artifact
      have main := keeps.main message artifact
      simp only [Grouping.closeSection, besideClosed, List.count_append, List.count_nil] at main ⊢
      omega
    case kept =>
      intro message artifact
      have kept := keeps.kept message artifact
      have same : (sectionMessages (step.close atStreamEnd loading)).count message = (sectionMessages step).count message := rfl
      simp only [Grouping.closeSection, withinClosed, inside, Option.elim_some, Option.elim_none, List.count_append,
        List.count_nil, same] at kept ⊢
      omega
    case activity => exact keeps.activity
    case idle => exact fun _ => rfl
    case flat =>
      intro opened
      cases opened
    case latest => exact (List.sublist_append_right _ _).trans keeps.latest
    case ordered =>
      intro other member
      apply keeps.ordered other
      simpa [Grouping.closeSection, groups, insideGroups, BusinessStepSection.close, unitGroups, or_assoc] using member
    case closed =>
      intro other member
      simp only [Grouping.closeSection, sections, List.flatMap_append, List.flatMap_cons, List.flatMap_nil, List.append_nil,
        List.mem_append, List.mem_singleton] at member
      rw [flatMap_tail _ (fun _ => rfl)] at member
      rcases member with (earlier | rfl) | none
      · exact keeps.closed other earlier
      · exact (List.sublist_append_left _ _).trans keeps.latest
      · cases none

theorem Keeps.held (keeps : Keeps options seen shown twice grouping) (flushed : grouping.currentGroup = [])
    (opened : grouping.currentSection.isSome) :
    Keeps options (seen ++ [message]) (shown ++ [message]) twice (grouping.hold message) := by
  have later : seen.Sublist (seen ++ [message]) := List.sublist_append_left seen [message]
  obtain ⟨result, group, current, tail⟩ := grouping
  obtain rfl : group = [] := flushed
  constructor
  case all =>
    intro other
    have all := keeps.all other
    simp only [Grouping.hold, inside, List.count_append] at all ⊢
    omega
  case main =>
    intro other artifact
    have main := keeps.main other artifact
    simp only [Grouping.hold, List.count_append] at main ⊢
    omega
  case kept => exact keeps.kept
  case activity => exact keeps.activity
  case idle =>
    intro closed
    have absent : current = none := closed
    rw [absent] at opened
    cases opened
  case flat => exact keeps.flat
  case latest => exact keeps.latest.trans later
  case ordered => exact fun other member => (keeps.ordered other member).trans later
  case closed => exact fun other member => (keeps.closed other member).trans later

theorem Keeps.grouped (keeps : Keeps options seen shown twice grouping) (active : isActivity message) :
    Keeps options (seen ++ [message]) (shown ++ [message]) twice
      { grouping with currentGroup := grouping.currentGroup ++ [message] } := by
  have later : seen.Sublist (seen ++ [message]) := List.sublist_append_left seen [message]
  obtain ⟨result, group, current, tail⟩ := grouping
  constructor
  case all =>
    intro other
    have all := keeps.all other
    simp only [inside, List.count_append] at all ⊢
    omega
  case main =>
    intro other artifact
    have none : [message].count other = 0 := by
      apply count_eq_zero_of_activity _ artifact
      intro single member
      rw [List.mem_singleton.mp member]
      exact active
    rw [List.count_append, none]
    exact keeps.main other artifact
  case kept => exact keeps.kept
  case activity =>
    intro other member
    rcases List.mem_append.mp member with earlier | last
    · exact keeps.activity other earlier
    · rw [List.mem_singleton.mp last]
      exact active
  case idle => exact keeps.idle
  case flat => exact keeps.flat
  case latest =>
    have extended := keeps.latest.append (List.Sublist.refl [message])
    rwa [List.append_assoc] at extended
  case ordered => exact fun other member => (keeps.ordered other member).trans later
  case closed => exact fun other member => (keeps.closed other member).trans later

theorem Keeps.marked (keeps : Keeps options seen shown twice grouping) (change : BusinessStepSection → BusinessStepSection)
    (same : ∀ step, (change step).items = step.items) :
    Keeps options seen shown twice { grouping with currentSection := grouping.currentSection.map change } := by
  obtain ⟨result, group, current, tail⟩ := grouping
  cases current with
  | none => exact keeps
  | some step =>
    have sameInside : inside ⟨result, group, some (change step), tail⟩ = inside ⟨result, group, some step, tail⟩ := by
      simp only [inside, Option.elim_some, sectionMessages, same]
    have sameGroups : insideGroups ⟨result, group, some (change step), tail⟩ =
        insideGroups ⟨result, group, some step, tail⟩ := by
      simp only [insideGroups, Option.elim_some, same]
    constructor
    case all =>
      rw [Option.map_some, sameInside]
      exact keeps.all
    case main => exact keeps.main
    case kept =>
      rw [Option.map_some, sameInside]
      exact keeps.kept
    case activity => exact keeps.activity
    case idle =>
      intro closed
      cases closed
    case flat => exact fun _ => keeps.flat rfl
    case latest =>
      rw [Option.map_some, sameInside]
      exact keeps.latest
    case ordered =>
      rw [Option.map_some, sameGroups]
      exact keeps.ordered
    case closed => exact keeps.closed

theorem Keeps.opened (keeps : Keeps options seen shown twice grouping) (event : BusinessStepEventItem)
    (sectioning : options.sectioning) (closed : grouping.currentSection = none) :
    Keeps options seen shown twice (grouping.openSection event) := by
  obtain ⟨result, group, current, tail⟩ := grouping
  obtain rfl : current = none := closed
  exact
    { all := keeps.all
      main := keeps.main
      kept := keeps.kept
      activity := keeps.activity
      idle := fun _ => keeps.idle rfl
      flat := fun _ => sectioning
      latest := keeps.latest
      ordered := keeps.ordered
      closed := keeps.closed }

theorem Keeps.event (keeps : Keeps options seen shown twice grouping) (flushed : grouping.currentGroup = [])
    (event : BusinessStepEventItem) : Keeps options seen shown twice (grouping.push (.businessStep event)) := by
  have none : unitMessages (.businessStep event) = [] := rfl
  have pushed := keeps.pushed flushed none
  rwa [List.append_nil, List.append_nil] at pushed

theorem Keeps.sunkEvent (keeps : Keeps options seen shown twice grouping) (flushed : grouping.currentGroup = [])
    (event : BusinessStepEventItem) : Keeps options seen shown twice (grouping.sink (.businessStep event)) := by
  have none : unitMessages (.businessStep event) = [] := rfl
  have sunk := keeps.sunk flushed none fun _ => rfl
  rwa [List.append_nil, List.append_nil] at sunk

theorem Keeps.handleBusinessEvent (keeps : Keeps options seen shown twice grouping) (event : BusinessStepEventItem) :
    Keeps options seen shown twice (grouping.handleBusinessEvent loading options event) := by
  have flushed : Keeps options seen shown twice (grouping.flushGroup false loading) := keeps.flushGroup false
  have closed : Keeps options seen shown twice ((grouping.flushGroup false loading).closeSection false loading) :=
    flushed.closeSection false
  have empty : (grouping.flushGroup false loading).currentGroup = [] := currentGroup_flushGroup grouping false
  have emptied : ((grouping.flushGroup false loading).closeSection false loading).currentGroup = [] :=
    (currentGroup_closeSection _ false).trans empty
  unfold Grouping.handleBusinessEvent
  simp only
  split
  next =>
    split
    next => exact closed
    next => exact keeps
  next =>
    split
    next => exact flushed.event empty event
    next sectioned =>
      rw [Bool.not_eq_true', Bool.not_eq_false] at sectioned
      split
      next => exact closed.event emptied event
      next =>
        split
        next => exact closed.opened event sectioned (currentSection_closeSection _ false)
        next =>
          split
          next =>
            split
            next => exact (flushed.marked ({ · with terminal := some event }) fun _ => rfl).closeSection false
            next => exact closed.event emptied event
          next => exact flushed.sunkEvent empty event

theorem Keeps.handleAnchored (keeps : Keeps options seen shown twice grouping) (message : MessageItem) :
    Keeps options seen shown twice (grouping.handleAnchored loading options projection message) := by
  unfold Grouping.handleAnchored
  generalize (projection.eventsByAnchor.get message.id).getD [] = events
  induction events generalizing grouping with
  | nil => exact keeps
  | cons event rest ih => exact ih (keeps.handleBusinessEvent event)

theorem inSection_iff (keeps : Keeps options seen shown twice grouping) :
    grouping.inSection options = true ↔ grouping.currentSection.isSome = true := by
  unfold Grouping.inSection
  rw [Bool.and_eq_true]
  exact ⟨And.right, fun opened => ⟨keeps.flat opened, opened⟩⟩

theorem Keeps.rendered (keeps : Keeps options seen shown twice grouping) (message : MessageItem) :
    Keeps options (seen ++ [message]) (shown ++ [message])
      (twice ++ secondCopy options grouping message)
      (grouping.render loading options message) := by
  have flushed : Keeps options seen shown twice (grouping.flushGroup false loading) := keeps.flushGroup false
  have closed : Keeps options seen shown twice ((grouping.flushGroup false loading).closeSection false loading) :=
    flushed.closeSection false
  have empty : (grouping.flushGroup false loading).currentGroup = [] := currentGroup_flushGroup grouping false
  have emptied : ((grouping.flushGroup false loading).closeSection false loading).currentGroup = [] :=
    (currentGroup_closeSection _ false).trans empty
  by_cases twofold : grouping.inSection options ∧ isArtifact message
  · have opened : (grouping.flushGroup false loading).currentSection.isSome := by
      rw [isSome_flushGroup]
      exact (inSection_iff keeps).mp twofold.1
    unfold Grouping.render secondCopy
    simp only
    rw [if_pos twofold, if_pos twofold]
    exact flushed.delivered empty opened twofold.2
  · have plain : (grouping.flushGroup false loading).currentSection.isSome → [message].filter isArtifact = [] := by
      intro opened
      rw [isSome_flushGroup] at opened
      apply List.filter_cons_of_neg
      exact fun artifact => twofold ⟨(inSection_iff keeps).mpr opened, artifact⟩
    have moved : unitMessages (.message message) = [message] := rfl
    have sunk : Keeps options (seen ++ [message]) (shown ++ [message]) twice
        ((grouping.flushGroup false loading).sink (.message message)) := flushed.sunk empty moved plain
    have once : secondCopy options grouping message = [] := if_neg twofold
    rw [once, List.append_nil]
    unfold Grouping.render
    simp only
    rw [if_neg twofold]
    split
    next final =>
      apply flushed.held empty
      rw [isSome_flushGroup]
      exact (inSection_iff keeps).mp final.1
    next =>
      split
      next => exact sunk
      next =>
        split
        next => exact sunk
        next =>
          split
          next active => exact keeps.grouped active
          next =>
            split
            next => exact sunk
            next =>
              split
              next =>
                exact (flushed.marked ({ · with resumePending := true }) fun _ => rfl).pushed empty moved
              next =>
                split
                next => exact closed.pushed emptied moved
                next => exact sunk

theorem Keeps.hidden (keeps : Keeps options seen shown twice grouping) :
    Keeps options (seen ++ [message]) shown twice grouping := by
  have later : seen.Sublist (seen ++ [message]) := List.sublist_append_left seen [message]
  exact
    { keeps with
      latest := keeps.latest.trans later
      ordered := fun other member => (keeps.ordered other member).trans later
      closed := fun other member => (keeps.closed other member).trans later }

theorem Keeps.run (keeps : Keeps options seen shown twice grouping) (messages : List MessageItem) :
    Keeps options (seen ++ messages) (shown ++ messages.filter (isShown options projection))
      (twice ++ GroupMessages.delivered loading options projection grouping messages)
      (messages.foldl (Grouping.add loading options projection) grouping) := by
  induction messages generalizing seen shown twice grouping with
  | nil => simpa [GroupMessages.delivered] using keeps
  | cons message rest ih =>
    have handled : Keeps options seen shown twice (grouping.handleAnchored loading options projection message) :=
      keeps.handleAnchored message
    rw [List.foldl_cons, GroupMessages.delivered]
    by_cases visible : isShown options projection message
    · have added : grouping.add loading options projection message =
          (grouping.handleAnchored loading options projection message).render loading options message := if_pos visible
      have next : Keeps options (seen ++ [message]) (shown ++ [message])
          (twice ++ secondCopy options (grouping.handleAnchored loading options projection message) message)
          (grouping.add loading options projection message) := by
        rw [added]
        exact handled.rendered message
      have ran := ih next
      rw [List.filter_cons_of_pos visible]
      simpa [visible] using ran
    · have added : grouping.add loading options projection message =
          grouping.handleAnchored loading options projection message := if_neg visible
      have next : Keeps options (seen ++ [message]) shown twice (grouping.add loading options projection message) := by
        rw [added]
        exact handled.hidden
      have ran := ih next
      rw [List.filter_cons_of_neg visible]
      simpa [visible] using ran

end Loop

/-- The messages of a view: those that are to be seen, and a second time those of `twice`, which stand
in their sections as well as beside them; what a group or a section has is in the order of the session. -/
structure Conserves (messages shown twice : List MessageItem) (items : List RenderItem) : Prop where
  all : (flattened items).Perm (shown ++ twice)
  inSections : ((within items).filter isArtifact).Perm twice
  asArtifacts : ((beside items).filter isArtifact).Perm (shown.filter isArtifact)
  groups : ∀ group ∈ groups items, group.items.Sublist messages
  sections : ∀ step ∈ sections items, (sectionMessages step).Sublist messages

theorem Keeps.finished {options : GroupMessagesOptions} {seen shown twice : List MessageItem} {grouping : Grouping}
    (keeps : Keeps options seen shown twice grouping) (flushed : grouping.currentGroup = [])
    (closed : grouping.currentSection = none) (artifacts : ∀ message ∈ twice, isArtifact message) :
    Conserves seen shown twice grouping.result := by
  obtain ⟨result, group, current, tail⟩ := grouping
  obtain rfl : group = [] := flushed
  obtain rfl : current = none := closed
  obtain rfl : tail = [] := keeps.idle rfl
  constructor
  case all =>
    rw [List.perm_iff_count]
    intro message
    have all := keeps.all message
    rw [count_flattened, List.count_append]
    simp only [inside, Option.elim_none, List.count_nil] at all
    omega
  case inSections =>
    rw [List.perm_iff_count]
    intro message
    by_cases artifact : isArtifact message
    · rw [List.count_filter artifact]
      exact keeps.kept message artifact
    · rw [List.count_eq_zero_of_not_mem fun member => artifact (List.mem_filter.mp member).2,
        List.count_eq_zero_of_not_mem fun member => artifact (artifacts message member)]
  case asArtifacts =>
    rw [List.perm_iff_count]
    intro message
    by_cases artifact : isArtifact message
    · rw [List.count_filter artifact, List.count_filter artifact]
      exact keeps.main message artifact
    · rw [List.count_eq_zero_of_not_mem fun member => artifact (List.mem_filter.mp member).2,
        List.count_eq_zero_of_not_mem fun member => artifact (List.mem_filter.mp member).2]
  case groups => exact fun group member => keeps.ordered group (List.mem_append_left _ member)
  case sections => exact keeps.closed

theorem messages_conserved (parseTodos : String → Option (Option (List TodoItem))) (messages : List MessageItem)
    (loading : Bool) (options : GroupMessagesOptions) :
    Conserves messages
      (messages.filter (isShown options (projectBusinessStepEvents parseTodos messages loading)))
      (delivered loading options (projectBusinessStepEvents parseTodos messages loading) .start messages)
      (groupMessages parseTodos messages loading options) := by
  unfold groupMessages
  simp only
  generalize projectBusinessStepEvents parseTodos messages loading = projection
  have ran : Keeps options messages _ _ (messages.foldl (Grouping.add loading options projection) .start) :=
    keeps_start.run messages
  rw [List.nil_append, List.nil_append] at ran
  generalize messages.foldl (Grouping.add loading options projection) .start = grouping at ran
  have ended : Keeps options messages _ _ ((grouping.flushGroup true loading).closeSection true loading) :=
    (ran.flushGroup true).closeSection true
  apply ended.finished
  · rw [currentGroup_closeSection, currentGroup_flushGroup]
  · rw [currentSection_closeSection]
  · exact isArtifact_of_delivered _ messages

end AgentSaas.Proofs.GroupMessages
