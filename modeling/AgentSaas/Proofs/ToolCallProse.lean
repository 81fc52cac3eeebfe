import AgentSaas.Proofs.ToolCallGate

/-! Prose behind the gate: a text with no marker of a call is released whole, unless the gate
has read more than its cap before it can tell the text from a call. -/

namespace AgentSaas.Proofs.ToolCallProse
open AgentSaas.ToolCallRepair StreamGates ToolCallGate

variable {Arguments : Type} (runtime : Runtime Arguments) (maxPayloadBytes : Nat)

/-- No marker of a call in the text, and none of the template language in front of it. -/
def Ordinary (text : Text) : Prop :=
  findMarkerOffsets text = [] ∧ classifyDsmlPrefix runtime (skipWhitespace text) ≠ .confirmed

def MayBegin (text : Text) : Prop :=
  skipWhitespace text = [] ∨ classifyDsmlPrefix runtime (skipWhitespace text) ≠ .confirmed ∧
    (classifyDsmlPrefix runtime (skipWhitespace text) = .begun ∨ couldBePotentialCallPrefix runtime (skipWhitespace text))

/-- A delta comes while all before it may begin a call, and makes it longer than the gate holds. -/
def OverflowsAfter (front deltas : List Text) : Prop :=
  ∃ more delta back, deltas = more ++ delta :: back ∧ delta ≠ [] ∧ MayBegin runtime (front ++ more).flatten ∧
    maxPayloadBytes + MAX_STREAM_WRAPPER_BYTES < ((front ++ more).map byteLength).sum + byteLength delta

def Overflows (deltas : List Text) : Prop := OverflowsAfter runtime maxPayloadBytes [] deltas

/-- The stream ends before its terminal marker, with a text that may begin a call. -/
def CutOff (params : FinishParams) : Prop :=
  params.streamComplete = some false ∧ params.text ≠ [] ∧ MayBegin runtime params.text

variable {runtime maxPayloadBytes} {gate : ToolCallRepairStreamGate} {front deltas : List Text} {delta text : Text}

theorem mayBegin_iff : MayBegin runtime text ↔ judge runtime text = .wait := by
  unfold MayBegin judge
  dsimp only
  split
  next blank => exact iff_of_true (.inl (List.isEmpty_iff.mp blank)) rfl
  next some =>
    have probed : skipWhitespace text ≠ [] := by simpa only [List.isEmpty_iff] using some
    rw [or_iff_right probed]
    split
    next confirmed => exact iff_of_false (fun wrong => wrong.1 confirmed) (by simp)
    next unconfirmed =>
      rw [and_iff_right unconfirmed]
      split
      next could => exact iff_of_true (by simpa using could) rfl
      next released => exact iff_of_false (by simpa using released) (by simp)

theorem confirmed_of_drop (drops : judge runtime text = .drop) : classifyDsmlPrefix runtime (skipWhitespace text) = .confirmed := by
  unfold judge at drops
  dsimp only at drops
  split at drops
  · cases drops
  · split at drops
    next confirmed => exact confirmed
    next => split at drops <;> cases drops

theorem overflowsAfter_cons : OverflowsAfter runtime maxPayloadBytes front (delta :: deltas) ↔
    (delta ≠ [] ∧ MayBegin runtime front.flatten ∧
      maxPayloadBytes + MAX_STREAM_WRAPPER_BYTES < (front.map byteLength).sum + byteLength delta) ∨
    OverflowsAfter runtime maxPayloadBytes (front ++ [delta]) deltas := by
  constructor
  · rintro ⟨more, last, back, split, some, opened, above⟩
    cases more with
    | nil =>
      cases split
      rw [List.append_nil] at opened above
      exact .inl ⟨some, opened, above⟩
    | cons first more =>
      cases split
      rw [List.append_cons] at opened above
      exact .inr ⟨more, last, back, rfl, some, opened, above⟩
  · rintro (⟨some, opened, above⟩ | ⟨more, last, back, rfl, some, opened, above⟩)
    · exact ⟨[], delta, deltas, rfl, some, by rwa [List.append_nil], by rwa [List.append_nil]⟩
    · rw [← List.append_cons] at opened above
      exact ⟨delta :: more, last, back, rfl, some, opened, above⟩

theorem settled_overflows (judged : judge runtime front.flatten ≠ .wait) :
    ¬OverflowsAfter runtime maxPayloadBytes front deltas := by
  rintro ⟨more, delta, back, -, -, opened, -⟩
  rw [mayBegin_iff, List.flatten_append, (judge_sound runtime).stable _ _ judged] at opened
  exact judged opened

theorem pushAll_suppressing (state : gate.state = .suppressing) (deltas : List Text) :
    gate.pushAll runtime .repair maxPayloadBytes deltas = (gate, []) := by
  induction deltas with
  | nil => rfl
  | cons delta deltas ih =>
    have still : gate.push runtime .repair maxPayloadBytes delta = (gate, []) := by
      unfold ToolCallRepairStreamGate.push
      rw [state]
      split <;> rfl
    simp only [ToolCallRepairStreamGate.pushAll, still, ih, List.nil_append]

theorem pushAll_passing (state : gate.state = .passthrough) (deltas : List Text) :
    (gate.pushAll runtime .repair maxPayloadBytes deltas).1 = gate ∧
      (gate.pushAll runtime .repair maxPayloadBytes deltas).2.flatten = deltas.flatten := by
  induction deltas with
  | nil => exact ⟨rfl, rfl⟩
  | cons delta deltas ih =>
    have through : (gate.push runtime .repair maxPayloadBytes delta).1 = gate ∧
        (gate.push runtime .repair maxPayloadBytes delta).2.flatten = delta := by
      unfold ToolCallRepairStreamGate.push
      rw [state]
      split
      next empty => exact ⟨rfl, (List.isEmpty_iff.mp empty).symm⟩
      next => exact ⟨rfl, by simp⟩
    simp only [ToolCallRepairStreamGate.pushAll, through.1, List.flatten_append, through.2, ih, List.flatten_cons, and_self]

theorem waits_of_viewed {held : Text} (refines : Refines runtime gate (.waiting held)) :
    gate.state = .probing ∨ gate.state = .candidate := by
  have viewed := refines.viewed
  unfold view at viewed
  cases state : gate.state <;> simp [state] at viewed ⊢

/-- The gate has given everything up, or it stands where the one that only judges stands. -/
inductive Ends (runtime : Runtime Arguments) (maxPayloadBytes : Nat) (front deltas : List Text) (last : ToolCallRepairStreamGate)
    (released : Text) : Prop where
  | above (overflows : OverflowsAfter runtime maxPayloadBytes front deltas) (capped : last.forcedOverCap = true)
      (state : last.state = .suppressing) (nothing : released = [])
  | settles (fits : ¬OverflowsAfter runtime maxPayloadBytes front deltas)
      (follows : Refines runtime last (settled (judge runtime) (front ++ deltas).flatten).1)
      (whole : released = (settled (judge runtime) (front ++ deltas).flatten).2)

theorem Ends.cons {last : ToolCallRepairStreamGate} {released : Text}
    (ends : Ends runtime maxPayloadBytes (front ++ [delta]) deltas last released)
    (room : delta ≠ [] → (front.map byteLength).sum + byteLength delta ≤ maxPayloadBytes + MAX_STREAM_WRAPPER_BYTES) :
    Ends runtime maxPayloadBytes front (delta :: deltas) last released := by
  cases ends with
  | above overflows capped state nothing => exact .above (overflowsAfter_cons.mpr (.inr overflows)) capped state nothing
  | settles fits follows whole =>
    rw [← List.append_cons] at follows whole
    refine .settles (fun overflows => ?_) follows whole
    rcases overflowsAfter_cons.mp overflows with ⟨some, -, above⟩ | later
    · exact Nat.not_lt_of_le (room some) above
    · exact fits later

/-- Once the text has been told from a call, the rest of it changes nothing. -/
theorem Ends.told {told : ToolCallRepairStreamGate} (deltas : List Text) (judged : judge runtime front.flatten ≠ .wait)
    (refines : Refines runtime told (settled (judge runtime) front.flatten).1) :
    Ends runtime maxPayloadBytes front deltas (told.pushAll runtime .repair maxPayloadBytes deltas).1
      ((settled (judge runtime) front.flatten).2 ++ (told.pushAll runtime .repair maxPayloadBytes deltas).2.flatten) := by
  have whole := (judge_sound runtime).stable _ deltas.flatten judged
  rw [← List.flatten_append] at whole
  cases verdict : judge runtime front.flatten with
  | wait => exact absurd verdict judged
  | pass =>
    simp only [settled, verdict] at refines ⊢
    obtain ⟨last, through⟩ : (told.pushAll runtime .repair maxPayloadBytes deltas).1 = told ∧
        (told.pushAll runtime .repair maxPayloadBytes deltas).2.flatten = deltas.flatten :=
      pushAll_passing (refines.passes_iff.mpr rfl) deltas
    rw [last, through]
    refine .settles (settled_overflows judged) ?_ ?_
    · rw [settled, whole, verdict]
      exact refines
    · rw [settled, whole, verdict, List.flatten_append]
  | drop =>
    simp only [settled, verdict] at refines ⊢
    have state : told.state = .suppressing := by
      have viewed := refines.viewed
      unfold view at viewed
      cases state : told.state <;> simp [state] at viewed ⊢
    rw [pushAll_suppressing state]
    refine .settles (settled_overflows judged) ?_ ?_
    · rw [settled, whole, verdict]
      exact refines
    · rw [settled, whole, verdict]
      rfl

theorem pushAll_ends (deltas : List Text) (refines : Refines runtime gate (.waiting front.flatten))
    (bytes : gate.pendingBytes = (front.map byteLength).sum) :
    Ends runtime maxPayloadBytes front deltas (gate.pushAll runtime .repair maxPayloadBytes deltas).1
      (gate.pushAll runtime .repair maxPayloadBytes deltas).2.flatten := by
  induction deltas generalizing front gate with
  | nil =>
    refine .settles (fun ⟨_, _, _, split, _⟩ => absurd split (by simp)) ?_ ?_
    · rw [List.append_nil, settled, refines.held front.flatten rfl]
      exact refines
    · rw [List.append_nil, settled, refines.held front.flatten rfl]
      rfl
  | cons delta deltas ih =>
    have grown : (front ++ [delta]).flatten = front.flatten ++ delta := by simp
    simp only [ToolCallRepairStreamGate.pushAll, List.flatten_append]
    by_cases empty : delta = []
    · subst empty
      have still : gate.push runtime .repair maxPayloadBytes [] = (gate, []) := rfl
      rw [still]
      exact Ends.cons (ih (by rwa [grown, List.append_nil]) (by simp [bytes, byteLength])) fun some => absurd rfl some
    have some : ¬delta.isEmpty = true := by simpa [List.isEmpty_iff] using empty
    by_cases room : maxPayloadBytes + MAX_STREAM_WRAPPER_BYTES < gate.pendingBytes + byteLength delta
    · have closed : gate.push runtime .repair maxPayloadBytes delta =
          ({ gate with forcedOverCap := true, pending := [], state := .suppressing }, []) := by
        unfold ToolCallRepairStreamGate.push
        rcases waits_of_viewed refines with state | state
        · rw [if_neg some, if_neg (by simp [state]), if_neg (by simp [state])]
          exact if_pos room
        · rw [if_neg some, if_neg (by simp [state]), if_neg (by simp [state])]
          exact if_pos room
      rw [closed, pushAll_suppressing rfl]
      rw [bytes] at room
      exact .above (overflowsAfter_cons.mpr (.inl ⟨empty, mayBegin_iff.mpr (refines.held _ rfl), room⟩)) rfl rfl rfl
    · obtain ⟨follows, released, added⟩ := push_waiting refines (waits_of_viewed refines) some room
      simp only [push, ← grown] at follows released
      refine Ends.cons ?_ fun _ => by rw [← bytes]; exact Nat.le_of_not_lt room
      rw [released]
      by_cases verdict : judge runtime (front ++ [delta]).flatten = .wait
      · rw [settled, verdict] at follows ⊢
        exact ih follows (by simp [added, bytes])
      · exact Ends.told deltas verdict follows

theorem analyze_ordinary (params : FinishParams) (ordinary : findMarkerOffsets params.text = []) :
    analyzeAssistantToolCallText runtime maxPayloadBytes params.text params.allowedToolNames = .none := by
  unfold analyzeAssistantToolCallText
  dsimp only
  split
  · rfl
  · rw [ordinary]

/-- Prose is released whole exactly where no delta overflows while the text may still begin a
call, and the stream is not cut off with such a text. -/
theorem ordinary_text_released (runtime : Runtime Arguments) (maxPayloadBytes : Nat) (params : FinishParams) (deltas : List Text)
    (whole : deltas.flatten = params.text) (ordinary : Ordinary runtime params.text) :
    (stream runtime .repair maxPayloadBytes deltas params).released.flatten = params.text ↔
      ¬Overflows runtime maxPayloadBytes deltas ∧ ¬CutOff runtime params := by
  have ends : Ends runtime maxPayloadBytes [] deltas (ToolCallRepairStreamGate.pushAll runtime .repair maxPayloadBytes {} deltas).1
      (ToolCallRepairStreamGate.pushAll runtime .repair maxPayloadBytes {} deltas).2.flatten :=
    pushAll_ends deltas (start_refines runtime) rfl
  simp only [stream, List.flatten_append]
  generalize ToolCallRepairStreamGate.pushAll runtime .repair maxPayloadBytes {} deltas = pushed at ends ⊢
  cases ends with
  | above overflows capped state nothing =>
    have hidden : (pushed.1.finish runtime .repair maxPayloadBytes params).visibleText = [] := by
      simp [ToolCallRepairStreamGate.finish, ToolCallRepairStreamGate.decide, capped, state]
    refine iff_of_false (fun released => ?_) fun kept => kept.1 overflows
    obtain ⟨more, delta, back, split, some, -⟩ := overflows
    rw [nothing, hidden, ← whole, split, List.flatten_append, List.flatten_cons] at released
    have after := (List.append_eq_nil_iff.mp released.symm).2
    exact some (List.append_eq_nil_iff.mp after).1
  | settles fits follows released =>
    rw [List.nil_append, whole] at follows released
    rw [released, and_iff_right (a := ¬Overflows runtime maxPayloadBytes deltas) fits]
    have visible := follows.visible_eq
    cases verdict : judge runtime params.text with
    | drop => exact absurd (confirmed_of_drop verdict) ordinary.2
    | pass =>
      have kept : ¬CutOff runtime params := fun cut => by
        have wait := mayBegin_iff.mp cut.2.2
        rw [verdict] at wait
        cases wait
      simp only [settled, verdict, shown] at visible ⊢
      have hidden : (pushed.1.finish runtime .repair maxPayloadBytes params).visibleText = [] := by
        rcases finish_cases runtime maxPayloadBytes pushed.1 params with none | seen
        · exact none
        · rw [seen.1, visible]
      rw [hidden]
      exact iff_of_true (by simp) kept
    | wait =>
      have running : pushed.1.state ≠ .passthrough := fun state => by
        have passing := follows.passes_iff.mp state
        rw [settled, verdict] at passing
        cases passing
      simp only [settled, verdict, shown, List.nil_append] at visible ⊢
      simp only [CutOff, mayBegin_iff, verdict, and_true]
      by_cases complete : params.streamComplete = some false
      · have decision : pushed.1.decide runtime maxPayloadBytes params =
            .rejected (syntaxAt (skipWhitespace params.text)) .incomplete := by
          simp [ToolCallRepairStreamGate.decide, follows.uncapped, complete, running]
        have hidden : (pushed.1.finish runtime .repair maxPayloadBytes params).visibleText = [] := by
          simp [ToolCallRepairStreamGate.finish, decision, running]
        rw [hidden]
        simp [complete, eq_comm]
      · have decision : pushed.1.decide runtime maxPayloadBytes params = .none := by
          have none : analyzeAssistantToolCallText runtime maxPayloadBytes params.text params.allowedToolNames = .none :=
            analyze_ordinary params ordinary.1
          rw [← none]
          simp [ToolCallRepairStreamGate.decide, follows.uncapped, complete]
        have seen : (pushed.1.finish runtime .repair maxPayloadBytes params).visibleText = pushed.1.visible := by
          simp [ToolCallRepairStreamGate.finish, decision]
        rw [seen, visible]
        refine iff_of_true ?_ fun cut => complete cut.1
        split
        next empty => exact (List.isEmpty_iff.mp empty).symm
        next => simp

/-! A text that is split while it may still become a call. -/

theorem ordinary_functor : Ordinary silent functor.text := by
  refine ⟨?_, by decide⟩
  have markers : matchAll matchMarker 0 0 none functor.text ++ matchAll matchChannel 0 0 none functor.text = [] := by decide
  rw [findMarkerOffsets, markers]
  simp

theorem ordinary_text_released_functor :
    (stream silent .repair 0 [units "<fun", units "ctor", units ">"] functor).released.flatten = functor.text ↔
      ¬Overflows silent 0 [units "<fun", units "ctor", units ">"] ∧ ¬CutOff silent functor :=
  ordinary_text_released silent 0 functor _ (by decide) ordinary_functor

def prose : Text := List.replicate 264193 (unit 'A')

def proseParams : FinishParams where
  text := prose
  allowedToolNames := [units "read"]
  nativeToolCallsPresent := false

theorem matchAll_replicate (matchAt : Option Nat → Text → Option Nat) (char : Nat) (none_at : ∀ previous rest, matchAt previous (char :: rest) = none)
    (count offset : Nat) (previous : Option Nat) : matchAll matchAt 0 offset previous (List.replicate count char) = [] := by
  induction count generalizing offset previous with
  | zero => rfl
  | succ count ih => rw [List.replicate_succ, matchAll, none_at, ih]

theorem byteLength_replicate (count : Nat) : byteLength (List.replicate count (unit 'A')) = count := by
  induction count with
  | zero => rfl
  | succ count ih =>
    rw [List.replicate_succ]
    unfold byteLength
    rw [if_pos (by decide), ih]
    omega

theorem replicate_ordinary (count : Nat) : Ordinary silent (List.replicate (count + 1) (unit 'A')) := by
  constructor
  · rw [findMarkerOffsets, matchAll_replicate matchMarker _ (fun _ _ => rfl),
      matchAll_replicate matchChannel _ (fun previous rest => ?_)]
    · simp
    · unfold matchChannel
      split <;> rfl
  · rw [List.replicate_succ]
    exact nofun

theorem prose_ordinary : Ordinary silent prose := replicate_ordinary 264192

theorem prose_cons : ∃ rest, prose = unit 'A' :: rest := ⟨List.replicate 264192 (unit 'A'), List.replicate_succ⟩

theorem push_over {maxPayloadBytes : Nat} {text : Text} (some : text ≠ []) (above : maxPayloadBytes + MAX_STREAM_WRAPPER_BYTES < byteLength text) :
    ToolCallRepairStreamGate.push silent .repair maxPayloadBytes {} text = ({ state := .suppressing, forcedOverCap := true }, []) := by
  have filled : ¬ text.isEmpty = true := fun empty => some (List.isEmpty_iff.mp empty)
  have whole : maxPayloadBytes + MAX_STREAM_WRAPPER_BYTES < 0 + byteLength text := by omega
  unfold ToolCallRepairStreamGate.push
  rw [if_neg filled, if_neg (by decide), if_neg (by decide)]
  exact if_pos whole

theorem over_lost {maxPayloadBytes : Nat} {params : FinishParams} (some : params.text ≠ [])
    (above : maxPayloadBytes + MAX_STREAM_WRAPPER_BYTES < byteLength params.text) :
    (stream silent .repair maxPayloadBytes [params.text] params).released.flatten = [] := by
  have hidden : (ToolCallRepairStreamGate.finish silent .repair maxPayloadBytes
      { state := .suppressing, forcedOverCap := true } params).visibleText = [] := by
    simp [ToolCallRepairStreamGate.finish, ToolCallRepairStreamGate.decide]
  simp only [stream, ToolCallRepairStreamGate.pushAll, push_over some above, hidden]
  rfl

/-- Prose that comes in one delta over the cap is given up, though its first letter tells it
from a call. -/
theorem long_delta_lost : Ordinary silent prose ∧ [prose].flatten = proseParams.text ∧
    (stream silent .repair DEFAULT_TOOL_CALL_REPAIR_MAX_PAYLOAD_BYTES [prose] proseParams).released.flatten ≠ proseParams.text := by
  have bytes : byteLength proseParams.text = 264193 := byteLength_replicate _
  have some : proseParams.text ≠ [] := by
    obtain ⟨rest, same⟩ := prose_cons
    intro none
    exact List.cons_ne_nil _ _ (same.symm.trans none)
  have above : DEFAULT_TOOL_CALL_REPAIR_MAX_PAYLOAD_BYTES + MAX_STREAM_WRAPPER_BYTES < byteLength proseParams.text := by
    rw [bytes]
    decide
  have joined : [prose].flatten = proseParams.text := List.append_nil prose
  have lost := over_lost some above
  exact ⟨prose_ordinary, joined, fun same => some (same.symm.trans lost)⟩

end AgentSaas.Proofs.ToolCallProse
