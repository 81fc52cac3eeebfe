import AgentSaas.ToolCallRepair.Gate

/-! The recognisers of a call that may still come: what they accept they accepted all along,
and they accept every text the parsers read a call from. -/

namespace AgentSaas.Proofs.ToolCallPrefixes
open ToolCallRepair Prefixes

variable {Arguments : Type} {runtime : Runtime Arguments} {rest front back before : Text}

/-! Letters outside ASCII do not take part in a marker, whichever case the text is in. -/

structure Plain (marker : Text) : Prop where
  ascii : ∀ char ∈ marker, char < 128 ∧ char ≠ 0x6B
  last : marker.getLast? ≠ some 0x69

theorem Plain.tail {char : Nat} {marker : Text} (plain : Plain (char :: marker)) : Plain marker := by
  refine ⟨fun char member => plain.ascii char (List.mem_cons_of_mem _ member), ?_⟩
  intro last
  apply plain.last
  cases marker with
  | nil => cases last
  | cons second marker => rw [List.getLast?_cons_cons, last]

theorem plain_parameter : Plain (units "<parameter=") := ⟨by decide, by decide⟩

theorem plain_function : Plain (units "</function>") := ⟨by decide, by decide⟩

theorem lowerAscii_of_outside {char : Nat} (outside : 128 ≤ char) : lowerAscii char = char := by
  unfold lowerAscii
  split
  · omega
  · rfl

theorem lowerUnit_cases (runtime : Runtime Arguments) (before : Text) (char : Nat) (after : Text) :
    char < 128 ∧ lowerUnit runtime before char after = [lowerAscii char] ∨
    char = 0x130 ∧ lowerUnit runtime before char after = [0x69, 0x307] ∨
    128 ≤ char ∧ ∃ lowered, lowerUnit runtime before char after = [lowered] ∧ (128 ≤ lowered ∨ lowered = 0x6B) := by
  unfold lowerUnit
  split
  next ascii => exact .inl ⟨ascii, rfl⟩
  next outside =>
    have outside := Nat.le_of_not_lt outside
    split
    next dotted => exact .inr (.inl ⟨dotted, rfl⟩)
    next =>
      split
      next => exact .inr (.inr ⟨outside, _, rfl, .inr rfl⟩)
      next => exact .inr (.inr ⟨outside, _, rfl, .inl (runtime.lower_outside _ _ _ outside)⟩)

/-- Lower case is ASCII lower case as far as a marker goes: what else it makes is in no marker. -/
theorem lower_prefixes {marker : Text} (plain : Plain marker) :
    (marker <+: toLowerCaseFrom runtime before rest ↔ marker <+: rest.map lowerAscii) ∧
      (toLowerCaseFrom runtime before rest <+: marker ↔ rest.map lowerAscii <+: marker) := by
  induction rest generalizing before marker with
  | nil => exact ⟨.rfl, .rfl⟩
  | cons char rest ih =>
    cases marker with
    | nil =>
      rcases lowerUnit_cases runtime before char rest with ⟨_, lowered⟩ | ⟨_, lowered⟩ | ⟨_, _, lowered, _⟩ <;>
        simp [toLowerCaseFrom, lowered]
    | cons letter marker =>
      have letterPlain := plain.ascii letter (List.mem_cons_self ..)
      rw [toLowerCaseFrom, List.map_cons]
      rcases lowerUnit_cases runtime before char rest with ⟨_, lowered⟩ | ⟨dotted, lowered⟩ | ⟨outside, other, lowered, away⟩
      · obtain ⟨first, last⟩ := @ih _ marker plain.tail
        rw [lowered, List.singleton_append, List.cons_prefix_cons, List.cons_prefix_cons, List.cons_prefix_cons, List.cons_prefix_cons]
        exact ⟨and_congr_right fun _ => first, and_congr_right fun _ => last⟩
      · have different : letter ≠ char := by omega
        rw [lowered, List.cons_append, List.singleton_append, lowerAscii_of_outside (by omega)]
        simp only [List.cons_prefix_cons, different, different.symm, false_and, iff_false, not_and]
        cases marker with
        | nil => exact ⟨fun same => absurd (by rw [same]; rfl) plain.last, fun _ => by simp⟩
        | cons second marker =>
          have secondPlain := plain.ascii second (by simp)
          simp only [List.cons_prefix_cons]
          omega
      · rw [lowered, List.singleton_append, lowerAscii_of_outside outside]
        simp only [List.cons_prefix_cons]
        omega

theorem compatible_lower {marker : Text} (plain : Plain marker) :
    compatible marker (toLowerCase runtime rest) = compatible marker (rest.map lowerAscii) := by
  rw [Bool.eq_iff_iff]
  simp only [compatible, Bool.or_eq_true, List.isPrefixOf_iff_prefix, toLowerCase, (lower_prefixes plain).1, (lower_prefixes plain).2]

theorem drop_lower (kept : 0x130 ∉ front) :
    (toLowerCaseFrom runtime before (front ++ back)).drop front.length = toLowerCaseFrom runtime (before ++ front) back := by
  induction front generalizing before with
  | nil => simp
  | cons char front ih =>
    have different : char ≠ 0x130 := fun same => kept (by simp [same])
    have later := @ih (before ++ [char]) (fun member => kept (List.mem_cons_of_mem _ member))
    rw [List.cons_append, toLowerCaseFrom, List.length_cons]
    rcases lowerUnit_cases runtime before char (front ++ back) with ⟨_, lowered⟩ | ⟨same, _⟩ | ⟨_, _, lowered, _⟩
    · rw [lowered, List.singleton_append, List.drop_succ_cons, later, List.append_assoc, List.singleton_append]
    · exact absurd same different
    · rw [lowered, List.singleton_append, List.drop_succ_cons, later, List.append_assoc, List.singleton_append]

theorem prefix_of_indexFrom {pattern : Text} {offset found : Nat} (index : indexFrom pattern offset rest = some found) :
    offset ≤ found ∧ pattern <+: rest.drop (found - offset) := by
  induction rest generalizing offset with
  | nil =>
    simp only [indexFrom] at index
    split at index
    next empty =>
      cases index
      simp [List.isEmpty_iff.mp empty]
    next => cases index
  | cons char rest ih =>
    simp only [indexFrom] at index
    split at index
    next here =>
      cases index
      simpa using List.isPrefixOf_iff_prefix.mp here
    next =>
      obtain ⟨after, read⟩ := ih index
      have positive : found - offset = found - (offset + 1) + 1 := by omega
      refine ⟨by omega, ?_⟩
      rw [positive, List.drop_succ_cons]
      exact read

theorem prefix_of_indexOf {text pattern : Text} {start found : Nat} (index : indexOf text pattern start = some found) :
    start ≤ found ∧ pattern <+: text.drop found := by
  obtain ⟨after, read⟩ := prefix_of_indexFrom index
  rw [List.drop_drop, Nat.add_sub_cancel' after] at read
  exact ⟨after, read⟩

theorem closed_payload : Closed couldBePayload :=
  closed_opens fun _ _ _ => rfl

theorem closed_lineBreak {next : Text → Bool} (closed : Closed next) : Closed (orEnd (couldBeLineBreak next)) := by
  intro front back accepted
  cases front with
  | nil => rfl
  | cons first front =>
    change couldBeLineBreak next (first :: front ++ back) = true at accepted
    change couldBeLineBreak next (first :: front) = true
    simp only [couldBeLineBreak, consumeLineBreak, List.cons_append] at accepted ⊢
    split
    next carriage =>
      rw [if_pos carriage] at accepted
      cases front with
      | nil =>
        rw [List.nil_append] at accepted
        split at accepted
        · exact closed.nil accepted
        · exact closed.nil accepted
      | cons second front =>
        rw [List.cons_append, List.head?_cons, List.tail_cons] at accepted
        rw [List.head?_cons, List.tail_cons]
        split
        next feed =>
          rw [if_pos feed] at accepted
          exact closed _ back accepted
        next other =>
          rw [if_neg other] at accepted
          exact closed (second :: front) back accepted
    next other =>
      rw [if_neg other] at accepted
      split at accepted
      next feed =>
        rw [if_pos feed]
        exact closed _ back accepted
      next => cases accepted

theorem closed_afterBracket (toolPrefix : Bool) : Closed (couldBeAfterBracket toolPrefix) := by
  have payload : Closed (skip isSpace couldBePayload) := closed_skip closed_payload
  cases toolPrefix with
  | true => exact payload
  | false => exact closed_skip (closed_lineBreak payload)

theorem closed_xmlishBody (runtime : Runtime Arguments) : Closed (couldBeXmlishBody runtime) := by
  have same : couldBeXmlishBody runtime = fun rest =>
      compatible (units "<parameter=") (rest.map lowerAscii) || compatible (units "</function>") (rest.map lowerAscii) := by
    funext rest
    simp only [couldBeXmlishBody, compatible_lower plain_parameter, compatible_lower plain_function]
  rw [same]
  exact closed_or (closed_map closed_compatible) (closed_map closed_compatible)

theorem closed_drop {next : Text → Bool} (closed : Closed next) (front back : Text) (count : Nat) (within : count ≤ front.length)
    (accepted : next ((front ++ back).drop count) = true) : next (front.drop count) = true := by
  rw [List.drop_append_of_le_length within] at accepted
  exact closed _ back accepted

theorem closed_xmlishName (runtime : Runtime Arguments) : Closed (couldBeXmlishName runtime) := by
  apply closed_word
  intro front back accepted
  cases front with
  | nil => rfl
  | cons first front =>
    simp only [opens, Bool.and_eq_true, List.cons_append, List.drop_succ_cons, List.drop_zero] at accepted ⊢
    exact ⟨accepted.1, closed_skip (closed_orEnd (closed_xmlishBody runtime)) _ back accepted.2⟩

theorem closed_harmonyTarget : Closed (opens isHorizontal (skip isHorizontal (orEnd couldBeHarmonyTarget))) := by
  have payload : Closed (skip isSpace couldBePayload) := closed_skip closed_payload
  have code : Closed couldBeHarmonyCode := closed_literal (closed_skip (closed_orEnd (closed_maybe payload closed_payload)))
  exact closed_opens (closed_skip (closed_orEnd (closed_literal (closed_word (closed_opens (closed_skip (closed_orEnd code)))))))

theorem channels_apart : Apart HARMONY_CHANNELS := by
  unfold Apart
  decide

theorem closed_harmony : Closed couldBeHarmonyPrefix := by
  intro front back accepted
  simp only [couldBeHarmonyPrefix, Bool.if_true_left, Bool.or_eq_true, decide_eq_true_eq, List.isPrefixOf_iff_prefix] at accepted ⊢
  by_cases reading : front <+: units "<|channel|>"
  · exact .inl reading
  · apply Or.inr
    have accepted := accepted.resolve_left fun short => reading ((List.prefix_append front back).trans short)
    by_cases read : units "<|channel|>" <+: front
    · have later := read.trans (List.prefix_append front back)
      simp only [afterChannelMarker, List.isPrefixOf_iff_prefix, if_pos read, if_pos later] at accepted ⊢
      exact closed_drop (closed_oneOf channels_apart closed_harmonyTarget) front back _ read.length_le accepted
    · have unread : ¬units "<|channel|>" <+: front ++ back := by
        intro later
        rcases prefix_append_cases later with before | before
        · exact read before
        · exact reading before.1
      simp only [afterChannelMarker, List.isPrefixOf_iff_prefix, if_neg read, if_neg unread] at accepted ⊢
      exact closed_oneOf channels_apart closed_harmonyTarget front back accepted

theorem closed_xmlish (runtime : Runtime Arguments) (near : compatible (units "<function=") (front ++ back) = true)
    (accepted : couldBeXmlishPrefix runtime (front ++ back) = true) : couldBeXmlishPrefix runtime front = true := by
  simp only [couldBeXmlishPrefix, Bool.if_true_left, Bool.or_eq_true, decide_eq_true_eq, List.isPrefixOf_iff_prefix] at accepted ⊢
  have near := closed_compatible front back near
  simp only [compatible, Bool.or_eq_true, List.isPrefixOf_iff_prefix] at near
  rcases near with reading | read
  · exact .inl reading
  · rcases accepted with short | accepted
    · exact .inl ((List.prefix_append front back).trans short)
    · exact .inr (closed_drop (closed_xmlishName runtime) front back _ read.length_le accepted)

theorem headerName_prefix (header more : Text) (read : ¬header <+: units "tool:") : headerName header <+: headerName (header ++ more) := by
  unfold headerName
  by_cases tool : units "tool:" <+: header
  · rw [if_pos (List.isPrefixOf_iff_prefix.mpr tool), if_pos (List.isPrefixOf_iff_prefix.mpr (tool.trans (List.prefix_append header more))),
      List.drop_append_of_le_length tool.length_le]
    exact List.prefix_append _ more
  · have later : ¬units "tool:" <+: header ++ more := by
      intro later
      rcases prefix_append_cases later with before | before
      · exact tool before
      · exact read before.1
    rw [if_neg (mt List.isPrefixOf_iff_prefix.mp tool), if_neg (mt List.isPrefixOf_iff_prefix.mp later)]
    exact List.prefix_append header more

theorem closed_bracket (front back : Text) (accepted : couldBeBracketPrefix (unit '[' :: front ++ back) = true) :
    couldBeBracketPrefix (unit '[' :: front) = true := by
  simp only [couldBeBracketPrefix, List.cons_append, List.drop_succ_cons, List.drop_zero] at accepted ⊢
  by_cases shut : front.dropWhile (· ≠ unit ']') = []
  · have all := List.dropWhile_eq_nil_iff.mp shut
    have whole : front.takeWhile (· ≠ unit ']') = front := List.takeWhile_eq_self_iff.mpr all
    rw [List.takeWhile_append, whole, if_pos rfl] at accepted
    rw [whole, shut]
    generalize back.takeWhile (· ≠ unit ']') = more at accepted
    split
    next => rfl
    next unfinished =>
      simp only [Bool.or_eq_true, List.isEmpty_iff, List.isPrefixOf_iff_prefix, not_or] at unfinished
      rw [if_neg (by
        simp only [Bool.or_eq_true, List.isEmpty_iff, List.isPrefixOf_iff_prefix, List.append_eq_nil_iff, not_or, not_and]
        exact ⟨fun empty => absurd empty unfinished.1, fun short => unfinished.2 ((List.prefix_append front more).trans short)⟩)]
        at accepted
      have longer := headerName_prefix front more unfinished.2
      generalize headerName (front ++ more) = name' at accepted longer
      generalize headerName front = name at longer
      split at accepted
      · cases accepted
      next fine =>
        simp only [Bool.or_eq_true, Bool.not_eq_true', decide_eq_true_eq, not_or, Bool.not_eq_false, List.all_eq_true] at fine
        rw [if_neg]
        · rfl
        · simp only [Bool.or_eq_true, Bool.not_eq_true', decide_eq_true_eq, not_or, Bool.not_eq_false, List.all_eq_true]
          have shorter := longer.length_le
          exact ⟨fun char member => fine.1 char (longer.subset member), by omega⟩
  · have taken : (front ++ back).takeWhile (· ≠ unit ']') = front.takeWhile (· ≠ unit ']') := by
      rw [List.takeWhile_append, if_neg]
      intro same
      exact shut (List.dropWhile_eq_nil_iff.mpr (List.takeWhile_eq_self_iff.mp ((List.takeWhile_prefix _).eq_of_length same)))
    have dropped : (front ++ back).dropWhile (· ≠ unit ']') = front.dropWhile (· ≠ unit ']') ++ back := by
      rw [List.dropWhile_append, if_neg (by simpa using shut)]
    obtain ⟨bracket, closed, opened⟩ := List.exists_cons_of_ne_nil shut
    rw [taken, dropped, opened, List.cons_append] at accepted
    rw [opened]
    split
    next => rfl
    next other =>
      rw [if_neg other] at accepted
      split at accepted
      · cases accepted
      next fine =>
        simp only [List.isEmpty_cons, Bool.false_eq_true, if_false] at accepted ⊢
        rw [if_neg fine]
        split at accepted
        · cases accepted
        next valid =>
          rw [if_neg valid]
          exact closed_afterBracket _ closed back accepted

theorem closed_potentialCall (runtime : Runtime Arguments) : Closed (couldBePotentialCallPrefix runtime) := by
  intro front back accepted
  unfold couldBePotentialCallPrefix at accepted ⊢
  cases front with
  | nil => rfl
  | cons first front =>
    rw [List.cons_append, List.head?_cons, ← List.cons_append] at accepted
    rw [List.head?_cons]
    split
    next bracket =>
      rw [if_pos bracket] at accepted
      cases bracket
      exact closed_bracket front back accepted
    next other =>
      rw [if_neg other] at accepted
      split
      next near =>
        split at accepted
        next later => exact closed_xmlish runtime later accepted
        next far =>
          have reading : (first :: front).isPrefixOf (units "<function=") = true := by
            simp only [compatible, Bool.or_eq_true, List.isPrefixOf_iff_prefix, not_or] at near far ⊢
            apply near.resolve_right
            intro read
            exact far.2 (read.trans (List.prefix_append (first :: front) back))
          rw [couldBeXmlishPrefix, if_pos reading]
      next far =>
        rw [if_neg fun later => far (closed_compatible (first :: front) back later)] at accepted
        exact closed_harmony (first :: front) back accepted

/-! More text takes no verdict on a DSML beginning back. -/

theorem skipWhitespace_append {front : Text} (some : skipWhitespace front ≠ []) (back : Text) :
    skipWhitespace (front ++ back) = skipWhitespace front ++ back := by
  rw [skipWhitespace, List.dropWhile_append, if_neg (by simpa [skipWhitespace] using some)]
  rfl

theorem classifyDsmlEnd_append (judged : classifyDsmlEnd front ≠ .begun) : classifyDsmlEnd (front ++ back) = classifyDsmlEnd front := by
  unfold classifyDsmlEnd at judged ⊢
  cases skipped : skipWhitespace front with
  | nil => simp [skipped] at judged
  | cons bar front' => rw [skipWhitespace_append (by simp [skipped]), skipped, List.cons_append]

theorem classifyDsmlMarker_append {marker : Text} (judged : classifyDsmlMarker runtime marker front ≠ .begun) :
    classifyDsmlMarker runtime marker (front ++ back) = classifyDsmlMarker runtime marker front := by
  induction marker generalizing front with
  | nil =>
    simp only [classifyDsmlMarker] at judged ⊢
    exact classifyDsmlEnd_append judged
  | cons letter marker ih =>
    cases front with
    | nil => exact absurd rfl judged
    | cons char front =>
      rw [List.cons_append, classifyDsmlMarker, classifyDsmlMarker]
      rw [classifyDsmlMarker] at judged
      split
      next same =>
        rw [if_pos same] at judged
        exact ih judged
      next => rfl

theorem classifyDsmlBar_append (judged : classifyDsmlBar runtime front ≠ .begun) :
    classifyDsmlBar runtime (front ++ back) = classifyDsmlBar runtime front := by
  unfold classifyDsmlBar at judged ⊢
  cases skipped : skipWhitespace front with
  | nil => simp [skipped] at judged
  | cons bar after =>
    rw [skipWhitespace_append (by simp [skipped]), skipped, List.cons_append]
    rw [skipped] at judged
    dsimp only at judged ⊢
    split
    next isBar =>
      rw [if_pos isBar] at judged
      by_cases blank : skipWhitespace after = []
      · rw [blank] at judged
        exact absurd rfl judged
      · rw [skipWhitespace_append blank]
        exact classifyDsmlMarker_append judged
    next => rfl

theorem classifyDsmlPrefix_append (some : front ≠ []) (judged : classifyDsmlPrefix runtime front ≠ .begun) :
    classifyDsmlPrefix runtime (front ++ back) = classifyDsmlPrefix runtime front := by
  cases front with
  | nil => exact absurd rfl some
  | cons first front =>
    rw [List.cons_append, classifyDsmlPrefix, classifyDsmlPrefix]
    rw [classifyDsmlPrefix] at judged
    split
    next opened =>
      rw [if_pos opened] at judged
      exact classifyDsmlBar_append judged
    next => rfl

end AgentSaas.Proofs.ToolCallPrefixes
