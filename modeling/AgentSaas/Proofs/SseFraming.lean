import AgentSaas.Outcomes
import AgentSaas.SseFraming

/-! A stream read in chunks. The blocks are the segments of the text, wherever the chunks stop. How
large a text is held at once does depend on where they stop. -/

namespace AgentSaas.Proofs.SseFraming
open AgentSaas.SseFraming EventLines
open ToolCallRepair (Text unit units byteLength)

section Boundary

variable {text : Text}

theorem lineBreak_pair (rest : Text) : lineBreak (CR :: LF :: rest) = [rest, LF :: rest] := by
  simp [lineBreak, CR, LF, unit]

theorem lineBreak_single {char : Nat} {rest : Text} (found : isBreak char = true) (alone : ¬ (char = CR ∧ rest.head? = some LF)) :
    lineBreak (char :: rest) = [rest] := by
  have pair : ¬ (char :: rest).take 2 = [CR, LF] := by
    intro same
    cases rest with
    | nil => cases (List.cons.inj same).2
    | cons second rest =>
      rw [List.take_succ_cons, List.take_succ_cons, List.take_zero] at same
      obtain ⟨carriage, line⟩ := List.cons.inj same
      exact alone ⟨carriage, congrArg some (List.cons.inj line).1⟩
  rw [lineBreak, if_neg pair, List.head?_cons]
  rcases break_cases found with rfl | rfl
  · rfl
  · rfl

theorem lineBreak_other {char : Nat} (other : isBreak char = false) (rest : Text) : lineBreak (char :: rest) = [] := by
  have carriage : char ≠ CR := by rintro rfl; cases other
  have line : char ≠ LF := by rintro rfl; cases other
  simp [lineBreak, carriage, line]

theorem lineBreak_head {char : Nat} (found : isBreak char = true) (rest : Text) : ∃ behind others, lineBreak (char :: rest) = behind :: others ∧
    (behind = rest ∨ char = CR ∧ rest = LF :: behind) := by
  by_cases pair : char = CR ∧ rest.head? = some LF
  · obtain ⟨rfl, next⟩ := pair
    obtain ⟨behind, rfl⟩ := List.head?_eq_some_iff.mp next
    exact ⟨behind, _, lineBreak_pair behind, .inr ⟨rfl, rfl⟩⟩
  · exact ⟨rest, _, lineBreak_single found pair, .inl rfl⟩

/-- What one boundary takes away: two characters of breaks, or more with a CRLF among them. -/
structure Mark (mark : Text) : Prop where
  breaks : ∀ char ∈ mark, isBreak char = true
  wide : 2 ≤ mark.length
  shape : mark.length = 2 ∨ [CR, LF] <:+: mark

theorem Mark.pair {first second : Nat} (here : isBreak first = true) (also : isBreak second = true) : Mark [first, second] :=
  ⟨List.forall_mem_cons.mpr ⟨here, List.forall_mem_cons.mpr ⟨also, nofun⟩⟩, Nat.le_refl 2, .inl rfl⟩

theorem boundaryHere_none {first : Nat} {rest : Text} (apart : ∀ second ∈ rest.head?, ¬ (isBreak first = true ∧ isBreak second = true)) :
    boundaryHere (first :: rest) = none := by
  unfold boundaryHere
  cases here : isBreak first with
  | false => rw [lineBreak_other here]; rfl
  | true =>
    cases rest with
    | nil =>
      rw [lineBreak_single here (by rintro ⟨_, none⟩; cases none)]
      rfl
    | cons second rest =>
      have other : isBreak second = false := Bool.eq_false_iff.mpr fun also => apart second rfl ⟨here, also⟩
      have alone : ¬ (first = CR ∧ (second :: rest).head? = some LF) := by
        rintro ⟨_, same⟩
        cases Option.some.inj same
        exact absurd other (by decide)
      rw [lineBreak_single here alone, List.flatMap_singleton, lineBreak_other other]
      rfl

theorem boundaryHere_some {first second : Nat} (here : isBreak first = true) (also : isBreak second = true) (rest : Text) :
    ∃ mark behind, boundaryHere (first :: second :: rest) = some behind ∧ first :: second :: rest = mark ++ behind ∧ Mark mark := by
  unfold boundaryHere
  by_cases pair : first = CR ∧ second = LF
  · obtain ⟨rfl, rfl⟩ := pair
    rw [lineBreak_pair, List.flatMap_cons, List.flatMap_singleton, lineBreak_single rfl fun pair => absurd pair.1 (by decide)]
    have short (none : lineBreak rest = []) : ∃ mark behind, (lineBreak rest ++ [rest]).head? = some behind ∧ CR :: LF :: rest = mark ++ behind ∧ Mark mark :=
      ⟨[CR, LF], rest, by rw [none]; rfl, rfl, .pair rfl rfl⟩
    cases rest with
    | nil => exact short rfl
    | cons third rest =>
      cases found : isBreak third with
      | false => exact short (lineBreak_other found rest)
      | true =>
        have breaks (others : Text) (all : ∀ char ∈ others, isBreak char = true) : ∀ char ∈ CR :: LF :: others, isBreak char = true :=
          List.forall_mem_cons.mpr ⟨rfl, List.forall_mem_cons.mpr ⟨rfl, all⟩⟩
        obtain ⟨behind, others, tried, shape⟩ := lineBreak_head found rest
        rw [tried]
        rcases shape with rfl | ⟨rfl, rfl⟩
        · refine ⟨[CR, LF, third], behind, rfl, rfl, breaks [third] ?_, Nat.le_succ 2, .inr ⟨[], [third], rfl⟩⟩
          exact List.forall_mem_cons.mpr ⟨found, nofun⟩
        · refine ⟨[CR, LF, CR, LF], behind, rfl, rfl, breaks [CR, LF] ?_, by decide, .inr ⟨[], [CR, LF], rfl⟩⟩
          exact List.forall_mem_cons.mpr ⟨rfl, List.forall_mem_cons.mpr ⟨rfl, nofun⟩⟩
  · have alone : ¬ (first = CR ∧ (second :: rest).head? = some LF) := fun same => pair ⟨same.1, Option.some.inj same.2⟩
    rw [lineBreak_single here alone, List.flatMap_singleton]
    obtain ⟨behind, others, tried, shape⟩ := lineBreak_head also rest
    rw [tried]
    rcases shape with rfl | ⟨rfl, rfl⟩
    · exact ⟨[first, second], behind, rfl, rfl, .pair here also⟩
    · refine ⟨[first, CR, LF], behind, rfl, rfl, ?_, Nat.le_succ 2, .inr ⟨[first], [], rfl⟩⟩
      exact List.forall_mem_cons.mpr ⟨here, List.forall_mem_cons.mpr ⟨rfl, List.forall_mem_cons.mpr ⟨rfl, nofun⟩⟩⟩

theorem boundary_none : boundary text = none ↔ Unbroken text := by
  induction text with
  | nil => exact iff_of_true rfl .nil
  | cons char rest ih =>
    unfold boundary
    by_cases apart : ∀ second ∈ rest.head?, ¬ (isBreak char = true ∧ isBreak second = true)
    · rw [boundaryHere_none apart]
      dsimp only
      rw [Option.map_eq_none_iff, ih]
      exact ⟨fun later => List.isChain_cons.mpr ⟨apart, later⟩, List.IsChain.tail⟩
    · simp only [not_forall, not_not] at apart
      obtain ⟨second, next, here, also⟩ := apart
      obtain ⟨later, rfl⟩ := List.head?_eq_some_iff.mp next
      obtain ⟨mark, behind, found, _⟩ := boundaryHere_some here also later
      rw [found]
      refine ⟨fun wrong => (by cases wrong), fun unbroken => absurd ⟨here, also⟩ (List.isChain_cons_cons.mp unbroken).1⟩

theorem boundary_some {block behind : Text} (found : boundary text = some (block, behind)) :
    ∃ mark, text = block ++ mark ++ behind ∧ Unbroken block ∧ Ends block ∧ Mark mark := by
  induction text generalizing block with
  | nil => cases found
  | cons char rest ih =>
    unfold boundary at found
    by_cases apart : ∀ second ∈ rest.head?, ¬ (isBreak char = true ∧ isBreak second = true)
    · rw [boundaryHere_none apart] at found
      obtain ⟨⟨inner, behind⟩, later, same⟩ := Option.map_eq_some_iff.mp found
      cases same
      obtain ⟨mark, rfl, unbroken, ends, isMark⟩ := ih later
      refine ⟨mark, rfl, List.isChain_cons.mpr ⟨fun next head => ?_, unbroken⟩, fun last own => ?_, isMark⟩
      · apply apart
        rw [List.append_assoc, List.head?_append, head]
        rfl
      · cases inner with
        | nil =>
          obtain rfl := Option.some.inj own
          obtain ⟨first, second, others, rfl⟩ := two_of_length isMark.wide
          exact Bool.eq_false_iff.mpr fun here => apart first rfl ⟨here, isMark.breaks first List.mem_cons_self⟩
        | cons next others =>
          rw [List.getLast?_cons_cons] at own
          exact ends last own
    · simp only [not_forall, not_not] at apart
      obtain ⟨second, next, here, also⟩ := apart
      obtain ⟨later, rfl⟩ := List.head?_eq_some_iff.mp next
      obtain ⟨mark, left, tried, same, isMark⟩ := boundaryHere_some here also later
      rw [tried] at found
      cases found
      exact ⟨mark, same, .nil, fun _ wrong => (by cases wrong), isMark⟩

def Tile (mark : Text) : Prop := ∃ first second rest, mark = first :: second :: rest ∧ isBreak first = true ∧ boundaryHere mark = some []

theorem boundary_tile {block mark : Text} (unbroken : Unbroken block) (ends : Ends block) (tile : Tile mark) :
    boundary (block ++ mark) = some (block, []) := by
  obtain ⟨first, second, rest, rfl, found, here⟩ := tile
  induction block with
  | nil =>
    rw [List.nil_append, boundary, here]
  | cons char block ih =>
    have apart : ∀ next ∈ (block ++ first :: second :: rest).head?, ¬ (isBreak char = true ∧ isBreak next = true) := by
      intro next head both
      obtain ⟨follows, others, rfl, visible⟩ := tail_of_break unbroken ends both.1
      obtain rfl : follows = next := Option.some.inj head
      rw [both.2] at visible
      cases visible
    rw [List.cons_append, boundary, boundaryHere_none apart, ih unbroken.tail ends.tail]
    rfl

end Boundary

inductive Taken (maxBytes : Nat) : Text → List Text → Text → Prop
  | rest {text : Text} (unbroken : Unbroken text) : Taken maxBytes text [] text
  | block {block mark behind left : Text} {blocks : List Text} (unbroken : Unbroken block) (ends : Ends block) (isMark : Mark mark)
      (small : byteLength block ≤ maxBytes) (later : Taken maxBytes behind blocks left) :
      Taken maxBytes (block ++ mark ++ behind) (block :: blocks) left

section Taking

variable {maxBytes : Nat} {text left : Text} {blocks : List Text}

theorem takeBlocks_taken (returned : takeBlocks maxBytes text = .ok (blocks, left)) : Taken maxBytes text blocks left := by
  fun_induction takeBlocks maxBytes text generalizing blocks with
  | case1 text missed =>
    cases returned
    exact .rest (boundary_none.mp missed)
  | case2 text block behind found large => cases returned
  | case3 text block behind found small ih =>
    obtain ⟨⟨others, left⟩, later, same⟩ := Outcomes.of_ok_bind returned
    cases same
    obtain ⟨mark, rfl, unbroken, ends, isMark⟩ := boundary_some found
    exact .block unbroken ends isMark (Nat.le_of_not_lt small) (ih later)

theorem Taken.unbroken (taken : Taken maxBytes text blocks left) : Unbroken left := by
  induction taken with
  | rest unbroken => exact unbroken
  | block _ _ _ _ _ ih => exact ih

theorem Taken.suffix (taken : Taken maxBytes text blocks left) : left <:+ text := by
  induction taken with
  | rest unbroken => exact List.suffix_refl _
  | block _ _ _ _ _ ih => exact ih.trans (List.suffix_append _ _)

theorem Taken.segments (taken : Taken maxBytes text blocks left) (more : Text) :
    segments (text ++ more) = blocks.flatMap filled ++ EventLines.segments (left ++ more) := by
  induction taken with
  | rest unbroken => rfl
  | @block block mark behind left blocks unbroken ends isMark _ _ ih =>
    rw [List.append_assoc, segments_gap unbroken ends isMark.breaks isMark.wide, ih, List.flatMap_cons, List.append_assoc]

variable {frames next : SseFrameBuffer} {chunk : Text}

theorem push_taken (returned : push frames chunk = .ok (blocks, next)) : Taken frames.maxBytes (frames.buffer ++ chunk) blocks next.buffer ∧
    next.maxBytes = frames.maxBytes ∧ byteLength next.buffer ≤ frames.maxBytes := by
  obtain ⟨⟨blocks, left⟩, taken, returned⟩ := Outcomes.of_ok_bind returned
  dsimp only at returned
  split at returned
  · cases returned
  next small =>
    cases returned
    exact ⟨takeBlocks_taken taken, rfl, Nat.le_of_not_lt small⟩

theorem readStream_segments {chunks : List Text} (unbroken : Unbroken frames.buffer) (returned : readStream frames chunks = .ok blocks) :
    blocks.flatMap filled = segments (frames.buffer ++ chunks.flatten) := by
  induction chunks generalizing frames blocks with
  | nil =>
    cases returned
    rw [List.flatten_nil, List.append_nil, EventLines.segments, segmentsFrom_unbroken unbroken, List.flatMap_singleton]
    rfl
  | cons chunk chunks ih =>
    obtain ⟨⟨first, next⟩, pushed, returned⟩ := Outcomes.of_ok_bind returned
    obtain ⟨others, read, returned⟩ := Outcomes.of_ok_bind returned
    cases returned
    obtain ⟨taken, _, _⟩ := push_taken pushed
    rw [List.flatMap_append, ih taken.unbroken read, List.flatten_cons, ← List.append_assoc, taken.segments]

end Taking

/-- The breaks that a text ends with. -/
def ending (text : Text) : Text := text.rtakeWhile isBreak

def HasCrLf (gap : Text) : Prop := [CR, LF] <:+: gap

/-- Boundaries may take away all breaks before this place. -/
def Settled (before : Text) : Prop := before = [] ∨ 2 ≤ (ending before).length ∧ ((ending before).length % 2 = 0 ∨ HasCrLf (ending before))

/-- The stretch begins with another character, or with a break that no boundary takes away. -/
def Starts (before block : Text) : Prop :=
  ∀ char ∈ block.head?, isBreak char = true → (ending (before ++ [char])).length % 2 = 1 ∧ ¬ HasCrLf (ending (before ++ [char]))

/-- It ends with another character, or with the text. -/
def Closes (block after : Text) : Prop := ∀ char ∈ block.getLast?, isBreak char = true → after = []

/-- A stretch that is held at once for all chunks is too large. -/
def Oversized (maxBytes : Nat) (text : Text) : Prop := ∃ before block after, text = before ++ block ++ after ∧ Unbroken block ∧
  Starts before block ∧ Closes block after ∧ maxBytes < byteLength block

/-- No stretch that is held at once for some chunks is too large. -/
def Fits (maxBytes : Nat) (text : Text) : Prop :=
  ∀ before block after, text = before ++ block ++ after → Settled before → Unbroken block → byteLength block ≤ maxBytes

/-- Reading fails for all chunks, or gives the runs of lines for all. -/
def Framed (maxBytes : Nat) (text : Text) : Prop :=
  (∀ chunks : List Text, chunks.flatten = text → ∃ error, readStream (.new maxBytes) chunks = .error error) ∨
    ∃ events, (∀ chunks : List Text, chunks.flatten = text → ∃ blocks, readStream (.new maxBytes) chunks = .ok blocks ∧ blocks.flatMap filled = events) ∧
      events.map lines = runs text

section Places

variable {before gap : Text}

theorem ending_append (before : Text) (breaks : ∀ char ∈ gap, isBreak char = true) : ending (before ++ gap) = ending before ++ gap := by
  induction gap using List.reverseRecOn with
  | nil => rw [List.append_nil, List.append_nil]
  | append_singleton gap char ih =>
    obtain ⟨inner, own⟩ := List.forall_mem_append.mp breaks
    rw [← List.append_assoc, ending, List.rtakeWhile_concat_pos _ _ _ (own char List.mem_cons_self), ← ending, ih inner, List.append_assoc]

theorem ending_ends (ends : Ends before) : ending before = [] := by
  refine List.rtakeWhile_eq_nil_iff.mpr fun some found => ?_
  have visible := ends _ (List.getLast?_eq_some_getLast some)
  rw [found] at visible
  cases visible

theorem ends_append {front block : Text} (ends : Ends block) (some : block ≠ []) : Ends (front ++ block) := by
  intro last found
  rw [List.getLast?_append_of_ne_nil _ some] at found
  exact ends last found

theorem HasCrLf.front {first : Text} (found : HasCrLf first) (second : Text) : HasCrLf (first ++ second) := found.trans (List.infix_append' [] _ _)

theorem HasCrLf.behind {second : Text} (found : HasCrLf second) (first : Text) : HasCrLf (first ++ second) :=
  found.trans (List.suffix_append _ _).isInfix

theorem settled_mark {front block mark : Text} (settled : Settled front) (ends : Ends block) (isMark : Mark mark) :
    Settled (front ++ block ++ mark) := by
  have alone (none : ending (front ++ block) = []) : Settled (front ++ block ++ mark) := by
    refine .inr ?_
    rw [ending_append _ isMark.breaks, none, List.nil_append]
    exact ⟨isMark.wide, isMark.shape.imp_left fun two => by rw [two]⟩
  cases block with
  | cons char block => exact alone (ending_ends (ends_append ends (List.cons_ne_nil _ _)))
  | nil =>
    rw [List.append_nil] at alone ⊢
    rcases settled with rfl | ⟨_, shape⟩
    · exact alone rfl
    · have wide := isMark.wide
      refine .inr ?_
      rw [ending_append _ isMark.breaks, List.length_append]
      refine ⟨by omega, ?_⟩
      rcases shape with even | found
      · rcases isMark.shape with two | found
        · exact .inl (by omega)
        · exact .inr (HasCrLf.behind found _)
      · exact .inr (HasCrLf.front found _)

end Places

/-! A text that fits is read in all chunks. -/

section Fitting

variable {maxBytes : Nat}

theorem takeBlocks_fits {front text more : Text} (settled : Settled front) (fits : Fits maxBytes (front ++ text ++ more)) :
    ∃ blocks left before, takeBlocks maxBytes text = .ok (blocks, left) ∧ front ++ text = before ++ left ∧ Settled before ∧
      byteLength left ≤ maxBytes := by
  fun_induction takeBlocks maxBytes text generalizing front with
  | case1 text missed =>
    exact ⟨[], text, front, rfl, rfl, settled, fits front text more rfl settled (boundary_none.mp missed)⟩
  | case2 text block behind found large =>
    obtain ⟨mark, rfl, unbroken, ends, isMark⟩ := boundary_some found
    have small := fits front block (mark ++ behind ++ more) (by simp only [List.append_assoc]) settled unbroken
    omega
  | case3 text block behind found small ih =>
    obtain ⟨mark, rfl, unbroken, ends, isMark⟩ := boundary_some found
    have parts : front ++ (block ++ mark ++ behind) = front ++ block ++ mark ++ behind := by simp only [List.append_assoc]
    rw [parts] at fits ⊢
    obtain ⟨blocks, left, before, taken, same, settled, little⟩ := ih (settled_mark settled ends isMark) fits
    exact ⟨block :: blocks, left, before, by rw [taken]; rfl, same, settled, little⟩

theorem readStream_fits {frames : SseFrameBuffer} {front : Text} {chunks : List Text} (settled : Settled front)
    (fits : Fits frames.maxBytes (front ++ frames.buffer ++ chunks.flatten)) : ∃ blocks, readStream frames chunks = .ok blocks := by
  induction chunks generalizing frames front with
  | nil => exact ⟨_, rfl⟩
  | cons chunk chunks ih =>
    have parts : front ++ frames.buffer ++ (chunk :: chunks).flatten = front ++ (frames.buffer ++ chunk) ++ chunks.flatten := by
      rw [List.flatten_cons, List.append_assoc, List.append_assoc, List.append_assoc]
    rw [parts] at fits
    obtain ⟨blocks, left, before, taken, same, settled, little⟩ := takeBlocks_fits settled fits
    rw [same] at fits
    obtain ⟨others, read⟩ := @ih { frames with buffer := left } before settled fits
    refine ⟨blocks ++ others, ?_⟩
    have pushed : push frames chunk = .ok (blocks, { frames with buffer := left }) := by
      rw [push, taken]
      exact if_neg (Nat.not_lt.mpr little)
    rw [readStream, pushed]
    simp only [bind, Except.bind]
    rw [read]
    rfl

end Fitting

/-! A stretch that is held at once for all chunks. -/

section Holding

variable {maxBytes : Nat} {before block after : Text}

/-- A break that a boundary takes away is not what such a stretch begins with. -/
theorem not_starts {char : Nat} {rest : Text} (starts : Starts before (char :: rest)) (found : isBreak char = true)
    (settled : Settled (before ++ [char])) : False := by
  obtain ⟨odd, plain⟩ := starts char rfl found
  rcases settled with none | ⟨_, even | pair⟩
  · cases (List.append_eq_nil_iff.mp none).2
  · omega
  · exact plain pair

theorem infix_of_front {front own more : Text} (from_front : front.length ≤ before.length) (whole : front ++ own = before ++ (block ++ more)) :
    block <:+: own := by
  obtain ⟨start, rfl⟩ : ∃ start, before = front ++ start := by
    obtain ⟨start, same⟩ := List.prefix_of_prefix_length_le (List.prefix_append front own) (whole ▸ List.prefix_append before _) from_front
    exact ⟨start, same.symm⟩
  rw [List.append_assoc, List.append_cancel_left_eq] at whole
  exact ⟨start, more, by rw [whole, List.append_assoc]⟩

theorem in_block {front own mark behind : Text} (settled : Settled front) (ends : Ends own) (isMark : Mark mark) (unbroken : Unbroken block)
    (starts : Starts before block) (closes : Closes block after) (some : block ≠ [])
    (same : front ++ own ++ mark ++ behind = before ++ block ++ after) (from_front : front.length ≤ before.length) :
    block <:+: own ∨ (front ++ own ++ mark).length ≤ before.length := by
  rw [List.append_assoc (front ++ own), List.append_assoc before] at same
  rcases List.append_eq_append_iff.mp same with ⟨inner, rfl, parts⟩ | ⟨tail, whole, parts⟩
  · rcases List.append_eq_append_iff.mp parts with ⟨more, rfl, _⟩ | ⟨more, rfl, rest⟩
    · refine .inr ?_
      simp only [List.length_append]
      omega
    -- the stretch begins within the mark
    cases more with
    | nil =>
      refine .inr ?_
      rw [List.append_nil]
    | cons char more =>
      obtain ⟨first, block, rfl⟩ := List.exists_cons_of_ne_nil some
      obtain rfl : first = char := (List.cons.inj rest).1
      have found := isMark.breaks first (List.mem_append_right _ List.mem_cons_self)
      cases more with
      | nil =>
        have own := settled_mark settled ends isMark
        rw [← List.append_assoc] at own
        exact (not_starts starts found own).elim
      | cons second more =>
        have also := isMark.breaks second (List.mem_append_right _ (List.mem_cons_of_mem _ List.mem_cons_self))
        have behind_first := (List.cons.inj rest).2
        cases block with
        | nil =>
          rw [closes first rfl found] at behind_first
          cases behind_first
        | cons next block =>
          obtain rfl : next = second := (List.cons.inj behind_first).1
          exact absurd ⟨found, also⟩ (List.isChain_cons_cons.mp unbroken).1
  · rcases List.append_eq_append_iff.mp parts with ⟨more, rfl, _⟩ | ⟨more, rfl, rest⟩
    · exact .inl (infix_of_front from_front whole)
    -- the stretch goes on into the mark
    obtain ⟨first, second, others, rfl⟩ := two_of_length isMark.wide
    have here := isMark.breaks first List.mem_cons_self
    have also := isMark.breaks second (List.mem_cons_of_mem _ List.mem_cons_self)
    cases more with
    | nil =>
      rw [List.append_nil]
      have all : front ++ own = before ++ (tail ++ []) := by rw [List.append_nil, whole]
      exact .inl (infix_of_front from_front all)
    | cons char more =>
      obtain ⟨head, behind_first⟩ := List.cons.inj rest
      obtain rfl : first = char := head
      cases more with
      | nil =>
        rw [closes first List.getLast?_concat here] at behind_first
        cases behind_first
      | cons next more =>
        obtain rfl : second = next := (List.cons.inj behind_first).1
        exact absurd ⟨here, also⟩ (List.isChain_cons_cons.mp (List.isChain_append.mp unbroken).2.1).1

theorem taken_holds {front text left more : Text} {blocks : List Text} (taken : Taken maxBytes text blocks left) (settled : Settled front)
    (unbroken : Unbroken block) (starts : Starts before block) (closes : Closes block after) (some : block ≠ [])
    (same : front ++ text ++ more = before ++ block ++ after) (from_front : front.length ≤ before.length) :
    byteLength block ≤ maxBytes ∨ ∃ place, front ++ text = place ++ left ∧ Settled place ∧ place.length ≤ before.length := by
  induction taken generalizing front with
  | rest => exact .inr ⟨front, rfl, settled, from_front⟩
  | @block own mark behind left blocks _ ends isMark small _ ih =>
    have parts : front ++ (own ++ mark ++ behind) = front ++ own ++ mark ++ behind := by simp only [List.append_assoc]
    rw [parts] at same ⊢
    rw [List.append_assoc (front ++ own ++ mark)] at same
    rcases in_block settled ends isMark unbroken starts closes some same from_front with inside | later
    · exact .inl (Nat.le_trans (ToolCallRepair.byteLength_infix_le inside) small)
    · rw [← List.append_assoc (front ++ own ++ mark)] at same
      exact ih (settled_mark settled ends isMark) same later

theorem readStream_holds {frames : SseFrameBuffer} {front : Text} {chunks blocks : List Text} (returned : readStream frames chunks = .ok blocks)
    (little : byteLength frames.buffer ≤ frames.maxBytes) (settled : Settled front)
    (unbroken : Unbroken block) (starts : Starts before block) (closes : Closes block after) (some : block ≠ [])
    (same : front ++ frames.buffer ++ chunks.flatten = before ++ block ++ after) (from_front : front.length ≤ before.length) :
    byteLength block ≤ frames.maxBytes := by
  induction chunks generalizing frames front blocks with
  | nil =>
    rw [List.flatten_nil, List.append_nil, List.append_assoc before] at same
    exact Nat.le_trans (ToolCallRepair.byteLength_infix_le (infix_of_front from_front same)) little
  | cons chunk chunks ih =>
    obtain ⟨⟨first, next⟩, pushed, returned⟩ := Outcomes.of_ok_bind returned
    obtain ⟨others, read, _⟩ := Outcomes.of_ok_bind returned
    obtain ⟨taken, bound, small⟩ := push_taken pushed
    rw [List.flatten_cons, ← List.append_assoc, List.append_assoc front] at same
    rcases taken_holds taken settled unbroken starts closes some same from_front with fits | ⟨place, parts, settled, later⟩
    · exact fits
    · rw [parts] at same
      rw [← bound] at small ⊢
      exact ih read small settled same later

end Holding

section Chunks

variable {maxBytes : Nat}

theorem takeBlocks_none {text : Text} (unbroken : Unbroken text) : takeBlocks maxBytes text = .ok ([], text) := by
  rw [takeBlocks]
  split
  · rfl
  next found =>
    rw [boundary_none.mpr unbroken] at found
    cases found

theorem takeBlocks_some {text block behind : Text} (found : boundary text = some (block, behind)) :
    takeBlocks maxBytes text = if byteLength block > maxBytes then .error (tooLarge maxBytes) else do
      let (blocks, left) ← takeBlocks maxBytes behind
      return (block :: blocks, left) := by
  rw [takeBlocks]
  split
  next none =>
    rw [none] at found
    cases found
  next other =>
    rw [other] at found
    cases found
    rfl

theorem push_unbroken {text : Text} (unbroken : Unbroken text) :
    push ⟨[], maxBytes⟩ text = if byteLength text > maxBytes then .error (tooLarge maxBytes) else .ok ([], ⟨text, maxBytes⟩) := by
  rw [push, List.nil_append, takeBlocks_none unbroken]
  rfl

theorem push_tile {block mark : Text} (unbroken : Unbroken block) (ends : Ends block) (tile : Tile mark) :
    push ⟨block, maxBytes⟩ mark = if byteLength block > maxBytes then .error (tooLarge maxBytes) else .ok ([block], ⟨[], maxBytes⟩) := by
  rw [push, takeBlocks_some (boundary_tile unbroken ends tile)]
  split
  · rfl
  · rw [takeBlocks_none .nil]
    rfl

theorem tile_pair {first second : Nat} (here : isBreak first = true) (also : isBreak second = true) : Tile [first, second] := by
  refine ⟨first, second, [], rfl, here, ?_⟩
  rcases break_cases here with rfl | rfl <;> rcases break_cases also with rfl | rfl <;> rfl

theorem tile_behind {char : Nat} (found : isBreak char = true) : Tile [CR, LF, char] := by
  refine ⟨CR, LF, [char], rfl, rfl, ?_⟩
  rcases break_cases found with rfl | rfl <;> rfl

theorem tile_before {char : Nat} (found : isBreak char = true) : Tile [char, CR, LF] := by
  refine ⟨char, CR, [LF], rfl, found, ?_⟩
  rcases break_cases found with rfl | rfl <;> rfl

def Tiled (gap : Text) : Prop := ∃ tiles : List Text, tiles.flatten = gap ∧ ∀ tile ∈ tiles, Tile tile

theorem Tiled.append {first second : Text} (front : Tiled first) (back : Tiled second) : Tiled (first ++ second) := by
  obtain ⟨tiles, rfl, each⟩ := front
  obtain ⟨others, rfl, all⟩ := back
  exact ⟨tiles ++ others, List.flatten_append, List.forall_mem_append.mpr ⟨each, all⟩⟩

theorem Tile.tiled {mark : Text} (tile : Tile mark) : Tiled mark := ⟨[mark], List.flatten_singleton, fun _ member => List.mem_singleton.mp member ▸ tile⟩

theorem tiled_even {gap : Text} (breaks : ∀ char ∈ gap, isBreak char = true) (even : gap.length % 2 = 0) : Tiled gap := by
  induction gap using List.twoStepInduction with
  | nil => exact ⟨[], rfl, nofun⟩
  | singleton => cases even
  | cons_cons first second gap ih _ =>
    obtain ⟨here, breaks⟩ := List.forall_mem_cons.mp breaks
    obtain ⟨also, breaks⟩ := List.forall_mem_cons.mp breaks
    rw [List.length_cons, List.length_cons] at even
    exact (tile_pair here also).tiled.append (ih breaks (by omega))

theorem tiled {gap : Text} (breaks : ∀ char ∈ gap, isBreak char = true) (shape : gap.length % 2 = 0 ∨ HasCrLf gap) : Tiled gap := by
  by_cases even : gap.length % 2 = 0
  · exact tiled_even breaks even
  obtain ⟨front, back, rfl⟩ := shape.resolve_left even
  obtain ⟨inner, behind⟩ := List.forall_mem_append.mp breaks
  obtain ⟨before, _⟩ := List.forall_mem_append.mp inner
  simp only [List.length_append, List.length_cons, List.length_nil] at even
  by_cases first : front.length % 2 = 0
  · cases back with
    | nil =>
      rw [List.length_nil] at even
      omega
    | cons char back =>
      rw [List.length_cons] at even
      obtain ⟨own, behind⟩ := List.forall_mem_cons.mp behind
      have parts : front ++ [CR, LF] ++ char :: back = front ++ ([CR, LF, char] ++ back) := by simp only [List.append_assoc]; rfl
      rw [parts]
      exact (tiled_even before first).append ((tile_behind own).tiled.append (tiled_even behind (by omega)))
  · obtain ⟨init, last, rfl⟩ := List.eq_nil_or_concat front |>.resolve_left (fun none => first (by rw [none]; rfl))
    rw [List.concat_eq_append] at *
    obtain ⟨others, own⟩ := List.forall_mem_append.mp before
    simp only [List.length_append, List.length_cons, List.length_nil] at first even
    have parts : init ++ [last] ++ [CR, LF] ++ back = init ++ ([last, CR, LF] ++ back) := by simp only [List.append_assoc]; rfl
    rw [parts]
    exact (tiled_even others (by omega)).append ((tile_before (own last List.mem_cons_self)).tiled.append (tiled_even behind (by omega)))

def Reads (frames : SseFrameBuffer) (chunks : List Text) : Prop := ∃ blocks, readStream frames chunks = .ok blocks

theorem reads_cons {frames : SseFrameBuffer} {chunk : Text} {chunks : List Text} :
    Reads frames (chunk :: chunks) ↔ ∃ blocks next, push frames chunk = .ok (blocks, next) ∧ Reads next chunks := by
  constructor
  · intro ⟨blocks, returned⟩
    obtain ⟨⟨first, next⟩, pushed, returned⟩ := Outcomes.of_ok_bind returned
    obtain ⟨others, read, _⟩ := Outcomes.of_ok_bind returned
    exact ⟨first, next, pushed, others, read⟩
  · intro ⟨first, next, pushed, others, read⟩
    refine ⟨first ++ others, ?_⟩
    rw [readStream, pushed]
    simp only [bind, Except.bind]
    rw [read]
    rfl

theorem reads_tile {block mark : Text} {chunks : List Text} (unbroken : Unbroken block) (ends : Ends block) (tile : Tile mark) :
    Reads ⟨block, maxBytes⟩ (mark :: chunks) ↔ byteLength block ≤ maxBytes ∧ Reads ⟨[], maxBytes⟩ chunks := by
  rw [reads_cons, push_tile unbroken ends tile]
  by_cases large : byteLength block > maxBytes
  · rw [if_pos large]
    refine ⟨?_, fun small => absurd small.1 (Nat.not_le.mpr large)⟩
    rintro ⟨_, _, wrong, _⟩
    cases wrong
  · rw [if_neg large]
    refine ⟨?_, fun small => ⟨_, _, rfl, small.2⟩⟩
    rintro ⟨_, _, same, read⟩
    cases same
    exact ⟨Nat.le_of_not_lt large, read⟩

theorem reads_tiles {tiles chunks : List Text} (each : ∀ tile ∈ tiles, Tile tile) : Reads ⟨[], maxBytes⟩ (tiles ++ chunks) ↔ Reads ⟨[], maxBytes⟩ chunks := by
  induction tiles with
  | nil => rfl
  | cons tile tiles ih =>
    obtain ⟨own, others⟩ := List.forall_mem_cons.mp each
    rw [List.cons_append, reads_tile .nil nofun own, ih others]
    exact and_iff_right (Nat.zero_le _)

theorem reads_unbroken {block : Text} {chunks : List Text} (unbroken : Unbroken block) :
    Reads ⟨[], maxBytes⟩ (block :: chunks) ↔ byteLength block ≤ maxBytes ∧ Reads ⟨block, maxBytes⟩ chunks := by
  rw [reads_cons, push_unbroken unbroken]
  by_cases large : byteLength block > maxBytes
  · rw [if_pos large]
    refine ⟨?_, fun small => absurd small.1 (Nat.not_le.mpr large)⟩
    rintro ⟨_, _, wrong, _⟩
    cases wrong
  · rw [if_neg large]
    refine ⟨?_, fun small => ⟨_, _, rfl, small.2⟩⟩
    rintro ⟨_, _, same, read⟩
    cases same
    exact ⟨Nat.le_of_not_lt large, read⟩

theorem ending_mem {text : Text} : ∀ char ∈ ending text, isBreak char = true := fun _ => List.mem_rtakeWhile_imp

theorem reach {before : Text} (settled : Settled before) :
    ∃ front : List Text, front.flatten = before ∧ ∀ chunks, Reads ⟨[], maxBytes⟩ (front ++ chunks) → Reads ⟨[], maxBytes⟩ chunks := by
  rcases settled with rfl | ⟨wide, shape⟩
  · exact ⟨[], rfl, fun _ => id⟩
  obtain ⟨tiles, same, each⟩ := tiled ending_mem shape
  have parts : before.rdropWhile isBreak ++ tiles.flatten = before := by rw [same]; exact List.rdropWhile_append_rtakeWhile ..
  have ends : Ends (before.rdropWhile isBreak) := by
    intro last found
    have some : before.rdropWhile isBreak ≠ [] := by
      intro none
      rw [none] at found
      cases found
    rw [List.getLast?_eq_some_getLast some] at found
    exact Option.some.inj found ▸ Bool.eq_false_iff.mpr (List.rdropWhile_last_not _ _ some)
  refine ⟨before.rdropWhile isBreak :: tiles, by rw [List.flatten_cons, parts], fun chunks read => ?_⟩
  cases tiles with
  | nil =>
    rw [← same] at wide
    cases wide
  | cons tile tiles =>
    obtain ⟨own, others⟩ := List.forall_mem_cons.mp each
    rw [List.cons_append, reads_cons] at read
    obtain ⟨blocks, next, pushed, read⟩ := read
    obtain ⟨taken, bound, _⟩ := push_taken pushed
    have last : Ends next.buffer := by
      intro char found
      obtain ⟨front, whole⟩ := taken.suffix
      refine ends char ?_
      have some : next.buffer ≠ [] := by
        intro none
        rw [none] at found
        cases found
      rw [List.nil_append] at whole
      rw [← whole, List.getLast?_append_of_ne_nil _ some]
      exact found
    have shape : next = ⟨next.buffer, maxBytes⟩ := congrArg (SseFrameBuffer.mk next.buffer) bound
    rw [shape, List.cons_append, reads_tile taken.unbroken last own] at read
    exact (reads_tiles others).mp read.2

theorem fits_of_reads {text : Text} (all : ∀ chunks : List Text, chunks.flatten = text → Reads ⟨[], maxBytes⟩ chunks) : Fits maxBytes text := by
  intro before block after same settled unbroken
  obtain ⟨front, rfl, reached⟩ := @reach maxBytes before settled
  have read := all (front ++ [block, after]) (by
    rw [List.flatten_append, same]
    simp only [List.flatten_cons, List.flatten_nil, List.append_nil, List.append_assoc])
  exact ((reads_unbroken unbroken).mp (reached _ read)).1

structure Fresh (front rest : Text) : Prop where
  starts : Starts front rest
  first : ∀ one two later, rest = one :: two :: later → isBreak one = true → isBreak two = true → front = []

theorem chunks_exist {text front rest : Text} (small : ¬ Oversized maxBytes text) (same : text = front ++ rest) (fresh : Fresh front rest) :
    ∃ chunks : List Text, chunks.flatten = rest ∧ Reads ⟨[], maxBytes⟩ chunks := by
  induction length : rest.length using Nat.strongRecOn generalizing front rest with
  | ind size ih =>
    obtain ⟨block, gap, later, rfl, unbroken, breaks, begins, ends⟩ := parts_exist rest
    have little : byteLength block ≤ maxBytes := by
      refine Nat.le_of_not_lt fun large => small ⟨front, block, gap ++ later, ?_, unbroken, fun char head => ?_, fun char last found => ?_, large⟩
      · rw [same]
        simp only [List.append_assoc]
      · apply fresh.starts
        rw [List.append_assoc, List.head?_append, head]
        rfl
      · rcases ends with ⟨rfl, rfl⟩ | ⟨_, ends⟩
        · rfl
        · rw [ends char last] at found
          cases found
    rcases ends with ⟨rfl, rfl⟩ | ⟨wide, ends⟩
    · refine ⟨[block], by simp, (reads_unbroken unbroken).mpr ⟨little, _, rfl⟩⟩
    have none : ending (front ++ block) = [] := by
      cases block with
      | cons char block => exact ending_ends (ends_append ends (List.cons_ne_nil _ _))
      | nil =>
        obtain ⟨one, two, others, rfl⟩ := two_of_length wide
        rw [fresh.first one two (others ++ later) rfl (breaks one List.mem_cons_self) (breaks two (List.mem_cons_of_mem _ List.mem_cons_self))]
        rfl
    have visible (one : Nat) (others : Text) (begun : later = one :: others) : isBreak one = false := begins one (by rw [begun]; rfl)
    -- the marks of the gap, and what the next chunks begin with
    have step (marks next : Text) (parts : gap ++ later = marks ++ next) (some : marks ≠ []) (tiledMarks : Tiled marks)
        (fresh : Fresh (front ++ block ++ marks) next) : ∃ chunks : List Text, chunks.flatten = block ++ gap ++ later ∧ Reads ⟨[], maxBytes⟩ chunks := by
      have shorter := congrArg List.length parts
      have positive := List.length_pos_iff.mpr some
      simp only [List.length_append] at shorter length
      obtain ⟨chunks, rfl, read⟩ := ih next.length (by omega) (by rw [same]; simp only [List.append_assoc, parts]) fresh rfl
      obtain ⟨tiles, rfl, each⟩ := tiledMarks
      refine ⟨block :: (tiles ++ chunks), ?_, (reads_unbroken unbroken).mpr ⟨little, ?_⟩⟩
      · rw [List.flatten_cons, List.flatten_append, List.append_assoc, parts]
      · cases tiles with
        | nil => exact absurd rfl some
        | cons tile tiles =>
          obtain ⟨own, others⟩ := List.forall_mem_cons.mp each
          exact (reads_tile unbroken ends own).mpr ⟨little, (reads_tiles others).mpr read⟩
    by_cases shape : gap.length % 2 = 0 ∨ HasCrLf gap
    · refine step gap later rfl ?_ (tiled breaks shape) ⟨fun char head found => ?_, fun one two others begun found _ => ?_⟩
      · rintro rfl
        cases wide
      · rw [begins char head] at found
        cases found
      · rw [visible one _ begun] at found
        cases found
    · rw [not_or] at shape
      obtain ⟨init, last, parts⟩ := List.eq_nil_or_concat gap |>.resolve_left (fun empty => shape.1 (by rw [empty]; rfl))
      rw [List.concat_eq_append] at parts
      subst parts
      obtain ⟨others, _⟩ := List.forall_mem_append.mp breaks
      have odd := shape.1
      simp only [List.length_append, List.length_cons, List.length_nil] at odd wide
      refine step init (last :: later) (List.append_assoc ..) ?_ (tiled_even others (by omega)) ⟨fun char head _ => ?_, fun one two rest begun _ found => ?_⟩
      · rintro rfl
        exact absurd wide (by decide)
      · obtain rfl : last = char := Option.some.inj head
        rw [List.append_assoc (front ++ block), ending_append _ breaks, none, List.nil_append]
        exact ⟨by omega, shape.2⟩
      · obtain ⟨_, begun⟩ := List.cons.inj begun
        rw [visible two _ begun] at found
        cases found

end Chunks

section Stream

variable {maxBytes : Nat} {text : Text}

theorem fresh_start (text : Text) : Fresh [] text := by
  refine ⟨fun char _ found => ?_, fun _ _ _ _ _ _ => rfl⟩
  have own : ending ([] ++ [char]) = [char] := by
    rw [ending_append [] fun _ member => List.mem_singleton.mp member ▸ found]
    rfl
  rw [own]
  refine ⟨rfl, fun pair => ?_⟩
  have longer := pair.length_le
  exact absurd longer (by simp)

theorem oversized_fails (large : Oversized maxBytes text) (chunks : List Text) (same : chunks.flatten = text) : ¬ Reads (.new maxBytes) chunks := by
  obtain ⟨before, block, after, parts, unbroken, starts, closes, large⟩ := large
  intro ⟨blocks, returned⟩
  have some : block ≠ [] := by
    rintro rfl
    exact absurd large (Nat.not_lt_zero maxBytes)
  have whole : [] ++ (SseFrameBuffer.new maxBytes).buffer ++ chunks.flatten = before ++ block ++ after := same.trans parts
  have small : byteLength block ≤ maxBytes := readStream_holds returned (Nat.zero_le _) (.inl rfl) unbroken starts closes some whole (Nat.zero_le _)
  omega

theorem error_of_not_reads {frames : SseFrameBuffer} {chunks : List Text} (fails : ¬ Reads frames chunks) :
    ∃ error, readStream frames chunks = .error error := by
  cases returned : readStream frames chunks with
  | error error => exact ⟨error, rfl⟩
  | ok blocks => exact absurd ⟨blocks, returned⟩ fails

theorem cases_of_framed (framed : Framed maxBytes text) : Oversized maxBytes text ∨ Fits maxBytes text ∧ ¬ Joined text := by
  rcases framed with fails | ⟨events, reads, runs⟩
  · refine .inl (Classical.byContradiction fun small => ?_)
    obtain ⟨chunks, same, blocks, returned⟩ := chunks_exist small rfl (fresh_start text)
    obtain ⟨error, wrong⟩ := fails chunks same
    cases returned.symm.trans wrong
  · refine .inr ⟨fits_of_reads fun chunks same => ?_, ?_⟩
    · obtain ⟨blocks, returned, _⟩ := reads chunks same
      exact ⟨blocks, returned⟩
    · obtain ⟨blocks, returned, shown⟩ := reads [text] List.flatten_singleton
      have all : blocks.flatMap filled = segments ([] ++ [text].flatten) := readStream_segments .nil returned
      rw [List.nil_append, List.flatten_singleton, shown] at all
      rw [← segments_runs, ← all, runs]

/-- A stream is read as its events for all chunks, or refused for all, exactly when some stretch is
too large in any case, or none is for any chunks and no CRLF stands alone between two lines. -/
theorem framed_iff (maxBytes : Nat) (text : Text) : Framed maxBytes text ↔ Oversized maxBytes text ∨ Fits maxBytes text ∧ ¬ Joined text := by
  refine ⟨cases_of_framed, ?_⟩
  rintro (large | ⟨fits, apart⟩)
  · exact .inl fun chunks same => error_of_not_reads (oversized_fails large chunks same)
  · refine .inr ⟨segments text, fun chunks same => ?_, (segments_runs text).mpr apart⟩
    subst same
    have whole : Fits (SseFrameBuffer.new maxBytes).maxBytes ([] ++ (SseFrameBuffer.new maxBytes).buffer ++ chunks.flatten) := fits
    obtain ⟨blocks, returned⟩ := readStream_fits (.inl rfl) whole
    exact ⟨blocks, returned, readStream_segments .nil returned⟩

/-- A CRLF between two lines of one event ends the event, and a block of exactly the allowed size is
read or refused, as the chunks stop. -/
theorem crlf_ends_block : ¬ Framed 64 (units "a\r\nb") ∧ ¬ Framed 2 (units "ab\n\nc") := by
  constructor
  · intro framed
    rcases cases_of_framed framed with ⟨before, block, after, same, _, _, _, large⟩ | ⟨_, apart⟩
    · have inside : block <:+: units "a\r\nb" := ⟨before, after, same.symm⟩
      have least := ToolCallRepair.byteLength_infix_le inside
      have whole : byteLength (units "a\r\nb") = 4 := rfl
      omega
    · exact apart ⟨[], unit 'a', unit 'b', [], rfl, rfl, rfl⟩
  · intro framed
    rcases cases_of_framed framed with large | ⟨fits, _⟩
    · have ends : Ends (units "ab") := by
        intro char last
        obtain rfl : unit 'b' = char := Option.some.inj last
        rfl
      refine oversized_fails large [units "ab", units "\n\n", units "c"] rfl ?_
      refine (reads_unbroken (by decide)).mpr ⟨by decide, ?_⟩
      refine (reads_tile (by decide) ends (tile_pair rfl rfl)).mpr ⟨by decide, ?_⟩
      exact (reads_unbroken (by decide)).mpr ⟨by decide, _, rfl⟩
    · exact absurd (fits [] (units "ab\n") (units "\nc") rfl (.inl rfl) (by decide)) (by decide)

end Stream

end AgentSaas.Proofs.SseFraming
