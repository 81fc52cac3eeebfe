import AgentSaas.ShellOutput

/-! What is kept of an output is a matter of its bytes, not of the chunks they came in; and where
only its ends are kept, each is cut between two characters. -/

namespace AgentSaas.Proofs.OutputWindows
open AgentSaas.ShellOutput CodePoints CacheSchema Utf8 JsonStrings
open ToolCallRepair (Text unit units)

theorem rdropWhile_continuations {front back : Bytes} (others : ∀ byte ∈ back, isContinuation byte = true) :
    (front ++ back).rdropWhile isContinuation = front.rdropWhile isContinuation := by
  induction back using List.reverseRecOn with
  | nil => rw [List.append_nil]
  | append_singleton back byte ih =>
    rw [← List.append_assoc, List.rdropWhile_concat_pos _ _ _ (others byte (by simp))]
    exact ih fun each member => others each (List.mem_append_left _ member)

theorem trimUtf8Prefix_front {front rest : Bytes} {first : Nat} (plain : isContinuation first = false)
    (others : ∀ byte ∈ rest, isContinuation byte = true) : trimUtf8Prefix (front ++ first :: rest) (front ++ first :: rest).length =
      if rest.length + 1 < width first then front else front ++ first :: rest := by
  have led : (front ++ first :: rest).rdropWhile isContinuation = front ++ [first] := by
    rw [← List.singleton_append, ← List.append_assoc, rdropWhile_continuations others]
    exact List.rdropWhile_concat_neg _ _ _ (by rw [plain]; exact Bool.false_ne_true)
  rw [trimUtf8Prefix, List.take_length, led, List.getLast?_concat]
  simp only [List.length_append, List.length_cons, List.length_nil, Nat.zero_add, Nat.add_sub_cancel, List.take_left, Nat.add_sub_cancel_left]

theorem trimUtf8Prefix_whole {characters : List Bytes} (framed : ∀ character ∈ characters, Framed character) :
    trimUtf8Prefix characters.flatten characters.flatten.length = characters.flatten := by
  rcases List.eq_nil_or_concat characters with rfl | ⟨earlier, last, rfl⟩
  · rfl
  · obtain ⟨first, rest, rfl, plain, others, whole⟩ := (framed last (by simp)).framed
    rw [List.concat_eq_append, List.flatten_append, List.flatten_singleton, trimUtf8Prefix_front plain others, if_neg]
    rw [← whole, List.length_cons]
    exact Nat.lt_irrefl _

theorem trimUtf8Prefix_take {buf : Bytes} {maxBytes : Nat} : trimUtf8Prefix buf maxBytes = trimUtf8Prefix (buf.take maxBytes) (buf.take maxBytes).length := by
  rw [trimUtf8Prefix, trimUtf8Prefix, List.take_length]

theorem trimUtf8Prefix_cut {characters : List Bytes} {front back : Bytes} (framed : ∀ character ∈ characters, Framed character)
    (cut : Cut characters front back) : ∃ whole later, characters = whole ++ later ∧ trimUtf8Prefix front front.length = whole.flatten ∧
      whole.flatten.length ≤ front.length ∧ front.length < whole.flatten.length + 4 := by
  cases cut with
  | between whole later all front_eq back_eq =>
    refine ⟨whole, later, all, ?_, by rw [front_eq], by rw [front_eq]; omega⟩
    rw [front_eq]
    exact trimUtf8Prefix_whole fun character member => framed character (by rw [all]; exact List.mem_append_left _ member)
  | inside whole later part last all filled more front_eq back_eq =>
    have character : Framed (part ++ last) := framed _ (by rw [all]; simp)
    obtain ⟨first, rest, rfl, plain, others, size⟩ := character.front filled
    have left := List.length_pos_iff.mpr more
    have short := character.length_le
    refine ⟨whole, _, all, ?_, ?_, ?_⟩
    · rw [front_eq, trimUtf8Prefix_front plain others, if_pos]
      rw [← size, List.length_cons]
      omega
    · rw [front_eq, List.length_append]
      omega
    · rw [List.length_append] at short
      rw [front_eq, List.length_append]
      omega

theorem dropWhile_cut {characters : List Bytes} {front back : Bytes} (framed : ∀ character ∈ characters, Framed character)
    (cut : Cut characters front back) : ∃ earlier whole, characters = earlier ++ whole ∧ back.dropWhile isContinuation = whole.flatten ∧
      whole.flatten.length ≤ back.length ∧ back.length < whole.flatten.length + 4 := by
  have opens : ∀ whole : List Bytes, (∀ character ∈ whole, Framed character) → whole.flatten.dropWhile isContinuation = whole.flatten := by
    intro whole each
    cases whole with
    | nil => rfl
    | cons character rest =>
      obtain ⟨first, others, rfl, plain, _⟩ := (each _ List.mem_cons_self).framed
      exact List.dropWhile_cons_of_neg (by rw [plain]; exact Bool.false_ne_true)
  cases cut with
  | between earlier whole all front_eq back_eq =>
    refine ⟨earlier, whole, all, ?_, by rw [back_eq], by rw [back_eq]; omega⟩
    rw [back_eq]
    exact opens whole fun character member => framed character (by rw [all]; exact List.mem_append_right _ member)
  | inside earlier later first last all filled more front_eq back_eq =>
    have character : Framed (first ++ last) := framed _ (by rw [all]; simp)
    have left := List.length_pos_iff.mpr filled
    have short := character.length_le
    refine ⟨earlier ++ [first ++ last], later, by rw [all]; simp, ?_, ?_, ?_⟩
    · rw [back_eq, List.dropWhile_append_of_pos (character.back filled)]
      exact opens later fun character member => framed character (by rw [all]; simp [member])
    · rw [back_eq, List.length_append]
      omega
    · rw [List.length_append] at short
      rw [back_eq, List.length_append]
      omega

section Feeding

variable {state : ShellChannelAccumulator} {stream : Bytes}

def Long (stream : Bytes) : Prop := MAX_SHELL_HEAD_BYTES + MAX_SHELL_TAIL_BYTES < stream.length

instance : Decidable (Long stream) := inferInstanceAs (Decidable (_ < _))

def endsLine (stream : Bytes) : Bool := stream.getLast?.all (· = 0x0A)

structure Kept (channel spillBaseName : Text) (stream : Bytes) (state : ShellChannelAccumulator) : Prop where
  channel : state.channel = channel
  spillBaseName : state.spillBaseName = spillBaseName
  totalBytes : state.totalBytes = stream.length
  newlines : state.newlines = stream.count 0x0A
  endsWithNewline : state.endsWithNewline = endsLine stream
  headBuf : state.headBuf = stream.take MAX_SHELL_HEAD_BYTES
  tailBuf : state.tailBuf = stream.drop (stream.length - MAX_SHELL_TAIL_BYTES * 2)
  quotaExceeded : state.quotaExceeded = false
  spilled : state.spilled = decide (Long stream)
  fullBuf : state.fullBuf = if Long stream then [] else stream
  hashed : state.hashed = if Long stream then stream else []
  spillWrites : state.spillWrites.flatten = if Long stream then stream else []

theorem kept_new (channel spillBaseName : Text) : Kept channel spillBaseName [] (.new channel spillBaseName) :=
  ⟨rfl, rfl, rfl, rfl, rfl, rfl, rfl, rfl, rfl, rfl, rfl, rfl⟩

theorem countNewlines_eq (chunk : Bytes) : state.countNewlines chunk =
    { state with
      newlines := state.newlines + chunk.count 0x0A
      endsWithNewline := if chunk = [] then state.endsWithNewline else endsLine chunk } := by
  rcases List.eq_nil_or_concat chunk with rfl | ⟨earlier, last, rfl⟩
  · rfl
  · rw [List.concat_eq_append, if_neg (by simp), endsLine, ShellChannelAccumulator.countNewlines, List.getLast?_concat]
    rfl

theorem captureHead_eq (chunk : Bytes) (short : state.headBuf.length ≤ MAX_SHELL_HEAD_BYTES) :
    state.captureHead chunk = { state with headBuf := (state.headBuf ++ chunk).take MAX_SHELL_HEAD_BYTES } := by
  unfold ShellChannelAccumulator.captureHead
  split
  next full =>
    rw [List.take_append_of_le_length full, List.take_of_length_le short]
  next more => rw [List.take_append, List.take_of_length_le short]

theorem rollTail_eq (chunk : Bytes) : state.rollTail chunk =
    { state with tailBuf := (state.tailBuf ++ chunk).drop ((state.tailBuf ++ chunk).length - MAX_SHELL_TAIL_BYTES * 2) } := by
  unfold ShellChannelAccumulator.rollTail
  dsimp only
  split
  · rfl
  next short => rw [Nat.sub_eq_zero_of_le (Nat.le_of_not_lt short), List.drop_zero]

theorem endsLine_append (stream chunk : Bytes) : endsLine (stream ++ chunk) = if chunk = [] then endsLine stream else endsLine chunk := by
  rcases List.eq_nil_or_concat chunk with rfl | ⟨earlier, last, rfl⟩
  · rw [List.append_nil, if_pos rfl]
  · rw [List.concat_eq_append, if_neg (by simp), endsLine, endsLine, ← List.append_assoc, List.getLast?_concat, List.getLast?_concat]

theorem drop_window (stream chunk : Bytes) (limit : Nat) :
    (stream.drop (stream.length - limit) ++ chunk).drop ((stream.drop (stream.length - limit) ++ chunk).length - limit) =
      (stream ++ chunk).drop ((stream ++ chunk).length - limit) := by
  rw [← List.drop_append_of_le_length (Nat.sub_le _ _), List.drop_drop, List.length_drop, List.length_append]
  congr 1
  omega

theorem long_append {chunk : Bytes} (long : Long stream) : Long (stream ++ chunk) := by
  unfold Long at *
  rw [List.length_append]
  omega

theorem store_kept (state : ShellChannelAccumulator) (stream chunk : Bytes) (total : state.totalBytes = (stream ++ chunk).length)
    (spilled : state.spilled = decide (Long stream)) (fullBuf : state.fullBuf = if Long stream then [] else stream)
    (hashed : state.hashed = if Long stream then stream else []) (spillWrites : state.spillWrites.flatten = if Long stream then stream else []) :
    ∃ writes, writes.flatten = (if Long (stream ++ chunk) then stream ++ chunk else []) ∧ state.store chunk =
      { state with
        spilled := decide (Long (stream ++ chunk))
        fullBuf := if Long (stream ++ chunk) then [] else stream ++ chunk
        hashed := if Long (stream ++ chunk) then stream ++ chunk else []
        spillWrites := writes } := by
  unfold ShellChannelAccumulator.store
  by_cases long : Long stream
  · have longer : Long (stream ++ chunk) := long_append long
    rw [decide_eq_true long] at spilled
    rw [if_pos long] at fullBuf hashed spillWrites
    refine ⟨state.spillWrites ++ [chunk], by rw [List.flatten_append, spillWrites, List.flatten_singleton, if_pos longer], ?_⟩
    simp only [ShellChannelAccumulator.appendSpill, spilled, fullBuf, hashed, longer, decide_true, Bool.not_true, Bool.false_eq_true, if_false,
      if_true]
  · simp only [spilled, long, decide_false, Bool.not_false, if_true, if_false] at *
    by_cases longer : Long (stream ++ chunk)
    · have beyond : state.totalBytes > MAX_SHELL_HEAD_BYTES + MAX_SHELL_TAIL_BYTES := by rw [total]; exact longer
      simp only [longer, beyond, decide_true, if_true] at *
      refine ⟨state.spillWrites ++ [stream ++ chunk], by rw [List.flatten_append, spillWrites, List.flatten_singleton, List.nil_append], ?_⟩
      simp only [ShellChannelAccumulator.beginSpill, fullBuf, hashed, List.nil_append]
    · have within : ¬ state.totalBytes > MAX_SHELL_HEAD_BYTES + MAX_SHELL_TAIL_BYTES := by rw [total]; exact longer
      simp only [longer, within, decide_false, if_false] at *
      exact ⟨state.spillWrites, spillWrites, by simp only [fullBuf, hashed]⟩

theorem gathered (chunk : Bytes) (short : state.headBuf.length ≤ MAX_SHELL_HEAD_BYTES) :
    (((({ state with totalBytes := state.totalBytes + chunk.length } : ShellChannelAccumulator).countNewlines chunk).captureHead
      chunk).rollTail chunk) =
      { state with
        totalBytes := state.totalBytes + chunk.length
        newlines := state.newlines + chunk.count 0x0A
        endsWithNewline := if chunk = [] then state.endsWithNewline else endsLine chunk
        headBuf := (state.headBuf ++ chunk).take MAX_SHELL_HEAD_BYTES
        tailBuf := (state.tailBuf ++ chunk).drop ((state.tailBuf ++ chunk).length - MAX_SHELL_TAIL_BYTES * 2) } := by
  rw [countNewlines_eq, captureHead_eq chunk (by exact short), rollTail_eq]

theorem Kept.feed {channel spillBaseName : Text} {chunk : Bytes} (kept : Kept channel spillBaseName stream state)
    (within : (stream ++ chunk).length ≤ MAX_SHELL_SPILL_BYTES) : Kept channel spillBaseName (stream ++ chunk) (state.feed chunk) := by
  have total : state.totalBytes + chunk.length = (stream ++ chunk).length := by rw [kept.totalBytes, List.length_append]
  have short : state.headBuf.length ≤ MAX_SHELL_HEAD_BYTES := by
    rw [kept.headBuf]
    exact List.length_take_le _ _
  unfold ShellChannelAccumulator.feed
  rw [if_neg (by rw [kept.quotaExceeded]; exact Bool.false_ne_true)]
  dsimp only
  rw [gathered chunk short]
  generalize same : ({ state with
    totalBytes := state.totalBytes + chunk.length
    newlines := state.newlines + chunk.count 0x0A
    endsWithNewline := if chunk = [] then state.endsWithNewline else endsLine chunk
    headBuf := (state.headBuf ++ chunk).take MAX_SHELL_HEAD_BYTES
    tailBuf := (state.tailBuf ++ chunk).drop ((state.tailBuf ++ chunk).length - MAX_SHELL_TAIL_BYTES * 2) } :
      ShellChannelAccumulator) = next
  obtain ⟨writes, whole, stored⟩ := store_kept next stream chunk (by rw [← same]; exact total)
    (by rw [← same]; exact kept.spilled) (by rw [← same]; exact kept.fullBuf) (by rw [← same]; exact kept.hashed)
    (by rw [← same]; exact kept.spillWrites)
  rw [stored, if_neg (by rw [← same]; change ¬ state.totalBytes + chunk.length > _; rw [total]; exact Nat.not_lt.mpr within)]
  subst same
  refine ⟨kept.channel, kept.spillBaseName, total, ?_, ?_, ?_, ?_, kept.quotaExceeded, rfl, rfl, rfl, whole⟩
  · dsimp only
    rw [kept.newlines, List.count_append]
  · dsimp only
    rw [kept.endsWithNewline, endsLine_append]
  · dsimp only
    rw [kept.headBuf, List.take_append, List.take_append, List.take_take, Nat.min_self, List.length_take]
    congr 2
    omega
  · dsimp only
    rw [kept.tailBuf, drop_window]

theorem kept_fed {channel spillBaseName : Text} (chunks : List Bytes) (kept : Kept channel spillBaseName stream state)
    (within : (stream ++ chunks.flatten).length ≤ MAX_SHELL_SPILL_BYTES) :
    Kept channel spillBaseName (stream ++ chunks.flatten) (chunks.foldl ShellChannelAccumulator.feed state) := by
  induction chunks generalizing stream state with
  | nil => rw [List.flatten_nil, List.append_nil]; exact kept
  | cons chunk rest ih =>
    rw [List.flatten_cons, ← List.append_assoc] at within ⊢
    apply ih (kept.feed _) within
    rw [List.length_append] at within
    omega

end Feeding

section Files

variable {disk : Disk} {state : SpillState}

theorem recordSpillError_some (error : Text) : (state.recordSpillError error).spillError ≠ none := by
  unfold SpillState.recordSpillError
  split
  next some => exact Option.isSome_iff_ne_none.mp some
  next => simp

theorem writeRest_file (rest : Bytes) (clean : (SpillState.writeRest disk state rest).spillError = none) :
    state.spillError = none ∧ (SpillState.writeRest disk state rest).file = state.file ++ rest := by
  induction length : rest.length using Nat.strongRecOn generalizing state rest with
  | ind size ih =>
    rw [SpillState.writeRest] at clean ⊢
    split at clean
    next empty =>
      rw [if_pos empty, empty, List.append_nil]
      exact ⟨clean, rfl⟩
    next filled =>
      rw [if_neg filled]
      cases answer : disk.writing state.writes with
      | error error =>
        rw [answer] at clean
        exact absurd clean (recordSpillError_some error)
      | ok bytesWritten =>
        rw [answer] at clean
        dsimp only at clean ⊢
        split at clean
        next => exact absurd clean (recordSpillError_some _)
        next progress =>
          have some := List.length_pos_iff.mpr filled
          obtain ⟨before, written⟩ := ih (rest.drop bytesWritten).length (by rw [List.length_drop]; omega) _ clean rfl
          rw [if_neg progress, written]
          exact ⟨before, by rw [List.append_assoc, List.take_append_drop]⟩

theorem writeToFile_file (chunk : Bytes) (clean : (SpillState.writeToFile disk state chunk).spillError = none) :
    state.spillError = none ∧ (SpillState.writeToFile disk state chunk).file = state.file ++ chunk := by
  unfold SpillState.writeToFile at clean ⊢
  split at clean
  next => exact absurd clean (recordSpillError_some _)
  next ready =>
    rw [if_neg ready]
    exact writeRest_file chunk clean

theorem writes_file (chunks : List Bytes) (clean : (chunks.foldl (SpillState.writeToFile disk) state).spillError = none) :
    state.spillError = none ∧ (chunks.foldl (SpillState.writeToFile disk) state).file = state.file ++ chunks.flatten := by
  induction chunks generalizing state with
  | nil => exact ⟨clean, (List.append_nil _).symm⟩
  | cons chunk rest ih =>
    obtain ⟨between, later⟩ := ih clean
    obtain ⟨before, written⟩ := writeToFile_file chunk between
    refine ⟨before, later.trans ?_⟩
    rw [written, List.flatten_cons, List.append_assoc]

theorem runWrites_file (chunks : List Bytes) (clean : (SpillState.runWrites disk chunks).spillError = none) :
    (SpillState.runWrites disk chunks).file = chunks.flatten := by
  cases chunks with
  | nil => rfl
  | cons first rest =>
    obtain ⟨between, later⟩ := writes_file rest clean
    refine later.trans ?_
    unfold SpillState.openAndWrite at between ⊢
    cases opening : disk.opening with
    | error error =>
      rw [opening] at between
      exact absurd between (recordSpillError_some error)
    | ok =>
      rw [opening] at between
      exact congrArg (· ++ rest.flatten) (writeToFile_file first between).2

theorem recordSpillError_file (error : Text) : (state.recordSpillError error).file = state.file := by
  unfold SpillState.recordSpillError
  split <;> rfl

theorem verify_file (disk : Disk) (state : SpillState) : (state.verify disk).file = state.file ∧ ((state.verify disk).spillError = none → state.spillError = none) := by
  unfold SpillState.verify
  split
  · exact ⟨rfl, fun clean => clean⟩
  · split
    next error _ => exact ⟨recordSpillError_file error, fun clean => absurd clean (recordSpillError_some error)⟩
    next => exact ⟨rfl, fun clean => clean⟩

theorem close_file (disk : Disk) (state : SpillState) : (state.close disk).file = state.file ∧ ((state.close disk).spillError = none → state.spillError = none) := by
  unfold SpillState.close
  split
  next error _ => exact ⟨recordSpillError_file error, fun clean => absurd clean (recordSpillError_some error)⟩
  next => exact ⟨rfl, fun clean => clean⟩

theorem closeAndVerify_file (disk : Disk) (state : SpillState) : (state.closeAndVerifySpillFile disk).file = state.file ∧
    ((state.closeAndVerifySpillFile disk).spillError = none → state.spillError = none) := by
  unfold SpillState.closeAndVerifySpillFile
  split
  · exact ⟨rfl, fun clean => clean⟩
  · have verified := verify_file disk { state with opened := false }
    have closed := close_file disk (({ state with opened := false } : SpillState).verify disk)
    exact ⟨closed.1.trans verified.1, fun clean => verified.2 (closed.2 clean)⟩

end Files

def lineCount (stream : Bytes) : Nat := stream.count 0x0A + if endsLine stream then 0 else 1

/-- The two ends of a text, each of whole characters and as long as it may be, and how many bytes
stand between them. -/
def Windowed (text content : Text) : Prop :=
  ∃ head middle tail : Text, head ++ middle ++ tail = text ∧ WellFormed head ∧ WellFormed tail ∧
    encode head ++ encode middle ++ encode tail = encode text ∧ content = windowText head tail (encode middle).length ∧
    (encode head).length ≤ MAX_SHELL_HEAD_BYTES ∧ MAX_SHELL_HEAD_BYTES < (encode head).length + 4 ∧
    (encode tail).length ≤ MAX_SHELL_TAIL_BYTES ∧ MAX_SHELL_TAIL_BYTES < (encode tail).length + 4

section Reports

variable {channel spillBaseName text : Text} {state : ShellChannelAccumulator}

theorem characters_framed (formed : WellFormed text) : ∀ character ∈ (codePoints text).map utf8Point, Framed character := by
  intro character member
  obtain ⟨point, inside, rfl⟩ := List.mem_map.mp member
  exact framed_point (formed point inside)

theorem characters_flatten (text : Text) : ((codePoints text).map utf8Point).flatten = encode text := rfl

theorem between_parts {α : Type} {lists front back first last : List (List α)} (one : lists = first ++ back) (two : lists = front ++ last)
    (short : first.flatten.length + last.flatten.length < lists.flatten.length) : ∃ middle, lists = first ++ middle ++ last := by
  rcases List.append_eq_append_iff.mp (one.symm.trans two) with ⟨middle, same, _⟩ | ⟨middle, same, _⟩
  · exact ⟨middle, by rw [two, same]⟩
  · have whole : lists.flatten.length = front.flatten.length + last.flatten.length := by
      rw [two, List.flatten_append, List.length_append]
    have part : first.flatten.length = front.flatten.length + middle.flatten.length := by
      rw [same, List.flatten_append, List.length_append]
    omega

theorem part_of_points (front part back : List (List Nat)) (formed : WellFormed text) (parts : codePoints text = front ++ part ++ back) :
    WellFormed part.flatten ∧ encode part.flatten = part.flatMap utf8Point ∧ decode (part.flatMap utf8Point) = part.flatten := by
  have own : codePoints part.flatten = part := by
    have shorter := (codePoints_split parts).1
    exact (codePoints_split shorter).2
  have scalars : ∀ point ∈ part, Scalar point := fun point member => formed point (by rw [parts]; simp [member])
  exact ⟨by rw [WellFormed, own]; exact scalars, by rw [encode, own], decode_points scalars⟩

theorem renderWindow_windowed (formed : WellFormed text) (long : Long (encode text)) (kept : Kept channel spillBaseName (encode text) state) :
    Windowed text state.renderWindow := by
  have framed := characters_framed formed
  have whole := characters_flatten text
  unfold Long at long
  -- The head and the tail, as characters.
  obtain ⟨heads, back, one, trimmed, headLimit, headSize⟩ := trimUtf8Prefix_cut framed (cut _ MAX_SHELL_HEAD_BYTES)
  obtain ⟨front, tails, two, dropped, tailLimit, tailSize⟩ := dropWhile_cut framed (cut _ ((encode text).length - MAX_SHELL_TAIL_BYTES))
  rw [whole] at trimmed headLimit headSize dropped tailLimit tailSize
  rw [List.length_take] at headLimit headSize
  rw [List.length_drop] at tailLimit tailSize
  obtain ⟨middles, parts⟩ := between_parts one two (by rw [whole]; omega)
  obtain ⟨points, last, split, front_eq, last_eq⟩ := List.map_eq_append_iff.mp parts
  obtain ⟨first, middle, rfl, first_eq, middle_eq⟩ := List.map_eq_append_iff.mp front_eq
  have firstPart := part_of_points [] first (middle ++ last) formed (by rw [split, List.append_assoc]; rfl)
  have middlePart := part_of_points first middle last formed split
  have lastPart := part_of_points (first ++ middle) last [] formed (by rw [split, List.append_nil])
  have firstBytes : encode first.flatten = heads.flatten := by rw [firstPart.2.1, ← first_eq]; rfl
  have lastBytes : encode last.flatten = tails.flatten := by rw [lastPart.2.1, ← last_eq]; rfl
  have all : encode first.flatten ++ encode middle.flatten ++ encode last.flatten = encode text := by
    rw [firstPart.2.1, middlePart.2.1, lastPart.2.1, ← List.flatMap_append, ← List.flatMap_append, ← split]
    rfl
  have headText : decode (trimUtf8Prefix state.headBuf MAX_SHELL_HEAD_BYTES) = first.flatten := by
    rw [kept.headBuf, trimUtf8Prefix_take, List.take_take, Nat.min_self, trimmed, ← firstBytes, firstPart.2.1]
    exact firstPart.2.2
  have tailBytes : trimToUtf8 state.tailBuf MAX_SHELL_TAIL_BYTES = tails.flatten := by
    have positive : 0 < MAX_SHELL_TAIL_BYTES := by decide
    have start : (encode text).length - MAX_SHELL_TAIL_BYTES * 2 +
        ((encode text).length - ((encode text).length - MAX_SHELL_TAIL_BYTES * 2) - MAX_SHELL_TAIL_BYTES) =
          (encode text).length - MAX_SHELL_TAIL_BYTES := by omega
    rw [kept.tailBuf, trimToUtf8, List.length_drop, if_neg (by omega), List.drop_drop, start, dropped]
  have tailText : decode (trimUtf8Prefix tails.flatten tails.flatten.length) = last.flatten := by
    rw [trimUtf8Prefix_whole fun character member => framed character (by rw [two]; exact List.mem_append_right _ member), ← lastBytes, lastPart.2.1]
    exact lastPart.2.2
  have total := congrArg List.length all
  rw [List.length_append, List.length_append] at total
  refine ⟨first.flatten, middle.flatten, last.flatten, ?_, firstPart.1, lastPart.1, all, ?_, ?_, ?_, ?_, ?_⟩
  · rw [← List.flatten_append, ← List.flatten_append, ← split, flatten_codePoints]
  · have omitted : (encode text).length - ((encode first.flatten).length + (encode last.flatten).length) = (encode middle.flatten).length := by
      omega
    rw [ShellChannelAccumulator.renderWindow, headText, tailBytes, tailText, kept.totalBytes, omitted]
  all_goals
    first | rw [firstBytes] | rw [lastBytes]
    omega

/-- What is reported of a text that came in some chunks, and what is in the file. -/
structure Faithful (channel spillBaseName : Text) (digest : Bytes → Text) (text : Text) (state : ShellChannelAccumulator) (report : Report)
    (spill : SpillState) : Prop where
  totalBytes : report.totalBytes = (encode text).length
  lines : report.lines = lineCount (encode text)
  whole : ¬ Long (encode text) → report.content = text
  windowed : Long (encode text) → Windowed text report.content
  truncatedToWindow : report.truncatedToWindow = decide (Long (encode text))
  quotaExceeded : report.quotaExceeded = false
  spilled : state.spillWrites.flatten = if Long (encode text) then encode text else []
  file : Long (encode text) → report.spillError = none → spill.file = encode text ∧
    report.spillFile = some ⟨channel, state.spillRelPath, (encode text).length, digest (encode text)⟩

theorem Kept.faithful (formed : WellFormed text) (kept : Kept channel spillBaseName (encode text) state) (disk : Disk) (digest : Bytes → Text) :
    Faithful channel spillBaseName digest text state (state.finalize disk digest).1 (state.finalize disk digest).2 := by
  have kind := kept.spilled
  refine ⟨kept.totalBytes, ?_, ?_, ?_, kind, kept.quotaExceeded, kept.spillWrites, ?_⟩
  · change (if state.totalBytes = 0 then 0 else if state.endsWithNewline = true then state.newlines else state.newlines + 1) = _
    rw [kept.totalBytes, kept.endsWithNewline, kept.newlines, lineCount]
    split
    next empty =>
      rw [List.length_eq_zero_iff.mp empty]
      rfl
    · split
      · rfl
      · rfl
  · intro short
    rw [decide_eq_false short] at kind
    simp only [ShellChannelAccumulator.finalize, kind, Bool.false_eq_true, if_false]
    rw [kept.fullBuf, if_neg short, decode_encode formed]
  · intro long
    rw [decide_eq_true long] at kind
    simp only [ShellChannelAccumulator.finalize, kind, if_true]
    exact renderWindow_windowed formed long kept
  · intro long clean
    rw [decide_eq_true long] at kind
    simp only [ShellChannelAccumulator.finalize, kind, if_true] at clean ⊢
    have closed := closeAndVerify_file disk (SpillState.runWrites disk state.spillWrites)
    refine ⟨?_, ?_⟩
    · rw [closed.1, runWrites_file _ (closed.2 clean), kept.spillWrites, if_pos long]
    · rw [clean, kept.channel, kept.totalBytes, kept.hashed, if_pos long]
      rfl

/-- The same bytes give the same report, whatever chunks they came in, and it is faithful to them. -/
theorem chunks_irrelevant {text : Text} (formed : WellFormed text) (within : (encode text).length ≤ MAX_SHELL_SPILL_BYTES)
    (channel spillBaseName : Text) (digest : Bytes → Text) (disk other : Disk) {chunks others : List Bytes} (whole : chunks.flatten = encode text)
    (again : others.flatten = encode text) :
    let state := chunks.foldl ShellChannelAccumulator.feed (.new channel spillBaseName)
    let report := (state.finalize disk digest).1
    let second := ((others.foldl ShellChannelAccumulator.feed (.new channel spillBaseName)).finalize other digest).1
    Faithful channel spillBaseName digest text state report (state.finalize disk digest).2 ∧
      report.lines = second.lines ∧ report.totalBytes = second.totalBytes ∧ report.content = second.content := by
  have one := kept_fed chunks (kept_new channel spillBaseName) (by rw [List.nil_append, whole]; exact within)
  have two := kept_fed others (kept_new channel spillBaseName) (by rw [List.nil_append, again]; exact within)
  rw [List.nil_append, whole] at one
  rw [List.nil_append, again] at two
  refine ⟨one.faithful formed disk digest, ?_, ?_, ?_⟩
  · rw [(one.faithful formed disk digest).lines, (two.faithful formed other digest).lines]
  · rw [(one.faithful formed disk digest).totalBytes, (two.faithful formed other digest).totalBytes]
  · simp only [ShellChannelAccumulator.finalize, ShellChannelAccumulator.renderWindow, one.spilled, two.spilled, one.headBuf, two.headBuf,
      one.tailBuf, two.tailBuf, one.totalBytes, two.totalBytes, one.fullBuf, two.fullBuf]

theorem split_character_reported :
    let state := [[0xC3], [0xA9, 0x0A]].foldl ShellChannelAccumulator.feed (.new (units "stdout") (units "run"))
    let report := (state.finalize ⟨.ok (), fun _ => .ok 1, .ok (), .ok ()⟩ id).1
    let second := (([[0xC3, 0xA9], [0x0A]].foldl ShellChannelAccumulator.feed (.new (units "stdout") (units "run"))).finalize
      ⟨.ok (), fun _ => .ok 1, .ok (), .ok ()⟩ id).1
    Faithful (units "stdout") (units "run") id [0xE9, 0x0A] state report (state.finalize ⟨.ok (), fun _ => .ok 1, .ok (), .ok ()⟩ id).2 ∧
      report.lines = second.lines ∧ report.totalBytes = second.totalBytes ∧ report.content = second.content := by
  have formed : WellFormed [0xE9, 0x0A] := by
    intro point member
    rcases List.mem_cons.mp member with rfl | member
    · exact .plain (by decide) rfl rfl
    · rw [List.mem_singleton.mp member]
      exact .plain (by decide) rfl rfl
  have bytes : encode [0xE9, 0x0A] = [0xC3, 0xA9, 0x0A] := rfl
  refine chunks_irrelevant formed ?_ _ _ id _ _ bytes.symm bytes.symm
  rw [bytes, MAX_SHELL_SPILL_BYTES]
  simp only [List.length_cons, List.length_nil]
  omega

end Reports

end AgentSaas.Proofs.OutputWindows
