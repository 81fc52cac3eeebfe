import AgentSaas.EventLines

/-! Blocks of a stream of events. Two line breaks end a block; an end of a line may be CRLF, CR or
LF, and a chunk may stop anywhere. -/

namespace AgentSaas.SseFraming
open EventLines (CR LF)
open ToolCallRepair (Text byteLength)

structure ResponsesStreamError where
  outcome : String
  code : String
  message : String
  deriving DecidableEq, Repr

/-- `\r\n|\r|\n`: what is behind each alternative that matches here, in the order they are tried. -/
def lineBreak (text : Text) : List Text :=
  (if text.take 2 = [CR, LF] then [text.drop 2] else []) ++
    ((if text.head? = some CR then [text.tail] else []) ++ if text.head? = some LF then [text.tail] else [])

/-- The second break may call for another alternative of the first. -/
def boundaryHere (text : Text) : Option Text := ((lineBreak text).flatMap lineBreak).head?

/-- What is before the first boundary, and behind it. -/
def boundary : Text → Option (Text × Text)
  | [] => none
  | char :: rest =>
    match boundaryHere (char :: rest) with
    | some behind => some ([], behind)
    | none => (boundary rest).map fun (block, behind) => (char :: block, behind)

theorem lineBreak_length {text behind : Text} (found : behind ∈ lineBreak text) : behind.length < text.length := by
  unfold lineBreak at found
  cases text with
  | nil => simp at found
  | cons char rest =>
    have lengths : ((char :: rest).drop 2).length < (char :: rest).length := by
      rw [List.length_drop, List.length_cons]
      omega
    have step : rest.length < (char :: rest).length := Nat.lt_succ_self _
    rcases List.mem_append.mp found with found | found
    · split at found
      · rw [List.mem_singleton.mp found]
        exact lengths
      · cases found
    · rcases List.mem_append.mp found with found | found
      all_goals
        split at found
        · rw [List.mem_singleton.mp found]
          exact step
        · cases found

theorem boundaryHere_length {text behind : Text} (found : boundaryHere text = some behind) : behind.length < text.length := by
  obtain ⟨first, listed, second⟩ := List.mem_flatMap.mp (List.mem_of_head? found)
  have outer := lineBreak_length listed
  have inner := lineBreak_length second
  omega

theorem boundary_length {text block behind : Text} (found : boundary text = some (block, behind)) : behind.length < text.length := by
  induction text generalizing block with
  | nil => cases found
  | cons char rest ih =>
    unfold boundary at found
    split at found
    next here =>
      cases found
      exact boundaryHere_length here
    next =>
      obtain ⟨⟨inner, rest⟩, later, same⟩ := Option.map_eq_some_iff.mp found
      cases same
      exact Nat.lt_succ_of_lt (ih later)

structure SseFrameBuffer where
  buffer : Text
  maxBytes : Nat

def SseFrameBuffer.new (maxBytes : Nat) : SseFrameBuffer := ⟨[], maxBytes⟩

def tooLarge (maxBytes : Nat) : ResponsesStreamError :=
  ⟨"parse_error", "MODEL_SSE_FRAME_TOO_LARGE", s!"[MODEL_SSE_FRAME_TOO_LARGE] Responses SSE frame exceeded {maxBytes} bytes"⟩

/-- The loop of `push`: the blocks, and what is left in the buffer. -/
def takeBlocks (maxBytes : Nat) (buffer : Text) : Except ResponsesStreamError (List Text × Text) :=
  match _found : boundary buffer with
  | none => return ([], buffer)
  | some (block, behind) =>
    if byteLength block > maxBytes then throw (tooLarge maxBytes)
    else do
      let (blocks, left) ← takeBlocks maxBytes behind
      return (block :: blocks, left)
termination_by buffer.length
decreasing_by exact boundary_length _found

def push (frames : SseFrameBuffer) (chunk : Text) : Except ResponsesStreamError (List Text × SseFrameBuffer) := do
  let (blocks, buffer) ← takeBlocks frames.maxBytes (frames.buffer ++ chunk)
  if byteLength buffer > frames.maxBytes then throw (tooLarge frames.maxBytes)
  else return (blocks, { frames with buffer := buffer })

def finish (frames : SseFrameBuffer) : Text × SseFrameBuffer := (frames.buffer, { frames with buffer := [] })

def readStream (frames : SseFrameBuffer) : List Text → Except ResponsesStreamError (List Text)
  | [] => return [(finish frames).1]
  | chunk :: rest => do
    let (blocks, next) ← push frames chunk
    return blocks ++ (← readStream next rest)

end AgentSaas.SseFraming
