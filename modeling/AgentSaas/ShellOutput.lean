import AgentSaas.Utf8

/-! The output of a shell command, chunk by chunk. What is kept of it is its beginning and its end,
and all of it goes to a file when it is long. -/

namespace AgentSaas.ShellOutput
open CacheSchema Utf8 JsonStrings
open ToolCallRepair (Text unit units)

abbrev Bytes := List Nat

def MAX_SHELL_HEAD_BYTES := 8 * 1024
def MAX_SHELL_TAIL_BYTES := 20 * 1024
def MAX_SHELL_SPILL_BYTES := 512 * 1024 * 1024
def SHELL_OUTPUT_DIR := units "tmp/tool-results"

/-- Of `spillWrites` the first one opens the file. -/
structure ShellChannelAccumulator where
  channel : Text
  spillBaseName : Text
  totalBytes : Nat
  newlines : Nat
  endsWithNewline : Bool
  fullBuf : Bytes
  spilled : Bool
  hashed : Bytes
  spillWrites : List Bytes
  headBuf : Bytes
  tailBuf : Bytes
  quotaExceeded : Bool
  deriving DecidableEq, Repr

namespace ShellChannelAccumulator

def new (channel spillBaseName : Text) : ShellChannelAccumulator :=
  ⟨channel, spillBaseName, 0, 0, true, [], false, [], [], [], [], false⟩

def spillRelPath (self : ShellChannelAccumulator) : Text :=
  SHELL_OUTPUT_DIR ++ units "/" ++ self.spillBaseName ++ units "-" ++ self.channel ++ units ".txt"

def countNewlines (self : ShellChannelAccumulator) (chunk : Bytes) : ShellChannelAccumulator :=
  match chunk.getLast? with
  | none => self
  | some last => { self with newlines := self.newlines + chunk.count 0x0A, endsWithNewline := last = 0x0A }

def captureHead (self : ShellChannelAccumulator) (chunk : Bytes) : ShellChannelAccumulator :=
  if self.headBuf.length ≥ MAX_SHELL_HEAD_BYTES then self
  else
    let need := MAX_SHELL_HEAD_BYTES - self.headBuf.length
    { self with headBuf := self.headBuf ++ chunk.take need }

def rollTail (self : ShellChannelAccumulator) (chunk : Bytes) : ShellChannelAccumulator :=
  let combined := self.tailBuf ++ chunk
  let limit := MAX_SHELL_TAIL_BYTES * 2
  { self with tailBuf := if combined.length > limit then combined.drop (combined.length - limit) else combined }

def beginSpill (self : ShellChannelAccumulator) : ShellChannelAccumulator :=
  { self with spilled := true, fullBuf := [], hashed := self.hashed ++ self.fullBuf, spillWrites := self.spillWrites ++ [self.fullBuf] }

def appendSpill (self : ShellChannelAccumulator) (chunk : Bytes) : ShellChannelAccumulator :=
  { self with hashed := self.hashed ++ chunk, spillWrites := self.spillWrites ++ [chunk] }

/-- The chunk is kept, or it goes to the file. -/
def store (self : ShellChannelAccumulator) (chunk : Bytes) : ShellChannelAccumulator :=
  if !self.spilled then
    let self := { self with fullBuf := self.fullBuf ++ chunk }
    if self.totalBytes > MAX_SHELL_HEAD_BYTES + MAX_SHELL_TAIL_BYTES then self.beginSpill else self
  else self.appendSpill chunk

def feed (self : ShellChannelAccumulator) (chunk : Bytes) : ShellChannelAccumulator :=
  if self.quotaExceeded then self
  else
    let self := { self with totalBytes := self.totalBytes + chunk.length }
    let self := (((self.countNewlines chunk).captureHead chunk).rollTail chunk).store chunk
    if self.totalBytes > MAX_SHELL_SPILL_BYTES then { self with quotaExceeded := true } else self

end ShellChannelAccumulator

/-- What the system answers: to the opening of the file, to each write in turn, to the check at the
end, and to the closing. -/
structure Disk where
  opening : Except Text Unit
  writing : Nat → Except Text Nat
  verifying : Except Text Unit
  closing : Except Text Unit

structure SpillState where
  opened : Bool
  file : Bytes
  writes : Nat
  spillError : Option Text
  deriving DecidableEq, Repr

namespace SpillState

def initial : SpillState := ⟨false, [], 0, none⟩

def recordSpillError (self : SpillState) (error : Text) : SpillState :=
  if self.spillError.isSome then self else { self with spillError := some error }

def writeRest (disk : Disk) (self : SpillState) (rest : Bytes) : SpillState :=
  if rest = [] then self
  else
    match disk.writing self.writes with
    | .error error => self.recordSpillError error
    | .ok bytesWritten =>
      if bytesWritten = 0 then self.recordSpillError (units "spill file write made no progress")
      else
        writeRest disk { self with file := self.file ++ rest.take bytesWritten, writes := self.writes + 1 } (rest.drop bytesWritten)
termination_by rest.length
decreasing_by
  next some progress =>
    have filled := List.length_pos_iff.mpr some
    rw [List.length_drop]
    omega

def writeToFile (disk : Disk) (self : SpillState) (chunk : Bytes) : SpillState :=
  if !self.opened then self.recordSpillError (units "spill file not open") else writeRest disk self chunk

def openAndWrite (disk : Disk) (self : SpillState) (chunk : Bytes) : SpillState :=
  match disk.opening with
  | .error error => self.recordSpillError error
  | .ok () => writeToFile disk { self with opened := true } chunk

/-- The chain of writes. One that fails does not keep the next from its turn. -/
def runWrites (disk : Disk) : List Bytes → SpillState
  | [] => initial
  | first :: rest => rest.foldl (writeToFile disk) (openAndWrite disk initial first)

def verify (disk : Disk) (self : SpillState) : SpillState :=
  if self.spillError.isSome then self
  else
    match disk.verifying with
    | .error error => self.recordSpillError error
    | .ok () => self

def close (disk : Disk) (self : SpillState) : SpillState :=
  match disk.closing with
  | .error error => self.recordSpillError error
  | .ok () => self

def closeAndVerifySpillFile (disk : Disk) (self : SpillState) : SpillState :=
  if !self.opened then self else (({ self with opened := false } : SpillState).verify disk).close disk

end SpillState

def trimUtf8Prefix (buf : Bytes) (maxBytes : Nat) : Bytes :=
  let sliced := buf.take maxBytes
  let led := sliced.rdropWhile isContinuation
  match led.getLast? with
  | none => []
  | some first =>
    let lead := led.length - 1
    if sliced.length - lead < width first then sliced.take lead else sliced

def trimToUtf8 (buf : Bytes) (maxBytes : Nat) : Bytes :=
  if buf.length ≤ maxBytes then buf else (buf.drop (buf.length - maxBytes)).dropWhile isContinuation

def windowText (head tail : Text) (omitted : Nat) : Text :=
  head ++ units "\n...[" ++ decimal omitted ++ units " bytes omitted from in-memory window; full output in the spill file]...\n" ++ tail

structure ShellOutputFileRef where
  channel : Text
  path : Text
  bytes : Nat
  sha256 : Text
  deriving DecidableEq, Repr

structure Report where
  content : Text
  totalBytes : Nat
  lines : Nat
  truncatedToWindow : Bool
  quotaExceeded : Bool
  spillFile : Option ShellOutputFileRef
  spillError : Option Text
  deriving DecidableEq, Repr

namespace ShellChannelAccumulator

def renderWindow (self : ShellChannelAccumulator) : Text :=
  let head := decode (trimUtf8Prefix self.headBuf MAX_SHELL_HEAD_BYTES)
  let tailBytes := trimToUtf8 self.tailBuf MAX_SHELL_TAIL_BYTES
  let tail := decode (trimUtf8Prefix tailBytes tailBytes.length)
  let shownBytes := (encode head).length + (encode tail).length
  windowText head tail (self.totalBytes - shownBytes)

def finalize (self : ShellChannelAccumulator) (disk : Disk) (digest : Bytes → Text) : Report × SpillState :=
  let written := SpillState.runWrites disk self.spillWrites
  let spill := if self.spilled then written.closeAndVerifySpillFile disk else written
  ({ content := if self.spilled then self.renderWindow else decode self.fullBuf
     totalBytes := self.totalBytes
     lines := if self.totalBytes = 0 then 0 else if self.endsWithNewline then self.newlines else self.newlines + 1
     truncatedToWindow := self.spilled
     quotaExceeded := self.quotaExceeded
     spillFile :=
       if self.spilled && spill.spillError.isNone then
         some ⟨self.channel, self.spillRelPath, self.totalBytes, digest self.hashed⟩
       else none
     spillError := if self.spilled then spill.spillError else none }, spill)

end ShellChannelAccumulator

end AgentSaas.ShellOutput
