import AgentSaas.CacheSchema.Digest
import AgentSaas.Doubles

/-! The digest of a text over the numbers it is computed with: doubles, and arrays that may have
holes. -/

namespace AgentSaas.CacheSchema.NumberDigest
open Doubles JsonStrings
open ToolCallRepair (Text unit units)

/-- An array of numbers. A hole is read as undefined. -/
abbrev Numbers := List (Option Int)

def read (numbers : Numbers) (index : Int) : Option Int := if index < 0 then none else numbers[index.toNat]?.join

/-- `numbers[index] = value`. A negative index is none of an element. -/
def assign (numbers : Numbers) (index value : Int) : Numbers :=
  if index < 0 then numbers
  else if index.toNat < numbers.length then numbers.set index.toNat (some value)
  else numbers ++ List.replicate (index.toNat - numbers.length) none ++ [some value]

/-- `words[index >> 2] = (words[index >> 2] ?? 0) | byte << (24 - (index % 4) * 8)` -/
def putByte (words : Numbers) (index byte : Nat) : Numbers :=
  let place := shiftRight index 2
  assign words place (either ((read words place).getD 0) (shiftLeft byte (24 - index % 4 * 8)))

def putBytes (bytes : List Nat) : Numbers := bytes.zipIdx.foldl (fun words entry => putByte words entry.2 entry.1) []

/-- `words` -/
def messageWords (bytes : List Nat) : Numbers :=
  let words := putByte (putBytes bytes) bytes.length 0x80
  assign words (add (multiply (add (shiftRight (add bytes.length 8) 6) 1) 16) (-1)) (multiply bytes.length 8)

def constants : List Int :=
  [0x428a2f98, 0x71374491, 0xb5c0fbcf, 0xe9b5dba5, 0x3956c25b, 0x59f111f1, 0x923f82a4, 0xab1c5ed5, 0xd807aa98, 0x12835b01,
    0x243185be, 0x550c7dc3, 0x72be5d74, 0x80deb1fe, 0x9bdc06a7, 0xc19bf174, 0xe49b69c1, 0xefbe4786, 0x0fc19dc6, 0x240ca1cc,
    0x2de92c6f, 0x4a7484aa, 0x5cb0a9dc, 0x76f988da, 0x983e5152, 0xa831c66d, 0xb00327c8, 0xbf597fc7, 0xc6e00bf3, 0xd5a79147,
    0x06ca6351, 0x14292967, 0x27b70a85, 0x2e1b2138, 0x4d2c6dfc, 0x53380d13, 0x650a7354, 0x766a0abb, 0x81c2c92e, 0x92722c85,
    0xa2bfe8a1, 0xa81a664b, 0xc24b8b70, 0xc76c51a3, 0xd192e819, 0xd6990624, 0xf40e3585, 0x106aa070, 0x19a4c116, 0x1e376c08,
    0x2748774c, 0x34b0bcb5, 0x391c0cb3, 0x4ed8aa4a, 0x5b9cca4f, 0x682e6ff3, 0x748f82ee, 0x78a5636f, 0x84c87814, 0x8cc70208,
    0x90befffa, 0xa4506ceb, 0xbef9a3f7, 0xc67178f2]

/-- `hash` and `working`, by their eight places. -/
structure Working where
  a : Int
  b : Int
  c : Int
  d : Int
  e : Int
  f : Int
  g : Int
  h : Int
  deriving DecidableEq, Repr

def initial : Working := ⟨0x6a09e667, 0xbb67ae85, 0x3c6ef372, 0xa54ff53a, 0x510e527f, 0x9b05688c, 0x1f83d9ab, 0x5be0cd19⟩

def rotate (value : Int) (bits : Nat) : Int := either (shiftRightZero value bits) (shiftLeft value (32 - bits))

/-- `schedule[i]` for the next `i`. The places before it are filled. -/
def extend (schedule : List Int) : List Int :=
  let i := schedule.length
  let a := schedule.getD (i - 15) 0
  let b := schedule.getD (i - 2) 0
  let first := exclusive (exclusive (rotate a 7) (rotate a 18)) (shiftRightZero a 3)
  let second := exclusive (exclusive (rotate b 17) (rotate b 19)) (shiftRightZero b 10)
  schedule ++ [either (add (add (add (schedule.getD (i - 16) 0) first) (schedule.getD (i - 7) 0)) second) 0]

def scheduleOf (words : Numbers) (offset : Nat) : List Int :=
  (List.range 48).foldl (fun schedule _ => extend schedule)
    ((List.range 16).map fun (i : Nat) => (read words (add offset i)).getD 0)

def round (working : Working) (constant word : Int) : Working :=
  let s1 := exclusive (exclusive (rotate working.e 6) (rotate working.e 11)) (rotate working.e 25)
  let choice := exclusive (both working.e working.f) (both (complement working.e) working.g)
  let temp1 := either (add (add (add (add working.h s1) choice) constant) word) 0
  let s0 := exclusive (exclusive (rotate working.a 2) (rotate working.a 13)) (rotate working.a 22)
  let majority := exclusive (exclusive (both working.a working.b) (both working.a working.c)) (both working.b working.c)
  let temp2 := either (add s0 majority) 0
  ⟨either (add temp1 temp2) 0, working.a, working.b, working.c, either (add working.d temp1) 0, working.e, working.f, working.g⟩

def compress (words : Numbers) (hash : Working) (offset : Nat) : Working :=
  let working := (constants.zip (scheduleOf words offset)).foldl (fun working step => round working step.1 step.2) hash
  ⟨either (add hash.a working.a) 0, either (add hash.b working.b) 0, either (add hash.c working.c) 0,
    either (add hash.d working.d) 0, either (add hash.e working.e) 0, either (add hash.f working.f) 0,
    either (add hash.g working.g) 0, either (add hash.h working.h) 0⟩

/-- `value.toString(16)` of a number that is not negative. -/
def toHex (value : Nat) : Text :=
  if value < 16 then [hexDigit value] else toHex (value / 16) ++ [hexDigit (value % 16)]

def padStart (text : Text) (length : Nat) (filler : Nat) : Text := List.replicate (length - text.length) filler ++ text

def hexWord (value : Int) : Text := padStart (toHex (shiftRightZero value 0).toNat) 8 (unit '0')

/-- The values of `offset`. -/
def offsets (words : Numbers) : List Nat := (List.range ((words.length + 15) / 16)).map (· * 16)

def cacheDigest (value : Text) : Text :=
  let words := messageWords (encode value)
  let hash := (offsets words).foldl (compress words) initial
  units "sha256:" ++ [hash.a, hash.b, hash.c, hash.d, hash.e, hash.f, hash.g, hash.h].flatMap hexWord

end AgentSaas.CacheSchema.NumberDigest
