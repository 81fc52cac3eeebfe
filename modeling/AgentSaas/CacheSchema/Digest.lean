import AgentSaas.JsonStrings

/-! The digest of a text: SHA-256 over its UTF-8, in words of 32 bits. -/

namespace AgentSaas.CacheSchema
open CodePoints JsonStrings
open ToolCallRepair (Text unit units)

def utf8Point : List Nat → List Nat
  | [high, low] =>
    let point := 0x10000 + (high - 0xD800) * 0x400 + (low - 0xDC00)
    [0xF0 + point / 0x40000, 0x80 + point / 0x1000 % 0x40, 0x80 + point / 0x40 % 0x40, 0x80 + point % 0x40]
  | [char] =>
    if char < 0x80 then [char]
    else if char < 0x800 then [0xC0 + char / 0x40, 0x80 + char % 0x40]
    else if isHigh char || isLow char then [0xEF, 0xBF, 0xBD]
    else [0xE0 + char / 0x1000, 0x80 + char / 0x40 % 0x40, 0x80 + char % 0x40]
  | _ => []

/-- `new TextEncoder().encode(text)`: an unpaired surrogate is written as U+FFFD. -/
def encode (text : Text) : List Nat := (codePoints text).flatMap utf8Point

abbrev Word := BitVec 32

def rotate (value : Word) (bits : Nat) : Word := value >>> bits ||| value <<< (32 - bits)

def wordCount (bytes : List Nat) : Nat := ((bytes.length + 8) / 64 + 1) * 16

def paddedByte (bytes : List Nat) (index : Nat) : Nat :=
  if index < bytes.length then bytes.getD index 0 else if index = bytes.length then 0x80 else 0

/-- `words[index]` -/
def wordAt (bytes : List Nat) (index : Nat) : Word :=
  if index + 1 = wordCount bytes then BitVec.ofNat 32 (bytes.length * 8)
  else
    BitVec.ofNat 32 (paddedByte bytes (index * 4)) <<< 24 ||| BitVec.ofNat 32 (paddedByte bytes (index * 4 + 1)) <<< 16 |||
      BitVec.ofNat 32 (paddedByte bytes (index * 4 + 2)) <<< 8 ||| BitVec.ofNat 32 (paddedByte bytes (index * 4 + 3))

def constants : List Word :=
  [0x428a2f98, 0x71374491, 0xb5c0fbcf, 0xe9b5dba5, 0x3956c25b, 0x59f111f1, 0x923f82a4, 0xab1c5ed5, 0xd807aa98, 0x12835b01,
    0x243185be, 0x550c7dc3, 0x72be5d74, 0x80deb1fe, 0x9bdc06a7, 0xc19bf174, 0xe49b69c1, 0xefbe4786, 0x0fc19dc6, 0x240ca1cc,
    0x2de92c6f, 0x4a7484aa, 0x5cb0a9dc, 0x76f988da, 0x983e5152, 0xa831c66d, 0xb00327c8, 0xbf597fc7, 0xc6e00bf3, 0xd5a79147,
    0x06ca6351, 0x14292967, 0x27b70a85, 0x2e1b2138, 0x4d2c6dfc, 0x53380d13, 0x650a7354, 0x766a0abb, 0x81c2c92e, 0x92722c85,
    0xa2bfe8a1, 0xa81a664b, 0xc24b8b70, 0xc76c51a3, 0xd192e819, 0xd6990624, 0xf40e3585, 0x106aa070, 0x19a4c116, 0x1e376c08,
    0x2748774c, 0x34b0bcb5, 0x391c0cb3, 0x4ed8aa4a, 0x5b9cca4f, 0x682e6ff3, 0x748f82ee, 0x78a5636f, 0x84c87814, 0x8cc70208,
    0x90befffa, 0xa4506ceb, 0xbef9a3f7, 0xc67178f2]

structure Working where
  a : Word
  b : Word
  c : Word
  d : Word
  e : Word
  f : Word
  g : Word
  h : Word
  deriving DecidableEq, Repr

def initial : Working := ⟨0x6a09e667, 0xbb67ae85, 0x3c6ef372, 0xa54ff53a, 0x510e527f, 0x9b05688c, 0x1f83d9ab, 0x5be0cd19⟩

def extend (schedule : List Word) : List Word :=
  let i := schedule.length
  let a := schedule.getD (i - 15) 0
  let b := schedule.getD (i - 2) 0
  schedule ++ [schedule.getD (i - 16) 0 + (rotate a 7 ^^^ rotate a 18 ^^^ a >>> 3) + schedule.getD (i - 7) 0 +
    (rotate b 17 ^^^ rotate b 19 ^^^ b >>> 10)]

def scheduleOf (bytes : List Nat) (offset : Nat) : List Word :=
  (List.range 48).foldl (fun schedule _ => extend schedule) ((List.range 16).map fun i => wordAt bytes (offset + i))

def round (working : Working) (constant word : Word) : Working :=
  let s1 := rotate working.e 6 ^^^ rotate working.e 11 ^^^ rotate working.e 25
  let choice := working.e &&& working.f ^^^ ~~~working.e &&& working.g
  let temp1 := working.h + s1 + choice + constant + word
  let s0 := rotate working.a 2 ^^^ rotate working.a 13 ^^^ rotate working.a 22
  let majority := working.a &&& working.b ^^^ working.a &&& working.c ^^^ working.b &&& working.c
  let temp2 := s0 + majority
  ⟨temp1 + temp2, working.a, working.b, working.c, working.d + temp1, working.e, working.f, working.g⟩

def compress (bytes : List Nat) (hash : Working) (offset : Nat) : Working :=
  let working := (constants.zip (scheduleOf bytes offset)).foldl (fun working step => round working step.1 step.2) hash
  ⟨hash.a + working.a, hash.b + working.b, hash.c + working.c, hash.d + working.d, hash.e + working.e, hash.f + working.f,
    hash.g + working.g, hash.h + working.h⟩

/-- `(value >>> 0).toString(16).padStart(8, '0')` -/
def hexWord (value : Word) : Text :=
  [0x10000000, 0x1000000, 0x100000, 0x10000, 0x1000, 0x100, 0x10, 1].map fun place => hexDigit (value.toNat / place % 16)

def cacheDigest (value : Text) : Text :=
  let bytes := encode value
  let hash := ((List.range (wordCount bytes / 16)).map (· * 16)).foldl (compress bytes) initial
  units "sha256:" ++ [hash.a, hash.b, hash.c, hash.d, hash.e, hash.f, hash.g, hash.h].flatMap hexWord

end AgentSaas.CacheSchema
