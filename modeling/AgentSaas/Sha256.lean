import Mathlib.Data.BitVec
import Mathlib.Data.Nat.Prime.Basic
import Mathlib.Algebra.Order.Ring.Int

/-! SHA-256 over messages of whole bytes, as FIPS 180-4 states it. -/

namespace AgentSaas.Sha256

abbrev Byte := BitVec 8

abbrev Word := BitVec 32

/-! The functions of section 4.1.2. -/

def ch (x y z : Word) : Word := (x &&& y) ^^^ (~~~x &&& z)

def maj (x y z : Word) : Word := (x &&& y) ^^^ (x &&& z) ^^^ (y &&& z)

def bigSigma0 (x : Word) : Word := x.rotateRight 2 ^^^ x.rotateRight 13 ^^^ x.rotateRight 22

def bigSigma1 (x : Word) : Word := x.rotateRight 6 ^^^ x.rotateRight 11 ^^^ x.rotateRight 25

def smallSigma0 (x : Word) : Word := x.rotateRight 7 ^^^ x.rotateRight 18 ^^^ x >>> 3

def smallSigma1 (x : Word) : Word := x.rotateRight 17 ^^^ x.rotateRight 19 ^^^ x >>> 10

/-! The constants of section 4.2.2 and the initial value of section 5.3.3. -/

def constants : List Word :=
  [0x428a2f98, 0x71374491, 0xb5c0fbcf, 0xe9b5dba5, 0x3956c25b, 0x59f111f1, 0x923f82a4, 0xab1c5ed5,
    0xd807aa98, 0x12835b01, 0x243185be, 0x550c7dc3, 0x72be5d74, 0x80deb1fe, 0x9bdc06a7, 0xc19bf174,
    0xe49b69c1, 0xefbe4786, 0x0fc19dc6, 0x240ca1cc, 0x2de92c6f, 0x4a7484aa, 0x5cb0a9dc, 0x76f988da,
    0x983e5152, 0xa831c66d, 0xb00327c8, 0xbf597fc7, 0xc6e00bf3, 0xd5a79147, 0x06ca6351, 0x14292967,
    0x27b70a85, 0x2e1b2138, 0x4d2c6dfc, 0x53380d13, 0x650a7354, 0x766a0abb, 0x81c2c92e, 0x92722c85,
    0xa2bfe8a1, 0xa81a664b, 0xc24b8b70, 0xc76c51a3, 0xd192e819, 0xd6990624, 0xf40e3585, 0x106aa070,
    0x19a4c116, 0x1e376c08, 0x2748774c, 0x34b0bcb5, 0x391c0cb3, 0x4ed8aa4a, 0x5b9cca4f, 0x682e6ff3,
    0x748f82ee, 0x78a5636f, 0x84c87814, 0x8cc70208, 0x90befffa, 0xa4506ceb, 0xbef9a3f7, 0xc67178f2]

structure Hash where
  a : Word
  b : Word
  c : Word
  d : Word
  e : Word
  f : Word
  g : Word
  h : Word
  deriving DecidableEq, Repr

def Hash.words (hash : Hash) : List Word := [hash.a, hash.b, hash.c, hash.d, hash.e, hash.f, hash.g, hash.h]

def initial : Hash := ⟨0x6a09e667, 0xbb67ae85, 0x3c6ef372, 0xa54ff53a, 0x510e527f, 0x9b05688c, 0x1f83d9ab, 0x5be0cd19⟩

/-! Padding and parsing, sections 5.1.1 and 5.2.1. -/

/-- How many zero bytes bring a message, its mark and its length to whole blocks. -/
def zeros (length : Nat) : Nat := (119 - length % 64) % 64

def lengthBytes (bits : BitVec 64) : List Byte := (List.range 8).map fun index => (bits >>> (56 - 8 * index)).setWidth 8

def pad (message : List Byte) : List Byte :=
  message ++ 0x80 :: (List.replicate (zeros message.length) 0 ++ lengthBytes (BitVec.ofNat 64 (8 * message.length)))

def parse : List Byte → List Word
  | first :: second :: third :: fourth :: rest => (first ++ second ++ third ++ fourth) :: parse rest
  | _ => []

def blocks (words : List Word) : List (List Word) :=
  (List.range (words.length / 16)).map fun index => (words.drop (index * 16)).take 16

/-! The computation of section 6.2.2. -/

/-- The next word of a schedule. -/
def next (schedule : List Word) : Word :=
  let t := schedule.length
  smallSigma1 (schedule.getD (t - 2) 0) + schedule.getD (t - 7) 0 + smallSigma0 (schedule.getD (t - 15) 0) +
    schedule.getD (t - 16) 0

def scheduleFrom (block : List Word) : Nat → List Word
  | 0 => block
  | turns + 1 => scheduleFrom block turns ++ [next (scheduleFrom block turns)]

def schedule (block : List Word) : List Word := scheduleFrom block 48

def round (hash : Hash) (constant word : Word) : Hash :=
  let t1 := hash.h + bigSigma1 hash.e + ch hash.e hash.f hash.g + constant + word
  let t2 := bigSigma0 hash.a + maj hash.a hash.b hash.c
  ⟨t1 + t2, hash.a, hash.b, hash.c, hash.d + t1, hash.e, hash.f, hash.g⟩

def compress (hash : Hash) (block : List Word) : Hash :=
  let last := (constants.zip (schedule block)).foldl (fun hash step => round hash step.1 step.2) hash
  ⟨last.a + hash.a, last.b + hash.b, last.c + hash.c, last.d + hash.d, last.e + hash.e, last.f + hash.f, last.g + hash.g,
    last.h + hash.h⟩

def hashOf (message : List Byte) : Hash := (blocks (parse (pad message))).foldl compress initial

def wordBytes (word : Word) : List Byte := [24, 16, 8, 0].map fun place => (word >>> place).setWidth 8

def digest (message : List Byte) : List Byte := (hashOf message).words.flatMap wordBytes

/-! The length of what is parsed, and its words. -/

theorem lengthBytes_length (bits : BitVec 64) : (lengthBytes bits).length = 8 := rfl

theorem pad_length (message : List Byte) : (pad message).length = ((message.length + 8) / 64 + 1) * 64 := by
  rw [pad, List.length_append, List.length_cons, List.length_append, List.length_replicate, lengthBytes_length, zeros]
  omega

theorem four_of_length {bytes : List Byte} (long : 4 ≤ bytes.length) :
    ∃ first second third fourth rest, bytes = first :: second :: third :: fourth :: rest := by
  rcases bytes with _ | ⟨first, _ | ⟨second, _ | ⟨third, _ | ⟨fourth, rest⟩⟩⟩⟩
  · simp at long
  · simp at long
  · simp at long
  · simp at long
  · exact ⟨first, second, third, fourth, rest, rfl⟩

theorem parse_get {bytes : List Byte} {index : Nat} (inside : index * 4 + 4 ≤ bytes.length) :
    (parse bytes)[index]? = some (bytes.getD (index * 4) 0 ++ bytes.getD (index * 4 + 1) 0 ++ bytes.getD (index * 4 + 2) 0 ++
      bytes.getD (index * 4 + 3) 0) := by
  induction index generalizing bytes with
  | zero =>
    obtain ⟨first, second, third, fourth, rest, rfl⟩ := four_of_length (by omega : 4 ≤ bytes.length)
    rfl
  | succ index ih =>
    obtain ⟨first, second, third, fourth, rest, rfl⟩ := four_of_length (by omega : 4 ≤ bytes.length)
    have later : index * 4 + 4 ≤ rest.length := by
      simp only [List.length_cons] at inside
      omega
    have shifted (place : Nat) : (first :: second :: third :: fourth :: rest).getD ((index + 1) * 4 + place) 0 =
        rest.getD (index * 4 + place) 0 := by
      rw [show (index + 1) * 4 + place = index * 4 + place + 4 by omega]
      rfl
    have same : (first :: second :: third :: fourth :: rest).getD ((index + 1) * 4) 0 = rest.getD (index * 4) 0 := shifted 0
    rw [parse, List.getElem?_cons_succ, ih later, same, shifted 1, shifted 2, shifted 3]

theorem parse_length (bytes : List Byte) : (parse bytes).length = bytes.length / 4 := by
  induction bytes using parse.induct with
  | case1 first second third fourth rest ih =>
    rw [parse, List.length_cons, ih]
    simp only [List.length_cons]
    omega
  | case2 bytes short =>
    by_cases long : 4 ≤ bytes.length
    · obtain ⟨first, second, third, fourth, rest, same⟩ := four_of_length long
      exact (short first second third fourth rest same).elim
    · rw [parse.eq_def]
      split
      next first second third fourth rest => exact (short first second third fourth rest rfl).elim
      next => simp only [List.length_nil]; omega

end AgentSaas.Sha256
