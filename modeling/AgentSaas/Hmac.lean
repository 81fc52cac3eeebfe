import AgentSaas.CacheSchema.Digest

/-! HMAC over SHA-256. -/

namespace AgentSaas.Hmac
open CacheSchema

def wordBytes (value : Word) : List Nat := [0x1000000, 0x10000, 0x100, 1].map fun place => value.toNat / place % 256

def sha256 (bytes : List Nat) : List Nat :=
  let hash := ((List.range (wordCount bytes / 16)).map (· * 16)).foldl (compress bytes) initial
  [hash.a, hash.b, hash.c, hash.d, hash.e, hash.f, hash.g, hash.h].flatMap wordBytes

def blockKey (key : List Nat) : List Nat :=
  let key := if key.length > 64 then sha256 key else key
  key ++ List.replicate (64 - key.length) 0

/-- `createHmac('sha256', key).update(message).digest()` -/
def hmacSha256 (key message : List Nat) : List Nat :=
  let key := blockKey key
  sha256 (key.map (· ^^^ 0x5C) ++ sha256 (key.map (· ^^^ 0x36) ++ message))

theorem sha256_octets (bytes : List Nat) : ∀ byte ∈ sha256 bytes, byte < 256 := by
  intro byte member
  obtain ⟨word, _, inside⟩ := List.mem_flatMap.mp member
  obtain ⟨place, _, rfl⟩ := List.mem_map.mp inside
  exact Nat.mod_lt _ (by decide)

theorem sha256_length (bytes : List Nat) : (sha256 bytes).length = 32 := rfl

end AgentSaas.Hmac
