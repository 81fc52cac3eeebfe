import AgentSaas.Dictionaries
import AgentSaas.Interleaving
import Mathlib.Algebra.Order.Ring.Int

/-! The client for the platform's signing keys. A fetch looks at the revoked keys while it goes
through the document, waits for the import of each key, and installs them all at the end. -/

namespace AgentSaas.AppServer.Jwks
open Dictionaries Interleaving

def maxAgeSeconds : Int := 600

def maxBytes : Nat := 16 * 1024

def negativeCacheSeconds : Int := 60

def negativeCacheMaxEntries : Nat := 1000

def refetchMinIntervalMs : Int := 10000

def staleIfErrorSeconds : Int := 24 * 60 * 60

/-- The coordinates of the key are kept as one text. -/
structure Jwk where
  kty : Option String
  crv : Option String
  use : Option String
  kid : Option String
  point : String
  deriving DecidableEq

/-- A response and its text when it is parsed: no `keys` where there is no such array, and no
entry where it is not an object. -/
structure Response where
  redirected : Bool
  status : Nat
  contentLength : Option Nat
  byteLength : Nat
  keys : Option (List (Option Jwk))
  deriving DecidableEq

def addJwk (result : Dictionary String Jwk) (entry : Option Jwk) : Except String (Dictionary String Jwk) := do
  let some jwk := entry | throw "JWKS 条目不是对象"
  unless jwk.kty = some "EC" && jwk.crv = some "P-256" && jwk.use = some "sig" do
    throw "JWKS 只接受 kty=EC / crv=P-256 / use=sig"
  let some kid := jwk.kid.filter (!·.isEmpty) | throw "JWKS 条目缺少 kid"
  if result.has kid then throw s!"JWKS kid 重复：{kid}"
  return result.set kid jwk

def parseJwksResponse (response : Response) : Except String (Dictionary String Jwk) := do
  if response.redirected || (300 ≤ response.status && response.status < 400) then throw "JWKS 响应发生重定向"
  unless 200 ≤ response.status && response.status < 300 do throw s!"JWKS 响应状态 {response.status}"
  if response.contentLength.any (maxBytes < ·) || maxBytes < response.byteLength then
    throw s!"JWKS 响应超过 {maxBytes} 字节"
  let some entries := response.keys | throw "JWKS 缺少 keys 数组"
  entries.foldlM addJwk .empty

/-- An installed key; for the record, the time of the fetch that installed it. -/
structure CachedKey where
  key : Jwk
  fetchedAt : Int
  deriving DecidableEq

structure JwksState where
  keys : Dictionary String CachedKey
  lastSuccessAt : Option Int
  lastAttemptAt : Option Int
  negative : Dictionary String Int
  revoked : List String
  inflight : Option Nat

/-- What a fetch awaits: the response, or the import of a key while others are left. -/
inductive Fetch
  | fetching
  | importing (kid : String) (jwk : Jwk) (rest : List (String × Jwk)) (keys : Dictionary String Jwk)
  | settled
  /-- The `finally` of the call that started it has run. -/
  | cleared

/-- A key that `getKey` resolves with, and whether it was revoked by then. -/
structure Resolution where
  kid : String
  cached : CachedKey
  now : Int
  revoked : Bool
  deriving DecidableEq

/-- The fetches are numbered. The resolutions are kept for the record. -/
structure Shared where
  clock : Int
  state : JwksState
  fetches : List Fetch
  resolved : List Resolution

namespace Shared

variable (shared : Shared)

def setState (state : JwksState) : Shared := { shared with state := state }

def kids : List String := shared.state.keys.keys

def rememberNegative (kid : String) : Shared :=
  shared.setState { shared.state with
    negative := ((shared.state.negative.erase kid).set kid (shared.clock + negativeCacheSeconds * 1000)).newest
      negativeCacheMaxEntries }

def negativeHit (kid : String) : Bool := (shared.state.negative.get kid).any (shared.clock < ·)

def lookNegative (kid : String) : Shared :=
  if (shared.state.negative.get kid).any (· ≤ shared.clock) then
    shared.setState { shared.state with negative := shared.state.negative.erase kid }
  else shared

def forgetNegative (kid : Option String) : Shared :=
  match kid with
  | some kid =>
    shared.setState { shared.state with negative := shared.state.negative.erase kid, lastAttemptAt := none }
  | none => shared.setState { shared.state with lastAttemptAt := none }

def throttled : Bool := shared.state.lastAttemptAt.any fun last => shared.clock - last < refetchMinIntervalMs

/-- The fetch to wait for, and none when it is too early for another one. -/
def refresh : Shared × Option Nat :=
  match shared.state.inflight with
  | some fetch => (shared, some fetch)
  | none =>
    if shared.throttled then (shared, none)
    else
      ({ shared with
          state := { shared.state with lastAttemptAt := some shared.clock, inflight := some shared.fetches.length }
          fetches := shared.fetches ++ [.fetching] }, some shared.fetches.length)

def fresh (seconds : Int) : Bool :=
  shared.state.lastSuccessAt.any fun last => shared.clock - last ≤ seconds * 1000

def resolve (kid : String) (cached : CachedKey) : Shared :=
  { shared with resolved := shared.resolved ++ [⟨kid, cached, shared.clock, kid ∈ shared.state.revoked⟩] }

def put (index : Nat) (fetch : Fetch) : Shared := { shared with fetches := shared.fetches.set index fetch }

/-- The keys that are left to import when those revoked by now are passed over. -/
def unrevoked (rest : List (String × Jwk)) : List (String × Jwk) :=
  rest.dropWhile fun entry => entry.1 ∈ shared.state.revoked

def install (keys : Dictionary String Jwk) : Shared :=
  shared.setState { shared.state with
    keys := keys.mapValues fun key => ⟨key, shared.clock⟩
    lastSuccessAt := some shared.clock }

/-- `fetchOnce` from one import to the next. -/
def importNext (index : Nat) (rest : List (String × Jwk)) (keys : Dictionary String Jwk) : Shared :=
  match shared.unrevoked rest with
  | [] => (shared.install keys).put index .settled
  | (kid, jwk) :: rest => shared.put index (.importing kid jwk rest keys)

end Shared

inductive Call
  | getKey (kid : String)
  /-- `getKey` waits for a fetch, or for its next turn only. -/
  | waiting (kid : String) (fetch : Option Nat)
  | prefetch (kid : Option String)
  | revoke (kid : String)
  /-- The event loop goes on with a fetch. -/
  | turn (fetch : Nat)
  | tick (milliseconds : Nat)

inductive Move
  | next
  | respond (response : Response)
  | fail

def turn (shared : Shared) (index : Nat) (move : Move) : Option Shared :=
  match shared.fetches[index]?, move with
  | some .fetching, .respond response =>
    match parseJwksResponse response with
    | .error _ => some (shared.put index .settled)
    | .ok jwks => some (shared.importNext index jwks.entries .empty)
  | some (.importing kid jwk rest keys), .next => some (shared.importNext index rest (keys.set kid jwk))
  | some .fetching, .fail | some (.importing ..), .fail => some (shared.put index .settled)
  | some .settled, .next =>
    some ((shared.setState { shared.state with inflight := none }).put index .cleared)
  | _, _ => none

/-- `getKey` once its `refresh` is over. -/
def afterRefresh (shared : Shared) (kid : String) : Shared :=
  match shared.state.keys.get kid with
  | some cached => if shared.fresh staleIfErrorSeconds then shared.resolve kid cached else shared
  | none => if shared.state.lastSuccessAt.isSome then shared.rememberNegative kid else shared

def isSettled (shared : Shared) (fetch : Nat) : Bool :=
  match shared.fetches[fetch]? with
  | some .settled | some .cleared => true
  | _ => false

def advance (shared : Shared) (call : Call) (move : Move) : Option (Shared × Option Call) :=
  match call with
  | .getKey kid =>
    if kid ∈ shared.state.revoked then some (shared, none)
    else if shared.negativeHit kid then some (shared, none)
    else
      let shared := shared.lookNegative kid
      match shared.state.keys.get kid with
      | some cached =>
        if shared.fresh maxAgeSeconds then some (shared.resolve kid cached, none)
        else some (shared.refresh.1, some (.waiting kid shared.refresh.2))
      | none => some (shared.refresh.1, some (.waiting kid shared.refresh.2))
  | .waiting kid fetch =>
    if fetch.all (isSettled shared) then some (afterRefresh shared kid, none) else none
  | .prefetch kid =>
    some ((shared.forgetNegative kid).refresh.1, none)
  | .revoke kid =>
    some (shared.setState { shared.state with
      revoked := shared.state.revoked ++ [kid]
      keys := shared.state.keys.erase kid
      negative := .empty }, none)
  | .turn fetch => (turn shared fetch move).map fun after => (after, none)
  | .tick milliseconds => some ({ shared with clock := shared.clock + milliseconds }, none)

def starts (_ : Shared) : Call → Prop
  | .waiting .. => False
  | .getKey _ | .prefetch _ | .revoke _ | .turn _ | .tick _ => True

instance (shared : Shared) (call : Call) : Decidable (starts shared call) := by
  unfold starts
  split <;> infer_instance

def client (permits : Shared → Call → Move → Prop) : System Shared Call Move := ⟨starts, permits, advance⟩

/-- `createJwksClient` -/
def Shared.initial (clock : Int) : Shared := ⟨clock, ⟨.empty, none, none, .empty, [], none⟩, [], []⟩

end AgentSaas.AppServer.Jwks
