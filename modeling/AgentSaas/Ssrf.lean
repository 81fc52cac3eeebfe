import Mathlib.Data.List.Basic

/-! Fetching remote text. Every hop is validated before its request is sent; the request goes
to a host name, and whoever sends it looks the name up again. -/

namespace AgentSaas.Ssrf

structure WebEgressPolicy where
  allowPrivateNetworks : Bool
  allowedHosts : List String
  blockedHosts : List String

structure RequestInit where
  method : Option String
  body : Option String
  deriving DecidableEq

structure FetchRemoteTextOptions where
  egress : WebEgressPolicy
  init : RequestInit
  maxBytes : Nat
  maxRedirects : Nat

structure Url where
  href : String
  protocol : String
  username : String
  password : String
  hostname : String
  deriving DecidableEq

/-- `ipaddr.js` -/
structure IpAddr (α : Type) where
  parse : String → Option α
  isIpv6 : α → Bool
  range : α → String
  toIPv4Address : α → α

structure Platform (α : Type) where
  /-- `new URL(text, base)` -/
  newUrl : String → Option Url → Option Url
  toLowerCase : String → String
  toUpperCase : String → String
  /-- `net.isIP` -/
  isIP : String → Bool
  ipaddr : IpAddr α
  decode : List UInt8 → String

/-- The `content-length` is there where it is a finite number, and `failure` is what ends the
body before its end. -/
structure Response where
  status : Nat
  statusText : String
  location : Option String
  contentLength : Option Int
  chunks : List (List UInt8)
  failure : Option String

structure Connection where
  addresses : List String
  response : Except String Response

structure FetchedRemoteText where
  url : String
  finalUrl : String
  status : Nat
  statusText : String
  body : String
  bytesRead : Nat

/-- A request, and the addresses that sending it connects to. -/
structure Sent where
  url : Url
  init : RequestInit
  addresses : List String
  deriving DecidableEq

structure Outcome where
  requests : List Sent
  result : Except String FetchedRemoteText

def redirectStatuses : List Nat := [301, 302, 303, 307, 308]

def blockedRanges : List String :=
  ["unspecified", "broadcast", "multicast", "linkLocal", "loopback", "private", "reserved", "carrierGradeNat", "uniqueLocal"]

def stripBrackets (chars : List Char) : List Char :=
  let chars := match chars with
    | '[' :: rest => rest
    | chars => chars
  if chars.getLast? = some ']' then chars.dropLast else chars

def stripDot (chars : List Char) : List Char := if chars.getLast? = some '.' then chars.dropLast else chars

namespace Platform

variable {α : Type} (platform : Platform α)

def normalizeHostname (hostname : String) : String :=
  .ofList (stripDot (stripBrackets (platform.toLowerCase hostname).toList))

def assertHostPolicy (hostname : String) (egress : WebEgressPolicy) : Except String Unit := do
  if hostname = "localhost" || hostname.endsWith ".localhost" then throw s!"Blocked internal hostname: {hostname}"
  if hostname ∈ egress.blockedHosts.map platform.normalizeHostname then throw s!"Blocked hostname: {hostname}"
  let allowedHosts := egress.allowedHosts.map platform.normalizeHostname
  if allowedHosts.length > 0 && hostname ∉ allowedHosts then throw s!"Hostname is not in allowedHosts: {hostname}"

def assertPublicAddress (address hostname : String) (egress : WebEgressPolicy) : Except String Unit := do
  if egress.allowPrivateNetworks then return
  let some parsed := platform.ipaddr.parse address | throw s!"Resolved non-IP address for {hostname}: {address}"
  let mapped := platform.ipaddr.isIpv6 parsed && platform.ipaddr.range parsed = "ipv4Mapped"
  let parsed := if mapped then platform.ipaddr.toIPv4Address parsed else parsed
  if platform.ipaddr.range parsed ∈ blockedRanges then throw s!"Blocked internal address for {hostname}: {address}"

def checkUrl (rawUrl : String) (egress : WebEgressPolicy) : Except String Url := do
  let some url := platform.newUrl rawUrl none | throw "Invalid URL"
  if url.protocol ≠ "http:" && url.protocol ≠ "https:" then throw "Only HTTP and HTTPS URLs can be fetched."
  if url.username ≠ "" || url.password ≠ "" then throw "URLs with username/password are not allowed."
  if platform.normalizeHostname url.hostname = "" then throw "URL must include a hostname."
  platform.assertHostPolicy (platform.normalizeHostname url.hostname) egress
  return url

def checkAddresses (hostname : String) (egress : WebEgressPolicy) : List String → Except String Unit
  | [] => return
  | address :: rest => do
    platform.assertPublicAddress address hostname egress
    checkAddresses hostname egress rest

/-- `validateRemoteUrl`, with the answer that the look-up of the host's name has. -/
def validateRemoteUrl (lookup : String → Except String (List String)) (rawUrl : String) (egress : WebEgressPolicy) :
    Except String Url := do
  let url ← platform.checkUrl rawUrl egress
  let hostname := platform.normalizeHostname url.hostname
  if platform.isIP hostname then
    platform.assertPublicAddress hostname hostname egress
    return url
  else
    match lookup hostname with
    | .error cause => throw s!"Failed to resolve {hostname}: {cause}"
    | .ok [] => throw s!"Failed to resolve {hostname}: no addresses returned."
    | .ok addresses =>
      platform.checkAddresses hostname egress addresses
      return url

def readChunks (maxBytes : Nat) (merged : List UInt8) : List (List UInt8) → Except String (List UInt8)
  | [] => .ok merged
  | chunk :: rest =>
    let bytesRead := merged.length + chunk.length
    if maxBytes < bytesRead then throw s!"Response too large ({bytesRead} bytes > {maxBytes} bytes)."
    else readChunks maxBytes (merged ++ chunk) rest

def readBodyWithLimit (response : Response) (maxBytes : Nat) : Except String (List UInt8) := do
  if let some parsed := response.contentLength then
    if maxBytes < parsed then throw s!"Response too large ({parsed} bytes > {maxBytes} bytes)."
  let merged ← readChunks maxBytes [] response.chunks
  if let some failure := response.failure then throw failure
  return merged

def redirectInit (status : Nat) (init : RequestInit) : RequestInit :=
  if status = 303 || ((status = 301 || status = 302) && (init.method.map platform.toUpperCase) = some "POST") then
    ⟨some "GET", none⟩
  else init

end Platform

/-- Resolvers and servers, by the number of the hop: what validating it looks up, and what
sending its request leads to. A request to an address is sent to that address. -/
structure Network {α : Type} (platform : Platform α) where
  lookup : Nat → String → Except String (List String)
  fetch : Nat → Url → RequestInit → Connection
  literal : ∀ hop url init, platform.isIP (platform.normalizeHostname url.hostname) →
    ∀ address ∈ (fetch hop url init).addresses, address = platform.normalizeHostname url.hostname

section Fetch

variable {α : Type} (platform : Platform α) (options : FetchRemoteTextOptions) (network : Network platform)

def readResponse (rawUrl : String) (current : Url) (response : Response) : Except String FetchedRemoteText := do
  let body ← Platform.readBodyWithLimit response options.maxBytes
  return ⟨rawUrl, current.href, response.status, response.statusText, platform.decode body, body.length⟩

/-- The URL that a response leads to. -/
def Response.target (response : Response) : Option String :=
  if response.status ∈ redirectStatuses then response.location.filter (· ≠ "") else none

/-- `validateRemoteUrl(new URL(location, current), options)` -/
def follow (hop : Nat) (current : Url) (location : String) : Except String Url :=
  match platform.newUrl location (some current) with
  | none => throw "Invalid URL"
  | some target => platform.validateRemoteUrl (network.lookup hop) target.href options.egress

def fetchHops (rawUrl : String) (left hop : Nat) (current : Url) (init : RequestInit) : Outcome :=
  match left with
  | 0 => ⟨[], throw s!"Too many redirects fetching {current.href}."⟩
  | left + 1 =>
    let connection := network.fetch hop current init
    let rest : Outcome :=
      match connection.response with
      | .error error => ⟨[], .error error⟩
      | .ok response =>
        match response.target with
        | none => ⟨[], readResponse platform options rawUrl current response⟩
        | some location =>
          if left = 0 then ⟨[], throw s!"Too many redirects fetching {current.href}."⟩
          else
            match follow platform options network (hop + 1) current location with
            | .error error => ⟨[], .error error⟩
            | .ok next => fetchHops rawUrl left (hop + 1) next (platform.redirectInit response.status init)
    { rest with requests := ⟨current, init, connection.addresses⟩ :: rest.requests }

def fetchRemoteText (rawUrl : String) : Outcome :=
  match platform.validateRemoteUrl (network.lookup 0) rawUrl options.egress with
  | .error error => ⟨[], .error error⟩
  | .ok current => fetchHops platform options network rawUrl (options.maxRedirects + 1) 0 current options.init

end Fetch

end AgentSaas.Ssrf
