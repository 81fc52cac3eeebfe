import AgentSaas.AppServer.Errors
import AgentSaas.Interleaving
import Mathlib.Algebra.Order.Ring.Int
import Mathlib.Logic.Function.Basic

/-! The access tokens of the platform. A token is verified against one reading of the clock; its
id is taken later, by an insertion into a table whose expired rows are purged. -/

namespace AgentSaas.AppServer.Sat
open Interleaving

inductive SatAct
  | user | agent | platform
  deriving DecidableEq

def SatAct.text : SatAct → String
  | .user => "user"
  | .agent => "agent"
  | .platform => "platform"

structure ClockTolerance where
  nbf : Int
  exp : Int

def satClockToleranceSeconds : SatAct → ClockTolerance
  | .user => ⟨30, 0⟩
  | .agent => ⟨10, 10⟩
  | .platform => ⟨10, 10⟩

/-- The claims that the checks read. The matrix of claims says which of them an act has. -/
structure SatClaims where
  act : SatAct
  iss : String
  aud : String
  tid : String
  iid : String
  cap : Option String
  lcid : Option String
  dig : Option String
  rid : Option String
  iat : Int
  nbf : Int
  exp : Int
  jti : String
  deriving DecidableEq

structure Header where
  alg : Option String
  typ : Option String
  kid : Option String

structure KyAppConfig where
  issuer : String
  systemId : String
  tenantId : String
  installationId : String

/-- What is not part of the verification itself: the library for tokens, whose `payload` is that of
a token with a right signature and the claims of its act, and the checks of paths. -/
structure Surroundings where
  config : KyAppConfig
  manifestDigest : String
  decodeProtectedHeader : String → Option Header
  payload : String → Option SatClaims
  normalizePathname : String → Option String
  isEndpointAllowed : SatClaims → String → String → Bool
  capabilityPath : String → Option (String × Option String)

structure VerifySatRequest where
  method : String
  pathname : String
  requestId : Option String

def jwtTyp : String := "ky-sat+jwt"

def checkHeader (header : Option Header) : Except KyAppError String := do
  let some header := header | throw (unauthorized "SAT 不是合法的 JWS Compact 序列化")
  unless header.alg = some "ES256" do
    throw (unauthorized ("SAT header alg 必须是 ES256，收到 " ++ header.alg.getD "undefined"))
  unless header.typ = some jwtTyp do throw (unauthorized ("SAT header typ 必须是 " ++ jwtTyp))
  let some kid := header.kid.filter (!·.isEmpty) | throw (unauthorized "SAT header 缺少 kid")
  return kid

def checkDeployment (config : KyAppConfig) (claims : SatClaims) : Except KyAppError Unit := do
  unless claims.iss = config.issuer do throw (unauthorized "SAT iss 与部署配置不符")
  unless claims.aud = config.systemId do throw (unauthorized "SAT aud 与部署配置不符")
  unless claims.tid = config.tenantId do throw (unauthorized "SAT tid 与部署配置不符")
  unless claims.iid = config.installationId do throw (unauthorized "SAT iid 与部署配置不符")

def checkTimeWindow (claims : SatClaims) (nowSeconds : Int) : Except KyAppError Unit := do
  let tolerance := satClockToleranceSeconds claims.act
  let act := claims.act.text
  if claims.nbf - tolerance.nbf > nowSeconds then
    throw (unauthorized s!"SAT 尚未生效（act={act}，nbf 容忍 {tolerance.nbf}s）")
  if claims.exp + tolerance.exp ≤ nowSeconds then
    throw (unauthorized s!"SAT 已过期（act={act}，exp 容忍 {tolerance.exp}s）")
  if claims.iat - tolerance.nbf > nowSeconds then throw (unauthorized "SAT 的 iat 在未来")

namespace Surroundings

variable (surroundings : Surroundings)

def checkBinding (claims : SatClaims) (requestId : Option String) (pathname : String) : Except KyAppError Unit := do
  if claims.act = .agent || claims.act = .platform then
    unless requestId.isSome && requestId = claims.rid do throw (forbidden "X-KY-Request-Id 与 SAT rid 不符")
  if claims.act = .agent then
    let some (cap, lcid) := surroundings.capabilityPath pathname | throw (forbidden "act=agent 只能访问能力端点")
    unless some cap = claims.cap do throw (forbidden "路径中的 capabilityId 与 SAT cap 不符")
    if lcid.isSome && lcid ≠ claims.lcid then throw (forbidden "路径中的 lcid 与 SAT lcid 不符")

/-- An agent's path is always one of a capability here. -/
def checkDigest (claims : SatClaims) : Except KyAppError Unit := do
  if claims.act = .agent then
    unless claims.dig = some surroundings.manifestDigest do
      throw ⟨"digest_mismatch", "SAT dig 与当前 manifest digest 不符"⟩

/-- The checks that follow the signature's, none of which awaits anything. -/
def checkClaims (request : VerifySatRequest) (nowMs : Int) (claims : SatClaims) : Except KyAppError Unit := do
  checkDeployment surroundings.config claims
  checkTimeWindow claims (nowMs / 1000)
  let some pathname := surroundings.normalizePathname request.pathname | throw (forbidden "请求路径非法")
  unless surroundings.isEndpointAllowed claims request.method pathname do 
    throw (forbidden s!"act={claims.act.text} 不允许访问 {request.method} {pathname}")
  surroundings.checkBinding claims request.requestId pathname
  surroundings.checkDigest claims

end Surroundings

/-- The time in milliseconds until which a token's id stays taken. -/
def SatClaims.expiresAt (claims : SatClaims) : Int := (claims.exp + (satClockToleranceSeconds claims.act).exp) * 1000

/-- The table of taken ids, and for the record the tokens whose `consume` returned true. -/
structure Shared where
  clock : Int
  rows : String → Option Int
  accepted : List String

/-- A call of `verifySat`, up to the insertion of its id, or a purge. An identity consumes its id
once at most, and a user's never. -/
inductive Call
  | verifySat (token : String) (request : VerifySatRequest)
  | verifying (token : String) (request : VerifySatRequest) (nowMs : Int)
  | consuming (token : String) (claims : SatClaims)
  | purgeExpired
  | deleting (now : Int)
  | tick (milliseconds : Nat)

/-- The key is missing, a query fails, or the identity is never used. -/
inductive Move
  | next
  | fail

namespace Shared

variable (shared : Shared)

/-- `INSERT ... ON CONFLICT (jti) DO NOTHING RETURNING jti` -/
def consume (token : String) (claims : SatClaims) : Shared :=
  if (shared.rows claims.jti).isSome then shared
  else
    { shared with
      rows := Function.update shared.rows claims.jti (some claims.expiresAt)
      accepted := shared.accepted ++ [token] }

/-- `DELETE ... WHERE expires_at <= now()` -/
def purge (now : Int) : Shared :=
  { shared with rows := fun jti => (shared.rows jti).filter fun expiresAt => now < expiresAt }

end Shared

def advance (surroundings : Surroundings) (shared : Shared) (call : Call) (move : Move) : Option (Shared × Option Call) :=
  match call, move with
  | .verifySat token request, .next =>
    match checkHeader (surroundings.decodeProtectedHeader token) with
    | .error _ => some (shared, none)
    | .ok _ => some (shared, some (.verifying token request shared.clock))
  | .verifying token request nowMs, .next =>
    match surroundings.payload token with
    | none => some (shared, none)
    | some claims =>
      match surroundings.checkClaims request nowMs claims with
      | .error _ => some (shared, none)
      | .ok _ => some (shared, if claims.act = .user then none else some (.consuming token claims))
  | .consuming token claims, .next => some (shared.consume token claims, none)
  | .purgeExpired, .next => some (shared, some (.deleting shared.clock))
  | .deleting now, .next => some (shared.purge now, none)
  | .tick milliseconds, .next => some ({ shared with clock := shared.clock + milliseconds }, none)
  | _, .fail => some (shared, none)

def starts (_ : Shared) : Call → Prop
  | .verifySat .. | .purgeExpired | .tick _ => True
  | .verifying .. | .consuming .. | .deleting _ => False

instance (shared : Shared) (call : Call) : Decidable (starts shared call) := by
  unfold starts
  split <;> infer_instance

def processes (surroundings : Surroundings) (permits : Shared → Call → Move → Prop) : System Shared Call Move :=
  ⟨starts, permits, advance surroundings⟩

end AgentSaas.AppServer.Sat
