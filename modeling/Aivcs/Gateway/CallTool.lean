import Aivcs.Lib.Hash
import Aivcs.Lib.Proc
import Aivcs.Lib.Text
import Aivcs.State.Types

/-!
# Gateway.CallTool — the tool calls of the MCP gateway and their approvals

`call_tool` checks the token of an agent, the scope and the risk of the tool, and for a destructive tool
takes a human approval out of the table; it then writes an authority record and runs the tool.
`create_approval` puts approvals into the table.  Each handler is a program over the calls that may see
another handler's work: the three tables behind their locks, the database, the clock and the UUIDs.
The block under the approvals lock is one call.

JSON values, SHA-256 and the token library are code of other packages, and fields of `Deployment`.  The
handlers of the two memory backends, the database and Mom, answer from outside: `call_tool` looks only at
whether one has failed, and hands on what it says.  What listing the tools reads and nothing here does is
left out.
-/

namespace Aivcs
namespace Gateway

open Aivcs.Lib
open Aivcs.State (Timestamp)

variable {Value Args : Type}

/-! ## Records -/

/-- The token's claims; audience and expiry are checked by the token library. -/
structure McpClaims where
  sub : String
  tenantId : String
  workspaceId : String
  agentId : String
  runId : String
  taskId : String
  scopes : List String
  maxRisk : String
  delegatedBy : String
  jti : String
  deriving DecidableEq

structure AuthorityRecord where
  authorityId : String
  actor : String
  agentInstance : String
  onBehalfOf : String
  tenantId : String
  workspaceId : String
  repo : String
  runId : String
  taskId : String
  toolId : String
  toolManifestHash : String
  toolSchemaVersion : String
  action : String
  payloadDigest : String
  policyDecisionId : String
  policyVersion : String
  approvalId : Option String
  riskLevel : String
  expiry : Int
  outcome : String
  deriving DecidableEq

structure HumanApproval where
  approvalId : String
  runId : String
  taskId : String
  action : String
  payloadDigest : String
  approvedBy : String
  createdAt : Timestamp
  used : Bool
  deriving DecidableEq

/-- `approval_id` is accepted and not consulted. -/
structure ToolCallRequest (Value : Type) where
  tool : String
  arguments : Value
  repo : String
  approvalId : Option String

structure CreateApprovalRequest where
  runId : String
  taskId : String
  action : String
  payloadDigest : String
  approvedBy : String
  deriving DecidableEq

structure DecisionRecord where
  decisionId : String
  commitId : String
  task : String
  action : String
  rationale : String
  alternatives : List String
  confidence : Rat
  outcome : Option String
  timestamp : Timestamp
  deriving DecidableEq

structure RevocationList where
  revokedJtis : Finset String
  revokedSessions : Finset String

/-- What a tool answers with. -/
inductive ToolResult (Value : Type)
  | diff (diff : String)
  | status (status : String)
  | merged (status commitId : String)
  | memory (response : Value)
  | empty

structure ToolCallResponse (Value : Type) where
  status : String
  authorityId : Option String
  result : Option (ToolResult Value)
  reason : Option String

inductive Response (Value : Type)
  /-- A JSON body with the fields `error` and, for an invalid token, `detail`. -/
  | failure (status : Nat) (error : String) (detail : Option String)
  | tool (response : ToolCallResponse Value)
  | approvalCreated (approvalId : String)
  | revocationUpdated
  | panicked

/-! ## What the gateway is started with -/

inductive MemoryTool
  | write
  | query
  | contextPack
  | delete
  deriving DecidableEq

def MemoryTool.name : MemoryTool → String
  | .write => "memory::write"
  | .query => "memory::query"
  | .contextPack => "memory::context_pack"
  | .delete => "memory::delete"

inductive BackendSelector
  | localOnly
  | momPrimary
  | surrealPrimary
  deriving DecidableEq

inductive MemoryBackend
  | surreal
  | mom
  deriving DecidableEq

/-- The configuration of a gateway and the packages it calls. -/
structure Deployment (Value Args : Type) where
  publicKeyPem : String
  backendSelector : BackendSelector
  /-- `mom_config.is_some()`. -/
  momConfigured : Bool
  /-- SHA-256, in lower-case hexadecimal. -/
  sha256Hex : Bytes → String
  /-- `serde_json::to_string`, which does not fail on a `Value`. -/
  encode : Value → Bytes
  toolCallRequest : Value → Except String (ToolCallRequest Value)
  memoryArguments : MemoryTool → Value → Except String Args
  /-- Whether `DecodingKey::from_rsa_pem` accepts the key. -/
  acceptsKey : String → Bool
  /-- `decode`, of a token under a key. -/
  decode : String → String → Except String McpClaims

/-! ## Tokens -/

/-- The three headers that are read, where they are visible ASCII. -/
structure Headers where
  mcpProtocolVersion : Option String
  mcpSessionId : Option String
  authorization : Option String
  deriving DecidableEq

/-- The token behind `Bearer `. -/
def bearerToken (authHeader : String) : Option String :=
  let cs := authHeader.toList
  if "Bearer ".toList.isPrefixOf cs then
    some (String.ofList (trimBoth isWhitespace (dropRepeated "Bearer ".toList cs.length cs)))
  else none

def validateAuth (dep : Deployment Value Args) (headers : Headers) (revocations : RevocationList) :
    Except (Response Value) McpClaims :=
  let version := headers.mcpProtocolVersion.getD ""
  let sessionId := headers.mcpSessionId.getD ""
  if version = "" ∨ sessionId = "" then .error (.failure 400 "missing_required_headers" none)
  else if sessionId ∈ revocations.revokedSessions then .error (.failure 401 "session_revoked" none)
  else
    match bearerToken (headers.authorization.getD "") with
    | none => .error (.failure 401 "missing_bearer_token" none)
    | some token =>
        if (trimBoth isWhitespace dep.publicKeyPem.toList).isEmpty then
          .error (.failure 500 "verification_key_not_configured" none)
        else if dep.acceptsKey dep.publicKeyPem = false then
          .error (.failure 500 "internal_error" none)
        else
          match dep.decode dep.publicKeyPem token with
          | .error detail => .error (.failure 401 "invalid_token" (some detail))
          | .ok claims =>
              if claims.jti ∈ revocations.revokedJtis then
                .error (.failure 401 "token_revoked" none)
              else .ok claims

/-! ## Risk -/

inductive RiskLevel
  | read
  | write
  | destructive
  deriving DecidableEq

def RiskLevel.name : RiskLevel → String
  | .read => "read"
  | .write => "write"
  | .destructive => "destructive"

theorem RiskLevel.name_injective : Function.Injective RiskLevel.name := by
  intro a b h
  cases a <;> cases b <;> first | rfl | (revert h; decide)

/-- The risk of a tool and the scope it needs. -/
def riskAndScope : String → Option (RiskLevel × String)
  | "repo.diff.read" => some (.read, "repo.diff.read")
  | "repo.diff.write" => some (.write, "repo.diff.write")
  | "repo.merge.execute" => some (.destructive, "repo.merge.execute")
  | "memory::write" => some (.write, "memory.write")
  | "memory::query" => some (.read, "memory.read")
  | "memory::context_pack" => some (.read, "memory.read")
  | "memory::delete" => some (.destructive, "memory.delete")
  | _ => none

def exceedsMaxRisk (riskLevel : RiskLevel) (maxRisk : String) : Bool :=
  match riskLevel with
  | .read => false
  | .write => maxRisk = "read"
  | .destructive => maxRisk ≠ "write"

/-! ## Approvals -/

def approvalTtlHours : Int := 2

/-- `Duration::hours(APPROVAL_TTL_HOURS)`, in nanoseconds. -/
def approvalTtl : Int :=
  approvalTtlHours * 3600 * 1000000000

/-- What an approval has to match. -/
structure ApprovalKey where
  runId : String
  taskId : String
  action : String
  payloadDigest : String
  deriving DecidableEq

def payloadDigest (dep : Deployment Value Args) (req : ToolCallRequest Value) : String :=
  dep.sha256Hex (utf8 req.tool ++ dep.encode req.arguments)

def approvalKey (dep : Deployment Value Args) (claims : McpClaims) (req : ToolCallRequest Value) :
    ApprovalKey :=
  { runId := claims.runId, taskId := claims.taskId, action := req.tool
    payloadDigest := payloadDigest dep req }

namespace HumanApproval

def key (a : HumanApproval) : ApprovalKey :=
  { runId := a.runId, taskId := a.taskId, action := a.action, payloadDigest := a.payloadDigest }

/-- The approval matches, is unused and not too old: the test of the first pass. -/
def Authorises (a : HumanApproval) (key : ApprovalKey) (now : Timestamp) : Prop :=
  a.key = key ∧ a.used = false ∧ now - a.createdAt ≤ approvalTtl

instance (a : HumanApproval) (key : ApprovalKey) (now : Timestamp) :
    Decidable (a.Authorises key now) :=
  inferInstanceAs (Decidable (_ ∧ _ ∧ _))

end HumanApproval

inductive StaleStatus
  | consumed
  | expired
  | stale
  deriving DecidableEq

def classify (now : Timestamp) (a : HumanApproval) : StaleStatus :=
  if a.used then .consumed
  else if approvalTtl < now - a.createdAt then .expired
  else .stale

/-- What the block under the approvals lock finds. -/
inductive ApprovalCheck
  | consumed (approvalId : String)
  | refused (staleStatus : Option StaleStatus)
  /-- The `expect` on the approval that was just found. -/
  | panicked
  deriving DecidableEq

abbrev Approvals : Type := HashMap String HumanApproval

/-- `approvals.values()`, in the order of a walk. -/
def Approvals.values (walk : Iteration String) (approvals : Approvals) : List HumanApproval :=
  (walk.list approvals.keys).filterMap approvals.lookup

/-- Step 4: take a fresh, unused matching approval, or say why there is none. -/
def Approvals.check (walk : Iteration String) (key : ApprovalKey) (now : Timestamp)
    (approvals : Approvals) : ApprovalCheck × Approvals :=
  let values := approvals.values walk
  match (values.find? fun a => a.Authorises key now).map (·.approvalId) with
  | some id =>
      match approvals.modify? id fun a => { a with used := true } with
      | some approvals' => (.consumed id, approvals')
      | none => (.panicked, approvals)
  | none => (.refused ((values.filter fun a => a.key = key).map (classify now)).head?, approvals)

/-! ## The calls of a handler -/

inductive GatewayOp (Args : Type)
  | revocations
  | revoke (jti sessionId : Option String)
  /-- `Utc::now()`. -/
  | now
  /-- `Uuid::new_v4()`. -/
  | newUuid
  | insertApproval (approval : HumanApproval)
  | checkApproval (key : ApprovalKey) (now : Timestamp)
  | insertAuthority (authority : AuthorityRecord)
  /-- `save_decision`, whose result is not looked at. -/
  | saveDecision (decision : DecisionRecord)
  | memory (backend : MemoryBackend) (tool : MemoryTool) (args : Args)

@[reducible] def GatewayOp.Ans (Value : Type) : GatewayOp Args → Type
  | .revocations => RevocationList
  | .revoke _ _ => Unit
  | .now => Timestamp
  | .newUuid => String
  | .insertApproval _ => Unit
  | .checkApproval _ _ => ApprovalCheck
  | .insertAuthority _ => Unit
  | .saveDecision _ => Unit
  | .memory _ _ _ => Except String Value

abbrev GatewayProc (Value Args α : Type) : Type :=
  Proc (GatewayOp Args) (GatewayOp.Ans Value) α

def perform (op : GatewayOp Args) : GatewayProc Value Args (op.Ans Value) :=
  Proc.perform op

/-! ## Running a tool -/

/-- `hybrid_memory_write` and its three siblings: one backend, and the other one as fallback. -/
def hybridMemory (dep : Deployment Value Args) (tool : MemoryTool) (args : Args) :
    GatewayProc Value Args (Except String Value) :=
  match dep.backendSelector with
  | .localOnly => perform (.memory .surreal tool args)
  | .momPrimary =>
      if dep.momConfigured then
        (perform (.memory .mom tool args)).bind fun
          | .ok result => .ret (.ok result)
          | .error _ => perform (.memory .surreal tool args)
      else perform (.memory .surreal tool args)
  | .surrealPrimary =>
      (perform (.memory .surreal tool args)).bind fun
        | .ok result => .ret (.ok result)
        | .error e =>
            if dep.momConfigured then perform (.memory .mom tool args) else .ret (.error e)

/-- The arm of a memory tool: its arguments, then its backends. -/
def runMemoryTool (dep : Deployment Value Args) (tool : MemoryTool) (arguments : Value) :
    GatewayProc Value Args (Except String (ToolResult Value)) :=
  match dep.memoryArguments tool arguments with
  | .error e => .ret (.error ("Invalid " ++ tool.name ++ " arguments: " ++ e))
  | .ok args => (hybridMemory dep tool args).bind fun r => .ret (r.map .memory)

def runTool (dep : Deployment Value Args) (req : ToolCallRequest Value) :
    GatewayProc Value Args (Except String (ToolResult Value)) :=
  match req.tool with
  | "repo.diff.read" => .ret (.ok (.diff "--- a/src/main.rs\n+++ b/src/main.rs\n"))
  | "repo.diff.write" => .ret (.ok (.status "changes_written"))
  | "repo.merge.execute" => .ret (.ok (.merged "merged" "sha256-merge-placeholder"))
  | "memory::write" => runMemoryTool dep .write req.arguments
  | "memory::query" => runMemoryTool dep .query req.arguments
  | "memory::context_pack" => runMemoryTool dep .contextPack req.arguments
  | "memory::delete" => runMemoryTool dep .delete req.arguments
  | _ => .ret (.ok .empty)

/-! ## The handlers -/

def denied (authorityId : Option String) (reason : String) : Response Value :=
  .tool { status := "denied", authorityId := authorityId, result := none, reason := some reason }

/-- `DecisionRecord::new`, with the fields the handler sets afterwards. -/
def newDecision (claims : McpClaims) (req : ToolCallRequest Value) (decisionId rationale : String)
    (alternatives : List String) (outcome : String) (now : Timestamp) : DecisionRecord :=
  { decisionId := decisionId
    commitId := ""
    task := "run:" ++ claims.runId ++ "/task:" ++ claims.taskId
    action := req.tool
    rationale := rationale
    alternatives := alternatives
    confidence := 1
    outcome := some outcome
    timestamp := now }

def outcomeTag : Option StaleStatus → String
  | some .expired => "expired"
  | some .consumed => "consumed"
  | _ => "escalated"

def escalationRationale : Option StaleStatus → String
  | some .expired =>
      "Existing approval expired (TTL = " ++ toString approvalTtlHours ++
        "h); a fresh approval is required"
  | some .consumed => "Existing approval already consumed; a fresh approval is required"
  | _ => "Requires human approval before execution"

def escalationReason (staleStatus : Option StaleStatus) (payloadDigest : String) : String :=
  match staleStatus with
  | some .expired =>
      "Existing human approval expired (TTL = " ++ toString approvalTtlHours ++
        "h). Request a fresh approval. Payload digest: " ++ payloadDigest
  | some .consumed =>
      "Existing human approval already consumed. Request a fresh approval. Payload digest: " ++
        payloadDigest
  | _ => "Human approval required for action. Payload digest: " ++ payloadDigest

/-- A destructive call without a fresh approval: the decision is recorded and the call refused. -/
def escalate (dep : Deployment Value Args) (claims : McpClaims) (req : ToolCallRequest Value)
    (staleStatus : Option StaleStatus) : GatewayProc Value Args (Response Value) :=
  (perform .newUuid).bind fun decisionId =>
  (perform .now).bind fun now =>
  (perform (.saveDecision (newDecision claims req decisionId (escalationRationale staleStatus)
    ["Deny", "Escalate"] (outcomeTag staleStatus) now))).bind fun _ =>
  .ret (.tool
    { status := "approval_required", authorityId := none, result := none
      reason := some (escalationReason staleStatus (payloadDigest dep req)) })

/-- The authority record; `now` is in nanoseconds, the expiry in seconds. -/
def newAuthority (dep : Deployment Value Args) (claims : McpClaims) (req : ToolCallRequest Value)
    (riskLevel : RiskLevel) (approvalId : Option String) (authorityId policyDecisionId : String)
    (now : Timestamp) : AuthorityRecord :=
  { authorityId := authorityId
    actor := claims.sub
    agentInstance := claims.agentId
    onBehalfOf := claims.delegatedBy
    tenantId := claims.tenantId
    workspaceId := claims.workspaceId
    repo := req.repo
    runId := claims.runId
    taskId := claims.taskId
    toolId := req.tool
    toolManifestHash := "sha256-manifest-placeholder"
    toolSchemaVersion := "2025-06-18"
    action := req.tool
    payloadDigest := payloadDigest dep req
    policyDecisionId := policyDecisionId
    policyVersion := "1.0.0"
    approvalId := approvalId
    riskLevel := riskLevel.name
    expiry := (now + 5 * 60 * 1000000000) / 1000000000
    outcome := "executed" }

/-- Step 5: mint the authority record, record the decision and run the tool. -/
def authorise (dep : Deployment Value Args) (claims : McpClaims) (req : ToolCallRequest Value)
    (riskLevel : RiskLevel) (approvalId : Option String) :
    GatewayProc Value Args (Response Value) :=
  (perform .newUuid).bind fun uuid =>
  let authorityId := "auth-" ++ uuid
  (perform .newUuid).bind fun policyDecisionId =>
  (perform .now).bind fun now =>
  (perform (.insertAuthority
    (newAuthority dep claims req riskLevel approvalId authorityId policyDecisionId now))).bind fun _ =>
  (perform .now).bind fun now =>
  (perform (.saveDecision (newDecision claims req policyDecisionId
    ("Authorized tool execution with authority_id=" ++ authorityId) ["Allow"] "allowed" now))).bind
    fun _ =>
  (runTool dep req).bind fun
    | .error e => .ret (denied (some authorityId) e)
    | .ok result =>
        .ret (.tool
          { status := "success", authorityId := some authorityId, result := some result
            reason := none })

/-- `call_tool` from step 1 on, with the claims of the token. -/
def callWithClaims (dep : Deployment Value Args) (claims : McpClaims)
    (req : ToolCallRequest Value) : GatewayProc Value Args (Response Value) :=
  match riskAndScope req.tool with
  | none => .ret (.failure 400 "unknown_tool" none)
  | some (riskLevel, requiredScope) =>
      if requiredScope ∉ claims.scopes then
        .ret (denied none ("Missing required scope: " ++ requiredScope))
      else if exceedsMaxRisk riskLevel claims.maxRisk then
        .ret (denied none "Tool risk level exceeds maximum allowed risk level")
      else if riskLevel = .destructive then
        (perform .now).bind fun now =>
        (perform (.checkApproval (approvalKey dep claims req) now)).bind fun
          | .consumed id => authorise dep claims req riskLevel (some id)
          | .refused staleStatus => escalate dep claims req staleStatus
          | .panicked => .ret .panicked
      else authorise dep claims req riskLevel none

def callTool (dep : Deployment Value Args) (headers : Headers) (body : Value) :
    GatewayProc Value Args (Response Value) :=
  (perform .revocations).bind fun revocations =>
    match validateAuth dep headers revocations with
    | .error response => .ret response
    | .ok claims =>
        match dep.toolCallRequest body with
        | .error message => .ret (.failure 400 message none)
        | .ok req => callWithClaims dep claims req

/-- The approval a request creates, with its UUID and its time. -/
def newApproval (req : CreateApprovalRequest) (uuid : String) (now : Timestamp) : HumanApproval :=
  { approvalId := "appr-" ++ uuid
    runId := req.runId
    taskId := req.taskId
    action := req.action
    payloadDigest := req.payloadDigest
    approvedBy := req.approvedBy
    createdAt := now
    used := false }

def createApproval (req : CreateApprovalRequest) : GatewayProc Value Args (Response Value) :=
  (perform .newUuid).bind fun uuid =>
  (perform .now).bind fun now =>
  (perform (.insertApproval (newApproval req uuid now))).bind fun _ =>
  .ret (.approvalCreated (newApproval req uuid now).approvalId)

def revokeToken (jti sessionId : Option String) : GatewayProc Value Args (Response Value) :=
  (perform (.revoke jti sessionId)).bind fun _ => .ret .revocationUpdated

/-- A request to the gateway. -/
inductive Request (Value : Type)
  | callTool (headers : Headers) (body : Value)
  | createApproval (req : CreateApprovalRequest)
  | revokeToken (jti sessionId : Option String)

def Request.program (dep : Deployment Value Args) :
    Request Value → GatewayProc Value Args (Response Value)
  | .callTool headers body => Gateway.callTool dep headers body
  | .createApproval req => Gateway.createApproval req
  | .revokeToken jti sessionId => Gateway.revokeToken jti sessionId

/-! ## The state -/

/-- What answers the gateway from outside: at the `n`-th such call the time, a UUID, the order of a walk
over the approvals and the answers of the memory backends. -/
structure World (Value Args : Type) where
  clock : Nat → Timestamp
  uuid : Nat → String
  walk : Nat → Iteration String
  memory : Nat → MemoryBackend → MemoryTool → Args → Except String Value

structure GatewayState where
  approvals : Approvals
  authorityRecords : HashMap String AuthorityRecord
  decisions : HashMap String DecisionRecord
  revocations : RevocationList
  /-- The number of calls answered from outside. -/
  calls : Nat

namespace GatewayState

def init : GatewayState :=
  { approvals := ∅, authorityRecords := ∅, decisions := ∅, revocations := ⟨∅, ∅⟩, calls := 0 }

def exec (world : World Value Args) :
    (op : GatewayOp Args) → GatewayState → op.Ans Value × GatewayState
  | .revocations, s => (s.revocations, s)
  | .revoke jti sessionId, s =>
      ((), { s with revocations :=
        { revokedJtis := s.revocations.revokedJtis ∪ jti.toFinset
          revokedSessions := s.revocations.revokedSessions ∪ sessionId.toFinset } })
  | .now, s => (world.clock s.calls, { s with calls := s.calls + 1 })
  | .newUuid, s => (world.uuid s.calls, { s with calls := s.calls + 1 })
  | .insertApproval a, s => ((), { s with approvals := s.approvals.insert a.approvalId a })
  | .checkApproval key now, s =>
      let (result, approvals) := s.approvals.check (world.walk s.calls) key now
      (result, { s with approvals := approvals, calls := s.calls + 1 })
  | .insertAuthority record, s =>
      ((), { s with authorityRecords := s.authorityRecords.insert record.authorityId record })
  | .saveDecision decision, s =>
      -- A decision with a known id is an error, which nobody sees.
      ((), { s with decisions := s.decisions.orInsert decision.decisionId decision })
  | .memory backend tool args, s =>
      (world.memory s.calls backend tool args, { s with calls := s.calls + 1 })

end GatewayState

end Gateway
end Aivcs
