import Aivcs.Gateway.Approvals

/-!
# Gateway.AuthorityRecords — whether the records tell what became of a call

The record of a call is written before the tool runs, with the outcome `executed`, and is not looked at
again.  A memory tool can still fail, and its call is then answered `denied`.

* `truthful_iff` — the records tell the truth exactly when that does not happen.
-/

namespace Aivcs
namespace Gateway

open Aivcs.Lib
open Aivcs.State (Timestamp)

variable {Value Args : Type}

/-! ## The outcome of a call -/

namespace Response

def status? : Response Value → Option String
  | .tool response => some response.status
  | _ => none

def authorityId? : Response Value → Option String
  | .tool response => response.authorityId
  | _ => none

end Response

/-- The record has been added to the table. -/
structure Recorded (before after : GatewayState) (record : AuthorityRecord) : Prop where
  added : after.authorityRecords.lookup record.authorityId = some record
  new : record.authorityId ∉ before.authorityRecords

/-- An execution is on record exactly for a call that was answered with success, and a call that was refused
before an authority was minted is not on record. -/
structure Truthful (before : GatewayState) (end_ : Response Value × GatewayState) : Prop where
  executed : (∃ record, Recorded before end_.2 record ∧ record.outcome = "executed") ↔
    end_.1.status? = some "success"
  refused : end_.1.authorityId? = none → end_.2.authorityRecords = before.authorityRecords

section Calls

variable (dep : Deployment Value Args) (world : World Value Args) (headers : Headers) (body : Value)
  (s : GatewayState)

/-- `call_tool`, run from the state. -/
def answer : Response Value × GatewayState :=
  (callTool dep headers body).run (GatewayState.exec world) s

/-- The UUIDs that are drawn from now on are in no record. -/
def FreshIds : Prop :=
  ∀ n, s.calls ≤ n → "auth-" ++ world.uuid n ∉ s.authorityRecords

/-- The call has a valid token, the scope and no more risk than is allowed. -/
structure Admitted (claims : McpClaims) (req : ToolCallRequest Value) (riskLevel : RiskLevel) : Prop where
  token : validateAuth dep headers s.revocations = .ok claims
  request : dep.toolCallRequest body = .ok req
  scope : ∃ scope ∈ claims.scopes, riskAndScope req.tool = some (riskLevel, scope)
  risk : exceedsMaxRisk riskLevel claims.maxRisk = false

/-- What the block under the approvals lock finds for the call. -/
def approvalCheck (claims : McpClaims) (req : ToolCallRequest Value) : ApprovalCheck × Approvals :=
  s.approvals.check (world.walk (s.calls + 1)) (approvalKey dep claims req) (world.clock s.calls)

/-- And if it is destructive, there is an approval for it. -/
structure Authorised (claims : McpClaims) (req : ToolCallRequest Value) (riskLevel : RiskLevel) : Prop
    extends Admitted dep headers body s claims req riskLevel where
  approval : riskLevel = .destructive → ∃ id, (approvalCheck dep world s claims req).1 = .consumed id

/-- No backend that is asked answers, from the `n`-th outside call on. -/
def BackendsFail (n : Nat) (tool : MemoryTool) (args : Args) : Prop :=
  match dep.backendSelector with
  | .localOnly => (world.memory n .surreal tool args).isOk = false
  | .momPrimary =>
      if dep.momConfigured then
        (world.memory n .mom tool args).isOk = false ∧ (world.memory (n + 1) .surreal tool args).isOk = false
      else (world.memory n .surreal tool args).isOk = false
  | .surrealPrimary =>
      (world.memory n .surreal tool args).isOk = false ∧
        (dep.momConfigured = true → (world.memory (n + 1) .mom tool args).isOk = false)

/-- The tool is a memory tool, and its arguments do not decode or its backends fail. -/
def MemoryFails (n : Nat) (req : ToolCallRequest Value) : Prop :=
  ∃ tool : MemoryTool, req.tool = tool.name ∧
    ∀ args, dep.memoryArguments tool req.arguments = .ok args → BackendsFail dep world n tool args

/-- The outside calls before the tool's own: two times, two UUIDs, and for a destructive tool two more. -/
def toolCalls (riskLevel : RiskLevel) : Nat :=
  if riskLevel = .destructive then 6 else 4

/-- The call of a memory tool is authorised and fails. -/
def FailsAuthorised : Prop :=
  ∃ claims req riskLevel, Authorised dep world headers body s claims req riskLevel ∧
    MemoryFails dep world (s.calls + toolCalls riskLevel) req

end Calls

/-! ## Running the tool -/

section Tools

variable {dep : Deployment Value Args} {world : World Value Args}

theorem authorityRecords_of_calls {α : Type} {p : GatewayProc Value Args α} (hp : p.Calls Quiet)
    (s : GatewayState) : (p.run (GatewayState.exec world) s).2.authorityRecords = s.authorityRecords := by
  induction p generalizing s with
  | ret a =>
      rfl
  | call op next ih =>
      rw [Proc.run_call, ih _ (hp.2 _)]
      cases op with
      | insertApproval a => exact hp.1.elim
      | checkApproval key now => exact hp.1.elim
      | insertAuthority record => exact hp.1.elim
      | _ => rfl

theorem run_hybridMemory_isOk (tool : MemoryTool) (args : Args) (s : GatewayState) :
    ((hybridMemory dep tool args).run (GatewayState.exec world) s).1.isOk = false ↔
      BackendsFail dep world s.calls tool args := by
  -- The first backend is asked, and the second only if that fails.
  have hfirst (backend : MemoryBackend) : (perform (.memory backend tool args)).run (GatewayState.exec world) s =
      (world.memory s.calls backend tool args, { s with calls := s.calls + 1 }) := rfl
  unfold hybridMemory BackendsFail
  cases dep.backendSelector with
  | localOnly =>
      exact Iff.rfl
  | momPrimary =>
      dsimp only
      split_ifs
      · rw [Proc.run_bind, hfirst]
        cases world.memory s.calls .mom tool args with
        | ok result => exact iff_of_false nofun fun h => nomatch h.1
        | error e => exact (and_iff_right rfl).symm
      · exact Iff.rfl
  | surrealPrimary =>
      dsimp only
      rw [Proc.run_bind, hfirst]
      cases world.memory s.calls .surreal tool args with
      | ok result => exact iff_of_false nofun fun h => nomatch h.1
      | error e =>
          dsimp only
          split_ifs with hmom
          · exact ⟨fun h => ⟨rfl, fun _ => h⟩, fun h => h.2 hmom⟩
          · exact iff_of_true rfl ⟨rfl, fun h => absurd h hmom⟩

theorem runTool_of_memory {req : ToolCallRequest Value} {tool : MemoryTool} (h : req.tool = tool.name) :
    runTool dep req = runMemoryTool dep tool req.arguments := by
  unfold runTool
  rw [h]
  cases tool <;> rfl

theorem run_runMemoryTool_isOk (tool : MemoryTool) (arguments : Value) (s : GatewayState) :
    ((runMemoryTool dep tool arguments).run (GatewayState.exec world) s).1.isOk = false ↔
      ∀ args, dep.memoryArguments tool arguments = .ok args → BackendsFail dep world s.calls tool args := by
  unfold runMemoryTool
  cases dep.memoryArguments tool arguments with
  | error e =>
      exact iff_of_true rfl nofun
  | ok args =>
      dsimp only
      rw [Proc.run_bind, Proc.run_ret]
      have hmap : ∀ r : Except String Value, (r.map ToolResult.memory).isOk = r.isOk := fun r => by
        cases r <;> rfl
      rw [hmap, run_hybridMemory_isOk]
      exact ⟨fun h args' heq => Except.ok.inj heq ▸ h, fun h => h args rfl⟩

/-- A tool fails only if it is a memory tool that fails. -/
theorem run_runTool_isOk (dep : Deployment Value Args) (world : World Value Args)
    (req : ToolCallRequest Value) (s : GatewayState) :
    ((runTool dep req).run (GatewayState.exec world) s).1.isOk = false ↔
      MemoryFails dep world s.calls req := by
  by_cases hmemory : ∃ tool : MemoryTool, req.tool = tool.name
  · rcases hmemory with ⟨tool, htool⟩
    have hname : ∀ tool' : MemoryTool, req.tool = tool'.name → tool' = tool := by
      intro tool' htool'
      rw [htool] at htool'
      revert htool'
      cases tool <;> cases tool' <;> decide
    rw [runTool_of_memory htool, run_runMemoryTool_isOk]
    constructor
    · intro h
      exact ⟨tool, htool, h⟩
    · rintro ⟨tool', htool', h⟩
      rwa [hname tool' htool'] at h
  -- A tool that is no memory tool does not fail.
  · refine iff_of_false ?_ fun h => hmemory (h.imp fun _ => And.left)
    have hnot : ∀ tool : MemoryTool, req.tool ≠ tool.name := fun tool h => hmemory ⟨tool, h⟩
    have hok : ¬ true = false := by decide
    unfold runTool
    split
    · exact hok
    · exact hok
    · exact hok
    · rename_i h
      exact absurd h (hnot .write)
    · rename_i h
      exact absurd h (hnot .query)
    · rename_i h
      exact absurd h (hnot .contextPack)
    · rename_i h
      exact absurd h (hnot .delete)
    · exact hok

end Tools

/-! ## Running the call -/

section Authorise

variable (dep : Deployment Value Args) (world : World Value Args) (claims : McpClaims)
  (req : ToolCallRequest Value) (riskLevel : RiskLevel) (approvalId : Option String) (s : GatewayState)

/-- The record an authorised call writes. -/
def mintedRecord : AuthorityRecord :=
  newAuthority dep claims req riskLevel approvalId ("auth-" ++ world.uuid s.calls) (world.uuid (s.calls + 1))
    (world.clock (s.calls + 2))

/-- The state in which its tool is run. -/
def minted : GatewayState :=
  let record := mintedRecord dep world claims req riskLevel approvalId s
  let decision := newDecision claims req (world.uuid (s.calls + 1))
    ("Authorized tool execution with authority_id=" ++ record.authorityId) ["Allow"] "allowed"
    (world.clock (s.calls + 3))
  { s with
    authorityRecords := s.authorityRecords.insert record.authorityId record
    decisions := s.decisions.orInsert decision.decisionId decision
    calls := s.calls + 4 }

/-- What it is answered with. -/
def authorisedResponse (authorityId : String) : Except String (ToolResult Value) → Response Value
  | .error e => denied (some authorityId) e
  | .ok result => .tool
      { status := "success", authorityId := some authorityId, result := some result, reason := none }

theorem run_authorise : (authorise dep claims req riskLevel approvalId).run (GatewayState.exec world) s =
    ((runTool dep req).run (GatewayState.exec world) (minted dep world claims req riskLevel approvalId s)).map
      (authorisedResponse ("auth-" ++ world.uuid s.calls)) id := by
  change ((runTool dep req).bind _).run (GatewayState.exec world)
    (minted dep world claims req riskLevel approvalId s) = _
  rw [Proc.run_bind]
  generalize (runTool dep req).run (GatewayState.exec world)
    (minted dep world claims req riskLevel approvalId s) = ended
  rcases ended with ⟨_ | _, _⟩ <;> rfl

/-- The call is answered with success unless its tool fails. -/
theorem status_authorise :
    ((authorise dep claims req riskLevel approvalId).run (GatewayState.exec world) s).1.status? =
      some "success" ↔ ¬ MemoryFails dep world (s.calls + 4) req := by
  have hfails := run_runTool_isOk dep world req (minted dep world claims req riskLevel approvalId s)
  rw [run_authorise, ← show (minted dep world claims req riskLevel approvalId s).calls = s.calls + 4 from rfl,
    ← hfails]
  generalize (runTool dep req).run (GatewayState.exec world)
    (minted dep world claims req riskLevel approvalId s) = ended
  rcases ended with ⟨e | result, s'⟩
  · exact iff_of_false (by simp [authorisedResponse, Response.status?, denied]) (not_not_intro rfl)
  · exact iff_of_true rfl Bool.noConfusion

theorem authorityRecords_authorise :
    ((authorise dep claims req riskLevel approvalId).run (GatewayState.exec world) s).2.authorityRecords =
      s.authorityRecords.insert ("auth-" ++ world.uuid s.calls)
        (mintedRecord dep world claims req riskLevel approvalId s) := by
  rw [run_authorise]
  exact authorityRecords_of_calls (runTool_quiet req) _

theorem authorityId_authorise :
    ((authorise dep claims req riskLevel approvalId).run (GatewayState.exec world) s).1.authorityId? =
      some ("auth-" ++ world.uuid s.calls) := by
  rw [run_authorise]
  generalize (runTool dep req).run (GatewayState.exec world)
    (minted dep world claims req riskLevel approvalId s) = ended
  rcases ended with ⟨_ | _, _⟩ <;> rfl

end Authorise

/-! ## Running the handler -/

section Handler

variable {dep : Deployment Value Args} {world : World Value Args} {headers : Headers} {body : Value}
  {s : GatewayState}

/-- A token that is not accepted is answered with an error. -/
theorem validateAuth_error {revocations : RevocationList} {response : Response Value}
    (h : validateAuth dep headers revocations = .error response) :
    ∃ status error detail, response = .failure status error detail := by
  simp only [validateAuth] at h
  repeat' split at h
  all_goals cases h
  all_goals exact ⟨_, _, _, rfl⟩

/-- The call was answered before an authority was minted. -/
structure Refused (before : GatewayState) (end_ : Response Value × GatewayState) : Prop where
  authorityId : end_.1.authorityId? = none
  status : end_.1.status? ≠ some "success"
  records : end_.2.authorityRecords = before.authorityRecords

/-- What a destructive call does with what the check finds. -/
def afterCheck (dep : Deployment Value Args) (claims : McpClaims) (req : ToolCallRequest Value) :
    ApprovalCheck → GatewayProc Value Args (Response Value)
  | .consumed id => authorise dep claims req .destructive (some id)
  | .refused staleStatus => escalate dep claims req staleStatus
  | .panicked => .ret .panicked

/-- The tool fixes the risk a call is admitted with. -/
theorem Admitted.of_tool {claims : McpClaims} {req : ToolCallRequest Value} {riskLevel riskLevel' : RiskLevel}
    {scope : String} (h : Admitted dep headers body s claims req riskLevel')
    (htool : riskAndScope req.tool = some (riskLevel, scope)) :
    riskLevel' = riskLevel ∧ scope ∈ claims.scopes := by
  rcases h.scope with ⟨scope', hmem, hscope⟩
  cases htool.symm.trans hscope
  exact ⟨rfl, hmem⟩

/-- With a token, a call is admitted, or answered at once. -/
theorem admitted_cases (world : World Value Args) {claims : McpClaims} {req : ToolCallRequest Value}
    (htoken : validateAuth dep headers s.revocations = .ok claims) (hreq : dep.toolCallRequest body = .ok req) :
    (∃ riskLevel, Admitted dep headers body s claims req riskLevel) ∨
    (Refused s ((callWithClaims dep claims req).run (GatewayState.exec world) s) ∧
      ∀ riskLevel, ¬ Admitted dep headers body s claims req riskLevel) := by
  cases htool : riskAndScope req.tool with
  -- A tool without a scope is refused before anything is written.
  | none =>
      rw [callWithClaims, htool]
      refine Or.inr ⟨⟨rfl, nofun, rfl⟩, fun riskLevel h => ?_⟩
      rcases h.scope with ⟨scope, _, hscope⟩
      cases htool.symm.trans hscope
  | some riskScope =>
      rcases riskScope with ⟨riskLevel, scope⟩
      have hdenied : some "denied" ≠ some "success" := by decide
      by_cases hscope : scope ∈ claims.scopes
      · by_cases hrisk : exceedsMaxRisk riskLevel claims.maxRisk = true
        · rw [callWithClaims, htool]
          dsimp only
          rw [if_neg (not_not_intro hscope), if_pos hrisk]
          refine Or.inr ⟨⟨rfl, hdenied, rfl⟩, fun riskLevel' h => ?_⟩
          rw [(h.of_tool htool).1] at h
          exact Bool.noConfusion (hrisk.symm.trans h.risk)
        · exact Or.inl ⟨riskLevel, htoken, hreq, ⟨scope, hscope, htool⟩, Bool.eq_false_iff.2 hrisk⟩
      · rw [callWithClaims, htool]
        dsimp only
        rw [if_pos hscope]
        exact Or.inr ⟨⟨rfl, hdenied, rfl⟩, fun riskLevel' h => hscope (h.of_tool htool).2⟩

/-- An admitted call that is not destructive needs no approval. -/
theorem callWithClaims_of_not_destructive {claims : McpClaims} {req : ToolCallRequest Value}
    {riskLevel : RiskLevel} (h : Admitted dep headers body s claims req riskLevel)
    (hdestructive : riskLevel ≠ .destructive) :
    callWithClaims dep claims req = authorise dep claims req riskLevel none := by
  rcases h.scope with ⟨scope, hscope, htool⟩
  unfold callWithClaims
  rw [htool]
  dsimp only
  rw [if_neg (not_not_intro hscope), if_neg (Bool.eq_false_iff.1 h.risk), if_neg hdestructive]

theorem callWithClaims_of_destructive {claims : McpClaims} {req : ToolCallRequest Value}
    (h : Admitted dep headers body s claims req .destructive) :
    callWithClaims dep claims req =
      (perform .now).bind fun now =>
        (perform (.checkApproval (approvalKey dep claims req) now)).bind (afterCheck dep claims req) := by
  rcases h.scope with ⟨scope, hscope, htool⟩
  unfold callWithClaims
  rw [htool]
  dsimp only
  rw [if_neg (not_not_intro hscope), if_neg (Bool.eq_false_iff.1 h.risk), if_pos rfl]
  refine congrArg _ (funext fun now => congrArg _ (funext fun found => ?_))
  cases found <;> rfl

/-- A destructive call goes as far as its approval. -/
theorem approval_cases (world : World Value Args) {claims : McpClaims} {req : ToolCallRequest Value}
    (hadmitted : Admitted dep headers body s claims req .destructive) :
    (∃ approvalId s', Authorised dep world headers body s claims req .destructive ∧
      s'.authorityRecords = s.authorityRecords ∧ s'.calls + 4 = s.calls + toolCalls .destructive ∧
      (callWithClaims dep claims req).run (GatewayState.exec world) s =
        (authorise dep claims req .destructive approvalId).run (GatewayState.exec world) s') ∨
    (Refused s ((callWithClaims dep claims req).run (GatewayState.exec world) s) ∧
      ¬ Authorised dep world headers body s claims req .destructive) := by
  -- Two calls, the clock and the check, stand before the branch on what the check says.
  have hrun : (callWithClaims dep claims req).run (GatewayState.exec world) s =
      (afterCheck dep claims req (approvalCheck dep world s claims req).1).run (GatewayState.exec world)
        { s with approvals := (approvalCheck dep world s claims req).2, calls := s.calls + 2 } := by
    rw [callWithClaims_of_destructive hadmitted]
    rfl
  rw [hrun]
  cases hcheck : (approvalCheck dep world s claims req).1 with
  | consumed id =>
      exact Or.inl ⟨some id,
        { s with approvals := (approvalCheck dep world s claims req).2, calls := s.calls + 2 },
        ⟨hadmitted, fun _ => ⟨id, hcheck⟩⟩, rfl, rfl, rfl⟩
  | refused staleStatus =>
      refine Or.inr ⟨⟨rfl, ?_, rfl⟩, fun h => ?_⟩
      · have hstatus : "approval_required" ≠ "success" := by decide
        exact fun h => hstatus (Option.some.inj h)
      · rcases h.approval rfl with ⟨id, hid⟩
        cases hcheck.symm.trans hid
  | panicked =>
      refine Or.inr ⟨⟨rfl, nofun, rfl⟩, fun h => ?_⟩
      rcases h.approval rfl with ⟨id, hid⟩
      cases hcheck.symm.trans hid

/-- With a token, a call is authorised and carried out, or refused. -/
theorem callWithClaims_cases (world : World Value Args) {claims : McpClaims} {req : ToolCallRequest Value}
    (htoken : validateAuth dep headers s.revocations = .ok claims) (hreq : dep.toolCallRequest body = .ok req) :
    (∃ riskLevel approvalId s', Authorised dep world headers body s claims req riskLevel ∧
      s'.authorityRecords = s.authorityRecords ∧ s'.calls + 4 = s.calls + toolCalls riskLevel ∧
      (callWithClaims dep claims req).run (GatewayState.exec world) s =
        (authorise dep claims req riskLevel approvalId).run (GatewayState.exec world) s') ∨
    (Refused s ((callWithClaims dep claims req).run (GatewayState.exec world) s) ∧
      ∀ riskLevel, ¬ Authorised dep world headers body s claims req riskLevel) := by
  rcases admitted_cases world htoken hreq with ⟨riskLevel, hadmitted⟩ | ⟨hrefused, hnot⟩
  · by_cases hdestructive : riskLevel = .destructive
    · subst hdestructive
      rcases approval_cases world hadmitted with ⟨approvalId, s', h⟩ | ⟨hrefused, hnot⟩
      · exact Or.inl ⟨_, approvalId, s', h⟩
      · refine Or.inr ⟨hrefused, fun riskLevel' h => hnot ?_⟩
        rcases hadmitted.scope with ⟨scope, _, htool⟩
        exact (h.of_tool htool).1 ▸ h
    · rw [callWithClaims_of_not_destructive hadmitted hdestructive]
      refine Or.inl ⟨riskLevel, none, s, ⟨hadmitted, fun h => absurd h hdestructive⟩, rfl, ?_, rfl⟩
      rw [toolCalls, if_neg hdestructive]
  · exact Or.inr ⟨hrefused, fun riskLevel h => hnot riskLevel h.toAdmitted⟩

theorem answer_eq (dep : Deployment Value Args) (world : World Value Args) (headers : Headers)
    (body : Value) (s : GatewayState) :
    answer dep world headers body s =
      (match validateAuth dep headers s.revocations with
        | .error response => Proc.ret response
        | .ok claims =>
            match dep.toolCallRequest body with
            | .error message => .ret (.failure 400 message none)
            | .ok req => callWithClaims dep claims req : GatewayProc Value Args (Response Value)).run
        (GatewayState.exec world) s := rfl

/-- A call is authorised and carried out, or refused. -/
theorem answer_cases (dep : Deployment Value Args) (world : World Value Args) (headers : Headers)
    (body : Value) (s : GatewayState) :
    (∃ claims req riskLevel approvalId s', Authorised dep world headers body s claims req riskLevel ∧
      s'.authorityRecords = s.authorityRecords ∧ s'.calls + 4 = s.calls + toolCalls riskLevel ∧
      answer dep world headers body s =
        (authorise dep claims req riskLevel approvalId).run (GatewayState.exec world) s') ∨
    (Refused s (answer dep world headers body s) ∧
      ∀ claims req riskLevel, ¬ Authorised dep world headers body s claims req riskLevel) := by
  rw [answer_eq]
  cases htoken : validateAuth dep headers s.revocations with
  | error response =>
      rcases validateAuth_error htoken with ⟨status, error, detail, rfl⟩
      refine Or.inr ⟨⟨rfl, nofun, rfl⟩, fun claims req riskLevel h => ?_⟩
      cases htoken.symm.trans h.token
  | ok claims =>
      cases hreq : dep.toolCallRequest body with
      | error message =>
          refine Or.inr ⟨⟨rfl, nofun, rfl⟩, fun claims req riskLevel h => ?_⟩
          cases hreq.symm.trans h.request
      | ok req =>
          rcases callWithClaims_cases world htoken hreq with
            ⟨riskLevel, approvalId, s', h⟩ | ⟨hrefused, hnot⟩
          · exact Or.inl ⟨claims, req, riskLevel, approvalId, s', h⟩
          · refine Or.inr ⟨hrefused, fun claims' req' riskLevel h => hnot riskLevel ?_⟩
            cases htoken.symm.trans h.token
            cases hreq.symm.trans h.request
            exact h

/-- There is one request and one risk to be authorised for. -/
theorem Authorised.unique {claims claims' : McpClaims} {req req' : ToolCallRequest Value}
    {riskLevel riskLevel' : RiskLevel} (h : Authorised dep world headers body s claims req riskLevel)
    (h' : Authorised dep world headers body s claims' req' riskLevel') : req = req' ∧ riskLevel = riskLevel' := by
  cases h.request.symm.trans h'.request
  rcases h'.scope with ⟨scope, _, htool⟩
  exact ⟨rfl, (h.of_tool htool).1⟩

/-- A call that was refused is not on record. -/
theorem Refused.truthful {end_ : Response Value × GatewayState} (h : Refused s end_) :
    Truthful s end_ where
  executed := by
    refine iff_of_false ?_ h.status
    rintro ⟨record, hrecorded, _⟩
    have hadded := hrecorded.added
    rw [h.records] at hadded
    exact hrecorded.new (Finmap.mem_of_lookup_eq_some hadded)
  refused _ := h.records

end Handler

section Outcomes

variable {dep : Deployment Value Args} {world : World Value Args} {headers : Headers} {body : Value}
  {s : GatewayState}

/-- The record of an authorised call is right exactly when its tool does not fail. -/
theorem truthful_authorise_iff {s' : GatewayState} (hrecords : s'.authorityRecords = s.authorityRecords)
    (hmint : "auth-" ++ world.uuid s'.calls ∉ s.authorityRecords) (claims : McpClaims)
    (req : ToolCallRequest Value) (riskLevel : RiskLevel) (approvalId : Option String) :
    Truthful s ((authorise dep claims req riskLevel approvalId).run (GatewayState.exec world) s') ↔
      ¬ MemoryFails dep world (s'.calls + 4) req := by
  have htable := authorityRecords_authorise dep world claims req riskLevel approvalId s'
  rw [hrecords] at htable
  have hrecorded : Recorded s ((authorise dep claims req riskLevel approvalId).run (GatewayState.exec world) s').2
      (mintedRecord dep world claims req riskLevel approvalId s') := by
    refine ⟨?_, hmint⟩
    rw [htable]
    exact Finmap.lookup_insert _
  rw [← status_authorise dep world claims req riskLevel approvalId s']
  constructor
  · intro h
    exact h.executed.1 ⟨_, hrecorded, rfl⟩
  · intro h
    refine ⟨iff_of_true ⟨_, hrecorded, rfl⟩ h, fun hnone => ?_⟩
    cases (authorityId_authorise dep world claims req riskLevel approvalId s').symm.trans hnone

theorem FreshIds.not_mem (hfresh : FreshIds world s) {riskLevel : RiskLevel} {n : Nat}
    (hn : n + 4 = s.calls + toolCalls riskLevel) : "auth-" ++ world.uuid n ∉ s.authorityRecords := by
  have hpos : 4 ≤ toolCalls riskLevel := by
    unfold toolCalls
    split <;> decide
  exact hfresh n (by omega)

/-- The record of a memory tool that fails is wrong. -/
theorem FailsAuthorised.not_truthful (h : FailsAuthorised dep world headers body s) (hfresh : FreshIds world s) :
    ¬ Truthful s (answer dep world headers body s) := by
  rcases h with ⟨claims, req, riskLevel, hauthorised, hfails⟩
  rcases answer_cases dep world headers body s with
    ⟨claims', req', riskLevel', approvalId, s', hauthorised', hrecords, hcalls, hrun⟩ | ⟨_, hnot⟩
  · rcases hauthorised.unique hauthorised' with ⟨rfl, rfl⟩
    rw [hrun, truthful_authorise_iff hrecords (hfresh.not_mem hcalls), hcalls]
    exact not_not_intro hfails
  · exact absurd hauthorised (hnot claims req riskLevel)

end Outcomes

/-- Authority records tell the truth about a call exactly when it is not an authorised call of a memory tool
that fails. -/
theorem truthful_iff (dep : Deployment Value Args) (world : World Value Args) (headers : Headers)
    (body : Value) (s : GatewayState) (hfresh : FreshIds world s) :
    Truthful s (answer dep world headers body s) ↔ ¬ FailsAuthorised dep world headers body s := by
  constructor
  · intro h hfails
    exact hfails.not_truthful hfresh h
  · intro h
    rcases answer_cases dep world headers body s with
      ⟨claims, req, riskLevel, approvalId, s', hauthorised, hrecords, hcalls, hrun⟩ | ⟨hrefused, _⟩
    · rw [hrun, truthful_authorise_iff hrecords (hfresh.not_mem hcalls), hcalls]
      exact fun hfails => h ⟨claims, req, riskLevel, hauthorised, hfails⟩
    · exact hrefused.truthful

/-! ## A write whose arguments do not decode, and one that is done -/

/-- A write needs a kind and a content. -/
def writeArguments (args : Json) : Except String Unit :=
  match (args.field? "kind").bind Json.asStr?, args.field? "content" with
  | some _, some _ => .ok ()
  | _, _ => .error "Invalid memory::write arguments: missing field"

def writerGateway : Deployment Json Unit :=
  { demoGateway with
    memoryArguments := fun _ args => writeArguments args
    decode := fun _ _ => .ok { demoClaims with scopes := ["memory.write"], maxRisk := "write" } }

/-- The backends answer. -/
def writerWorld : World Json Unit :=
  { demoWorld with memory := fun _ _ _ _ => .ok (.obj [("status", .str "persisted")]) }

def writeHeaders : Headers :=
  ⟨some "2025-06-18", some "session", some "Bearer token"⟩

def writeBody (arguments : Json) : Json :=
  .obj [("tool", .str "memory::write"), ("arguments", arguments), ("repo", .str "org/repo")]

def factArguments : Json :=
  .obj [("kind", .str "fact"), ("content", .str "the build is green")]

theorem freshIds_init : FreshIds writerWorld .init := fun _ _ => Finmap.notMem_empty

theorem failsAuthorised_write :
    FailsAuthorised writerGateway writerWorld writeHeaders (writeBody (.obj [])) .init := by
  refine ⟨_, ⟨"memory::write", .obj [], "org/repo", none⟩, .write, ⟨⟨rfl, rfl, ⟨"memory.write", ?_, rfl⟩, rfl⟩,
    nofun⟩, .write, rfl, nofun⟩
  exact List.mem_singleton.2 rfl

theorem not_failsAuthorised_write :
    ¬ FailsAuthorised writerGateway writerWorld writeHeaders (writeBody factArguments) .init := by
  rintro ⟨claims, req, riskLevel, hauthorised, tool, -, hfails⟩
  obtain rfl : ⟨"memory::write", factArguments, "org/repo", none⟩ = req := Except.ok.inj hauthorised.request
  -- the arguments decode, and the backend answers
  cases hfails () rfl

/-- Without arguments the record is wrong; with them it is right, and the call is answered with success. -/
theorem truthful_iff_write : FreshIds writerWorld .init ∧
    ¬ Truthful .init (answer writerGateway writerWorld writeHeaders (writeBody (.obj [])) .init) ∧
    Truthful .init (answer writerGateway writerWorld writeHeaders (writeBody factArguments) .init) ∧
    (answer writerGateway writerWorld writeHeaders (writeBody factArguments) .init).1.status? = some "success" :=
  ⟨freshIds_init, fun h => (truthful_iff _ _ _ _ _ freshIds_init).1 h failsAuthorised_write,
    (truthful_iff _ _ _ _ _ freshIds_init).2 not_failsAuthorised_write, rfl⟩

theorem not_truthful_write : FreshIds writerWorld .init ∧
    ¬ Truthful .init (answer writerGateway writerWorld writeHeaders (writeBody (.obj [])) .init) :=
  ⟨freshIds_init, failsAuthorised_write.not_truthful freshIds_init⟩

end Gateway
end Aivcs
