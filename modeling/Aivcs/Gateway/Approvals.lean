import Aivcs.Gateway.CallTool
import Aivcs.Lib.Digest
import Aivcs.Lib.Json
import Aivcs.Lib.Log
import Mathlib.Data.Set.Function
import Mathlib.Data.String.Basic

/-!
# Gateway.Approvals — an approval is used once, for what was asked

The order of the two writes to one approval is that of a log: the call that creates it, then the call that
uses it.  A UUID is drawn for each approval, so none replaces another, and a used one is never found again.

The clock may run backwards: an approval that is used was created before, whatever its time says.
-/

namespace Aivcs
namespace Gateway

open Aivcs.Lib
open Aivcs.Lib.Interleaving
open Aivcs.State (Timestamp)

variable {Value Args : Type}

/-! ## One check -/

namespace Approvals

variable {walk : Iteration String} {approvals : Approvals}

/-- Every approval is stored under its own id. -/
def Keyed (approvals : Approvals) : Prop :=
  ∀ id a, approvals.lookup id = some a → a.approvalId = id

theorem mem_values {a : HumanApproval} :
    a ∈ approvals.values walk ↔ ∃ id, approvals.lookup id = some a := by
  unfold values
  rw [List.mem_filterMap]
  constructor
  · rintro ⟨id, -, hid⟩
    exact ⟨id, hid⟩
  · rintro ⟨id, hid⟩
    exact ⟨id, (walk.mem_list _ _).2 (Finmap.mem_keys.2 (Finmap.mem_of_lookup_eq_some hid)), hid⟩

/-- A check takes an approval that authorises the call, or there is none. -/
theorem check_cases (hkeyed : approvals.Keyed) (walk : Iteration String) (key : ApprovalKey)
    (now : Timestamp) :
    (∃ a, approvals.lookup a.approvalId = some a ∧ a.Authorises key now ∧
      approvals.check walk key now =
        (.consumed a.approvalId, approvals.insert a.approvalId { a with used := true })) ∨
    (∃ stale, approvals.check walk key now = (.refused stale, approvals) ∧
      ∀ id a, approvals.lookup id = some a → ¬ a.Authorises key now) := by
  cases hfind : (approvals.values walk).find? fun a => a.Authorises key now with
  | some a =>
      refine Or.inl ⟨a, ?_⟩
      rcases mem_values.1 (List.mem_of_find?_eq_some hfind) with ⟨id, hid⟩
      obtain rfl := hkeyed id a hid
      refine ⟨hid, by simpa using List.find?_some hfind, ?_⟩
      simp [check, hfind, HashMap.modify?, hid]
  | none =>
      refine Or.inr ⟨_, by simp only [check, hfind, Option.map_none]; rfl, ?_⟩
      intro id a hid
      simpa using List.find?_eq_none.1 hfind a (mem_values.2 ⟨id, hid⟩)

end Approvals

/-! ## What one request may send -/

abbrev GatewayHistory (Value Args : Type) : Type :=
  History (GatewayOp Args) (GatewayOp.Ans Value)

abbrev GatewayEntry (Value Args ι : Type) : Type :=
  Entry (GatewayOp Args) (GatewayOp.Ans Value) ι

abbrev GatewayConfig (Value Args ι : Type) : Type :=
  Config (GatewayOp Args) (GatewayOp.Ans Value) (Response Value) GatewayState ι

section Requests

variable (dep : Deployment Value Args)

/-- After the calls of `h` the request is a destructive tool call with these claims. -/
structure Asks (h : GatewayHistory Value Args) (request : Request Value) (claims : McpClaims)
    (req : ToolCallRequest Value) : Prop where
  accepted : ∃ headers body revocations, request = .callTool headers body ∧
    ⟨.revocations, revocations⟩ ∈ h ∧ validateAuth dep headers revocations = .ok claims ∧
    dep.toolCallRequest body = .ok req
  destructive : ∃ scope, riskAndScope req.tool = some (.destructive, scope)

/-- Approvals are inserted by the requests that create them, once and with a new UUID, and looked up by
destructive tool calls, for their own key; a destructive authority names an approval that was taken. -/
def Request.Sends (request : Request Value) (h : GatewayHistory Value Args) :
    GatewayOp Args → Prop
  | .insertApproval a => ∃ req uuid now, request = .createApproval req ∧
      h = [⟨.newUuid, uuid⟩, ⟨.now, now⟩] ∧ a = newApproval req uuid now
  | .checkApproval key now => ∃ claims req, Asks dep h request claims req ∧
      key = approvalKey dep claims req ∧ ⟨.now, now⟩ ∈ h
  | .insertAuthority record => record.riskLevel = RiskLevel.destructive.name →
      ∃ key now id, record.approvalId = some id ∧ ⟨.checkApproval key now, .consumed id⟩ ∈ h
  | _ => True

/-- The calls that leave approvals and authorities alone. -/
def Quiet : GatewayOp Args → Prop
  | .insertApproval _ | .checkApproval _ _ | .insertAuthority _ => False
  | _ => True

variable {dep}

theorem Quiet.sends {op : GatewayOp Args} (hop : Quiet op) (request : Request Value)
    (h : GatewayHistory Value Args) : request.Sends dep h op := by
  cases op <;> trivial

theorem hybridMemory_quiet (tool : MemoryTool) (args : Args) :
    (hybridMemory dep tool args).Calls Quiet := by
  unfold hybridMemory
  cases dep.backendSelector with
  | localOnly =>
      exact ⟨trivial, fun _ => trivial⟩
  | momPrimary =>
      -- The fallback is one more call to the other backend, which shows nothing of an approval.
      split_ifs
      · refine ⟨trivial, fun r => ?_⟩
        cases r with
        | ok result =>
            trivial
        | error e =>
            exact ⟨trivial, fun _ => trivial⟩
      · exact ⟨trivial, fun _ => trivial⟩
  | surrealPrimary =>
      refine ⟨trivial, fun r => ?_⟩
      cases r with
      | ok result =>
          trivial
      | error e =>
          simp only [Proc.bind_ret]
          split_ifs
          · exact ⟨trivial, fun _ => trivial⟩
          · trivial

theorem runTool_quiet (req : ToolCallRequest Value) : (runTool dep req).Calls Quiet := by
  have hmemory (tool : MemoryTool) : (runMemoryTool dep tool req.arguments).Calls Quiet := by
    unfold runMemoryTool
    split
    · trivial
    · exact (hybridMemory_quiet tool _).bind fun _ => trivial
  unfold runTool
  split <;> first | trivial | exact hmemory _

theorem obeys_authorise {request : Request Value} {claims : McpClaims}
    {req : ToolCallRequest Value} {riskLevel : RiskLevel} {approvalId : Option String}
    {h : GatewayHistory Value Args}
    (htaken : riskLevel = .destructive →
      ∃ key now id, approvalId = some id ∧ ⟨.checkApproval key now, .consumed id⟩ ∈ h) :
    (authorise dep claims req riskLevel approvalId).Obeys (request.Sends dep)
      (fun _ _ => True) h := by
  refine ⟨trivial, fun uuid => ⟨trivial, fun policyDecisionId => ⟨trivial, fun now => ⟨?_, ?_⟩⟩⟩⟩
  · intro hrisk
    rcases htaken (RiskLevel.name_injective hrisk) with ⟨key, now', id, rfl, hmem⟩
    exact ⟨key, now', id, rfl, by simp [hmem]⟩
  · refine fun _ => ⟨trivial, fun _ => ⟨trivial, fun _ => ?_⟩⟩
    refine Proc.Calls.obeys ((runTool_quiet req).bind ?_) (fun h op hop => hop.sends request h)
      (fun _ _ => trivial) _
    rintro (e | result) <;> trivial

theorem obeys_callWithClaims {request : Request Value} {claims : McpClaims}
    {req : ToolCallRequest Value} {h : GatewayHistory Value Args}
    (hasks : ∀ scope, riskAndScope req.tool = some (.destructive, scope) →
      ∀ now, Asks dep (h ++ [⟨.now, now⟩]) request claims req) :
    (callWithClaims dep claims req).Obeys (request.Sends dep) (fun _ _ => True) h := by
  unfold callWithClaims
  cases hrisk : riskAndScope req.tool with
  | none =>
      trivial
  | some found =>
      rcases found with ⟨riskLevel, scope⟩
      dsimp only
      by_cases hscope : scope ∉ claims.scopes
      · rw [if_pos hscope]
        trivial
      · rw [if_neg hscope]
        by_cases hmax : exceedsMaxRisk riskLevel claims.maxRisk
        · rw [if_pos hmax]
          trivial
        · rw [if_neg hmax]
          by_cases hdestructive : riskLevel = .destructive
          · subst hdestructive
            rw [if_pos rfl]
            refine ⟨trivial, fun now => ⟨⟨claims, req, hasks scope hrisk now, rfl, by simp⟩, ?_⟩⟩
            rintro (id | stale | _)
            · exact obeys_authorise fun _ => ⟨approvalKey dep claims req, now, id, rfl, by simp⟩
            · exact ⟨trivial, fun _ => ⟨trivial, fun _ => ⟨trivial, fun _ => trivial⟩⟩⟩
            · trivial
          · rw [if_neg hdestructive]
            exact obeys_authorise fun h => absurd h hdestructive

/-- Every request keeps to what it may send. -/
theorem obeys_program (request : Request Value) :
    (request.program dep).Obeys (request.Sends dep) (fun _ _ => True) [] := by
  cases request with
  | revokeToken jti sessionId =>
      exact ⟨trivial, fun _ => trivial⟩
  | createApproval req =>
      exact ⟨trivial, fun uuid => ⟨trivial, fun now => ⟨⟨req, uuid, now, rfl, rfl, rfl⟩,
        fun _ => trivial⟩⟩⟩
  | callTool headers body =>
      refine ⟨trivial, fun revocations => ?_⟩
      simp only [Proc.bind_ret, List.nil_append]
      cases hclaims : validateAuth dep headers revocations with
      | error response =>
          trivial
      | ok claims =>
          cases hreq : dep.toolCallRequest body with
          | error message =>
              trivial
          | ok req =>
              refine obeys_callWithClaims fun scope hrisk now => ⟨?_, scope, hrisk⟩
              exact ⟨headers, body, revocations, rfl, by simp, hclaims, hreq⟩

end Requests

/-! ## What holds along a log -/

section Log

variable {ι : Type} [DecidableEq ι] {dep : Deployment Value Args} {world : World Value Args}
  {requests : ι → Request Value} {log : List (GatewayEntry Value Args ι)}
  {c : GatewayConfig Value Args ι}

/-- The requests, none of which has been worked on, at a gateway that has just started. -/
def gateway (dep : Deployment Value Args) (requests : ι → Request Value) :
    GatewayConfig Value Args ι :=
  ⟨.init, fun i => (requests i).program dep⟩

omit [DecidableEq ι] in
theorem obeys_gateway (i : ι) :
    ((gateway dep requests).procs i).Obeys ((requests i).Sends dep) (fun _ _ => True) [] :=
  obeys_program (requests i)

theorem calls_le_exec (op : GatewayOp Args) (s : GatewayState) :
    s.calls ≤ (GatewayState.exec world op s).2.calls := by
  cases op <;> simp [GatewayState.exec]

omit [DecidableEq ι] in
theorem exec_check_cases (world : World Value Args) {s : GatewayState}
    (hkeyed : s.approvals.Keyed) (key : ApprovalKey) (now : Timestamp) :
    (∃ a, s.approvals.lookup a.approvalId = some a ∧ a.Authorises key now ∧
      (GatewayState.exec world (.checkApproval key now) s).1 = .consumed a.approvalId ∧
      (GatewayState.exec world (.checkApproval key now) s).2.approvals =
        s.approvals.insert a.approvalId { a with used := true }) ∨
    ∃ stale, (GatewayState.exec world (.checkApproval key now) s).1 = .refused stale ∧
      (GatewayState.exec world (.checkApproval key now) s).2.approvals = s.approvals := by
  rcases Approvals.check_cases hkeyed (world.walk s.calls) key now with
    ⟨a, ha, hauth, hcheck⟩ | ⟨stale, hcheck, -⟩
  · exact Or.inl ⟨a, ha, hauth, by simp [GatewayState.exec, hcheck]⟩
  · exact Or.inr ⟨stale, by simp [GatewayState.exec, hcheck]⟩

omit [DecidableEq ι] in
/-- A call leaves the approvals, inserts one, or uses one that was not. -/
theorem exec_approvals_cases {s : GatewayState} (hkeyed : s.approvals.Keyed)
    (op : GatewayOp Args) :
    (GatewayState.exec world op s).2.approvals = s.approvals ∨
    (∃ b, op = .insertApproval b ∧
      (GatewayState.exec world op s).2.approvals = s.approvals.insert b.approvalId b) ∨
    ∃ b key now, op = .checkApproval key now ∧ s.approvals.lookup b.approvalId = some b ∧
      b.used = false ∧ (GatewayState.exec world op s).2.approvals =
        s.approvals.insert b.approvalId { b with used := true } := by
  cases op with
  | insertApproval b =>
      exact Or.inr (Or.inl ⟨b, rfl, rfl⟩)
  | checkApproval key now =>
      rcases exec_check_cases world hkeyed key now with ⟨b, hb, hauth, -, hused⟩ | ⟨stale, -, hsame⟩
      · exact Or.inr (Or.inr ⟨b, key, now, rfl, hb, hauth.2.1, hused⟩)
      · exact Or.inl hsame
  | _ =>
      exact Or.inl rfl

theorem uuid_of_mem (h : Logged (GatewayState.exec world) (gateway dep requests) log c) {i : ι}
    {uuid : String} (hmem : ⟨i, .newUuid, uuid⟩ ∈ log) :
    ∃ k < c.store.calls, uuid = world.uuid k := by
  induction h with
  | start =>
      cases hmem
  | @call log c h j op next hcall ih =>
      rw [Config.fire_of_call hcall]
      rcases List.mem_append.1 hmem with hold | hnew
      · rcases ih hold with ⟨k, hk, rfl⟩
        exact ⟨k, Nat.lt_of_lt_of_le hk (calls_le_exec op _), rfl⟩
      · cases List.mem_singleton.1 hnew
        exact ⟨c.store.calls, Nat.lt_succ_self _, rfl⟩

/-- No UUID is drawn twice. -/
theorem drawn_once (huuid : Function.Injective world.uuid)
    (h : Logged (GatewayState.exec world) (gateway dep requests) log c) {i j : ι} {uuid : String}
    (hi : ⟨i, .newUuid, uuid⟩ ∈ log) (hj : ⟨j, .newUuid, uuid⟩ ∈ log) : i = j := by
  -- The later of two draws is of a number beyond all those before.
  have hlater {i j : ι} {m n : Nat} (hm : log[m]? = some ⟨i, .newUuid, uuid⟩)
      (hn : log[n]? = some ⟨j, .newUuid, uuid⟩) : ¬ m < n := by
    intro hlt
    rcases h.of_getElem? hn with ⟨c', next, hlog, -, hans⟩
    have hmem : ⟨i, .newUuid, uuid⟩ ∈ log.take n :=
      List.mem_iff_getElem?.2 ⟨m, by rw [List.getElem?_take_of_lt hlt, hm]⟩
    rcases uuid_of_mem hlog hmem with ⟨k, hk, heq⟩
    have := huuid (heq.symm.trans hans)
    omega
  rcases List.mem_iff_getElem?.1 hi with ⟨m, hm⟩
  rcases List.mem_iff_getElem?.1 hj with ⟨n, hn⟩
  obtain rfl : m = n := by
    have := hlater hm hn
    have := hlater hn hm
    omega
  rw [hm] at hn
  cases hn
  rfl

omit [DecidableEq ι] in
theorem Approvals.Keyed.exec {s : GatewayState} (h : s.approvals.Keyed) (op : GatewayOp Args) :
    (GatewayState.exec world op s).2.approvals.Keyed := by
  have hinsert {b : HumanApproval} : Approvals.Keyed (s.approvals.insert b.approvalId b) := by
    intro id a hid
    rw [HashMap.lookup_insert_apply] at hid
    split_ifs at hid with hkey
    · obtain rfl := Option.some.inj hid
      exact hkey.symm
    · exact h id a hid
  rcases exec_approvals_cases h op with hsame | ⟨b, -, hinserted⟩ | ⟨b, -, -, -, -, -, hused⟩
  · rwa [hsame]
  · rw [hinserted]
    exact hinsert
  · rw [hused]
    exact hinsert (b := { b with used := true })

theorem keyed_of_logged (h : Logged (GatewayState.exec world) (gateway dep requests) log c) :
    c.store.approvals.Keyed := by
  induction h with
  | start =>
      intro id a hid
      simp [gateway, GatewayState.init] at hid
  | call h i op next hcall ih =>
      rw [Config.fire_of_call hcall]
      exact ih.exec op

/-- Every approval in the table was inserted unused, and one that has been taken is in it and used. -/
structure Orderly (log : List (GatewayEntry Value Args ι)) (s : GatewayState) : Prop where
  stored : ∀ id a, s.approvals.lookup id = some a →
    ∃ j, ⟨j, .insertApproval { a with used := false }, ()⟩ ∈ log
  taken : ∀ i key now id, ⟨i, .checkApproval key now, .consumed id⟩ ∈ log →
    ∃ a, s.approvals.lookup id = some a ∧ a.used = true

/-- An approval is inserted under an id of its own. -/
theorem insert_fresh (huuid : Function.Injective world.uuid)
    (h : Logged (GatewayState.exec world) (gateway dep requests) log c)
    (hord : Orderly log c.store) {j : ι} {a : HumanApproval}
    {next : Unit → GatewayProc Value Args (Response Value)}
    (hcall : c.procs j = .call (.insertApproval a) next) :
    c.store.approvals.lookup a.approvalId = none := by
  have hsends := h.obeys (fun i => obeys_gateway i) j
  rw [hcall] at hsends
  rcases hsends.1 with ⟨req, uuid, now, -, hhist, rfl⟩
  have hdrawn : ⟨j, .newUuid, uuid⟩ ∈ log := mem_historyOf.1 (by rw [hhist]; simp)
  cases hlookup : c.store.approvals.lookup (newApproval req uuid now).approvalId with
  | none =>
      rfl
  | some b =>
      exfalso
      rcases hord.stored _ b hlookup with ⟨k, hmem⟩
      rcases List.mem_iff_getElem?.1 hmem with ⟨m, hm⟩
      rcases h.sends (fun i => obeys_gateway i) hm with ⟨req', uuid', now', -, hhist', heq⟩
      have hdrawn' : ⟨k, .newUuid, uuid'⟩ ∈ log :=
        List.mem_of_mem_take (mem_historyOf.1 (by rw [hhist']; simp))
      -- Equal ids come from equal UUIDs, and these from one request, which has inserted nothing yet.
      have huuid' : uuid' = uuid := by
        have hb : b.approvalId = "appr-" ++ uuid' := congrArg HumanApproval.approvalId heq
        rw [keyed_of_logged h _ b hlookup] at hb
        exact ((String.append_right_inj _).1 hb).symm
      subst huuid'
      obtain rfl := drawn_once huuid h hdrawn hdrawn'
      have hown := mem_historyOf.2 hmem
      rw [hhist] at hown
      simp at hown

/-- A used approval stays as it is. -/
theorem used_kept (huuid : Function.Injective world.uuid)
    (h : Logged (GatewayState.exec world) (gateway dep requests) log c)
    (hord : Orderly log c.store) {i : ι} {op : GatewayOp Args}
    {next : op.Ans Value → GatewayProc Value Args (Response Value)}
    (hcall : c.procs i = .call op next) {id : String} {a : HumanApproval}
    (hid : c.store.approvals.lookup id = some a) (hused : a.used = true) :
    (GatewayState.exec world op c.store).2.approvals.lookup id = some a := by
  rcases exec_approvals_cases (keyed_of_logged h) op with
    hsame | ⟨b, rfl, hinserted⟩ | ⟨b, -, -, -, hb, hunused, hmarked⟩
  · rwa [hsame]
  · have hfresh := insert_fresh huuid h hord hcall
    have hne : id ≠ b.approvalId := by
      rintro rfl
      rw [hid] at hfresh
      cases hfresh
    rw [hinserted, Finmap.lookup_insert_of_ne _ hne, hid]
  · have hne : id ≠ b.approvalId := by
      rintro rfl
      rw [hid, Option.some.injEq] at hb
      subst hb
      exact Bool.noConfusion (hused.symm.trans hunused)
    rw [hmarked, Finmap.lookup_insert_of_ne _ hne, hid]

omit [DecidableEq ι] in
/-- After one more call, what is in the table was inserted. -/
theorem Orderly.stored_exec {s : GatewayState} (h : Orderly log s)
    (hkeyed : s.approvals.Keyed) (i : ι) (op : GatewayOp Args)
    {id : String} {a : HumanApproval}
    (hid : (GatewayState.exec world op s).2.approvals.lookup id = some a)
    (hnew : ∀ b, op = .insertApproval b → b.used = false) :
    ∃ j, ⟨j, .insertApproval { a with used := false }, ()⟩ ∈
      log ++ [⟨i, op, (GatewayState.exec world op s).1⟩] := by
  have hold : ∀ {a}, s.approvals.lookup id = some a →
      ∃ j, ⟨j, .insertApproval { a with used := false }, ()⟩ ∈
        log ++ [⟨i, op, (GatewayState.exec world op s).1⟩] := by
    intro a hid
    rcases h.stored id a hid with ⟨j, hmem⟩
    exact ⟨j, List.mem_append_left _ hmem⟩
  rcases exec_approvals_cases hkeyed op with
    hsame | ⟨b, rfl, hinserted⟩ | ⟨b, -, -, -, hb, -, hmarked⟩
  · rw [hsame] at hid
    exact hold hid
  · rw [hinserted, HashMap.lookup_insert_apply] at hid
    split_ifs at hid with hkey
    · obtain rfl := Option.some.inj hid
      have hunused : { b with used := false } = b := by
        rw [← hnew b rfl]
      exact ⟨i, List.mem_append_right _ (by rw [hunused]; exact List.mem_cons_self)⟩
    · exact hold hid
  · rw [hmarked, HashMap.lookup_insert_apply] at hid
    split_ifs at hid with hkey
    · obtain rfl := Option.some.inj hid
      -- The approval that is marked as used was inserted before.
      rw [← hkey] at hb
      have hinserted := hold hb
      exact hinserted
    · exact hold hid

omit [DecidableEq ι] in
/-- A check that takes an approval leaves it used in the table. -/
theorem taken_exec {s : GatewayState} (hkeyed : s.approvals.Keyed) {key : ApprovalKey}
    {now : Timestamp} {id : String}
    (htaken : (GatewayState.exec world (.checkApproval key now) s).1 = .consumed id) :
    ∃ a, (GatewayState.exec world (.checkApproval key now) s).2.approvals.lookup id = some a ∧
      a.used = true := by
  rcases exec_check_cases world hkeyed key now with
    ⟨b, hb, hauth, hcheck, hused⟩ | ⟨stale, hcheck, -⟩
  · rw [hcheck] at htaken
    obtain rfl := ApprovalCheck.consumed.inj htaken
    rw [hused]
    exact ⟨_, Finmap.lookup_insert _, rfl⟩
  · rw [hcheck] at htaken
    cases htaken

theorem orderly_of_logged (huuid : Function.Injective world.uuid)
    (h : Logged (GatewayState.exec world) (gateway dep requests) log c) : Orderly log c.store := by
  induction h with
  | start =>
      exact ⟨fun id a hid => by simp [gateway, GatewayState.init] at hid,
        fun _ _ _ _ hmem => by cases hmem⟩
  | @call log c h i op next hcall ih =>
      rw [Config.fire_of_call hcall]
      refine ⟨fun id a hid => ih.stored_exec (keyed_of_logged h) i op hid ?_, ?_⟩
      · rintro b rfl
        have hsends := h.obeys (fun i => obeys_gateway i) i
        rw [hcall] at hsends
        rcases hsends.1 with ⟨req, uuid, now, -, -, rfl⟩
        rfl
      · intro j key now id hmem
        rcases List.mem_append.1 hmem with hold | hnew
        · rcases ih.taken j key now id hold with ⟨a, ha, hused⟩
          exact ⟨a, used_kept huuid h ih hcall ha hused, hused⟩
        · have hentry := List.mem_singleton.1 hnew
          injection hentry with _ hop hans
          subst hop
          exact taken_exec (keyed_of_logged h) (eq_of_heq hans).symm

/-! ## The correspondence of uses and approvals -/

/-- At position `n` of the log a destructive call passes step 4. -/
def PassesStep4 (log : List (GatewayEntry Value Args ι)) (n : Nat) : Prop :=
  ∃ i key now id, log[n]? = some ⟨i, .checkApproval key now, .consumed id⟩

/-- The approval an entry takes. -/
def takenId? : GatewayEntry Value Args ι → Option String
  | ⟨_, .checkApproval _ _, .consumed id⟩ => some id
  | _ => none

omit [DecidableEq ι] in
theorem passesStep4_iff {n : Nat} :
    PassesStep4 log n ↔ ((log[n]?).bind takenId?).isSome := by
  constructor
  · rintro ⟨i, key, now, id, hn⟩
    rw [hn]
    rfl
  · intro h
    rcases Option.isSome_iff_exists.1 h with ⟨id, hid⟩
    rcases Option.bind_eq_some_iff.1 hid with ⟨⟨i, op, ans⟩, hn, htaken⟩
    cases op with
    | checkApproval key now =>
        cases ans with
        | consumed id' =>
            exact ⟨i, key, now, id', hn⟩
        | _ =>
            cases htaken
    | _ =>
        cases htaken

instance (n : Nat) : Decidable (PassesStep4 log n) :=
  decidable_of_iff _ passesStep4_iff.symm

/-- The approval created at position `m` is one for the call that passes at position `n`: it was created
before, for the run and the task of the call's token, the call's tool, and the digest of its tool and
arguments, and no more than two hours before the call read the clock. -/
structure Grants (dep : Deployment Value Args) (requests : ι → Request Value)
    (log : List (GatewayEntry Value Args ι)) (m n : Nat) : Prop where
  before : m < n
  bound : ∃ i j claims req grant uuid now taken,
    requests i = .createApproval grant ∧
    log[m]? = some ⟨i, .insertApproval (newApproval grant uuid taken), ()⟩ ∧
    Asks dep (historyOf (log.take n) j) (requests j) claims req ∧
    ⟨.now, now⟩ ∈ historyOf (log.take n) j ∧
    log[n]? = some ⟨j, .checkApproval (approvalKey dep claims req) now,
      .consumed (newApproval grant uuid taken).approvalId⟩ ∧
    grant.runId = claims.runId ∧ grant.taskId = claims.taskId ∧ grant.action = req.tool ∧
    grant.payloadDigest = payloadDigest dep req ∧ now - taken ≤ approvalTtl

/-- A check in a log takes an approval that authorises the call, or is refused; it does not panic. -/
theorem check_entry (huuid : Function.Injective world.uuid)
    (h : Logged (GatewayState.exec world) (gateway dep requests) log c) {n : Nat} {i : ι}
    {key : ApprovalKey} {now : Timestamp} {check : ApprovalCheck}
    (hn : log[n]? = some ⟨i, .checkApproval key now, check⟩) :
    ∃ s, Orderly (log.take n) s ∧
      ((∃ a, s.approvals.lookup a.approvalId = some a ∧ a.Authorises key now ∧
        check = .consumed a.approvalId) ∨ ∃ stale, check = .refused stale) := by
  rcases h.of_getElem? hn with ⟨c', next, hlog, -, rfl⟩
  refine ⟨c'.store, orderly_of_logged huuid hlog, ?_⟩
  rcases exec_check_cases world (keyed_of_logged hlog) key now with
    ⟨a, ha, hauth, hcheck, -⟩ | ⟨stale, hcheck, -⟩
  · exact Or.inl ⟨a, ha, hauth, hcheck⟩
  · exact Or.inr ⟨stale, hcheck⟩

theorem exists_grants (huuid : Function.Injective world.uuid)
    (h : Logged (GatewayState.exec world) (gateway dep requests) log c) {n : Nat}
    (hn : PassesStep4 log n) : ∃ m, Grants dep requests log m n := by
  rcases hn with ⟨j, key, now, id, hn⟩
  rcases h.sends (fun i => obeys_gateway i) hn with ⟨claims, req, hasks, rfl, hnow⟩
  rcases check_entry huuid h hn with ⟨s, hord, ⟨a, ha, hauth, hcheck⟩ | ⟨stale, hcheck⟩⟩
  · obtain rfl := ApprovalCheck.consumed.inj hcheck
    -- The approval that was found had been inserted, by the request that creates it.
    rcases hord.stored _ a ha with ⟨i, hmem⟩
    rcases List.mem_iff_getElem?.1 hmem with ⟨m, hm⟩
    rw [List.getElem?_take, Option.ite_none_right_eq_some] at hm
    rcases hm with ⟨hlt, hm⟩
    rcases h.sends (fun i => obeys_gateway i) hm with ⟨grant, uuid, taken, hgrant, -, heq⟩
    rcases hauth with ⟨hkey, hunused, hage⟩
    obtain rfl : a = newApproval grant uuid taken := by
      rw [← heq, ← hunused]
    exact ⟨m, hlt, i, j, claims, req, grant, uuid, now, taken, hgrant, hm, hasks, hnow, hn,
      congrArg ApprovalKey.runId hkey, congrArg ApprovalKey.taskId hkey,
      congrArg ApprovalKey.action hkey, congrArg ApprovalKey.payloadDigest hkey, hage⟩
  · cases hcheck

/-- No approval is taken twice. -/
theorem taken_once (huuid : Function.Injective world.uuid)
    (h : Logged (GatewayState.exec world) (gateway dep requests) log c) {n n' : Nat} {i i' : ι}
    {key key' : ApprovalKey} {now now' : Timestamp} {id : String}
    (hn : log[n]? = some ⟨i, .checkApproval key now, .consumed id⟩)
    (hn' : log[n']? = some ⟨i', .checkApproval key' now', .consumed id⟩) : ¬ n < n' := by
  intro hlt
  rcases check_entry huuid h hn' with ⟨s, hord, ⟨b, hb, hauth, hcheck⟩ | ⟨stale, hcheck⟩⟩
  · obtain rfl := ApprovalCheck.consumed.inj hcheck
    have hmem : ⟨i, .checkApproval key now, .consumed b.approvalId⟩ ∈ log.take n' :=
      List.mem_iff_getElem?.2 ⟨n, by rw [List.getElem?_take_of_lt hlt, hn]⟩
    rcases hord.taken _ _ _ _ hmem with ⟨a, ha, hused⟩
    rw [ha, Option.some.injEq] at hb
    subst hb
    exact Bool.noConfusion (hused.symm.trans hauth.2.1)
  · cases hcheck

/-- An approval is for one call. -/
theorem Grants.inj (huuid : Function.Injective world.uuid)
    (h : Logged (GatewayState.exec world) (gateway dep requests) log c) {m n n' : Nat}
    (hn : Grants dep requests log m n) (hn' : Grants dep requests log m n') : n = n' := by
  rcases hn.bound with ⟨i, j, claims, req, grant, uuid, now, taken, -, hm, -, -, htaken, -⟩
  rcases hn'.bound with ⟨i', j', claims', req', grant', uuid', now', taken', -, hm', -, -, htaken', -⟩
  rw [hm, Option.some.injEq] at hm'
  injection hm' with _ hop _
  rw [← GatewayOp.insertApproval.inj hop] at htaken'
  have := taken_once huuid h htaken htaken'
  have := taken_once huuid h htaken' htaken
  omega

theorem used_kept_of_steps (huuid : Function.Injective world.uuid)
    (h : Logged (GatewayState.exec world) (gateway dep requests) log c)
    {c' : GatewayConfig Value Args ι}
    (hsteps : Steps (GatewayState.exec world) (fun _ _ => True) c c') {id : String}
    {a : HumanApproval} (hid : c.store.approvals.lookup id = some a) (hused : a.used = true) :
    c'.store.approvals.lookup id = some a := by
  have hrun : (∃ log', Logged (GatewayState.exec world) (gateway dep requests) log' c') ∧
      c'.store.approvals.lookup id = some a := by
    induction hsteps with
    | refl =>
        exact ⟨⟨log, h⟩, hid⟩
    | tail _ hstep ih =>
        rcases ih with ⟨⟨log', h'⟩, hid'⟩
        cases hstep with
        | fire i op next hcall hok =>
            refine ⟨⟨_, h'.call i op next hcall⟩, ?_⟩
            rw [Config.fire_of_call hcall]
            exact used_kept huuid h' (orderly_of_logged huuid h') hcall hid' hused
  exact hrun.2

/-- A destructive tool runs with an authority only after its call has taken the approval it names. -/
theorem destructive_authority_passed
    (h : Logged (GatewayState.exec world) (gateway dep requests) log c) {n : Nat} {i : ι}
    {record : AuthorityRecord} (hn : log[n]? = some ⟨i, .insertAuthority record, ()⟩)
    (hrisk : record.riskLevel = RiskLevel.destructive.name) :
    ∃ m < n, ∃ key now id, record.approvalId = some id ∧
      log[m]? = some ⟨i, .checkApproval key now, .consumed id⟩ := by
  rcases h.sends (fun i => obeys_gateway i) hn hrisk with ⟨key, now, id, hid, hmem⟩
  rcases List.mem_iff_getElem?.1 (mem_historyOf.1 hmem) with ⟨m, hm⟩
  rw [List.getElem?_take, Option.ite_none_right_eq_some] at hm
  exact ⟨m, hm.1, key, now, id, hid, hm.2⟩

/-- In every interleaving, the destructive calls that pass step 4 map injectively to approvals granted
before for what they ask, and a used approval stays used. -/
theorem approvals_single_use (dep : Deployment Value Args) (world : World Value Args)
    (huuid : Function.Injective world.uuid) (requests : ι → Request Value)
    (log : List (GatewayEntry Value Args ι)) (c : GatewayConfig Value Args ι)
    (h : Logged (GatewayState.exec world) (gateway dep requests) log c) :
    (∃ approvalOf : Nat → Nat, Set.InjOn approvalOf {n | PassesStep4 log n} ∧
      ∀ n, PassesStep4 log n → Grants dep requests log (approvalOf n) n) ∧
    ∀ c', Steps (GatewayState.exec world) (fun _ _ => True) c c' →
      ∀ id a, c.store.approvals.lookup id = some a → a.used = true →
        c'.store.approvals.lookup id = some a := by
  refine ⟨?_, fun c' hsteps id a hid hused => used_kept_of_steps huuid h hsteps hid hused⟩
  have hexists (n : Nat) : ∃ m, PassesStep4 log n → Grants dep requests log m n := by
    by_cases hn : PassesStep4 log n
    · rcases exists_grants huuid h hn with ⟨m, hm⟩
      exact ⟨m, fun _ => hm⟩
    · exact ⟨0, fun hpass => absurd hpass hn⟩
  choose approvalOf hgrants using hexists
  refine ⟨approvalOf, ?_, hgrants⟩
  intro n hn n' hn' heq
  have hsame := hgrants n' hn'
  rw [← heq] at hsame
  exact (hgrants n hn).inj huuid h hsame

end Log

/-! ## Two approvals and three calls -/

def demoClaims : McpClaims :=
  { sub := "agent_instance:1", tenantId := "t", workspaceId := "w", agentId := "a", runId := "run"
    taskId := "task", scopes := ["repo.merge.execute"], maxRisk := "write", delegatedBy := "policy"
    jti := "1" }

def demoArguments : Json :=
  .obj [("branch", .str "develop")]

def demoBody (repo : String) : Json :=
  .obj [("tool", .str "repo.merge.execute"), ("arguments", demoArguments), ("repo", .str repo)]

/-- The SHA-256 digest of the tool and the arguments. -/
def demoTable : List (Bytes × String) :=
  [(utf8 "repo.merge.execute" ++ Json.render demoArguments,
    "352c7cefe7bbd18b3a07b5109ceb085d4e9b1192e549a55294733cb798b7e827")]

def demoGateway : Deployment Json Unit where
  publicKeyPem := "key"
  backendSelector := .localOnly
  momConfigured := false
  sha256Hex := tableDigest demoTable
  encode := Json.render
  toolCallRequest body :=
    match (body.field? "tool").bind Json.asStr?, body.field? "arguments",
      (body.field? "repo").bind Json.asStr? with
    | some tool, some arguments, some repo =>
        .ok { tool := tool, arguments := arguments, repo := repo
              approvalId := (body.field? "approval_id").bind Json.asStr? }
    | _, _, _ => .error "missing field"
  memoryArguments _ _ := .error "missing field"
  acceptsKey _ := true
  decode _ token := if token = "token" then .ok demoClaims else .error "InvalidToken"

/-- A clock that stands still. -/
def demoWorld : World Json Unit where
  clock _ := 0
  uuid n := String.ofList (List.replicate n '0')
  walk _ := Iteration.sorted String
  memory _ _ _ _ := .error "unavailable"

def demoGrant : CreateApprovalRequest :=
  { runId := "run", taskId := "task", action := "repo.merge.execute"
    payloadDigest := "352c7cefe7bbd18b3a07b5109ceb085d4e9b1192e549a55294733cb798b7e827"
    approvedBy := "human" }

theorem demoWorld_uuid_injective : Function.Injective demoWorld.uuid := by
  intro m n h
  have hlists := congrArg List.length (String.ofList_injective h)
  simpa using hlists

/-- The same approval twice, the same call three times. -/
def demoRequests (i : Fin 5) : Request Json :=
  if i < 2 then .createApproval demoGrant
  else .callTool ⟨some "2025-06-18", some "session", some "Bearer token"⟩ (demoBody "org/repo")

def demoSchedule : List (Fin 5) :=
  [0, 0, 0, 2, 3, 2, 3, 1, 1, 1, 2, 3, 4, 4, 4]

def demoLog : List (GatewayEntry Json Unit (Fin 5)) :=
  (gateway demoGateway demoRequests).logOf (GatewayState.exec demoWorld) demoSchedule

theorem approvals_single_use_demo :
    ¬ PassesStep4 demoLog 14 ∧ ∃ approvalOf : Nat → Nat, approvalOf 10 ≠ approvalOf 11 ∧
      Grants demoGateway demoRequests demoLog (approvalOf 10) 10 ∧
      Grants demoGateway demoRequests demoLog (approvalOf 11) 11 := by
  refine ⟨by decide +kernel, ?_⟩
  rcases (approvals_single_use demoGateway demoWorld demoWorld_uuid_injective demoRequests
    demoLog _ (Logged.start.fireAll demoSchedule)).1 with ⟨approvalOf, hinj, hgrants⟩
  have hfirst : PassesStep4 demoLog 10 := by decide +kernel
  have hsecond : PassesStep4 demoLog 11 := by decide +kernel
  exact ⟨approvalOf, fun heq => absurd (hinj hfirst hsecond heq) (by decide), hgrants 10 hfirst,
    hgrants 11 hsecond⟩

/-! ## What an approval says about the call it lets pass

An approval matches a call by the run, the task, the tool and the digest of tool and arguments.  The
preimage of the digest has no separator, but the tool is matched as well, so the digest determines the
arguments.  The repository of the call is in neither, though the authority record names it. -/

section Binding

variable {ι : Type} [DecidableEq ι]

/-- The run, the task, the tool and the payload an authority record names are those of the approval. -/
structure AuthorityRecord.Names (record : AuthorityRecord) (a : HumanApproval) : Prop where
  runId : record.runId = a.runId
  taskId : record.taskId = a.taskId
  toolId : record.toolId = a.action
  action : record.action = a.action
  payloadDigest : record.payloadDigest = a.payloadDigest

end Binding

end Gateway
end Aivcs
