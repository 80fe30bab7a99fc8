import Aivcs.Domain.Digest
import Aivcs.Lib.Interleaving
import Aivcs.Lib.Run
import Aivcs.Lib.Splits
import Aivcs.Lib.TextSearch

/-!
# Brains.ProviderRouter — the circuit breakers of the two providers

The router sends requests to one of two providers.  The health of a provider is kept in atomics; each handler
is a program whose calls are single accesses to them or exchanges with a provider, and any number of handlers
run at once.  The accesses are taken to be sequentially consistent.

* `unhealthy_after_three_failures` — a provider is out only after a third failure in a row;
* `llmkube_never_recovers` — once LLMKube is out it stays out: nothing is sent there that could succeed;
* `sequential_refines` — when requests do not overlap, the router is one that counts the failures in a row of
  each provider from its answers, and a provider is out from the third on.
-/

namespace Aivcs
namespace Brains

open Lib Domain

inductive ProviderTarget
  | llmKube
  | dgx
  deriving DecidableEq

def ProviderTarget.display : ProviderTarget → String
  | llmKube => "llmkube"
  | dgx => "dgx"

/-- `ProviderHealth`, without the name and the endpoint, which do not change. -/
structure ProviderHealth where
  isHealthy : Bool
  consecutiveFailures : UInt64
  totalRequests : UInt64
  totalTokensStreamed : UInt64
  lastLatencyMs : UInt64
  deriving DecidableEq

def ProviderHealth.new : ProviderHealth :=
  ⟨true, 0, 0, 0, 0⟩

/-! ## Accesses -/

/-- A request to a provider. -/
structure Outgoing where
  url : String
  payload : Option (Doc Number)
  headers : List (String × String)

/-- The head of a provider's answer; the text is its body, or empty if that cannot be read. -/
structure Upstream where
  status : Nat
  text : String

/-- One access to one atomic, or one exchange with the world. -/
inductive Access
  | loadHealthy (target : ProviderTarget)
  | storeHealthy (target : ProviderTarget) (healthy : Bool)
  | storeFailures (target : ProviderTarget) (n : UInt64)
  | fetchAddFailures (target : ProviderTarget) (n : UInt64)
  | fetchAddRequests (target : ProviderTarget) (n : UInt64)
  | fetchAddTokens (target : ProviderTarget) (n : UInt64)
  | storeLatency (target : ProviderTarget) (ms : UInt64)
  | send (target : ProviderTarget) (request : Outgoing)
  | readBody
  | elapsed

abbrev Access.Ans : Access → Type
  | loadHealthy _ => Bool
  | storeHealthy _ _ => Unit
  | storeFailures _ _ => Unit
  | fetchAddFailures _ _ => UInt64
  | fetchAddRequests _ _ => Unit
  | fetchAddTokens _ _ => Unit
  | storeLatency _ _ => Unit
  | send _ _ => Except String Upstream
  | readBody => Except String String
  | elapsed => UInt64

abbrev Program (α : Type) : Type :=
  Proc Access Access.Ans α

def call (op : Access) : Program op.Ans :=
  Proc.perform op

/-! ## The health of a provider -/

def recordSuccess (target : ProviderTarget) (latencyMs tokens : UInt64) : Program Unit := do
  call (.storeFailures target 0)
  call (.storeHealthy target true)
  call (.fetchAddRequests target 1)
  call (.fetchAddTokens target tokens)
  call (.storeLatency target latencyMs)

def recordFailure (target : ProviderTarget) : Program Unit := do
  let fails := (← call (.fetchAddFailures target 1)) + 1
  if 3 ≤ fails then call (.storeHealthy target false) else pure ()

/-! ## Selecting a provider -/

/-- The headers that are looked at; a value that is no text counts as none. -/
structure Headers where
  brainProvider : Option String
  authorization : Option String
  tenantId : Option String

def eqIgnoreAsciiCase (s t : String) : Bool :=
  asciiLower s = asciiLower t

/-- `str::contains`. -/
def contains (s pat : String) : Bool :=
  (s.toList.dropInfix? pat.toList).isSome

/-- `json.get(key).and_then(as_u64)`. -/
def u64At (key : String) (json : Doc Number) : Option Nat :=
  match json.get? key with
  | some (.num (.int n _)) => if 0 ≤ n then some n.toNat else none
  | _ => none

/-- Heavy reasoning or a long context. -/
def requiresDgx (json : Doc Number) : Bool :=
  let model := ((json.get? "model").bind Doc.asStr?).getD ""
  let maxTokens := (u64At "max_tokens" json).getD 0
  let promptLen :=
    match json.get? "messages" with
    | some (.arr messages) => messages.length
    | _ => 1
  contains model "70b" || contains model "deepseek-r1" || 4096 < maxTokens || 20 < promptLen

/-- `target`, if it is healthy. -/
def ifHealthy (target : ProviderTarget) : Program (Option ProviderTarget) := do
  if ← call (.loadHealthy target) then pure (some target) else pure none

/-- The explicit choice of a header. -/
def byHeader (headers : Headers) : Program (Option ProviderTarget) :=
  match headers.brainProvider with
  | none => pure none
  | some value =>
      if eqIgnoreAsciiCase value "dgx" then ifHealthy .dgx
      else if eqIgnoreAsciiCase value "llmkube" then ifHealthy .llmKube
      else pure none

/-- The choice by the payload. -/
def byPayload (body : Option (Doc Number)) : Program (Option ProviderTarget) :=
  match body with
  | none => pure none
  | some json => if requiresDgx json then ifHealthy .dgx else pure none

/-- The default. -/
def byHealth : Program ProviderTarget := do
  if ← call (.loadHealthy .llmKube) then pure .llmKube else pure .dgx

def selectProvider (headers : Headers) (body : Option (Doc Number)) : Program ProviderTarget := do
  match ← byHeader headers with
  | some target => pure target
  | none =>
      match ← byPayload body with
      | some target => pure target
      | none => byHealth

/-! ## Handlers -/

inductive Body
  | stream
  | bytes (text : String)

structure Response where
  status : Nat
  headers : List (String × String)
  body : Body

/-- The answer of a handler, or the status and the text of its error. -/
abbrev Reply : Type := Except (Nat × String) Response

section Handlers

variable (endpoint : ProviderTarget → String)

def urlOf (target : ProviderTarget) (path : String) : String :=
  String.ofList (trimEnd (fun c => c = '/') (endpoint target).toList) ++ path

def forwardedHeaders (headers : Headers) : List (String × String) :=
  (headers.authorization.map fun v => ("authorization", v)).toList ++
    (headers.tenantId.map fun v => ("x-tenant-id", v)).toList

/-- `models_proxy_handler`, `completions_proxy_handler` and `embeddings_proxy_handler`. -/
def passThrough (path : String) (headers : Headers) (payload : Option (Doc Number)) : Program Reply := do
  let target ← selectProvider headers payload
  match ← call (.send target ⟨urlOf endpoint target path, payload, []⟩) with
  | .error e => pure (.error (502, "Upstream error: " ++ e))
  | .ok upstream =>
      match ← call .readBody with
      | .error e => pure (.error (500, e))
      | .ok body => pure (.ok ⟨upstream.status, [("x-served-by", target.display)], .bytes body⟩)

def isStreaming (payload : Doc Number) : Bool :=
  match payload.get? "stream" with
  | some (.bool b) => b
  | _ => false

/-- A provider has answered a chat with success. -/
def chatAnswered (target : ProviderTarget) (payload : Doc Number) : Program Reply := do
  if isStreaming payload then
    let latencyMs ← call .elapsed
    recordSuccess target latencyMs 1
    pure (.ok ⟨200, [("content-type", "text/event-stream"), ("cache-control", "no-cache"),
      ("x-served-by", target.display)], .stream⟩)
  else
    match ← call .readBody with
    | .error e => pure (.error (500, "Failed reading body: " ++ e))
    | .ok body =>
        let latencyMs ← call .elapsed
        recordSuccess target latencyMs 1
        pure (.ok ⟨200, [("content-type", "application/json"), ("x-served-by", target.display),
          ("x-latency-ms", toString latencyMs)], .bytes body⟩)

def chatCompletions (headers : Headers) (payload : Doc Number) : Program Reply := do
  let target ← selectProvider headers (some payload)
  match ← call (.send target ⟨urlOf endpoint target "/v1/chat/completions", some payload,
      forwardedHeaders headers⟩) with
  | .error e =>
      recordFailure target
      pure (.error (502, "Network error reaching " ++ target.display ++ ": " ++ e))
  | .ok upstream =>
      if 200 ≤ upstream.status ∧ upstream.status < 300 then chatAnswered target payload
      else do
        recordFailure target
        pure (.error (502, "Upstream " ++ target.display ++ " error: " ++ upstream.text))

def healthz : Program Reply := do
  let llmkubeOk ← call (.loadHealthy .llmKube)
  let dgxOk ← call (.loadHealthy .dgx)
  if !llmkubeOk && !dgxOk then pure (.ok ⟨503, [], .bytes "ALL_PROVIDERS_UNHEALTHY"⟩)
  else pure (.ok ⟨200, [], .bytes "OK"⟩)

inductive Request
  | healthz
  | models (headers : Headers)
  | chat (headers : Headers) (payload : Doc Number)
  | completions (headers : Headers) (payload : Doc Number)
  | embeddings (headers : Headers) (payload : Doc Number)

def handle : Request → Program Reply
  | .healthz => healthz
  | .models headers => passThrough endpoint "/v1/models" headers none
  | .chat headers payload => chatCompletions endpoint headers payload
  | .completions headers payload => passThrough endpoint "/v1/completions" headers (some payload)
  | .embeddings headers payload => passThrough endpoint "/v1/embeddings" headers (some payload)

end Handlers

/-! ## The state of the router -/

/-- What the world answers at one moment. -/
structure Moment where
  head : Except String Upstream
  body : Except String String
  elapsedMs : UInt64

structure RouterState where
  llmkube : ProviderHealth
  dgx : ProviderHealth
  /-- The accesses so far; the code does not keep them. -/
  history : List Access

namespace RouterState

def new : RouterState :=
  ⟨.new, .new, []⟩

def provider (s : RouterState) : ProviderTarget → ProviderHealth
  | .llmKube => s.llmkube
  | .dgx => s.dgx

def modify (s : RouterState) (f : ProviderHealth → ProviderHealth) : ProviderTarget → RouterState
  | .llmKube => { s with llmkube := f s.llmkube }
  | .dgx => { s with dgx := f s.dgx }

@[simp] theorem provider_modify_self (s : RouterState) (f : ProviderHealth → ProviderHealth)
    (t : ProviderTarget) : (s.modify f t).provider t = f (s.provider t) := by
  cases t <;> rfl

theorem provider_modify_of_ne (s : RouterState) (f : ProviderHealth → ProviderHealth)
    {t t' : ProviderTarget} (h : t' ≠ t) : (s.modify f t).provider t' = s.provider t' := by
  cases t <;> cases t' <;> first | rfl | exact absurd rfl h

@[simp] theorem history_modify (s : RouterState) (f : ProviderHealth → ProviderHealth)
    (t : ProviderTarget) : (s.modify f t).history = s.history := by
  cases t <;> rfl

/-- What an access does to the health of the providers. -/
def apply (s : RouterState) : Access → RouterState
  | .storeHealthy t b => s.modify (fun p => { p with isHealthy := b }) t
  | .storeFailures t n => s.modify (fun p => { p with consecutiveFailures := n }) t
  | .fetchAddFailures t n =>
      s.modify (fun p => { p with consecutiveFailures := p.consecutiveFailures + n }) t
  | .fetchAddRequests t n => s.modify (fun p => { p with totalRequests := p.totalRequests + n }) t
  | .fetchAddTokens t n =>
      s.modify (fun p => { p with totalTokensStreamed := p.totalTokensStreamed + n }) t
  | .storeLatency t ms => s.modify (fun p => { p with lastLatencyMs := ms }) t
  | .loadHealthy _ => s
  | .send _ _ => s
  | .readBody => s
  | .elapsed => s

@[simp] theorem history_apply (s : RouterState) (op : Access) : (s.apply op).history = s.history := by
  cases op <;> simp [apply]

/-- What an access answers. -/
def answer (world : Nat → Moment) (s : RouterState) : (op : Access) → op.Ans
  | .loadHealthy t => (s.provider t).isHealthy
  | .storeHealthy _ _ => ()
  | .storeFailures _ _ => ()
  | .fetchAddFailures t _ => (s.provider t).consecutiveFailures
  | .fetchAddRequests _ _ => ()
  | .fetchAddTokens _ _ => ()
  | .storeLatency _ _ => ()
  | .send _ _ => (world s.history.length).head
  | .readBody => (world s.history.length).body
  | .elapsed => (world s.history.length).elapsedMs

/-- One access; the world may answer differently each time. -/
def exec (world : Nat → Moment) (op : Access) (s : RouterState) : op.Ans × RouterState :=
  (s.answer world op, { s.apply op with history := s.history ++ [op] })

@[simp] theorem exec_fst (world : Nat → Moment) (op : Access) (s : RouterState) :
    (exec world op s).1 = s.answer world op := rfl

@[simp] theorem history_exec (world : Nat → Moment) (op : Access) (s : RouterState) :
    (exec world op s).2.history = s.history ++ [op] := rfl

@[simp] theorem provider_exec (world : Nat → Moment) (op : Access) (s : RouterState)
    (t : ProviderTarget) : (exec world op s).2.provider t = (s.apply op).provider t := by
  cases t <;> rfl

end RouterState

/-! ## The calls of the handlers -/

section Calls

variable {P : Access → Prop} {endpoint : ProviderTarget → String}

theorem calls_call {α : Type} {op : Access} (h : P op) {f : op.Ans → Program α}
    (hf : ∀ a, (f a).Calls P) : (call op >>= f).Calls P :=
  ⟨h, hf⟩

theorem calls_ifHealthy {target : ProviderTarget} (h : P (.loadHealthy target)) :
    (ifHealthy target).Calls P := by
  refine calls_call h fun healthy => ?_
  split <;> trivial

theorem calls_selectProvider (hload : ∀ t, P (.loadHealthy t)) (headers : Headers)
    (body : Option (Doc Number)) : (selectProvider headers body).Calls P := by
  have hheader : (byHeader headers).Calls P := by
    unfold byHeader
    cases headers.brainProvider with
    | none => trivial
    | some value =>
        simp only
        split
        · exact calls_ifHealthy (hload _)
        · split
          · exact calls_ifHealthy (hload _)
          · trivial
  have hpayload : (byPayload body).Calls P := by
    unfold byPayload
    cases body with
    | none => trivial
    | some json =>
        simp only
        split
        · exact calls_ifHealthy (hload _)
        · trivial
  have hhealth : byHealth.Calls P := by
    refine calls_call (hload _) fun healthy => ?_
    split <;> trivial
  refine hheader.bind fun chosen => ?_
  cases chosen with
  | some target => trivial
  | none =>
      refine hpayload.bind fun chosen => ?_
      cases chosen with
      | some target => trivial
      | none => exact hhealth

theorem calls_recordSuccess {target : ProviderTarget} {latencyMs tokens : UInt64}
    (hfailures : P (.storeFailures target 0)) (hhealthy : P (.storeHealthy target true))
    (hrequests : P (.fetchAddRequests target 1)) (htokens : P (.fetchAddTokens target tokens))
    (hlatency : P (.storeLatency target latencyMs)) : (recordSuccess target latencyMs tokens).Calls P :=
  ⟨hfailures, fun _ => ⟨hhealthy, fun _ => ⟨hrequests, fun _ => ⟨htokens, fun _ => ⟨hlatency, fun _ => trivial⟩⟩⟩⟩⟩

theorem calls_recordFailure {target : ProviderTarget} (hadd : P (.fetchAddFailures target 1))
    (hunhealthy : P (.storeHealthy target false)) : (recordFailure target).Calls P := by
  refine calls_call hadd fun previous => ?_
  dsimp only
  split
  · exact ⟨hunhealthy, fun _ => trivial⟩
  · trivial

/-- The calls after a provider has answered a chat with success. -/
theorem calls_chatAnswered {target : ProviderTarget} (hbody : P .readBody) (helapsed : P .elapsed)
    (hsuccess : ∀ ms, (recordSuccess target ms 1).Calls P) (payload : Doc Number) :
    (chatAnswered target payload).Calls P := by
  unfold chatAnswered
  split
  · refine calls_call helapsed fun ms => (hsuccess ms).bind fun _ => trivial
  · refine calls_call hbody fun answer => ?_
    cases answer with
    | error e => trivial
    | ok body => exact calls_call helapsed fun ms => (hsuccess ms).bind fun _ => trivial

end Calls

/-! ## Two providers, and a chat -/

def clusterEndpoint : ProviderTarget → String
  | .llmKube => "http://llmkube:8000/"
  | .dgx => "http://dgx:8000"

/-- Every provider is overloaded. -/
def overloaded (_ : Nat) : Moment :=
  ⟨.ok ⟨503, "overloaded"⟩, .ok "", 5⟩

def plainChat : Request :=
  .chat ⟨none, none, none⟩ (.obj [])

/-- Chats one after the other. -/
def chatted (n : Nat) : RouterState :=
  after (fun s request => ((handle clusterEndpoint request).run (RouterState.exec overloaded) s).2) .new
    (List.replicate n plainChat)

/-! ## LLMKube does not come back -/

/-- The requests that have been sent to a provider. -/
def sentTo (target : ProviderTarget) (history : List Access) : List Outgoing :=
  history.filterMap fun
    | .send t request => if t = target then some request else none
    | _ => none

/-- While LLMKube is out, it stays out and is sent nothing. -/
def StaysDown (s s' : RouterState) : Prop :=
  (s.provider .llmKube).isHealthy = false →
    (s'.provider .llmKube).isHealthy = false ∧ sentTo .llmKube s'.history = sentTo .llmKube s.history

/-- Neither reports a success of LLMKube nor sends it a request. -/
def Avoids : Access → Prop
  | .storeHealthy .llmKube true => False
  | .send .llmKube _ => False
  | _ => True

theorem avoids_loadHealthy (t : ProviderTarget) : Avoids (.loadHealthy t) :=
  trivial

/-- The answer does not say that LLMKube is healthy. -/
def NotHealthy : (op : Access) → op.Ans → Prop
  | .loadHealthy .llmKube, healthy => healthy = false
  | _, _ => True

section Down

open RouterState

variable {world : Nat → Moment} {endpoint : ProviderTarget → String} {s : RouterState}

theorem StaysDown.refl (s : RouterState) : StaysDown s s :=
  fun h => ⟨h, rfl⟩

theorem StaysDown.trans {s₁ s₂ s₃ : RouterState} (h : StaysDown s₁ s₂) (h' : StaysDown s₂ s₃) :
    StaysDown s₁ s₃ := by
  intro hdown
  obtain ⟨hdown₂, hsent₂⟩ := h hdown
  obtain ⟨hdown₃, hsent₃⟩ := h' hdown₂
  exact ⟨hdown₃, hsent₃.trans hsent₂⟩

theorem staysDown_exec {op : Access} (h : Avoids op) (s : RouterState) :
    StaysDown s (exec world op s).2 := by
  intro hdown
  -- Only a request to LLMKube adds to those it has been sent.
  have hsent : ∀ op : Access, (∀ request, op ≠ .send .llmKube request) →
      sentTo .llmKube (s.history ++ [op]) = sentTo .llmKube s.history := by
    intro op hop
    have hnone : sentTo .llmKube [op] = [] := by
      cases op with
      | send t request =>
          cases t with
          | llmKube => exact absurd rfl (hop request)
          | dgx => rfl
      | _ => rfl
    rw [sentTo, List.filterMap_append]
    exact (congrArg (sentTo .llmKube s.history ++ ·) hnone).trans (List.append_nil _)
  rw [provider_exec, history_exec]
  refine ⟨?_, hsent op ?_⟩
  · -- And of the accesses only the one that `Avoids` excludes marks it healthy.
    cases op with
    | storeHealthy t b =>
        cases t with
        | llmKube =>
            cases b with
            | true => exact h.elim
            | false => rfl
        | dgx => exact hdown
    | loadHealthy t | send t _ | readBody | elapsed => exact hdown
    | storeFailures t _ | fetchAddFailures t _ | fetchAddRequests t _ | fetchAddTokens t _
      | storeLatency t _ =>
        cases t <;> exact hdown
  · rintro request rfl
    exact h

theorem not_healthy_answer {op : Access} (hdown : (s.provider .llmKube).isHealthy = false) :
    NotHealthy op (exec world op s).1 := by
  cases op with
  | loadHealthy t =>
      cases t with
      | llmKube => exact hdown
      | dgx => trivial
  | _ => trivial

/-- As long as LLMKube is not found healthy, what the program does avoids it and ends as said. -/
abbrev Spares {α : Type} (Q : α → Prop) (p : Program α) : Prop :=
  p.CallsWhile NotHealthy Avoids Q

/-- A provider that is found healthy is DGX. -/
theorem spares_ifHealthy (t : ProviderTarget) :
    Spares (fun found => ∀ t', found = some t' → t' = .dgx) (ifHealthy t) := by
  refine ⟨avoids_loadHealthy t, ?_⟩
  intro healthy hhealthy
  cases healthy with
  | false => exact fun t' h => (nomatch h)
  | true =>
      cases t with
      | llmKube => cases hhealthy
      | dgx => exact fun t' h => by cases h; rfl

/-- As long as LLMKube is not found healthy, DGX is selected, whatever is asked for. -/
theorem spares_selectProvider (headers : Headers) (body : Option (Doc Number)) :
    Spares (fun t => t = .dgx) (selectProvider headers body) := by
  have hnone : Spares (fun found => ∀ t', found = some t' → t' = .dgx)
      (pure none : Program (Option ProviderTarget)) := fun t' h => (nomatch h)
  have hheader : Spares (fun found => ∀ t', found = some t' → t' = .dgx) (byHeader headers) := by
    unfold byHeader
    cases headers.brainProvider with
    | none => exact hnone
    | some value =>
        simp only
        split
        · exact spares_ifHealthy _
        · split
          · exact spares_ifHealthy _
          · exact hnone
  have hpayload : Spares (fun found => ∀ t', found = some t' → t' = .dgx) (byPayload body) := by
    unfold byPayload
    cases body with
    | none => exact hnone
    | some json =>
        simp only
        split
        · exact spares_ifHealthy _
        · exact hnone
  -- The default asks for LLMKube last.
  have hhealth : Spares (fun t => t = .dgx) byHealth := by
    refine ⟨avoids_loadHealthy .llmKube, ?_⟩
    rintro healthy rfl
    exact rfl
  refine hheader.bind ?_
  intro found hfound
  cases found with
  | some t => exact hfound t rfl
  | none =>
      refine hpayload.bind ?_
      intro found hfound
      cases found with
      | some t => exact hfound t rfl
      | none => exact hhealth

theorem spares_handle (request : Request) : Spares (fun _ => True) (handle endpoint request) := by
  have hfailure : (recordFailure .dgx).Calls Avoids := calls_recordFailure trivial trivial
  -- While LLMKube is out `select_provider` chooses the other one, and the rest is about that.
  have hpass : ∀ path headers payload,
      Spares (fun _ => True) (passThrough endpoint path headers payload) := by
    intro path headers payload
    refine (spares_selectProvider headers payload).bind ?_
    rintro t rfl
    refine (calls_call trivial fun head => ?_ : Proc.Calls Avoids _).callsWhile
    cases head with
    | error e => trivial
    | ok upstream =>
        refine calls_call trivial fun body => ?_
        cases body <;> trivial
  cases request with
  | healthz =>
      refine (calls_call trivial fun _ => calls_call trivial fun _ => ?_ : Proc.Calls Avoids _).callsWhile
      split <;> trivial
  | models headers => exact hpass _ _ _
  | completions headers payload => exact hpass _ _ _
  | embeddings headers payload => exact hpass _ _ _
  | chat headers payload =>
      refine (spares_selectProvider headers (some payload)).bind ?_
      rintro t rfl
      refine (calls_call trivial fun head => ?_ : Proc.Calls Avoids _).callsWhile
      cases head with
      | error e => exact hfailure.bind fun _ => trivial
      | ok upstream =>
          simp only
          split
          · exact calls_chatAnswered trivial trivial
              (fun ms => calls_recordSuccess trivial trivial trivial trivial trivial) payload
          · exact hfailure.bind fun _ => trivial

/-- Once LLMKube is out, and no handler is left that has chosen it before, it is out for good: however any
number of handlers take turns and whatever the providers answer, it is not marked healthy again and is sent
nothing.  A handler under way has not chosen it as long as it has not found it healthy. -/
theorem llmkube_never_recovers {ι : Type} [DecidableEq ι]
    {c c' : Interleaving.Config Access Access.Ans Reply RouterState ι}
    (hdown : (c.store.provider .llmKube).isHealthy = false)
    (hprocs : ∀ i, (∃ request, Proc.Remains NotHealthy (handle endpoint request) (c.procs i)) ∨
      (c.procs i).Calls Avoids)
    (hsteps : Interleaving.Steps (exec world) (fun _ _ => True) c c') :
    (c'.store.provider .llmKube).isHealthy = false ∧
      sentTo .llmKube c'.store.history = sentTo .llmKube c.store.history := by
  have hspares : ∀ i, Spares (fun _ => True) (c.procs i) := by
    intro i
    rcases hprocs i with ⟨request, hremains⟩ | hcalls
    · exact (spares_handle request).remains hremains
    · exact hcalls.callsWhile
  have hall : Interleaving.AllWp (exec world) (fun _ _ => True) StaysDown
      (fun _ _ _ => True) c := by
    intro i s' hs'
    exact (hspares i).wp (I := fun s => (s.provider .llmKube).isHealthy = false)
      (fun _ _ => not_healthy_answer) (fun _ s hop _ => staysDown_exec hop s) (fun _ _ hs h => (h hs).1)
      (hs' hdown).1
  exact (Interleaving.Steps.wp_preserved StaysDown.refl StaysDown.trans hsteps hall).1 hdown

/-- A chat that asks for LLMKube. -/
def namedChat : Request :=
  .chat ⟨some "llmkube", none, none⟩ (.obj [])

/-- Three chats have failed.  One that asks for LLMKube has been told that it is out, another one begins. -/
def chattedOn : Interleaving.Config Access Access.Ans Reply RouterState Bool :=
  (⟨chatted 3, fun named => handle clusterEndpoint (if named then namedChat else plainChat)⟩ :
    Interleaving.Config Access Access.Ans Reply RouterState Bool).fire (exec overloaded) true

/-- Both go to DGX. -/
theorem llmkube_never_recovers_chatted :
    ((chattedOn.fireAll (exec overloaded) [false, true, true, false]).store.provider .llmKube).isHealthy =
        false ∧
      (sentTo .llmKube (chattedOn.fireAll (exec overloaded) [false, true, true, false]).store.history).length =
        3 := by
  have hok : chattedOn.OkAlong (exec overloaded) (fun _ _ => True) [false, true, true, false] :=
    Interleaving.Config.okAlong_of_forall (fun _ _ => trivial) _ _
  have hprocs : ∀ named, (∃ request, Proc.Remains NotHealthy (handle clusterEndpoint request)
      (chattedOn.procs named)) ∨ (chattedOn.procs named).Calls Avoids := by
    intro named
    cases named with
    | false => exact Or.inl ⟨plainChat, .start⟩
    | true => exact Or.inl ⟨namedChat, .call .start rfl⟩
  obtain ⟨hdown, hsent⟩ := llmkube_never_recovers rfl hprocs (Interleaving.Steps.of_okAlong hok)
  refine ⟨hdown, ?_⟩
  rw [hsent]
  rfl

end Down

/-! ## Why a provider is out -/

/-- The failures in a row that the accesses amount to, one access later. -/
def failuresStep (t : ProviderTarget) (n : Nat) : Access → Nat
  | .storeFailures t' k => if t' = t then k.toNat else n
  | .fetchAddFailures t' k => if t' = t then n + k.toNat else n
  | _ => n

def failuresOf (t : ProviderTarget) (history : List Access) : Nat :=
  history.foldl (failuresStep t) 0

/-- The last health that was stored. -/
def healthStep (t : ProviderTarget) (b : Bool) : Access → Bool
  | .storeHealthy t' b' => if t' = t then b' else b
  | _ => b

def healthOf (t : ProviderTarget) (history : List Access) : Bool :=
  history.foldl (healthStep t) true

/-- A failure has been counted when there were two in a row already. -/
def ThirdFailure (t : ProviderTarget) (history : List Access) : Prop :=
  ∃ before later, history = before ++ .fetchAddFailures t 1 :: later ∧ 2 ≤ failuresOf t before

/-- The atomics say what the accesses amount to, and no provider has been marked unhealthy before a third
failure. -/
structure Recorded (s : RouterState) : Prop where
  failures : ∀ t, (s.provider t).consecutiveFailures.toNat = failuresOf t s.history % 2 ^ 64
  health : ∀ t, (s.provider t).isHealthy = healthOf t s.history
  unhealthy : ForallSplits (fun before op => ∀ t, op = .storeHealthy t false → ThirdFailure t before)
    s.history

/-- The accesses are kept, and what is recorded stays justified. -/
def Records (s s' : RouterState) : Prop :=
  s.history <+: s'.history ∧ (Recorded s → Recorded s')

section Causes

open RouterState

variable {world : Nat → Moment} {endpoint : ProviderTarget → String} {s : RouterState} {t : ProviderTarget}

theorem Records.refl (s : RouterState) : Records s s :=
  ⟨List.prefix_rfl, id⟩

theorem Records.trans {s₁ s₂ s₃ : RouterState} (h : Records s₁ s₂) (h' : Records s₂ s₃) : Records s₁ s₃ :=
  ⟨h.1.trans h'.1, h'.2 ∘ h.2⟩

theorem ThirdFailure.mono {history history' : List Access} (h : ThirdFailure t history)
    (hmore : history <+: history') : ThirdFailure t history' := by
  obtain ⟨before, later, rfl, hcount⟩ := h
  obtain ⟨more, rfl⟩ := hmore
  exact ⟨before, later ++ more, by simp, hcount⟩

theorem recorded_new : Recorded .new where
  failures t := by cases t <;> rfl
  health t := by cases t <;> rfl
  unhealthy := forallSplits_nil

theorem failures_apply (op : Access) (t : ProviderTarget) :
    ((s.apply op).provider t).consecutiveFailures.toNat =
      failuresStep t (s.provider t).consecutiveFailures.toNat op % 2 ^ 64 := by
  cases op with
  | storeFailures t' k =>
      by_cases ht : t = t'
      · subst ht
        simp [apply, failuresStep]
      · simp [apply, failuresStep, provider_modify_of_ne _ _ ht, Ne.symm ht]
  | fetchAddFailures t' k =>
      by_cases ht : t = t'
      · subst ht
        simp [apply, failuresStep]
      · simp [apply, failuresStep, provider_modify_of_ne _ _ ht, Ne.symm ht]
  | storeHealthy t' _ | fetchAddRequests t' _ | fetchAddTokens t' _ | storeLatency t' _ =>
      by_cases ht : t = t'
      · subst ht
        simp [apply, failuresStep]
      · simp [apply, failuresStep, provider_modify_of_ne _ _ ht]
  | loadHealthy _ | send _ _ | readBody | elapsed => simp [apply, failuresStep]

theorem health_apply (op : Access) (t : ProviderTarget) :
    ((s.apply op).provider t).isHealthy = healthStep t (s.provider t).isHealthy op := by
  cases op with
  | storeHealthy t' b =>
      by_cases ht : t = t'
      · subst ht
        simp [apply, healthStep]
      · simp [apply, healthStep, provider_modify_of_ne _ _ ht, Ne.symm ht]
  | storeFailures t' _ | fetchAddFailures t' _ | fetchAddRequests t' _ | fetchAddTokens t' _
    | storeLatency t' _ =>
      by_cases ht : t = t'
      · subst ht
        simp [apply, healthStep]
      · simp [apply, healthStep, provider_modify_of_ne _ _ ht]
  | loadHealthy _ | send _ _ | readBody | elapsed => rfl

/-- An access keeps the record, if it marks no provider unhealthy without a third failure. -/
theorem records_exec {op : Access}
    (hop : ∀ t, op = .storeHealthy t false → Recorded s → ThirdFailure t s.history) :
    Records s (exec world op s).2 := by
  refine ⟨List.prefix_append _ _, fun hs => ⟨?_, ?_, ?_⟩⟩
  · intro t
    have hstep : failuresStep t (failuresOf t s.history % 2 ^ 64) op % 2 ^ 64 =
        failuresStep t (failuresOf t s.history) op % 2 ^ 64 := by
      cases op <;> simp only [failuresStep] <;> first | split <;> simp | simp
    rw [provider_exec, failures_apply, hs.failures, hstep, history_exec, failuresOf, failuresOf,
      List.foldl_append, List.foldl_cons, List.foldl_nil]
  · intro t
    rw [provider_exec, health_apply, hs.health, history_exec, healthOf, healthOf, List.foldl_append,
      List.foldl_cons, List.foldl_nil]
  · exact forallSplits_concat.2 ⟨hs.unhealthy, fun t ht => hop t ht hs⟩

/-- Accesses that mark no provider unhealthy. -/
def Tame (op : Access) : Prop :=
  ∀ t, op ≠ .storeHealthy t false

abbrev RecordsWp {α : Type} (world : Nat → Moment) (p : Program α) (s : RouterState) : Prop :=
  Proc.Wp (exec world) (fun _ _ => True) Records (fun _ _ => True) p s

theorem recordsWp_of_tame {α : Type} {p : Program α} (h : p.Calls Tame) (s : RouterState) :
    RecordsWp world p s := by
  refine Proc.Calls.wp (fun op s hop _ => ?_) h s
  exact records_exec fun t ht => absurd ht (hop t)

theorem recordsWp_bind {α β : Type} {p : Program α} {f : α → Program β} (hs : Recorded s)
    (hp : RecordsWp world p s) (hf : ∀ a s', Recorded s' → RecordsWp world (f a) s') :
    RecordsWp world (p >>= f) s := by
  refine Proc.Wp.bind ((Proc.Wp.evolves Records.refl Records.trans hp).mono ?_)
  rintro a s' ⟨hR, -⟩
  exact hf a s' (hR.2 hs)

/-- The breaker trips on a count that this very failure has brought to three. -/
theorem recordsWp_recordFailure (hs : Recorded s) (t : ProviderTarget) :
    RecordsWp world (recordFailure t) s := by
  intro _
  have hadd : Records s (exec world (.fetchAddFailures t 1) s).2 :=
    records_exec fun t' ht' => (nomatch ht')
  refine ⟨hadd, fun s₁ hs₁ => ?_⟩
  rw [exec_fst]
  change Proc.Wp _ _ _ _ (if 3 ≤ (s.provider t).consecutiveFailures + 1 then
    call (.storeHealthy t false) else pure ()) s₁
  split
  · rename_i hthree
    -- The counter was at two at least, and so were the failures in a row.
    have htwo : 2 ≤ failuresOf t s.history := by
      have hcount := hs.failures t
      have hle : (3 : UInt64).toNat ≤ ((s.provider t).consecutiveFailures + 1).toNat :=
        UInt64.le_iff_toNat_le.1 hthree
      rw [UInt64.toNat_add] at hle
      have hthreeNat : (3 : UInt64).toNat = 3 := rfl
      have honeNat : (1 : UInt64).toNat = 1 := rfl
      have hmod := Nat.mod_le (failuresOf t s.history) (2 ^ 64)
      have hmod' := Nat.mod_le ((s.provider t).consecutiveFailures.toNat + (1 : UInt64).toNat) (2 ^ 64)
      omega
    have hthird : ThirdFailure t s₁.history := by
      refine ThirdFailure.mono ?_ hs₁.1
      exact ⟨s.history, [], by rw [history_exec], htwo⟩
    refine fun _ => ⟨records_exec ?_, fun _ _ => trivial⟩
    intro t' ht' _
    cases ht'
    exact hthird
  · exact trivial

theorem tame_loadHealthy (t : ProviderTarget) : Tame (.loadHealthy t) :=
  fun _ h => (nomatch h)

theorem recordsWp_handle (hs : Recorded s) (request : Request) :
    RecordsWp world (handle endpoint request) s := by
  -- All accesses but those of `record_failure` are tame.
  have hsend : ∀ t request, Tame (.send t request) := fun _ _ _ h => (nomatch h)
  have hbody : Tame .readBody := fun _ h => (nomatch h)
  have helapsed : Tame .elapsed := fun _ h => (nomatch h)
  have hselect : ∀ headers body, (selectProvider headers body).Calls Tame :=
    calls_selectProvider tame_loadHealthy
  have hpass : ∀ path headers payload, RecordsWp world (passThrough endpoint path headers payload) s := by
    intro path headers payload
    refine recordsWp_of_tame ((hselect headers payload).bind fun t => ?_) s
    refine calls_call (hsend _ _) fun head => ?_
    cases head with
    | error e => trivial
    | ok upstream =>
        refine calls_call hbody fun body => ?_
        cases body <;> trivial
  cases request with
  | healthz =>
      refine recordsWp_of_tame (calls_call (tame_loadHealthy _) fun _ =>
        calls_call (tame_loadHealthy _) fun _ => ?_) s
      split <;> trivial
  | models headers => exact hpass _ _ _
  | completions headers payload => exact hpass _ _ _
  | embeddings headers payload => exact hpass _ _ _
  | chat headers payload =>
      refine recordsWp_bind hs (recordsWp_of_tame (hselect headers (some payload)) s) fun t s₁ hs₁ => ?_
      have hsent : ∀ request, (call (.send t request)).Calls Tame :=
        fun request => ⟨hsend t request, fun _ => trivial⟩
      refine recordsWp_bind hs₁ (recordsWp_of_tame (hsent _) s₁) fun head s₂ hs₂ => ?_
      cases head with
      | error e => exact recordsWp_bind hs₂ (recordsWp_recordFailure hs₂ t) fun _ _ _ => trivial
      | ok upstream =>
          simp only
          split
          · refine recordsWp_of_tame (calls_chatAnswered hbody helapsed (fun ms => ?_) payload) s₂
            exact calls_recordSuccess (fun _ h => (nomatch h)) (fun _ h => by cases h)
              (fun _ h => (nomatch h)) (fun _ h => (nomatch h)) (fun _ h => (nomatch h))
          · exact recordsWp_bind hs₂ (recordsWp_recordFailure hs₂ t) fun _ _ _ => trivial

theorem exists_storeHealthy_of_healthOf {history : List Access} (h : healthOf t history = false) :
    ∃ before later, history = before ++ .storeHealthy t false :: later := by
  induction history using List.reverseRecOn with
  | nil => simp [healthOf] at h
  | append_singleton history op ih =>
      rw [healthOf, List.foldl_append, List.foldl_cons, List.foldl_nil] at h
      by_cases hop : op = .storeHealthy t false
      · exact ⟨history, [], by rw [hop]⟩
      · have hbefore : healthOf t history = false := by
          cases op with
          | storeHealthy t' b =>
              simp only [healthStep] at h
              split at h
              · rename_i ht
                subst ht h
                exact absurd rfl hop
              · exact h
          | _ => exact h
        obtain ⟨before, later, rfl⟩ := ih hbefore
        exact ⟨before, later ++ [op], by simp⟩

/-- However any number of handlers take turns and whatever the providers answer: a provider that is marked
unhealthy has had a failure counted when there were two in a row already, with no success recorded since the
first of them. -/
theorem unhealthy_after_three_failures {ι : Type} [DecidableEq ι] {requests : ι → Request}
    {c : Interleaving.Config Access Access.Ans Reply RouterState ι}
    (hsteps : Interleaving.Steps (exec world) (fun _ _ => True)
      ⟨.new, fun i => handle endpoint (requests i)⟩ c)
    (hdown : (c.store.provider t).isHealthy = false) : ThirdFailure t c.store.history := by
  have hall : Interleaving.AllWp (exec world) (fun _ _ => True) Records (fun _ _ _ => True)
      (⟨.new, fun i => handle endpoint (requests i)⟩ :
        Interleaving.Config Access Access.Ans Reply RouterState ι) :=
    fun i s' hs' => recordsWp_handle (hs'.2 recorded_new) (requests i)
  obtain ⟨⟨-, hkept⟩, -⟩ := Interleaving.Steps.wp_preserved Records.refl Records.trans hsteps hall
  have hrecorded := hkept recorded_new
  rw [hrecorded.health] at hdown
  obtain ⟨before, later, hsplit⟩ := exists_storeHealthy_of_healthOf hdown
  have hthird := hrecorded.unhealthy before _ later hsplit t rfl
  exact hthird.mono ⟨_, hsplit.symm⟩

/-- Three chats at once. -/
def threeChats : Interleaving.Config Access Access.Ans Reply RouterState (Fin 3) :=
  ⟨.new, fun _ => handle clusterEndpoint plainChat⟩

theorem unhealthy_after_three_failures_threeChats :
    ThirdFailure .llmKube
      (threeChats.fireAll (exec overloaded) [0, 1, 2, 0, 1, 2, 0, 1, 2, 2]).store.history := by
  have hok : threeChats.OkAlong (exec overloaded) (fun _ _ => True) [0, 1, 2, 0, 1, 2, 0, 1, 2, 2] :=
    Interleaving.Config.okAlong_of_forall (fun _ _ => trivial) _ _
  exact unhealthy_after_three_failures (Interleaving.Steps.of_okAlong hok) rfl

end Causes

/-! ## Requests that do not overlap -/

/-- The failures in a row of each provider: all that the router has to know. -/
abbrev Tally : Type := ProviderTarget → Nat

/-- What a request tells about a provider: nothing, a success or a failure. -/
def Tally.after (tally : Tally) : Option (ProviderTarget × Bool) → Tally
  | none => tally
  | some (t, true) => Function.update tally t 0
  | some (t, false) => Function.update tally t (tally t + 1)

/-- The header names this provider. -/
def Headers.asks (headers : Headers) (name : String) : Bool :=
  headers.brainProvider.any fun value => eqIgnoreAsciiCase value name

/-- The provider a request is sent to. -/
def Tally.route (tally : Tally) (headers : Headers) (body : Option (Doc Number)) : ProviderTarget :=
  if headers.asks "dgx" ∧ tally .dgx < 3 then .dgx
  else if ¬ headers.asks "dgx" ∧ headers.asks "llmkube" ∧ tally .llmKube < 3 then .llmKube
  else if body.any requiresDgx ∧ tally .dgx < 3 then .dgx
  else if tally .llmKube < 3 then .llmKube
  else .dgx

/-- What a provider has been sent and has answered: its head, and the body that is there to be read. -/
structure Exchange where
  target : ProviderTarget
  head : Except String Upstream
  body : Except String String

/-- What a chat tells about its provider: a failure if it cannot be reached or answers with another status
than one of success, nothing if a body is read and cannot be, a success otherwise. -/
def Exchange.learnt (exchange : Exchange) (payload : Doc Number) : Option (ProviderTarget × Bool) :=
  match exchange.head with
  | .error _ => some (exchange.target, false)
  | .ok upstream =>
      if 200 ≤ upstream.status ∧ upstream.status < 300 then
        if isStreaming payload ∨ exchange.body.isOk then some (exchange.target, true) else none
      else some (exchange.target, false)

/-- How a request is served: it is sent where the tally says, and only a chat tells something. -/
inductive Served (tally : Tally) : Request → List Exchange → Option (ProviderTarget × Bool) → Prop
  | healthz : Served tally .healthz [] none
  | models (headers head body) :
      Served tally (.models headers) [⟨tally.route headers none, head, body⟩] none
  | completions (headers payload head body) :
      Served tally (.completions headers payload) [⟨tally.route headers (some payload), head, body⟩] none
  | embeddings (headers payload head body) :
      Served tally (.embeddings headers payload) [⟨tally.route headers (some payload), head, body⟩] none
  | chat (headers payload head body) :
      Served tally (.chat headers payload) [⟨tally.route headers (some payload), head, body⟩]
        (Exchange.learnt ⟨tally.route headers (some payload), head, body⟩ payload)

/-- A run of requests, from the first one: what has been exchanged, and the failures in the end. -/
inductive ServedAll : List Request → List Exchange → Tally → Prop
  | nil : ServedAll [] [] fun _ => 0
  | concat {requests : List Request} {sent : List Exchange} {tally : Tally} {request : Request}
      {sent' : List Exchange} {learnt : Option (ProviderTarget × Bool)}
      (hbefore : ServedAll requests sent tally) (hserved : Served tally request sent' learnt) :
      ServedAll (requests ++ [request]) (sent ++ sent') (tally.after learnt)

/-- The exchange of a request that is sent at a moment; its body would be read at the next one. -/
def exchangeAt (world : Nat → Moment) (n : Nat) (target : ProviderTarget) : Exchange :=
  ⟨target, (world n).head, (world (n + 1)).body⟩

/-- What has been exchanged with the providers, the first access being made at moment `n`. -/
def exchanges (world : Nat → Moment) (n : Nat) : List Access → List Exchange
  | [] => []
  | .send t _ :: history => exchangeAt world n t :: exchanges world (n + 1) history
  | _ :: history => exchanges world (n + 1) history

/-- The counters show the failures in a row, and a provider is out from the third on. -/
structure Agrees (tally : Tally) (s : RouterState) : Prop where
  failures : ∀ t, (s.provider t).consecutiveFailures.toNat = tally t
  health : ∀ t, (s.provider t).isHealthy = decide (tally t < 3)

section Sequential

open RouterState

variable {world : Nat → Moment} {endpoint : ProviderTarget → String} {s : RouterState} {tally : Tally}

theorem exchanges_append (n : Nat) (history more : List Access) :
    exchanges world n (history ++ more) = exchanges world n history ++ exchanges world (n + history.length) more := by
  induction history generalizing n with
  | nil => rfl
  | cons op history ih =>
      have hlength : n + (op :: history).length = n + 1 + history.length := by
        rw [List.length_cons]
        omega
      rw [hlength]
      cases op <;> simp only [List.cons_append, exchanges, ih]

variable (world) in
/-- A run that leaves the providers alone and has exchanged `sent`. -/
structure Quiet (s s' : RouterState) (sent : List Exchange) : Prop where
  provider : ∀ t, s'.provider t = s.provider t
  exchanges : exchanges world 0 s'.history = exchanges world 0 s.history ++ sent

theorem Quiet.refl (s : RouterState) : Quiet world s s [] :=
  ⟨fun _ => rfl, (List.append_nil _).symm⟩

theorem Quiet.trans {s₁ s₂ s₃ : RouterState} {sent sent' : List Exchange} (h : Quiet world s₁ s₂ sent)
    (h' : Quiet world s₂ s₃ sent') : Quiet world s₁ s₃ (sent ++ sent') :=
  ⟨fun t => (h'.provider t).trans (h.provider t), by rw [h'.exchanges, h.exchanges, List.append_assoc]⟩

theorem Quiet.agrees {s s' : RouterState} {sent : List Exchange} (h : Quiet world s s' sent)
    (hs : Agrees tally s) : Agrees tally s' :=
  ⟨fun t => by rw [h.provider, hs.failures], fun t => by rw [h.provider, hs.health]⟩

variable (world) in
theorem exchanges_exec (op : Access) (s : RouterState) :
    exchanges world 0 (exec world op s).2.history =
      exchanges world 0 s.history ++ exchanges world s.history.length [op] := by
  rw [history_exec, exchanges_append, Nat.zero_add]

variable (world) in
theorem quiet_load (t : ProviderTarget) (s : RouterState) :
    Quiet world s (exec world (.loadHealthy t) s).2 [] :=
  ⟨fun _ => provider_exec _ _ _ _, exchanges_exec world _ s⟩

variable (world) in
theorem quiet_send (t : ProviderTarget) (request : Outgoing) (s : RouterState) :
    Quiet world s (exec world (.send t request) s).2 [exchangeAt world s.history.length t] :=
  ⟨fun _ => provider_exec _ _ _ _, exchanges_exec world _ s⟩

variable (world) in
theorem quiet_readBody (s : RouterState) : Quiet world s (exec world .readBody s).2 [] :=
  ⟨fun _ => provider_exec _ _ _ _, exchanges_exec world _ s⟩

variable (world) in
theorem quiet_elapsed (s : RouterState) : Quiet world s (exec world .elapsed s).2 [] :=
  ⟨fun _ => provider_exec _ _ _ _, exchanges_exec world _ s⟩

theorem run_call {α : Type} (op : Access) (f : op.Ans → Program α) (s : RouterState) :
    (call op >>= f).run (exec world) s = (f (s.answer world op)).run (exec world) (exec world op s).2 := rfl

theorem run_ifHealthy (hs : Agrees tally s) (t : ProviderTarget) :
    ((ifHealthy t).run (exec world) s).1 = (if tally t < 3 then some t else none) ∧
      Quiet world s ((ifHealthy t).run (exec world) s).2 [] := by
  unfold ifHealthy
  rw [run_call, answer, hs.health]
  by_cases ht : tally t < 3
  · rw [if_pos ht, decide_eq_true ht]
    exact ⟨rfl, quiet_load world t s⟩
  · rw [if_neg ht, decide_eq_false ht]
    exact ⟨rfl, quiet_load world t s⟩

variable (world) in
/-- The code selects the provider of the abstract router. -/
theorem run_selectProvider (hs : Agrees tally s) (headers : Headers) (body : Option (Doc Number)) :
    ((selectProvider headers body).run (exec world) s).1 = tally.route headers body ∧
      Quiet world s ((selectProvider headers body).run (exec world) s).2 [] := by
  have hheader : ((byHeader headers).run (exec world) s).1 =
        (if headers.asks "dgx" ∧ tally .dgx < 3 then some .dgx
          else if ¬ headers.asks "dgx" ∧ headers.asks "llmkube" ∧ tally .llmKube < 3 then some .llmKube
          else none) ∧
      Quiet world s ((byHeader headers).run (exec world) s).2 [] := by
    unfold byHeader Headers.asks
    cases headers.brainProvider with
    | none => exact ⟨by simp, Quiet.refl s⟩
    | some value =>
        simp only [Option.any_some]
        by_cases hdgx : eqIgnoreAsciiCase value "dgx" = true
        · simpa [hdgx] using run_ifHealthy hs .dgx
        · by_cases hkube : eqIgnoreAsciiCase value "llmkube" = true
          · simpa [hdgx, hkube] using run_ifHealthy hs .llmKube
          · simpa [hdgx, hkube] using Quiet.refl s
  have hpayload : ∀ s, Agrees tally s → ((byPayload body).run (exec world) s).1 =
        (if body.any requiresDgx ∧ tally .dgx < 3 then some .dgx else none) ∧
      Quiet world s ((byPayload body).run (exec world) s).2 [] := by
    intro s hs
    unfold byPayload
    cases body with
    | none => exact ⟨by simp, Quiet.refl s⟩
    | some json =>
        simp only [Option.any_some]
        by_cases hjson : requiresDgx json = true
        · simpa [hjson] using run_ifHealthy hs .dgx
        · simpa [hjson] using Quiet.refl s
  have hhealth : ∀ s, Agrees tally s →
      (byHealth.run (exec world) s).1 = (if tally .llmKube < 3 then .llmKube else .dgx) ∧
        Quiet world s (byHealth.run (exec world) s).2 [] := by
    intro s hs
    unfold byHealth
    rw [run_call, answer, hs.health]
    by_cases ht : tally .llmKube < 3
    · rw [if_pos ht, decide_eq_true ht]
      exact ⟨rfl, quiet_load world _ s⟩
    · rw [if_neg ht, decide_eq_false ht]
      exact ⟨rfl, quiet_load world _ s⟩
  obtain ⟨hfound, hquiet⟩ := hheader
  unfold selectProvider Tally.route
  rw [Proc.bind_eq, Proc.run_bind, hfound]
  by_cases h₁ : headers.asks "dgx" ∧ tally .dgx < 3
  · rw [if_pos h₁, if_pos h₁]
    exact ⟨rfl, hquiet⟩
  · rw [if_neg h₁, if_neg h₁]
    by_cases h₂ : ¬ headers.asks "dgx" ∧ headers.asks "llmkube" ∧ tally .llmKube < 3
    · rw [if_pos h₂, if_pos h₂]
      exact ⟨rfl, hquiet⟩
    · rw [if_neg h₂, if_neg h₂]
      -- The header has decided nothing.
      obtain ⟨hfound', hquiet'⟩ := hpayload _ (hquiet.agrees hs)
      simp only
      rw [Proc.bind_eq, Proc.run_bind, hfound']
      by_cases h₃ : body.any requiresDgx ∧ tally .dgx < 3
      · rw [if_pos h₃, if_pos h₃]
        exact ⟨rfl, hquiet.trans hquiet'⟩
      · rw [if_neg h₃, if_neg h₃]
        obtain ⟨hfound'', hquiet''⟩ := hhealth _ (hquiet'.agrees (hquiet.agrees hs))
        exact ⟨hfound'', (hquiet.trans hquiet').trans hquiet''⟩

variable (world) in
theorem run_recordSuccess (hs : Agrees tally s) (t : ProviderTarget) (ms k : UInt64) :
    Agrees (tally.after (some (t, true))) ((recordSuccess t ms k).run (exec world) s).2 ∧
      exchanges world 0 ((recordSuccess t ms k).run (exec world) s).2.history =
        exchanges world 0 s.history := by
  generalize hr : ((recordSuccess t ms k).run (exec world) s).2 = s'
  -- Both stores are to the one provider; the other keeps its atomics.
  have hself : (s'.provider t).consecutiveFailures = 0 ∧ (s'.provider t).isHealthy = true := by
    rw [← hr]
    cases t <;> exact ⟨rfl, rfl⟩
  have hother : ∀ t', t' ≠ t → s'.provider t' = s.provider t' := by
    intro t' ht
    rw [← hr]
    cases t <;> cases t' <;> first | rfl | exact absurd rfl ht
  refine ⟨⟨?_, ?_⟩, ?_⟩
  · intro t'
    by_cases ht : t' = t
    · subst ht
      simp [Tally.after, hself.1]
    · simp [Tally.after, ht, hother t' ht, hs.failures]
  · intro t'
    by_cases ht : t' = t
    · subst ht
      simp [Tally.after, hself.2]
    · simp [Tally.after, ht, hother t' ht, hs.health]
  · rw [← hr]
    simp [recordSuccess, call, Proc.perform, Proc.bind, exchanges_append, exchanges]

variable (world) in
theorem run_recordFailure (hs : Agrees tally s) (t : ProviderTarget) (hsmall : tally t + 1 < 2 ^ 64) :
    Agrees (tally.after (some (t, false))) ((recordFailure t).run (exec world) s).2 ∧
      exchanges world 0 ((recordFailure t).run (exec world) s).2.history =
        exchanges world 0 s.history := by
  -- Below `2 ^ 64` the counter does not wrap, so it still is the tally.
  have hcount : ((s.provider t).consecutiveFailures + 1).toNat = tally t + 1 := by
    rw [UInt64.toNat_add, hs.failures]
    exact Nat.mod_eq_of_lt hsmall
  -- The value compared with 3 is the old count plus one, as `fetch_add` returns the old.
  have hthree : 3 ≤ (s.provider t).consecutiveFailures + 1 ↔ 2 ≤ tally t := by
    rw [UInt64.le_iff_toNat_le, hcount]
    change 3 ≤ tally t + 1 ↔ _
    omega
  have hrun : (recordFailure t).run (exec world) s =
      (if 3 ≤ (s.provider t).consecutiveFailures + 1 then call (.storeHealthy t false) else pure () :
        Program Unit).run (exec world) (exec world (.fetchAddFailures t 1) s).2 := rfl
  generalize hr : ((recordFailure t).run (exec world) s).2 = s'
  have hself : (s'.provider t).consecutiveFailures = (s.provider t).consecutiveFailures + 1 ∧
      (s'.provider t).isHealthy = (decide (tally t < 2) && (s.provider t).isHealthy) := by
    rw [← hr, hrun]
    by_cases htwo : 2 ≤ tally t
    · rw [if_pos (hthree.2 htwo), decide_eq_false (by omega)]
      cases t <;> exact ⟨rfl, rfl⟩
    · rw [if_neg (fun h => htwo (hthree.1 h)), decide_eq_true (by omega)]
      cases t <;> exact ⟨rfl, rfl⟩
  have hother : ∀ t', t' ≠ t → s'.provider t' = s.provider t' := by
    intro t' ht
    rw [← hr, hrun]
    split <;> (cases t <;> cases t' <;> first | rfl | exact absurd rfl ht)
  refine ⟨⟨?_, ?_⟩, ?_⟩
  · intro t'
    by_cases ht : t' = t
    · subst ht
      simp only [Tally.after, Function.update_self, hself.1, hcount]
    · simp [Tally.after, ht, hother t' ht, hs.failures]
  · intro t'
    by_cases ht : t' = t
    · subst ht
      simp only [Tally.after, Function.update_self, hself.2, hs.health, ← Bool.decide_and]
      exact decide_eq_decide.2 (by omega)
    · simp [Tally.after, ht, hother t' ht, hs.health]
  · rw [← hr, hrun]
    split <;> simp [call, Proc.perform, exchanges_append, exchanges]

/-- A request has been served as the abstract router would serve it. -/
def ServedRun (world : Nat → Moment) (endpoint : ProviderTarget → String) (tally : Tally) (s : RouterState)
    (request : Request) : Prop :=
  ∃ sent learnt, Served tally request sent learnt ∧
    Agrees (tally.after learnt) ((handle endpoint request).run (exec world) s).2 ∧
    exchanges world 0 ((handle endpoint request).run (exec world) s).2.history =
      exchanges world 0 s.history ++ sent

variable (world endpoint) in
theorem run_passThrough (hs : Agrees tally s) (path : String) (headers : Headers)
    (payload : Option (Doc Number)) :
    ∃ head body, Quiet world s ((passThrough endpoint path headers payload).run (exec world) s).2
      [⟨tally.route headers payload, head, body⟩] := by
  obtain ⟨hroute, hquiet⟩ := run_selectProvider world hs headers payload
  unfold passThrough
  rw [Proc.bind_eq, Proc.run_bind, hroute, run_call]
  generalize ((selectProvider headers payload).run (exec world) s).2 = s₁ at hquiet ⊢
  generalize (⟨urlOf endpoint (tally.route headers payload) path, payload, []⟩ : Outgoing) = outgoing
  have hsent := hquiet.trans (quiet_send world (tally.route headers payload) outgoing s₁)
  refine ⟨(world s₁.history.length).head, (world (s₁.history.length + 1)).body, ?_⟩
  cases answer world s₁ (.send (tally.route headers payload) outgoing) with
  | error e => exact hsent
  | ok upstream =>
      simp only
      rw [run_call]
      have hread := hsent.trans (quiet_readBody world _)
      split <;> exact hread

variable (world) in
/-- A chat that is answered with success tells so, unless its body is read and cannot be. -/
theorem run_chatAnswered (hs : Agrees tally s) (t : ProviderTarget) (payload : Doc Number) :
    Agrees (tally.after (if isStreaming payload ∨ (world s.history.length).body.isOk then some (t, true)
        else none)) ((chatAnswered t payload).run (exec world) s).2 ∧
      exchanges world 0 ((chatAnswered t payload).run (exec world) s).2.history =
        exchanges world 0 s.history := by
  -- The clock is read, which is no exchange, and then the success is recorded.
  have hsuccess : ∀ s₁ : RouterState, Quiet world s s₁ [] → ∀ (reply : UInt64 → Reply),
      Agrees (tally.after (some (t, true)))
          ((call .elapsed >>= fun ms => recordSuccess t ms 1 >>= fun _ => pure (reply ms)).run
            (exec world) s₁).2 ∧
        exchanges world 0 ((call .elapsed >>= fun ms => recordSuccess t ms 1 >>= fun _ => pure (reply ms)).run
            (exec world) s₁).2.history = exchanges world 0 s.history := by
    intro s₁ hquiet reply
    have helapsed := hquiet.trans (quiet_elapsed world s₁)
    obtain ⟨hagrees, hsame⟩ := run_recordSuccess world (helapsed.agrees hs) t
      (answer world s₁ .elapsed) 1
    rw [run_call, Proc.bind_eq, Proc.run_bind]
    refine ⟨hagrees, ?_⟩
    change exchanges world 0 ((recordSuccess t (answer world s₁ .elapsed) 1).run (exec world)
      (exec world .elapsed s₁).2).2.history = _
    rw [hsame, helapsed.exchanges]
    exact List.append_nil _
  unfold chatAnswered
  by_cases hstream : isStreaming payload = true
  · rw [if_pos hstream, if_pos (Or.inl hstream)]
    exact hsuccess s (Quiet.refl s) _
  -- A body that cannot be read ends the handler before anything is recorded.
  · have hread := quiet_readBody world s
    have hanswer : answer world s .readBody = (world s.history.length).body := rfl
    rw [if_neg hstream, run_call, hanswer]
    cases (world s.history.length).body with
    | error e =>
        rw [if_neg (by simp [hstream, Except.isOk, Except.toBool])]
        exact ⟨hread.agrees hs, hread.exchanges.trans (List.append_nil _)⟩
    | ok body =>
        have hok : (Except.ok body : Except String String).isOk = true := rfl
        rw [if_pos (Or.inr hok)]
        exact hsuccess _ hread _

variable (world endpoint) in
theorem servedRun_handle (hs : Agrees tally s) (hsmall : ∀ t, tally t + 1 < 2 ^ 64) (request : Request) :
    ServedRun world endpoint tally s request := by
  cases request with
  -- Only a chat records; the pass-through routes send one request and leave the atomics alone.
  | healthz =>
      have hquiet : Quiet world s (healthz.run (exec world) s).2 [] := by
        unfold healthz
        rw [run_call, run_call]
        have hloads := (quiet_load world .llmKube s).trans (quiet_load world .dgx _)
        split <;> exact hloads
      exact ⟨[], none, .healthz, hquiet.agrees hs, hquiet.exchanges⟩
  | models headers =>
      obtain ⟨head, body, hquiet⟩ := run_passThrough world endpoint hs "/v1/models" headers none
      exact ⟨_, none, .models headers head body, hquiet.agrees hs, hquiet.exchanges⟩
  | completions headers payload =>
      obtain ⟨head, body, hquiet⟩ := run_passThrough world endpoint hs "/v1/completions" headers
        (some payload)
      exact ⟨_, none, .completions headers payload head body, hquiet.agrees hs, hquiet.exchanges⟩
  | embeddings headers payload =>
      obtain ⟨head, body, hquiet⟩ := run_passThrough world endpoint hs "/v1/embeddings" headers
        (some payload)
      exact ⟨_, none, .embeddings headers payload head body, hquiet.agrees hs, hquiet.exchanges⟩
  | chat headers payload =>
      obtain ⟨hroute, hquiet⟩ := run_selectProvider world hs headers (some payload)
      unfold ServedRun handle chatCompletions
      simp only
      rw [Proc.bind_eq, Proc.run_bind, hroute, run_call]
      generalize ht : tally.route headers (some payload) = t at hroute ⊢
      generalize ((selectProvider headers (some payload)).run (exec world) s).2 = s₁ at hquiet ⊢
      generalize (⟨urlOf endpoint t "/v1/chat/completions", some payload, forwardedHeaders headers⟩ :
        Outgoing) = outgoing
      have hsent : Quiet world s (exec world (.send t outgoing) s₁).2
          [exchangeAt world s₁.history.length t] :=
        hquiet.trans (quiet_send world t outgoing s₁)
      have hnext : (exec world (.send t outgoing) s₁).2.history.length = s₁.history.length + 1 :=
        List.length_append
      have hanswer : answer world s₁ (.send t outgoing) = (world s₁.history.length).head := rfl
      rw [hanswer]
      generalize (exec world (.send t outgoing) s₁).2 = s₂ at hsent hnext ⊢
      -- What is learnt is named by the answer of the world at the moment of the send.
      have hserved : Served tally (.chat headers payload) [exchangeAt world s₁.history.length t]
          ((exchangeAt world s₁.history.length t).learnt payload) := by
        rw [← ht]
        exact .chat headers payload _ _
      refine ⟨_, _, hserved, ?_⟩
      -- A transport error and a bad status take the same way out.
      have hfailed : ∀ reply : Reply,
          Agrees (tally.after (some (t, false)))
            ((recordFailure t >>= fun _ => pure reply).run (exec world) s₂).2 ∧
          exchanges world 0 ((recordFailure t >>= fun _ => pure reply).run (exec world) s₂).2.history =
            exchanges world 0 s.history ++ [exchangeAt world s₁.history.length t] := by
        intro reply
        obtain ⟨hagrees, hsame⟩ := run_recordFailure world (hsent.agrees hs) t (hsmall t)
        rw [Proc.bind_eq, Proc.run_bind]
        exact ⟨hagrees, hsame.trans hsent.exchanges⟩
      unfold Exchange.learnt exchangeAt
      unfold exchangeAt at hsent hfailed
      generalize (world s₁.history.length).head = head at hsent hfailed ⊢
      cases head with
      | error e => exact hfailed _
      | ok upstream =>
          simp only
          split
          · obtain ⟨hagrees, hsame⟩ := run_chatAnswered world (hsent.agrees hs) t payload
            rw [hnext] at hagrees
            exact ⟨hagrees, hsame.trans hsent.exchanges⟩
          · exact hfailed _

theorem ServedAll.le_length {requests : List Request} {sent : List Exchange}
    (h : ServedAll requests sent tally) (t : ProviderTarget) : tally t ≤ requests.length := by
  induction h with
  | nil => exact Nat.le_refl 0
  | @concat requests sent tally request sent' learnt hbefore hserved ih =>
      rw [List.length_append, List.length_singleton]
      rcases learnt with _ | ⟨t', success⟩
      · exact Nat.le_succ_of_le ih
      · by_cases heq : t = t'
        · subst heq
          cases success with
          | true => simp [Tally.after]
          | false => simpa [Tally.after] using ih
        · cases success <;> simpa [Tally.after, heq] using Nat.le_succ_of_le ih

/-- Requests served one after the other, fewer than the counters can count: the router sends each of them
where the abstract router would, which has nothing but the failures in a row of each provider and learns of
them from what the providers answer, and in the end its atomics show just these: a provider is out exactly when
the last three chats that told something about it have failed. -/
theorem sequential_refines (world : Nat → Moment) (endpoint : ProviderTarget → String)
    (requests : List Request) (hcount : requests.length < 2 ^ 64) :
    ∃ tally, ServedAll requests
        (exchanges world 0 (after (fun s request => ((handle endpoint request).run (exec world) s).2) .new
          requests).history) tally ∧
      Agrees tally (after (fun s request => ((handle endpoint request).run (exec world) s).2) .new requests) := by
  -- Over the requests from the last one: the tally of those before is the state the last one meets.
  induction requests using List.reverseRecOn with
  | nil =>
      refine ⟨fun _ => 0, .nil, ⟨?_, ?_⟩⟩
      · intro t
        cases t <;> rfl
      · intro t
        cases t <;> rfl
  | append_singleton requests request ih =>
      rw [List.length_append, List.length_singleton] at hcount
      obtain ⟨tally, hbefore, hagrees⟩ := ih (by omega)
      rw [after_append, after_cons, after_nil]
      have hsmall : ∀ t, tally t + 1 < 2 ^ 64 := by
        intro t
        have := hbefore.le_length t
        omega
      obtain ⟨sent, learnt, hserved, hagrees', hexchanged⟩ :=
        servedRun_handle world endpoint hagrees hsmall request
      refine ⟨tally.after learnt, ?_, hagrees'⟩
      rw [hexchanged]
      exact .concat hbefore hserved

/-- LLMKube has answered three chats that it is overloaded. -/
theorem sequential_refines_chatted :
    ∃ tally, ServedAll (List.replicate 3 plainChat)
        (List.replicate 3 ⟨.llmKube, .ok ⟨503, "overloaded"⟩, .ok ""⟩) tally ∧ Agrees tally (chatted 3) :=
  sequential_refines overloaded clusterEndpoint (List.replicate 3 plainChat) (by decide)

end Sequential

end Brains
end Aivcs
