import Aivcs.Lib.Json
import Aivcs.Lib.Proc

/-!
# SourceController.Reconcile — merge events for the head of a branch

`reconcile` reads the head of the branch an `AivcsRepository` names, emits a merge event for a new head
of `main`, and only then writes the head into the status, which is how the next reconcile knows it.
It is a program over three calls: a GET to the forge, a POST to the receiver and a PATCH of the status.

The keyed hash of a signature is a parameter.  Log lines and the metadata of the object beyond its name
are left out.
-/

namespace Aivcs
namespace SourceController

open Aivcs.Lib

/-! ## Merge events -/

def defaultBranch : String := "main"

structure MergeEventPayload where
  eventId : String
  repository : String
  targetBranch : String
  commitSha : String
  pullRequest : String
  merged : Bool
  approved : Bool
  checksPassed : Bool
  flake : String
  image : Option String
  deriving DecidableEq

/-- `event_id_for`: the characters an event id may not have are replaced by a dash. -/
def eventIdFor (repository commitSha : String) : Except String String :=
  let raw := repository ++ "@" ++ commitSha
  let sanitized := String.ofList (raw.toList.map fun c =>
    if c.isAlphanum || c = '-' || c = '_' then c else '-')
  if sanitized.isEmpty || 200 < sanitized.utf8ByteSize then
    .error ("event_id out of bounds after sanitize (len=" ++ toString sanitized.utf8ByteSize ++ ")")
  else .ok sanitized

namespace MergeEventPayload

def fromMainAdvance (organization repo commitSha : String) : Except String MergeEventPayload :=
  let repository := organization ++ "/" ++ repo
  match eventIdFor repository commitSha with
  | .error e => .error e
  | .ok eventId =>
      .ok
        { eventId := eventId
          repository := repository
          targetBranch := defaultBranch
          commitSha := commitSha
          pullRequest := "aivcs@" ++ commitSha
          merged := true
          approved := true
          checksPassed := true
          flake := ".#container"
          image := none }

/-- The serialised event; an absent image is skipped. -/
def toJson (payload : MergeEventPayload) : Json :=
  .obj ([("event_id", .str payload.eventId),
    ("repository", .str payload.repository),
    ("target_branch", .str payload.targetBranch),
    ("commit_sha", .str payload.commitSha),
    ("pull_request", .str payload.pullRequest),
    ("merged", .bool payload.merged),
    ("approved", .bool payload.approved),
    ("checks_passed", .bool payload.checksPassed),
    ("flake", .str payload.flake)] ++ (payload.image.map fun i => ("image", Json.str i)).toList)

theorem of_fromMainAdvance {organization repo commitSha : String} {payload : MergeEventPayload}
    (h : fromMainAdvance organization repo commitSha = .ok payload) :
    payload.repository = organization ++ "/" ++ repo ∧ payload.commitSha = commitSha := by
  unfold fromMainAdvance at h
  cases hid : eventIdFor (organization ++ "/" ++ repo) commitSha with
  | error e =>
      simp [hid] at h
  | ok eventId =>
      simp only [hid, Except.ok.injEq] at h
      subst h
      exact ⟨rfl, rfl⟩

end MergeEventPayload

def shouldEmit (branch : String) (headAdvanced : Bool) : Bool :=
  headAdvanced && branch = defaultBranch

structure MergeEmitter where
  url : String
  secret : Bytes

/-! ## The repository object -/

structure AivcsRepositorySpec where
  organization : String
  repo : String
  branch : String
  intervalSeconds : Nat
  deriving DecidableEq

structure AivcsRepositoryStatus where
  artifactRevision : Option String
  deriving DecidableEq

structure AivcsRepository where
  ns : Option String
  name : String
  spec : AivcsRepositorySpec
  status : Option AivcsRepositoryStatus
  deriving DecidableEq

/-- The revision in the status. -/
def AivcsRepository.revision (obj : AivcsRepository) : Option String :=
  obj.status.bind (·.artifactRevision)

structure ContextData where
  aivcsdUrl : String
  mergeEmitter : Option MergeEmitter
  /-- HMAC-SHA256 of a body under a secret, in lower-case hexadecimal. -/
  hmacHex : Bytes → Bytes → String

inductive ReconcileError
  | any (message : String)
  | kube (message : String)
  deriving DecidableEq

/-- `Action::requeue`, in seconds. -/
structure Action where
  requeue : Nat
  deriving DecidableEq

/-! ## The calls of a reconcile -/

inductive ControllerOp
  | get (url : String)
  /-- The body is the JSON of the event. -/
  | post (url signature : String) (payload : MergeEventPayload)
  | patchStatus (ns name head : String)

/-- A status with the body, or why there is no answer. -/
@[reducible] def ControllerOp.Ans : ControllerOp → Type
  | .get _ => Except String (Nat × Except String Json)
  | .post _ _ _ => Except String (Nat × String)
  | .patchStatus _ _ _ => Except String Unit

abbrev ControllerProc (α : Type) : Type := Proc ControllerOp ControllerOp.Ans α

/-- `StatusCode::is_success`. -/
def isSuccess (status : Nat) : Bool :=
  200 ≤ status && status < 300

/-! ## The forge -/

/-- A byte of a path segment, as it is or percent-encoded. -/
def escapePathByte (b : UInt8) : List Char :=
  let c := Char.ofNat b.toNat
  if c.isAlphanum || c = '-' || c = '_' || c = '.' then [c]
  else ['%', (Nat.digitChar (b.toNat / 16)).toUpper, (Nat.digitChar (b.toNat % 16)).toUpper]

def urlencodingPath (s : String) : String :=
  String.ofList (['/'].intercalate ((s.toList.splitOn '/').map fun segment =>
    (utf8 (String.ofList segment)).flatMap escapePathByte))

def branchUrl (ctx : ContextData) (repo branch : String) : String :=
  ctx.aivcsdUrl ++ "/api/v1/repos/" ++ urlencodingPath repo ++ "/branches/" ++ urlencodingPath branch

def resolveBranchHead (ctx : ContextData) (repo branch : String) :
    ControllerProc (Except ReconcileError (Option String)) :=
  let url := branchUrl ctx repo branch
  (Proc.perform (ControllerOp.get url)).bind fun
    | .error _ => .ret (.error (.any ("GET " ++ url)))
    | .ok (status, body) =>
        if status = 404 then .ret (.ok none)
        else if isSuccess status = false then
          .ret (.error (.any ("aivcsd " ++ toString status ++ " for " ++ url)))
        else
          match body with
          | .error _ => .ret (.error (.any "parse branch response"))
          | .ok body => .ret (.ok ((body.field? "head_commit_id").bind Json.asStr?))

/-! ## The receiver -/

def signBody (ctx : ContextData) (secret body : Bytes) : String :=
  "sha256=" ++ ctx.hmacHex secret body

def MergeEmitter.emit (ctx : ContextData) (emitter : MergeEmitter) (payload : MergeEventPayload) :
    ControllerProc (Except String String) :=
  let signature := signBody ctx emitter.secret payload.toJson.render
  (Proc.perform (ControllerOp.post emitter.url signature payload)).bind fun
    | .error _ => .ret (.error ("POST " ++ emitter.url))
    | .ok (status, text) =>
        if isSuccess status || status = 202 then .ret (.ok text)
        else
          .ret (.error ("og-builds merge receiver returned " ++ toString status ++ ": " ++ text))

/-! ## Reconcile -/

/-- The event for a head that has advanced, if it is one to emit. -/
def emitAdvance (ctx : ContextData) (spec : AivcsRepositorySpec) (head : String)
    (headAdvanced : Bool) : ControllerProc (Except ReconcileError Unit) :=
  if shouldEmit spec.branch headAdvanced then
    match ctx.mergeEmitter with
    | none => .ret (.ok ())
    | some emitter =>
        match MergeEventPayload.fromMainAdvance spec.organization spec.repo head with
        | .error e => .ret (.error (.any e))
        | .ok payload =>
            (emitter.emit ctx payload).bind fun
              | .ok _ => .ret (.ok ())
              | .error e =>
                  .ret (.error (.any
                    ("failed to emit merge event to og-builds (will retry; status not advanced): " ++
                      e)))
  else .ret (.ok ())

def patchStatus (obj : AivcsRepository) (head : String) :
    ControllerProc (Except ReconcileError Unit) :=
  (Proc.perform (ControllerOp.patchStatus (obj.ns.getD "default") obj.name head)).bind fun
    | .ok _ => .ret (.ok ())
    | .error e => .ret (.error (.kube e))

/-- The rest of a reconcile, once the head is known. -/
def reconcileHead (ctx : ContextData) (obj : AivcsRepository) (head : String) :
    ControllerProc (Except ReconcileError Action) :=
  let interval := max obj.spec.intervalSeconds 5
  let headAdvanced : Bool := obj.revision ≠ some head
  if headAdvanced = false then .ret (.ok ⟨interval⟩)
  else
    -- The status is advanced only after the event has been accepted.
    (emitAdvance ctx obj.spec head headAdvanced).andThen fun _ =>
    (patchStatus obj head).andThen fun _ => .ret (.ok ⟨interval⟩)

def reconcile (ctx : ContextData) (obj : AivcsRepository) :
    ControllerProc (Except ReconcileError Action) :=
  (resolveBranchHead ctx obj.spec.repo obj.spec.branch).andThen fun
    | none => .ret (.ok ⟨max obj.spec.intervalSeconds 5⟩)
    | some head => reconcileHead ctx obj head

/-! ## The controller among its surroundings -/

/-- A reconcile that has been started, with the object it was started for. -/
structure Running where
  obj : AivcsRepository
  program : ControllerProc (Except ReconcileError Action)

structure State where
  object : AivcsRepository
  /-- The heads of the branches, by the URL they are read at. -/
  heads : String → Option String
  /-- The events the receiver has acknowledged. -/
  acknowledged : List MergeEventPayload
  running : Option Running

/-- What becomes of a call. -/
inductive Fate
  | answered
  /-- Not executed. -/
  | refused (message : String)
  /-- Executed, but the answer did not arrive. -/
  | lost (message : String)
  /-- Answered with a status that reports a failure, and not executed. -/
  | rejected (status : Nat) (message : String) (failure : isSuccess status = false)

def Fate.executes : Fate → Bool
  | .answered | .lost _ => true
  | .refused _ | .rejected _ _ _ => false

inductive Event
  | moveHead (url : String) (head : Option String)
  | edit (spec : AivcsRepositorySpec)
  | start
  /-- The running reconcile makes its next call, or ends. -/
  | call (fate : Fate)
  | crash

namespace State

def exec : (op : ControllerOp) → State → op.Ans × State
  | .get url, s =>
      (match s.heads url with
        | some head => .ok (200, .ok (.obj [("head_commit_id", .str head)]))
        | none => .ok (404, .error "not found"), s)
  | .post _ _ payload, s => (.ok (202, ""), { s with acknowledged := payload :: s.acknowledged })
  | .patchStatus _ _ head, s =>
      (.ok (), { s with object := { s.object with status := some ⟨some head⟩ } })

def fail (message : String) : (op : ControllerOp) → op.Ans
  | .get _ | .post _ _ _ | .patchStatus _ _ _ => .error message

def reject (status : Nat) (message : String) : (op : ControllerOp) → op.Ans
  | .get _ => .ok (status, .error message)
  | .post _ _ _ => .ok (status, message)
  | .patchStatus _ _ _ => .error message

def deliver (s : State) (op : ControllerOp) : Fate → op.Ans × State
  | .answered => exec op s
  | .refused message => (fail message op, s)
  | .lost message => (fail message op, (exec op s).2)
  | .rejected status message _ => (reject status message op, s)

def step (ctx : ContextData) (s : State) : Event → State
  | .moveHead url head => { s with heads := Function.update s.heads url head }
  | .edit spec => { s with object := { s.object with spec := spec } }
  | .start =>
      match s.running with
      | none => { s with running := some ⟨s.object, reconcile ctx s.object⟩ }
      | some _ => s
  | .call fate =>
      match s.running with
      | none => s
      | some ⟨_, .ret _⟩ => { s with running := none }
      | some ⟨obj, .call op next⟩ =>
          let (ans, s') := s.deliver op fate
          { s' with running := some ⟨obj, next ans⟩ }
  | .crash => { s with running := none }

end State

end SourceController
end Aivcs
