import Aivcs.Lib.JsonNulls
import Aivcs.Lib.Proc

/-!
# Infra.CloudflareLb — which Cloudflare pools a prune deletes

A pool that is on neither the allowlist nor a load balancer is an orphan to be deleted.  The load balancers
are searched for the name of the pool, while Cloudflare refers to pools by their ids, and those without an
id or a name are dropped when the response is parsed.

* `safePrune_iff` — a prune deletes no pool in use exactly when it is a dry run, or no pool it would delete is
  in use under its id, by a load balancer that was dropped, or under another name.
-/

namespace Aivcs
namespace Infra

open Aivcs.Lib

variable {N : Type}

/-! ## Pools and load balancers -/

structure CfOrigin where
  name : String
  address : String
  deriving DecidableEq

structure CfPool where
  id : String
  name : String
  description : String
  origins : List CfOrigin
  deriving DecidableEq

structure CfLoadBalancer where
  id : String
  name : String
  defaultPools : List String
  fallbackPool : Option String
  deriving DecidableEq

/-- `resp["result"]` -/
def results (resp : Doc N) : List (Doc N) :=
  (resp.index "result").elems

def parseOrigin (origin : Doc N) : Option CfOrigin := do
  let name ← (origin.index "name").asStr?
  let address ← (origin.index "address").asStr?
  return { name, address }

def parsePool (item : Doc N) : Option CfPool := do
  let id ← (item.index "id").asStr?
  let name ← (item.index "name").asStr?
  return {
    id
    name
    description := (item.index "description").asStr?.getD ""
    origins := (item.index "origins").elems.filterMap parseOrigin }

def parsePools (resp : Doc N) : List CfPool :=
  (results resp).filterMap parsePool

def parseLoadBalancer (item : Doc N) : Option CfLoadBalancer := do
  let defaultPools := (item.index "default_pools").elems.filterMap Doc.asStr?
  let id ← (item.index "id").asStr?
  let name ← (item.index "name").asStr?
  return { id, name, defaultPools, fallbackPool := (item.index "fallback_pool").asStr? }

def parseLoadBalancers (resp : Doc N) : List CfLoadBalancer :=
  (results resp).filterMap parseLoadBalancer

/-! ## The audit -/

structure OrphanPool where
  name : String
  id : String
  referencedByLb : Bool
  lbNames : List String
  deriving DecidableEq

structure AuditReport where
  allowlist : List String
  canonicalPools : List String
  orphans : List OrphanPool
  missingFromCf : List String
  deriving DecidableEq

/-- The references of one load balancer to the pool. -/
def lbRefs (name : String) (lb : CfLoadBalancer) : List String :=
  (if name ∈ lb.defaultPools then [lb.name] else []) ++
    (if lb.fallbackPool = some name then [lb.name ++ " (fallback)"] else [])

def poolReferenced (name : String) (lbs : List CfLoadBalancer) : Bool × List String :=
  let refs := lbs.flatMap (lbRefs name)
  (!refs.isEmpty, refs)

def orphanPool (lbs : List CfLoadBalancer) (pool : CfPool) : OrphanPool where
  name := pool.name
  id := pool.id
  referencedByLb := (poolReferenced pool.name lbs).1
  lbNames := (poolReferenced pool.name lbs).2

def buildAuditReport (allowlist : List String) (pools : List CfPool) (lbs : List CfLoadBalancer) :
    AuditReport where
  allowlist := allowlist
  canonicalPools := (pools.filter fun p => p.name ∈ allowlist).map CfPool.name
  orphans := (pools.filter fun p => p.name ∉ allowlist).map (orphanPool lbs)
  missingFromCf := allowlist.filter fun name => name ∉ pools.map CfPool.name

/-! ## The prune -/

structure DeleteRequest where
  url : String
  token : String
  deriving DecidableEq

/-- A request is answered with a status, or with nothing if it fails. -/
abbrev CfProc : Type → Type :=
  Proc DeleteRequest fun _ => Option Nat

def cfApiBase : String :=
  "https://api.cloudflare.com/client/v4"

section Prune

variable (accountId token : String)

def poolUrl (poolId : String) : String :=
  cfApiBase ++ "/accounts/" ++ accountId ++ "/load_balancers/pools/" ++ poolId

/-- `error_for_status` -/
def deleteResult (poolId : String) : Option Nat → Except String Unit
  | none => .error ("Cloudflare delete pool " ++ poolId ++ " failed")
  | some status =>
      if 400 ≤ status ∧ status < 600 then .error ("Cloudflare rejected delete for pool " ++ poolId)
      else .ok ()

def deletePool (poolId : String) : CfProc (Except String Unit) :=
  .call { url := poolUrl accountId poolId, token } fun answer => .ret (deleteResult poolId answer)

/-- The loop of `prune_orphans`. -/
def pruneLoop (dryRun : Bool) : List OrphanPool → List String → CfProc (Except String (List String))
  | [], deleted => .ret (.ok deleted)
  | orphan :: orphans, deleted =>
      if orphan.referencedByLb then pruneLoop dryRun orphans deleted
      else if dryRun then pruneLoop dryRun orphans (deleted ++ [orphan.name ++ " (dry-run)"])
      else (deletePool accountId token orphan.id).andThen fun _ =>
        pruneLoop dryRun orphans (deleted ++ [orphan.name])

def pruneOrphans (report : AuditReport) (dryRun : Bool) : CfProc (Except String (List String)) :=
  pruneLoop accountId token dryRun report.orphans []

end Prune

/-! ## Pools that must stay -/

/-- The load balancer refers to a pool by `x`. -/
def Lists (item : Doc N) (x : String) : Prop :=
  .str x ∈ (item.index "default_pools").elems ∨ item.index "fallback_pool" = .str x

/-- The load balancer has an id and a name. -/
def Complete (item : Doc N) : Prop :=
  (∃ id, item.index "id" = .str id) ∧ ∃ name, item.index "name" = .str name

section Responses

variable (allowlist : List String) (poolsResp lbsResp : Doc N)

/-- Some load balancer of the response refers to a pool by `x`. -/
def Used (x : String) : Prop :=
  ∃ item ∈ results lbsResp, Lists item x

def Protected (pool : CfPool) : Prop :=
  pool.name ∈ allowlist ∨ Used lbsResp pool.id ∨ Used lbsResp pool.name

/-- The prune of the audit of two responses. -/
def prune (accountId token : String) (dryRun : Bool) : CfProc (Except String (List String)) :=
  pruneOrphans accountId token
    (buildAuditReport allowlist (parsePools poolsResp) (parseLoadBalancers lbsResp)) dryRun

/-- However its requests are answered, the prune deletes no protected pool, and nothing in a dry run. -/
structure SafePrune (accountId token : String) (dryRun : Bool) : Prop where
  spares : (prune allowlist poolsResp lbsResp accountId token dryRun).Calls fun request =>
    ∀ pool ∈ parsePools poolsResp, request.url = poolUrl accountId pool.id →
      ¬ Protected allowlist lbsResp pool
  dry : dryRun = true → (prune allowlist poolsResp lbsResp accountId token dryRun).Calls fun _ => False

/-- A pool that neither the allowlist nor a complete load balancer has by its name. -/
structure Stray (pool : CfPool) : Prop where
  mem : pool ∈ parsePools poolsResp
  allowlist : pool.name ∉ allowlist
  unlisted : ∀ item ∈ results lbsResp, Complete item → ¬ Lists item pool.name

/-- No stray pool is in use after all. -/
structure StrayUnused : Prop where
  ids : ∀ pool, Stray allowlist poolsResp lbsResp pool → ¬ Used lbsResp pool.id
  incomplete : ∀ pool, Stray allowlist poolsResp lbsResp pool →
    ∀ item ∈ results lbsResp, ¬ Complete item → ¬ Lists item pool.name
  shared : ∀ pool, Stray allowlist poolsResp lbsResp pool → ∀ other ∈ parsePools poolsResp,
    other.id = pool.id → other.name ≠ pool.name → other.name ∉ allowlist ∧ ¬ Used lbsResp other.name

end Responses

/-! ## What the parser and the audit keep -/

section Parsing

theorem asStr?_eq_some {d : Doc N} {x : String} : d.asStr? = some x ↔ d = .str x := by
  cases d <;> simp [Doc.asStr?]

/-- The parser keeps the references of the complete load balancers. -/
theorem parseLoadBalancer_lists (item : Doc N) (x : String) :
    (∃ lb, parseLoadBalancer item = some lb ∧ (x ∈ lb.defaultPools ∨ lb.fallbackPool = some x)) ↔
      Complete item ∧ Lists item x := by
  have hpools : x ∈ (item.index "default_pools").elems.filterMap Doc.asStr? ↔
      .str x ∈ (item.index "default_pools").elems := by
    simp [List.mem_filterMap, asStr?_eq_some]
  constructor
  · rintro ⟨lb, hparse, hlists⟩
    simp only [parseLoadBalancer, Option.bind_eq_bind, Option.bind_eq_some_iff, Option.pure_def,
      Option.some.injEq] at hparse
    rcases hparse with ⟨id, hid, name, hname, rfl⟩
    exact ⟨⟨⟨id, asStr?_eq_some.1 hid⟩, name, asStr?_eq_some.1 hname⟩,
      hlists.imp hpools.1 asStr?_eq_some.1⟩
  · rintro ⟨⟨⟨id, hid⟩, name, hname⟩, hlists⟩
    have hparse : parseLoadBalancer item = some
        { id
          name
          defaultPools := (item.index "default_pools").elems.filterMap Doc.asStr?
          fallbackPool := (item.index "fallback_pool").asStr? } := by
      simp [parseLoadBalancer, hid, hname, Doc.asStr?]
    exact ⟨_, hparse, hlists.imp hpools.2 asStr?_eq_some.2⟩

theorem poolReferenced_iff {name : String} {lbs : List CfLoadBalancer} :
    (poolReferenced name lbs).1 = true ↔
      ∃ lb ∈ lbs, name ∈ lb.defaultPools ∨ lb.fallbackPool = some name := by
  have hrefs : ∀ lb : CfLoadBalancer,
      lbRefs name lb ≠ [] ↔ name ∈ lb.defaultPools ∨ lb.fallbackPool = some name := fun lb => by
    unfold lbRefs
    by_cases hmem : name ∈ lb.defaultPools <;> by_cases hfallback : lb.fallbackPool = some name <;>
      simp [hmem, hfallback]
  simp only [poolReferenced, Bool.not_eq_true', List.isEmpty_eq_false_iff, ne_eq, List.flatMap_eq_nil_iff,
    not_forall, exists_prop, ← hrefs]

/-- The orphans that are not referenced are the stray pools. -/
theorem stray_iff {allowlist : List String} {poolsResp lbsResp : Doc N} {pool : CfPool} :
    Stray allowlist poolsResp lbsResp pool ↔
      pool ∈ (parsePools poolsResp).filter (fun p => p.name ∉ allowlist) ∧
        (orphanPool (parseLoadBalancers lbsResp) pool).referencedByLb = false := by
  have hreferenced : (orphanPool (parseLoadBalancers lbsResp) pool).referencedByLb = false ↔
      ∀ item ∈ results lbsResp, Complete item → ¬ Lists item pool.name := by
    rw [← Bool.not_eq_true, show (orphanPool (parseLoadBalancers lbsResp) pool).referencedByLb =
      (poolReferenced pool.name (parseLoadBalancers lbsResp)).1 from rfl, poolReferenced_iff]
    constructor
    · intro hnot item hitem hcomplete hlists
      rcases (parseLoadBalancer_lists item pool.name).2 ⟨hcomplete, hlists⟩ with ⟨lb, hparse, hlb⟩
      exact hnot ⟨lb, List.mem_filterMap.2 ⟨item, hitem, hparse⟩, hlb⟩
    · rintro hall ⟨lb, hlb, hlists⟩
      rcases List.mem_filterMap.1 hlb with ⟨item, hitem, hparse⟩
      rcases (parseLoadBalancer_lists item pool.name).1 ⟨lb, hparse, hlists⟩ with ⟨hcomplete, hitemLists⟩
      exact hall item hitem hcomplete hitemLists
  rw [hreferenced, List.mem_filter, decide_eq_true_eq]
  exact ⟨fun h => ⟨⟨h.mem, h.allowlist⟩, h.unlisted⟩, fun h => ⟨h.1.1, h.1.2, h.2⟩⟩

end Parsing

/-! ## What the prune deletes -/

section Calls

variable (accountId token : String) {P : DeleteRequest → Prop}

theorem poolUrl_inj {accountId x y : String} (h : poolUrl accountId x = poolUrl accountId y) : x = y :=
  (String.append_right_inj _).1 h

/-- A dry run makes no request. -/
theorem pruneLoop_dry (orphans : List OrphanPool) (deleted : List String) :
    (pruneLoop accountId token true orphans deleted).Calls P := by
  induction orphans generalizing deleted with
  | nil =>
      trivial
  | cons orphan orphans ih =>
      unfold pruneLoop
      split
      · exact ih _
      · exact ih _

/-- Otherwise the orphans that are not referenced are deleted, as long as the requests succeed. -/
theorem pruneLoop_calls_iff (orphans : List OrphanPool) (deleted : List String) :
    (pruneLoop accountId token false orphans deleted).Calls P ↔
      ∀ orphan ∈ orphans, orphan.referencedByLb = false →
        P { url := poolUrl accountId orphan.id, token } := by
  induction orphans generalizing deleted with
  | nil =>
      exact iff_of_true trivial (List.forall_mem_nil _)
  | cons orphan orphans ih =>
      rw [List.forall_mem_cons]
      unfold pruneLoop
      by_cases hreferenced : orphan.referencedByLb = true
      · rw [if_pos hreferenced, ih]
        exact ⟨fun h => ⟨fun hnot => absurd (hreferenced.symm.trans hnot) Bool.noConfusion, h⟩, And.right⟩
      · rw [if_neg hreferenced, if_neg Bool.false_ne_true]
        have hnot := Bool.eq_false_iff.2 hreferenced
        constructor
        · rintro ⟨hP, hnext⟩
          -- The loop goes on after an answer of success.
          exact ⟨fun _ => hP, (ih _).1 (hnext (some 200))⟩
        · rintro ⟨hP, hrest⟩
          refine ⟨hP hnot, fun answer => ?_⟩
          change (Proc.andThen (.ret (deleteResult orphan.id answer)) _).Calls P
          cases deleteResult orphan.id answer with
          | error e =>
              trivial
          | ok _ =>
              exact (ih _).2 hrest

/-- The requests of a prune that is not dry are those for the stray pools. -/
theorem prune_calls_iff (allowlist : List String) (poolsResp lbsResp : Doc N) :
    (prune allowlist poolsResp lbsResp accountId token false).Calls P ↔
      ∀ pool, Stray allowlist poolsResp lbsResp pool → P { url := poolUrl accountId pool.id, token } := by
  refine (pruneLoop_calls_iff accountId token _ _).trans ?_
  constructor
  · intro h pool hstray
    rcases stray_iff.1 hstray with ⟨hmem, hreferenced⟩
    exact h _ (List.mem_map_of_mem hmem) hreferenced
  · intro h orphan horphan hreferenced
    rcases List.mem_map.1 horphan with ⟨pool, hmem, rfl⟩
    exact h pool (stray_iff.2 ⟨hmem, hreferenced⟩)

end Calls

/-! ## The prune and the pools in use -/

section Safety

variable (allowlist : List String) (poolsResp lbsResp : Doc N)

theorem strayUnused_iff : StrayUnused allowlist poolsResp lbsResp ↔
    ∀ pool, Stray allowlist poolsResp lbsResp pool → ∀ other ∈ parsePools poolsResp,
      other.id = pool.id → ¬ Protected allowlist lbsResp other := by
  constructor
  · intro h pool hstray other hother hid hprotected
    -- The pool itself, or another entry under its id.
    by_cases hname : other.name = pool.name
    · rcases hprotected with hallow | hused | ⟨item, hitem, hlists⟩
      · exact hstray.allowlist (hname ▸ hallow)
      · exact h.ids pool hstray (hid ▸ hused)
      · rw [hname] at hlists
        -- A complete load balancer would have kept the pool from being stray.
        by_cases hcomplete : Complete item
        · exact hstray.unlisted item hitem hcomplete hlists
        · exact h.incomplete pool hstray item hitem hcomplete hlists
    · rcases h.shared pool hstray other hother hid hname with ⟨hnallow, hnused⟩
      rcases hprotected with hallow | hused | hused
      · exact hnallow hallow
      · exact h.ids pool hstray (hid ▸ hused)
      · exact hnused hused
  · intro h
    have hself := fun pool (hstray : Stray allowlist poolsResp lbsResp pool) =>
      h pool hstray pool hstray.mem rfl
    exact
      { ids := fun pool hstray hused => hself pool hstray (Or.inr (Or.inl hused))
        incomplete := fun pool hstray item hitem _ hlists =>
          hself pool hstray (Or.inr (Or.inr ⟨item, hitem, hlists⟩))
        shared := fun pool hstray other hother hid _ =>
          ⟨fun hallow => h pool hstray other hother hid (Or.inl hallow),
            fun hused => h pool hstray other hother hid (Or.inr (Or.inr hused))⟩ }

/-- A prune that is not dry is safe exactly when no stray pool is in use. -/
theorem safePrune_false_iff (accountId token : String) :
    SafePrune allowlist poolsResp lbsResp accountId token false ↔ StrayUnused allowlist poolsResp lbsResp := by
  rw [strayUnused_iff]
  constructor
  · intro h pool hstray other hother hid
    exact (prune_calls_iff accountId token _ _ _).1 h.spares pool hstray other hother
      (congrArg (poolUrl accountId) hid.symm)
  · intro h
    refine ⟨(prune_calls_iff accountId token _ _ _).2 fun pool hstray other hother hurl => ?_, nofun⟩
    exact h pool hstray other hother (poolUrl_inj hurl).symm

theorem safePrune_iff (accountId token : String) (dryRun : Bool) :
    SafePrune allowlist poolsResp lbsResp accountId token dryRun ↔
      dryRun = true ∨ StrayUnused allowlist poolsResp lbsResp := by
  cases dryRun with
  | false =>
      rw [safePrune_false_iff, or_iff_right Bool.false_ne_true]
  | true =>
      exact iff_of_true ⟨pruneLoop_dry accountId token _ _, fun _ => pruneLoop_dry accountId token _ _⟩
        (Or.inl rfl)

/-- A load balancer refers to the pool by its id. -/
def listedById : Doc Nat :=
  .obj [("result", .arr [.obj
    [("id", .str "lb1"), ("name", .str "www"), ("default_pools", .arr [.str "p1"])]])]

def onePool : Doc Nat :=
  .obj [("result", .arr [.obj [("id", .str "p1"), ("name", .str "a")]])]

theorem not_safePrune_listedById : ¬ SafePrune [] onePool listedById "acct" "t" false := by
  have hpool : (⟨"p1", "a", "", []⟩ : CfPool) ∈ parsePools onePool := List.mem_singleton.2 rfl
  intro h
  refine h.spares.1 _ hpool rfl (Or.inr (Or.inl ?_))
  exact ⟨_, List.mem_singleton.2 rfl, Or.inl (List.mem_singleton.2 rfl)⟩

end Safety

end Infra
end Aivcs
