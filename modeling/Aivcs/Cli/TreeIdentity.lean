import Aivcs.Forge.Router
import Aivcs.Forge.SourceRoundTrip

/-!
# Cli.TreeIdentity — trees and commits named by both sides

A tree is named by the digest of its entries in path order.  Sorting forgets the order of a manifest
and nothing else, so two manifests with distinct paths share a name exactly when they hold the same
entries.

The client declares its own entry type and computes the names again, to find out after a timeout
whether its commit was stored.  Its request goes over the wire as JSON; the names agree on whatever
the server makes of that JSON.  Both crates are members of one workspace with one `serde_json`, so the
member order of `Deployment` is that of both.
-/

namespace Aivcs
namespace Forge

open Aivcs.Lib

/-! ## Names of trees -/

theorem ManifestEntry.tuple_injective : Function.Injective ManifestEntry.tuple := by
  rintro ⟨path, digest, executable, size⟩ ⟨path', digest', executable', size'⟩ h
  simp only [ManifestEntry.tuple, Json.arr.injEq, List.cons.injEq, Json.str.injEq, Json.bool.injEq,
    Json.num.injEq, Int.ofNat_inj, UInt64.toNat_inj, and_true] at h
  obtain ⟨rfl, rfl, rfl, rfl⟩ := h
  rfl

/-- With distinct paths, sorting gives every permutation of a manifest the same list. -/
theorem sortByPath_eq_of_perm {m₁ m₂ : List ManifestEntry} (hperm : m₁.Perm m₂)
    (hpaths : (m₁.map ManifestEntry.path).Nodup) : sortByPath m₁ = sortByPath m₂ := by
  have hsorted : (sortByPath m₁).Perm (sortByPath m₂) :=
    (sortByPath_perm m₁).trans (hperm.trans (sortByPath_perm m₂).symm)
  refine List.Perm.eq_of_pairwise ?_ (sortByPath_sorted m₁) (sortByPath_sorted m₂) hsorted
  intro a b ha hb hab hba
  -- Neither path is below the other, so they are one path, and a path has one entry.
  have hpath : a.path = b.path := utf8_injective (Std.le_antisymm hab hba)
  exact List.inj_on_of_nodup_map hpaths ((sortByPath_perm m₁).mem_iff.1 ha)
    (hperm.mem_iff.2 ((sortByPath_perm m₂).mem_iff.1 hb)) hpath

theorem treeDigest_eq_iff_perm {D : Deployment} (hsha : Function.Injective D.sha256Hex)
    {m₁ m₂ : List ManifestEntry} (hpaths : (m₁.map ManifestEntry.path).Nodup) :
    treeDigest D m₁ = treeDigest D m₂ ↔ m₁.Perm m₂ := by
  constructor
  · intro h
    have hrender := Json.render_injective (hsha h)
    rw [Json.arr.injEq] at hrender
    have hsorted := List.map_injective_iff.2 ManifestEntry.tuple_injective hrender
    exact (sortByPath_perm m₁).symm.trans (hsorted ▸ sortByPath_perm m₂)
  · intro h
    unfold treeDigest
    rw [sortByPath_eq_of_perm h hpaths]

/-! ## The request on the wire -/

/-- A field with `#[serde(default)]`. -/
def fieldOrDefault {α : Type} (decode : Json → Option α) (default : α) : Option Json → Option α
  | none => some default
  | some v => decode v

/-- `derive(Deserialize)` of a commit request; other members are ignored. -/
def CreateCommitRequest.ofValue? (v : Json) : Option CreateCommitRequest := do
  let repo ← (v.field? "repo").bind Json.asStr?
  let manifest ← (v.field? "manifest").bind manifestOfValue?
  let parents ← fieldOrDefault stringsOfValue? [] (v.field? "parents")
  let message ← fieldOrDefault Json.asStr? "" (v.field? "message")
  let author ← fieldOrDefault Json.asStr? "" (v.field? "author")
  return { repo := repo, manifest := manifest, parents := parents, message := message
           author := author }

/-- The body of a request as `axum::Json` takes it. -/
def CreateCommitRequest.ofBody? (body : Bytes) : Option CreateCommitRequest :=
  (Json.parse body).bind CreateCommitRequest.ofValue?

/-! ## What `create_commit` answers and stores -/

section Answers

variable {D : Deployment} {req : CreateCommitRequest}

theorem inheritedDigests_calls (repo : String) :
    ∀ parents : List String, (inheritedDigests repo parents).Calls fun op => ∀ c, op ≠ .putCommit c
  | [] => trivial
  | p :: parents => by
      refine ⟨by simp, ?_⟩
      intro answer
      cases answer with
      | error e =>
          trivial
      | ok parent =>
          refine (inheritedDigests_calls repo parents).bind ?_
          intro rest
          cases rest with
          | error e =>
              trivial
          | ok rest =>
              cases parent <;> trivial

/-- The only record the handler stores is the one derived from the request. -/
theorem createCommit_calls :
    (createCommit D req).Calls fun op => ∀ c, op = .putCommit c → c = req.record D := by
  have hweaken : ∀ op : ForgeOp, (∀ c, op ≠ .putCommit c) → ∀ c, op = .putCommit c → c = req.record D :=
    fun op h c hc => absurd hc (h c)
  refine (((inheritedDigests_calls req.repo req.parents).mono hweaken).bind ?_).bind ?_
  · intro inherited
    cases inherited <;> trivial
  · intro digests
    cases digests with
    | error e =>
        trivial
    | ok digests =>
        refine ⟨by simp, ?_⟩
        intro found
        cases found with
        | error e =>
            trivial
        | ok found =>
            dsimp only [Proc.bind_ret]
            split
            · split <;> trivial
            · refine ⟨?_, ?_⟩
              · intro c hc
                rw [← commitOfIdentity_eq_record, ForgeOp.putCommit.inj hc]
              · intro answer
                cases answer <;> trivial

/-- Whatever the store answers, `201` comes with the derived names. -/
theorem createCommit_created {tr : List ((op : ForgeOp) × op.Ans)} {resp : Response}
    (h : Proc.Traces (createCommit D req) tr resp) (hstatus : resp.status = .created) :
    resp.body = .createCommit (req.record D).commitId (req.record D).treeDigest := by
  rcases h.of_bind with ⟨_, digests, _, -, -, hrest⟩
  cases digests with
  | error e =>
      rw [hrest.of_ret.2] at hstatus
      cases hstatus
  | ok digests =>
      rcases hrest.of_call with ⟨found, _, -, hfound⟩
      cases found with
      | error e =>
          rw [hfound.of_ret.2] at hstatus
          cases hstatus
      | ok found =>
          dsimp only [Proc.bind_ret] at hfound
          split at hfound
          · split at hfound
            · rw [hfound.of_ret.2] at hstatus
              cases hstatus
            · rw [hfound.of_ret.2] at hstatus
              cases hstatus
          · rcases hfound.of_call with ⟨answer, _, -, hret⟩
            cases answer with
            | error e =>
                rw [hret.of_ret.2] at hstatus
                cases hstatus
            | ok u =>
                rw [hret.of_ret.2, ← commitOfIdentity_eq_record]

end Answers

end Forge

namespace Cli
namespace ForgeRemote

open Aivcs.Lib
open Aivcs.Forge (Deployment MapOrder CreateCommitRequest createCommit ForgeOp)

/-! ## The client's side -/

/-- The client's own entry type. -/
structure ManifestEntry where
  path : String
  digest : String
  executable : Bool
  size : USize

namespace ManifestEntry

/-- `serde_json::to_value` of an entry; a `usize` is written as a number. -/
def toValue (o : MapOrder) (e : ManifestEntry) : Json :=
  o.object
    [("path", .str e.path), ("digest", .str e.digest), ("executable", .bool e.executable),
      ("size", .num e.size.toNat)]

/-- The tuple `(path, digest, executable, size as u64)`. -/
def tuple (e : ManifestEntry) : Json :=
  .arr [.str e.path, .str e.digest, .bool e.executable, .num e.size.toUInt64.toNat]

/-- The server's entry with the same fields. -/
def toServer (e : ManifestEntry) : Forge.ManifestEntry :=
  { path := e.path, digest := e.digest, executable := e.executable, size := e.size.toUInt64 }

end ManifestEntry

def manifestValue (o : MapOrder) (manifest : List ManifestEntry) : Json :=
  .arr (manifest.map (ManifestEntry.toValue o))

def sortByPath (manifest : List ManifestEntry) : List ManifestEntry :=
  manifest.insertionSort fun a b => utf8 a.path ≤ utf8 b.path

/-- `server_tree_digest`. -/
def serverTreeDigest (D : Deployment) (manifest : List ManifestEntry) : String :=
  D.sha256Hex (Json.render (.arr ((sortByPath manifest).map ManifestEntry.tuple)))

/-- `expected_commit_id`. -/
def expectedCommitId (D : Deployment) (repo : String) (manifest : List ManifestEntry)
    (message author : String) (parents : List String) : String :=
  D.sha256Hex (Json.render (D.mapOrder.object
    [("repo", .str repo), ("tree_digest", .str (serverTreeDigest D manifest)),
      ("manifest", manifestValue D.mapOrder manifest),
      ("parents", .arr (parents.map Json.str)), ("message", .str message),
      ("author", .str author)]))

/-- The value `post_commit` sends. -/
def commitPayload (D : Deployment) (repo : String) (manifest : List ManifestEntry)
    (message author : String) (parents : List String) (branch : Option String) : Json :=
  D.mapOrder.object
    ([("repo", .str repo), ("manifest", manifestValue D.mapOrder manifest),
      ("parents", .arr (parents.map Json.str)), ("message", .str message),
      ("author", .str author)] ++ (branch.map fun b => ("branch", .str b)).toList)

/-! ## Agreement -/

theorem ManifestEntry.toValue_toServer (o : MapOrder) (e : ManifestEntry) :
    e.toServer.toValue o = e.toValue o := by
  unfold Forge.ManifestEntry.toValue Forge.ManifestEntry.members ManifestEntry.toValue
  rw [show e.toServer.size.toNat = e.size.toNat from USize.toNat_toUInt64 _]
  rfl

theorem manifestValue_toServer (o : MapOrder) (manifest : List ManifestEntry) :
    Forge.manifestValue o (manifest.map ManifestEntry.toServer) = manifestValue o manifest := by
  unfold Forge.manifestValue manifestValue
  rw [List.map_map]
  exact congrArg Json.arr (List.map_congr_left fun e _ => ManifestEntry.toValue_toServer o e)

/-- Both sides sort by the same bytes. -/
theorem sortByPath_toServer (manifest : List ManifestEntry) :
    Forge.sortByPath (manifest.map ManifestEntry.toServer) =
      (sortByPath manifest).map ManifestEntry.toServer :=
  (List.map_insertionSort _ _ ManifestEntry.toServer manifest (fun _ _ _ _ => Iff.rfl)).symm

theorem serverTreeDigest_eq (D : Deployment) (manifest : List ManifestEntry) :
    serverTreeDigest D manifest = Forge.treeDigest D (manifest.map ManifestEntry.toServer) := by
  unfold serverTreeDigest Forge.treeDigest
  rw [sortByPath_toServer, List.map_map]
  rfl

/-- The request the server sees has the client's values. -/
def request (repo : String) (manifest : List ManifestEntry) (message author : String)
    (parents : List String) : CreateCommitRequest :=
  { repo := repo, manifest := manifest.map ManifestEntry.toServer, parents := parents
    message := message, author := author }

/-- Each member is found under its key, in either order, with or without a branch. -/
theorem commitPayload_fields (D : Deployment) (repo : String) (manifest : List ManifestEntry)
    (message author : String) (parents : List String) (branch : Option String) :
    let v := commitPayload D repo manifest message author parents branch
    v.field? "repo" = some (.str repo) ∧
      v.field? "manifest" = some (manifestValue D.mapOrder manifest) ∧
      v.field? "parents" = some (.arr (parents.map Json.str)) ∧
      v.field? "message" = some (.str message) ∧
      v.field? "author" = some (.str author) := by
  unfold commitPayload
  cases D.mapOrder with
  | sorted =>
      cases branch <;> exact ⟨rfl, rfl, rfl, rfl, rfl⟩
  | insertion =>
      cases branch <;> exact ⟨rfl, rfl, rfl, rfl, rfl⟩

theorem ofBody?_commitPayload (D : Deployment) (repo : String) (manifest : List ManifestEntry)
    (message author : String) (parents : List String) (branch : Option String) :
    CreateCommitRequest.ofBody?
        (commitPayload D repo manifest message author parents branch).render =
      some (request repo manifest message author parents) := by
  have hmanifest : Forge.manifestOfValue? (manifestValue D.mapOrder manifest) =
      some (manifest.map ManifestEntry.toServer) := by
    rw [← manifestValue_toServer, Forge.manifestOfValue?_manifestValue]
  rcases commitPayload_fields D repo manifest message author parents branch with
    ⟨hrepo, hman, hpar, hmsg, hauth⟩
  unfold CreateCommitRequest.ofBody? CreateCommitRequest.ofValue?
  rw [Json.parse_render, Option.bind_some, hrepo, hman, hpar, hmsg, hauth, Option.bind_some,
    Option.bind_some, hmanifest]
  simp only [Forge.fieldOrDefault, Forge.stringsOfValue?_strings]
  rfl

theorem expectedCommitId_eq (D : Deployment) (repo : String) (manifest : List ManifestEntry)
    (message author : String) (parents : List String) :
    expectedCommitId D repo manifest message author parents =
      ((request repo manifest message author parents).record D).commitId := by
  unfold expectedCommitId
  rw [serverTreeDigest_eq, ← manifestValue_toServer]
  rfl

/-- With a collision-free digest: two manifests whose paths are distinct are one tree exactly when one
is a permutation of the other; the client names every tree as the server does; and the id the client
expects is the one under which the server stores the commit it was sent, and the one it answers,
whatever its store answers on the way. -/
theorem tree_identity (D : Deployment) (hsha : Function.Injective D.sha256Hex) :
    (∀ m₁ m₂ : List Forge.ManifestEntry, (m₁.map Forge.ManifestEntry.path).Nodup →
      (m₂.map Forge.ManifestEntry.path).Nodup →
        (Forge.treeDigest D m₁ = Forge.treeDigest D m₂ ↔ m₁.Perm m₂)) ∧
    (∀ manifest : List ManifestEntry,
      Forge.manifestOfValue? (manifestValue D.mapOrder manifest) =
          some (manifest.map ManifestEntry.toServer) ∧
        serverTreeDigest D manifest =
          Forge.treeDigest D (manifest.map ManifestEntry.toServer)) ∧
    ∀ (repo : String) (manifest : List ManifestEntry) (message author : String)
      (parents : List String) (branch : Option String), ∃ req,
      CreateCommitRequest.ofBody?
          (commitPayload D repo manifest message author parents branch).render = some req ∧
        ∀ tr resp, Proc.Traces (createCommit D req) tr resp →
          (∀ c r, ⟨ForgeOp.putCommit c, r⟩ ∈ tr →
            c.commitId = expectedCommitId D repo manifest message author parents) ∧
          (resp.status = .created →
            resp.body = .createCommit (expectedCommitId D repo manifest message author parents)
              (serverTreeDigest D manifest)) := by
  refine ⟨?_, ?_, ?_⟩
  · intro m₁ m₂ hpaths _
    exact Forge.treeDigest_eq_iff_perm hsha hpaths
  · intro manifest
    refine ⟨?_, serverTreeDigest_eq D manifest⟩
    rw [← manifestValue_toServer, Forge.manifestOfValue?_manifestValue]
  · intro repo manifest message author parents branch
    refine ⟨_, ofBody?_commitPayload D repo manifest message author parents branch, ?_⟩
    intro tr resp htraces
    rw [expectedCommitId_eq, serverTreeDigest_eq]
    refine ⟨?_, Forge.createCommit_created htraces⟩
    intro c r hmem
    rw [Forge.createCommit_calls.of_mem_trace htraces hmem c rfl]

/-- The SHA-256 digests of the tree of the script and the empty file, and of its commit. -/
def scriptTreeDigests : List (Bytes × String) :=
  Forge.scriptDigests ++
    [(utf8 ("[[\"a\",\"e3b0c44298fc1c149afbf4c8996fb92427ae41e4649b934ca495991b7852b855\",false,0]," ++
        "[\"bin/run.sh\",\"a8076d3d28d21e02012b20eaf7dbf75409a6277134439025f282e368e3305abf\"," ++
        "true,10]]"),
      "5b03683b15d98e15d106294848a750c6f24f8c9a52aa33d38a8b7c578889776a"),
    (utf8 ("\x7b\"author\":\"a\",\"manifest\":[\x7b\"digest\":" ++
        "\"a8076d3d28d21e02012b20eaf7dbf75409a6277134439025f282e368e3305abf\",\"executable\":true," ++
        "\"path\":\"bin/run.sh\",\"size\":10\x7d,\x7b\"digest\":" ++
        "\"e3b0c44298fc1c149afbf4c8996fb92427ae41e4649b934ca495991b7852b855\",\"executable\":false," ++
        "\"path\":\"a\",\"size\":0\x7d],\"message\":\"m\",\"parents\":[],\"repo\":\"demo\"," ++
        "\"tree_digest\":\"5b03683b15d98e15d106294848a750c6f24f8c9a52aa33d38a8b7c578889776a\"\x7d"),
      "8fba7c6e92b789ba993cbbbc4855a05d1c30a40e32830ab8b78d5b4d97a3b181")]

theorem scriptTreeDigests_injective :
    Function.Injective (Deployment.ofTable scriptTreeDigests).sha256Hex :=
  tableDigest_injective (by decide +kernel) (by decide +kernel)

def scriptManifest : List ManifestEntry :=
  [{ path := "bin/run.sh", executable := true, size := 10
     digest := "a8076d3d28d21e02012b20eaf7dbf75409a6277134439025f282e368e3305abf" },
    { path := "a", executable := false, size := 0
      digest := "e3b0c44298fc1c149afbf4c8996fb92427ae41e4649b934ca495991b7852b855" }]

theorem scriptManifest_toServer :
    scriptManifest.map ManifestEntry.toServer = Forge.scriptCommit.manifest := by
  simp [scriptManifest, ManifestEntry.toServer, Forge.scriptCommit]

/-- The reversed manifest is the same tree, and the commit is answered with the expected id. -/
theorem tree_identity_of_script :
    Forge.treeDigest (.ofTable scriptTreeDigests) Forge.scriptCommit.manifest.reverse =
        "5b03683b15d98e15d106294848a750c6f24f8c9a52aa33d38a8b7c578889776a" ∧
      ∃ req, CreateCommitRequest.ofBody? (commitPayload (.ofTable scriptTreeDigests) "demo"
          scriptManifest "m" "a" [] (some "main")).render = some req ∧
        ((createCommit (.ofTable scriptTreeDigests) req).run
          (Forge.InMemoryState.exec (.ofTable scriptTreeDigests)) Forge.scriptState).1.body =
          .createCommit "8fba7c6e92b789ba993cbbbc4855a05d1c30a40e32830ab8b78d5b4d97a3b181"
            "5b03683b15d98e15d106294848a750c6f24f8c9a52aa33d38a8b7c578889776a" := by
  rcases tree_identity (.ofTable scriptTreeDigests) scriptTreeDigests_injective with
    ⟨hperm, -, hcommit⟩
  have htree : Forge.treeDigest (.ofTable scriptTreeDigests) Forge.scriptCommit.manifest =
      "5b03683b15d98e15d106294848a750c6f24f8c9a52aa33d38a8b7c578889776a" := by
    decide +kernel
  refine ⟨?_, ?_⟩
  · have hrev := (hperm Forge.scriptCommit.manifest.reverse Forge.scriptCommit.manifest
      (by decide +kernel) (by decide +kernel)).2 (List.reverse_perm _)
    exact hrev.trans htree
  · rcases hcommit "demo" scriptManifest "m" "a" [] (some "main") with ⟨req, hreq, hanswer⟩
    refine ⟨req, hreq, ?_⟩
    rw [ofBody?_commitPayload, request, scriptManifest_toServer] at hreq
    obtain rfl := Option.some.inj hreq
    have hstatus : ((createCommit (.ofTable scriptTreeDigests)
        { repo := "demo", manifest := Forge.scriptCommit.manifest, parents := [], message := "m"
          author := "a" }).run (Forge.InMemoryState.exec (.ofTable scriptTreeDigests))
          Forge.scriptState).1.status = .created := by
      decide +kernel
    have hbody := (hanswer _ _ (Proc.traces_traceOf (Forge.InMemoryState.exec
      (.ofTable scriptTreeDigests)) _ Forge.scriptState)).2 hstatus
    have hid : expectedCommitId (.ofTable scriptTreeDigests) "demo" scriptManifest "m" "a" [] =
        "8fba7c6e92b789ba993cbbbc4855a05d1c30a40e32830ab8b78d5b4d97a3b181" := by
      rw [expectedCommitId_eq, request, scriptManifest_toServer]
      decide +kernel
    rw [hbody, hid, serverTreeDigest_eq, scriptManifest_toServer, htree]

end ForgeRemote
end Cli
end Aivcs
