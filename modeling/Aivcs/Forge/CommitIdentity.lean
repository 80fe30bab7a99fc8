import Aivcs.Forge.Router

/-!
# Forge.CommitIdentity — content-derived ids and immutable commits

`create_repo`, `create_commit` and `post_commit_repo` derive the id of the record they store from
its content.  `publish_atomic` stores a record the client made up, id and tree digest included, and
`put_commit` overwrites.  So two properties of the forge hold along a run as far as its publish
requests let them:

* every stored record is bound to its content, if and only if every accepted publish carries such a
  record;
* a stored commit never changes, if every accepted publish carries the derived id of its record, or
  an id that no record derives and under which nothing else is stored.
-/

namespace Aivcs
namespace Forge

open Aivcs.Lib

variable {D : Deployment} {s s' : InMemoryState}

/-! ## Records bound to their content -/

/-- Every stored record carries the digests its content gives. -/
def InMemoryState.IdentitiesBound (D : Deployment) (s : InMemoryState) : Prop :=
  ∀ k r, s.commits k = some r → r.treeDigest = treeDigest D r.manifest ∧ r.commitId = r.contentId D

/-- A publish that is accepted carries the digests its content gives. -/
def InMemoryState.PublishBound (D : Deployment) (s : InMemoryState) : Request → Prop
  | .publishAtomic req => s.Accepts D req → req.commit.Bound D
  | _ => True

theorem InMemoryState.identitiesBound_empty : InMemoryState.empty.IdentitiesBound D := by
  intro k r h
  cases h

theorem InMemoryState.IdentitiesBound.step (h : s.IdentitiesBound D) {req : Request}
    (hreq : s.PublishBound D req) : (Forge.step D s req).IdentitiesBound D := by
  rcases (writes_step D s req).commits_cases with hsame | ⟨r, hins, hr⟩
  · intro k r' hr'
    rw [hsame] at hr'
    exact h k r' hr'
  · have hbound : r.Bound D := by
      rcases hr with hbound | ⟨pub, rfl, hacc, rfl⟩
      · exact hbound
      · exact hreq hacc
    intro k r' hr'
    rw [hins] at hr'
    rcases Map.insert_eq_some hr' with ⟨-, rfl⟩ | ⟨-, hold⟩
    · exact hbound
    · exact h k r' hold

/-- An accepted publish stores the record it carries as it is. -/
theorem InMemoryState.publishBound_of_identitiesBound {req : Request}
    (h : (Forge.step D s req).IdentitiesBound D) : s.PublishBound D req := by
  cases req with
  | publishAtomic req =>
      intro hacc
      rw [step_publishAtomic_of_accepts hacc] at h
      exact h _ _ (Map.insert_self _ _ _)
  | _ =>
      trivial

/-- Every stored record is bound to its content all along a run if and only if every publish
accepted in it carries such a record. -/
theorem identities_bound_iff_publishes_bound (D : Deployment) (reqs : List Request) :
    Always (step D) (InMemoryState.IdentitiesBound D) .empty reqs ↔
      EachStep (step D) (InMemoryState.PublishBound D) .empty reqs :=
  always_iff_eachStep
    (fun _ _ _ h => ⟨InMemoryState.publishBound_of_identitiesBound, fun hreq => h.step hreq⟩)
    InMemoryState.identitiesBound_empty

/-- A record the client made up: neither digest is that of anything. -/
def madeUpRecord : CommitRecord :=
  { repo := "demo", commitId := "abc", treeDigest := "", manifest := [], parents := []
    message := "m", author := "a" }

/-- The SHA-256 digests of the texts hashed in the runs below. -/
def sampleDigests : List (Bytes × String) :=
  [(utf8 "[]", "4f53cda18c2baa0c0354bb5f9a3ecbe5ed12ab4d8e11ba873c2f11161202b945"),
    (utf8 ("\x7b\"author\":\"aivcsd\",\"manifest\":[],\"message\":\"init\",\"parents\":[]," ++
        "\"repo\":\"demo\",\"tree_digest\":" ++
        "\"4f53cda18c2baa0c0354bb5f9a3ecbe5ed12ab4d8e11ba873c2f11161202b945\"\x7d"),
      "3c5caca14f6fe2df4292409c5f2025c7488c33ee20cbf6d2d4fdb5ee2cd43525"),
    (utf8 ("\x7b\"author\":\"agent\",\"manifest\":[],\"message\":\"note\",\"parents\":" ++
        "[\"3c5caca14f6fe2df4292409c5f2025c7488c33ee20cbf6d2d4fdb5ee2cd43525\"]," ++
        "\"repo\":\"demo\",\"tree_digest\":" ++
        "\"4f53cda18c2baa0c0354bb5f9a3ecbe5ed12ab4d8e11ba873c2f11161202b945\"\x7d"),
      "d358ddf9909a57ef0ff4fa39bf054ac7b9d11a29ad8c81610cb1273317111865")]

theorem sampleDigests_injective : Function.Injective (Deployment.ofTable sampleDigests).sha256Hex :=
  tableDigest_injective (by decide +kernel) (by decide +kernel)

/-- One publish of the made-up record to an empty forge is accepted and stored. -/
theorem publish_of_made_up_record :
    ¬ Always (step (.ofTable sampleDigests)) (InMemoryState.IdentitiesBound (.ofTable sampleDigests))
      .empty [.publishAtomic
        { repo := "demo", blobs := [], commit := madeUpRecord, branchUpdates := [] }] := by
  intro h
  have hbound := InMemoryState.publishBound_of_identitiesBound h.final
  have htree : madeUpRecord.treeDigest = treeDigest (.ofTable sampleDigests) [] :=
    (hbound ⟨rfl, rfl⟩).1
  exact absurd htree (by decide +kernel)

/-! ## Immutable commits -/

/-- No record derives this id. -/
def NoContentId (D : Deployment) (commitId : String) : Prop :=
  ∀ r : CommitRecord, r.contentId D ≠ commitId

/-- A publish that is accepted carries the id its record derives, or one that no record derives and
under which nothing else is stored. -/
def InMemoryState.PublishKeepsCommits (D : Deployment) (s : InMemoryState) : Request → Prop
  | .publishAtomic req =>
      s.Accepts D req →
        req.commit.commitId = req.commit.contentId D ∨
          (NoContentId D req.commit.commitId ∧
            ∀ r, s.commits (req.repo, req.commit.commitId) = some r → r = req.commit)
  | _ => True

/-- Records are stored under the key they name, and an id that some record derives is held by a
record that derives it. -/
structure InMemoryState.WellKeyed (D : Deployment) (s : InMemoryState) : Prop where
  key : ∀ k r, s.commits k = some r → k = (r.repo, r.commitId)
  derived : ∀ k r, s.commits k = some r → r.commitId = r.contentId D ∨ NoContentId D r.commitId

theorem InMemoryState.wellKeyed_empty : InMemoryState.empty.WellKeyed D where
  key := by
    intro k r h
    cases h
  derived := by
    intro k r h
    cases h

/-- Stored commits stay as they are. -/
def CommitsKept (s s' : InMemoryState) : Prop :=
  ∀ repo commitId r, s.commits (repo, commitId) = some r → s'.commits (repo, commitId) = some r

/-- A record bound to its content can only meet itself under its id, in any repository. -/
theorem InMemoryState.WellKeyed.eq_of_stored (hsha : Function.Injective D.sha256Hex)
    (h : s.WellKeyed D) {r r₀ : CommitRecord} {repo : String} (hr : r.commitId = r.contentId D)
    (hstored : s.commits (repo, r.commitId) = some r₀) : r₀ = r := by
  have hid : r.commitId = r₀.commitId := congrArg Prod.snd (h.key _ _ hstored)
  -- The record that is there derives its id too, so both have one identity.
  rcases h.derived _ _ hstored with hder | hno
  · refine CommitRecord.eq_of_contentId hsha hid.symm ?_
    rw [← hder, ← hid, hr]
  · exact absurd (hr.symm.trans hid) (hno r)

/-- Storing a record under its own key keeps the other commits, and the one there when it is equal. -/
theorem InMemoryState.WellKeyed.insert (h : s.WellKeyed D) {r : CommitRecord}
    (hins : s'.commits = s.commits.insert (r.repo, r.commitId) r)
    (hder : r.commitId = r.contentId D ∨ NoContentId D r.commitId)
    (hsame : ∀ r₀, s.commits (r.repo, r.commitId) = some r₀ → r₀ = r) :
    s'.WellKeyed D ∧ CommitsKept s s' := by
  refine ⟨⟨?_, ?_⟩, ?_⟩
  · intro k r' hr'
    rw [hins] at hr'
    rcases Map.insert_eq_some hr' with ⟨rfl, rfl⟩ | ⟨-, hold⟩
    · rfl
    · exact h.key k r' hold
  · intro k r' hr'
    rw [hins] at hr'
    rcases Map.insert_eq_some hr' with ⟨-, rfl⟩ | ⟨-, hold⟩
    · exact hder
    · exact h.derived k r' hold
  · intro repo commitId r₀ hr₀
    rw [hins, Map.insert_apply]
    split_ifs with hk
    · rw [hk] at hr₀
      rw [hsame r₀ hr₀]
    · exact hr₀

theorem InMemoryState.WellKeyed.step (hsha : Function.Injective D.sha256Hex) (h : s.WellKeyed D)
    {req : Request} (hreq : s.PublishKeepsCommits D req) :
    (Forge.step D s req).WellKeyed D ∧ CommitsKept s (Forge.step D s req) := by
  rcases (writes_step D s req).commits_cases with hsame | ⟨r, hins, hr⟩
  · refine ⟨⟨?_, ?_⟩, ?_⟩
    · rw [hsame]
      exact h.key
    · rw [hsame]
      exact h.derived
    · intro repo commitId r hr
      rwa [hsame]
  · rcases hr with hbound | ⟨pub, rfl, hacc, rfl⟩
    · -- A handler made the record.
      exact h.insert hins (Or.inl hbound.2) (fun r₀ => h.eq_of_stored hsha hbound.2)
    · -- The client made it, and the condition on its id applies.
      rcases hreq hacc with hder | ⟨hno, hfree⟩
      · exact h.insert hins (Or.inl hder) (fun r₀ => h.eq_of_stored hsha hder)
      · rw [← hacc.1] at hfree
        exact h.insert hins (Or.inr hno) hfree

/-- With a collision-free digest, a commit that can be read stays as it is along every run whose
publish requests keep to derived ids, or to free ids that no record derives. -/
theorem commits_immutable (D : Deployment) (hsha : Function.Injective D.sha256Hex)
    (reqs : List Request)
    (hpub : EachStep (step D) (InMemoryState.PublishKeepsCommits D) .empty reqs) :
    Evolves (step D) CommitsKept .empty reqs :=
  evolves_of_eachStep (fun _ _ _ _ h => h) (fun h₁ h₂ _ _ _ h => h₂ _ _ _ (h₁ _ _ _ h))
    (fun _ _ h hreq => h.step hsha hreq) InMemoryState.wellKeyed_empty hpub

/-- A child of the root commit of `demo`, with the id `create_commit` would derive. -/
def noteRequest : CreateCommitRequest :=
  { repo := "demo", manifest := []
    parents := [(rootCommit (.ofTable sampleDigests) "demo").commitId]
    message := "note", author := "agent" }

def demoRepo : CreateRepoRequest :=
  { repo := some "demo", name := none, org := none, isPrivate := none }

/-- A repository is created and a commit with its derived id published to it. -/
theorem commits_immutable_after_publish :
    Evolves (step (.ofTable sampleDigests)) CommitsKept .empty
      [.createRepo demoRepo,
        .publishAtomic
          { repo := "demo", blobs := []
            commit := noteRequest.record (.ofTable sampleDigests)
            branchUpdates := [] }] := by
  refine commits_immutable _ sampleDigests_injective _ ?_
  rw [eachStep_cons, eachStep_cons]
  exact ⟨trivial, fun _ => Or.inl noteRequest.record_bound.2, eachStep_nil⟩

/-- A publish under the id of the root commit replaces that commit. -/
theorem publish_replaces_root_commit :
    ¬ ∃ D : Deployment, Evolves (step D) CommitsKept .empty
      [.createRepo demoRepo,
        .publishAtomic
          { repo := "demo", blobs := []
            commit := { rootCommit D "demo" with message := "replaced" }
            branchUpdates := [] }] := by
  rintro ⟨D, h⟩
  have hrun : (createRepo D demoRepo).run (InMemoryState.exec D) .empty = _ :=
    run_createRepo_of_absent rfl (by decide +kernel) rfl
  have hcreate : step D .empty (.createRepo demoRepo) =
      InMemoryState.empty.initRepo D "demo" true :=
    congrArg Prod.snd hrun
  have hkept := h [.createRepo demoRepo] _ ⟨_, rfl⟩ List.prefix_rfl
  simp only [List.cons_append, List.nil_append, after_cons, after_nil, hcreate] at hkept
  rw [step_publishAtomic_of_accepts ⟨rfl, rfl⟩] at hkept
  -- The root commit could be read after the first request and should still be there.
  have hlater := hkept "demo" (rootCommit D "demo").commitId (rootCommit D "demo")
    (Map.insert_self _ _ _)
  have hmessage : "replaced" = "init" := congrArg CommitRecord.message
    (Option.some.inj ((Map.insert_self _ _ _).symm.trans hlater))
  exact absurd hmessage (by decide)

end Forge
end Aivcs
