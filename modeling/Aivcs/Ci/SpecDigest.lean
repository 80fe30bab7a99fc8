import Aivcs.Lib.Text
import Aivcs.State.Handle
import Aivcs.Ci.Pipeline

/-!
# Ci.SpecDigest — what the hashes of commits and of CI specifications are of

`CommitId::new` puts markers and separators between three components, two of which may be missing, and
`compute_stages_digest` ends the name of each stage with a NUL.

* `preimages_unambiguous` — without NULs in the texts, what is hashed says which components there are and what
  they are, and which stages there are, in their order.
-/

namespace Aivcs

open Aivcs.Lib

/-- A text without NUL, as bytes. -/
def NulFree (s : String) : Prop :=
  (0 : UInt8) ∉ utf8 s

instance (s : String) : Decidable (NulFree s) :=
  inferInstanceAs (Decidable ((0 : UInt8) ∉ utf8 s))

namespace State

/-- The bytes `CommitId::new` feeds to SHA-256. -/
def CommitId.preimage (logicHash : Option String) (stateHash : String) (envHash : Option String) : Bytes :=
  utf8 "L" ++ marked logicHash ++ [0] ++ utf8 "S:" ++ utf8 stateHash ++ [0] ++ utf8 "E" ++ marked envHash

theorem CommitId.hash_new (sha256Hex : Bytes → String) (logicHash : Option String) (stateHash : String)
    (envHash : Option String) :
    (CommitId.new sha256Hex logicHash stateHash envHash).hash =
      sha256Hex (preimage logicHash stateHash envHash) := rfl

/-- The marker says whether the component is there. -/
theorem CommitId.marked_injective : Function.Injective marked := by
  -- The markers differ in their first byte, so what follows `S` does not matter.
  have hmarker : utf8 "N" ≠ [] ∧ (utf8 "N").head? ≠ (utf8 "S").head? := by decide
  have hne (hash : String) : utf8 "S" ++ utf8 hash ≠ utf8 "N" := by
    intro h
    refine hmarker.2 ?_
    rw [← h, List.head?_append_of_ne_nil _ (by decide)]
  intro component component' h
  cases component with
  | none =>
      cases component' with
      | none => rfl
      | some hash => exact absurd h.symm (hne hash)
  | some hash =>
      cases component' with
      | none => exact absurd h (hne hash)
      | some hash' => exact congrArg some (utf8_injective (List.append_cancel_left h))

theorem CommitId.nul_not_mem_marked {component : Option String} (h : ∀ hash ∈ component, NulFree hash) :
    (0 : UInt8) ∉ marked component := by
  cases component with
  | none => decide
  | some hash =>
      intro hmem
      rcases List.mem_append.1 hmem with hmarker | hhash
      · exact absurd hmarker (by decide)
      · exact h hash rfl hhash

/-- Each of the first two components ends at the first NUL. -/
theorem CommitId.preimage_inj {logicHash logicHash' envHash envHash' : Option String}
    {stateHash stateHash' : String} (hlogic : ∀ hash ∈ logicHash, NulFree hash)
    (hlogic' : ∀ hash ∈ logicHash', NulFree hash) (hstate : NulFree stateHash) (hstate' : NulFree stateHash')
    (h : preimage logicHash stateHash envHash = preimage logicHash' stateHash' envHash') :
    logicHash = logicHash' ∧ stateHash = stateHash' ∧ envHash = envHash' := by
  simp only [preimage, List.append_assoc, List.append_cancel_left_eq, List.singleton_append] at h
  -- The third component comes last and may hold anything.
  rcases append_sep_inj (nul_not_mem_marked hlogic) (nul_not_mem_marked hlogic') h with ⟨hmarked, hrest⟩
  rcases append_sep_inj hstate hstate' (List.append_cancel_left hrest) with ⟨hbytes, hlast⟩
  exact ⟨marked_injective hmarked, utf8_injective hbytes, marked_injective (List.append_cancel_left hlast)⟩

end State

namespace Ci

/-- The bytes `compute_stages_digest` feeds to SHA-256. -/
def stagesPreimage (stages : List String) : Bytes :=
  stages.flatMap fun stage => utf8 stage ++ [0]

def computeStagesDigest (sha256Hex : Bytes → String) (stages : List String) : String :=
  sha256Hex (stagesPreimage stages)

def CiSpec.new (sha256Hex : Bytes → String) (workspacePath : String) (stages : List String)
    (gitSha toolchainHash : String) : CiSpec where
  workspacePath := workspacePath
  stagesDigest := computeStagesDigest sha256Hex stages
  gitSha := gitSha
  toolchainHash := toolchainHash

theorem stagesPreimage_inj {stages stages' : List String} (hstages : ∀ stage ∈ stages, NulFree stage)
    (hstages' : ∀ stage ∈ stages', NulFree stage) (h : stagesPreimage stages = stagesPreimage stages') :
    stages = stages' := by
  have hpieces (stages : List String) :
      stagesPreimage stages = (stages.map utf8).flatMap fun piece => piece ++ [0] := by
    rw [stagesPreimage, List.flatMap_map]
  have hnul {stages : List String} (hstages : ∀ stage ∈ stages, NulFree stage) :
      ∀ piece ∈ stages.map utf8, (0 : UInt8) ∉ piece := by
    intro piece hpiece
    rcases List.mem_map.1 hpiece with ⟨stage, hstage, rfl⟩
    exact hstages stage hstage
  rw [hpieces, hpieces] at h
  exact List.map_injective_iff.2 utf8_injective (flatMap_concat_inj (hnul hstages) (hnul hstages') h)

/-- What is hashed for a commit and for the stages of a pipeline determines their components. -/
theorem preimages_unambiguous {logicHash logicHash' envHash envHash' : Option String}
    {stateHash stateHash' : String} {stages stages' : List String}
    (hlogic : ∀ hash ∈ logicHash, NulFree hash) (hlogic' : ∀ hash ∈ logicHash', NulFree hash)
    (hstate : NulFree stateHash) (hstate' : NulFree stateHash')
    (hstages : ∀ stage ∈ stages, NulFree stage) (hstages' : ∀ stage ∈ stages', NulFree stage) :
    (State.CommitId.preimage logicHash stateHash envHash =
        State.CommitId.preimage logicHash' stateHash' envHash' ↔
      logicHash = logicHash' ∧ stateHash = stateHash' ∧ envHash = envHash') ∧
      (stagesPreimage stages = stagesPreimage stages' ↔ stages = stages') := by
  constructor
  · constructor
    · exact State.CommitId.preimage_inj hlogic hlogic' hstate hstate'
    · rintro ⟨rfl, rfl, rfl⟩
      rfl
  · exact ⟨stagesPreimage_inj hstages hstages', congrArg stagesPreimage⟩

/-- Components that begin with a marker themselves, and stages of which one has no name. -/
theorem preimages_unambiguous_markers :
    State.CommitId.preimage (some "S") "S:E" none ≠ State.CommitId.preimage none "SS:E" none ∧
      stagesPreimage ["fmt", ""] ≠ stagesPreimage ["", "fmt"] := by
  have h : (State.CommitId.preimage (some "S") "S:E" none = State.CommitId.preimage none "SS:E" none ↔
        some "S" = none ∧ "S:E" = "SS:E" ∧ none = none) ∧
      (stagesPreimage ["fmt", ""] = stagesPreimage ["", "fmt"] ↔ ["fmt", ""] = ["", "fmt"]) :=
    preimages_unambiguous (by decide) (by decide) (by decide) (by decide) (by decide) (by decide)
  refine ⟨fun hcommit => ?_, fun hstages => ?_⟩
  · exact absurd (h.1.1 hcommit).1 (by decide)
  · exact absurd (h.2.1 hstages) (by decide)

/-- With a hash that has no collisions, equal hashes are of equal components. -/
theorem hash_new_inj {sha256Hex : Bytes → String} (hsha : Function.Injective sha256Hex)
    {logicHash logicHash' envHash envHash' : Option String} {stateHash stateHash' : String}
    (hlogic : ∀ hash ∈ logicHash, NulFree hash) (hlogic' : ∀ hash ∈ logicHash', NulFree hash)
    (hstate : NulFree stateHash) (hstate' : NulFree stateHash')
    (h : (State.CommitId.new sha256Hex logicHash stateHash envHash).hash =
      (State.CommitId.new sha256Hex logicHash' stateHash' envHash').hash) :
    State.CommitId.new sha256Hex logicHash stateHash envHash =
      State.CommitId.new sha256Hex logicHash' stateHash' envHash' := by
  rw [State.CommitId.hash_new, State.CommitId.hash_new] at h
  rcases State.CommitId.preimage_inj hlogic hlogic' hstate hstate' (hsha h) with ⟨rfl, rfl, rfl⟩
  rfl

theorem stagesDigest_new_inj {sha256Hex : Bytes → String} (hsha : Function.Injective sha256Hex)
    {workspacePath workspacePath' gitSha gitSha' toolchainHash toolchainHash' : String}
    {stages stages' : List String} (hstages : ∀ stage ∈ stages, NulFree stage)
    (hstages' : ∀ stage ∈ stages', NulFree stage)
    (h : (CiSpec.new sha256Hex workspacePath stages gitSha toolchainHash).stagesDigest =
      (CiSpec.new sha256Hex workspacePath' stages' gitSha' toolchainHash').stagesDigest) :
    stages = stages' :=
  stagesPreimage_inj hstages hstages' (hsha h)

end Ci
end Aivcs
