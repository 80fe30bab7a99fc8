import Aivcs.Forge.SourceRoundTrip

/-!
# Forge.SourceSize — the size gate of `preflight_source`

The estimate is a saturating sum, so it is the exact sum as long as that fits a `u64` and the largest
`u64` otherwise.  Below a cap that is itself less than that, "estimate within the cap" and "exact
length within the cap" are the same.  The emitter works on the blobs it is given, but it compares each
with the stated size first, so what it streams has the estimated length.
-/

namespace Aivcs
namespace Forge

open Aivcs.Lib

/-! ## The exact length -/

/-- The bytes one entry takes: a header, the content, its padding. -/
def entryLen (e : ManifestEntry) : Nat :=
  512 + e.size.toNat + Ustar.padding e.size.toNat

/-- The length of the archive, in unbounded arithmetic. -/
def exactTarLen (entries : List ManifestEntry) : Nat :=
  (entries.map entryLen).sum + 1024

theorem exactTarLen_perm {entries entries' : List ManifestEntry} (h : entries.Perm entries') :
    exactTarLen entries = exactTarLen entries' := by
  unfold exactTarLen
  rw [(h.map entryLen).sum_eq]

/-- Saturation commutes with adding more. -/
theorem saturatingAdd_min (a b : Nat) :
    saturatingAdd (min a (2 ^ 64 - 1)) b = min (a + b) (2 ^ 64 - 1) := by
  unfold saturatingAdd
  omega

theorem addEntry_min (total : Nat) (e : ManifestEntry) :
    addEntry (min total (2 ^ 64 - 1)) e = min (total + entryLen e) (2 ^ 64 - 1) := by
  unfold addEntry
  rw [saturatingAdd_min, saturatingAdd_min, saturatingAdd_min, entryLen, Ustar.padding]
  congr 1
  omega

theorem foldl_addEntry_min (entries : List ManifestEntry) (total : Nat) :
    entries.foldl addEntry (min total (2 ^ 64 - 1)) =
      min (total + (entries.map entryLen).sum) (2 ^ 64 - 1) := by
  induction entries generalizing total with
  | nil =>
      simp
  | cons e entries ih =>
      rw [List.foldl_cons, addEntry_min, ih, List.map_cons, List.sum_cons, Nat.add_assoc]

/-- The estimate is the exact length, cut off at the largest `u64`. -/
theorem estimatedTarLen_eq_min (entries : List ManifestEntry) :
    estimatedTarLen entries = min (exactTarLen entries) (2 ^ 64 - 1) := by
  have hfold := foldl_addEntry_min entries 0
  rw [Nat.zero_min, Nat.zero_add] at hfold
  show saturatingAdd (entries.foldl addEntry 0) 1024 = _
  rw [hfold, saturatingAdd_min, exactTarLen]

/-- An estimate below the largest `u64` did not saturate. -/
theorem estimatedTarLen_eq_exact {entries : List ManifestEntry}
    (h : estimatedTarLen entries < 2 ^ 64 - 1) : estimatedTarLen entries = exactTarLen entries := by
  rw [estimatedTarLen_eq_min] at h ⊢
  omega

/-! ## What is streamed -/

variable {D : Deployment}

/-- Whatever the store answers, a chunk that is produced has the length its entry states. -/
theorem length_of_traces_tarEntryChunk {e : ManifestEntry} {chunk : Bytes}
    {tr : List ((op : ForgeOp) × op.Ans)}
    (h : Proc.Traces (tarEntryChunk D e) tr (.ok chunk)) : chunk.length = entryLen e := by
  simp only [tarEntryChunk, ForgeStore.getBlob, Proc.bind_eq, Proc.bind_perform] at h
  rcases h.of_call with ⟨answer, _, -, hrest⟩
  cases answer with
  | error err =>
      cases hrest.of_ret.2
  | ok blob =>
      cases blob with
      | none =>
          cases hrest.of_ret.2
      | some bytes =>
          dsimp only at hrest
          split_ifs at hrest with hlen hsha
          · cases hrest.of_ret.2
          · cases hrest.of_ret.2
          · cases hsplit : ustarSplit (utf8 e.path) with
            | none =>
                rw [hsplit] at hrest
                cases hrest.of_ret.2
            | some parts =>
                rw [hsplit] at hrest
                have hsize : bytes.length = e.size.toNat := not_not.1 hlen
                rcases ustarSplit_sound hsplit with ⟨hname, hpre, -⟩
                have hheader := length_ustarHeader e.executable hname hpre
                  (hsize ▸ e.size.toNat_lt)
                rw [Except.ok.inj hrest.of_ret.2, List.length_append, List.length_append, hheader,
                  List.length_replicate, hsize, entryLen, Ustar.padding]
                omega

theorem length_of_traces_sourceBody {entries : List ManifestEntry} {archive : Bytes}
    {tr : List ((op : ForgeOp) × op.Ans)}
    (h : Proc.Traces (sourceBody D entries) tr (.ok archive)) :
    archive.length = exactTarLen entries := by
  induction entries generalizing tr archive with
  | nil =>
      rw [Except.ok.inj h.of_ret.2, List.length_replicate]
      rfl
  | cons e entries ih =>
      rcases h.of_bind with ⟨_, first, _, -, hchunk, hrest⟩
      cases first with
      | error err =>
          cases hrest.of_ret.2
      | ok chunk =>
          rcases hrest.of_bind with ⟨_, second, _, -, hbody, hret⟩
          cases second with
          | error err =>
              cases hret.of_ret.2
          | ok rest =>
              rw [Except.ok.inj hret.of_ret.2, List.length_append,
                length_of_traces_tarEntryChunk hchunk, ih hbody, exactTarLen, exactTarLen,
                List.map_cons, List.sum_cons, Nat.add_assoc]

/-! ## The gate -/

theorem preflightSource_error_of_cap_lt {commit : CommitRecord}
    (h : D.maxSourceBytes < estimatedTarLen (sortByPath commit.manifest)) :
    ∃ refusal, preflightSource D commit = .error refusal := by
  cases hflight : preflightSource D commit with
  | error refusal =>
      exact ⟨refusal, rfl⟩
  | ok entries =>
      rcases preflightSource_ok hflight with ⟨rfl, hok⟩
      exact absurd hok.capped (by omega)

/-- Under every cap below the largest `u64`: an accepted commit that streams to its end streams exactly
the estimated number of bytes, within the cap, whatever the store answered on the way; and a commit
whose exact length exceeds the cap is refused, also where the sum saturates. -/
theorem size_gate_exact (D : Deployment) (hcap : D.maxSourceBytes < 2 ^ 64 - 1)
    (commit : CommitRecord) :
    (∀ entries tr archive, preflightSource D commit = .ok entries →
      Proc.Traces (sourceBody D entries) tr (.ok archive) →
        archive.length = estimatedTarLen entries ∧ archive.length ≤ D.maxSourceBytes) ∧
    (D.maxSourceBytes < exactTarLen commit.manifest →
      ∃ refusal, preflightSource D commit = .error refusal) := by
  refine ⟨?_, ?_⟩
  · intro entries tr archive hflight htraces
    rcases preflightSource_ok hflight with ⟨-, hok⟩
    have hcapped := hok.capped
    have hexact := estimatedTarLen_eq_exact (hcapped.trans_lt hcap)
    have hlen := length_of_traces_sourceBody htraces
    exact ⟨by omega, by omega⟩
  · intro hover
    refine preflightSource_error_of_cap_lt ?_
    -- The estimate may have saturated, and the largest `u64` is over the cap too.
    rw [estimatedTarLen_eq_min, exactTarLen_perm (sortByPath_perm commit.manifest)]
    omega

/-- The archive of the script and the empty file: two headers, one block of content, the trailer.  Of
two entries of `2 ^ 63` bytes each, the sum does not fit a `u64` and the commit is refused. -/
theorem size_gate_of_script :
    (∃ tr archive, Proc.Traces (sourceBody (.ofTable scriptDigests) (sortByPath scriptCommit.manifest))
        tr (.ok archive) ∧ archive.length = 2560) ∧
      ∃ refusal, preflightSource (.ofTable [])
        { scriptCommit with
          manifest := [⟨"a", "", false, 9223372036854775808⟩, ⟨"b", "", false, 9223372036854775808⟩] } =
        .error refusal := by
  have hpre : preflightSource (.ofTable scriptDigests) scriptCommit =
      .ok (sortByPath scriptCommit.manifest) := by
    decide +kernel
  refine ⟨?_, ?_⟩
  · have htraces := Proc.traces_traceOf (InMemoryState.exec (.ofTable scriptDigests))
      (sourceBody (.ofTable scriptDigests) (sortByPath scriptCommit.manifest)) scriptState
    cases hrun : ((sourceBody (.ofTable scriptDigests) (sortByPath scriptCommit.manifest)).run
        (InMemoryState.exec (.ofTable scriptDigests)) scriptState).1 with
    | error err =>
        have hok : ((sourceBody (.ofTable scriptDigests) (sortByPath scriptCommit.manifest)).run
          (InMemoryState.exec (.ofTable scriptDigests)) scriptState).1.isOk = true := by
          decide +kernel
        rw [hrun] at hok
        cases hok
    | ok archive =>
        rw [hrun] at htraces
        have hlen := ((size_gate_exact (.ofTable scriptDigests) (by decide) scriptCommit).1 _ _ _ hpre
          htraces).1
        exact ⟨_, archive, htraces, hlen.trans (by decide +kernel)⟩
  · exact (size_gate_exact (.ofTable []) (by decide) _).2 (by decide +kernel)

end Forge
end Aivcs
