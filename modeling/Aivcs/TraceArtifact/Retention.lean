import Aivcs.Lib.AgeCutoff
import Aivcs.Lib.Bytes
import Aivcs.Lib.SortBy
import Aivcs.State.Types

/-!
# TraceArtifact.Retention — pruning a directory of run artifacts

`RetentionPolicy::prune`: every subdirectory with a readable `trace.json` is a run; runs older than the
cutoff are deleted first, then the oldest of the rest.  A directory that cannot be read, or removed, ends
the operation with an error; a directory that is not there is an empty one.  Where the cutoff cannot be
computed the operation is `none`.
-/

namespace Aivcs
namespace TraceArtifact

open Aivcs.Lib Aivcs.State

structure RetentionPolicy where
  maxAgeDays : Option UInt64
  maxRuns : Option Nat
  deriving DecidableEq

inductive PruneError
  | io
  deriving DecidableEq

/-- The `trace.json` of a subdirectory. -/
inductive TraceFile
  | missing
  | unreadable
  | content (json : Bytes)
  deriving DecidableEq

structure RunDir where
  path : String
  trace : TraceFile
  deriving DecidableEq

/-- What `read_dir` answers; an entry may fail on its own. -/
inductive Listing
  | notFound
  | failed
  | entries (dirs : List (Option RunDir))
  deriving DecidableEq

structure RunEntry where
  createdAt : Timestamp
  path : String
  deriving DecidableEq

/-! ## Collecting the runs -/

/-- The runs of a listing; an artifact that does not parse is passed over. -/
def collect (parse : Bytes → Option Timestamp) : List (Option RunDir) → Except PruneError (List RunEntry)
  | [] => .ok []
  | none :: _ => .error .io
  | some dir :: dirs =>
      match dir.trace with
      | .missing => collect parse dirs
      | .unreadable => .error .io
      | .content json =>
          match parse json with
          -- not an artifact: passed over, not an error
          | none => collect parse dirs
          | some createdAt =>
              (collect parse dirs).map fun runs => { createdAt := createdAt, path := dir.path } :: runs

/-- Newest first. -/
def newestFirst (runs : List RunEntry) : List RunEntry :=
  sortBy (fun run => -run.createdAt) runs

/-! ## Deleting -/

/-- How far a loop that deletes directories came. -/
structure Sweep where
  removed : List RunEntry
  kept : List RunEntry
  failed : Bool
  deriving DecidableEq

/-- Delete what passes the test, one directory after the other, up to the first failure. -/
def sweep (remove : String → Bool) (test : RunEntry → Bool) : List RunEntry → Sweep
  | [] => { removed := [], kept := [], failed := false }
  | run :: runs =>
      if test run then
        -- a failed removal ends the loop, and what was removed stays removed
        if remove run.path then
          let rest := sweep remove test runs
          { rest with removed := run :: rest.removed }
        else
          { removed := [], kept := [], failed := true }
      else
        let rest := sweep remove test runs
        { rest with kept := run :: rest.kept }

/-- Age-based pruning. -/
def sweepAged (remove : String → Bool) (cutoff : Timestamp) (runs : List RunEntry) : Sweep :=
  sweep remove (fun run => decide (run.createdAt < cutoff)) runs

/-- Count-based pruning. -/
def sweepExcess (remove : String → Bool) (policy : RetentionPolicy) (runs : List RunEntry) : Sweep :=
  match policy.maxRuns with
  | none => { removed := [], kept := runs, failed := false }
  | some maxRuns =>
      if maxRuns < runs.length then
        { sweep remove (fun _ => true) (runs.drop maxRuns) with kept := runs.take maxRuns }
      else
        { removed := [], kept := runs, failed := false }

/-- What each phase deletes, and the answer. -/
structure Pruning where
  aged : List RunEntry
  excess : List RunEntry
  result : Except PruneError Nat

def sweepByAge (range : DateRange) (now : Timestamp) (remove : String → Bool) (policy : RetentionPolicy)
    (runs : List RunEntry) : Option Sweep :=
  match policy.maxAgeDays with
  | none => some { removed := [], kept := runs, failed := false }
  | some maxDays => (cutoff range now maxDays).map fun cutoff => sweepAged remove cutoff runs

/-- Count-based pruning of what the age phase kept, and the answer. -/
def finish (remove : String → Bool) (policy : RetentionPolicy) (age : Sweep) : Pruning :=
  if age.failed then
    { aged := age.removed, excess := [], result := .error .io }
  else
    let count := sweepExcess remove policy age.kept
    { aged := age.removed
      excess := count.removed
      result := if count.failed then .error .io else .ok (age.removed.length + count.removed.length) }

def pruneRuns (range : DateRange) (now : Timestamp) (remove : String → Bool) (policy : RetentionPolicy)
    (runs : List RunEntry) : Option Pruning :=
  (sweepByAge range now remove policy (newestFirst runs)).map (finish remove policy)

def RetentionPolicy.prune (range : DateRange) (now : Timestamp) (parse : Bytes → Option Timestamp)
    (remove : String → Bool) (policy : RetentionPolicy) (listing : Listing) : Option Pruning :=
  match listing with
  | .notFound => some { aged := [], excess := [], result := .ok 0 }
  | .failed => some { aged := [], excess := [], result := .error .io }
  | .entries dirs =>
      match collect parse dirs with
      | .error err => some { aged := [], excess := [], result := .error err }
      | .ok runs => pruneRuns range now remove policy runs

/-! ## What a sweep deletes -/

section Sweeps

variable {remove : String → Bool} {test : RunEntry → Bool} {runs : List RunEntry}

/-- A sweep that does not fail has deleted everything that passes the test, and nothing else. -/
theorem removed_sweep (h : (sweep remove test runs).failed = false) :
    (sweep remove test runs).removed = runs.filter test := by
  induction runs with
  | nil =>
      rfl
  | cons run runs ih =>
      rw [sweep] at h ⊢
      by_cases htest : test run = true
      · rw [if_pos htest] at h ⊢
        by_cases hremove : remove run.path = true
        · rw [if_pos hremove] at h ⊢
          rw [List.filter_cons_of_pos htest, ← ih h]
        · rw [if_neg hremove] at h
          cases h
      · rw [if_neg htest] at h ⊢
        rw [List.filter_cons_of_neg htest]
        exact ih h

theorem failed_sweep (h : ∀ path, remove path = true) : (sweep remove test runs).failed = false := by
  induction runs with
  | nil =>
      rfl
  | cons run runs ih =>
      rw [sweep]
      by_cases htest : test run = true
      · rw [if_pos htest, if_pos (h run.path)]
        exact ih
      · rw [if_neg htest]
        exact ih

theorem failed_sweepExcess {policy : RetentionPolicy} (h : ∀ path, remove path = true) :
    (sweepExcess remove policy runs).failed = false := by
  unfold sweepExcess
  split
  · rfl
  · split
    · exact failed_sweep h
    · rfl

theorem aged_finish (remove : String → Bool) (policy : RetentionPolicy) (age : Sweep) :
    (finish remove policy age).aged = age.removed := by
  unfold finish
  split <;> rfl

theorem failed_of_isOk_finish {policy : RetentionPolicy} {age : Sweep}
    (h : (finish remove policy age).result.isOk = true) : age.failed = false := by
  unfold finish at h
  split at h
  · cases h
  · next hfailed =>
    exact Bool.eq_false_iff.2 hfailed

/-- Where every directory can be removed, nothing fails. -/
theorem isOk_finish {policy : RetentionPolicy} {age : Sweep} (h : ∀ path, remove path = true)
    (hage : age.failed = false) : (finish remove policy age).result.isOk = true := by
  simp only [finish, hage, Bool.false_eq_true, if_false, failed_sweepExcess h]
  rfl

end Sweeps

end TraceArtifact
end Aivcs
