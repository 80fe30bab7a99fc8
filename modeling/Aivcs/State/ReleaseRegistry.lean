import Aivcs.Lib.Hash
import Aivcs.Lib.Map
import Aivcs.Lib.Run
import Aivcs.State.Types

/-!
# State.ReleaseRegistry — the two release registries

`MemoryReleaseRegistry` of `fakes.rs` and the in-process branch of the release operations of
`SurrealHandle`.  Both keep one list of records for each name, newest last.  The fake orders history
by position; the handle sorts it by `created_at`, newest first, with a stable sort.  `now` is the
reading of the clock.
-/

namespace Aivcs
namespace State

open Aivcs.Lib

/-- The records of each agent name, newest last. -/
abbrev Releases : Type := Map String (List ReleaseRecord)

/-- `entry(name).or_default().push(record)`. -/
def Releases.push (releases : Releases) (name : String) (record : ReleaseRecord) : Releases :=
  releases.insert name ((releases name).getD [] ++ [record])

/-- `get(name).cloned().unwrap_or_default()`. -/
def Releases.entries (releases : Releases) (name : String) : List ReleaseRecord :=
  (releases name).getD []

@[simp] theorem Releases.entries_push_self (releases : Releases) (name : String)
    (record : ReleaseRecord) :
    (releases.push name record).entries name = releases.entries name ++ [record] := by
  simp [Releases.entries, Releases.push]

theorem Releases.push_of_ne (releases : Releases) {name name' : String} (record : ReleaseRecord)
    (h : name' ≠ name) : releases.push name record name' = releases name' :=
  Map.insert_of_ne _ _ h

theorem Releases.push_ne_some_nil (releases : Releases) (name : String) (record : ReleaseRecord) :
    releases.push name record name ≠ some [] := by
  simp [Releases.push]

theorem Releases.entries_push_of_ne (releases : Releases) {name name' : String}
    (record : ReleaseRecord) (h : name' ≠ name) :
    (releases.push name record).entries name' = releases.entries name' := by
  simp [Releases.entries, push_of_ne _ _ h]

/-! ## The fake -/

namespace MemoryReleaseRegistry

def promote (releases : Releases) (now : Timestamp) (name : String) (specDigest : ContentDigest)
    (metadata : ReleaseMetadata) : Except StorageError ReleaseRecord × Releases :=
  let record : ReleaseRecord := ⟨name, specDigest, metadata, now⟩
  (.ok record, releases.push name record)

/-- The previous record is appended again as it is. -/
def rollback (releases : Releases) (name : String) :
    Except StorageError ReleaseRecord × Releases :=
  match releases name with
  | none => (.error (.releaseNotFound name), releases)
  | some history =>
      if h : history.length < 2 then
        (.error (.noPreviousRelease name), releases)
      else
        let previous := history[history.length - 2]
        (.ok previous, releases.push name previous)

def current (releases : Releases) (name : String) : Option ReleaseRecord :=
  (releases name).bind List.getLast?

theorem current_eq (releases : Releases) (name : String) :
    current releases name = (releases.entries name).getLast? := by
  unfold current Releases.entries
  cases releases name <;> rfl

/-- With two records or more, the last but one is appended again. -/
theorem rollback_eq {releases : Releases} {name : String} {pre : List ReleaseRecord}
    {a b : ReleaseRecord} (h : releases.entries name = pre ++ [a, b]) :
    rollback releases name = (.ok a, releases.push name a) := by
  unfold Releases.entries at h
  cases hn : releases name with
  | none =>
      simp [hn] at h
  | some history =>
      rw [hn, Option.getD_some] at h
      subst h
      simp [rollback, hn]

/-- With fewer, nothing changes. -/
theorem rollback_eq_error {releases : Releases} {name : String}
    (h : (releases.entries name).length < 2) :
    ∃ e, rollback releases name = (.error e, releases) := by
  unfold Releases.entries at h
  cases hn : releases name with
  | none =>
      exact ⟨.releaseNotFound name, by simp [rollback, hn]⟩
  | some history =>
      rw [hn, Option.getD_some] at h
      exact ⟨.noPreviousRelease name, by simp [rollback, hn, h]⟩

def history (releases : Releases) (name : String) : List ReleaseRecord :=
  (releases.entries name).reverse

end MemoryReleaseRegistry

/-! ## The handle -/

namespace SurrealHandle

def releasePromote (releases : Releases) (now : Timestamp) (name : String)
    (specDigest : ContentDigest) (metadata : ReleaseMetadata) :
    Except StorageError ReleaseRecord × Releases :=
  let record : ReleaseRecord := ⟨name, specDigest, metadata, now⟩
  (.ok record, releases.push name record)

/-- `sort_by_key(|record| Reverse(record.created_at))`. -/
def releaseHistory (releases : Releases) (name : String) : List ReleaseRecord :=
  (releases.entries name).insertionSort fun a b => b.createdAt ≤ a.createdAt

/-- The previous record is promoted anew. -/
def releaseRollback (releases : Releases) (now : Timestamp) (name : String) :
    Except StorageError ReleaseRecord × Releases :=
  match releaseHistory releases name with
  | [] => (.error (.releaseNotFound name), releases)
  | [_] => (.error (.noPreviousRelease name), releases)
  | _ :: previous :: _ =>
      releasePromote releases now name previous.specDigest previous.metadata

def releaseCurrent (releases : Releases) (name : String) : Option ReleaseRecord :=
  (releaseHistory releases name).head?

end SurrealHandle

end State
end Aivcs
