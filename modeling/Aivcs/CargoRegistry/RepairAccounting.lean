import Aivcs.CargoRegistry.RepairIdempotent

/-!
# CargoRegistry.RepairAccounting — what a repair changes and what it counts

Every line of every index object takes one of the exits of `repair_line`: it is valid, it is repaired, or it
is reported as failed.  Whichever it is, it is copied forward or rewritten once and counted once.

* `Tally` — the accounts of two reports, one of which continues the other, with a lemma for one line
  (`tally_add`), for an object (`tally_repairObject`) and for all of them (`tally_repairObjects`);
* `Rewritten` — an object line by line against the one it replaces;
* `repair_account` — the whole run.
-/

namespace Aivcs
namespace CargoRegistry

open Aivcs.Lib

/-! ## Counting -/

def LineOutcome.isFailed : LineOutcome → Bool
  | .failed _ _ => true
  | _ => false

/-- Every record has been counted as one of the three. -/
def RepairReport.Balanced (report : RepairReport) : Prop :=
  report.records = report.alreadyValid + report.repaired.length + report.failed.length

/-- From one report to a later one: `lines` more records, `failures` of which could not be rebuilt. -/
structure Tally (report report' : RepairReport) (lines failures : Nat) : Prop where
  records : report'.records = report.records + lines
  failed : report'.failed.length = report.failed.length + failures
  balanced : report.Balanced → report'.Balanced

section Tally

variable {r₁ r₂ r₃ : RepairReport} {n n' f f' : Nat}

theorem Tally.refl (report : RepairReport) : Tally report report 0 0 :=
  ⟨rfl, rfl, id⟩

theorem Tally.trans (h : Tally r₁ r₂ n f) (h' : Tally r₂ r₃ n' f') : Tally r₁ r₃ (n + n') (f + f') := by
  refine ⟨?_, ?_, fun hb => h'.balanced (h.balanced hb)⟩
  · rw [h'.records, h.records, Nat.add_assoc]
  · rw [h'.failed, h.failed, Nat.add_assoc]

/-- One line is counted once, whichever way it goes. -/
theorem tally_add (p : Pass) (line : Bytes) (outcome : LineOutcome) :
    Tally p.report (p.add line outcome).report 1 (if outcome.isFailed then 1 else 0) := by
  cases outcome with
  | valid =>
      refine ⟨rfl, rfl, fun h => ?_⟩
      simp only [Pass.add, RepairReport.Balanced] at h ⊢
      omega
  | failed subject reason =>
      refine ⟨rfl, by simp [Pass.add, RepairReport.fail, LineOutcome.isFailed], fun h => ?_⟩
      simp only [Pass.add, RepairReport.Balanced, RepairReport.fail, List.length_append,
        List.length_singleton] at h ⊢
      omega
  | repaired id entry =>
      refine ⟨rfl, rfl, fun h => ?_⟩
      simp only [Pass.add, RepairReport.Balanced, List.length_append, List.length_singleton] at h ⊢
      omega

end Tally

/-! ## Going through the index -/

section Run

variable (E : RepairEnv) (ownRegistry : String) (apply : Bool)

/-- The lines of the object at `key`. -/
def linesAt (s : Objects) (key : String) : List Bytes :=
  (s (.index, key)).elim [] lines

/-- How many of them cannot be rebuilt. -/
def failuresAt (s : Objects) (key : String) : Nat :=
  (linesAt s key).countP fun line => (outcomeOf E ownRegistry (artifacts s) key line).isFailed

theorem tally_repairLines (key : String) (s : Objects) (ls : List Bytes) (p : Pass) :
    Tally p.report ((repairLines E ownRegistry key ls p).run exec s).1.report ls.length
      (ls.countP fun line => (outcomeOf E ownRegistry (artifacts s) key line).isFailed) := by
  induction ls generalizing p with
  | nil =>
      exact Tally.refl p.report
  | cons line rest ih =>
      have hstep := tally_add p line (outcomeOf E ownRegistry (artifacts s) key line)
      have htally := hstep.trans (ih (p.add line (outcomeOf E ownRegistry (artifacts s) key line)))
      rw [repairLines, Proc.run_bind, run_repairLine, List.length_cons, Nat.add_comm, List.countP_cons,
        Nat.add_comm (List.countP _ rest)]
      exact htally

theorem tally_repairObject {key : String} {s : Objects} (hkey : (s (.index, key)).isSome = true)
    (report : RepairReport) :
    Tally report ((repairObject E ownRegistry apply key report).run exec s).1 (linesAt s key).length
      (failuresAt E ownRegistry s key) := by
  rcases Option.isSome_iff_exists.mp hkey with ⟨body, hget⟩
  have hlinesAt : linesAt s key = lines body := by
    rw [linesAt, hget, Option.elim_some]
  have htally := tally_repairLines E ownRegistry key s (lines body) ⟨[], false, report⟩
  obtain ⟨p, hlines, -⟩ := run_repairLines E ownRegistry key s (lines body) ⟨[], false, report⟩
  rw [hlines] at htally
  rw [run_repairObject_of_get E ownRegistry apply hget hlines, failuresAt, hlinesAt]
  exact htally

/-- Going through one object leaves the others to be counted as they were. -/
theorem linesAt_afterRepair {key k : String} (h : k ≠ key) (s : Objects) :
    linesAt (afterRepair E ownRegistry apply [key] s) k = linesAt s k := by
  simp [linesAt, afterRepair, h]

theorem failuresAt_afterRepair {key k : String} (h : k ≠ key) (s : Objects) :
    failuresAt E ownRegistry (afterRepair E ownRegistry apply [key] s) k =
      failuresAt E ownRegistry s k := by
  rw [failuresAt, linesAt_afterRepair E ownRegistry apply h, artifacts_afterRepair, failuresAt]

theorem tally_repairObjects {keys : List String} (hkeys : keys.Nodup) {s : Objects}
    (hpresent : ∀ key ∈ keys, (s (.index, key)).isSome = true) (report : RepairReport) :
    Tally report ((repairObjects E ownRegistry apply keys report).run exec s).1
      ((keys.map fun key => (linesAt s key).length).sum)
      ((keys.map (failuresAt E ownRegistry s)).sum) := by
  induction keys generalizing s report with
  | nil =>
      exact Tally.refl report
  | cons key keys ih =>
      obtain ⟨hkey, hkeys⟩ := List.nodup_cons.mp hkeys
      rw [List.forall_mem_cons] at hpresent
      have hfirst := tally_repairObject E ownRegistry apply hpresent.1 report
      obtain ⟨report₁, hrun₁, -⟩ := run_repairObject E ownRegistry apply key s report
      rw [hrun₁] at hfirst
      -- The remaining objects are the same in the store the first one leaves.
      have hne : ∀ k ∈ keys, k ≠ key := fun k hk => ne_of_mem_of_not_mem hk hkey
      have hpresent₁ : ∀ k ∈ keys,
          (afterRepair E ownRegistry apply [key] s (.index, k)).isSome = true := by
        intro k hk
        simpa [afterRepair, hne k hk] using hpresent.2 k hk
      have hrest := ih hkeys hpresent₁ report₁
      have hlines : keys.map (fun k => (linesAt (afterRepair E ownRegistry apply [key] s) k).length) =
          keys.map fun k => (linesAt s k).length :=
        List.map_congr_left fun k hk => by rw [linesAt_afterRepair E ownRegistry apply (hne k hk)]
      have hfailures : keys.map (failuresAt E ownRegistry (afterRepair E ownRegistry apply [key] s)) =
          keys.map (failuresAt E ownRegistry s) :=
        List.map_congr_left fun k hk => failuresAt_afterRepair E ownRegistry apply (hne k hk) s
      rw [hlines, hfailures] at hrest
      rw [repairObjects, Proc.run_bind, hrun₁, List.map_cons, List.map_cons, List.sum_cons, List.sum_cons]
      exact hfirst.trans hrest

end Run

/-! ## A rewritten object -/

section Objects

variable (E : RepairEnv) (ownRegistry : String) (A : Map String Bytes)

/-- What a line may become: itself, or the record of the artifact it names with the yank flag it has. -/
inductive LineAfter (line : Bytes) : Bytes → Prop
  | kept : LineAfter line line
  | rebuilt {parsed : Json} {bytes : Bytes} {e : IndexEntry} (hparsed : E.fromSlice line = .ok parsed)
      (hget : A (crateKey (recordName parsed) (recordVers parsed)) = some bytes)
      (hrebuild : rebuild E ownRegistry bytes (recordYanked parsed) = .ok e)
      (hyanked : e.yanked = recordYanked parsed) : LineAfter line (entryLine e)

/-- Line for line in the same order, each line with its newline. -/
structure Rewritten (old new : Bytes) : Prop where
  lines : List.Forall₂ (LineAfter E ownRegistry A) (lines old) (lines new)
  terminated : new = (Lib.lines new).flatMap fun line => line ++ [10]

theorem lineAfter_newLine (key : String) (line : Bytes) :
    LineAfter E ownRegistry A line (newLine E ownRegistry A key line) := by
  unfold newLine
  cases hrewrite : rewrite? E ownRegistry A key line with
  | none =>
      exact .kept
  | some p =>
      obtain ⟨parsed, bytes, hparsed, hget, hrebuild, -⟩ :=
        (rewrite?_eq_some_iff E ownRegistry A key line p.1 p.2).mp hrewrite
      exact .rebuilt hparsed hget hrebuild (rebuild_yanked hrebuild)

theorem rewritten_newBody {key : String} {body : Bytes}
    (h : repairedIn E ownRegistry A key body ≠ []) :
    Rewritten E ownRegistry A body (newBody E ownRegistry A key body) := by
  have hlines := lines_newBody E ownRegistry A key body
  refine ⟨?_, ?_⟩
  · rw [hlines, List.forall₂_map_right_iff, List.forall₂_same]
    exact fun line _ => lineAfter_newLine E ownRegistry A key line
  · rw [hlines, List.flatMap_map, newBody, if_neg h]

end Objects

/-! ## The account of a run -/

/-- The store and the report after a run, against the store before it. -/
structure RepairAccount (E : RepairEnv) (ownRegistry : String) (apply : Bool) (keys : List String)
    (s s' : Objects) (report : RepairReport) : Prop where
  crates : ∀ key, s' (.crates, key) = s (.crates, key)
  dry : apply = false → s' = s
  /-- The report names, object by object, the lines that were to be rewritten. -/
  repaired : report.repaired = keys.flatMap (repairedAt E ownRegistry s)
  /-- An object that is not as it was has a line in the report, and is rewritten line by line. -/
  index : ∀ key, s' (.index, key) ≠ s (.index, key) → ∃ old new,
    s (.index, key) = some old ∧ s' (.index, key) = some new ∧
      (∃ line ∈ lines old, ∃ id e, rewrite? E ownRegistry (artifacts s) key line = some (id, e) ∧
        id ∈ report.repaired) ∧
      Rewritten E ownRegistry (artifacts s) old new
  records : report.records = (keys.map fun key => (linesAt s key).length).sum
  failed : report.failed.length = (keys.map (failuresAt E ownRegistry s)).sum
  balanced : report.records =
    report.alreadyValid + report.repaired.length + (keys.map (failuresAt E ownRegistry s)).sum

section Account

variable {E : RepairEnv} {ownRegistry : String} {apply : Bool} {keys : List String} {s : Objects}

theorem rewritten_of_ne {key : String}
    (hne : afterRepair E ownRegistry apply keys s (.index, key) ≠ s (.index, key)) :
    key ∈ keys ∧ ∃ old, s (.index, key) = some old ∧
      afterRepair E ownRegistry apply keys s (.index, key) =
        some (newBody E ownRegistry (artifacts s) key old) ∧
      repairedIn E ownRegistry (artifacts s) key old ≠ [] := by
  simp only [afterRepair] at hne ⊢
  split at hne
  · rename_i happly
    rw [if_pos happly]
    cases hget : s (.index, key) with
    | none =>
        rw [hget] at hne
        exact absurd rfl hne
    | some old =>
        refine ⟨happly.2, old, rfl, rfl, fun hnil => hne ?_⟩
        rw [hget, Option.map_some, newBody, if_pos hnil]
  · exact absurd rfl hne

end Account

/-- A run over a working store touches no artifact, writes only when told to, rewrites only objects of which
it reports a line, and counts every record once. -/
theorem repair_account (E : RepairEnv) (ownRegistry : String) (apply : Bool) (s : Objects)
    (keys : List String) (hkeys : IsListing s keys) :
    ∃ report s', (run E ownRegistry apply (.ok keys)).run exec s = (.ok report, s') ∧
      RepairAccount E ownRegistry apply keys s s' report := by
  obtain ⟨report, hrun, hrepaired⟩ := run_spec E ownRegistry apply hkeys.nodup s
  -- The counters of the report are read off the loop, the objects off the specification of the run.
  have htally := tally_repairObjects E ownRegistry apply hkeys.nodup
    (fun key hkey => (hkeys.mem_iff key).mp hkey) RepairReport.default
  have hreport : ((repairObjects E ownRegistry apply keys RepairReport.default).run exec s).1 = report := by
    have hfst := congrArg Prod.fst hrun
    rw [run, Proc.run_bind] at hfst
    exact Except.ok.inj hfst
  rw [hreport] at htally
  have hfailed : report.failed.length = (keys.map (failuresAt E ownRegistry s)).sum :=
    htally.failed.trans (Nat.zero_add _)
  refine ⟨report, _, hrun, fun _ => rfl, ?_, hrepaired, ?_, htally.records.trans (Nat.zero_add _),
    hfailed, ?_⟩
  · rintro rfl
    ext1 ⟨bucket, key⟩
    cases bucket <;> simp [afterRepair]
  · intro key hne
    -- An object that changed was read, and one of its lines was rewritten.
    obtain ⟨hkey, old, hget, hnew, hnil⟩ := rewritten_of_ne hne
    refine ⟨old, _, hget, hnew, ?_, rewritten_newBody E ownRegistry (artifacts s) hnil⟩
    rw [Ne, repairedIn_eq_nil_iff] at hnil
    push Not at hnil
    obtain ⟨line, hline, hrewrite⟩ := hnil
    obtain ⟨⟨id, e⟩, hsome⟩ := Option.ne_none_iff_exists'.mp hrewrite
    refine ⟨line, hline, id, e, hsome, ?_⟩
    rw [hrepaired, List.mem_flatMap]
    refine ⟨key, hkey, ?_⟩
    rw [repairedAt, hget, Option.elim_some, repairedIn, List.mem_filterMap]
    exact ⟨line, hline, by rw [hsome, Option.map_some]⟩
  · have hbalanced : report.Balanced := htally.balanced rfl
    rw [← hfailed]
    exact hbalanced

/-- One record that is repaired. -/
theorem repair_account_settled :
    IsListing settledStore ["1/b"] ∧
      ∃ report s', (run envB "https://registry.aivcs.io" true (.ok ["1/b"])).run exec settledStore =
          (.ok report, s') ∧
        RepairAccount envB "https://registry.aivcs.io" true ["1/b"] settledStore s' report :=
  ⟨isListing_settled, repair_account envB "https://registry.aivcs.io" true settledStore ["1/b"]
    isListing_settled⟩

end CargoRegistry
end Aivcs
