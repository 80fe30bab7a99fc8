import Aivcs.Orchestration.Merge

/-!
# Orchestration.MergeOrder — what decides a merge

Outputs with distinct positions have one sorted order, so the order they arrive in does not matter
(`merge_order_independent`), and a key's register tells which of them the value is from.

An output that repeats the value held does not take the key over, whatever its role: under
`preferRolePriority` the best role is looked for among the outputs that contest the key
(`merge_priority_decides`), not among all that mention it (`not_best_of_all`).
-/

namespace Aivcs
namespace Orchestration

open Aivcs.Lib

variable {strategy : MergeConflictStrategy} {key : String} {outputs : List RoleOutput} {o : RoleOutput}

/-! ## The outputs before an output -/

/-- The outputs that are merged before an output. -/
def outputsBefore (outputs : List RoleOutput) (o : RoleOutput) : List RoleOutput :=
  outputs.filter fun o' => o'.position < o.position

/-- The output mentions the key, and merging the outputs before it does not give its value. -/
def Contests (strategy : MergeConflictStrategy) (outputs : List RoleOutput) (key : String)
    (o : RoleOutput) : Prop :=
  key ∈ o.values ∧
    (mergeRoleOutputs (outputsBefore outputs o) strategy).values.lookup key ≠ o.values.lookup key

/-- Of the outputs with the property, the one whose role has the best priority, and of that role the
earliest. -/
def IsBest (outputs : List RoleOutput) (p : RoleOutput → Prop) (o : RoleOutput) : Prop :=
  o ∈ outputs ∧ p o ∧
    ∀ o' ∈ outputs, p o' →
      o.role.mergePriority < o'.role.mergePriority ∨ (o.role = o'.role ∧ o.step ≤ o'.step)

section Distinct

variable (hdistinct : (outputs.map RoleOutput.position).Nodup)

include hdistinct

theorem writes_eq :
    writes outputs key = sortBy RoleOutput.position (outputs.filter fun o => key ∈ o.values) :=
  filter_sortBy _ hdistinct

theorem nodup_mentioning :
    ((outputs.filter fun o => key ∈ o.values).map RoleOutput.position).Nodup :=
  hdistinct.sublist (List.filter_sublist.map _)

theorem pairwise_writes :
    (writes outputs key).Pairwise fun a b => a.position < b.position :=
  (pairwise_lt_sortBy hdistinct).sublist List.filter_sublist

theorem before_writes {pre post : List RoleOutput} (h : writes outputs key = pre ++ o :: post) :
    pre = writes (outputsBefore outputs o) key := by
  have hbefore : ((outputsBefore outputs o).map RoleOutput.position).Nodup :=
    hdistinct.sublist (List.filter_sublist.map _)
  have hpre : pre = sortBy RoleOutput.position
      ((outputs.filter fun o => key ∈ o.values).filter fun o' => o'.position < o.position) :=
    before_sortBy (nodup_mentioning hdistinct) ((writes_eq hdistinct).symm.trans h)
  rw [hpre, writes_eq hbefore, outputsBefore, List.filter_filter, List.filter_filter]
  simp only [Bool.and_comm]

theorem contesting_iff :
    Register.Contesting (valueOf key) (fun o => strategy.rank o.role) (writes outputs key) o ↔
      o ∈ outputs ∧ Contests strategy outputs key o := by
  have hcontests {pre : List RoleOutput} (hpre : pre = writes (outputsBefore outputs o) key)
      (hkey : key ∈ o.values) :
      Register.Contests (valueOf key) (fun o => strategy.rank o.role) pre o ↔
        (mergeRoleOutputs (outputsBefore outputs o) strategy).values.lookup key ≠
          o.values.lookup key := by
    obtain ⟨value, hvalue⟩ := Finmap.mem_iff.1 hkey
    have ho : valueOf key o = some value := hvalue
    rw [Register.Contests, lookup_mergeRoleOutputs, hpre, hvalue, ho]
    refine not_congr ?_
    change (register strategy key _).owner.map (valueOf key) = some (some value) ↔ _
    cases (register strategy key (writes (outputsBefore outputs o) key)).owner <;> simp
  constructor
  · rintro h
    obtain ⟨hmem, hkey⟩ := mem_writes.1 h.mem
    obtain ⟨pre, post, hsplit, hpre⟩ := h
    exact ⟨hmem, hkey, (hcontests (before_writes hdistinct hsplit) hkey).1 hpre⟩
  · rintro ⟨hmem, hkey, hne⟩
    obtain ⟨pre, post, hsplit⟩ := List.append_of_mem (mem_writes.2 ⟨hmem, hkey⟩)
    exact ⟨pre, post, hsplit, (hcontests (before_writes hdistinct hsplit) hkey).2 hne⟩

end Distinct

/-! ## Role priority -/

theorem step_le_of_position_lt {a b : RoleOutput} (h : a.position < b.position) : a.step ≤ b.step := by
  rcases Prod.Lex.toLex_lt_toLex.1 h with hlt | ⟨heq, _⟩
  · exact UInt32.le_iff_toNat_le.2 hlt.le
  · exact UInt32.le_iff_toNat_le.2 heq.le

/-- The owner of a key is the best of the outputs that contest it. -/
theorem owner_isBest (hdistinct : (outputs.map RoleOutput.position).Nodup)
    (howner : (register .preferRolePriority key (writes outputs key)).owner = some o) :
    IsBest outputs (Contests .preferRolePriority outputs key) o := by
  obtain ⟨hcontesting, hbest⟩ := Register.owner_best (pairwise_writes hdistinct) howner
  obtain ⟨hmem, hcontests⟩ := (contesting_iff hdistinct).1 hcontesting
  refine ⟨hmem, hcontests, ?_⟩
  intro o' hmem' hcontests'
  rcases hbest o' ((contesting_iff hdistinct).2 ⟨hmem', hcontests'⟩) with rfl | hlt | ⟨heq, hlt⟩
  · exact Or.inr ⟨rfl, UInt32.le_refl _⟩
  · exact Or.inl hlt
  · exact Or.inr ⟨AgentRole.mergePriority_injective heq, step_le_of_position_lt hlt⟩

theorem IsBest.unique (hdistinct : (outputs.map RoleOutput.position).Nodup) {p : RoleOutput → Prop}
    {o' : RoleOutput} (h : IsBest outputs p o) (h' : IsBest outputs p o') : o = o' := by
  obtain ⟨hmem, hp, hbest⟩ := h
  obtain ⟨hmem', hp', hbest'⟩ := h'
  have hrank : o.role = o'.role ∧ o.step = o'.step := by
    rcases hbest o' hmem' hp' with hlt | ⟨hrole, hle⟩
    · rcases hbest' o hmem hp with hlt' | ⟨hrole', _⟩
      · exact absurd hlt hlt'.asymm
      · exact absurd hlt (hrole' ▸ lt_irrefl _)
    · rcases hbest' o hmem hp with hlt' | ⟨_, hle'⟩
      · exact absurd hlt' (hrole ▸ lt_irrefl _)
      · exact ⟨hrole, UInt32.le_antisymm hle hle'⟩
  have hposition : o.position = o'.position := by
    rw [RoleOutput.position, RoleOutput.position, hrank.1, hrank.2]
  exact List.inj_on_of_nodup_map hdistinct hmem hmem' hposition

/-- The value of a key is that of the best role among the outputs that contest it; it is that of the best
role among all outputs that mention it when that one contests the key. -/
theorem merge_priority_decides (outputs : List RoleOutput)
    (hdistinct : (outputs.map RoleOutput.position).Nodup) (key : String) :
    ((∃ o ∈ outputs, key ∈ o.values) →
      ∃ o, IsBest outputs (Contests .preferRolePriority outputs key) o ∧
        (mergeRoleOutputs outputs .preferRolePriority).values.lookup key = o.values.lookup key) ∧
    (∀ o, IsBest outputs (fun o => key ∈ o.values) o → Contests .preferRolePriority outputs key o →
      (mergeRoleOutputs outputs .preferRolePriority).values.lookup key = o.values.lookup key) := by
  have hex : (∃ o ∈ outputs, key ∈ o.values) →
      ∃ o, IsBest outputs (Contests .preferRolePriority outputs key) o ∧
        (mergeRoleOutputs outputs .preferRolePriority).values.lookup key = o.values.lookup key := by
    rintro ⟨o, hmem, hkey⟩
    have hne : writes outputs key ≠ [] := List.ne_nil_of_mem (mem_writes.2 ⟨hmem, hkey⟩)
    cases howner : (register .preferRolePriority key (writes outputs key)).owner with
    | none =>
        exact absurd (Register.owner_eq_none.1 howner) hne
    | some best =>
        refine ⟨best, owner_isBest hdistinct howner, ?_⟩
        rw [lookup_mergeRoleOutputs, howner]
        rfl
  refine ⟨hex, ?_⟩
  rintro o ⟨hmem, hkey, hbest⟩ hcontests
  obtain ⟨best, hisBest, hvalue⟩ := hex ⟨o, hmem, hkey⟩
  have ho : IsBest outputs (Contests .preferRolePriority outputs key) o :=
    ⟨hmem, hcontests, fun o' hmem' hcontests' => hbest o' hmem' hcontests'.1⟩
  rw [hvalue, ho.unique hdistinct hisBest]

/-- An output that gives the key `"k"` a value. -/
def plainOutput (role : AgentRole) (step : UInt32) (value : String) : RoleOutput :=
  { role := role, step := step, values := (∅ : HashMap String String).insert "k" value }

/-- The reviewer repeats what the coder gave, the tester gives something else. -/
def repeatedValue : List RoleOutput :=
  [plainOutput .coder 0 "1", plainOutput .reviewer 1 "1", plainOutput .tester 2 "2"]

theorem repeatedValue_distinct : (repeatedValue.map RoleOutput.position).Nodup := by decide

theorem repeatedValue_mentions : ∃ o ∈ repeatedValue, "k" ∈ o.values :=
  ⟨plainOutput .coder 0 "1", List.mem_cons_self, by decide⟩

theorem merge_priority_decides_repeatedValue :
    (∃ o, IsBest repeatedValue (Contests .preferRolePriority repeatedValue "k") o ∧
      (mergeRoleOutputs repeatedValue .preferRolePriority).values.lookup "k" = o.values.lookup "k") ∧
    (mergeRoleOutputs repeatedValue .preferRolePriority).values.lookup "k" = some "2" :=
  ⟨(merge_priority_decides repeatedValue repeatedValue_distinct "k").1 repeatedValue_mentions, by decide⟩

/-- The reviewer has the best priority of all roles that mention the key, and the tester's value stands. -/
theorem not_best_of_all :
    ¬ ∀ outputs : List RoleOutput, (outputs.map RoleOutput.position).Nodup → ∀ key o,
      IsBest outputs (fun o => key ∈ o.values) o →
      (mergeRoleOutputs outputs .preferRolePriority).values.lookup key = o.values.lookup key := by
  intro h
  have hbest : IsBest repeatedValue (fun o => "k" ∈ o.values) (plainOutput .reviewer 1 "1") := by
    refine ⟨by simp [repeatedValue], by decide, ?_⟩
    intro o' hmem _
    simp only [repeatedValue, List.mem_cons, List.not_mem_nil, or_false] at hmem
    rcases hmem with rfl | rfl | rfl <;> decide
  have hvalue := h repeatedValue repeatedValue_distinct "k" _ hbest
  exact absurd hvalue (by decide)

/-! ## Order independence -/

theorem exists_conflict_iff :
    (∃ c ∈ (mergeRoleOutputs outputs strategy).conflicts, c.key = key) ↔
      ∃ o ∈ outputs, ∃ o' ∈ outputs, ∃ value value',
        o.values.lookup key = some value ∧ o'.values.lookup key = some value' ∧ value ≠ value' := by
  have hfilter : (∃ c ∈ (mergeRoleOutputs outputs strategy).conflicts, c.key = key) ↔
      ((mergeRoleOutputs outputs strategy).conflicts.filter fun c => c.key = key) ≠ [] := by
    simp [List.filter_eq_nil_iff]
  rw [hfilter, filter_conflicts_mergeRoleOutputs, Ne, List.map_eq_nil_iff]
  refine Register.disagreements_ne_nil.trans ?_
  constructor
  · rintro ⟨o, ho, o', ho', hne⟩
    obtain ⟨hmem, hkey⟩ := mem_writes.1 ho
    obtain ⟨hmem', hkey'⟩ := mem_writes.1 ho'
    obtain ⟨value, hvalue⟩ := Finmap.mem_iff.1 hkey
    obtain ⟨value', hvalue'⟩ := Finmap.mem_iff.1 hkey'
    refine ⟨o, hmem, o', hmem', value, value', hvalue, hvalue', ?_⟩
    rintro rfl
    exact hne (hvalue.trans hvalue'.symm)
  · rintro ⟨o, hmem, o', hmem', value, value', hvalue, hvalue', hne⟩
    refine ⟨o, mem_writes.2 ⟨hmem, Finmap.mem_iff.2 ⟨value, hvalue⟩⟩, o',
      mem_writes.2 ⟨hmem', Finmap.mem_iff.2 ⟨value', hvalue'⟩⟩, ?_⟩
    intro heq
    exact hne (Option.some.inj (hvalue.symm.trans (Eq.trans heq hvalue')))

theorem exists_lookup_of_merge {value : String}
    (h : (mergeRoleOutputs outputs strategy).values.lookup key = some value) :
    ∃ o ∈ outputs, o.values.lookup key = some value := by
  rw [lookup_mergeRoleOutputs] at h
  obtain ⟨o, howner, hvalue⟩ := Option.bind_eq_some_iff.1 h
  exact ⟨o, (mem_writes.1 (Register.owner_mem howner)).1, hvalue⟩

theorem mem_merge_iff :
    key ∈ (mergeRoleOutputs outputs strategy).values ↔ ∃ o ∈ outputs, key ∈ o.values := by
  constructor
  · intro h
    obtain ⟨value, hvalue⟩ := Finmap.mem_iff.1 h
    obtain ⟨o, hmem, ho⟩ := exists_lookup_of_merge hvalue
    exact ⟨o, hmem, Finmap.mem_iff.2 ⟨value, ho⟩⟩
  · rintro ⟨o, hmem, hkey⟩
    have hne : writes outputs key ≠ [] := List.ne_nil_of_mem (mem_writes.2 ⟨hmem, hkey⟩)
    cases howner : (register strategy key (writes outputs key)).owner with
    | none =>
        exact absurd (Register.owner_eq_none.1 howner) hne
    | some owner =>
        obtain ⟨value, hvalue⟩ :=
          Finmap.mem_iff.1 (mem_writes.1 (Register.owner_mem howner)).2
        refine Finmap.mem_iff.2 ⟨value, ?_⟩
        rw [lookup_mergeRoleOutputs, howner]
        exact hvalue

/-- Under `failOnConflict` the first output that mentions a key keeps it. -/
theorem lookup_merge_of_first (hdistinct : (outputs.map RoleOutput.position).Nodup) (hmem : o ∈ outputs)
    (hkey : key ∈ o.values)
    (hfirst : ∀ o' ∈ outputs, key ∈ o'.values → o.position ≤ o'.position) :
    (mergeRoleOutputs outputs .failOnConflict).values.lookup key = o.values.lookup key := by
  have hwrite : o ∈ writes outputs key := mem_writes.2 ⟨hmem, hkey⟩
  cases howner : (register .failOnConflict key (writes outputs key)).owner with
  | none =>
      exact absurd (Register.owner_eq_none.1 howner) (List.ne_nil_of_mem hwrite)
  | some owner =>
      obtain ⟨_, hbest⟩ := Register.owner_best (pairwise_writes hdistinct) howner
      obtain ⟨hownerMem, hownerKey⟩ := mem_writes.1 (Register.owner_mem howner)
      -- Nothing comes before the first output, so it contests the key.
      have hbefore : writes (outputsBefore outputs o) key = [] := by
        refine List.eq_nil_iff_forall_not_mem.2 ?_
        intro o' ho'
        obtain ⟨hlt, hkey'⟩ := mem_writes.1 ho'
        obtain ⟨hmem', hlt⟩ := List.mem_filter.1 hlt
        exact not_lt_of_ge (hfirst o' hmem' hkey') (of_decide_eq_true hlt)
      have hcontests : Contests .failOnConflict outputs key o := by
        obtain ⟨value, hvalue⟩ := Finmap.mem_iff.1 hkey
        refine ⟨hkey, ?_⟩
        rw [lookup_mergeRoleOutputs, hbefore, hvalue]
        exact fun h => by cases h
      have howns : o = owner := by
        rcases hbest o ((contesting_iff hdistinct).2 ⟨hmem, hcontests⟩) with rfl | hlt | ⟨_, hlt⟩
        · rfl
        · exact absurd hlt (lt_irrefl 0)
        · exact absurd hlt (not_lt_of_ge (hfirst owner hownerMem hownerKey))
      rw [lookup_mergeRoleOutputs, howner, howns]
      rfl

/-- The outcome does not depend on the order of the outputs; it holds exactly the keys that are
mentioned, each with a value that was given, and reports exactly the keys on which two outputs differ;
`failOnConflict` keeps the value given first. -/
theorem merge_order_independent (outputs : List RoleOutput)
    (hdistinct : (outputs.map RoleOutput.position).Nodup) (strategy : MergeConflictStrategy) :
    (∀ outputs', outputs.Perm outputs' →
      mergeRoleOutputs outputs' strategy = mergeRoleOutputs outputs strategy) ∧
    (∀ key, key ∈ (mergeRoleOutputs outputs strategy).values ↔ ∃ o ∈ outputs, key ∈ o.values) ∧
    (∀ key value, (mergeRoleOutputs outputs strategy).values.lookup key = some value →
      ∃ o ∈ outputs, o.values.lookup key = some value) ∧
    (∀ key, (∃ c ∈ (mergeRoleOutputs outputs strategy).conflicts, c.key = key) ↔
      ∃ o ∈ outputs, ∃ o' ∈ outputs, ∃ value value',
        o.values.lookup key = some value ∧ o'.values.lookup key = some value' ∧ value ≠ value') ∧
    (strategy = .failOnConflict → ∀ key, ∀ o ∈ outputs, key ∈ o.values →
      (∀ o' ∈ outputs, key ∈ o'.values → o.position ≤ o'.position) →
      (mergeRoleOutputs outputs strategy).values.lookup key = o.values.lookup key) := by
  refine ⟨?_, fun key => mem_merge_iff, fun key value h => exists_lookup_of_merge h,
    fun key => exists_conflict_iff, ?_⟩
  · intro outputs' hperm
    rw [mergeRoleOutputs, mergeRoleOutputs, sortBy_eq_of_perm hperm hdistinct]
  · rintro rfl key o hmem hkey hfirst
    exact lookup_merge_of_first hdistinct hmem hkey hfirst

theorem merge_order_independent_repeatedValue :
    mergeRoleOutputs repeatedValue.reverse .preferRolePriority =
      mergeRoleOutputs repeatedValue .preferRolePriority ∧
    (mergeRoleOutputs repeatedValue .failOnConflict).values.lookup "k" = some "1" := by
  have hfirst : ∀ o' ∈ repeatedValue, "k" ∈ o'.values →
      (plainOutput .coder 0 "1").position ≤ o'.position := by
    intro o' hmem _
    simp only [repeatedValue, List.mem_cons, List.not_mem_nil, or_false] at hmem
    rcases hmem with rfl | rfl | rfl <;> decide
  have hmerge := merge_order_independent repeatedValue repeatedValue_distinct
  refine ⟨(hmerge _).1 _ (List.reverse_perm _).symm, ?_⟩
  calc (mergeRoleOutputs repeatedValue .failOnConflict).values.lookup "k"
      = (plainOutput .coder 0 "1").values.lookup "k" :=
        (hmerge _).2.2.2.2 rfl "k" _ List.mem_cons_self (by decide) hfirst
    _ = some "1" := by decide

end Orchestration
end Aivcs
