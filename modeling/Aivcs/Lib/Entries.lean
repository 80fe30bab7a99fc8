import Aivcs.Lib.Hash

/-!
# Entries — walking the entries of a map

A walk over a map hands out every key with its value, once, in the order of an `Iteration`.

* `foldl_entries` — what one key sees of a loop over the entries: the step for its own entry, or none;
* `lookup_eraseAll` — what is left after the keys of a list are removed.
-/

namespace Aivcs
namespace Lib
namespace HashMap

variable {K V : Type}

/-- A loop over the entries of other keys leaves a key's part of the state alone. -/
theorem view_foldl_of_notMem {S T : Type} {step : S → K × V → S} {view : S → T} {k : K}
    (hother : ∀ s k' v, k' ≠ k → view (step s (k', v)) = view s)
    {l : List (K × V)} (h : ∀ x ∈ l, x.1 ≠ k) (s : S) : view (l.foldl step s) = view s := by
  induction l generalizing s with
  | nil =>
      rfl
  | cons x l ih =>
      rw [List.forall_mem_cons] at h
      rw [List.foldl_cons, ih h.2, hother s x.1 x.2 h.1]

variable [DecidableEq K]

def entries (it : Iteration K) (m : HashMap K V) : List (K × V) :=
  (it.list m.keys).filterMap fun k => (m.lookup k).map fun v => (k, v)

section Entries

variable {it : Iteration K} {m : HashMap K V} {k : K} {v : V}

@[simp] theorem mem_entries : (k, v) ∈ m.entries it ↔ m.lookup k = some v := by
  simp only [entries, List.mem_filterMap, Iteration.mem_list, Finmap.mem_keys, Option.map_eq_some_iff,
    Prod.mk.injEq]
  constructor
  · rintro ⟨k', _, v', hv', rfl, rfl⟩
    exact hv'
  · intro h
    exact ⟨k, Finmap.mem_iff.2 ⟨v, h⟩, v, h, rfl, rfl⟩

theorem map_fst_entries : (m.entries it).map Prod.fst = it.list m.keys := by
  have hall : ∀ l : List K, (∀ k ∈ l, k ∈ m) →
      (l.filterMap fun k => (m.lookup k).map fun v => (k, v)).map Prod.fst = l := by
    intro l hl
    induction l with
    | nil =>
        rfl
    | cons k l ih =>
        obtain ⟨v, hv⟩ := Finmap.mem_iff.1 (hl k List.mem_cons_self)
        rw [List.filterMap_cons, hv, Option.map_some, List.map_cons,
          ih fun k' hk' => hl k' (List.mem_cons_of_mem k hk')]
  exact hall _ fun k hk => Finmap.mem_keys.1 ((it.mem_list _ _).1 hk)

theorem nodup_entries : ((m.entries it).map Prod.fst).Nodup := by
  rw [map_fst_entries]
  exact it.nodup _

theorem length_entries : (m.entries it).length = m.keys.card := by
  rw [← List.length_map Prod.fst, map_fst_entries, ← List.toFinset_card_of_nodup (it.nodup _)]
  congr 1
  ext k
  rw [List.mem_toFinset, it.mem_list]

theorem entries_of_notMem (h : m.lookup k = none) : ∀ x ∈ m.entries it, x.1 ≠ k := by
  rintro ⟨k', v⟩ hx rfl
  rw [mem_entries.1 hx] at h
  cases h

/-- The entry of a key, and the entries of the other keys around it. -/
theorem entries_split (it : Iteration K) (h : m.lookup k = some v) :
    ∃ pre post, m.entries it = pre ++ (k, v) :: post ∧ (∀ x ∈ pre, x.1 ≠ k) ∧ ∀ x ∈ post, x.1 ≠ k := by
  have hmem : (k, v) ∈ m.entries it := mem_entries.2 h
  obtain ⟨pre, post, hsplit⟩ := List.append_of_mem hmem
  have hnodup : ((m.entries it).map Prod.fst).Nodup := nodup_entries
  rw [hsplit, List.map_append, List.map_cons, List.nodup_append, List.nodup_cons] at hnodup
  obtain ⟨_, ⟨hpost, _⟩, hpre⟩ := hnodup
  refine ⟨pre, post, hsplit, ?_, ?_⟩
  · intro x hx
    exact hpre x.1 (List.mem_map_of_mem hx) k List.mem_cons_self
  · intro x hx heq
    have hmem' : x.1 ∈ post.map Prod.fst := List.mem_map_of_mem hx
    exact hpost (heq ▸ hmem')

end Entries

section View

variable {S T : Type} {step : S → K × V → S} (view : S → T) {k : K} (slot : V → T → T)

/-- A loop whose steps concern one key each changes a key's part of the state once, if the key is there. -/
theorem foldl_entries (hself : ∀ s v, view (step s (k, v)) = slot v (view s))
    (hother : ∀ s k' v, k' ≠ k → view (step s (k', v)) = view s) (it : Iteration K)
    (m : HashMap K V) (s : S) :
    view ((m.entries it).foldl step s) = (m.lookup k).elim (view s) fun v => slot v (view s) := by
  cases hv : m.lookup k with
  | none =>
      exact view_foldl_of_notMem hother (entries_of_notMem hv) s
  | some v =>
      obtain ⟨pre, post, hsplit, hpre, hpost⟩ := entries_split it hv
      rw [hsplit, List.foldl_append, List.foldl_cons, view_foldl_of_notMem hother hpost, hself,
        view_foldl_of_notMem hother hpre]
      rfl

end View

/-! ## Maps of a list of entries -/

theorem keys_ofList (l : List (K × V)) : (ofList l).keys = (l.map Prod.fst).toFinset := by
  ext k
  rw [Finmap.mem_keys, mem_ofList, List.mem_toFinset]

/-- No entry is lost exactly when the keys are distinct. -/
theorem card_keys_ofList (l : List (K × V)) :
    (ofList l).keys.card = l.length ↔ (l.map Prod.fst).Nodup := by
  rw [keys_ofList, ← List.length_map Prod.fst]
  exact Multiset.toFinset_card_eq_card_iff_nodup

/-! ## Removing keys -/

def eraseAll (m : HashMap K V) (ks : List K) : HashMap K V :=
  ks.foldl (fun m k => m.erase k) m

theorem lookup_eraseAll (m : HashMap K V) (ks : List K) (k : K) :
    (m.eraseAll ks).lookup k = if k ∈ ks then none else m.lookup k := by
  induction ks generalizing m with
  | nil =>
      rfl
  | cons a ks ih =>
      have hstep : eraseAll m (a :: ks) = eraseAll (m.erase a) ks := rfl
      rw [hstep, ih]
      by_cases hk : k ∈ ks
      · rw [if_pos hk, if_pos (List.mem_cons_of_mem a hk)]
      · by_cases ha : k = a
        · subst ha
          rw [if_neg hk, if_pos List.mem_cons_self, Finmap.lookup_erase]
        · have hnot : k ∉ a :: ks := fun h => (List.mem_cons.1 h).elim ha hk
          rw [if_neg hk, if_neg hnot, Finmap.lookup_erase_ne ha]

theorem keys_eraseAll (m : HashMap K V) (ks : List K) :
    (m.eraseAll ks).keys = m.keys.filter fun k => k ∉ ks := by
  ext k
  rw [Finmap.mem_keys, Finset.mem_filter, Finmap.mem_keys, Finmap.mem_iff, Finmap.mem_iff,
    lookup_eraseAll]
  by_cases hk : k ∈ ks <;> simp [hk]

theorem eraseAll_append (m : HashMap K V) (ks ks' : List K) :
    m.eraseAll (ks ++ ks') = eraseAll (m.eraseAll ks) ks' :=
  List.foldl_append

/-- The keys are there, each of them once. -/
structure Removable (m : HashMap K V) (ks : List K) : Prop where
  nodup : ks.Nodup
  mem : ∀ k ∈ ks, k ∈ m

theorem mem_eraseAll {m : HashMap K V} {ks : List K} {k : K} : k ∈ m.eraseAll ks ↔ k ∈ m ∧ k ∉ ks := by
  rw [← Finmap.mem_keys, keys_eraseAll, Finset.mem_filter, Finmap.mem_keys]

/-- Removing some keys and then some of the others. -/
theorem Removable.append {m : HashMap K V} {ks ks' : List K} (h : m.Removable ks)
    (h' : Removable (m.eraseAll ks) ks') : m.Removable (ks ++ ks') where
  nodup := by
    refine List.nodup_append.2 ⟨h.nodup, h'.nodup, ?_⟩
    rintro k hk k' hk' rfl
    exact (mem_eraseAll.1 (h'.mem k hk')).2 hk
  mem k hk := by
    rcases List.mem_append.1 hk with hk | hk
    · exact h.mem k hk
    · exact (mem_eraseAll.1 (h'.mem k hk)).1

/-- Every key that is removed makes the map one smaller. -/
theorem Removable.card {m : HashMap K V} {ks : List K} (h : m.Removable ks) :
    ks.length + (m.eraseAll ks).keys.card = m.keys.card := by
  have hremoved : m.keys.filter (fun k => k ∈ ks) = ks.toFinset := by
    ext k
    rw [Finset.mem_filter, Finmap.mem_keys, List.mem_toFinset]
    exact ⟨fun hk => hk.2, fun hk => ⟨h.mem k hk, hk⟩⟩
  have hcard := Finset.card_filter_add_card_filter_not (s := m.keys) fun k => k ∈ ks
  rw [hremoved, List.toFinset_card_of_nodup h.nodup] at hcard
  rw [keys_eraseAll]
  exact hcard

/-! ## Groups of a list -/

section Group

variable (key : V → K)

/-- `entry(key(v)).or_default().push(v)`, for every value of the list. -/
def groupBy (l : List V) : HashMap K (List V) :=
  l.foldl (fun m v => m.upsert (key v) [] (· ++ [v])) ∅

variable {key} {l : List V} {k : K}

/-- The values of a key, in the order they came. -/
theorem lookup_groupBy :
    (groupBy key l).lookup k =
      if l.filter (fun v => key v = k) = [] then none else some (l.filter fun v => key v = k) := by
  induction l using List.reverseRecOn with
  | nil =>
      rfl
  | append_singleton l v ih =>
      rw [groupBy, List.foldl_append, List.foldl_cons, List.foldl_nil, lookup_upsert, List.filter_append]
      by_cases hk : k = key v
      · subst hk
        rw [if_pos rfl]
        change some ((((groupBy key l).lookup (key v)).getD []) ++ [v]) = _
        rw [ih]
        split
        · next hnil =>
          simp [hnil]
        · simp
      · have hnot : [v].filter (fun v => key v = k) = [] := by simp [Ne.symm hk]
        rw [if_neg hk, hnot, List.append_nil]
        exact ih

/-- The values of a group are those of its key. -/
theorem key_of_mem_group {it : Iteration K} {x : K × List V} (hx : x ∈ (groupBy key l).entries it) {v : V}
    (hv : v ∈ x.2) : key v = x.1 := by
  obtain ⟨k, g⟩ := x
  have hg := mem_entries.1 hx
  rw [lookup_groupBy] at hg
  split at hg
  · cases hg
  · cases hg
    exact of_decide_eq_true (List.mem_filter.1 hv).2

/-- Of one key there is, among the values taken from every group, what is taken from its own. -/
theorem filter_flatMap_groupBy (it : Iteration K) {f : List V → List V}
    (hf : ∀ g, ∀ v ∈ f g, v ∈ g) :
    (((groupBy key l).entries it).flatMap fun x => f x.2).filter (fun v => key v = k) =
      f (l.filter fun v => key v = k) := by
  have hkey : ∀ x ∈ (groupBy key l).entries it, ∀ v ∈ f x.2, key v = x.1 := fun x hx v hv =>
    key_of_mem_group hx (hf _ v hv)
  have hother {xs : List (K × List V)} (hmem : xs ⊆ (groupBy key l).entries it)
      (hne : ∀ x ∈ xs, x.1 ≠ k) :
      (xs.flatMap fun x => f x.2).filter (fun v => key v = k) = [] := by
    refine List.filter_eq_nil_iff.2 ?_
    intro v hv hvk
    obtain ⟨x, hx, hvx⟩ := List.mem_flatMap.1 hv
    exact hne x hx ((hkey x (hmem hx) v hvx).symm.trans (of_decide_eq_true hvk))
  by_cases hnil : l.filter (fun v => key v = k) = []
  · have hnone : (groupBy key l).lookup k = none := by
      rw [lookup_groupBy, if_pos hnil]
    have hempty : f [] = [] := List.eq_nil_iff_forall_not_mem.2 fun v hv =>
      absurd (hf [] v hv) List.not_mem_nil
    rw [hnil, hempty]
    exact hother (List.Subset.refl _) (entries_of_notMem hnone)
  · have hgroup : (groupBy key l).lookup k = some (l.filter fun v => key v = k) := by
      rw [lookup_groupBy, if_neg hnil]
    obtain ⟨pre, post, hsplit, hpre, hpost⟩ := entries_split it hgroup
    have hself : (f (l.filter fun v => key v = k)).filter (fun v => key v = k) =
        f (l.filter fun v => key v = k) :=
      List.filter_eq_self.2 fun v hv => decide_eq_true (hkey _ (mem_entries.2 hgroup) v hv)
    have hpresub : pre ⊆ (groupBy key l).entries it := hsplit ▸ List.subset_append_left _ _
    have hpostsub : post ⊆ (groupBy key l).entries it :=
      hsplit ▸ List.subset_append_of_subset_right _ (List.subset_cons_self _ _)
    rw [hsplit, List.flatMap_append, List.flatMap_cons, List.filter_append, List.filter_append,
      hother hpresub hpre, hself, hother hpostsub hpost, List.nil_append, List.append_nil]

variable (key) in
/-- Lists that agree key by key are permutations of each other. -/
theorem perm_of_filter_perm {l' : List V}
    (h : ∀ k, (l.filter fun v => key v = k).Perm (l'.filter fun v => key v = k)) : l.Perm l' := by
  classical
  rw [List.perm_iff_count]
  intro v
  have hcount := (h (key v)).count_eq v
  rw [List.count_filter (by simp), List.count_filter (by simp)] at hcount
  exact hcount

variable (key) in
/-- When no key has two of them, the elements have distinct keys. -/
theorem nodup_map_of_filter (h : ∀ k, (l.filter fun v => key v = k).length ≤ 1) : (l.map key).Nodup := by
  rw [List.nodup_iff_count_le_one]
  intro k
  calc (l.map key).count k
      = l.countP fun v => key v = k := by
        rw [List.count, List.countP_map]
        rfl
    _ = (l.filter fun v => key v = k).length := List.countP_eq_length_filter
    _ ≤ 1 := h k

/-- The groups together are the list. -/
theorem flatMap_groupBy_perm (it : Iteration K) :
    (((groupBy key l).entries it).flatMap fun x => x.2).Perm l := by
  refine perm_of_filter_perm key ?_
  intro k
  exact List.Perm.of_eq (filter_flatMap_groupBy it (f := fun g => g) fun g v hv => hv)

end Group

end HashMap
end Lib
end Aivcs
