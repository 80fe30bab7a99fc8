import Aivcs.Lib.Digraph

/-!
# QueueSearch — collecting what a start reaches, up to a limit

The walk with a queue over vertices of which some are stored: a stored vertex hands out its record and
marks its successors, a vertex that is not stored is passed over, and the walk stops at the limit.

* `collect_spec` — the walk finishes on any graph, cyclic or not; it collects stored vertices that the
  start reaches, none of them twice, and all of them where the limit is no less than what is stored.
-/

namespace Aivcs
namespace Lib
namespace Digraph

open Relation

variable {V R : Type}

/-- An edge out of a stored vertex; `node` is the record of a vertex and its successors. -/
def StoredSucc (node : V → Option (R × List V)) (v w : V) : Prop :=
  ∃ r ws, node v = some (r, ws) ∧ w ∈ ws

def collect [DecidableEq V] (node : V → Option (R × List V)) (limit : Nat) :
    Nat → List R → Finset V → List V → Option (List R)
  | 0, _, _, _ => none
  | _ + 1, history, _, [] => some history
  | fuel + 1, history, visited, v :: queue =>
      if limit ≤ history.length then some history
      else
        match node v with
        | none => collect node limit fuel history visited queue
        | some (r, ws) =>
            let (visited, fresh) := discover visited ws
            collect node limit fuel (history ++ [r]) visited (queue ++ fresh)

variable (node : V → Option (R × List V)) (start : V)

/-- What holds between two rounds; `done` are the vertices whose records were collected. -/
structure CollectInv (done : List V) (history : List R) (visited : Finset V) (queue : List V) : Prop where
  records : history.map some = done.map fun v => (node v).map Prod.fst
  nodup : (done ++ queue).Nodup
  mem_visited : ∀ v ∈ done ++ queue, v ∈ visited
  sound : ∀ v ∈ visited, ReflTransGen (StoredSucc node) start v
  start_mem : start ∈ visited
  pending : ∀ v ∈ visited, v ∈ done ∨ v ∈ queue ∨ node v = none
  closed : ∀ v ∈ done, ∀ r ws, node v = some (r, ws) → ∀ w ∈ ws, w ∈ visited

/-- What a finished walk has collected. -/
structure Collected (limit : Nat) (done : List V) (history : List R) : Prop where
  records : history.map some = done.map fun v => (node v).map Prod.fst
  nodup : done.Nodup
  sound : ∀ v ∈ done, ReflTransGen (StoredSucc node) start v
  length_le : history.length ≤ limit
  complete : history.length < limit →
    ∀ v, ReflTransGen (StoredSucc node) start v → node v ≠ none → v ∈ done

variable {node start} {done : List V} {history : List R} {visited : Finset V} {queue : List V} {v : V}
  {limit : Nat}

theorem CollectInv.init : CollectInv node start [] [] {start} [start] where
  records := rfl
  nodup := List.nodup_singleton start
  mem_visited v hv := Finset.mem_singleton.2 (List.mem_singleton.1 hv)
  sound v hv := by
    rw [Finset.mem_singleton.1 hv]
  start_mem := Finset.mem_singleton_self start
  pending v hv := Or.inr (Or.inl (List.mem_singleton.2 (Finset.mem_singleton.1 hv)))
  closed v hv := absurd hv List.not_mem_nil

/-- Passing over a vertex that is not stored. -/
theorem CollectInv.skip (h : CollectInv node start done history visited (v :: queue))
    (hnone : node v = none) : CollectInv node start done history visited queue where
  records := h.records
  nodup := h.nodup.sublist ((List.sublist_cons_self v queue).append_left done)
  mem_visited w hw := h.mem_visited w (((List.sublist_cons_self v queue).append_left done).subset hw)
  sound := h.sound
  start_mem := h.start_mem
  pending w hw := by
    rcases h.pending w hw with hdone | hqueue | hw
    · exact Or.inl hdone
    · rcases List.mem_cons.1 hqueue with rfl | hqueue
      · exact Or.inr (Or.inr hnone)
      · exact Or.inr (Or.inl hqueue)
    · exact Or.inr (Or.inr hw)
  closed := h.closed

/-- When the queue is empty, everything stored that the start reaches was collected. -/
theorem CollectInv.complete (h : CollectInv node start done history visited [])
    (hreach : ReflTransGen (StoredSucc node) start v) (hstored : node v ≠ none) : v ∈ done := by
  have hdone {v : V} (hv : v ∈ visited) (hstored : node v ≠ none) : v ∈ done := by
    rcases h.pending v hv with hdone | hqueue | hnone
    · exact hdone
    · exact absurd hqueue List.not_mem_nil
    · exact absurd hnone hstored
  -- along the walk: the start was visited, and with a stored vertex its successors were
  have hvisited {v : V} (hreach : ReflTransGen (StoredSucc node) start v) : v ∈ visited := by
    induction hreach with
    | refl =>
        exact h.start_mem
    | tail _ hedge ih =>
        obtain ⟨r, ws, hnode, hw⟩ := hedge
        have hne : node _ ≠ none := fun hnone => by
          rw [hnode] at hnone
          cases hnone
        exact h.closed _ (hdone ih hne) r ws hnode _ hw
  exact hdone (hvisited hreach) hstored

variable [DecidableEq V] {U : Finset V}

theorem nodup_discover (visited : Finset V) (ws : List V) : (discover visited ws).2.Nodup := by
  induction ws generalizing visited with
  | nil =>
      exact List.nodup_nil
  | cons u ws ih =>
      by_cases hu : u ∈ visited
      · simp only [discover, if_pos hu]
        exact ih visited
      · simp only [discover, if_neg hu, List.nodup_cons]
        refine ⟨?_, ih _⟩
        intro hmem
        exact ((mem_discover_snd _ _ u).1 hmem).1 (Finset.mem_insert_self u visited)

/-- Collecting a stored vertex. -/
theorem CollectInv.step (h : CollectInv node start done history visited (v :: queue)) {r : R}
    {ws : List V} (hnode : node v = some (r, ws)) :
    CollectInv node start (done ++ [v]) (history ++ [r]) (discover visited ws).1
      (queue ++ (discover visited ws).2) where
  records := by
    rw [List.map_append, List.map_append, h.records, List.map_singleton, List.map_singleton, hnode]
    rfl
  nodup := by
    -- what is queued now was not visited before, and what was collected or queued before was
    have hold : ((done ++ [v]) ++ queue).Nodup := by
      rw [List.append_assoc]
      exact h.nodup
    rw [← List.append_assoc, List.nodup_append]
    refine ⟨hold, nodup_discover visited ws, ?_⟩
    rintro w hw w' hw' rfl
    have hmem : w ∈ done ++ v :: queue := by
      rw [List.append_assoc] at hw
      exact hw
    exact ((mem_discover_snd _ _ w).1 hw').1 (h.mem_visited w hmem)
  mem_visited w hw := by
    rw [mem_discover_fst]
    rw [← List.append_assoc, List.append_assoc done, List.mem_append] at hw
    rcases hw with hw | hw
    · exact Or.inl (h.mem_visited w hw)
    · exact Or.inr ((mem_discover_snd _ _ w).1 hw).2
  sound w hw := by
    rcases (mem_discover_fst _ _ w).1 hw with hw | hw
    · exact h.sound w hw
    · exact (h.sound v (h.mem_visited v (List.mem_append_right _ List.mem_cons_self))).tail
        ⟨r, ws, hnode, hw⟩
  start_mem := (mem_discover_fst _ _ start).2 (Or.inl h.start_mem)
  pending w hw := by
    -- a vertex marked in this round is queued in this round
    by_cases hold : w ∈ visited
    · rcases h.pending w hold with hdone | hqueue | hnone
      · exact Or.inl (List.mem_append_left _ hdone)
      · rcases List.mem_cons.1 hqueue with rfl | hqueue
        · exact Or.inl (List.mem_append_right _ List.mem_cons_self)
        · exact Or.inr (Or.inl (List.mem_append_left _ hqueue))
      · exact Or.inr (Or.inr hnone)
    · have hws := ((mem_discover_fst _ _ w).1 hw).resolve_left hold
      exact Or.inr (Or.inl (List.mem_append_right _ ((mem_discover_snd _ _ w).2 ⟨hold, hws⟩)))
  closed u hu r' ws' hnode' w hw := by
    rw [mem_discover_fst]
    rcases List.mem_append.1 hu with hu | hu
    · exact Or.inl (h.closed u hu r' ws' hnode' w hw)
    · rw [List.mem_singleton.1 hu, hnode] at hnode'
      cases hnode'
      exact Or.inr hw

/-- The rounds are counted by the vertices that are queued or not visited yet. -/
theorem CollectInv.run (hU : ∀ v r ws, node v = some (r, ws) → ∀ w ∈ ws, w ∈ U) (fuel : Nat)
    (h : CollectInv node start done history visited queue) (hlimit : history.length ≤ limit)
    (hfuel : queue.length + (U \ visited).card < fuel) :
    ∃ done' history', collect node limit fuel history visited queue = some history' ∧
      Collected node start limit done' history' := by
  induction fuel generalizing done history visited queue with
  | zero =>
      exact absurd hfuel (Nat.not_lt_zero _)
  | succ fuel ih =>
      have hdone : ∀ v ∈ done, ReflTransGen (StoredSucc node) start v := fun v hv =>
        h.sound v (h.mem_visited v (List.mem_append_left _ hv))
      have hnodup : done.Nodup := h.nodup.sublist (List.sublist_append_left _ _)
      cases queue with
      | nil =>
          exact ⟨done, history, rfl, h.records, hnodup, hdone, hlimit, fun _ _ => h.complete⟩
      | cons v queue =>
          by_cases hfull : limit ≤ history.length
          · refine ⟨done, history, if_pos hfull, h.records, hnodup, hdone, hlimit, ?_⟩
            exact fun hlt => absurd hfull (Nat.not_le.2 hlt)
          · cases hnode : node v with
            | none =>
                have hless : queue.length + (U \ visited).card < fuel := by
                  rw [List.length_cons] at hfuel
                  omega
                have heq : collect node limit (fuel + 1) history visited (v :: queue) =
                    collect node limit fuel history visited queue := by
                  simp only [collect, if_neg hfull, hnode]
                rw [heq]
                exact ih (h.skip hnode) hlimit hless
            | some record =>
                obtain ⟨r, ws⟩ := record
                have hcard := card_discover visited ws (hU v r ws hnode)
                have hless : (queue ++ (discover visited ws).2).length +
                    (U \ (discover visited ws).1).card < fuel := by
                  rw [List.length_append]
                  rw [List.length_cons] at hfuel
                  omega
                have hlimit' : (history ++ [r]).length ≤ limit := by
                  rw [List.length_append, List.length_singleton]
                  exact Nat.not_le.1 hfull
                have heq : collect node limit (fuel + 1) history visited (v :: queue) =
                    collect node limit fuel (history ++ [r]) (discover visited ws).1
                      (queue ++ (discover visited ws).2) := by
                  simp only [collect, if_neg hfull, hnode]
                rw [heq]
                exact ih (h.step hnode) hlimit' hless

/-- Where the limit is no less than the number of stored vertices, nothing is cut off. -/
theorem Collected.complete_of_le (h : Collected node start limit done history) {S : Finset V}
    (hS : ∀ v, node v ≠ none → v ∈ S) (hlimit : S.card ≤ limit)
    (hreach : ReflTransGen (StoredSucc node) start v) (hstored : node v ≠ none) : v ∈ done := by
  by_cases hlt : history.length < limit
  · exact h.complete hlt v hreach hstored
  -- as many as are stored were collected, so all of them were
  have hlength : history.length = done.length := by
    have hmap := congrArg List.length h.records
    rwa [List.length_map, List.length_map] at hmap
  have hsub : done.toFinset ⊆ S := by
    intro w hw
    obtain ⟨r, _, hr⟩ := List.mem_map.1 (h.records ▸ List.mem_map_of_mem (List.mem_toFinset.1 hw))
    refine hS w fun hnone => ?_
    rw [hnone] at hr
    cases hr
  have hcard : S.card ≤ done.toFinset.card := by
    rw [List.toFinset_card_of_nodup h.nodup, ← hlength]
    exact hlimit.trans (Nat.not_lt.1 hlt)
  exact List.mem_toFinset.1 (Finset.eq_of_subset_of_card_le hsub hcard ▸ hS v hstored)

variable (node start) in
theorem collect_spec (hU : ∀ v r ws, node v = some (r, ws) → ∀ w ∈ ws, w ∈ U) (limit : Nat) {fuel : Nat}
    (hfuel : U.card + 1 < fuel) :
    ∃ done history, collect node limit fuel [] {start} [start] = some history ∧
      Collected node start limit done history := by
  refine CollectInv.init.run hU fuel (Nat.zero_le _) ?_
  have hcard : (U \ {start}).card ≤ U.card := Finset.card_le_card Finset.sdiff_subset
  rw [List.length_singleton]
  omega

end Digraph
end Lib
end Aivcs
