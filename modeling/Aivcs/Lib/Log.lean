import Mathlib.Data.List.Basic
import Mathlib.Data.List.DropRight
import Aivcs.Lib.Interleaving

/-!
# Log — the calls of an interleaving in the order they were made

`Logged exec c₀ log c` says that the programs of `c₀` got to `c` by making the calls of `log`, each
with the answer the store gave.  What a program alone does is said with `Proc.Obeys Sends Returns`: by
its history, the calls it has made and their answers, every further call is one it may send and every
result one it may return.  `Logged.obeys` combines the two, so that a property of a run is an induction
over its log and never looks inside a program again.

A program that reads and then writes on what it has read is right as long as nobody comes between the
two.  That is a condition on the order of the calls: a log is `Undisturbed` if no call in it follows one
of another program that conflicts with it and that came after the caller's own last call.  What a program
has read then still holds when it goes on (`Undisturbed.holds`).
-/

namespace Aivcs
namespace Lib

variable {Op : Type} {Ans : Op → Type} {α β σ ι : Type}

/-- The calls a program has made, with their answers, oldest first. -/
abbrev History (Op : Type) (Ans : Op → Type) : Type := List ((op : Op) × Ans op)

namespace Proc

variable (Sends : History Op Ans → Op → Prop)

/-- After the history `h`, every call of the program and every result of it is as specified, whatever
the answers are. -/
def Obeys (Returns : History Op Ans → α → Prop) : Proc Op Ans α → History Op Ans → Prop
  | .ret a, h => Returns h a
  | .call op next, h => Sends h op ∧ ∀ r, Obeys Returns (next r) (h ++ [⟨op, r⟩])

variable {Sends}

theorem Obeys.bind {Returns : History Op Ans → β → Prop} {p : Proc Op Ans α}
    {f : α → Proc Op Ans β} {h : History Op Ans}
    (hp : Obeys Sends (fun h a => Obeys Sends Returns (f a) h) p h) :
    Obeys Sends Returns (p.bind f) h := by
  induction p generalizing h with
  | ret a =>
      exact hp
  | call op next ih =>
      exact ⟨hp.1, fun r => ih r (hp.2 r)⟩

theorem Obeys.andThen {ε : Type} {Returns : History Op Ans → Except ε β → Prop}
    {p : Proc Op Ans (Except ε α)} {f : α → Proc Op Ans (Except ε β)} {h : History Op Ans}
    (hp : Obeys Sends (fun h r =>
      match r with
      | .error e => Returns h (.error e)
      | .ok a => Obeys Sends Returns (f a) h) p h) :
    Obeys Sends Returns (p.andThen f) h := by
  induction p generalizing h with
  | ret r =>
      cases r with
      | error e =>
          exact hp
      | ok a =>
          exact hp
  | call op next ih =>
      exact ⟨hp.1, fun r => ih r (hp.2 r)⟩

theorem Obeys.mono {Returns Returns' : History Op Ans → α → Prop}
    (hreturns : ∀ h a, Returns h a → Returns' h a) {p : Proc Op Ans α} {h : History Op Ans}
    (hp : Obeys Sends Returns p h) : Obeys Sends Returns' p h := by
  induction p generalizing h with
  | ret a =>
      exact hreturns h a hp
  | call op next ih =>
      exact ⟨hp.1, fun r => ih r (hp.2 r)⟩

/-- What holds of every call and every result holds whatever the history is. -/
theorem Calls.obeys {P : Op → Prop} {Returns : History Op Ans → α → Prop} {p : Proc Op Ans α}
    (hp : p.Calls P) (hsends : ∀ h op, P op → Sends h op) (hreturns : ∀ h a, Returns h a)
    (h : History Op Ans) : Obeys Sends Returns p h := by
  induction p generalizing h with
  | ret a =>
      exact hreturns h a
  | call op next ih =>
      exact ⟨hsends h op hp.1, fun r => ih r (hp.2 r) _⟩

end Proc

namespace Interleaving

/-- One call of one program, with its answer. -/
structure Entry (Op : Type) (Ans : Op → Type) (ι : Type) where
  who : ι
  op : Op
  ans : Ans op

variable [DecidableEq ι]

/-- The part of a log that is the history of one program. -/
def historyOf (log : List (Entry Op Ans ι)) (i : ι) : History Op Ans :=
  (log.filter fun e => e.who = i).map fun e => ⟨e.op, e.ans⟩

theorem mem_historyOf {log : List (Entry Op Ans ι)} {i : ι} {op : Op} {ans : Ans op} :
    ⟨op, ans⟩ ∈ historyOf log i ↔ ⟨i, op, ans⟩ ∈ log := by
  unfold historyOf
  rw [List.mem_map]
  constructor
  · rintro ⟨⟨who, op', ans'⟩, he, heq⟩
    rcases List.mem_filter.1 he with ⟨hmem, hwho⟩
    obtain rfl : who = i := by simpa using hwho
    cases heq
    exact hmem
  · intro h
    exact ⟨⟨i, op, ans⟩, List.mem_filter.2 ⟨h, by simp⟩, rfl⟩

theorem historyOf_append_self (log : List (Entry Op Ans ι)) (i : ι) (op : Op) (ans : Ans op) :
    historyOf (log ++ [⟨i, op, ans⟩]) i = historyOf log i ++ [⟨op, ans⟩] := by
  simp [historyOf, List.filter_append]

theorem historyOf_append_of_ne (log : List (Entry Op Ans ι)) {i j : ι} (hij : i ≠ j) (op : Op)
    (ans : Ans op) : historyOf (log ++ [⟨i, op, ans⟩]) j = historyOf log j := by
  simp [historyOf, List.filter_append, hij]

variable (exec : (op : Op) → σ → Ans op × σ)

/-- The programs of `c₀` have made the calls of the log, one after the other. -/
inductive Logged (c₀ : Config Op Ans α σ ι) : List (Entry Op Ans ι) → Config Op Ans α σ ι → Prop
  | start : Logged c₀ [] c₀
  | call {log : List (Entry Op Ans ι)} {c : Config Op Ans α σ ι} (h : Logged c₀ log c) (i : ι)
      (op : Op) (next : Ans op → Proc Op Ans α) (hcall : c.procs i = .call op next) :
      Logged c₀ (log ++ [⟨i, op, (exec op c.store).1⟩]) (c.fire exec i)

variable {exec} {c₀ c : Config Op Ans α σ ι} {ok : σ → Op → Prop}

/-- Every run has a log. -/
theorem Steps.exists_log (h : Steps exec ok c₀ c) : ∃ log, Logged exec c₀ log c := by
  induction h with
  | refl =>
      exact ⟨[], .start⟩
  | tail _ hstep ih =>
      rcases ih with ⟨log, hlog⟩
      cases hstep with
      | fire i op next hcall hok =>
          exact ⟨_, hlog.call i op next hcall⟩

/-- The calls the programs make in the order of a schedule. -/
def Config.logOf (exec : (op : Op) → σ → Ans op × σ) :
    Config Op Ans α σ ι → List ι → List (Entry Op Ans ι)
  | _, [] => []
  | c, i :: schedule =>
      match c.procs i with
      | .ret _ => logOf exec c schedule
      | .call op _ => ⟨i, op, (exec op c.store).1⟩ :: logOf exec (c.fire exec i) schedule

theorem Logged.fireAll {log : List (Entry Op Ans ι)} (h : Logged exec c₀ log c)
    (schedule : List ι) :
    Logged exec c₀ (log ++ c.logOf exec schedule) (c.fireAll exec schedule) := by
  induction schedule generalizing log c with
  | nil =>
      rw [Config.logOf, List.append_nil]
      exact h
  | cons i schedule ih =>
      have hfire : c.fireAll exec (i :: schedule) = (c.fire exec i).fireAll exec schedule := rfl
      rw [hfire, Config.logOf]
      cases hcall : c.procs i with
      | ret a =>
          have hsame : c.fire exec i = c := by simp [Config.fire, hcall]
          rw [hsame]
          exact ih h
      | call op next =>
          have hrest := ih (h.call i op next hcall)
          rwa [List.append_assoc, List.singleton_append] at hrest

/-- An entry of a log is a call that was about to be made at the end of the log before it. -/
theorem Logged.of_getElem? {log : List (Entry Op Ans ι)} (h : Logged exec c₀ log c) {n : Nat}
    {i : ι} {op : Op} {ans : Ans op} (hn : log[n]? = some ⟨i, op, ans⟩) :
    ∃ c' next, Logged exec c₀ (log.take n) c' ∧ c'.procs i = .call op next ∧
      ans = (exec op c'.store).1 := by
  induction h with
  | start =>
      simp at hn
  | @call log c h j op' next hcall ih =>
      rcases Nat.lt_trichotomy n log.length with hlt | rfl | hgt
      · rw [List.getElem?_append_left hlt] at hn
        rw [List.take_append_of_le_length (Nat.le_of_lt hlt)]
        exact ih hn
      · rw [List.getElem?_concat_length, Option.some.injEq] at hn
        cases hn
        refine ⟨c, next, ?_, hcall, rfl⟩
        rwa [List.take_left]
      · rw [List.getElem?_eq_none (by simp; omega)] at hn
        cases hn

/-- Programs that obey their specifications alone obey them in every run. -/
theorem Logged.obeys {Sends : ι → History Op Ans → Op → Prop}
    {Returns : ι → History Op Ans → α → Prop} {log : List (Entry Op Ans ι)}
    (h : Logged exec c₀ log c) (h₀ : ∀ i, (c₀.procs i).Obeys (Sends i) (Returns i) []) (i : ι) :
    (c.procs i).Obeys (Sends i) (Returns i) (historyOf log i) := by
  induction h with
  | start =>
      exact h₀ i
  | call h j op next hcall ih =>
      rw [Config.fire_of_call hcall]
      by_cases hji : j = i
      · subst hji
        rw [hcall] at ih
        rw [historyOf_append_self]
        simpa using ih.2 _
      · rw [historyOf_append_of_ne _ hji]
        simpa [Function.update_of_ne (Ne.symm hji)] using ih

/-- Every entry of a log was one its program may send. -/
theorem Logged.sends {Sends : ι → History Op Ans → Op → Prop}
    {Returns : ι → History Op Ans → α → Prop} {log : List (Entry Op Ans ι)}
    (h : Logged exec c₀ log c) (h₀ : ∀ i, (c₀.procs i).Obeys (Sends i) (Returns i) []) {n : Nat}
    {i : ι} {op : Op} {ans : Ans op} (hn : log[n]? = some ⟨i, op, ans⟩) :
    Sends i (historyOf (log.take n) i) op := by
  rcases h.of_getElem? hn with ⟨c', next, hlog, hcall, -⟩
  have hobeys := hlog.obeys h₀ i
  rw [hcall] at hobeys
  exact hobeys.1

/-! ## Reading before writing -/

section Reading

/-- The calls of the others since the last call of a program. -/
def since (log : List (Entry Op Ans ι)) (i : ι) : List (Entry Op Ans ι) :=
  log.rtakeWhile fun e => e.who ≠ i

/-- No call comes after one of another program that conflicts with it and that was made since the last
call of its own program. -/
def Undisturbed (conflicts : Op → Op → Prop) (log : List (Entry Op Ans ι)) : Prop :=
  ∀ n, ∀ h : n < log.length,
    ∀ other ∈ since (log.take n) (log.get ⟨n, h⟩).who, ¬ conflicts (log.get ⟨n, h⟩).op other.op

instance (conflicts : Op → Op → Prop) [∀ op other, Decidable (conflicts op other)]
    (log : List (Entry Op Ans ι)) : Decidable (Undisturbed conflicts log) :=
  inferInstanceAs (Decidable (∀ n, ∀ h : n < log.length,
    ∀ other ∈ since (log.take n) (log.get ⟨n, h⟩).who, ¬ conflicts (log.get ⟨n, h⟩).op other.op))

/-- What a program has found with its last call holds, unless a call that breaks it was made since. -/
def Kept (breaks : Op → Prop) (fact : σ → Prop) (log : List (Entry Op Ans ι)) (i : ι) (s : σ) : Prop :=
  (∀ e ∈ since log i, ¬ breaks e.op) → fact s

variable {conflicts : Op → Op → Prop} {breaks : Op → Prop} {fact : σ → Prop}
  {log more : List (Entry Op Ans ι)} {e : Entry Op Ans ι} {i : ι} {s s' : σ}

theorem since_append_of_ne (hne : e.who ≠ i) : since (log ++ [e]) i = since log i ++ [e] :=
  List.rtakeWhile_concat_pos _ _ _ (decide_eq_true hne)

theorem Undisturbed.left (h : Undisturbed conflicts (log ++ more)) : Undisturbed conflicts log := by
  intro n hn other hother
  have hlt : n < (log ++ more).length := Nat.lt_of_lt_of_le hn (by simp)
  have hget : (log ++ more).get ⟨n, hlt⟩ = log.get ⟨n, hn⟩ := List.getElem_append_left hn
  have hall := h n hlt other
  rw [hget, List.take_append_of_le_length hn.le] at hall
  exact hall hother

theorem Undisturbed.last (h : Undisturbed conflicts (log ++ [e])) :
    ∀ other ∈ since log e.who, ¬ conflicts e.op other.op := by
  have hlt : log.length < (log ++ [e]).length := by simp
  have hget : (log ++ [e]).get ⟨log.length, hlt⟩ = e := by simp
  have hlast := h log.length hlt
  rw [hget, List.take_left] at hlast
  exact hlast

/-- A call of another program breaks the fact or leaves it. -/
theorem Kept.other (h : Kept breaks fact log i s) (hne : e.who ≠ i)
    (hkeep : ¬ breaks e.op → fact s → fact s') : Kept breaks fact (log ++ [e]) i s' := by
  intro hnone
  rw [since_append_of_ne hne] at hnone
  obtain ⟨hlog, hlast⟩ := List.forall_mem_append.1 hnone
  exact hkeep (hlast e (List.mem_singleton.2 rfl)) (h hlog)

/-- A call in an undisturbed log finds what its program has read. -/
theorem Undisturbed.holds (hlog : Undisturbed conflicts (log ++ [e]))
    (h : Kept (conflicts e.op) fact log e.who s) : fact s :=
  h hlog.last

end Reading

end Interleaving
end Lib
end Aivcs
