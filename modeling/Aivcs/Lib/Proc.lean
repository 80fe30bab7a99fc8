import Mathlib.Logic.Function.Basic

/-!
# Proc — programs that talk to a store, one call at a time

A request handler is a program whose only effects are calls on a store.  `Proc Op Ans α` is the
tree of such a program: it has finished with a value, or it waits for the answer to one call.

The same tree has two readings here, and `Lib.Interleaving` adds that of many programs on one store:

* `Proc.run` — the program alone on a store, every call answered by `exec`;
* `Proc.runFaulty` — the same, but a call may fail, executed or not.

A program that starts tasks of its own and waits for all of them is `Proc.par schedule tasks`; the
schedule says whose call comes next.

`CallsWhile A P Q p` says what `p` does as long as its answers meet `A`, and `Remains A p q` that `q` is left
of `p` after such answers.  `Wp R Q p s` says that from store `s`, with `R`-steps of others in between, every call of `p` is itself
an `R`-step and every result satisfies `Q`.
-/

namespace Aivcs
namespace Lib

inductive Proc (Op : Type) (Ans : Op → Type) (α : Type) : Type where
  | ret (a : α)
  | call (op : Op) (next : Ans op → Proc Op Ans α)

namespace Proc

variable {Op : Type} {Ans : Op → Type} {α β σ : Type}

/-! ## The monad of programs -/

def bind : Proc Op Ans α → (α → Proc Op Ans β) → Proc Op Ans β
  | .ret a, f => f a
  | .call op next, f => .call op (fun r => bind (next r) f)

instance : Monad (Proc Op Ans) where
  pure := .ret
  bind := bind

/-- The program that makes one call and returns its answer. -/
def perform (op : Op) : Proc Op Ans (Ans op) :=
  .call op .ret

@[simp] theorem pure_eq (a : α) : (pure a : Proc Op Ans α) = .ret a := rfl

@[simp] theorem bind_eq (p : Proc Op Ans α) (f : α → Proc Op Ans β) : (p >>= f) = p.bind f := rfl

@[simp] theorem bind_ret (a : α) (f : α → Proc Op Ans β) : (ret a).bind f = f a := rfl

@[simp] theorem bind_perform (op : Op) (f : Ans op → Proc Op Ans β) :
    (perform op).bind f = .call op f := rfl

/-- Go on with the value of a program that may fail, or return its error. -/
def andThen {ε : Type} (p : Proc Op Ans (Except ε α)) (f : α → Proc Op Ans (Except ε β)) :
    Proc Op Ans (Except ε β) :=
  p.bind fun
    | .error e => .ret (.error e)
    | .ok a => f a

section AndThen

variable {ε : Type} (f : α → Proc Op Ans (Except ε β))

@[simp] theorem andThen_ret_ok (a : α) : (ret (.ok a)).andThen f = f a := rfl

@[simp] theorem andThen_ret_error (e : ε) : (ret (.error e)).andThen f = ret (.error e) := rfl

@[simp] theorem andThen_call (op : Op) (next : Ans op → Proc Op Ans (Except ε α)) :
    (call op next).andThen f = call op fun r => (next r).andThen f := rfl

theorem andThen_assoc {γ : Type} (p : Proc Op Ans (Except ε α)) (g : β → Proc Op Ans (Except ε γ)) :
    (p.andThen f).andThen g = p.andThen fun a => (f a).andThen g := by
  induction p with
  | ret r =>
      cases r <;> rfl
  | call op next ih =>
      rw [andThen_call, andThen_call, andThen_call]
      exact congrArg (call op) (funext ih)

end AndThen

/-! ## Running alone -/

section Run

variable (exec : (op : Op) → σ → Ans op × σ)

/-- Run a program to its end on a store that answers every call. -/
def run : Proc Op Ans α → σ → α × σ
  | .ret a, s => (a, s)
  | .call op next, s => run (next (exec op s).1) (exec op s).2

@[simp] theorem run_ret (a : α) (s : σ) : run exec (.ret a : Proc Op Ans α) s = (a, s) := rfl

@[simp] theorem run_call (op : Op) (next : Ans op → Proc Op Ans α) (s : σ) :
    run exec (.call op next) s = run exec (next (exec op s).1) (exec op s).2 := rfl

@[simp] theorem run_bind (p : Proc Op Ans α) (f : α → Proc Op Ans β) (s : σ) :
    run exec (p.bind f) s = run exec (f (run exec p s).1) (run exec p s).2 := by
  induction p generalizing s with
  | ret a =>
      rfl
  | call op next ih =>
      exact ih _ _

theorem run_andThen_ok {ε : Type} {p : Proc Op Ans (Except ε α)}
    {f : α → Proc Op Ans (Except ε β)} {s s' : σ} {a : α} (h : run exec p s = (.ok a, s')) :
    run exec (p.andThen f) s = run exec (f a) s' := by
  rw [andThen, run_bind, h]

theorem run_andThen_error {ε : Type} {p : Proc Op Ans (Except ε α)}
    {f : α → Proc Op Ans (Except ε β)} {s s' : σ} {e : ε} (h : run exec p s = (.error e, s')) :
    run exec (p.andThen f) s = (.error e, s') := by
  rw [andThen, run_bind, h, run_ret]

/-- A program that leaves the store alone, followed by programs that do. -/
theorem run_andThen_snd_eq {ε : Type} {p : Proc Op Ans (Except ε α)}
    {f : α → Proc Op Ans (Except ε β)} {s : σ} (hp : (run exec p s).2 = s)
    (hf : ∀ a, (run exec (f a) s).2 = s) : (run exec (p.andThen f) s).2 = s := by
  rw [andThen, run_bind, hp]
  cases (run exec p s).1 with
  | error e =>
      rfl
  | ok a =>
      exact hf a

theorem run_andThen_ret {ε : Type} (p : Proc Op Ans (Except ε α)) (g : α → β) (s : σ) :
    run exec (p.andThen fun a => .ret (.ok (g a))) s =
      ((run exec p s).1.map g, (run exec p s).2) := by
  rw [andThen, run_bind]
  cases (run exec p s).1 <;> rfl

/-- The result of a program that has finished. -/
def result? : Proc Op Ans α → Option α
  | .ret a => some a
  | .call _ _ => none

theorem eq_ret_of_result? {p : Proc Op Ans α} {a : α} (h : p.result? = some a) : p = .ret a := by
  cases p with
  | ret b =>
      rw [Option.some.inj h]
  | call op next =>
      cases h

/-- What becomes of one call on an unreliable store. -/
inductive Delivery
  /-- executed and answered -/
  | answered
  /-- not executed -/
  | refused
  /-- executed, but the answer did not arrive -/
  | lost
  deriving DecidableEq

/-- Run a program on an unreliable store: `fate n` is what becomes of its `n`-th call, and a call
that is not answered fails with `fail op`. -/
def runFaulty (fail : (op : Op) → Ans op) : (Nat → Delivery) → Proc Op Ans α → σ → α × σ
  | _, .ret a, s => (a, s)
  | fate, .call op next, s =>
      match fate 0 with
      | .answered => runFaulty fail (fun n => fate (n + 1)) (next (exec op s).1) (exec op s).2
      | .refused => runFaulty fail (fun n => fate (n + 1)) (next (fail op)) s
      -- The effect is there, the program sees a failure.
      | .lost => runFaulty fail (fun n => fate (n + 1)) (next (fail op)) (exec op s).2

/-- A call that fails ends the program with an error. -/
def FailsFast {ε : Type} (fail : (op : Op) → Ans op) : Proc Op Ans (Except ε α) → Prop
  | .ret _ => True
  | .call op next => (∃ e, next (fail op) = .ret (.error e)) ∧ ∀ a, FailsFast fail (next a)

theorem FailsFast.andThen {ε : Type} {fail : (op : Op) → Ans op} {p : Proc Op Ans (Except ε α)}
    {f : α → Proc Op Ans (Except ε β)} (hp : p.FailsFast fail) (hf : ∀ a, (f a).FailsFast fail) :
    (p.andThen f).FailsFast fail := by
  induction p with
  | ret r =>
      cases r with
      | error e =>
          trivial
      | ok a =>
          exact hf a
  | call op next ih =>
      rcases hp with ⟨⟨e, he⟩, hnext⟩
      refine ⟨⟨e, ?_⟩, fun a => ih a (hnext a)⟩
      show (next (fail op)).andThen f = .ret (.error e)
      rw [he, andThen_ret_error]

/-- Such a program reports success only when every call was answered. -/
theorem run_of_runFaulty_ok {ε : Type} {fail : (op : Op) → Ans op}
    {p : Proc Op Ans (Except ε α)} (hp : p.FailsFast fail) {fate : Nat → Delivery} {s s' : σ} {a : α}
    (h : p.runFaulty exec fail fate s = (.ok a, s')) : p.run exec s = (.ok a, s') := by
  induction p generalizing fate s with
  | ret r =>
      exact h
  | call op next ih =>
      rcases hp with ⟨⟨e, he⟩, hnext⟩
      have hfailed : ∀ (fate : Nat → Delivery) (t : σ),
          runFaulty exec fail fate (next (fail op)) t ≠ (.ok a, s') := by
        intro fate t hok
        rw [he] at hok
        cases hok
      cases hfate : fate 0 with
      | answered =>
          simp only [runFaulty, hfate] at h
          exact ih _ (hnext _) h
      | refused =>
          simp only [runFaulty, hfate] at h
          exact absurd h (hfailed _ _)
      | lost =>
          simp only [runFaulty, hfate] at h
          exact absurd h (hfailed _ _)

/-- The stores before, between and after the calls of a run. -/
def stores : Proc Op Ans α → σ → List σ
  | .ret _, s => [s]
  | .call op next, s => s :: stores (next (exec op s).1) (exec op s).2

/-- A program that an unanswered call ends leaves one of the stores of its run. -/
theorem runFaulty_mem_stores {ε : Type} {fail : (op : Op) → Ans op} {p : Proc Op Ans (Except ε α)}
    (hp : p.FailsFast fail) (fate : Nat → Delivery) (s : σ) :
    (p.runFaulty exec fail fate s).2 ∈ p.stores exec s := by
  induction p generalizing fate s with
  | ret r =>
      exact List.mem_singleton_self _
  | call op next ih =>
      rcases hp with ⟨⟨e, he⟩, hnext⟩
      have hfirst : ∀ r t, t ∈ stores exec (next r) t := by
        intro r t
        cases next r with
        | ret _ => exact List.mem_singleton_self _
        | call _ _ => exact List.mem_cons_self
      cases hfate : fate 0 with
      | answered =>
          simp only [runFaulty, hfate]
          exact List.mem_cons_of_mem _ (ih _ (hnext _) _ _)
      | refused =>
          simp only [runFaulty, hfate, he]
          exact List.mem_cons_self
      | lost =>
          simp only [runFaulty, hfate, he]
          exact List.mem_cons_of_mem _ (hfirst _ _)

/-- The stores of a program that goes on with the value of another. -/
theorem mem_stores_andThen {ε : Type} {p : Proc Op Ans (Except ε α)}
    {f : α → Proc Op Ans (Except ε β)} {s s' t : σ} {a : α} (h : run exec p s = (.ok a, s'))
    (ht : t ∈ stores exec (p.andThen f) s) : t ∈ stores exec p s ∨ t ∈ stores exec (f a) s' := by
  induction p generalizing s with
  | ret r =>
      cases h
      exact Or.inr ht
  | call op next ih =>
      rcases List.mem_cons.1 ht with rfl | ht
      · exact Or.inl List.mem_cons_self
      · exact (ih _ h ht).imp_left (List.mem_cons_of_mem _)

/-- A program whose calls leave the store alone. -/
def Reads : Proc Op Ans α → Prop
  | .ret _ => True
  | .call op next => (∀ s, (exec op s).2 = s) ∧ ∀ a, Reads (next a)

theorem Reads.andThen {ε : Type} {exec : (op : Op) → σ → Ans op × σ} {p : Proc Op Ans (Except ε α)}
    {f : α → Proc Op Ans (Except ε β)} (hp : p.Reads exec) (hf : ∀ a, (f a).Reads exec) :
    (p.andThen f).Reads exec := by
  induction p with
  | ret r =>
      cases r with
      | error e => trivial
      | ok a => exact hf a
  | call op next ih =>
      exact ⟨hp.1, fun a => ih a (hp.2 a)⟩

theorem Reads.stores_eq {exec : (op : Op) → σ → Ans op × σ} {p : Proc Op Ans α} (hp : p.Reads exec)
    {s t : σ} (ht : t ∈ p.stores exec s) : t = s := by
  induction p generalizing s with
  | ret a =>
      exact List.mem_singleton.1 ht
  | call op next ih =>
      rcases List.mem_cons.1 ht with rfl | ht
      · rfl
      · exact (ih _ (hp.2 _) ht).trans (hp.1 s)

end Run

/-! ## Traces -/

/-- `Traces p tr a`: the program makes exactly the calls of `tr`, is given their answers and returns
`a`.  Nothing is said about where the answers come from. -/
inductive Traces : Proc Op Ans α → List ((op : Op) × Ans op) → α → Prop
  | ret (a : α) : Traces (.ret a) [] a
  | call (op : Op) (next : Ans op → Proc Op Ans α) (r : Ans op) {tr : List ((op : Op) × Ans op)}
      {a : α} (h : Traces (next r) tr a) : Traces (.call op next) (⟨op, r⟩ :: tr) a

namespace Traces

variable {tr : List ((op : Op) × Ans op)}

theorem of_ret {a b : α} (h : Traces (.ret a : Proc Op Ans α) tr b) : tr = [] ∧ b = a := by
  cases h
  exact ⟨rfl, rfl⟩

theorem of_call {op : Op} {next : Ans op → Proc Op Ans α} {a : α}
    (h : Traces (.call op next) tr a) : ∃ r tr', tr = ⟨op, r⟩ :: tr' ∧ Traces (next r) tr' a := by
  cases h with
  | call _ _ r h =>
      exact ⟨r, _, rfl, h⟩

theorem ret_iff {a b : α} : Traces (.ret a : Proc Op Ans α) tr b ↔ tr = [] ∧ b = a := by
  constructor
  · exact of_ret
  · rintro ⟨rfl, rfl⟩
    exact .ret _

theorem call_iff {op : Op} {next : Ans op → Proc Op Ans α} {a : α} :
    Traces (.call op next) tr a ↔ ∃ r tr', tr = ⟨op, r⟩ :: tr' ∧ Traces (next r) tr' a := by
  constructor
  · exact of_call
  · rintro ⟨r, tr', rfl, h⟩
    exact .call op next r h

theorem of_perform {op : Op} {r : Ans op} (h : Traces (perform op) tr r) : tr = [⟨op, r⟩] := by
  obtain ⟨r', tr', rfl, hret⟩ := of_call h
  obtain ⟨rfl, rfl⟩ := of_ret hret
  rfl

theorem of_bind {p : Proc Op Ans α} {f : α → Proc Op Ans β} {b : β}
    (h : Traces (p.bind f) tr b) :
    ∃ tr₁ a tr₂, tr = tr₁ ++ tr₂ ∧ Traces p tr₁ a ∧ Traces (f a) tr₂ b := by
  induction p generalizing tr with
  | ret a =>
      exact ⟨[], a, tr, rfl, .ret a, h⟩
  | call op next ih =>
      obtain ⟨r, tr', rfl, h'⟩ := of_call h
      obtain ⟨tr₁, a, tr₂, rfl, h₁, h₂⟩ := ih r h'
      exact ⟨⟨op, r⟩ :: tr₁, a, tr₂, rfl, .call op next r h₁, h₂⟩

/-- A program that may fail, followed by another: it has failed, or the other one has gone on. -/
theorem of_andThen {ε : Type} {p : Proc Op Ans (Except ε α)} {f : α → Proc Op Ans (Except ε β)}
    {b : Except ε β} (h : Traces (p.andThen f) tr b) :
    (∃ e, b = .error e ∧ Traces p tr (.error e)) ∨
      ∃ tr₁ a tr₂, tr = tr₁ ++ tr₂ ∧ Traces p tr₁ (.ok a) ∧ Traces (f a) tr₂ b := by
  obtain ⟨tr₁, r, tr₂, rfl, h₁, h₂⟩ := of_bind h
  cases r with
  | error e =>
      obtain ⟨rfl, rfl⟩ := of_ret h₂
      exact Or.inl ⟨e, rfl, (List.append_nil tr₁).symm ▸ h₁⟩
  | ok a =>
      exact Or.inr ⟨tr₁, a, tr₂, rfl, h₁, h₂⟩

theorem of_andThen_ok {ε : Type} {p : Proc Op Ans (Except ε α)} {f : α → Proc Op Ans (Except ε β)} {b : β}
    (h : Traces (p.andThen f) tr (.ok b)) :
    ∃ tr₁ a tr₂, tr = tr₁ ++ tr₂ ∧ Traces p tr₁ (.ok a) ∧ Traces (f a) tr₂ (.ok b) := by
  rcases of_andThen h with ⟨e, heq, -⟩ | hboth
  · cases heq
  · exact hboth

end Traces

/-- The trace of a run. -/
def traceOf (exec : (op : Op) → σ → Ans op × σ) : Proc Op Ans α → σ → List ((op : Op) × Ans op)
  | .ret _, _ => []
  | .call op next, s => ⟨op, (exec op s).1⟩ :: traceOf exec (next (exec op s).1) (exec op s).2

theorem traces_traceOf (exec : (op : Op) → σ → Ans op × σ) (p : Proc Op Ans α) (s : σ) :
    Traces p (traceOf exec p s) (run exec p s).1 := by
  induction p generalizing s with
  | ret a =>
      exact .ret a
  | call op next ih =>
      exact .call op next _ (ih _ _)

/-! ## Tasks of one program -/

/-- Run the tasks one after the other. -/
def sequence : List (Proc Op Ans α) → Proc Op Ans (List α)
  | [] => .ret []
  | p :: ps => p.bind fun a => (sequence ps).bind fun as => .ret (a :: as)

/-- Run the tasks concurrently: each number of the schedule lets that task make its next call (if it
has one); what is left at the end of the schedule runs in order.  Every interleaving of the calls of
the tasks is that of some schedule. -/
def par : List Nat → List (Proc Op Ans α) → Proc Op Ans (List α)
  | [], ps => sequence ps
  | i :: schedule, ps =>
      match ps[i]? with
      -- A number without a task, or of a task that has finished, is a turn nobody takes.
      | some (.call op next) => .call op fun r => par schedule (ps.set i (next r))
      | _ => par schedule ps

/-! ## What a program may call -/

/-- Every call the program can make, whatever it is answered, satisfies `P`. -/
def Calls (P : Op → Prop) : Proc Op Ans α → Prop
  | .ret _ => True
  | .call op next => P op ∧ ∀ r, (next r).Calls P

section Calls

variable {P : Op → Prop}

theorem Calls.bind {p : Proc Op Ans α} {f : α → Proc Op Ans β} (hp : p.Calls P)
    (hf : ∀ a, (f a).Calls P) : (p.bind f).Calls P := by
  induction p with
  | ret a =>
      exact hf a
  | call op next ih =>
      exact ⟨hp.1, fun r => ih r (hp.2 r)⟩

theorem Calls.andThen {ε : Type} {p : Proc Op Ans (Except ε α)} {f : α → Proc Op Ans (Except ε β)}
    (hp : p.Calls P) (hf : ∀ a, (f a).Calls P) : (p.andThen f).Calls P := by
  refine hp.bind fun r => ?_
  cases r with
  | error e =>
      trivial
  | ok a =>
      exact hf a

theorem Calls.mono {P' : Op → Prop} {p : Proc Op Ans α} (hp : p.Calls P)
    (h : ∀ op, P op → P' op) : p.Calls P' := by
  induction p with
  | ret a =>
      trivial
  | call op next ih =>
      exact ⟨h op hp.1, fun r => ih r (hp.2 r)⟩

/-- Every call of a trace is one the program can make. -/
theorem Calls.of_mem_trace {p : Proc Op Ans α} (hp : p.Calls P) {tr : List ((op : Op) × Ans op)}
    {a : α} (h : Traces p tr a) {op : Op} {r : Ans op} (hmem : ⟨op, r⟩ ∈ tr) : P op := by
  induction h with
  | ret a =>
      cases hmem
  | call op next r h ih =>
      rcases List.mem_cons.1 hmem with heq | hmem
      · cases heq
        exact hp.1
      · exact ih (hp.2 r) hmem

theorem Calls.sequence {ps : List (Proc Op Ans α)} (h : ∀ p ∈ ps, p.Calls P) :
    (sequence ps).Calls P := by
  induction ps with
  | nil =>
      trivial
  | cons p ps ih =>
      refine (h p (by simp)).bind fun a => ?_
      exact (ih fun q hq => h q (by simp [hq])).bind fun _ => trivial

theorem Calls.par {schedule : List Nat} {ps : List (Proc Op Ans α)} (h : ∀ p ∈ ps, p.Calls P) :
    (par schedule ps).Calls P := by
  induction schedule generalizing ps with
  | nil =>
      exact Calls.sequence h
  | cons i schedule ih =>
      unfold Proc.par
      split
      · rename_i op next hi
        have hcall := h _ (List.mem_of_getElem? hi)
        refine ⟨hcall.1, fun r => ih ?_⟩
        intro q hq
        rcases List.mem_or_eq_of_mem_set hq with hq | rfl
        · exact h q hq
        · exact hcall.2 r
      · exact ih h

end Calls

/-! ## Answers that are ruled out -/

section Answers

/-- As long as every answer meets `A`, every call of the program satisfies `P` and its result `Q`. -/
def CallsWhile (A : (op : Op) → Ans op → Prop) (P : Op → Prop) (Q : α → Prop) : Proc Op Ans α → Prop
  | .ret a => Q a
  | .call op next => P op ∧ ∀ r, A op r → (next r).CallsWhile A P Q

/-- What is left of a program after calls whose answers have met `A`. -/
inductive Remains (A : (op : Op) → Ans op → Prop) (p : Proc Op Ans α) : Proc Op Ans α → Prop
  | start : Remains A p p
  | call {op : Op} {next : Ans op → Proc Op Ans α} {r : Ans op} (h : Remains A p (.call op next))
      (hr : A op r) : Remains A p (next r)

variable {A : (op : Op) → Ans op → Prop} {P : Op → Prop}

theorem Calls.callsWhile {p : Proc Op Ans α} (h : p.Calls P) : p.CallsWhile A P fun _ => True := by
  induction p with
  | ret a =>
      trivial
  | call op next ih =>
      exact ⟨h.1, fun r _ => ih r (h.2 r)⟩

theorem CallsWhile.bind {Q : α → Prop} {Q' : β → Prop} {p : Proc Op Ans α} {f : α → Proc Op Ans β}
    (hp : p.CallsWhile A P Q) (hf : ∀ a, Q a → (f a).CallsWhile A P Q') : (p.bind f).CallsWhile A P Q' := by
  induction p with
  | ret a =>
      exact hf a hp
  | call op next ih =>
      exact ⟨hp.1, fun r hr => ih r (hp.2 r hr)⟩

theorem CallsWhile.remains {Q : α → Prop} {p q : Proc Op Ans α} (h : p.CallsWhile A P Q)
    (hq : Remains A p q) : q.CallsWhile A P Q := by
  induction hq with
  | start =>
      exact h
  | call _ hr ih =>
      exact ih.2 _ hr

end Answers

/-! ## Weakest preconditions under interference -/

section Wp

variable (exec : (op : Op) → σ → Ans op × σ) (ok : σ → Op → Prop)

/-- Every call of the program that meets `ok` is an `R`-step, whatever `R`-steps others take in
between, and every result satisfies `Q` in the store it is returned in. -/
def Wp (R : σ → σ → Prop) (Q : α → σ → Prop) : Proc Op Ans α → σ → Prop
  | .ret a, s => Q a s
  | .call op next, s =>
      ok s op →
        R s (exec op s).2 ∧ ∀ s', R (exec op s).2 s' → Wp R Q (next (exec op s).1) s'

variable {exec ok} {R : σ → σ → Prop}

theorem Wp.mono {Q Q' : α → σ → Prop} (hQ : ∀ a s, Q a s → Q' a s) {p : Proc Op Ans α} {s : σ}
    (h : Wp exec ok R Q p s) : Wp exec ok R Q' p s := by
  induction p generalizing s with
  | ret a =>
      exact hQ a s h
  | call op next ih =>
      intro hok
      rcases h hok with ⟨hR, hnext⟩
      exact ⟨hR, fun s' hs' => ih _ (hnext s' hs')⟩

/-- Sequencing: the first program may end in any store from which the second is correct. -/
theorem Wp.bind {Q : β → σ → Prop} {p : Proc Op Ans α} {f : α → Proc Op Ans β} {s : σ}
    (h : Wp exec ok R (fun a s' => Wp exec ok R Q (f a) s') p s) :
    Wp exec ok R Q (p.bind f) s := by
  induction p generalizing s with
  | ret a =>
      exact h
  | call op next ih =>
      intro hok
      rcases h hok with ⟨hR, hnext⟩
      exact ⟨hR, fun s' hs' => ih _ (hnext s' hs')⟩

/-- Going on with the value of a program that may fail. -/
theorem Wp.andThen {ε : Type} {P : Except ε α → σ → Prop} {Q : Except ε β → σ → Prop}
    {p : Proc Op Ans (Except ε α)} {f : α → Proc Op Ans (Except ε β)} {s : σ}
    (hp : Wp exec ok R P p s) (herror : ∀ e s', P (.error e) s' → Q (.error e) s')
    (hnext : ∀ a s', P (.ok a) s' → Wp exec ok R Q (f a) s') : Wp exec ok R Q (p.andThen f) s := by
  refine Wp.bind (hp.mono fun r s' hP => ?_)
  cases r with
  | error e =>
      exact herror e s' hP
  | ok a =>
      exact hnext a s' hP

/-- A program that only makes calls which are `R`-steps wherever they are allowed. -/
theorem Calls.wp {P : Op → Prop} (hP : ∀ op s, P op → ok s op → R s (exec op s).2)
    {p : Proc Op Ans α} (h : p.Calls P) (s : σ) : Wp exec ok R (fun _ _ => True) p s := by
  induction p generalizing s with
  | ret a =>
      trivial
  | call op next ih =>
      intro hok
      exact ⟨hP op s h.1 hok, fun s' _ => ih _ (h.2 _) s'⟩

/-- The answers of a store with `I` meet `A`, and `R`-steps keep `I`. -/
theorem CallsWhile.wp {A : (op : Op) → Ans op → Prop} {P : Op → Prop} {I : σ → Prop} {Q : α → Prop}
    (hA : ∀ op s, I s → A op (exec op s).1) (hP : ∀ op s, P op → ok s op → R s (exec op s).2)
    (hI : ∀ s s', I s → R s s' → I s') {p : Proc Op Ans α} (h : p.CallsWhile A P Q) {s : σ} (hs : I s) :
    Wp exec ok R (fun a _ => Q a) p s := by
  induction p generalizing s with
  | ret a =>
      exact h
  | call op next ih =>
      intro hok
      have hstep := hP op s h.1 hok
      exact ⟨hstep, fun s' hs' => ih _ (h.2 _ (hA op s hs)) (hI _ _ (hI _ _ hs hstep) hs')⟩

section Preorder

variable (hrefl : ∀ s, R s s) (htrans : ∀ {a b c}, R a b → R b c → R a c)
include hrefl htrans

/-- The store a program ends in has evolved from the one it started in. -/
theorem Wp.evolves {Q : α → σ → Prop} {p : Proc Op Ans α} {s : σ} (h : Wp exec ok R Q p s) :
    Wp exec ok R (fun a s' => R s s' ∧ Q a s') p s := by
  induction p generalizing s with
  | ret a =>
      exact ⟨hrefl s, h⟩
  | call op next ih =>
      intro hok
      rcases h hok with ⟨hR, hnext⟩
      refine ⟨hR, fun s' hs' => (ih _ (hnext s' hs')).mono ?_⟩
      rintro a s'' ⟨hR', hQ⟩
      exact ⟨htrans hR (htrans hs' hR'), hQ⟩

/-- Tasks in sequence, each correct from every store the others may bring about. -/
theorem Wp.sequence {Q : Nat → α → σ → Prop} (hstable : ∀ i a s s', Q i a s → R s s' → Q i a s')
    {ps : List (Proc Op Ans α)} {s : σ}
    (h : ∀ i p, ps[i]? = some p → ∀ s', R s s' → Wp exec ok R (Q i) p s') :
    Wp exec ok R (fun as s' => as.length = ps.length ∧ ∀ i a, as[i]? = some a → Q i a s')
      (sequence ps) s := by
  induction ps generalizing s Q with
  | nil =>
      refine ⟨rfl, ?_⟩
      intro i a ha
      simp at ha
  | cons p ps ih =>
      -- The first task from the current store, the others from wherever it ends.
      refine Wp.bind (Wp.mono ?_ (Wp.evolves hrefl htrans (h 0 p rfl s (hrefl s))))
      rintro a s₁ ⟨hR₁, hQ₁⟩
      have hrest := ih (Q := fun i => Q (i + 1)) (fun i => hstable (i + 1)) (s := s₁)
        (fun i q hq s' hs' => h (i + 1) q hq s' (htrans hR₁ hs'))
      refine Wp.bind (Wp.mono ?_ (Wp.evolves hrefl htrans hrest))
      rintro as s₂ ⟨hR₂, hlen, hQ₂⟩
      refine ⟨by simp [hlen], ?_⟩
      intro i b hb
      cases i with
      | zero =>
          obtain rfl : a = b := by simpa using hb
          exact hstable 0 a s₁ s₂ hQ₁ hR₂
      | succ i =>
          exact hQ₂ i b (by simpa using hb)

/-- Tasks run concurrently: the same, for every schedule. -/
theorem Wp.par {Q : Nat → α → σ → Prop} (hstable : ∀ i a s s', Q i a s → R s s' → Q i a s')
    {schedule : List Nat} {ps : List (Proc Op Ans α)} {s : σ}
    (h : ∀ i p, ps[i]? = some p → ∀ s', R s s' → Wp exec ok R (Q i) p s') :
    Wp exec ok R (fun as s' => as.length = ps.length ∧ ∀ i a, as[i]? = some a → Q i a s')
      (par schedule ps) s := by
  -- On the schedule; the tasks and the store change at each turn.
  induction schedule generalizing ps s with
  | nil =>
      exact Wp.sequence hrefl htrans hstable h
  | cons i schedule ih =>
      unfold Proc.par
      split
      · rename_i op next hi
        intro hok
        rcases h i _ hi s (hrefl s) hok with ⟨hR, hnext⟩
        refine ⟨hR, fun s' hs' => ?_⟩
        have hlen : (ps.set i (next (exec op s).1)).length = ps.length := List.length_set
        rw [← hlen]
        refine ih ?_
        intro j q hq s'' hs''
        by_cases hj : i = j
        · -- The task that made the call goes on from its answer.
          subst hj
          rw [List.getElem?_set_self (List.getElem?_eq_some_iff.1 hi).1] at hq
          obtain rfl := Option.some.inj hq
          exact hnext s'' (htrans hs' hs'')
        · rw [List.getElem?_set_ne hj] at hq
          exact h j q hq s'' (htrans hR (htrans hs' hs''))
      · exact ih h

end Preorder

/-- A correct program that runs alone ends as its postcondition says. -/
theorem Wp.run (hok : ∀ s op, ok s op) (hrefl : ∀ s, R s s) {Q : α → σ → Prop}
    {p : Proc Op Ans α} {s : σ} (h : Wp exec ok R Q p s) :
    Q (p.run exec s).1 (p.run exec s).2 := by
  induction p generalizing s with
  | ret a =>
      exact h
  | call op next ih =>
      exact ih _ ((h (hok s op)).2 _ (hrefl _))

end Wp

/-! ## Calls that a program is bound to make -/

/-- Whatever it is answered, the program makes a call that satisfies `P`. -/
def Makes (P : Op → Prop) : Proc Op Ans α → Prop
  | .ret _ => False
  | .call op next => P op ∨ ∀ r, (next r).Makes P

section Makes

variable {P : Op → Prop}

theorem Makes.bind_left {p : Proc Op Ans α} (hp : p.Makes P) (f : α → Proc Op Ans β) :
    (p.bind f).Makes P := by
  induction p with
  | ret a =>
      exact hp.elim
  | call op next ih =>
      exact hp.imp_right fun hnext r => ih r (hnext r)

theorem Makes.bind_right (p : Proc Op Ans α) {f : α → Proc Op Ans β} (hf : ∀ a, (f a).Makes P) :
    (p.bind f).Makes P := by
  induction p with
  | ret a =>
      exact hf a
  | call op next ih =>
      exact Or.inr ih

theorem Makes.sequence {ps : List (Proc Op Ans α)} {p : Proc Op Ans α} (hmem : p ∈ ps)
    (hp : p.Makes P) : (Proc.sequence ps).Makes P := by
  induction ps with
  | nil =>
      cases hmem
  | cons q ps ih =>
      rcases List.mem_cons.1 hmem with rfl | hmem
      · exact hp.bind_left _
      · exact Makes.bind_right q fun _ => (ih hmem).bind_left _

/-- A task of a program that waits for all of them is run. -/
theorem Makes.par {schedule : List Nat} {ps : List (Proc Op Ans α)} {p : Proc Op Ans α}
    (hmem : p ∈ ps) (hp : p.Makes P) : (Proc.par schedule ps).Makes P := by
  induction schedule generalizing ps p with
  | nil =>
      exact Makes.sequence hmem hp
  | cons i schedule ih =>
      unfold Proc.par
      split
      · rename_i op next hi
        obtain ⟨j, hj⟩ := List.mem_iff_getElem?.1 hmem
        by_cases hij : i = j
        · -- the task whose turn it is makes the call now or goes on to make it
          subst hij
          rw [hi] at hj
          cases hj
          have hlt := (List.getElem?_eq_some_iff.1 hi).1
          refine hp.imp_right fun hnext r => ih ?_ (hnext r)
          exact List.mem_iff_getElem?.2 ⟨i, List.getElem?_set_self hlt⟩
        · refine Or.inr fun r => ih ?_ hp
          exact List.mem_iff_getElem?.2 ⟨j, by rw [List.getElem?_set_ne hij, hj]⟩
      · exact ih hmem hp

end Makes

/-! ## Debts -/

section Pays

variable {δ : Type} (owes : (op : Op) → Ans op → δ → Prop) (settles : δ → Op → Prop)

/-- After every call and its answer the program makes the calls that it then owes. -/
def Pays : Proc Op Ans α → Prop
  | .ret _ => True
  | .call op next => ∀ r, Pays (next r) ∧ ∀ d, owes op r d → (next r).Makes (settles d)

variable {owes settles}

theorem Pays.bind {p : Proc Op Ans α} {f : α → Proc Op Ans β} (hp : p.Pays owes settles)
    (hf : ∀ a, (f a).Pays owes settles) : (p.bind f).Pays owes settles := by
  induction p with
  | ret a =>
      exact hf a
  | call op next ih =>
      intro r
      exact ⟨ih r (hp r).1, fun d hd => ((hp r).2 d hd).bind_left f⟩

theorem Pays.andThen {ε : Type} {p : Proc Op Ans (Except ε α)} {f : α → Proc Op Ans (Except ε β)}
    (hp : p.Pays owes settles) (hf : ∀ a, (f a).Pays owes settles) :
    (p.andThen f).Pays owes settles := by
  refine hp.bind fun r => ?_
  cases r with
  | error e =>
      trivial
  | ok a =>
      exact hf a

/-- Programs that never owe anything pay their debts. -/
theorem Calls.pays {P : Op → Prop} (hP : ∀ op r d, P op → ¬ owes op r d) {p : Proc Op Ans α}
    (hp : p.Calls P) : p.Pays owes settles := by
  induction p with
  | ret a =>
      trivial
  | call op next ih =>
      intro r
      exact ⟨ih r (hp.2 r), fun d hd => absurd hd (hP op r d hp.1)⟩

theorem Pays.sequence {ps : List (Proc Op Ans α)} (h : ∀ p ∈ ps, p.Pays owes settles) :
    (Proc.sequence ps).Pays owes settles := by
  induction ps with
  | nil =>
      trivial
  | cons p ps ih =>
      refine (h p List.mem_cons_self).bind fun a => ?_
      exact (ih fun q hq => h q (List.mem_cons_of_mem _ hq)).bind fun _ => trivial

theorem Pays.par {schedule : List Nat} {ps : List (Proc Op Ans α)}
    (h : ∀ p ∈ ps, p.Pays owes settles) : (Proc.par schedule ps).Pays owes settles := by
  induction schedule generalizing ps with
  | nil =>
      exact Pays.sequence h
  | cons i schedule ih =>
      unfold Proc.par
      split
      · rename_i op next hi
        have hcall := h _ (List.mem_of_getElem? hi)
        have hlt := (List.getElem?_eq_some_iff.1 hi).1
        intro r
        refine ⟨ih ?_, fun d hd => ?_⟩
        · intro q hq
          rcases List.mem_or_eq_of_mem_set hq with hq | rfl
          · exact h q hq
          · exact (hcall r).1
        · -- the debt is one of the task that made the call
          refine Makes.par ?_ ((hcall r).2 d hd)
          exact List.mem_iff_getElem?.2 ⟨i, List.getElem?_set_self hlt⟩
      · exact ih h

end Pays

/-! ## Results that must be won -/

section Needs

variable (won : (op : Op) → Ans op → Prop)

/-- A result in `W` is returned only after a call that was won. -/
def Needs (W : α → Prop) : Proc Op Ans α → Prop
  | .ret a => ¬ W a
  | .call op next => ∀ r, ¬ won op r → (next r).Needs W

variable {won}

theorem Needs.bind {W : α → Prop} {W' : β → Prop} {p : Proc Op Ans α} {f : α → Proc Op Ans β}
    (hp : p.Needs won W) (hf : ∀ a, ¬ W a → (f a).Needs won W') : (p.bind f).Needs won W' := by
  induction p with
  | ret a =>
      exact hf a hp
  | call op next ih =>
      intro r hr
      exact ih r (hp r hr)

/-- A program that succeeds only with what it won, followed by another. -/
theorem Needs.andThen {ε : Type} {W : Except ε β → Prop} {p : Proc Op Ans (Except ε α)}
    {f : α → Proc Op Ans (Except ε β)} (hp : p.Needs won fun r => ∃ a, r = .ok a)
    (hW : ∀ e, ¬ W (.error e)) : (p.andThen f).Needs won W := by
  refine hp.bind fun r hr => ?_
  cases r with
  | error e =>
      exact hW e
  | ok a =>
      exact absurd ⟨a, rfl⟩ hr

theorem needs_bind (p : Proc Op Ans α) {W : β → Prop} {f : α → Proc Op Ans β}
    (hf : ∀ a, (f a).Needs won W) : (p.bind f).Needs won W := by
  induction p with
  | ret a =>
      exact hf a
  | call op next ih =>
      exact fun r _ => ih r

theorem needs_andThen {ε : Type} (p : Proc Op Ans (Except ε α)) {W : Except ε β → Prop}
    {f : α → Proc Op Ans (Except ε β)} (hf : ∀ a, (f a).Needs won W) (hW : ∀ e, ¬ W (.error e)) :
    (p.andThen f).Needs won W := by
  refine needs_bind p fun r => ?_
  cases r with
  | error e =>
      exact hW e
  | ok a =>
      exact hf a

theorem Needs.mono {W W' : α → Prop} {p : Proc Op Ans α} (hp : p.Needs won W)
    (h : ∀ a, W' a → W a) : p.Needs won W' := by
  induction p with
  | ret a =>
      exact fun ha => hp (h a ha)
  | call op next ih =>
      intro r hr
      exact ih r (hp r hr)

theorem Needs.sequence {W : α → Prop} {ps : List (Proc Op Ans α)} (h : ∀ p ∈ ps, p.Needs won W) :
    (Proc.sequence ps).Needs won fun as => ∃ a ∈ as, W a := by
  induction ps with
  | nil =>
      rintro ⟨a, ha, -⟩
      cases ha
  | cons p ps ih =>
      refine (h p List.mem_cons_self).bind fun a ha => ?_
      refine (ih fun q hq => h q (List.mem_cons_of_mem _ hq)).bind fun as has => ?_
      rintro ⟨b, hb, hW⟩
      rcases List.mem_cons.1 hb with rfl | hb
      · exact ha hW
      · exact has ⟨b, hb, hW⟩

theorem Needs.par {W : α → Prop} {schedule : List Nat} {ps : List (Proc Op Ans α)}
    (h : ∀ p ∈ ps, p.Needs won W) : (Proc.par schedule ps).Needs won fun as => ∃ a ∈ as, W a := by
  induction schedule generalizing ps with
  | nil =>
      exact Needs.sequence h
  | cons i schedule ih =>
      unfold Proc.par
      split
      · rename_i op next hi
        intro r hr
        refine ih ?_
        intro q hq
        rcases List.mem_or_eq_of_mem_set hq with hq | rfl
        · exact h q hq
        · exact h _ (List.mem_of_getElem? hi) r hr
      · exact ih h

end Needs

section Ends

variable (last : (op : Op) → Ans op → Prop) (P : α → Prop)

/-- The program is finished, and its result meets `P`. -/
def Ended : Proc Op Ans α → Prop
  | .ret a => P a
  | .call _ _ => False

instance [DecidablePred P] : DecidablePred (Ended P : Proc Op Ans α → Prop)
  | .ret a => inferInstanceAs (Decidable (P a))
  | .call _ _ => inferInstanceAs (Decidable False)

/-- Such a call is the last one, and the result meets `P`. -/
def EndsOn : Proc Op Ans α → Prop
  | .ret _ => True
  | .call op next => ∀ r, (last op r → (next r).Ended P) ∧ EndsOn (next r)

variable {last P}

theorem Calls.endsOn {p : Proc Op Ans α} {Q : Op → Prop} (hQ : ∀ op r, Q op → ¬ last op r) (hp : p.Calls Q) :
    p.EndsOn last P := by
  induction p with
  | ret a =>
      trivial
  | call op next ih =>
      exact fun r => ⟨fun hlast => absurd hlast (hQ op r hp.1), ih r (hp.2 r)⟩

theorem EndsOn.bind {P' : β → Prop} {p : Proc Op Ans α} {f : α → Proc Op Ans β} (hp : p.EndsOn last P)
    (hf : ∀ a, (f a).EndsOn last P') (hended : ∀ a, P a → (f a).Ended P') : (p.bind f).EndsOn last P' := by
  induction p with
  | ret a =>
      exact hf a
  | call op next ih =>
      refine fun r => ⟨fun hlast => ?_, ih r (hp r).2⟩
      have hnext := (hp r).1 hlast
      show ((next r).bind f).Ended P'
      cases hret : next r with
      | ret a =>
          rw [hret] at hnext
          exact hended a hnext
      | call op' next' =>
          rw [hret] at hnext
          exact hnext.elim

/-- An error is not followed by the rest. -/
theorem EndsOn.andThen {ε : Type} {P : Except ε β → Prop} {p : Proc Op Ans (Except ε α)}
    {f : α → Proc Op Ans (Except ε β)} (hp : p.EndsOn last fun r => ∃ e, r = .error e)
    (hf : ∀ a, (f a).EndsOn last P) (hP : ∀ e, P (.error e)) : (p.andThen f).EndsOn last P := by
  refine hp.bind (fun r => ?_) ?_
  · cases r with
    | error e =>
        trivial
    | ok a =>
        exact hf a
  · rintro r ⟨e, rfl⟩
    exact hP e

theorem EndsOn.of_trace {p : Proc Op Ans α} (hp : p.EndsOn last P) {tr : List ((op : Op) × Ans op)} {a : α}
    (h : Traces p tr a) {pre post : List ((op : Op) × Ans op)} {op : Op} {r : Ans op}
    (heq : tr = pre ++ ⟨op, r⟩ :: post) (hlast : last op r) : post = [] ∧ P a := by
  induction h generalizing pre with
  | ret a =>
      cases pre <;> cases heq
  | call op' next r' h ih =>
      cases pre with
      | nil =>
          cases heq
          have hended := (hp r).1 hlast
          cases hnext : next r with
          | ret b =>
              rw [hnext] at h hended
              obtain ⟨rfl, rfl⟩ := Traces.of_ret h
              exact ⟨rfl, hended⟩
          | call op'' next'' =>
              rw [hnext] at hended
              exact hended.elim
      | cons ev pre =>
          rw [List.cons_append, List.cons.injEq] at heq
          exact ih (hp r').2 heq.2

end Ends

end Proc

end Lib
end Aivcs
