import Mathlib.Logic.Relation

/-!
# Transition systems, and the runs whose steps meet a condition

A program with several threads is a set of start states and one relation between a
state and what any one of its threads can make of it. Interleaving needs nothing more:
a reachable state is one some order of steps leads to.

Two rules carry every proof about such a system. `Inductive.reachable` turns a
predicate each step preserves into one that holds in every reachable state; the step
may use what is already known of reachable states, which is how invariants are built
on one another. `System.restrict` keeps the states and drops the steps that fail a
condition: what holds of its reachable states holds **in every run whose steps all
meet the condition**, and its runs are runs of the whole system (`Reachable.of_restrict`).
-/

namespace Transition

variable {σ : Type*}

structure System (σ : Type*) where
  init : σ → Prop
  next : σ → σ → Prop

namespace System

/-- What some order of steps leads to. -/
inductive Reachable (S : System σ) : σ → Prop
  | start {s : σ} : S.init s → Reachable S s
  | next {s s' : σ} : Reachable S s → S.next s s' → Reachable S s'

/-- Only the steps that meet the condition. -/
def restrict (S : System σ) (cond : σ → σ → Prop) : System σ where
  init := S.init
  next s s' := S.next s s' ∧ cond s s'

/-- A predicate that holds at the start and that every step from a reachable state
    preserves. -/
structure Inductive (S : System σ) (I : σ → Prop) : Prop where
  start : ∀ {s}, S.init s → I s
  step : ∀ {s s'}, S.Reachable s → I s → S.next s s' → I s'

theorem Inductive.reachable {S : System σ} {I : σ → Prop} (h : S.Inductive I) {s : σ}
    (hs : S.Reachable s) : I s := by
  induction hs with
  | start hinit => exact h.start hinit
  | next hr hnext ih => exact h.step hr ih hnext

theorem Reachable.of_restrict {S : System σ} {cond : σ → σ → Prop} {s : σ}
    (h : (S.restrict cond).Reachable s) : S.Reachable s := by
  induction h with
  | start hinit => exact .start hinit
  | next _ hnext ih => exact .next ih hnext.1

theorem Reachable.stretch {S : System σ} {s s' : σ} (hs : S.Reachable s)
    (h : Relation.ReflTransGen S.next s s') : S.Reachable s' := by
  induction h with
  | refl => exact hs
  | tail _ hnext ih => exact .next ih hnext

/-- What every step of a stretch of a run keeps, the whole stretch keeps. -/
theorem stretch_keeps {r : σ → σ → Prop} {I : σ → Prop} (hstep : ∀ {s s'}, I s → r s s' → I s')
    {s s' : σ} (h : Relation.ReflTransGen r s s') (hs : I s) : I s' := by
  induction h with
  | refl => exact hs
  | tail _ hnext ih => exact hstep ih hnext

/-! ## Steps that are counted

A thread that always has a step still may never end. It does if a rank falls with each of
its steps and no step of the others raises it: between two states of a run there are then
no more of its steps than the rank it started from. -/

/-- A stretch of a run, with at least `n` steps of the counted kind. -/
inductive Paced (r counted : σ → σ → Prop) : Nat → σ → σ → Prop
  | refl (s : σ) : Paced r counted 0 s s
  | counted {n : Nat} {s s' s'' : σ} : Paced r counted n s s' → r s' s'' → counted s' s'' →
      Paced r counted (n + 1) s s''
  | other {n : Nat} {s s' s'' : σ} : Paced r counted n s s' → r s' s'' → Paced r counted n s s''

theorem Paced.le_rank {r counted : σ → σ → Prop} {I : σ → Prop} (rank : σ → Nat)
    (keeps : ∀ {s s'}, I s → r s s' → I s' ∧ rank s' ≤ rank s)
    (falls : ∀ {s s'}, I s → r s s' → counted s s' → rank s' < rank s) {n : Nat} {s s' : σ}
    (h : Paced r counted n s s') (hs : I s) : I s' ∧ n + rank s' ≤ rank s := by
  induction h with
  | refl => exact ⟨hs, by omega⟩
  | counted _ hr hcounted ih =>
    obtain ⟨hI, hle⟩ := ih hs
    have := falls hI hr hcounted
    exact ⟨(keeps hI hr).1, by omega⟩
  | other _ hr ih =>
    obtain ⟨hI, hle⟩ := ih hs
    have := (keeps hI hr).2
    exact ⟨(keeps hI hr).1, by omega⟩

end System

end Transition
