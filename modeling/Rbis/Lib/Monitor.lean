import Mathlib.Data.List.Basic
import Mathlib.Tactic.Common

/-! # Condition variables

A lock with one condition: a thread that holds the lock may `wait`, which gives the lock up
until another thread calls `notify` and the lock is free again.  Waiting threads are woken in
the order in which they went to wait; a `notify` that finds no waiting thread has no effect.
There are no spurious wake-ups, so a waiting thread goes on waiting through everything but a
`notify` (`acquire_waiting`, `resume_of_not_notified`, `mem_waiting_wait`). -/

namespace Monitor

structure Condition (τ : Type*) where
  /-- The thread that holds the lock. -/
  owner : Option τ := none
  /-- The threads in `wait`, the one that has waited longest first. -/
  waiting : List τ := []
  /-- The threads that were notified and have not got the lock back yet. -/
  notified : List τ := []
deriving DecidableEq

namespace Condition

variable {τ : Type*}

/-- `t` takes the lock, when it is free. -/
def acquire (c : Condition τ) (t : τ) : Option (Condition τ) :=
  match c.owner with
  | none => some { c with owner := some t }
  | some _ => none

def release (c : Condition τ) : Condition τ := { c with owner := none }

/-- The holder `t` of the lock gives it up and waits. -/
def wait (c : Condition τ) (t : τ) : Condition τ :=
  { c with owner := none, waiting := c.waiting ++ [t] }

def notify (c : Condition τ) : Condition τ :=
  match c.waiting with
  | [] => c
  | t :: rest => { c with waiting := rest, notified := c.notified ++ [t] }

/-- `t` returns from `wait`: it was notified and the lock is free. -/
def resume [DecidableEq τ] (c : Condition τ) (t : τ) : Option (Condition τ) :=
  match c.owner with
  | none =>
      if t ∈ c.notified then some { c with owner := some t, notified := c.notified.erase t }
      else none
  | some _ => none

@[simp] theorem acquire_free (w n : List τ) (t : τ) :
    acquire ⟨none, w, n⟩ t = some ⟨some t, w, n⟩ := rfl

@[simp] theorem acquire_held (u : τ) (w n : List τ) (t : τ) :
    acquire ⟨some u, w, n⟩ t = none := rfl

theorem resume_free [DecidableEq τ] (w n : List τ) (t : τ) :
    resume ⟨none, w, n⟩ t = if t ∈ n then some ⟨some t, w, n.erase t⟩ else none := rfl

theorem resume_of_not_notified [DecidableEq τ] {c : Condition τ} {t : τ} (h : t ∉ c.notified) :
    c.resume t = none := by
  unfold resume
  cases c.owner with
  | none => exact if_neg h
  | some _ => rfl

theorem acquire_waiting {c d : Condition τ} {t : τ} (h : c.acquire t = some d) :
    d.waiting = c.waiting ∧ d.notified = c.notified := by
  unfold acquire at h
  cases ho : c.owner with
  | none =>
      rw [ho] at h
      cases h
      exact ⟨rfl, rfl⟩
  | some u =>
      rw [ho] at h
      cases h

theorem mem_waiting_wait {c : Condition τ} {t u : τ} (h : t ∈ c.waiting) :
    t ∈ (c.wait u).waiting := List.mem_append_left _ h

end Condition

end Monitor
