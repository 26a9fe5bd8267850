import Mathlib.Logic.Function.Iterate
import Mathlib.Data.List.Basic
import Mathlib.Tactic.Common

/-! # Runs of labelled machines and orbits of loops

Three views of a deterministic machine.

* **Runs.** A machine `step : σ → ι → σ` reads a list of labels.  `exec step s l` is the
  state after the labels, `AllSteps step P s l` says that every step of the run meets `P`, a
  condition on the state before the step and its label; `Throughout step P s l` says that the
  states of the run meet `P` (`throughout_iff` relates the two).  `exec_of_guard` carries an
  invariant along the runs whose steps meet a guard; `allSteps_iff` adds that a guard which is
  exact for one step from a state of the invariant is exact for runs.  `Reachable` is the
  state-based view of the runs of legal steps: a condition on steps holds in all of them exactly
  if it holds of the legal steps from reachable states (`forall_allSteps_iff`).  Along an infinite
  schedule, a label that comes again and again leads from `P` to `Q` (`leadsTo`).
* **Orbits.** A loop is a function `step : σ → σ` with a halting test.  `Reaches step s t`
  says that some number of iterations leads from `s` to `t`, `runFuel` iterates up to the
  halting test, and `runFuel_halted` bounds the number of iterations by a measure that every
  iteration from a state of the invariant decreases.
* **Runs that may fail.** A machine `step : σ → ι → Except ε σ` stops at its first error.  `run`
  is what the labels leave, `Allowed step G s l` says that every step that is made meets `G`, and
  `run_of_guard` that runs whose steps meet a guard do not fail, if from the states of an invariant
  the guarded steps succeed and keep it. -/

namespace Runs

variable {σ ι : Type*} (step : σ → ι → σ)

/-- The state after the labels `l`. -/
def exec (s : σ) (l : List ι) : σ := l.foldl step s

/-- Every step of the run meets `P`. -/
def AllSteps (P : σ → ι → Prop) : σ → List ι → Prop
  | _, [] => True
  | s, i :: l => P s i ∧ AllSteps P (step s i) l

/-- `P` holds in every state of the run. -/
def Throughout (P : σ → Prop) (s : σ) (l : List ι) : Prop :=
  ∀ pre, pre <+: l → P (exec step s pre)

@[simp] theorem exec_nil (s : σ) : exec step s [] = s := rfl

@[simp] theorem exec_cons (s : σ) (i : ι) (l : List ι) :
    exec step s (i :: l) = exec step (step s i) l := rfl

variable {step}

theorem AllSteps.mono {P Q : σ → ι → Prop} (h : ∀ s i, P s i → Q s i) :
    ∀ {s : σ} {l : List ι}, AllSteps step P s l → AllSteps step Q s l
  | _, [], _ => trivial
  | _, _ :: _, ⟨h1, h2⟩ => ⟨h _ _ h1, AllSteps.mono h h2⟩

instance AllSteps.decidable {P : σ → ι → Prop} [∀ s i, Decidable (P s i)] :
    ∀ (s : σ) (l : List ι), Decidable (AllSteps step P s l)
  | _, [] => .isTrue trivial
  | s, i :: l =>
      haveI := AllSteps.decidable (P := P) (step s i) l
      inferInstanceAs (Decidable (P s i ∧ AllSteps step P (step s i) l))

theorem allSteps_of_forall {P : σ → ι → Prop} (h : ∀ s i, P s i) :
    ∀ (s : σ) (l : List ι), AllSteps step P s l
  | _, [] => trivial
  | s, i :: l => ⟨h s i, allSteps_of_forall h (step s i) l⟩

theorem allSteps_and {P Q : σ → ι → Prop} : ∀ {s : σ} {l : List ι},
    AllSteps step P s l ∧ AllSteps step Q s l ↔ AllSteps step (fun s i => P s i ∧ Q s i) s l
  | _, [] => ⟨fun h => h.1, fun h => ⟨h, h⟩⟩
  | _, _ :: _ => by
      simp only [AllSteps]
      rw [and_and_and_comm, allSteps_and]

theorem throughout_iff {P : σ → Prop} {s : σ} {l : List ι} :
    Throughout step P s l ↔ P s ∧ AllSteps step (fun t i => P (step t i)) s l := by
  induction l generalizing s with
  | nil =>
      constructor
      · intro h
        exact ⟨h [] List.prefix_rfl, trivial⟩
      · rintro ⟨h, _⟩ pre hpre
        rw [List.prefix_nil.mp hpre]
        exact h
  | cons i l ih =>
      have hcons : Throughout step P s (i :: l) ↔ P s ∧ Throughout step P (step s i) l := by
        constructor
        · intro h
          refine ⟨h [] List.nil_prefix, fun pre hpre => ?_⟩
          exact h (i :: pre) (List.cons_prefix_cons.mpr ⟨rfl, hpre⟩)
        · rintro ⟨h1, h2⟩ pre hpre
          cases pre with
          | nil => exact h1
          | cons j pre =>
              obtain ⟨rfl, h⟩ := List.cons_prefix_cons.mp hpre
              exact h2 pre h
      simp only [hcons, ih, AllSteps]

/-- **Guarded invariant.** An invariant that every guarded step preserves holds after a run
whose steps all meet the guard. -/
theorem exec_of_guard (Inv : σ → Prop) {G : σ → ι → Prop}
    (hstep : ∀ s i, Inv s → G s i → Inv (step s i)) :
    ∀ {s : σ} {l : List ι}, Inv s → AllSteps step G s l → Inv (exec step s l)
  | _, [], hs, _ => hs
  | s, i :: l, hs, ⟨hg, hr⟩ =>
      exec_of_guard Inv (s := step s i) (l := l) hstep (hstep s i hs hg) hr

/-- **Exact guard.** Among the runs whose steps are legal: when from every state of the
invariant a legal step is good exactly if it meets the guard, and the guarded steps keep the
invariant, the steps of a run are all good exactly if they all meet the guard. -/
theorem allSteps_iff (Inv : σ → Prop) {L Good G : σ → ι → Prop}
    (hexact : ∀ s i, Inv s → L s i → (Good s i ↔ G s i))
    (hinv : ∀ s i, Inv s → L s i → G s i → Inv (step s i)) :
    ∀ {s : σ} {l : List ι}, Inv s → AllSteps step L s l →
      (AllSteps step Good s l ↔ AllSteps step G s l)
  | _, [], _, _ => Iff.rfl
  | s, i :: l, hs, ⟨hl, hr⟩ => by
      simp only [AllSteps, hexact s i hs hl]
      refine and_congr_right fun hg => ?_
      exact allSteps_iff Inv hexact hinv (hinv s i hs hl hg) hr

theorem exec_append (s : σ) (l l' : List ι) :
    exec step s (l ++ l') = exec step (exec step s l) l' := List.foldl_append

theorem allSteps_append {P : σ → ι → Prop} : ∀ {s : σ} {l l' : List ι},
    AllSteps step P s (l ++ l') ↔ AllSteps step P s l ∧ AllSteps step P (exec step s l) l'
  | _, [], _ => ⟨fun h => ⟨trivial, h⟩, fun h => h.2⟩
  | s, i :: l, l' => by
      rw [List.cons_append, exec_cons]
      simp only [AllSteps]
      rw [allSteps_append, and_assoc]

/-- `t` is the state after a run of legal steps from `s`. -/
def Reachable (step : σ → ι → σ) (L : σ → ι → Prop) (s t : σ) : Prop :=
  ∃ l, AllSteps step L s l ∧ exec step s l = t

variable {L : σ → ι → Prop}

theorem Reachable.refl (s : σ) : Reachable step L s s := ⟨[], trivial, rfl⟩

theorem Reachable.run {s t : σ} (h : Reachable step L s t) {l : List ι}
    (hl : AllSteps step L t l) : Reachable step L s (exec step t l) := by
  obtain ⟨l₀, h₀, rfl⟩ := h
  exact ⟨l₀ ++ l, allSteps_append.mpr ⟨h₀, hl⟩, exec_append s l₀ l⟩

theorem Reachable.tail {s t : σ} (h : Reachable step L s t) {i : ι} (hi : L t i) :
    Reachable step L s (step t i) :=
  h.run (l := [i]) ⟨hi, trivial⟩

theorem Reachable.inv (Inv : σ → Prop) (hstep : ∀ s i, Inv s → L s i → Inv (step s i))
    {s t : σ} (h : Reachable step L s t) (hs : Inv s) : Inv t := by
  obtain ⟨l, hl, rfl⟩ := h
  exact exec_of_guard Inv hstep hs hl

theorem forall_allSteps_iff {P : σ → ι → Prop} {s : σ} :
    (∀ l, AllSteps step L s l → AllSteps step P s l) ↔
      ∀ t, Reachable step L s t → ∀ i, L t i → P t i := by
  constructor
  · rintro h t ⟨l, hl, rfl⟩ i hi
    have := h (l ++ [i]) (allSteps_append.mpr ⟨hl, hi, trivial⟩)
    exact (allSteps_append.mp this).2.1
  · intro h l
    induction l generalizing s with
    | nil => exact fun _ => trivial
    | cons i l ih =>
        rintro ⟨hi, hl⟩
        refine ⟨h s (Reachable.refl s) i hi, ih (fun t ht => h t ?_) hl⟩
        obtain ⟨l', hl', rfl⟩ := ht
        exact ⟨i :: l', ⟨hi, hl'⟩, rfl⟩

/-! ### Schedules -/

/-- The first `n` labels of a schedule. -/
def upTo (f : ℕ → ι) (n : ℕ) : List ι := (List.range n).map f

theorem exec_upTo_succ (s : σ) (f : ℕ → ι) (n : ℕ) :
    exec step s (upTo f (n + 1)) = step (exec step s (upTo f n)) (f n) := by
  unfold upTo
  rw [List.range_succ, List.map_append, exec_append]
  rfl

/-- **Leads to.** `P` stays until `Q` is reached, a helpful label leads to `Q` at once, and one
comes again and again. -/
theorem leadsTo (step : σ → ι → σ) {P Q : σ → Prop} (Helpful : ι → Prop)
    (hkeep : ∀ s i, P s → P (step s i) ∨ Q (step s i))
    (hhelp : ∀ s i, P s → Helpful i → Q (step s i)) {s : σ} {f : ℕ → ι}
    (hfair : ∀ n, ∃ m, n ≤ m ∧ Helpful (f m)) {n : ℕ} (hn : P (exec step s (upTo f n))) :
    ∃ m, n ≤ m ∧ Q (exec step s (upTo f m)) := by
  have hsucc : ∀ k, exec step s (upTo f (k + 1)) = step (exec step s (upTo f k)) (f k) :=
    exec_upTo_succ s f
  by_contra hnever
  push Not at hnever
  have hstay : ∀ k, P (exec step s (upTo f (n + k))) := by
    intro k
    induction k with
    | zero => exact hn
    | succ k ih =>
        have hk := hkeep _ (f (n + k)) ih
        rw [← hsucc] at hk
        exact hk.resolve_right (hnever _ (by omega))
  obtain ⟨m, hm, hi⟩ := hfair n
  have hP := hstay (m - n)
  rw [Nat.add_sub_cancel' hm] at hP
  have hQ := hhelp _ (f m) hP hi
  rw [← hsucc] at hQ
  exact hnever (m + 1) (by omega) hQ

/-! ### Runs that may fail -/

section Fallible

variable {ε σ ι : Type*} (step : σ → ι → Except ε σ)

/-- What the labels `l` leave. -/
def run : σ → List ι → Except ε σ
  | s, [] => .ok s
  | s, i :: l =>
      match step s i with
      | .ok t => run t l
      | .error e => .error e

/-- Every step that the run makes meets `G`. -/
def Allowed (G : σ → ι → Prop) : σ → List ι → Prop
  | _, [] => True
  | s, i :: l => G s i ∧ ∀ t, step s i = .ok t → Allowed G t l

variable {step}

/-- A condition on the result of a computation that may have failed. -/
instance decidableOfOk {x : Except ε σ} {P : σ → Prop} [∀ s, Decidable (P s)] :
    Decidable (∀ s, x = .ok s → P s) :=
  match x with
  | .ok s => decidable_of_iff (P s) ⟨fun h t ht => by cases ht; exact h, fun h => h s rfl⟩
  | .error _ => .isTrue fun s h => by cases h

instance Allowed.decidable {G : σ → ι → Prop} [∀ s i, Decidable (G s i)] :
    ∀ (s : σ) (l : List ι), Decidable (Allowed step G s l)
  | _, [] => .isTrue trivial
  | s, i :: l =>
      haveI := fun t => Allowed.decidable (G := G) t l
      inferInstanceAs (Decidable (G s i ∧ ∀ t, step s i = .ok t → Allowed step G t l))

theorem run_cons_of_ok {s t : σ} {i : ι} {l : List ι} (h : step s i = .ok t) :
    run step s (i :: l) = run step t l := by
  rw [run, h]

/-- **Guarded runs.** -/
theorem run_of_guard (Inv : σ → Prop) {G : σ → ι → Prop}
    (hstep : ∀ s i, Inv s → G s i → ∃ t, step s i = .ok t ∧ Inv t) :
    ∀ {s : σ} {l : List ι}, Inv s → Allowed step G s l → ∃ t, run step s l = .ok t ∧ Inv t
  | s, [], hs, _ => ⟨s, rfl, hs⟩
  | s, i :: l, hs, ⟨hg, hr⟩ => by
      obtain ⟨t, h1, h2⟩ := hstep s i hs hg
      obtain ⟨u, h3, h4⟩ := run_of_guard Inv hstep h2 (hr t h1)
      exact ⟨u, (run_cons_of_ok h1).trans h3, h4⟩

/-- **Simulation.** Another system makes the same steps as a run that succeeds. -/
theorem run_exec {τ : Type*} (step' : τ → ι → τ) (R : σ → τ → Prop) :
    ∀ {l : List ι} {s t : σ} {u : τ},
      (∀ i ∈ l, ∀ s t u, R s u → step s i = .ok t → R t (step' u i)) → R s u →
      run step s l = .ok t → R t (exec step' u l)
  | [], s, t, u, _, hR, h => by
      cases h
      exact hR
  | i :: l, s, t, u, hstep, hR, h => by
      rw [run] at h
      cases hs : step s i with
      | error e =>
          rw [hs] at h
          cases h
      | ok s' =>
          rw [hs] at h
          exact run_exec step' R (l := l) (fun j hj => hstep j (List.mem_cons_of_mem i hj))
            (hstep i List.mem_cons_self s s' u hR hs) h

theorem run_ok (Inv : σ → Prop) {l : List ι} {s t : σ}
    (hstep : ∀ i ∈ l, ∀ s t, Inv s → step s i = .ok t → Inv t) (hs : Inv s)
    (h : run step s l = .ok t) : Inv t :=
  run_exec (fun (_ : Unit) _ => ()) (fun s _ => Inv s) (u := ())
    (fun i hi s t _ hs hok => hstep i hi s t hs hok) hs h

end Fallible

end Runs

namespace Orbit

variable {σ : Type*} (step : σ → σ)

/-- Some number of iterations leads from `s` to `t`. -/
def Reaches (s t : σ) : Prop := ∃ n, step^[n] s = t

/-- Iterate until the halting test holds, at most `n` times. -/
def runFuel (halted : σ → Bool) : ℕ → σ → σ
  | 0, s => s
  | n + 1, s => if halted s then s else runFuel halted n (step s)

variable {step}

theorem Reaches.refl (s : σ) : Reaches step s s := ⟨0, rfl⟩

theorem Reaches.tail {s t : σ} (h : Reaches step s t) : Reaches step s (step t) := by
  obtain ⟨n, rfl⟩ := h
  exact ⟨n + 1, Function.iterate_succ_apply' step n s⟩

theorem Reaches.head {s t : σ} (h : Reaches step (step s) t) : Reaches step s t := by
  obtain ⟨n, rfl⟩ := h
  exact ⟨n + 1, rfl⟩

theorem Reaches.trans {s t u : σ} (h₁ : Reaches step s t) (h₂ : Reaches step t u) :
    Reaches step s u := by
  obtain ⟨n, rfl⟩ := h₁
  obtain ⟨m, rfl⟩ := h₂
  exact ⟨m + n, Function.iterate_add_apply step m n s⟩

theorem Reaches.eq_of_fixed {s t u : σ} (ht : Reaches step s t) (hu : Reaches step s u)
    (hft : step t = t) (hfu : step u = u) : t = u := by
  obtain ⟨n, rfl⟩ := ht
  obtain ⟨m, rfl⟩ := hu
  have hn : step^[m + n] s = step^[n] s := by
    rw [Function.iterate_add_apply]
    exact Function.iterate_fixed hft m
  have hm : step^[n + m] s = step^[m] s := by
    rw [Function.iterate_add_apply]
    exact Function.iterate_fixed hfu n
  rw [← hn, ← hm, Nat.add_comm]

theorem Reaches.inv {Inv : σ → Prop} (hstep : ∀ s, Inv s → Inv (step s)) {s t : σ}
    (h : Reaches step s t) (hs : Inv s) : Inv t := by
  obtain ⟨n, rfl⟩ := h
  induction n generalizing s with
  | zero => exact hs
  | succ n ih => exact ih (hstep s hs)

theorem Reaches.inv_of_guard {Inv G : σ → Prop} (hstep : ∀ s, Inv s → G s → Inv (step s))
    {s t : σ} (h : Reaches step s t) (hs : Inv s) (hG : ∀ u, Reaches step s u → G u) : Inv t := by
  obtain ⟨n, rfl⟩ := h
  induction n generalizing s with
  | zero => exact hs
  | succ n ih => exact ih (hstep s hs (hG s (Reaches.refl s))) fun u hu => hG u hu.head

theorem runFuel_reaches (halted : σ → Bool) (n : ℕ) (s : σ) :
    Reaches step s (runFuel step halted n s) := by
  induction n generalizing s with
  | zero => exact Reaches.refl s
  | succ n ih =>
      simp only [runFuel]
      split
      · exact Reaches.refl s
      · exact (ih (step s)).head

/-- **Termination.** If every iteration from a non-halted state of the invariant decreases
the measure, `μ s` iterations reach a halted state. -/
theorem runFuel_halted {halted : σ → Bool} (Inv : σ → Prop) (μ : σ → ℕ)
    (hinv : ∀ s, Inv s → Inv (step s))
    (hμ : ∀ s, Inv s → halted s = false → μ (step s) < μ s) :
    ∀ {n : ℕ} {s : σ}, Inv s → μ s ≤ n → halted (runFuel step halted n s) = true
  | 0, s, hs, hn => by
      cases hh : halted s with
      | true => exact hh
      | false => have := hμ s hs hh; omega
  | n + 1, s, hs, hn => by
      simp only [runFuel]
      cases hh : halted s with
      | true => simpa using hh
      | false =>
          have := hμ s hs hh
          simpa using runFuel_halted Inv μ hinv hμ (hinv s hs) (by omega)

end Orbit
