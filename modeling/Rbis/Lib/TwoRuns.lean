import Rbis.Lib.Fallible
import Rbis.Lib.Runs

/-! # Two runs of one program

`Related R x y` says that two fallible computations end alike: both return, with results in the
relation `R`, or both raise the same error.  The rules follow the sequence (`Related.bind`) and
the loop over a list (`Related.foldlM`).

For two loops, `Orbit.lockstep` keeps a relation between their states up to the first state of
the first loop that stops the comparison. -/

namespace Fallible

variable {ε α β γ δ ι : Type}

inductive Related (R : α → β → Prop) : Except ε α → Except ε β → Prop
  | ok {a : α} {b : β} (h : R a b) : Related R (.ok a) (.ok b)
  | error (e : ε) : Related R (.error e) (.error e)

theorem Related.refl (x : Except ε α) : Related Eq x x := by
  cases x with
  | error e => exact .error e
  | ok a => exact .ok rfl

theorem Related.bind {R : α → β → Prop} {Q : γ → δ → Prop} {x : Except ε α} {y : Except ε β}
    {f : α → Except ε γ} {g : β → Except ε δ} (h : Related R x y)
    (hf : ∀ a b, R a b → Related Q (f a) (g b)) : Related Q (x >>= f) (y >>= g) := by
  cases h with
  | error e => exact .error e
  | ok h => exact hf _ _ h

theorem Related.bind_same {Q : γ → δ → Prop} (x : Except ε α) {f : α → Except ε γ}
    {g : α → Except ε δ} (hf : ∀ a, Related Q (f a) (g a)) : Related Q (x >>= f) (x >>= g) :=
  (Related.refl x).bind fun a _ h => h ▸ hf a

theorem Related.foldlM {R : α → β → Prop} {f : α → ι → Except ε α} {g : β → ι → Except ε β} :
    ∀ {l : List ι} {a : α} {b : β},
      (∀ i ∈ l, ∀ a b, R a b → Related R (f a i) (g b i)) → R a b →
        Related R (l.foldlM f a) (l.foldlM g b)
  | [], _, _, _, h => .ok h
  | i :: l, a, b, hf, h => by
      rw [List.foldlM_cons, List.foldlM_cons]
      apply (hf i List.mem_cons_self a b h).bind
      intro a' b' h'
      exact Related.foldlM (fun j hj => hf j (List.mem_cons_of_mem i hj)) h'

end Fallible

namespace Orbit

variable {σ τ : Type*} {f : σ → σ} {g : τ → τ}

/-- **Lockstep.** Two loops whose iterations keep a relation stay in it, or the first one has come
to a state that stops the comparison. -/
theorem lockstep {R : σ → τ → Prop} {stop : σ → Prop} {s : σ} {t : τ}
    (hstep : ∀ n, R (f^[n] s) (g^[n] t) → ¬ stop (f^[n] s) →
      R (f (f^[n] s)) (g (g^[n] t))) (h : R s t) (n : ℕ) :
    R (f^[n] s) (g^[n] t) ∨ ∃ k < n, stop (f^[k] s) ∧ R (f^[k] s) (g^[k] t) := by
  induction n with
  | zero => exact Or.inl h
  | succ n ih =>
      obtain ih | ⟨k, hk, hstop⟩ := ih
      · by_cases hstop : stop (f^[n] s)
        · exact Or.inr ⟨n, n.lt_succ_self, hstop, ih⟩
        · left
          rw [Function.iterate_succ_apply', Function.iterate_succ_apply']
          exact hstep n ih hstop
      · exact Or.inr ⟨k, by omega, hstop⟩

theorem Reaches.of_fixed {s t u : σ} (hu : f u = u) (h : Reaches f s u) (h' : Reaches f s t) :
    Reaches f t u := by
  obtain ⟨n, hn⟩ := h
  obtain ⟨m, hm⟩ := h'
  obtain hlt | hle := Nat.lt_or_ge n m
  · have htu : t = u := by
      rw [← hm, ← Nat.sub_add_cancel (Nat.le_of_lt hlt), Function.iterate_add_apply, hn]
      exact Function.iterate_fixed hu _
    rw [htu]
    exact Reaches.refl u
  · refine ⟨n - m, ?_⟩
    rw [← hm, ← Function.iterate_add_apply, Nat.sub_add_cancel hle, hn]

theorem Reaches.fixed_unique {s t u : σ} (hu : f u = u) (ht : f t = t) (h : Reaches f s u)
    (h' : Reaches f s t) : t = u := by
  obtain ⟨n, hn⟩ := h.of_fixed hu h'
  rw [Function.iterate_fixed ht] at hn
  exact hn

end Orbit
