import Mathlib.Tactic.Common

/-! # Fallible computations

Inversion rules for sequences in `Except ε`, and the rules for `List.foldlM`: an invariant of
the accumulator (`foldlM_ok`), a fold whose rounds succeed (`foldlM_total`) or change nothing
(`foldlM_fixed`), one whose rounds work on different entries (`foldlM_local`, `foldlM_each`), and
the origin of an error (`foldlM_error`). -/

namespace Fallible

variable {ε α β : Type}

theorem bind_eq_ok {x : Except ε α} {f : α → Except ε β} {b : β} :
    x >>= f = .ok b ↔ ∃ a, x = .ok a ∧ f a = .ok b := by
  cases x with
  | error e => simp [bind, Except.bind]
  | ok a => simp [bind, Except.bind]

theorem bind_eq_error {x : Except ε α} {f : α → Except ε β} {e : ε} :
    x >>= f = .error e ↔ x = .error e ∨ ∃ a, x = .ok a ∧ f a = .error e := by
  cases x with
  | error e' => simp [bind, Except.bind]
  | ok a => simp [bind, Except.bind]

theorem exists_of_isOk {x : Except ε α} (h : x.isOk = true) : ∃ a, x = .ok a := by
  cases x with
  | error e => cases h
  | ok a => exact ⟨a, rfl⟩

@[simp] theorem ok_bind (a : α) (f : α → Except ε β) : (Except.ok a >>= f) = f a := rfl

@[simp] theorem error_bind (e : ε) (f : α → Except ε β) : (Except.error e >>= f) = .error e := rfl

@[simp] theorem pure_eq (a : α) : (pure a : Except ε α) = .ok a := rfl

theorem foldlM_ok {f : β → α → Except ε β} {P : β → Prop} : ∀ {l : List α} {b c : β},
    (∀ a ∈ l, ∀ b c, P b → f b a = .ok c → P c) → P b → l.foldlM f b = .ok c → P c
  | [], b, c, _, hb, h => by
      cases h
      exact hb
  | a :: l, b, c, hf, hb, h => by
      rw [List.foldlM_cons] at h
      obtain ⟨b', h1, h2⟩ := bind_eq_ok.mp h
      exact foldlM_ok (fun x hx => hf x (List.mem_cons_of_mem a hx))
        (hf a List.mem_cons_self b b' hb h1) h2

theorem foldlM_total {f : β → α → Except ε β} {P : β → Prop} : ∀ {l : List α} {b : β},
    (∀ a ∈ l, ∀ b, P b → ∃ c, f b a = .ok c ∧ P c) → P b → ∃ c, l.foldlM f b = .ok c ∧ P c
  | [], b, _, hb => ⟨b, rfl, hb⟩
  | a :: l, b, hf, hb => by
      obtain ⟨b', h1, h2⟩ := hf a List.mem_cons_self b hb
      rw [List.foldlM_cons, h1]
      exact foldlM_total (fun x hx => hf x (List.mem_cons_of_mem a hx)) h2

theorem foldlM_fixed {f : β → α → Except ε β} {b : β} : ∀ {l : List α},
    (∀ a ∈ l, f b a = .ok b) → l.foldlM f b = .ok b
  | [], _ => rfl
  | a :: l, h => by
      rw [List.foldlM_cons, h a List.mem_cons_self]
      exact foldlM_fixed fun x hx => h x (List.mem_cons_of_mem a hx)

/-- A fold whose rounds each work on the entry of their own key: every key of the list goes
through its round, the other entries stay. -/
theorem foldlM_local {κ υ : Type} {f : β → α → Except ε β} (get : β → κ → υ) (key : α → κ)
    (R : α → υ → υ → Prop)
    (hf : ∀ a b c, f b a = .ok c →
      (∀ k, k ≠ key a → get c k = get b k) ∧ R a (get b (key a)) (get c (key a))) :
    ∀ {l : List α} {b c : β}, (l.map key).Nodup → l.foldlM f b = .ok c →
      (∀ k, k ∉ l.map key → get c k = get b k) ∧
        ∀ a ∈ l, R a (get b (key a)) (get c (key a))
  | [], b, c, _, h => by
      cases h
      exact ⟨fun _ _ => rfl, fun a ha => absurd ha List.not_mem_nil⟩
  | a :: l, b, c, hn, h => by
      rw [List.map_cons, List.nodup_cons] at hn
      rw [List.foldlM_cons] at h
      obtain ⟨b', h1, h2⟩ := bind_eq_ok.mp h
      obtain ⟨hothers, hround⟩ := hf a b b' h1
      obtain ⟨ihothers, ih⟩ := foldlM_local get key R hf hn.2 h2
      refine ⟨fun k hk => ?_, fun x hx => ?_⟩
      · rw [List.map_cons, List.mem_cons, not_or] at hk
        rw [ihothers k hk.2, hothers k hk.1]
      · obtain rfl | hx := List.mem_cons.mp hx
        · rw [ihothers (key x) hn.1]
          exact hround
        · have hne : key x ≠ key a := fun e => hn.1 (e ▸ List.mem_map_of_mem hx)
          rw [← hothers (key x) hne]
          exact ih x hx

/-- The same with rounds that succeed in the states of an invariant, if the entry of their key
allows it. -/
theorem foldlM_each {κ υ : Type} {f : β → α → Except ε β} (Inv : β → Prop) (get : β → κ → υ)
    (key : α → κ) (Pre : α → υ → Prop) (R : α → υ → υ → Prop)
    (hf : ∀ a b, Inv b → Pre a (get b (key a)) → ∃ c, f b a = .ok c ∧ Inv c ∧
      (∀ k, k ≠ key a → get c k = get b k) ∧ R a (get b (key a)) (get c (key a))) :
    ∀ {l : List α} {b : β}, (l.map key).Nodup → Inv b → (∀ a ∈ l, Pre a (get b (key a))) →
      ∃ c, l.foldlM f b = .ok c ∧ Inv c ∧ (∀ k, k ∉ l.map key → get c k = get b k) ∧
        ∀ a ∈ l, R a (get b (key a)) (get c (key a))
  | [], b, _, hb, _ => ⟨b, rfl, hb, fun _ _ => rfl, fun a ha => absurd ha List.not_mem_nil⟩
  | a :: l, b, hn, hb, hpre => by
      rw [List.map_cons, List.nodup_cons] at hn
      obtain ⟨b', h1, hb', hothers, hround⟩ := hf a b hb (hpre a List.mem_cons_self)
      have hne : ∀ x ∈ l, key x ≠ key a := fun x hx e => hn.1 (e ▸ List.mem_map_of_mem hx)
      obtain ⟨c, h2, hc, ihothers, ih⟩ := foldlM_each Inv get key Pre R hf hn.2 hb' fun x hx => by
        rw [hothers (key x) (hne x hx)]
        exact hpre x (List.mem_cons_of_mem a hx)
      refine ⟨c, by rw [List.foldlM_cons, h1]; exact h2, hc, fun k hk => ?_, fun x hx => ?_⟩
      · rw [List.map_cons, List.mem_cons, not_or] at hk
        rw [ihothers k hk.2, hothers k hk.1]
      · obtain rfl | hx := List.mem_cons.mp hx
        · rw [ihothers (key x) hn.1]
          exact hround
        · rw [← hothers (key x) (hne x hx)]
          exact ih x hx

theorem foldlM_flatMap {γ : Type} {f : β → γ → Except ε β} {g : α → List γ} : ∀ {l : List α}
    {b : β}, (l.flatMap g).foldlM f b = l.foldlM (fun b a => (g a).foldlM f b) b
  | [], _ => rfl
  | a :: l, b => by
      rw [List.flatMap_cons, List.foldlM_append, List.foldlM_cons]
      exact bind_congr fun c => foldlM_flatMap

theorem foldlM_error {f : β → α → Except ε β} {E : ε → Prop} : ∀ {l : List α} {b : β} {e : ε},
    (∀ a ∈ l, ∀ b e, f b a = .error e → E e) → l.foldlM f b = .error e → E e
  | [], _, _, _, h => by cases h
  | a :: l, b, e, hf, h => by
      rw [List.foldlM_cons] at h
      rcases bind_eq_error.mp h with h1 | ⟨b', _, h2⟩
      · exact hf a List.mem_cons_self b e h1
      · exact foldlM_error (fun x hx => hf x (List.mem_cons_of_mem a hx)) h2

end Fallible
