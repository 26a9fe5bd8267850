import Mathlib.Logic.Function.Basic
import Rbis.Lib.Fallible

/-! # Marks on a table

A round of a fold puts a mark on one entry of a table.  It fails if something is wrong with the mark
itself, or if the mark does not go with the one that is there.  Such a fold succeeds exactly if the
marks are all right, and each goes with the ones before it on its entry (`foldlM_marks`): this does
not need the table any more. -/

namespace Marks

open Fallible

variable {ε α β κ υ : Type} [DecidableEq κ] {f : β → α → Except ε β} {get : β → κ → υ}
  {Inv : β → Prop} {key : α → κ} {val : α → υ} {Own : α → Prop} {Goes : υ → υ → Prop}

/-- In the states of `Inv`, a round of the fold `f` puts the mark `val a` on the entry `key a`. -/
structure Marking (f : β → α → Except ε β) (get : β → κ → υ) (Inv : β → Prop) (key : α → κ)
    (val : α → υ) (Own : α → Prop) (Goes : υ → υ → Prop) : Prop where
  succeeds : ∀ b a, Inv b → ((∃ c, f b a = .ok c) ↔ Own a ∧ Goes (get b (key a)) (val a))
  marks : ∀ b a c, f b a = .ok c → get c = Function.update (get b) (key a) (val a)
  keeps : ∀ b a c, f b a = .ok c → Inv b → Inv c
  trans : ∀ u v w, Goes u v → Goes v w → Goes u w

theorem foldlM_marks (h : Marking f get Inv key val Own Goes) : ∀ {l : List α} {b : β}, Inv b →
    ((∃ c, l.foldlM f b = .ok c) ↔ (∀ a ∈ l, Own a) ∧ (∀ a ∈ l, Goes (get b (key a)) (val a)) ∧
      l.Pairwise fun a a' => key a = key a' → Goes (val a) (val a'))
  | [], b, _ => by simp
  | a :: l, b, hb => by
      rw [List.foldlM_cons]
      constructor
      · rintro ⟨c, hc⟩
        obtain ⟨b', h1, h2⟩ := bind_eq_ok.mp hc
        obtain ⟨hown, hgoes⟩ := (h.succeeds b a hb).mp ⟨b', h1⟩
        obtain ⟨i1, i2, i3⟩ := (foldlM_marks h (h.keeps b a b' h1 hb)).mp ⟨c, h2⟩
        rw [h.marks b a b' h1] at i2
        have hnext : ∀ a' ∈ l, key a = key a' → Goes (val a) (val a') := by
          intro a' ha' hkey
          have hgoes' := i2 a' ha'
          rwa [← hkey, Function.update_self] at hgoes'
        refine ⟨?_, ?_, List.Pairwise.cons hnext i3⟩
        · exact List.forall_mem_cons.mpr ⟨hown, i1⟩
        · refine List.forall_mem_cons.mpr ⟨hgoes, fun a' ha' => ?_⟩
          by_cases hkey : key a' = key a
          · rw [hkey]
            exact h.trans _ _ _ hgoes (hnext a' ha' hkey.symm)
          · have hgoes' := i2 a' ha'
            rwa [Function.update_of_ne hkey] at hgoes'
      · rintro ⟨hown, hgoes, hpairs⟩
        obtain ⟨hnext, hpairs⟩ := List.pairwise_cons.mp hpairs
        obtain ⟨b', h1⟩ := (h.succeeds b a hb).mpr
          ⟨hown a List.mem_cons_self, hgoes a List.mem_cons_self⟩
        rw [h1, ok_bind]
        refine (foldlM_marks h (h.keeps b a b' h1 hb)).mpr
          ⟨fun a' ha' => hown a' (List.mem_cons_of_mem a ha'), fun a' ha' => ?_, hpairs⟩
        rw [h.marks b a b' h1]
        by_cases hkey : key a' = key a
        · rw [hkey, Function.update_self]
          exact hnext a' ha' hkey.symm
        · rw [Function.update_of_ne hkey]
          exact hgoes a' (List.mem_cons_of_mem a ha')

end Marks
