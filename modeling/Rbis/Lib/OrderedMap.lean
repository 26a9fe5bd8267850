import Mathlib.Data.List.Basic
import Mathlib.Order.Lattice

/-! # Maps in the order of their keys

A `std::map` as the list of its entries in increasing order of the keys, the order in which it is
iterated.  The order is a field, so that every operation keeps it. -/

namespace Cxx

structure OrderedMap (κ ν : Type) [LinearOrder κ] where
  entries : List (κ × ν)
  sorted : entries.Pairwise fun a b => a.1 < b.1

namespace OrderedMap

variable {κ ν : Type} [LinearOrder κ]

def empty : OrderedMap κ ν := ⟨[], List.Pairwise.nil⟩

def insertEntry (k : κ) (v : ν) : List (κ × ν) → List (κ × ν)
  | [] => [(k, v)]
  | e :: l =>
      if k < e.1 then (k, v) :: e :: l
      else if k = e.1 then (k, v) :: l
      else e :: insertEntry k v l

theorem mem_insertEntry {k : κ} {v : ν} {e : κ × ν} : ∀ {l : List (κ × ν)},
    (l.Pairwise fun a b => a.1 < b.1) →
    (e ∈ insertEntry k v l ↔ e = (k, v) ∨ e ∈ l ∧ e.1 ≠ k)
  | [], _ => by simp [insertEntry]
  | a :: l, hl => by
      obtain ⟨ha, hl⟩ := List.pairwise_cons.mp hl
      rw [insertEntry]
      split
      · next hlt =>
          have hne : ∀ b ∈ a :: l, b.1 ≠ k := by
            intro b hb
            obtain rfl | hb := List.mem_cons.mp hb
            · exact ne_of_gt hlt
            · exact ne_of_gt (lt_trans hlt (ha b hb))
          rw [List.mem_cons]
          exact or_congr_right ⟨fun h => ⟨h, hne e h⟩, And.left⟩
      · split
        · next heq =>
            rw [List.mem_cons, List.mem_cons]
            refine or_congr_right ⟨fun h => ⟨.inr h, ?_⟩, fun ⟨h, hne⟩ => ?_⟩
            · rw [heq]
              exact ne_of_gt (ha e h)
            · exact h.resolve_left fun h => hne (h ▸ heq.symm)
        · next hlt hne =>
            rw [List.mem_cons, List.mem_cons, mem_insertEntry hl, or_left_comm]
            refine or_congr_right ⟨fun h => ?_, fun ⟨h, hek⟩ => ?_⟩
            · obtain rfl | ⟨h, hek⟩ := h
              · exact ⟨.inl rfl, fun h => hne h.symm⟩
              · exact ⟨.inr h, hek⟩
            · exact h.imp_right fun h => ⟨h, hek⟩

theorem sorted_insertEntry {k : κ} {v : ν} : ∀ {l : List (κ × ν)},
    (l.Pairwise fun a b => a.1 < b.1) → (insertEntry k v l).Pairwise fun a b => a.1 < b.1
  | [], _ => List.pairwise_singleton _ _
  | a :: l, hl => by
      obtain ⟨ha, hl'⟩ := List.pairwise_cons.mp hl
      rw [insertEntry]
      split
      · next hlt =>
          refine List.pairwise_cons.mpr ⟨fun b hb => ?_, hl⟩
          obtain rfl | hb := List.mem_cons.mp hb
          · exact hlt
          · exact lt_trans hlt (ha b hb)
      · split
        · next heq =>
            refine List.pairwise_cons.mpr ⟨fun b hb => ?_, hl'⟩
            rw [show (k, v).1 = a.1 from heq]
            exact ha b hb
        · next hlt hne =>
            refine List.pairwise_cons.mpr ⟨fun b hb => ?_, sorted_insertEntry hl'⟩
            obtain rfl | ⟨hb, -⟩ := (mem_insertEntry hl').mp hb
            · exact lt_of_le_of_ne (not_lt.mp hlt) (Ne.symm hne)
            · exact ha b hb

variable (m : OrderedMap κ ν)

/-- `m[k] = v`. -/
def insert (k : κ) (v : ν) : OrderedMap κ ν :=
  ⟨insertEntry k v m.entries, sorted_insertEntry m.sorted⟩

/-- `m.count (k) > 0`. -/
def contains (k : κ) : Bool := m.entries.any fun e => e.1 = k

/-- `m.find (k)`. -/
def find (k : κ) : Option ν := (m.entries.find? fun e => e.1 = k).map Prod.snd

/-- `m.erase (k)`. -/
def erase (k : κ) : OrderedMap κ ν :=
  ⟨m.entries.filter fun e => e.1 ≠ k, List.Pairwise.filter _ m.sorted⟩

variable {m} {k : κ} {v : ν} {e : κ × ν}

theorem mem_insert : e ∈ (m.insert k v).entries ↔ e = (k, v) ∨ e ∈ m.entries ∧ e.1 ≠ k :=
  mem_insertEntry m.sorted

theorem mem_erase : e ∈ (m.erase k).entries ↔ e ∈ m.entries ∧ e.1 ≠ k := by
  simp [erase]

theorem contains_iff : m.contains k = true ↔ ∃ v, (k, v) ∈ m.entries := by
  simp only [contains, List.any_eq_true, decide_eq_true_eq]
  constructor
  · rintro ⟨⟨k', v⟩, h, rfl⟩
    exact ⟨v, h⟩
  · rintro ⟨v, h⟩
    exact ⟨(k, v), h, rfl⟩

theorem find_eq_none (h : ∀ v, (k, v) ∉ m.entries) : m.find k = none := by
  rw [find, List.find?_eq_none.mpr, Option.map_none]
  rintro ⟨k', v⟩ he
  rw [decide_eq_true_eq]
  rintro rfl
  exact h v he

theorem find_eq_some (hm : ∀ w, (k, w) ∈ m.entries → w = v) (h : (k, v) ∈ m.entries) :
    m.find k = some v := by
  cases hf : m.entries.find? fun e => e.1 = k with
  | none =>
      have hne := List.find?_eq_none.mp hf (k, v) h
      simp at hne
  | some e =>
      obtain ⟨k', w⟩ := e
      have hk : k' = k := by simpa using List.find?_some hf
      subst hk
      rw [find, hf, Option.map_some, hm w (List.mem_of_find?_eq_some hf)]

end OrderedMap

end Cxx
