import Mathlib.Data.Prod.Lex
import Rbis.Sched.CallFrame

/-! # The order of the weights

`CompareUeWeightsDl` compares first by `m_k`, the smaller first, then by `m_dlMcs` and `m_g`, the
larger first.  On defined weights this is the lexicographic order of a key (`weightKey`), and
nothing precedes an undefined weight.  The UEs of one beam share the divisor of their weights, so
that these are all defined or all undefined (`Entered.uniform`): wherever `AssignDLRBG` sorts by
the comparison it is a strict weak ordering (`compareUeWeightsDl_strictWeakOrder`), and the loop
of a beam starts with its UEs sorted by weight (`SortedByK`). -/

namespace Rbis

open Cxx Fallible

/-! ### The comparison -/

/-- The key of a UE with the defined weight `q`. -/
def weightKey (q : ℚ) (u : UeInfo) : ℚ ×ₗ ℕᵒᵈ ×ₗ ℚᵒᵈ :=
  toLex (q, toLex (OrderDual.toDual u.dlMcs, OrderDual.toDual u.g))

theorem compareUeWeightsDl_fin {l r : UeInfo} {x y : ℚ} (hl : l.k = .fin x) (hr : r.k = .fin y) :
    compareUeWeightsDl l r = true ↔ weightKey x l < weightKey y r := by
  unfold compareUeWeightsDl weightKey
  rw [hl, hr, Prod.Lex.toLex_lt_toLex, Prod.Lex.toLex_lt_toLex]
  simp only [Dbl.eq, Dbl.lt, OrderDual.toDual_lt_toDual, OrderDual.toDual_inj, decide_eq_true_eq]
  by_cases hxy : x = y
  · by_cases hmcs : l.dlMcs = r.dlMcs
    · simp [hxy, hmcs]
    · simp [hxy, hmcs]
  · simp [hxy]

theorem compareUeWeightsDl_undef {l r : UeInfo} (hl : l.k = .undef) :
    compareUeWeightsDl l r = false := by
  simp [compareUeWeightsDl, hl, Dbl.eq, Dbl.lt]

theorem compareUeWeightsDl_strictWeak {ues : UePtr → UeInfo} {l : List UePtrAndBufferReq}
    (h : (∀ ue ∈ l, (ues ue.1).k = .undef) ∨ ∀ ue ∈ l, ∃ q, (ues ue.1).k = .fin q) :
    StrictWeakOn (fun a b : UePtrAndBufferReq => compareUeWeightsDl (ues a.1) (ues b.1)) l := by
  obtain hun | hfin := h
  · exact .of_never fun a ha _ _ => compareUeWeightsDl_undef (hun a ha)
  · choose! q hq using hfin
    exact .of_key (fun ue => weightKey (q ue) (ues ue.1)) fun a ha b hb =>
      compareUeWeightsDl_fin (hq a ha) (hq b hb)

/-! ### The vector of a beam -/

/-- The vector of a loop is sorted by weight. -/
structure SortedByK (s : BeamState) : Prop where
  sorted : s.ueVector.Pairwise fun a b => Dbl.lt (s.ueOf b).k (s.ueOf a).k = false
  uniform : (∀ ue ∈ s.ueVector, (s.ueOf ue).k = .undef) ∨
    ∀ ue ∈ s.ueVector, ∃ q, (s.ueOf ue).k = .fin q

theorem lt_of_compareUeWeightsDl {l r : UeInfo} (h : compareUeWeightsDl l r = false) :
    Dbl.lt l.k r.k = false := by
  unfold compareUeWeightsDl at h
  split at h
  · next heq =>
      cases hl : l.k with
      | undef => rfl
      | fin a =>
          cases hr : r.k with
          | undef => rfl
          | fin b =>
              rw [hl, hr] at heq
              have hab : a = b := of_decide_eq_true heq
              simp [hab]
  · exact h

namespace Scheduler

variable {S : Scheduler} {now : ℚ} {i : SlotStart} {st : DppaStatics} {beamSym : ℕ}

theorem Entered.uniform {w w' : World} {ues : List UePtrAndBufferReq}
    (h : Entered S beamSym ues w w') (hn : (ues.map Prod.fst).Nodup) :
    (∀ ue ∈ ues, (w'.ues ue.1).k = .undef) ∨ ∀ ue ∈ ues, ∃ q, (w'.ues ue.1).k = .fin q := by
  have hk : ∀ ue ∈ ues, (w'.ues ue.1).k = dppK w.statics.weightQ ue.2 w.statics.weightG
      (w.ues ue.1).g S.slotPeriod (S.dlAmc.calculateTbSize (w.ues ue.1).dlMcs 1
        (beamSym * S.numRbPerRbg)) (beamSym * S.numRbPerRbg) := by
    intro ue hue
    rw [h.weighed hn ue hue]
    rfl
  by_cases hrb : (((beamSym * S.numRbPerRbg : ℕ) : ℚ) / 12) = 0
  · refine Or.inl fun ue hue => ?_
    rw [hk ue hue]
    exact if_pos hrb
  · refine Or.inr fun ue hue => ?_
    rw [hk ue hue]
    exact ⟨_, Dbl.div_of_ne hrb⟩

theorem sortedByK_of_beamEntry {w : World} {ues : List UePtrAndBufferReq} {e : World × BeamState}
    (h : S.beamEntry now beamSym w ues = .ok e) (hn : (ues.map Prod.fst).Nodup) :
    SortedByK e.2 := by
  obtain ⟨_, h1, h2⟩ := beamEntry_ok h
  have hun := (entered_of_foldlM h1).uniform hn
  have hmem : ∀ ue, ue ∈ e.2.ueVector ↔ ue ∈ ues := fun ue => beamEntry_mem h
  have hues : ∀ ue, e.2.ueOf ue = e.1.ues ue.1 := by
    intro ue
    rw [h2]
    rfl
  refine ⟨?_, ?_⟩
  · have hsorted := S.stdSort.sorted _ ues (compareUeWeightsDl_strictWeak hun)
    rw [h2]
    exact hsorted.imp fun hab => lt_of_compareUeWeightsDl hab
  · simp only [hmem, hues]
    exact hun

theorem loopEntry_sorted {s : BeamState} (h : S.LoopEntry now i st beamSym s) : SortedByK s := by
  obtain ⟨pre, el, post, acc, e, hi, hpre, rfl, he, rfl, rfl⟩ := h
  exact sortedByK_of_beamEntry he (loopEntry_clean hi hpre).1

/-- The call sorts the vector `ueVector` with `CompareUeWeightsDl`, while the UEs are `ues`: the
beams before the beam are done, and its UEs have their weights. -/
inductive SortsByWeight (S : Scheduler) (now : ℚ) (i : SlotStart) :
    (UePtr → UeInfo) → List UePtrAndBufferReq → Prop
  | beam {pre post : ActiveUeMap} {el : BeamId × List UePtrAndBufferReq}
      {acc : World × List FhQuery} {w : World} (split : i.activeDl = pre ++ el :: post)
      (before : pre.foldlM (S.assignBeam now (S.getSymPerBeam i.symAvail i.activeDl))
        (i.world, []) = .ok acc)
      (rbgs : S.usableRbgs ≠ [])
      (enter : el.2.foldlM (S.enterUe now ((S.getSymPerBeam i.symAvail i.activeDl).getD el.1 0))
        acc.1 = .ok w) : SortsByWeight S now i w.ues el.2

/-- **`CompareUeWeightsDl` is a strict weak ordering** on every vector that a call sorts with
it. -/
theorem compareUeWeightsDl_strictWeakOrder {ues : UePtr → UeInfo}
    {ueVector : List UePtrAndBufferReq} (h : S.SortsByWeight now i ues ueVector) :
    (∀ a ∈ ueVector, compareUeWeightsDl (ues a.1) (ues a.1) = false) ∧
    (∀ a ∈ ueVector, ∀ b ∈ ueVector, ∀ c ∈ ueVector,
      compareUeWeightsDl (ues a.1) (ues b.1) = true →
        compareUeWeightsDl (ues b.1) (ues c.1) = true →
          compareUeWeightsDl (ues a.1) (ues c.1) = true) ∧
    ∀ a ∈ ueVector, ∀ b ∈ ueVector, ∀ c ∈ ueVector,
      Incomparable compareUeWeightsDl (ues a.1) (ues b.1) →
        Incomparable compareUeWeightsDl (ues b.1) (ues c.1) →
          Incomparable compareUeWeightsDl (ues a.1) (ues c.1) := by
  cases h with
  | beam split before rbgs enter =>
      obtain ⟨hn, _⟩ := loopEntry_clean split before
      have hweak := compareUeWeightsDl_strictWeak ((entered_of_foldlM enter).uniform hn)
      exact ⟨hweak.irrefl, hweak.trans,
        fun a ha b hb c hc hab hbc => hweak.incomparable_trans ha hb hc hab hbc⟩

/-- A slot with three UEs in one beam, two of them with the same weight. -/
def threeUes : SlotStart :=
  .oneBeam (.fresh {} fun p => if p = 1 then 5 else 2) (fun _ => ⟨rfl, rfl, rfl⟩) (0, 100)
    [(1, 100), (2, 100)] (by decide)

theorem compareUeWeightsDl_strictWeakOrder_threeUes :
    ∃ ues ueVector, ueVector = [(0, 100), (1, 100), (2, 100)] ∧
      SortsByWeight (.wideband [true]) 0 threeUes ues ueVector ∧
      (∀ a ∈ ueVector, compareUeWeightsDl (ues a.1) (ues a.1) = false) ∧
      ∀ a ∈ ueVector, ∀ b ∈ ueVector, ∀ c ∈ ueVector,
        Incomparable compareUeWeightsDl (ues a.1) (ues b.1) →
          Incomparable compareUeWeightsDl (ues b.1) (ues c.1) →
            Incomparable compareUeWeightsDl (ues a.1) (ues c.1) := by
  have hsplit : threeUes.activeDl = [] ++ (⟨0, 0⟩, [(0, 100), (1, 100), (2, 100)]) :: [] := rfl
  have hsorts : SortsByWeight (.wideband [true]) 0 threeUes _ _ :=
    .beam hsplit rfl (by decide) rfl
  have hweak := compareUeWeightsDl_strictWeakOrder hsorts
  exact ⟨_, _, rfl, hsorts, hweak.1, hweak.2.2⟩

end Scheduler

theorem SortedByK.admitted_of_not_lt {s : BeamState} (h : SortedByK s) {st : DppaStatics}
    {a b : UePtrAndBufferReq} (ha : a ∈ s.ueVector) (hb : b ∈ s.ueVector)
    (hle : Dbl.lt (s.ueOf a).k (s.ueOf b).k = false) (hadm : (s.ueOf a).admitted st = true) :
    (s.ueOf b).admitted st = true := by
  unfold UeInfo.admitted at hadm ⊢
  obtain hun | hfin := h.uniform
  · rw [hun a ha] at hadm
    cases hadm
  · obtain ⟨x, hx⟩ := hfin a ha
    obtain ⟨y, hy⟩ := hfin b hb
    rw [hx, hy] at hle
    rw [hx] at hadm
    rw [hy]
    simp only [Dbl.lt_fin, Dbl.le_fin, decide_eq_false_iff_not, decide_eq_true_eq, not_lt]
      at hle hadm ⊢
    exact hle.trans hadm

end Rbis
