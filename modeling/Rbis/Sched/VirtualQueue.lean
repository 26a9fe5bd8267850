import Rbis.Lib.Lindley
import Rbis.Sched.UeInfo

/-! # The virtual throughput queue over a run

`UpdateDlTputVirtualQueue` is called for one UE slot after slot.  Between two calls everything
about the UE may change but `m_g` and `m_gfbr`: no other function writes these.  So a call is the
UE as it finds it, with the two carried over from the call before (`VqCall.apply`).

The queue is a Lindley recursion whose rate is state as well: a slot without an active logical
channel repeats the last average that was not zero (`gfbr_afterCalls`). -/

namespace Rbis

open Finset

/-- One call: the UE it finds, its `m_g` and `m_gfbr` apart, and the slot period. -/
structure VqCall where
  ue : UeInfo
  timeSlot : ℚ
  timeSlot_pos : 0 < timeSlot

namespace VqCall

variable (c : VqCall)

/-- `avg_gfbr` of the call. -/
def avgGfbr : ℕ :=
  if c.ue.activeLCs.length = 0 then 0 else c.ue.gfbrSum / c.ue.activeLCs.length

/-- `8*m_dlTbSize/timeSlot`. -/
def served : ℚ := 8 * c.ue.dlTbSize / c.timeSlot

/-- The call on a UE that the call before left as `prev`. -/
def apply (prev : UeInfo) : UeInfo :=
  { c.ue with g := prev.g, gfbr := prev.gfbr }.updateDlTputVirtualQueue c.timeSlot

theorem gfbr_apply (prev : UeInfo) :
    (c.apply prev).gfbr = if c.avgGfbr = 0 then prev.gfbr else (c.avgGfbr : ℚ) := by
  show (if c.avgGfbr ≠ 0 then (c.avgGfbr : ℚ) else prev.gfbr) = _
  rw [ite_not]

theorem g_apply (prev : UeInfo) :
    (c.apply prev).g = max (prev.g + ((c.apply prev).gfbr - c.served)) 0 := by
  have hserved : (c.ue.dlTbSize : ℚ) * 8 / c.timeSlot = c.served := by
    rw [served, mul_comm]
  show max (prev.g + (c.apply prev).gfbr - (c.ue.dlTbSize : ℚ) * 8 / c.timeSlot) 0 = _
  rw [hserved, add_sub_assoc]

theorem avgGfbr_of_inactive (h : c.ue.activeLCs = []) : c.avgGfbr = 0 := by
  simp [avgGfbr, h]

end VqCall

/-- The UE after the first calls of `calls`, which are counted from one. -/
def afterCalls (ue : UeInfo) (calls : ℕ → VqCall) : ℕ → UeInfo
  | 0 => ue
  | t + 1 => (calls (t + 1)).apply (afterCalls ue calls t)

/-- The last average that is not zero in the first calls, `init` if there is none. -/
def lastAvgGfbr (init : ℚ) (calls : ℕ → VqCall) : ℕ → ℚ
  | 0 => init
  | t + 1 =>
      if (calls (t + 1)).avgGfbr = 0 then lastAvgGfbr init calls t else (calls (t + 1)).avgGfbr

section Run

variable (ue : UeInfo) (calls : ℕ → VqCall) (T : ℕ)

theorem gfbr_afterCalls : (afterCalls ue calls T).gfbr = lastAvgGfbr ue.gfbr calls T := by
  induction T with
  | zero => rfl
  | succ t ih =>
      rw [afterCalls, VqCall.gfbr_apply, ih]
      rfl

/-- What a call adds to the queue: the rate in force less the rate served. -/
def vqGain (t : ℕ) : ℚ := (afterCalls ue calls t).gfbr - (calls t).served

theorem g_afterCalls (hg : ue.g = 0) :
    (afterCalls ue calls T).g = Lindley.backlog (vqGain ue calls) T := by
  induction T with
  | zero => exact hg
  | succ t ih =>
      rw [Lindley.backlog_succ, ← ih]
      exact VqCall.g_apply _ _

/-- **The law of the virtual queue**, from an empty queue on: the backlog is the largest excess of
guaranteed over served rate since some slot, zero if there is none, so that the rate served falls
short of the rate guaranteed by no more than the queue holds.  A slot without an active logical
channel is guaranteed the last average that was not zero. -/
theorem virtualQueue_law (hg : ue.g = 0) :
    IsGreatest (insert 0 {x | ∃ k, 1 ≤ k ∧ k ≤ T ∧
        x = ∑ t ∈ Icc k T, ((afterCalls ue calls t).gfbr - (calls t).served)})
      (afterCalls ue calls T).g ∧
    0 ≤ (afterCalls ue calls T).g ∧
    ∑ t ∈ Icc 1 T, (afterCalls ue calls t).gfbr - (afterCalls ue calls T).g ≤
      ∑ t ∈ Icc 1 T, (calls t).served ∧
    (∀ t, (afterCalls ue calls t).gfbr = lastAvgGfbr ue.gfbr calls t) ∧
    ∀ t, (calls (t + 1)).ue.activeLCs = [] →
      (afterCalls ue calls (t + 1)).gfbr = lastAvgGfbr ue.gfbr calls t := by
  rw [g_afterCalls ue calls T hg]
  refine ⟨Lindley.isGreatest_backlog (vqGain ue calls) T, Lindley.backlog_nonneg _ T, ?_,
    gfbr_afterCalls ue calls, ?_⟩
  · have hsum := Lindley.sum_le_backlog (vqGain ue calls) T
    simp only [vqGain, sum_sub_distrib] at hsum
    exact sub_le_comm.mp hsum
  · intro t hinactive
    have h0 : (calls (t + 1)).avgGfbr = 0 := VqCall.avgGfbr_of_inactive _ hinactive
    rw [gfbr_afterCalls, lastAvgGfbr, if_pos h0]

end Run

/-- A UE with one channel of 1 kbit/s guaranteed; it has data in the first slot only and is served
ten bytes in every slot of a second. -/
def VqCall.sample (t : ℕ) : VqCall where
  ue := { rnti := 1, dlTbSize := 10,
          dlLCG := [[⟨4, if t = 1 then 100 else 0, 0, 0, 1000⟩]] }
  timeSlot := 1
  timeSlot_pos := one_pos

theorem virtualQueue_law_sample :
    0 ≤ (afterCalls { rnti := 1 } VqCall.sample 2).g ∧
    (afterCalls { rnti := 1 } VqCall.sample 2).gfbr = 1000 ∧
    (afterCalls { rnti := 1 } VqCall.sample 2).g = 1840 :=
  ⟨(virtualQueue_law { rnti := 1 } VqCall.sample 2 rfl).2.1, by decide +kernel, by decide +kernel⟩

end Rbis
