import Rbis.Sched.Reward
import Rbis.Sched.RestRequest

/-! # When a reward is well defined

The rewards of a run of the scheduler: slots, throughput measurements, resets and requests, with
the UEs changing in between.  The average throughput and the share of used resource blocks are
quotients of counters that the code relates only by habit: the number of slots of a period is
taken to be 1000, the number of UEs to be positive, and a throughput that was not measured since
the last reset is read as -1.  The rewards of a run are all in their ranges exactly if no
calculation meets one of these (`rewardOk_iff`). -/

namespace Rbis

open Cxx Finset

namespace Ns3DrlInterface

/-! ### One calculation -/

/-- `rbs_used/(m_total_rbs*1000)`. -/
def usage (itf : Ns3DrlInterface) : Dbl :=
  match itf.totalRbs with
  | .undef => .undef
  | .fin t => Dbl.div itf.rbsUsed (t * 1000)

/-- A number between zero and one. -/
def InUnit (x : Dbl) : Prop := ∃ q : ℚ, x = .fin q ∧ 0 ≤ q ∧ q ≤ 1

/-- The results of a calculation are defined and in range, and so is the share of the resource
blocks where it is computed. -/
structure RewardOk (itf : Ns3DrlInterface) : Prop where
  thput : InUnit itf.calculateReward.rewardThput
  reward : InUnit itf.calculateReward.reward
  usage : itf.calculateReward.rewardThput = .fin 1 → InUnit itf.usage

/-- The throughput of the UE is still the -1 of a reset, and the UE has a GFBR. -/
def Marked (itf : Ns3DrlInterface) (i : ℕ) : Prop :=
  itf.gfbr.getD i 0 ≠ 0 ∧ itf.thput.getD i 0 = -1

instance (itf : Ns3DrlInterface) : DecidablePred itf.Marked :=
  fun _ => inferInstanceAs (Decidable (_ ∧ _))

/-- Some UE was reported, the terms of the UEs that were measured outweigh the marks of those
that were not, and, when no UE misses its GFBR, the resource blocks used since the last reset are
at most those of 1000 slots like the last one. -/
structure Covered (itf : Ns3DrlInterface) : Prop where
  reported : itf.reported ≠ ∅
  marks : ∑ i ∈ range itf.getUEsNumber with itf.Marked i, 1 / itf.gfbr.getD i 0 ≤
    ∑ i ∈ range itf.getUEsNumber with ¬ itf.Marked i, itf.thputTerm i
  rbs : itf.Met → ∃ t : ℚ, itf.totalRbs = .fin t ∧ 0 < t ∧ itf.rbsUsed ≤ 1000 * t

/-- What every run keeps. -/
structure Sound (itf : Ns3DrlInterface) : Prop where
  gfbr : ∀ k, 0 ≤ itf.gfbr.getD k 0
  thput : ∀ k, itf.thput.getD k 0 = -1 ∨ 0 ≤ itf.thput.getD k 0
  rbs : ∀ k, 0 ≤ itf.rbs.getD k 0
  total : ∀ t, itf.totalRbs = .fin t → 0 ≤ t

variable {itf : Ns3DrlInterface}

theorem thputTerm_of_marked (h : itf.Sound) {i : ℕ} (hm : itf.Marked i) :
    itf.thputTerm i = -(1 / itf.gfbr.getD i 0) := by
  have hpos : 0 < itf.gfbr.getD i 0 := lt_of_le_of_ne (h.gfbr i) (Ne.symm hm.1)
  have hneg : -(1 / itf.gfbr.getD i 0) ≤ 1 := by
    have : 0 < 1 / itf.gfbr.getD i 0 := one_div_pos.mpr hpos
    linarith
  rw [thputTerm_of_ne hm.1, hm.2, neg_div, min_eq_right hneg]

theorem thputSum_nonneg_iff (h : itf.Sound) :
    0 ≤ itf.thputSum ↔
      ∑ i ∈ range itf.getUEsNumber with itf.Marked i, 1 / itf.gfbr.getD i 0 ≤
        ∑ i ∈ range itf.getUEsNumber with ¬ itf.Marked i, itf.thputTerm i := by
  have hsplit := sum_filter_add_sum_filter_not (range itf.getUEsNumber) itf.Marked itf.thputTerm
  have hmarks : ∑ i ∈ range itf.getUEsNumber with itf.Marked i, itf.thputTerm i =
      -∑ i ∈ range itf.getUEsNumber with itf.Marked i, 1 / itf.gfbr.getD i 0 := by
    rw [← sum_neg_distrib]
    refine sum_congr rfl fun i hi => ?_
    exact thputTerm_of_marked h (mem_filter.mp hi).2
  unfold thputSum
  rw [← hsplit, hmarks]
  constructor
  · intro h
    linarith
  · intro h
    linarith

theorem rbsUsed_nonneg (h : itf.Sound) : 0 ≤ itf.rbsUsed := sum_nonneg fun i _ => h.rbs i

theorem not_inUnit_undef : ¬ InUnit .undef := by
  rintro ⟨q, hq, _⟩
  cases hq

theorem inUnit_fin {q : ℚ} : InUnit (.fin q) ↔ 0 ≤ q ∧ q ≤ 1 := by
  constructor
  · rintro ⟨q', hq, h⟩
    cases hq
    exact h
  · intro h
    exact ⟨q, rfl, h⟩

/-- The share of the resource blocks is in range exactly if they are at most those of 1000
slots. -/
theorem inUnit_usage_iff (h : itf.Sound) :
    InUnit itf.usage ↔ ∃ t : ℚ, itf.totalRbs = .fin t ∧ 0 < t ∧ itf.rbsUsed ≤ 1000 * t := by
  have hused := rbsUsed_nonneg h
  unfold usage
  cases ht : itf.totalRbs with
  | undef => simp [not_inUnit_undef]
  | fin t =>
      have hnn := h.total t ht
      obtain rfl | hpos := hnn.eq_or_lt
      · simp [Dbl.div, not_inUnit_undef]
      · have hpos' : 0 < t * 1000 := by linarith
        show InUnit (Dbl.div _ _) ↔ _
        rw [Dbl.div_of_ne hpos'.ne', inUnit_fin, div_le_one hpos']
        have h0 : 0 ≤ itf.rbsUsed / (t * 1000) := div_nonneg hused hpos'.le
        constructor
        · rintro ⟨_, hle⟩
          exact ⟨t, rfl, hpos, by linarith⟩
        · rintro ⟨t', ht', _, hle⟩
          cases ht'
          exact ⟨h0, by linarith⟩

theorem inUnit_reward_of_met (h : itf.Sound) (hn : itf.getUEsNumber ≠ 0) (hm : itf.Met)
    (hu : InUnit itf.usage) : InUnit itf.rewardOf := by
  obtain ⟨t, ht, hpos, _⟩ := (inUnit_usage_iff h).mp hu
  have husage : itf.usage = .fin (itf.rbsUsed / (t * 1000)) := by
    unfold usage
    rw [ht]
    exact Dbl.div_of_ne (by linarith)
  rw [husage, inUnit_fin] at hu
  rw [rewardOf_of_met hn (fun i _ => h.gfbr i) hm ht hpos.ne', inUnit_fin]
  constructor
  · linarith [hu.2]
  · linarith [hu.1]

/-- **One calculation** from a sound state is well defined and in range exactly if it is
covered. -/
theorem rewardOk_iff_covered (h : itf.Sound) : itf.RewardOk ↔ itf.Covered := by
  obtain ⟨_, hr, ht⟩ := itf.calculateReward_eq
  have hempty : itf.reported ≠ ∅ ↔ itf.getUEsNumber ≠ 0 := by
    rw [getUEsNumber_eq_card, Ne, Ne, card_eq_zero]
  have hg : ∀ i : ℕ, i < itf.getUEsNumber → 0 ≤ itf.gfbr.getD i 0 := fun i _ => h.gfbr i
  constructor
  · rintro ⟨h1, h2, h3⟩
    rw [ht] at h1 h3
    have hn : itf.getUEsNumber ≠ 0 := by
      intro hn
      rw [hn] at h1
      exact not_inUnit_undef h1
    rw [Dbl.div_of_ne (Nat.cast_ne_zero.mpr hn)] at h1 h3
    refine ⟨hempty.mpr hn, ?_, fun hm => ?_⟩
    · rw [← thputSum_nonneg_iff h]
      exact (Average.nonneg_iff hn).mp (inUnit_fin.mp h1).1
    · rw [(average_eq_one_iff hn hg).mpr hm] at h3
      exact (inUnit_usage_iff h).mp (h3 rfl)
  · rintro ⟨h1, h2, h3⟩
    have hn := hempty.mp h1
    have hdiv := Dbl.div_of_ne (a := itf.thputSum) (Nat.cast_ne_zero.mpr hn)
    have hnonneg : 0 ≤ itf.thputSum / itf.getUEsNumber :=
      (Average.nonneg_iff hn).mpr ((thputSum_nonneg_iff h).mpr h2)
    have hle : itf.thputSum / itf.getUEsNumber ≤ 1 :=
      Average.le_one hn fun i _ => itf.thputTerm_le_one i
    refine ⟨?_, ?_, fun hone => ?_⟩
    · rw [ht, hdiv, inUnit_fin]
      exact ⟨hnonneg, hle⟩
    · rw [hr]
      by_cases hm : itf.Met
      · exact inUnit_reward_of_met h hn hm ((inUnit_usage_iff h).mpr (h3 hm))
      · rw [(rewardOf_of_missed hg (not_met_iff.mp hm)).1, inUnit_fin]
        constructor
        · linarith
        · linarith
    · rw [ht, hdiv] at hone
      have hm := (average_eq_one_iff hn hg).mp (Dbl.fin.inj hone)
      exact (inUnit_usage_iff h).mpr (h3 hm)

/-! ### What keeps the counters sound -/

theorem Sound.of_reads {a b : Ns3DrlInterface} (h : a.Sound) (hr : Reads a b) : b.Sound where
  gfbr := fun k => by rw [hr.gfbr]; exact h.gfbr k
  thput := fun k => by rw [hr.thput]; exact h.thput k
  rbs := fun k => by rw [hr.rbs]; exact h.rbs k
  total := fun t ht => h.total t (hr.totalRbs ▸ ht)

theorem Sound.calculateReward (h : itf.Sound) : itf.calculateReward.Sound :=
  h.of_reads itf.calculateReward_eq.1

theorem Sound.reset (h : itf.Sound) : itf.reset.Sound where
  gfbr := h.gfbr
  thput := fun k => by
    show ((itf.thput.get? k).map fun _ => (-1 : ℚ)).getD 0 = -1 ∨
      0 ≤ ((itf.thput.get? k).map fun _ => (-1 : ℚ)).getD 0
    cases itf.thput.get? k with
    | none => exact Or.inr le_rfl
    | some v => exact Or.inl rfl
  rbs := fun _ => le_rfl
  total := h.total

theorem Sound.updateState (h : itf.Sound) (k : ℤ) (mcs q g : ℚ) {gfbr : ℚ} (hg : 0 ≤ gfbr)
    (pos : Vector3) (timeSlot t : ℚ) :
    (itf.updateState k mcs q g gfbr pos timeSlot t).Sound where
  gfbr := fun k' => by
    show 0 ≤ (itf.gfbr.set k _).getD k' 0
    rw [UMap.getD_set]
    split
    · have hk := h.gfbr k
      exact div_nonneg (add_nonneg (mul_nonneg hk (Nat.cast_nonneg _)) hg) (by positivity)
    · exact h.gfbr k'
  thput := h.thput
  rbs := h.rbs
  total := h.total

theorem Sound.updateMetricsThput (h : itf.Sound) (k : ℤ) {thput : ℚ} (ht : 0 ≤ thput) :
    (itf.updateMetricsThput k thput).Sound where
  gfbr := h.gfbr
  thput := fun k' => by
    show (itf.thput.set k _).getD k' 0 = -1 ∨ _ ≤ (itf.thput.set k _).getD k' 0
    rw [UMap.getD_set]
    split
    · exact Or.inr ht
    · exact h.thput k'
  rbs := h.rbs
  total := h.total

theorem Sound.updateMetricsRbs (h : itf.Sound) (k : ℤ) {rbs total : ℚ} (hr : 0 ≤ rbs)
    (ht : 0 ≤ total) : (itf.updateMetricsRbs k rbs total).Sound where
  gfbr := h.gfbr
  thput := h.thput
  rbs := fun k' => by
    show 0 ≤ (itf.rbs.set k _).getD k' 0
    rw [UMap.getD_set]
    split
    · exact add_nonneg (h.rbs k) hr
    · exact h.rbs k'
  total := fun t e => by
    cases e
    exact ht

end Ns3DrlInterface

/-! ### Runs -/

/-- What happens in the simulation.  A throughput is a number of bits over a positive time. -/
inductive PeriodOp where
  /-- `AssignDLRBG`. -/
  | slot (now : ℚ) (symAvail : ℕ) (activeDl : ActiveUeMap)
  | updateMetricsThput (rnti : ℤ) (thput : {v : ℚ // 0 ≤ v})
  | reset
  /-- `MakeRestRequest`, and what the HTTP client returns. -/
  | request (now : ℚ) (post : RestReport → PostResult)
  /-- The UEs change: traffic, channel reports, the end of a slot. -/
  | ues (heap : UePtr → UeInfo)

namespace World

def onItf (w : World) (f : Ns3DrlInterface → Ns3DrlInterface) : World :=
  { w with drlItf := f w.drlItf }

/-- The world a call leaves.  A call that throws ends the simulation and leaves none. -/
def settle {α : Type} (w : World) : Except Fault (World × α) → World
  | .ok r => r.1
  | .error _ => w

theorem settle_inv {α : Type} {P : World → Prop} {w : World} {r : Except Fault (World × α)}
    (hw : P w) (h : ∀ w' a, r = .ok (w', a) → P w') : P (w.settle r) := by
  cases r with
  | error f => exact hw
  | ok r => exact h r.1 r.2 rfl

def step (S : Scheduler) (w : World) : PeriodOp → World
  | .slot now symAvail activeDl => w.settle (S.assignDLRBG now w symAvail activeDl)
  | .updateMetricsThput rnti thput => w.onItf fun itf => itf.updateMetricsThput rnti thput
  | .reset => w.onItf Ns3DrlInterface.reset
  | .request now post => w.settle (S.makeRestRequest now post w)
  | .ues heap => { w with ues := heap }

/-- The reward the step calculates is well defined and in range. -/
def Rewarded (w : World) : PeriodOp → Prop
  | .request _ _ => w.drlItf.RewardOk
  | _ => True

/-- A reward is calculated in a covered state only. -/
def Guarded (w : World) : PeriodOp → Prop
  | .request _ _ => w.drlItf.Covered
  | _ => True

variable {S : Scheduler}

/-- **Step lemma.** Every step keeps the counters sound. -/
theorem sound_step {w : World} (h : w.drlItf.Sound) (op : PeriodOp) :
    (w.step S op).drlItf.Sound := by
  cases op with
  | slot now symAvail activeDl =>
      refine settle_inv (P := fun w => w.drlItf.Sound) h fun w' symPerBeam hr => ?_
      refine Scheduler.assignDLRBG_itf (P := fun itf => itf.Sound) ?_ ?_ hr h
      · intro itf u buf hitf
        exact hitf.updateState _ _ _ _ (Nat.cast_nonneg _) _ _ _
      · intro itf k rbs total hitf
        exact hitf.updateMetricsRbs _ (Nat.cast_nonneg _) (Nat.cast_nonneg _)
  | updateMetricsThput rnti thput => exact h.updateMetricsThput rnti thput.2
  | reset => exact h.reset
  | request now post =>
      refine settle_inv (P := fun w => w.drlItf.Sound) h fun w' events hr => ?_
      have hcalc := h.calculateReward
      obtain ⟨_, _, ⟨_, hitf⟩ | ⟨_, hitf⟩⟩ := Scheduler.makeRestRequest_ok hr
      · rw [hitf]
        exact hcalc
      · rw [hitf]
        exact hcalc.reset
  | ues heap => exact h

end World

theorem Ns3DrlInterface.sound_initial : ({} : Ns3DrlInterface).Sound :=
  ⟨fun _ => le_rfl, fun _ => Or.inr le_rfl, fun _ => le_rfl, fun _ h => by cases h⟩

/-- **Every reward of a run** is calculated without a division by zero and in range, with a share
of resource blocks in range, exactly if every calculation finds a UE reported, its terms
outweighing the marks of the last reset, and, when every GFBR is reached, at most the resource
blocks of 1000 slots used. -/
theorem rewardOk_iff (S : Scheduler) (ues : UePtr → UeInfo) (allUEs : List UePtrAndBufferReq)
    (statics : DppaStatics) (ops : List PeriodOp) :
    Runs.AllSteps (World.step S) World.Rewarded { ues, allUEs, statics } ops ↔
      Runs.AllSteps (World.step S) World.Guarded { ues, allUEs, statics } ops := by
  have hlegal : Runs.AllSteps (World.step S) (fun _ _ => True) { ues, allUEs, statics } ops :=
    Runs.allSteps_of_forall (fun _ _ => trivial) _ _
  refine Runs.allSteps_iff (fun w => w.drlItf.Sound) ?_ ?_ Ns3DrlInterface.sound_initial hlegal
  · intro w op hw _
    cases op with
    | request now post => exact Ns3DrlInterface.rewardOk_iff_covered hw
    | _ => exact Iff.rfl
  · intro w op hw _ _
    exact World.sound_step hw op

/-- A period without an active UE. -/
theorem not_rewardOk_idle :
    ¬ Runs.AllSteps (World.step (.wideband [true])) World.Rewarded (.fresh {} fun _ => 0)
      [.request 0 fun _ => .failed] := by
  rintro ⟨⟨⟨q, hq, _⟩, _, _⟩, _⟩
  cases hq

end Rbis
