import Rbis.Sched.CallFrame
import Rbis.Sched.SymPerBeam

/-! # The divisions of a call

`Divides S now i strategy d` says that the call of `AssignDLRBG` divides by `d` before it updates
the metrics of the RBGs.  Most divisors cannot be zero: a slot has a duration, sample counters
are incremented before the division, the elapsed time is tested, and a UE that `ComputeActiveUe`
put into the map has an active logical channel.  The RB count in `UpdateDlK` is zero for a beam
without symbols, which the strategies produce and `DoScheduleDlData` skips only afterwards
(`divisors_ne_zero_iff`). -/

namespace Rbis

open Cxx Fallible

/-! ### The divisors of each function -/

namespace UeInfo

def updateDlKDivisors (numRbPerRbg : ℕ) (resources : FTResources) (timeSlot : ℚ) : List ℚ :=
  [timeSlot, ((resources.rbg * numRbPerRbg : ℕ) : ℚ) / 12]

/-- `ComputeMcs` divides by the number of RBGs. -/
def getDlMcsDivisors (ue : UeInfo) : List ℚ :=
  match ue.fhMaxMcsAssignable with
  | some _ => []
  | none =>
      if ue.dlSbMcsInfo.isEmpty || ue.dlRBG.isEmpty || ue.mcsCsiSource = .widebandMcs then []
      else [(ue.dlRBG.length : ℚ)]

/-- The average GFBR is computed only for a UE with an active channel. -/
def updateDlTputVirtualQueueDivisors (ue : UeInfo) (timeSlot : ℚ) : List ℚ :=
  timeSlot :: if ue.activeLCs.length = 0 then [] else [(ue.activeLCs.length : ℚ)]

theorem getDlMcsDivisor_ne_zero {ue : UeInfo} {d : ℚ} (hd : d ∈ ue.getDlMcsDivisors) : d ≠ 0 := by
  unfold getDlMcsDivisors at hd
  split at hd
  · cases hd
  · split at hd
    · cases hd
    · next hguard =>
        rw [List.mem_singleton.mp hd]
        simp only [Bool.or_eq_true, not_or, List.isEmpty_iff] at hguard
        exact Nat.cast_ne_zero.mpr (List.length_pos_iff.mpr hguard.1.2).ne'

theorem virtualQueueDivisor_ne_zero {ue : UeInfo} {timeSlot d : ℚ} (hslot : timeSlot ≠ 0)
    (hd : d ∈ ue.updateDlTputVirtualQueueDivisors timeSlot) : d ≠ 0 := by
  rcases List.mem_cons.mp hd with rfl | hd
  · exact hslot
  · split at hd
    · cases hd
    · next hactive =>
        rw [List.mem_singleton.mp hd]
        exact Nat.cast_ne_zero.mpr hactive

end UeInfo

namespace Ns3DrlInterface

/-- One coordinate of the velocity. -/
def velocityDivisors (pos prev timeSlot elapsed : ℚ) : List ℚ :=
  timeSlot :: if stdRound ((pos - prev) / timeSlot) = 0 then [] else [elapsed]

/-- The four running averages, the estimate of the velocity and its average. -/
def updateStateDivisors (itf : Ns3DrlInterface) (rnti : ℤ) (pos : Vector3)
    (timeSlot tLastUpdate : ℚ) : List ℚ :=
  let count : ℚ := itf.count.getD rnti 0
  let prev := itf.prevPosition.getD rnti pos
  let last := itf.tLastUpdate.getD rnti 0
  List.replicate 4 (count + 1) ++
    (if tLastUpdate = last then []
    else velocityDivisors pos.x prev.x timeSlot (tLastUpdate - last) ++
      velocityDivisors pos.y prev.y timeSlot (tLastUpdate - last) ++
      velocityDivisors pos.z prev.z timeSlot (tLastUpdate - last)) ++
    List.replicate 3 (count + 1)

theorem updateStateDivisor_ne_zero {itf : Ns3DrlInterface} {rnti : ℤ} {pos : Vector3}
    {timeSlot t d : ℚ} (hslot : timeSlot ≠ 0)
    (hd : d ∈ itf.updateStateDivisors rnti pos timeSlot t) : d ≠ 0 := by
  have hcount : ∀ n, d ∈ List.replicate n (((itf.count.getD rnti 0 : ℕ) : ℚ) + 1) → d ≠ 0 := by
    intro n hn
    rw [List.eq_of_mem_replicate hn]
    exact Nat.cast_add_one_ne_zero _
  rcases List.mem_append.mp hd with hd | hd
  · rcases List.mem_append.mp hd with hd | hd
    · exact hcount 4 hd
    · split at hd
      · cases hd
      · next hne =>
          have hcoord : ∀ p q, d ∈ velocityDivisors p q timeSlot
              (t - itf.tLastUpdate.getD rnti 0) → d ≠ 0 := by
            intro p q hv
            rcases List.mem_cons.mp hv with rfl | hv
            · exact hslot
            · split at hv
              · cases hv
              · rw [List.mem_singleton.mp hv]
                exact sub_ne_zero.mpr hne
          rcases List.mem_append.mp hd with hd | hd
          · rcases List.mem_append.mp hd with hd | hd
            · exact hcoord _ _ hd
            · exact hcoord _ _ hd
          · exact hcoord _ _ hd
  · exact hcount 3 hd

end Ns3DrlInterface

/-! ### The divisors of a call -/

namespace Scheduler

variable (S : Scheduler) (now : ℚ) (i : SlotStart)

/-- The symbols of a beam. -/
def symbols (el : BeamId × List UePtrAndBufferReq) : ℕ :=
  (S.getSymPerBeam i.symAvail i.activeDl).getD el.1 0

/-- The call comes to the UEs of the beam `el`, in the world `w`. -/
def Arrives (el : BeamId × List UePtrAndBufferReq) (w : World) : Prop :=
  ∃ pre post queries, i.activeDl = pre ++ el :: post ∧ S.usableRbgs ≠ [] ∧
    pre.foldlM (S.assignBeam now (S.getSymPerBeam i.symAvail i.activeDl)) (i.world, []) =
      .ok (w, queries)

/-- The call comes to the UE `ue` of the beam `el`, in the world `w`. -/
def Enters (el : BeamId × List UePtrAndBufferReq) (ue : UePtrAndBufferReq) (w : World) : Prop :=
  ∃ w₀ us vs, S.Arrives now i el w₀ ∧ el.2 = us ++ ue :: vs ∧
    us.foldlM (S.enterUe now (S.symbols i el)) w₀ = .ok w

/-- The call divides by the number.  For the loop and the end of the call every UE is considered,
in any state. -/
inductive Divides (strategy : SymPerBeamStrategy) : ℚ → Prop
  | symPerBeam {d : ℚ} (hd : d ∈ strategy.divisors i.symAvail i.activeDl) : Divides strategy d
  | updateDlK {el : BeamId × List UePtrAndBufferReq} {ue : UePtrAndBufferReq} {w : World} {d : ℚ}
      (h : S.Enters now i el ue w)
      (hd : d ∈ UeInfo.updateDlKDivisors S.numRbPerRbg ⟨S.symbols i el, S.symbols i el⟩
        S.slotPeriod) : Divides strategy d
  | avgGfbr {el : BeamId × List UePtrAndBufferReq} {ue : UePtrAndBufferReq} {w : World}
      (h : S.Enters now i el ue w) : Divides strategy ((w.ues ue.1).activeLCs.length : ℚ)
  | updateState {el : BeamId × List UePtrAndBufferReq} {ue : UePtrAndBufferReq} {w : World}
      {d : ℚ} (h : S.Enters now i el ue w)
      (hd : d ∈ w.drlItf.updateStateDivisors (w.ues ue.1).itfKey (S.getPosition (w.ues ue.1).rnti)
        S.slotPeriod now) : Divides strategy d
  | getDlMcs {u : UeInfo} {d : ℚ} (hd : d ∈ u.getDlMcsDivisors) : Divides strategy d
  | virtualQueue {u : UeInfo} {d : ℚ}
      (hd : d ∈ u.updateDlTputVirtualQueueDivisors S.slotPeriod) : Divides strategy d

variable {S now i}

theorem Arrives.mem {el : BeamId × List UePtrAndBufferReq} {w : World}
    (h : S.Arrives now i el w) : el ∈ i.activeDl := by
  obtain ⟨pre, post, queries, hi, _, _⟩ := h
  rw [hi]
  exact List.mem_append_cons_self

theorem Enters.ue_eq {el : BeamId × List UePtrAndBufferReq} {ue : UePtrAndBufferReq} {w : World}
    (h : S.Enters now i el ue w) : w.ues ue.1 = i.world.ues ue.1 ∧ el ∈ i.activeDl ∧ ue ∈ el.2 := by
  obtain ⟨w₀, us, vs, harr, hel, hus⟩ := h
  have hactive := harr.mem
  obtain ⟨pre, post, queries, hi, _, hpre⟩ := harr
  have hmem : ue ∈ el.2 := by
    rw [hel]
    exact List.mem_append_cons_self
  have hnodup := (loopEntry_clean hi hpre).1
  rw [hel, List.map_append, List.map_cons] at hnodup
  have hout : ue.1 ∉ us.map Prod.fst := fun hin =>
    (List.nodup_append.mp hnodup).2.2 ue.1 hin ue.1 List.mem_cons_self rfl
  refine ⟨?_, hactive, hmem⟩
  rw [(entered_of_foldlM hus).others ue.1 hout]
  exact (beforeBeam hi hpre).2 ue hmem

theorem symbols_eq (el : BeamId × List UePtrAndBufferReq) :
    S.symbols i el = (S.symPerBeam i.symAvail i.activeDl).getD el.1 0 := by
  unfold symbols getSymPerBeam
  generalize S.symPerBeam i.symAvail i.activeDl = m
  induction i.activeDl generalizing m with
  | nil => rfl
  | cons e l ih => rw [List.foldl_cons, ih, UMap.getD_touch]

/-- **No division by zero** before the metrics of the RBGs, if and only if every beam the call
comes to gets symbols from the strategy, and has RBs. -/
theorem divisors_ne_zero_iff {strategy : SymPerBeamStrategy} {ueMap : List UeMapEntry}
    (hS : S.symPerBeam = strategy.getSymPerBeam)
    (hi : i.activeDl.Perm (computeActiveUe i.world.ues ueMap)) :
    (∀ d, S.Divides now i strategy d → d ≠ 0) ↔
      ∀ el w, S.Arrives now i el w →
        0 < (strategy.getSymPerBeam i.symAvail i.activeDl).getD el.1 0 ∧ 0 < S.numRbPerRbg := by
  have hdata : HasData i.world.ues i.activeDl := fun el hel =>
    computeActiveUe_hasData i.world.ues ueMap el (hi.mem_iff.mp hel)
  have hsymbols : ∀ el, S.symbols i el =
      (strategy.getSymPerBeam i.symAvail i.activeDl).getD el.1 0 := fun el => by
    rw [symbols_eq, hS]
  constructor
  · intro h el w harr
    obtain ⟨ue, vs, hue⟩ := List.exists_cons_of_ne_nil (i.nonempty el harr.mem)
    have henter : S.Enters now i el ue w := ⟨w, [], vs, harr, hue, rfl⟩
    have hne := h _ (.updateDlK henter (List.mem_cons_of_mem _ List.mem_cons_self))
    have hrb : S.symbols i el * S.numRbPerRbg ≠ 0 := by
      intro hzero
      simp [hzero] at hne
    rw [hsymbols] at hrb
    exact ⟨Nat.pos_of_ne_zero (left_ne_zero_of_mul hrb),
      Nat.pos_of_ne_zero (right_ne_zero_of_mul hrb)⟩
  · intro h d hd
    cases hd with
    | symPerBeam hd =>
        exact SymPerBeamStrategy.divisor_ne_zero i.nonempty
          (fun el hel ue hue => (hdata el hel ue hue).2) hd
    | updateDlK henter hd =>
        obtain ⟨w₀, _, _, harr, _, _⟩ := henter
        obtain ⟨hsym, hrb⟩ := h _ _ harr
        rw [← hsymbols] at hsym
        simp only [UeInfo.updateDlKDivisors, List.mem_cons, List.not_mem_nil, or_false] at hd
        rcases hd with rfl | rfl
        · exact S.slotPeriod_ne_zero
        · exact div_ne_zero (Nat.cast_ne_zero.mpr (Nat.mul_pos hsym hrb).ne') (by norm_num)
    | avgGfbr henter =>
        obtain ⟨hue, hel, hmem⟩ := henter.ue_eq
        obtain ⟨htot, hpos⟩ := hdata _ hel _ hmem
        rw [hue]
        have hactive := UeInfo.activeLCs_ne_nil (htot ▸ hpos)
        exact Nat.cast_ne_zero.mpr (List.length_pos_iff.mpr hactive).ne'
    | updateState henter hd =>
        exact Ns3DrlInterface.updateStateDivisor_ne_zero S.slotPeriod_ne_zero hd
    | getDlMcs hd => exact UeInfo.getDlMcsDivisor_ne_zero hd
    | virtualQueue hd => exact UeInfo.virtualQueueDivisor_ne_zero S.slotPeriod_ne_zero hd

end Scheduler

/-- The wideband scheduler with the round-robin strategy, and its queue of beams. -/
def Scheduler.inTurns (rrBeams : List BeamId) : Scheduler :=
  { Scheduler.wideband [true] with
    symPerBeam := (SymPerBeamStrategy.roundRobin rrBeams).getSymPerBeam }

/-- A slot with two beams, each with one UE. -/
def SlotStart.twoBeams (symAvail : ℕ) : SlotStart where
  world := .fresh {} fun _ => 0
  symAvail := symAvail
  activeDl := [(⟨0, 0⟩, [(0, 100)]), (⟨1, 0⟩, [(1, 100)])]
  nonempty := by simp
  nodup := by decide
  clean := fun _ _ _ _ => ⟨rfl, rfl, rfl⟩

/-- Twelve symbols in turns: each beam gets six. -/
theorem Scheduler.divisors_ne_zero_twoBeams :
    (SlotStart.twoBeams 12).activeDl.Perm (computeActiveUe (SlotStart.twoBeams 12).world.ues
      [⟨0, ⟨0, 0⟩, 0, 16⟩, ⟨1, ⟨1, 0⟩, 0, 16⟩]) ∧
    ∀ d, (Scheduler.inTurns []).Divides 0 (.twoBeams 12) (.roundRobin []) d → d ≠ 0 := by
  have hactive : (SlotStart.twoBeams 12).activeDl.Perm (computeActiveUe
      (SlotStart.twoBeams 12).world.ues [⟨0, ⟨0, 0⟩, 0, 16⟩, ⟨1, ⟨1, 0⟩, 0, 16⟩]) :=
    List.Perm.of_eq rfl
  have hsymbols : ∀ el ∈ (SlotStart.twoBeams 12).activeDl,
      0 < ((SymPerBeamStrategy.roundRobin []).getSymPerBeam 12
        (SlotStart.twoBeams 12).activeDl).getD el.1 0 := by decide +kernel
  exact ⟨hactive, (Scheduler.divisors_ne_zero_iff rfl hactive).mpr fun el w harr =>
    ⟨hsymbols el harr.mem, Nat.one_pos⟩⟩

/-- One symbol, and the turn of the second beam: the weight of the UE of the first beam is a
quotient by zero. -/
theorem Scheduler.not_divisors_ne_zero_oneSymbol :
    ¬ ∀ d, (Scheduler.inTurns [⟨1, 0⟩, ⟨0, 0⟩]).Divides 0 (.twoBeams 1)
      (.roundRobin [⟨1, 0⟩, ⟨0, 0⟩]) d → d ≠ 0 := by
  intro h
  have henter : (Scheduler.inTurns [⟨1, 0⟩, ⟨0, 0⟩]).Enters 0 (.twoBeams 1)
      (⟨0, 0⟩, [(0, 100)]) (0, 100) (SlotStart.twoBeams 1).world :=
    ⟨_, [], [], ⟨[], _, [], rfl, by decide +kernel, rfl⟩, rfl, rfl⟩
  exact h 0 (.updateDlK henter (by decide +kernel)) rfl

end Rbis
