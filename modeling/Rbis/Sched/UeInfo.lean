import Mathlib.Data.Rat.Floor
import Mathlib.Algebra.Order.Field.Rat
import Mathlib.Algebra.BigOperators.Group.List.Basic
import Rbis.Lib.Containers

/-! # The UE representation of the DPPA scheduler

`UeInfo` holds the fields of `NrMacSchedulerUeInfo` and `NrMacSchedulerUeInfoDPPA` that the
downlink scheduler reads or writes, `DppaStatics` the static members of the latter (one copy
for all UEs).  The functions of the two classes follow: `getDlMcs`, `updateDlMetric`,
`resetDlSchedInfo`, `setDppWeights`, `updateDlK`, `updateDlTputVirtualQueue` and the sorting
predicate `compareUeWeightsDl`.

The AMC is a parameter (`NrAmc`).  Doubles are exact rationals; the weight `m_k`, a quotient
whose divisor is zero on a beam without symbols, is a `Dbl`.  What the code does outside the
bounds of a container is a `Fault`. -/

namespace Rbis

open Cxx

/-- What ends the execution of the scheduler abnormally. -/
inductive Fault where
  /-- `*schedInfoIt` with the iterator at or past the end of `ueVector`. -/
  | invalidIterator
  /-- `std::out_of_range` thrown by `at`. -/
  | outOfRange
  /-- `std::length_error` thrown by `resize` (the new size wrapped below zero). -/
  | lengthError
  /-- A failed `NS_ASSERT`. -/
  | assertion
  /-- An integer division by zero. -/
  | divByZero
  /-- An exception of the JSON library. -/
  | json
  /-- A loop that does not end. -/
  | diverged
deriving DecidableEq

/-- A UE pointer: the identity of a `NrMacSchedulerUeInfo` object. -/
abbrev UePtr := ℕ

/-- A UE and the bytes waiting in its buffers. -/
abbrev UePtrAndBufferReq := UePtr × ℕ

structure BeamId where
  sector : ℕ
  elevation : ℚ
deriving DecidableEq

/-- An amount of RBGs and symbols. -/
structure FTResources where
  rbg : ℕ
  sym : ℕ
deriving DecidableEq

inductive McsCsiSource where
  | avgMcs
  | avgSpecEff
  | avgSinr
  | widebandMcs
deriving DecidableEq

/-- The precomputed data of a sub-band. -/
structure SbMcsInfo where
  cqi : ℕ
  mcs : ℕ
  specEff : ℚ
  sinr : ℚ

/-- A logical channel: its queues and its guaranteed bit rate (`uint64_t`). -/
structure NrMacSchedulerLC where
  id : ℕ
  rlcTransmissionQueueSize : ℕ
  rlcRetransmissionQueueSize : ℕ
  rlcStatusPduSize : ℕ
  eRabGuaranteedBitrateDl : ℕ

/-- A logical channel group: its logical channels, in the order the map yields them. -/
abbrev NrMacSchedulerLCG := List NrMacSchedulerLC

/-- The adaptive modulation and coding tables. -/
structure NrAmc where
  calculateTbSize : ℕ → ℕ → ℕ → ℕ
  getMcsFromSpectralEfficiency : ℚ → ℕ
  getSpectralEfficiencyForSinr : ℚ → ℚ

structure UeInfo where
  rnti : ℕ
  dlLCG : List NrMacSchedulerLCG := []
  dlRBG : List ℕ := []
  dlSym : List ℕ := []
  dlMcs : ℕ := 0
  fhMaxMcsAssignable : Option ℕ := none
  dlSbMcsInfo : List SbMcsInfo := []
  rbgToSb : List ℕ := []
  dlTbSize : ℕ := 0
  dlRank : ℕ := 1
  mcsCsiSource : McsCsiSource := .widebandMcs
  currTputDl : ℚ := 0
  g : ℚ := 0
  k : Dbl := .fin 0
  gfbr : ℚ := 0

/-- The static members of `NrMacSchedulerUeInfoDPPA`. -/
structure DppaStatics where
  vLyapunov : ℚ := 0
  weightQ : ℚ := 1
  weightG : ℚ := 1
deriving DecidableEq

/-! ### Logical channels -/

/-- `GetTotalSize` of a logical channel (`uint32_t`). -/
def NrMacSchedulerLC.getTotalSize (lc : NrMacSchedulerLC) : ℕ :=
  (lc.rlcTransmissionQueueSize + lc.rlcRetransmissionQueueSize + lc.rlcStatusPduSize) % 2 ^ 32

/-- The channels whose identifiers `GetActiveLCIds` returns. -/
def getActiveLCs (lcg : NrMacSchedulerLCG) : List NrMacSchedulerLC :=
  lcg.filter fun lc => 0 < lc.getTotalSize

/-- The active logical channels of a UE, over all its groups. -/
def UeInfo.activeLCs (ue : UeInfo) : List NrMacSchedulerLC := ue.dlLCG.flatMap getActiveLCs

/-- `gfbr += unsigned(lc->m_eRabGuaranteedBitrateDl)` over the active channels (`uint32_t`). -/
def UeInfo.gfbrSum (ue : UeInfo) : ℕ :=
  ue.activeLCs.foldl (fun acc lc => (acc + lc.eRabGuaranteedBitrateDl % 2 ^ 32) % 2 ^ 32) 0

/-! ### Metrics -/

/-- `v.at(i)`. -/
def at? {α : Type} (l : List α) (i : ℕ) : Except Fault α :=
  match l[i]? with
  | some a => .ok a
  | none => .error .outOfRange

/-- `v.at(i) = a`. -/
def setAt {α : Type} (l : List α) (i : ℕ) (a : α) : Except Fault (List α) :=
  if i < l.length then .ok (l.set i a) else .error .outOfRange

namespace UeInfo

/-- `m_dlSbMcsInfo.at(m_rbgToSb.at(rbg))`. -/
def sbInfoOf (ue : UeInfo) (rbg : ℕ) : Except Fault SbMcsInfo := do
  let sb ← at? ue.rbgToSb rbg
  at? ue.dlSbMcsInfo sb

/-- `ComputeMcs`: average a field over the allocated RBGs and map it to an MCS. -/
def computeMcs (ue : UeInfo) (field : SbMcsInfo → ℚ) (postProcessing : ℚ → ℕ) :
    Except Fault ℕ := do
  let infos ← ue.dlRBG.mapM ue.sbInfoOf
  return postProcessing ((infos.map field).sum / ue.dlRBG.length)

def getDlMcs (ue : UeInfo) (amc : NrAmc) : Except Fault ℕ :=
  match ue.fhMaxMcsAssignable with
  | some mcs => .ok mcs
  | none =>
      if ue.dlSbMcsInfo.isEmpty || ue.dlRBG.isEmpty || ue.mcsCsiSource = .widebandMcs then
        .ok ue.dlMcs
      else
        match ue.mcsCsiSource with
        | .avgMcs => ue.computeMcs (fun i => i.mcs) fun avg => ⌊avg⌋.toNat
        | .avgSpecEff => ue.computeMcs SbMcsInfo.specEff amc.getMcsFromSpectralEfficiency
        | .avgSinr => ue.computeMcs SbMcsInfo.sinr fun avg =>
            amc.getMcsFromSpectralEfficiency (amc.getSpectralEfficiencyForSinr avg)
        | .widebandMcs => .ok ue.dlMcs

/-- The value `UpdateDlMetric` gives to `m_dlTbSize`. -/
def tbSizeNow (ue : UeInfo) (amc : NrAmc) (numRbPerRbg : ℕ) : Except Fault ℕ :=
  if ue.dlRBG.isEmpty then .ok 0
  else do
    let mcs ← ue.getDlMcs amc
    return amc.calculateTbSize mcs ue.dlRank (ue.dlRBG.length * numRbPerRbg)

def updateDlMetric (ue : UeInfo) (amc : NrAmc) (numRbPerRbg : ℕ) : Except Fault UeInfo := do
  let tb ← ue.tbSizeNow amc numRbPerRbg
  return { ue with dlTbSize := tb }

def resetDlSchedInfo (ue : UeInfo) : UeInfo :=
  { ue with currTputDl := 0, dlRBG := [], dlSym := [], dlTbSize := 0 }

/-- `UpdateDlTputVirtualQueue`. -/
def updateDlTputVirtualQueue (ue : UeInfo) (timeSlot : ℚ) : UeInfo :=
  let currTputDl := (ue.dlTbSize : ℚ) * 8 / timeSlot
  let avgGfbr := if ue.activeLCs.length = 0 then 0 else ue.gfbrSum / ue.activeLCs.length
  let gfbr := if avgGfbr ≠ 0 then (avgGfbr : ℚ) else ue.gfbr
  { ue with currTputDl := currTputDl, gfbr := gfbr, g := max (ue.g + gfbr - currTputDl) 0 }

end UeInfo

/-! ### Weights -/

/-- `SetDppWeights`, a member function that writes the static members. -/
def setDppWeights (dppV _dppWeightQ dppWeightG : ℚ) : DppaStatics where
  vLyapunov :=
    if dppV = 0 then 0 else if dppV = 1 then 5 else if dppV = 2 then 9
    else if dppV = 3 then 40 else dppV
  weightQ := 0
  weightG := if dppWeightG = 0 then 1 / 10 else if dppWeightG = 1 then 1 else dppWeightG

/-- `-(cQ*1e3*q*8 + wG*g/timeSlot)/1e6 * tbs*8/1e6 / (rb/12)`. -/
def dppK (cQ q wG g timeSlot : ℚ) (tbs rb : ℕ) : Dbl :=
  Dbl.div (-(cQ * 1000 * q * 8 + wG * g / timeSlot) / 1000000 * tbs * 8 / 1000000) ((rb : ℚ) / 12)

/-- `UpdateDlK`: `m_k` from the buffer `q` and the resources of the beam. -/
def UeInfo.updateDlK (ue : UeInfo) (st : DppaStatics) (amc : NrAmc) (numRbPerRbg q : ℕ)
    (resources : FTResources) (timeSlot : ℚ) : UeInfo :=
  let rb := resources.rbg * numRbPerRbg
  { ue with k := dppK st.weightQ q st.weightG ue.g timeSlot (amc.calculateTbSize ue.dlMcs 1 rb) rb }

/-- The admission test `-GetVLyapunov() >= m_k`. -/
def UeInfo.admitted (ue : UeInfo) (st : DppaStatics) : Bool := Dbl.le ue.k (.fin (-st.vLyapunov))

/-- `CompareUeWeightsDl` on the two UEs. -/
def compareUeWeightsDl (l r : UeInfo) : Bool :=
  if Dbl.eq l.k r.k then
    if l.dlMcs = r.dlMcs then decide (l.g > r.g) else decide (l.dlMcs > r.dlMcs)
  else Dbl.lt l.k r.k

/-! ### The metric depends on the allocation only -/

namespace UeInfo

variable (ue : UeInfo) (amc : NrAmc) (n : ℕ)

@[simp] theorem tbSizeNow_of_nil (h : ue.dlRBG = []) : ue.tbSizeNow amc n = .ok 0 := by
  simp [tbSizeNow, h]

theorem updateDlMetric_eq {tb : ℕ} (h : ue.tbSizeNow amc n = .ok tb) :
    ue.updateDlMetric amc n = .ok { ue with dlTbSize := tb } := by
  simp [updateDlMetric, h, bind, Except.bind, pure, Except.pure]

theorem updateDlMetric_ok {ue' : UeInfo} (h : ue.updateDlMetric amc n = .ok ue') :
    ∃ tb, ue.tbSizeNow amc n = .ok tb ∧ ue' = { ue with dlTbSize := tb } := by
  unfold updateDlMetric at h
  cases ht : ue.tbSizeNow amc n with
  | error e => rw [ht] at h; cases h
  | ok tb => rw [ht] at h; cases h; exact ⟨tb, rfl, rfl⟩

end UeInfo

end Rbis
