import Rbis.Sched.AssignDlRbg

/-! # `AssignULRBG`

The uplink assignment of a slot, which the scheduler inherits from `NrMacSchedulerOfdma`.  For
each beam, one RBG at a time: sort the UEs, pass over the ones with enough resources to transmit,
and give the lowest remaining RBG, on every symbol of the beam, to the first one left.

The sort is `std::stable_sort`.  `BeforeUlSched` and `NotAssignedUlResources` have empty bodies,
and `m_activeUlAi` is only set by the AI schedulers.  The bitmask has an entry for every RBG of
the bandwidth, a `uint16_t`, so that the RBGs fit into `m_ulRBG`. -/

namespace Rbis

open Cxx

/-- The uplink part of a UE. -/
structure UlUeInfo where
  ulRBG : List ℕ := []
  ulSym : List ℕ := []
  ulMcs : ℕ := 0
  ulTbSize : ℕ := 0
  ulRank : ℕ := 1

namespace UlUeInfo

/-- `CompareUeWeightsUl`: the vectors are compared, in lexicographic order. -/
def compareUeWeightsUl (l r : UlUeInfo) : Bool := decide (l.ulRBG < r.ulRBG)

def updateUlMetric (ue : UlUeInfo) (ulAmc : NrAmc) (numRbPerRbg : ℕ) : UlUeInfo :=
  { ue with
    ulTbSize :=
      if ue.ulRBG.isEmpty then 0
      else ulAmc.calculateTbSize ue.ulMcs ue.ulRank (ue.ulRBG.length * numRbPerRbg) }

/-- The UE has enough resources to transmit. -/
def satisfied (ue : UlUeInfo) (bufQueueSize : ℕ) : Bool := decide (ue.ulTbSize ≥ max bufQueueSize 12)

/-- The RBGs the UE holds. -/
def rbgs (ue : UlUeInfo) : Finset ℕ := ue.ulRBG.toFinset

end UlUeInfo

structure UlScheduler extends Scheduler where
  ulAmc : NrAmc
  ulBitmask : List Bool

/-- The variables of the loop over the RBGs of a beam, `remainingRbgSet` apart. -/
structure UlBeamState where
  ues : UePtr → UlUeInfo
  ueVector : List UePtrAndBufferReq
  assigned : FTResources

/-- `SortUeVector` with `GetUeCompareUlFn`. -/
def UlBeamState.sortUeVector (s : UlBeamState) : List UePtrAndBufferReq :=
  StdSort.insertionSort (fun a b => UlUeInfo.compareUeWeightsUl (s.ues a.1) (s.ues b.1)) s.ueVector

namespace UlScheduler

variable (S : UlScheduler)

/-- The UE with another RBG. -/
def withRbg (beamSym assignedRbg : ℕ) (ue : UlUeInfo) : UlUeInfo :=
  { ue with
    ulRBG := ue.ulRBG ++ List.replicate beamSym assignedRbg
    ulSym := ue.ulSym ++ List.range beamSym }.updateUlMetric S.ulAmc S.numRbPerRbg

/-- Assign the RBG to the UE. -/
def assignRbg (beamSym assignedRbg : ℕ) (ue : UePtr) (s : UlBeamState) : UlBeamState where
  ues := Function.update s.ues ue (S.withRbg beamSym assignedRbg (s.ues ue))
  ueVector := s.ueVector
  assigned := ⟨s.assigned.rbg + 1, beamSym⟩

/-- `while (!remainingRbgSet.empty())`. -/
def ulLoop (beamSym : ℕ) : List ℕ → UlBeamState → UlBeamState
  | [], s => s
  | assignedRbg :: remaining, s =>
      let s := { s with ueVector := s.sortUeVector }
      match s.ueVector.find? fun ue => !(s.ues ue.1).satisfied ue.2 with
      | none => s
      | some ue => ulLoop beamSym remaining (S.assignRbg beamSym assignedRbg ue.1 s)

/-- The RBGs of the bitmask. -/
def usableUlRbgs : List ℕ :=
  (List.range S.ulBitmask.length).filter fun i => S.ulBitmask.getD i false

/-- One beam. -/
def assignUlBeam (symPerBeam : BeamSymbolMap) (ues : UePtr → UlUeInfo)
    (el : BeamId × List UePtrAndBufferReq) : Except Fault (UePtr → UlUeInfo) := do
  if S.usableUlRbgs = [] then throw .assertion
  return (S.ulLoop (symPerBeam.getD el.1 0) S.usableUlRbgs ⟨ues, el.2, ⟨0, 0⟩⟩).ues

def assignULRBG (ues : UePtr → UlUeInfo) (symAvail : ℕ) (activeUl : ActiveUeMap) :
    Except Fault ((UePtr → UlUeInfo) × BeamSymbolMap) := do
  let symPerBeam := S.getSymPerBeam symAvail activeUl
  let ues ← activeUl.foldlM (S.assignUlBeam symPerBeam) ues
  return (ues, symPerBeam)

end UlScheduler

/-- The inputs of a call of `AssignULRBG`. -/
structure UlSlotStart where
  ues : UePtr → UlUeInfo
  symAvail : ℕ
  activeUl : ActiveUeMap
  /-- A UE is in one beam, once. -/
  nodup : (activeUl.flatMap fun el => el.2.map Prod.fst).Nodup
  /-- `ResetUlSchedInfo` ended the previous slot of every active UE. -/
  clean : ∀ el ∈ activeUl, ∀ ue ∈ el.2, (ues ue.1).ulRBG = [] ∧ (ues ue.1).ulTbSize = 0

end Rbis
