import Rbis.Sched.DrlInterface

/-! # Allocating RBGs to a UE

The scheduler object (`Scheduler`), the resources of one beam (`Alloc`) and the functions the
allocation loop calls: `allocateCurrentResourceToUe`, `deallocateCurrentResourceFromUe`,
`attemptAllocationOfCurrentResourceToUe`, `shouldScheduleUeBasedOnFronthaul` and
`advanceToNextUeToSchedule`.  UEs are reached through pointers, so the functions pass the heap
`ues : UePtr → UeInfo`. -/

namespace Rbis

open Cxx

inductive FhControlMethod where
  | dropping
  | postponing
  | optimizeMcs
  | optimizeRBs
deriving DecidableEq

/-- The arguments of a `DoesAllocationFit` query. -/
structure FhQuery where
  mcs : ℕ
  nRegs : ℕ
  dlRank : ℕ
deriving DecidableEq

/-- The fronthaul control entity, for the BWP of the scheduler.  `doesAllocationFit` keeps
state between queries, so its answer may depend on the queries made before. -/
structure NrFhControl where
  fhControlMethod : FhControlMethod
  getMaxRegAssignable : (mcs rnti dlRank : ℕ) → ℕ
  getMaxMcsAssignable : (regs rnti dlRank : ℕ) → ℕ
  doesAllocationFit : List FhQuery → FhQuery → Bool

/-- The active UEs of each beam, in the order the map yields the beams. -/
abbrev ActiveUeMap := List (BeamId × List UePtrAndBufferReq)

abbrev BeamSymbolMap := UMap BeamId ℕ

/-- The configuration of a `NrMacSchedulerOfdmaDPPA` object and what it calls. -/
structure Scheduler where
  dlAmc : NrAmc
  mcsCsiSource : McsCsiSource
  numRbPerRbg : ℕ
  dlBitmask : List Bool
  fhControl : Option NrFhControl
  slotPeriodNs : ℕ
  slotPeriod_pos : 0 < slotPeriodNs
  enableVirtualQueue : Bool
  getPosition : ℕ → Vector3
  symPerBeam : ℕ → ActiveUeMap → BeamSymbolMap
  stdSort : StdSort UePtrAndBufferReq
  stdShuffle : List UePtrAndBufferReq → List UePtrAndBufferReq
  stdShuffle_perm : ∀ l, (stdShuffle l).Perm l
  /-- The attribute `DppV` of the scheduler. -/
  vLyapunov : ℚ
  /-- `m_ueNodes.GetN()`. -/
  ueNodes : ℕ
  /-- The global `enable_xApp`. -/
  enableXApp : Bool
  /-- `GetCloseToObs`, at the time of the request. -/
  getCloseToObs : Ns3DrlInterface → ℤ → ℚ → Bool

/-- The slot period in seconds. -/
def Scheduler.slotPeriod (S : Scheduler) : ℚ := (S.slotPeriodNs : ℚ) / 1000000000

theorem Scheduler.slotPeriod_ne_zero (S : Scheduler) : S.slotPeriod ≠ 0 := by
  have hpos : (S.slotPeriodNs : ℚ) ≠ 0 := Nat.cast_ne_zero.mpr S.slotPeriod_pos.ne'
  exact div_ne_zero hpos (by norm_num)

/-- What the allocation loop of one beam passes by reference to the functions it calls. -/
structure Alloc where
  ues : UePtr → UeInfo
  remainingRbgSet : List ℕ
  assignedResources : FTResources
  availableRbgs : List Bool

/-- Overwrite the UE behind a pointer. -/
def Alloc.setUe (a : Alloc) (p : UePtr) (ue : UeInfo) : Alloc :=
  { a with ues := Function.update a.ues p ue }

/-- `AllocateCurrentResourceToUe`. -/
def allocateCurrentResourceToUe (currentUe : UePtr) (currentRbg beamSym : ℕ) (a : Alloc) :
    Except Fault Alloc := do
  let ue := a.ues currentUe
  let availableRbgs ← setAt a.availableRbgs currentRbg false
  return {
    ues := Function.update a.ues currentUe
      { ue with
        dlRBG := ue.dlRBG ++ List.replicate beamSym currentRbg
        dlSym := ue.dlSym ++ List.range beamSym }
    remainingRbgSet := a.remainingRbgSet
    assignedResources := ⟨a.assignedResources.rbg + 1, beamSym⟩
    availableRbgs := availableRbgs }

/-- `v.resize(v.size() - n)`. -/
def shrink (l : List ℕ) (n : ℕ) : Except Fault (List ℕ) :=
  if n ≤ l.length then .ok (l.take (l.length - n)) else .error .lengthError

/-- `DeallocateCurrentResourceFromUe`. -/
def deallocateCurrentResourceFromUe (currentUe : UePtr) (currentRbg beamSym : ℕ) (a : Alloc) :
    Except Fault Alloc := do
  let ue := a.ues currentUe
  let dlRBG ← shrink ue.dlRBG beamSym
  let dlSym ← shrink ue.dlSym beamSym
  if a.assignedResources.rbg = 0 then throw .assertion
  let rbg := a.assignedResources.rbg - 1
  let availableRbgs ← setAt a.availableRbgs currentRbg true
  return {
    ues := Function.update a.ues currentUe { ue with dlRBG := dlRBG, dlSym := dlSym }
    remainingRbgSet := a.remainingRbgSet
    assignedResources := ⟨rbg, if rbg = 0 then 0 else a.assignedResources.sym⟩
    availableRbgs := availableRbgs }

namespace Scheduler

variable (S : Scheduler)

/-- `AssignedDlResources` and `NotAssignedDlResources` both refresh `m_dlTbSize`. -/
def assignedDlResources (p : UePtr) (a : Alloc) : Except Fault Alloc := do
  let ue ← (a.ues p).updateDlMetric S.dlAmc S.numRbPerRbg
  return a.setUe p ue

/-- The search for the best RBG: the first with the largest sub-band CQI above zero. -/
def findBestRbg (ue : UeInfo) (remainingRbgSet : List ℕ) : Except Fault (Option ℕ × ℕ) :=
  remainingRbgSet.foldlM (fun (best : Option ℕ × ℕ) resourcePos => do
    let info ← ue.sbInfoOf resourcePos
    return if info.cqi > best.2 then (some resourcePos, info.cqi) else best) (none, 0)

/-- The RBG `AttemptAllocationOfCurrentResourceToUe` tries, `none` when it gives up before
allocating: RBGs more than 4 CQI below the first one of the UE are not scheduled.  The caller
passes a non-empty set. -/
def chooseRbg (ue : UeInfo) (remainingRbgSet : List ℕ) : Except Fault (Option ℕ) :=
  if ue.dlSbMcsInfo.isEmpty || S.mcsCsiSource = .widebandMcs then .ok remainingRbgSet.head?
  else do
    let best ← findBestRbg ue remainingRbgSet
    match ue.dlRBG with
    | [] => return best.1
    | r :: _ =>
        let info ← ue.sbInfoOf r
        if (best.2 : ℤ) < info.cqi - 4 then return none else return best.1

/-- `currentTbSize < previousTbSize * 0.99 && currentUe->GetDlMcs() > 0`: the RBG had a bad MCS
and lowered the transport block. -/
def lowered (previousTbSize : ℕ) (currentUe : UeInfo) : Except Fault Bool :=
  if (currentUe.dlTbSize : ℚ) < previousTbSize * (99 / 100) then do
    let mcs ← currentUe.getDlMcs S.dlAmc
    return decide (mcs > 0)
  else .ok false

/-- `AttemptAllocationOfCurrentResourceToUe`. -/
def attemptAllocationOfCurrentResourceToUe (currentUe : UePtr) (beamSym : ℕ) (a : Alloc) :
    Except Fault (Bool × Alloc) := do
  match ← S.chooseRbg (a.ues currentUe) a.remainingRbgSet with
  | none => return (false, a)
  | some currentRbgPos =>
      let b ← allocateCurrentResourceToUe currentUe currentRbgPos beamSym a
      let b ← S.assignedDlResources currentUe b
      let undo ← S.lowered (a.ues currentUe).dlTbSize (b.ues currentUe)
      if undo then
        let c ← deallocateCurrentResourceFromUe currentUe currentRbgPos beamSym b
        let c ← S.assignedDlResources currentUe c
        return (false, c)
      else
        return (true, { b with remainingRbgSet := b.remainingRbgSet.erase currentRbgPos })

/-- `ShouldScheduleUeBasedOnFronthaul`. -/
def shouldScheduleUeBasedOnFronthaul (fh : NrFhControl) (ue : UeInfo)
    (resourcesAssignable : ℕ) : Bool :=
  let maxAssignable :=
    max (fh.getMaxRegAssignable ue.dlMcs ue.rnti ue.dlRank) (5 * resourcesAssignable)
  decide (ue.dlRBG.length + resourcesAssignable ≤ maxAssignable)

/-- `m_dlTbSize >= max(bufQueueSize, 10)`. -/
def satisfied (ue : UeInfo) (bufQueueSize : ℕ) : Bool := decide (max bufQueueSize 10 ≤ ue.dlTbSize)

/-- `AdvanceToNextUeToSchedule` passes over this UE: it has enough resources, or the
fronthaul does not allow it more. -/
def skips (ue : UeInfo) (bufQueueSize resourcesAssignable : ℕ) : Bool :=
  satisfied ue bufQueueSize ||
    match S.fhControl with
    | none => false
    | some fh =>
        decide (fh.fhControlMethod = .optimizeRBs) &&
          !shouldScheduleUeBasedOnFronthaul fh ue resourcesAssignable

/-- The number of UEs passed over at the front of the list. -/
def skipCount (ues : UePtr → UeInfo) (resourcesAssignable : ℕ) : List UePtrAndBufferReq → ℕ
  | [] => 0
  | (p, buf) :: l =>
      if S.skips (ues p) buf resourcesAssignable then skipCount ues resourcesAssignable l + 1 else 0

/-- `AdvanceToNextUeToSchedule`: the new iterator; `end` means that no UE is left.  Passing
an iterator beyond `end` reads outside the vector. -/
def advanceToNextUeToSchedule (ues : UePtr → UeInfo) (ueVector : List UePtrAndBufferReq)
    (schedInfoIt resourcesAssignable : ℕ) : Except Fault ℕ :=
  if schedInfoIt ≤ ueVector.length then
    .ok (schedInfoIt + S.skipCount ues resourcesAssignable (ueVector.drop schedInfoIt))
  else .error .invalidIterator

end Scheduler

end Rbis
