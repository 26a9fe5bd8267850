import Rbis.Sched.AssignDlRbg

/-! # The downlink data of a slot

`DoScheduleDlData`: after `AssignDLRBG` has distributed the RBGs, the code goes through the
beams and their UEs, creates a DCI for every UE with an allocation (`CreateDlDci`), and moves
the starting point past the symbols of the beam (`ChangeDlBeam`).  At the end every active UE is
reset for the next slot.

The start of a DCI, its length, the starting point and the number of used symbols are
`uint8_t`. -/

namespace Rbis

open Cxx

inductive DciFormat where
  | dl
  | ul
deriving DecidableEq

inductive VarTtiType where
  | srs
  | data
  | ctrl
  | msg3
deriving DecidableEq

structure DciInfoElementTdma where
  rnti : ℕ
  format : DciFormat
  symStart : ℕ
  numSym : ℕ
  mcs : ℕ
  rank : ℕ
  tbSize : ℕ
  ndi : ℕ
  rv : ℕ
  type : VarTtiType
  bwpIndex : ℕ
  tpc : ℕ
  harqProcess : ℕ := 0
  rbgBitmask : List Bool := []

structure RlcPduInfo where
  lcid : ℕ
  size : ℕ

structure VarTtiAllocInfo where
  dci : DciInfoElementTdma
  rlcPduInfo : List RlcPduInfo

structure SlotAllocInfo where
  varTtiAllocInfo : List VarTtiAllocInfo
  numSymAlloc : ℕ

/-- The bytes of a transport block that a logical channel gets. -/
structure Assignation where
  lcg : ℕ
  lcId : ℕ
  bytes : ℕ

/-- The scheduler with what the base classes use after the assignment. -/
structure DlScheduler extends Scheduler where
  /-- `GetBandwidthInRbg`. -/
  bandwidth : ℕ
  dlNotchedRbgMask : List Bool
  getDlBitmask : dlBitmask =
    if dlNotchedRbgMask = [] then List.replicate bandwidth true else dlNotchedRbgMask
  symbolsPerSlot : ℕ
  bwpId : ℕ
  /-- `m_schedLc->AssignBytesToDlLC`. -/
  assignBytesToDlLC : List NrMacSchedulerLCG → ℕ → List Assignation
  /-- `m_dlLCG.at(lcg)->AssignedData(lcId, bytes, "DL")`. -/
  assignedData : List NrMacSchedulerLCG → Assignation → Except Fault (List NrMacSchedulerLCG)

namespace DlScheduler

variable (D : DlScheduler)

/-- The mask of the RBGs on which the code may transmit. -/
def rbgNotchedBitmask : List Bool :=
  if D.dlNotchedRbgMask = [] then List.replicate D.bandwidth true else D.dlNotchedRbgMask

/-- The body of `for (auto rbg : allocatedRbgs)`. -/
def markRbg (rbgNotchedBitmask rbgBitmask : List Bool) (rbg : ℕ) : Except Fault (List Bool) := do
  let allowed ← at? rbgNotchedBitmask rbg
  if allowed then setAt rbgBitmask rbg true else throw .assertion

/-- `CreateRbgBitmaskFromAllocatedRbgs`. -/
def createRbgBitmaskFromAllocatedRbgs (allocatedRbgs : List ℕ) : Except Fault (List Bool) :=
  if D.rbgNotchedBitmask.length = D.bandwidth then
    allocatedRbgs.foldlM (markRbg D.rbgNotchedBitmask) (List.replicate D.bandwidth false)
  else .error .assertion

/-- `CreateDlDci`, with the UE it leaves; no DCI for a transport block below 10 bytes. -/
def createDlDci (spoint : FTResources) (ueInfo : UeInfo) (maxSym : ℕ) :
    Except Fault (Option DciInfoElementTdma × UeInfo) := do
  let dlMcs ← ueInfo.getDlMcs D.dlAmc
  let ueInfo := { ueInfo with fhMaxMcsAssignable := none }
  let tbs := D.dlAmc.calculateTbSize dlMcs ueInfo.dlRank (ueInfo.dlRBG.length * D.numRbPerRbg)
  if ueInfo.dlRBG.length > maxSym * D.bandwidth then throw .assertion
  if spoint.rbg ≥ D.bandwidth then throw .assertion
  if maxSym > 255 then throw .assertion
  if tbs < 10 then return (none, { ueInfo with dlTbSize := 0 })
  else
    let rbgBitmask ← D.createRbgBitmaskFromAllocatedRbgs ueInfo.dlRBG
    if rbgBitmask.count false = D.bandwidth then throw .assertion
    return (some {
      rnti := ueInfo.rnti, format := .dl, symStart := spoint.sym, numSym := maxSym % 256
      mcs := dlMcs, rank := ueInfo.dlRank, tbSize := tbs, ndi := 1, rv := 0, type := .data
      bwpIndex := D.bwpId, tpc := 1, rbgBitmask := rbgBitmask }, ueInfo)

/-- `ChangeDlBeam`. -/
def changeDlBeam (spoint : FTResources) (symOfBeam : ℕ) : FTResources where
  rbg := 0
  sym := (spoint.sym + symOfBeam) % 256

/-- The RLC PDUs of a transport block; the overhead of a PDU is 3 bytes. -/
def distributeBytes (ue : UeInfo) (tbSize : ℕ) : Except Fault (UeInfo × List RlcPduInfo) := do
  let r ← (D.assignBytesToDlLC ue.dlLCG tbSize).foldlM
    (fun (acc : UeInfo × List RlcPduInfo) byteDistribution => do
      if byteDistribution.bytes < 3 then throw .assertion
      let bytes := byteDistribution.bytes - 3
      let dlLCG ← D.assignedData acc.1.dlLCG { byteDistribution with bytes := bytes }
      return ({ acc.1 with dlLCG := dlLCG }, acc.2 ++ [⟨byteDistribution.lcId, bytes⟩])) (ue, [])
  if r.2 = [] then throw .assertion
  return r

end DlScheduler

/-- `ResetDlMetric`. -/
def UeInfo.resetDlMetric (ue : UeInfo) : UeInfo := { ue with dlTbSize := 0 }

/-- The local variables of the loop over the UEs of a beam. -/
structure DlUeLoop where
  ues : UePtr → UeInfo
  varTtiAllocInfo : List VarTtiAllocInfo
  assigned : Bool
  symbStartDci : List ℕ
  allocSym : ℕ

/-- The local variables of the loop over the beams. -/
structure DlBeamLoop where
  ues : UePtr → UeInfo
  spoint : FTResources
  slotAlloc : SlotAllocInfo
  usedSym : ℕ

namespace DlScheduler

variable (D : DlScheduler) (harqId : UePtr → Option ℕ)

/-- The body of `for (const auto& ue : beam.second)`.  `harqId` is the identifier that the HARQ
vector of the UE gives to a new process, `none` for a full vector. -/
def scheduleUe (spoint : FTResources) (beamSym : ℕ) (s : DlUeLoop) (ue : UePtrAndBufferReq) :
    Except Fault DlUeLoop :=
  let u := s.ues ue.1
  if u.dlRBG = [] then .ok s
  else do
    let r ← D.createDlDci spoint u beamSym
    match r.1 with
    | none => return { s with ues := Function.update s.ues ue.1 r.2.resetDlMetric }
    | some dci =>
        if dci.symStart + dci.numSym > D.symbolsPerSlot then throw .assertion
        match harqId ue.1 with
        | none => throw .assertion
        | some id =>
            let b ← D.distributeBytes r.2 dci.tbSize
            return {
              ues := Function.update s.ues ue.1 b.1
              varTtiAllocInfo := s.varTtiAllocInfo ++ [⟨{ dci with harqProcess := id }, b.2⟩]
              assigned := true
              symbStartDci := dci.symStart :: s.symbStartDci
              allocSym := if dci.symStart ∈ s.symbStartDci then s.allocSym
                else s.allocSym + dci.numSym }

/-- The body of `for (const auto& beam : activeDl)`. -/
def scheduleBeam (symPerBeam : BeamSymbolMap) (s : DlBeamLoop)
    (beam : BeamId × List UePtrAndBufferReq) : Except Fault DlBeamLoop :=
  let beamSym := symPerBeam.getD beam.1 0
  if beamSym = 0 then .ok s
  else do
    let r ← beam.2.foldlM (D.scheduleUe harqId s.spoint beamSym)
      ⟨s.ues, s.slotAlloc.varTtiAllocInfo, false, [], 0⟩
    if r.assigned then
      return {
        ues := r.ues
        spoint := changeDlBeam s.spoint beamSym
        slotAlloc := ⟨r.varTtiAllocInfo, s.slotAlloc.numSymAlloc + r.allocSym⟩
        usedSym := (s.usedSym + r.allocSym) % 256 }
    else
      return { s with
        ues := r.ues, slotAlloc := { s.slotAlloc with varTtiAllocInfo := r.varTtiAllocInfo } }

/-- `ResetDlSchedInfo` for all the active UEs. -/
def resetActive (activeDl : ActiveUeMap) (ues : UePtr → UeInfo) : UePtr → UeInfo :=
  (activeDl.flatMap Prod.snd).foldl
    (fun ues ue => Function.update ues ue.1 (ues ue.1).resetDlSchedInfo) ues

/-- `DoScheduleDlData` at simulation time `now`: the world after it, the starting point, the
allocations of the slot and the number of used symbols. -/
def doScheduleDlData (now : ℚ) (w : World) (spoint : FTResources) (symAvail : ℕ)
    (activeDl : ActiveUeMap) (slotAlloc : SlotAllocInfo) :
    Except Fault (World × FTResources × SlotAllocInfo × ℕ) := do
  if spoint.rbg ≠ 0 then throw .assertion
  let r ← D.assignDLRBG now w symAvail activeDl
  let s ← activeDl.foldlM (D.scheduleBeam harqId r.2) ⟨r.1.ues, spoint, slotAlloc, 0⟩
  if s.spoint.rbg ≠ 0 then throw .assertion
  return ({ r.1 with ues := resetActive activeDl s.ues }, s.spoint, s.slotAlloc, s.usedSym)

end DlScheduler

/-- The inputs of a call of `DoScheduleDlData`. -/
structure DlSlotStart extends SlotStart where
  spoint : FTResources
  slotAlloc : SlotAllocInfo
  sym_lt : spoint.sym < 256
  /-- `DoScheduleDl` passes the symbols of a slot that remain from the starting point on, and
  counts the symbols of a slot in `uint8_t`. -/
  fits : spoint.sym + symAvail ≤ 256

end Rbis
