import Rbis.Sched.HarqFeedback

/-! # HARQ retransmissions

`NrMacSchedulerHarqRr`.  In the uplink the retransmissions are put one before the other, from the
last symbol on, in the order of the feedback; feedback that does not fit is kept for the next slot.
In the downlink the processes are grouped by beam (`ComputeActiveHarq`) and sorted by their symbols
(`SortDlHarq`); the retransmissions of a beam lie side by side in the RBGs they had before, from one
symbol on, and what collides or does not fit is kept (`BufferHARQFeedback`).

`m_consolidateHarqRetx` is off, which is its default: a transport block keeps its RBGs and its
number of symbols.  Symbols are `uint8_t`. -/

namespace Rbis

/-- Subtraction in `uint8_t`. -/
def subUint8 (a b : ℕ) : ℕ := (a + 256 - b) % 256

/-- `HarqProcess(true, WAITING_FEEDBACK, 0, dci)`. -/
def HarqProcess.new (dci : DciInfoElementTdma) : HarqProcess where
  active := true
  status := .waitingFeedback
  timer := 0
  dciElement := some dci

/-- The process of a retransmission, or of one that is put off. -/
def HarqProcess.restart (p : HarqProcess) : HarqProcess :=
  { p with status := .waitingFeedback, timer := 0 }

/-- The process with another DCI. -/
def HarqProcess.setDci (p : HarqProcess) (dci : DciInfoElementTdma) : HarqProcess :=
  { p with dciElement := some dci }

/-- The DCI of the next transmission of a transport block. -/
def DciInfoElementTdma.reTx (dci : DciInfoElementTdma) (symStart : ℕ) : DciInfoElementTdma :=
  { dci with symStart := symStart, ndi := 0, rv := (dci.rv + 1) % 256, type := .data }

/-! ### New data -/

/-- The part of `DoScheduleDlData` and `DoScheduleUlData` that gives new data a process: its DCI
gets the identifier. -/
def UeHarqMap.insertNew (m : UeHarqMap) (a : VarTtiAllocInfo) :
    Except Fault (UeHarqMap × VarTtiAllocInfo) := do
  if ¬ a.dci.rnti ∈ m.rntis then throw .invalidIterator
  if !(m.harq a.dci.rnti).canInsert then throw .assertion
  let r ← (m.harq a.dci.rnti).insert (.new a.dci)
  match r.1 with
  | none => throw .assertion
  | some id =>
      let dci := { a.dci with harqProcess := id }
      let p := { (r.2.process id).setDci dci with rlcPduInfo := a.rlcPduInfo }
      return (m.setVector a.dci.rnti (r.2.put id p), { a with dci := dci })

/-- All the new data of a slot, in the order of the code. -/
def UeHarqMap.insertAll : List VarTtiAllocInfo → UeHarqMap →
    Except Fault (UeHarqMap × List VarTtiAllocInfo)
  | [], m => .ok (m, [])
  | a :: rest, m => do
      let r ← m.insertNew a
      let s ← insertAll rest r.1
      return (s.1, r.2 :: s.2)

/-! ### Uplink -/

/-- The assertion of `ComputeActiveHarq` in the uplink; of the map it makes, the code only asks
whether it is empty. -/
def assertActive (m : UeHarqMap) : List HarqInfo → Except Fault Unit
  | [] => .ok ()
  | f :: rest => do
      let p ← m.find f.key
      if !p.active then throw .assertion
      assertActive m rest

/-- The variables of the loop of `ScheduleUlHarq`. -/
structure UlHarqLoop where
  ues : UeHarqMap
  ulHarqToRetransmit : List HarqInfo
  symAvail : ℕ
  symUsed : ℕ
  /-- `startingPoint->m_sym`. -/
  sym : ℕ
  slotAlloc : SlotAllocInfo

/-- The body of the loop. -/
def retransmitUl (f : HarqInfo) (s : UlHarqLoop) : Except Fault UlHarqLoop := do
  if f.receivedOk then throw .assertion
  let p ← s.ues.find f.key
  if p.status ≠ .receivedFeedback then throw .assertion
  match p.dciElement with
  | none => throw .invalidIterator
  | some dciInfoReTx =>
      if dciInfoReTx.numSym ≤ s.symAvail then
        if dciInfoReTx.format ≠ .ul then throw .assertion
        let sym := subUint8 s.sym dciInfoReTx.numSym
        let dci := { dciInfoReTx.reTx sym with harqProcess := f.harqProcessId }
        return {
          ues := s.ues.put f.key (p.restart.setDci dci)
          ulHarqToRetransmit := s.ulHarqToRetransmit
          symAvail := s.symAvail - dci.numSym
          symUsed := (s.symUsed + dci.numSym) % 256
          sym := sym
          slotAlloc := ⟨⟨dci, []⟩ :: s.slotAlloc.varTtiAllocInfo,
            s.slotAlloc.numSymAlloc + dci.numSym⟩ }
      else
        return { s with
          ues := s.ues.put f.key p.restart
          ulHarqToRetransmit := s.ulHarqToRetransmit ++ [f] }

/-- `ScheduleUlHarq`: the loop ends when no symbol is left. -/
def scheduleUlHarq : List HarqInfo → UlHarqLoop → Except Fault UlHarqLoop
  | [], s => .ok s
  | f :: rest, s =>
      if s.symAvail = 0 then .ok s
      else do
        let s ← retransmitUl f s
        scheduleUlHarq rest s

/-! ### Downlink -/

/-- The processes with a retransmission, by beam. -/
abbrev ActiveHarqMap := List (BeamId × List (ℕ × ℕ))

/-- The configuration that `ScheduleDlHarq` reads. -/
structure DlHarqConfig where
  bandwidth : ℕ
  dlBitmask : List Bool
  /-- The fronthaul control method is one of `Postponing`, `OptimizeMcs` and `OptimizeRBs`. -/
  fhControl : Bool
  /-- `GetDoesFhAllocationFit` for an MCS, a number of RBGs and a rank. -/
  doesFhAllocationFit : ℕ → ℕ → ℕ → Bool

/-- Put a process to the end of the list of its beam. -/
def addActive (beam : BeamId) (k : ℕ × ℕ) : ActiveHarqMap → ActiveHarqMap
  | [] => [(beam, [k])]
  | el :: rest => if el.1 = beam then (beam, el.2 ++ [k]) :: rest else el :: addActive beam k rest

/-- `ComputeActiveHarq`, with the beams in the order of their first feedback. -/
def computeActiveHarq (beamId : ℕ → BeamId) (m : UeHarqMap) (feedback : List HarqInfo) :
    Except Fault ActiveHarqMap :=
  feedback.foldlM (fun active f => do
    let p ← m.find f.key
    if !p.active then throw .assertion
    if p.status ≠ .receivedFeedback then throw .assertion
    return addActive (beamId f.rnti) f.key active) []

/-- `CompareNumSym`. -/
def compareNumSym (m : UeHarqMap) (a b : ℕ × ℕ) : Bool :=
  decide (((m.process b).dciElement.elim 0 DciInfoElementTdma.numSym) <
    (m.process a).dciElement.elim 0 DciInfoElementTdma.numSym)

/-- `SortDlHarq`. -/
def sortDlHarq (m : UeHarqMap) (active : ActiveHarqMap) : ActiveHarqMap :=
  active.map fun el => (el.1, Cxx.StdSort.insertionSort (compareNumSym m) el.2)

/-- `m_rrBeams` with the beams that are new. -/
def addBeams (rrBeams beams : List BeamId) : List BeamId :=
  rrBeams ++ beams.filter (· ∉ rrBeams)

/-- The loop of `GetBeamOrderRR`: the beam at the front of the queue is written at position `i`, if it
is active, and moved to the end. -/
def orderLoop (active : List BeamId) : (rounds i : ℕ) → (rrBeams : List BeamId) →
    (ret : List (Option BeamId)) → Except Fault (List (Option BeamId) × List BeamId)
  | 0, _, rrBeams, ret => .ok (ret, rrBeams)
  | _ + 1, _, [], _ => .error .invalidIterator
  | rounds + 1, i, beam :: rrBeams, ret =>
      if beam ∈ active then
        if i < ret.length then
          orderLoop active rounds (i + 1) (rrBeams ++ [beam]) (ret.set i (some beam))
        else .error .outOfRange
      else orderLoop active rounds (i + 1) (rrBeams ++ [beam]) ret

/-- `GetBeamOrderRR`, with the queue it leaves.  The array has as many elements as beams are active;
a position without a beam holds the default `BeamId`. -/
def getBeamOrderRR (rrBeams active : List BeamId) :
    Except Fault (List (Option BeamId) × List BeamId) :=
  let rrBeams := addBeams rrBeams active
  orderLoop active rrBeams.length 0 rrBeams (List.replicate active.length none)

/-- `CountUsedSymbolsFromVarAllocTtiRange`. -/
def countUsedSymbols (startSym : ℕ) (range : List VarTtiAllocInfo) : Except Fault ℕ :=
  if range = [] then .ok 0
  else
    let smallest := range.foldl (fun m a => min m a.dci.symStart) 255
    let largest := range.foldl (fun m a => if m < a.dci.symStart + a.dci.numSym then
      (a.dci.symStart + a.dci.numSym) % 256 else m) startSym
    if smallest = 255 then .error .assertion else .ok (subUint8 largest smallest)

/-- The variables of the loops of `ScheduleDlHarq`. -/
structure DlHarqLoop where
  ues : UeHarqMap
  dlHarqToRetransmit : List HarqInfo
  symAvail : ℕ
  currStartingSymbol : ℕ
  dlBitmask : List Bool
  allocatedUe : List ℕ
  /-- `slotAlloc->m_varTtiAllocInfo`. -/
  varTtiAllocInfo : List VarTtiAllocInfo

/-- Clear the RBGs of the transport block in the bitmask; `none` for a collision. -/
def takeRbgs : List Bool → List Bool → Except Fault (Option (List Bool))
  | [], _ => .ok (some [])
  | _ :: _, [] => .error .outOfRange
  | free :: bitmask, used :: rbgBitmask =>
      if used then
        if free then do
          let r ← takeRbgs bitmask rbgBitmask
          return r.map (false :: ·)
        else .ok none
      else do
        let r ← takeRbgs bitmask rbgBitmask
        return r.map (free :: ·)

/-- `BufferHARQFeedback`. -/
def bufferHARQFeedback (dlHarqFeedback : List HarqInfo) (dci : DciInfoElementTdma)
    (s : DlHarqLoop) : Except Fault DlHarqLoop :=
  match dlHarqFeedback.find? fun f => f.rnti = dci.rnti ∧ f.harqProcessId = dci.harqProcess with
  | some f => .ok { s with dlHarqToRetransmit := s.dlHarqToRetransmit ++ [f] }
  | none => .error .assertion

/-- The body of the loop over the processes of a beam. -/
def retransmitDl (C : DlHarqConfig) (dlHarqFeedback : List HarqInfo) (s : DlHarqLoop)
    (k : ℕ × ℕ) : Except Fault DlHarqLoop := do
  let p ← s.ues.find k
  if p.status ≠ .receivedFeedback then throw .assertion
  match p.dciElement with
  | none => throw .invalidIterator
  | some dciInfoReTx =>
      let s := { s with ues := s.ues.put k p.restart }
      let rbgAssigned := dciInfoReTx.rbgBitmask.count true * dciInfoReTx.numSym
      let rbgAvail := C.bandwidth * s.symAvail
      if dciInfoReTx.rnti ∈ s.allocatedUe then
        bufferHARQFeedback dlHarqFeedback dciInfoReTx s
      else if rbgAvail < rbgAssigned then bufferHARQFeedback dlHarqFeedback dciInfoReTx s
      else if C.fhControl && !C.doesFhAllocationFit dciInfoReTx.mcs rbgAssigned dciInfoReTx.rank then
        bufferHARQFeedback dlHarqFeedback dciInfoReTx s
      else do
        let r ← takeRbgs s.dlBitmask dciInfoReTx.rbgBitmask
        match r with
        | none => bufferHARQFeedback dlHarqFeedback dciInfoReTx s
        | some dlBitmask =>
            let reshaped := { dciInfoReTx with symStart := s.currStartingSymbol }
            if s.symAvail < reshaped.numSym then
              bufferHARQFeedback dlHarqFeedback reshaped
                { s with ues := s.ues.put k (p.restart.setDci reshaped) }
            else if reshaped.format ≠ .dl then throw .assertion
            else
              let dci := reshaped.reTx s.currStartingSymbol
              return { s with
                ues := s.ues.put k (p.restart.setDci dci)
                symAvail := subUint8 s.symAvail dciInfoReTx.numSym
                dlBitmask := dlBitmask
                allocatedUe := s.allocatedUe ++ [dci.rnti]
                varTtiAllocInfo := s.varTtiAllocInfo ++ [⟨dci, p.rlcPduInfo⟩] }

/-- The body of the loop over the beams; `sym` is the symbol of `startingPoint`. -/
def retransmitBeam (C : DlHarqConfig) (dlHarqFeedback : List HarqInfo) (sym : ℕ)
    (active : ActiveHarqMap) (s : DlHarqLoop) (beam : Option BeamId) : Except Fault DlHarqLoop :=
  match active.find? fun el => some el.1 = beam with
  | none => .error .invalidIterator
  | some el => do
      let t ← el.2.foldlM (retransmitDl C dlHarqFeedback) { s with allocatedUe := [] }
      if 0 < t.symAvail then
        let used ← countUsedSymbols sym (t.varTtiAllocInfo.drop s.varTtiAllocInfo.length)
        return { t with
          dlBitmask := C.dlBitmask
          currStartingSymbol := (t.currStartingSymbol + used) % 256
          symAvail := subUint8 t.symAvail used }
      else return t

/-- `ScheduleDlHarq`: the variables, the queue of the beams and the number of used symbols. -/
def scheduleDlHarq (C : DlHarqConfig) (rrBeams : List BeamId) (active : ActiveHarqMap)
    (dlHarqFeedback : List HarqInfo) (s : DlHarqLoop) :
    Except Fault (DlHarqLoop × List BeamId × ℕ) := do
  let order ← getBeamOrderRR rrBeams (active.map Prod.fst)
  let t ← order.1.foldlM (retransmitBeam C dlHarqFeedback s.currStartingSymbol active)
    { s with dlBitmask := C.dlBitmask }
  let used ← countUsedSymbols s.currStartingSymbol
    (t.varTtiAllocInfo.drop s.varTtiAllocInfo.length)
  return (t, order.2, used)

end Rbis
