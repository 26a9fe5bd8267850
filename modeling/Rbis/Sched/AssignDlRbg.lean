import Rbis.Sched.BeamLoop

/-! # `AssignDLRBG`

The whole downlink assignment of a slot: the symbols per beam, then for each beam the
registration of its active UEs (`enterUe`: weight, `m_allUEs`, report to the interface), the
allocation loop (`BeamLoop.lean`) and the fronthaul control, and at the end the virtual queue
and the resource counters of every UE of `m_allUEs`.

`SlotStart` packages the inputs of a call: what `ComputeActiveUe` and the reset of the previous
slot guarantee about the active UEs is a field. -/

namespace Rbis

open Cxx

/-- The objects a call reads and writes: the UEs, the interface, and the static members of the
two classes. -/
structure World where
  ues : UePtr → UeInfo
  drlItf : Ns3DrlInterface := {}
  /-- `NrMacSchedulerOfdmaDPPA::m_allUEs`. -/
  allUEs : List UePtrAndBufferReq := []
  statics : DppaStatics := {}

/-- The key of a UE in the interface, `m_rnti - 1`. -/
def UeInfo.itfKey (ue : UeInfo) : ℤ := (ue.rnti : ℤ) - 1

namespace Scheduler

variable (S : Scheduler) (now : ℚ)

/-- `GetSymPerBeam`: one entry per beam, zero for a beam the strategy left out. -/
def getSymPerBeam (symAvail : ℕ) (activeDl : ActiveUeMap) : BeamSymbolMap :=
  activeDl.foldl (fun m el => m.touch el.1 0) (S.symPerBeam symAvail activeDl)

/-- `BeforeDlSched`: the weight of the UE for this slot. -/
def beforeDlSched (w : World) (ue : UePtrAndBufferReq) (assignable : FTResources) : World :=
  { w with
    ues := Function.update w.ues ue.1
      ((w.ues ue.1).updateDlK w.statics S.dlAmc S.numRbPerRbg ue.2 assignable S.slotPeriod) }

/-- `if (m_allUEs.size() < m_drl_itf.GetUEsNumber()) m_allUEs.push_back(ue)`. -/
def registerUe (allUEs : List UePtrAndBufferReq) (itf : Ns3DrlInterface)
    (ue : UePtrAndBufferReq) : List UePtrAndBufferReq :=
  if allUEs.length < itf.getUEsNumber then allUEs ++ [ue] else allUEs

/-- The report of an active UE to the interface. -/
def reportUe (itf : Ns3DrlInterface) (ue : UeInfo) (buf : ℕ) : Ns3DrlInterface :=
  itf.updateState ue.itfKey ue.dlMcs buf ue.g ((ue.gfbrSum / ue.activeLCs.length : ℕ) : ℚ)
    (S.getPosition ue.rnti) S.slotPeriod now

/-- The body of `for (const auto& ue : GetUeVector(el))`. -/
def enterUe (beamSym : ℕ) (w : World) (ue : UePtrAndBufferReq) : Except Fault World :=
  let w := S.beforeDlSched w ue ⟨beamSym, beamSym⟩
  let w := { w with allUEs := registerUe w.allUEs w.drlItf ue }
  if (w.ues ue.1).activeLCs.length = 0 then .error .divByZero
  else .ok { w with drlItf := S.reportUe now w.drlItf (w.ues ue.1) ue.2 }

/-- The RBGs of the bitmask. -/
def usableRbgs : List ℕ :=
  (List.range S.dlBitmask.length).filter fun i => S.dlBitmask.getD i false

/-- Everything before `while (reapingResources)`, for one beam. -/
def beamEntry (beamSym : ℕ) (w : World) (ues : List UePtrAndBufferReq) :
    Except Fault (World × BeamState) := do
  if S.usableRbgs = [] then throw .assertion
  let w ← ues.foldlM (S.enterUe now beamSym) w
  return (w, {
    alloc := {
      ues := w.ues, remainingRbgSet := S.usableRbgs, assignedResources := ⟨0, 0⟩
      availableRbgs := S.dlBitmask }
    ueVector := S.stdSort.sort (fun a b => compareUeWeightsDl (w.ues a.1) (w.ues b.1)) ues
    schedInfoIt := 0
    reapingResources := true
    pc := .reapTest })

/-- The allocation loop, run to its end. -/
def runLoop (st : DppaStatics) (beamSym : ℕ) (s : BeamState) : Except Fault BeamState :=
  let t := Orbit.runFuel (S.step st beamSym) BeamState.halted (loopFuel s) s
  match t.pc with
  | .finished => .ok t
  | .fault f => .error f
  | _ => .error .diverged

/-- Fronthaul control `OptimizeMcs`: cap the MCS of a UE with an allocation. -/
def capMcs (fh : NrFhControl) (ues : UePtr → UeInfo) (ue : UePtrAndBufferReq) :
    Except Fault (UePtr → UeInfo) :=
  let u := ues ue.1
  if u.dlRBG = [] then .ok ues
  else do
    let mcs ← u.getDlMcs S.dlAmc
    let cap := min mcs (fh.getMaxMcsAssignable u.dlRBG.length u.rnti u.dlRank)
    return Function.update ues ue.1 { u with fhMaxMcsAssignable := some cap }

/-- One round of `DeallocateResourcesDueToFronthaulConstraint`. -/
def dropUnfit (fh : NrFhControl) (beamSym : ℕ) (acc : Alloc × List FhQuery)
    (ue : UePtrAndBufferReq) : Except Fault (Alloc × List FhQuery) :=
  let u := acc.1.ues ue.1
  if u.dlRBG = [] then .ok acc
  else do
    let mcs ← u.getDlMcs S.dlAmc
    let query : FhQuery := ⟨mcs, u.dlRBG.length, u.dlRank⟩
    if fh.doesAllocationFit acc.2 query then return (acc.1, acc.2 ++ [query])
    else
      let a ← releaseRbgs ue.1 beamSym (fun _ l => l) u.dlRBG.length acc.1
      return (a, acc.2 ++ [query])

/-- `DeallocateResourcesDueToFronthaulConstraint`. -/
def deallocateResourcesDueToFronthaulConstraint (fh : NrFhControl) (beamSym : ℕ)
    (ueVector : List UePtrAndBufferReq) (a : Alloc) (queries : List FhQuery) :
    Except Fault (Alloc × List FhQuery) :=
  (S.stdShuffle ueVector).foldlM (S.dropUnfit fh beamSym) (a, queries)

/-- The MCS caps, over all the UEs with data. -/
def capAll (fh : NrFhControl) (ues : List UePtrAndBufferReq) (heap : UePtr → UeInfo) :
    Except Fault (UePtr → UeInfo) :=
  if fh.fhControlMethod = .optimizeMcs then ues.foldlM (S.capMcs fh) heap else .ok heap

/-- The fronthaul control after the loop of a beam with UEs `ues`. -/
def fronthaul (beamSym : ℕ) (ues : List UePtrAndBufferReq) (s : BeamState)
    (queries : List FhQuery) : Except Fault (Alloc × List FhQuery) :=
  match S.fhControl with
  | none => .ok (s.alloc, queries)
  | some fh => do
      let heap ← S.capAll fh ues s.alloc.ues
      let a := { s.alloc with ues := heap }
      match fh.fhControlMethod with
      | .dropping => return (a, queries)
      | _ => S.deallocateResourcesDueToFronthaulConstraint fh beamSym s.ueVector a queries

/-- One beam: entry, allocation loop, fronthaul. -/
def assignBeam (symPerBeam : BeamSymbolMap) (acc : World × List FhQuery)
    (el : BeamId × List UePtrAndBufferReq) : Except Fault (World × List FhQuery) := do
  let beamSym := symPerBeam.getD el.1 0
  let e ← S.beamEntry now beamSym acc.1 el.2
  let s ← S.runLoop e.1.statics beamSym e.2
  let r ← S.fronthaul beamSym el.2 s acc.2
  return ({ e.1 with ues := r.1.ues }, r.2)

/-- `total_resources`, overwritten by every beam. -/
def totalResources (symPerBeam : BeamSymbolMap) (activeDl : ActiveUeMap) : ℕ :=
  match activeDl.getLast? with
  | none => 0
  | some el => symPerBeam.getD el.1 0 * S.numRbPerRbg * S.usableRbgs.length

/-- The symbols of all the beams. -/
def symbolsOf (symPerBeam : BeamSymbolMap) (activeDl : ActiveUeMap) : ℕ :=
  (activeDl.map fun el => symPerBeam.getD el.1 0).sum

/-- The end of the call, for one UE of `m_allUEs`. -/
def closeUe (total : ℕ) (w : World) (ue : UePtrAndBufferReq) : World :=
  let u := w.ues ue.1
  let u := if S.enableVirtualQueue then u.updateDlTputVirtualQueue S.slotPeriod else u
  { w with
    ues := Function.update w.ues ue.1 u
    drlItf := w.drlItf.updateMetricsRbs u.itfKey ((S.numRbPerRbg * u.dlRBG.length : ℕ) : ℚ)
      ((S.numRbPerRbg * total : ℕ) : ℚ) }

/-- `AssignDLRBG` at simulation time `now`. -/
def assignDLRBG (w : World) (symAvail : ℕ) (activeDl : ActiveUeMap) :
    Except Fault (World × BeamSymbolMap) := do
  let symPerBeam := S.getSymPerBeam symAvail activeDl
  let r ← activeDl.foldlM (S.assignBeam now symPerBeam) (w, [])
  let total := S.totalResources symPerBeam activeDl
  return (r.1.allUEs.foldl (S.closeUe total) r.1, symPerBeam)

end Scheduler

/-- The UE is as `ResetDlSchedInfo` leaves it. -/
def UeInfo.Clean (u : UeInfo) : Prop := u.dlRBG = [] ∧ u.dlSym = [] ∧ u.dlTbSize = 0

/-- The inputs of a call of `AssignDLRBG`. -/
structure SlotStart where
  world : World
  symAvail : ℕ
  activeDl : ActiveUeMap
  /-- `ComputeActiveUe` only makes entries with a UE. -/
  nonempty : ∀ el ∈ activeDl, el.2 ≠ []
  /-- A UE is in one beam, once. -/
  nodup : (activeDl.flatMap fun el => el.2.map Prod.fst).Nodup
  /-- `ResetDlSchedInfo` ended the previous slot of every active UE. -/
  clean : ∀ el ∈ activeDl, ∀ ue ∈ el.2, (world.ues ue.1).Clean

/-- `s` is the state in which the allocation loop of a beam of the call starts; `st` and
`beamSym` are what the loop reads. -/
def Scheduler.LoopEntry (S : Scheduler) (now : ℚ) (i : SlotStart) (st : DppaStatics)
    (beamSym : ℕ) (s : BeamState) : Prop :=
  ∃ pre el post acc e, i.activeDl = pre ++ el :: post ∧
    pre.foldlM (S.assignBeam now (S.getSymPerBeam i.symAvail i.activeDl)) (i.world, []) = .ok acc ∧
    beamSym = (S.getSymPerBeam i.symAvail i.activeDl).getD el.1 0 ∧
    S.beamEntry now beamSym acc.1 el.2 = .ok e ∧ st = e.1.statics ∧ s = e.2

theorem Scheduler.LoopEntry.first {S : Scheduler} {now : ℚ} {i : SlotStart}
    {el : BeamId × List UePtrAndBufferReq} {post : ActiveUeMap} {e : World × BeamState}
    (hi : i.activeDl = el :: post)
    (he : S.beamEntry now ((S.getSymPerBeam i.symAvail i.activeDl).getD el.1 0) i.world el.2 =
      .ok e) :
    S.LoopEntry now i e.1.statics ((S.getSymPerBeam i.symAvail i.activeDl).getD el.1 0) e.2 :=
  ⟨[], el, post, (i.world, []), e, hi, rfl, rfl, he, rfl, rfl⟩

/-- A scheduler with wideband reports, one resource block per RBG, and no fronthaul control. -/
def Scheduler.wideband (dlBitmask : List Bool) : Scheduler where
  dlAmc := ⟨fun _ _ nprb => 5 * nprb, fun _ => 0, fun _ => 0⟩
  mcsCsiSource := .widebandMcs
  numRbPerRbg := 1
  dlBitmask := dlBitmask
  fhControl := none
  slotPeriodNs := 1000000
  slotPeriod_pos := by decide
  enableVirtualQueue := true
  getPosition := fun _ => {}
  symPerBeam := fun symAvail activeDl => activeDl.foldl (fun m el => m.set el.1 symAvail) .empty
  stdSort := .insertion
  stdShuffle := id
  stdShuffle_perm := List.Perm.refl
  vLyapunov := 1
  ueNodes := 2
  enableXApp := true
  getCloseToObs := fun _ _ _ => false

/-- A world in which every UE has one active logical channel and the virtual queue `g`. -/
def World.fresh (statics : DppaStatics) (g : UePtr → ℚ) : World where
  ues := fun p => { rnti := p + 1, dlLCG := [[⟨4, 100, 0, 0, 1000⟩]], g := g p }
  statics := statics

/-- A slot of twelve symbols with one beam. -/
def SlotStart.oneBeam (world : World) (hclean : ∀ p, (world.ues p).Clean)
    (ue : UePtrAndBufferReq) (ues : List UePtrAndBufferReq)
    (hn : ((ue :: ues).map Prod.fst).Nodup) : SlotStart where
  world := world
  symAvail := 12
  activeDl := [(⟨0, 0⟩, ue :: ues)]
  nonempty := by simp
  nodup := by simpa using hn
  clean := fun _ _ ue _ => hclean ue.1

end Rbis
