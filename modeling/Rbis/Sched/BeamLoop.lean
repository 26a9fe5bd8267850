import Rbis.Lib.Runs
import Rbis.Sched.Alloc

/-! # The allocation loop of one beam

The two nested loops of `AssignDLRBG`, as a machine: `BeamState` holds the local variables of
the loops and a program point `Pc`, `Scheduler.step` executes the code up to the next program
point.

    while (reapingResources) {                               // reapTest
        while (!remainingRbgSet.empty()) {                   // allocTest
            prevRemaining = ...; lyapunov = ...;
            while (AdvanceToNextUeToSchedule(...)) { ... }   // serve
            if (prevRemaining == remainingRbgSet.size()) break;  // progress
        }
        sort; reap and pop_back, or reapingResources = false // reap
    }

The iterator `schedInfoIt` is the index of an element of `ueVector`; the code keeps it across
the sort and the `pop_back` of a reaping round.  A dereference outside the vector ends the run
in the fault `invalidIterator`. -/

namespace Rbis

open Cxx

/-- The program points of the loops. -/
inductive Pc where
  | reapTest
  | allocTest
  | serve (prevRemaining : ℕ) (lyapunov : Bool)
  | progress (prevRemaining : ℕ)
  | reap
  | finished
  | fault (f : Fault)
deriving DecidableEq

structure BeamState where
  alloc : Alloc
  ueVector : List UePtrAndBufferReq
  schedInfoIt : ℕ
  reapingResources : Bool
  pc : Pc

namespace BeamState

def ueOf (s : BeamState) (ue : UePtrAndBufferReq) : UeInfo := s.alloc.ues ue.1

/-- `*schedInfoIt`. -/
def deref (s : BeamState) : Except Fault UePtrAndBufferReq :=
  match s.ueVector[s.schedInfoIt]? with
  | some ue => .ok ue
  | none => .error .invalidIterator

/-- The loops are over. -/
def halted (s : BeamState) : Bool :=
  match s.pc with
  | .finished => true
  | .fault _ => true
  | _ => false

/-- Continue with the result of a program point, or stop with its fault. -/
def settle (s : BeamState) : Except Fault BeamState → BeamState
  | .ok t => t
  | .error f => { s with pc := .fault f }

end BeamState

/-- `while (!m_dlRBG.empty()) Deallocate...(m_dlRBG.back())`, with what the caller does with the
freed RBG.  Every round removes `beamSym` entries; with `beamSym = 0` the loop does not end. -/
def releaseRbgs (p : UePtr) (beamSym : ℕ) (onFree : ℕ → List ℕ → List ℕ) :
    ℕ → Alloc → Except Fault Alloc
  | 0, a => if (a.ues p).dlRBG = [] then .ok a else .error .diverged
  | n + 1, a =>
      match (a.ues p).dlRBG.getLast? with
      | none => .ok a
      | some rbg => do
          let b ← deallocateCurrentResourceFromUe p rbg beamSym a
          releaseRbgs p beamSym onFree n
            { b with remainingRbgSet := onFree rbg b.remainingRbgSet }

namespace Scheduler

variable (S : Scheduler) (st : DppaStatics) (beamSym : ℕ)

/-- The test `!remainingRbgSet.empty()` and the start of the inner loop's body. -/
def allocTest (s : BeamState) : Except Fault BeamState :=
  if s.alloc.remainingRbgSet = [] then .ok { s with pc := .reap }
  else do
    let ue ← s.deref
    return { s with pc := .serve s.alloc.remainingRbgSet.length ((s.ueOf ue).admitted st) }

/-- `NotAssignedDlResources` for the UEs with another RNTI than the served one. -/
def notAssignedOthers (served : UePtr) (ueVector : List UePtrAndBufferReq) (a : Alloc) :
    Except Fault Alloc :=
  ueVector.foldlM (fun a ue =>
    if (a.ues ue.1).rnti ≠ (a.ues served).rnti then S.assignedDlResources ue.1 a else .ok a) a

/-- The rest of a round of the serving loop, after the attempt for the UE `ue` at the
iterator. -/
def afterAttempt (prevRemaining : ℕ) (ue : UePtrAndBufferReq) (s : BeamState)
    (r : Bool × Alloc) : Except Fault BeamState :=
  if r.1 then do
    let a ← S.notAssignedOthers ue.1 s.ueVector r.2
    return { s with alloc := a, pc := .progress prevRemaining }
  else
    let s := { s with alloc := r.2, schedInfoIt := s.schedInfoIt + 1 }
    if s.schedInfoIt = s.ueVector.length then
      .ok { s with reapingResources := false, pc := .progress prevRemaining }
    else do
      let ue ← s.deref
      return { s with pc := .serve prevRemaining ((s.ueOf ue).admitted st) }

/-- One round of `while (AdvanceToNextUeToSchedule(...))`.  A UE that is not admitted is discarded
and the loop left. -/
def serve (prevRemaining : ℕ) (lyapunov : Bool) (s : BeamState) : Except Fault BeamState := do
  let it ← S.advanceToNextUeToSchedule s.alloc.ues s.ueVector s.schedInfoIt beamSym
  let s := { s with schedInfoIt := it }
  if it = s.ueVector.length then return { s with pc := .progress prevRemaining }
  else if lyapunov = false then return { s with pc := .progress prevRemaining }
  else
    let ue ← s.deref
    let r ← S.attemptAllocationOfCurrentResourceToUe ue.1 beamSym s.alloc
    S.afterAttempt st prevRemaining ue s r

/-- `ueVector` after the sort by decreasing `m_dlTbSize`. -/
def sortByTbSize (s : BeamState) : List UePtrAndBufferReq :=
  S.stdSort.sort (fun a b => decide ((s.ueOf a).dlTbSize > (s.ueOf b).dlTbSize)) s.ueVector

/-- The UE whose resources are reaped, if there is one: the last one after the sort, when its
transport block is smaller than 10 bytes. -/
def reapVictim (s : BeamState) : Option UePtrAndBufferReq :=
  match (S.sortByTbSize s).getLast? with
  | none => none
  | some ue => if (s.ueOf ue).dlTbSize < 10 then some ue else none

/-- The sort and the reaping after the inner loop. -/
def reap (s : BeamState) : Except Fault BeamState :=
  match S.reapVictim s with
  | none =>
      .ok { s with ueVector := S.sortByTbSize s, reapingResources := false, pc := .reapTest }
  | some ue => do
      let a ← releaseRbgs ue.1 beamSym emplace (s.ueOf ue).dlRBG.length s.alloc
      let a ← S.assignedDlResources ue.1 a
      let a ← (S.sortByTbSize s).foldlM (fun a uev => S.assignedDlResources uev.1 a) a
      return { s with alloc := a, ueVector := (S.sortByTbSize s).dropLast, pc := .reapTest }

/-- Execute the code from the program point of `s` to the next one. -/
def step (s : BeamState) : BeamState :=
  match s.pc with
  | .reapTest => { s with pc := if s.reapingResources then .allocTest else .finished }
  | .allocTest => s.settle (allocTest st s)
  | .serve prevRemaining lyapunov => s.settle (S.serve st beamSym prevRemaining lyapunov s)
  | .progress prevRemaining =>
      { s with
        pc := if prevRemaining = s.alloc.remainingRbgSet.length then .reap else .allocTest }
  | .reap => s.settle (S.reap beamSym s)
  | .finished => s
  | .fault _ => s

/-- A bound on the number of steps from `s`: every reaping round removes a UE, every round of
the inner loop an RBG, every round of the serving loop moves the iterator. -/
def loopFuel (s : BeamState) : ℕ :=
  let perRbg := s.ueVector.length + 4
  let perReap := s.alloc.availableRbgs.length * perRbg + 5
  s.ueVector.length * perReap + s.alloc.availableRbgs.length * perRbg + 5

end Scheduler

end Rbis
