import Rbis.Sched.CallFrame

/-! # The request to the xApp

`MakeRestRequest` reports the aggregated state of the period and applies the weights of the
response.  What the HTTP client returns (`PostResult`) is an input.  The response is read
through the non-`const` `operator[]` of the JSON library: a missing key or an index past the
end yields `null`, which is no number, and a value of the wrong kind throws. -/

namespace Rbis

open Cxx Fallible

/-- A JSON value. -/
inductive Json where
  | null
  | bool (b : Bool)
  | num (q : ℚ)
  | str (s : String)
  | array (l : List Json)
  | object (fields : List (String × Json))

namespace Json

/-- `j[key]`. -/
def field (key : String) : Json → Except Fault Json
  | .null => .ok .null
  | .object fields => .ok ((fields.lookup key).getD .null)
  | _ => .error .json

/-- `j[i]`. -/
def index (i : ℕ) : Json → Except Fault Json
  | .null => .ok .null
  | .array l => .ok (l.getD i .null)
  | _ => .error .json

def isArray : Json → Bool
  | .array _ => true
  | _ => false

/-- The conversion to `double`. -/
def toDouble : Json → Except Fault ℚ
  | .num q => .ok q
  | _ => .error .json

end Json

/-- What the HTTP client returns: nothing, or a body, which may be no JSON text. -/
inductive PostResult where
  | failed
  | body (json : Option Json)

/-- The events of the scheduler in the simulator. -/
inductive Event where
  | scheduleRestRequest
  | makeRestRequest
deriving DecidableEq

/-- `value < low ? 0 : (value < high ? 1 : 2)`. -/
def discretize (low high value : ℚ) : ℕ := if value < low then 0 else if value < high then 1 else 2

/-- The conversion of a `double` to `int`. -/
def truncate (q : ℚ) : ℤ := if 0 ≤ q then ⌊q⌋ else -⌊-q⌋

/-- The body of the request. -/
structure RestReport where
  time : ℚ
  reward : Dbl
  rewardThput : Dbl
  mcs : List ℕ
  q : List ℕ
  g : List ℕ
  gfbr : List ℤ
  closeToObstacle : List ℕ

/-- `json_data["state"].empty()`: no UE was added to it. -/
def RestReport.stateEmpty (r : RestReport) : Bool := r.mcs.isEmpty

/-- The weights of a response for the UE with this RNTI: `v`, and its entries of `wq` and `wg`,
or `wq` and `wg` themselves when `wq` is no array.  The index is computed in `uint32_t`. -/
def entriesOf (actions : Json) (rnti : ℕ) : Except Fault (ℚ × ℚ × ℚ) := do
  let wq ← actions.field "wq"
  let v ← actions.field "v" >>= Json.toDouble
  let wg ← actions.field "wg"
  if wq.isArray then
    let i := (rnti + (2 ^ 32 - 1)) % 2 ^ 32
    let dppWeightQ ← wq.index i >>= Json.toDouble
    let dppWeightG ← wg.index i >>= Json.toDouble
    return (v, dppWeightQ, dppWeightG)
  else
    let dppWeightQ ← wq.toDouble
    let dppWeightG ← wg.toDouble
    return (v, dppWeightQ, dppWeightG)

/-- `SetDppWeights` with the entries of one UE of `m_allUEs`. -/
def applyEntries (ues : UePtr → UeInfo) (actions : Json) (_ : DppaStatics)
    (ue : UePtrAndBufferReq) : Except Fault DppaStatics := do
  let e ← entriesOf actions (ues ue.1).rnti
  return setDppWeights e.1 e.2.1 e.2.2

/-- The same weights for every UE of `m_allUEs`. -/
def setAllDppWeights (v wq wg : ℚ) (w : World) : DppaStatics :=
  w.allUEs.foldl (fun _ _ => setDppWeights v wq wg) w.statics

namespace Scheduler

variable (S : Scheduler) (now : ℚ)

/-- The state of the UEs `0, 1, ..., GetUEsNumber() - 1`. -/
def restReport (itf : Ns3DrlInterface) : RestReport :=
  let ids := List.range itf.getUEsNumber
  { time := now
    reward := itf.reward
    rewardThput := itf.rewardThput
    mcs := ids.map fun (i : ℕ) => discretize 22 25 (itf.getMcs i)
    q := ids.map fun (i : ℕ) => discretize 1000000 5000000 (itf.getQ i)
    g := ids.map fun (i : ℕ) => discretize 1000000 10000000 (itf.getG i)
    gfbr := ids.map fun (i : ℕ) => truncate (itf.getGfbr i / 1000000)
    closeToObstacle := ids.map fun (i : ℕ) => if S.getCloseToObs itf i now then 1 else 0 }

/-- The static members after the response. -/
def applyResponse (w : World) : PostResult → Except Fault DppaStatics
  | .failed => .ok (setAllDppWeights 0 0 0 w)
  | .body none => .error .json
  | .body (some actions) =>
      if S.ueNodes = 0 then .ok w.statics
      else w.allUEs.foldlM (applyEntries w.ues actions) w.statics

/-- `MakeRestRequest`: the world after it and the events it schedules. -/
def makeRestRequest (post : RestReport → PostResult) (w : World) :
    Except Fault (World × List Event) :=
  let itf := w.drlItf.calculateReward
  if S.enableXApp = false then
    .ok ({ w with statics := setAllDppWeights S.vLyapunov 0 1 w, drlItf := itf.reset },
      [.makeRestRequest])
  else
    let report := S.restReport now itf
    if report.stateEmpty then .ok ({ w with drlItf := itf }, [])
    else do
      let statics ← S.applyResponse w (post report)
      return ({ w with statics := statics, drlItf := itf.reset }, [.makeRestRequest])

/-! ### The outcomes of a request -/

variable {S now}

theorem stateEmpty_restReport (itf : Ns3DrlInterface) :
    (S.restReport now itf).stateEmpty = true ↔ itf.reported = ∅ := by
  have h : (S.restReport now itf).stateEmpty = true ↔ itf.getUEsNumber = 0 := by
    unfold RestReport.stateEmpty restReport
    rw [List.isEmpty_iff, List.map_eq_nil_iff, List.range_eq_nil]
  rw [h, Ns3DrlInterface.getUEsNumber_eq_card, Finset.card_eq_zero]

theorem makeRestRequest_sent {post : RestReport → PostResult} {w : World}
    (hx : S.enableXApp = true) (hr : w.drlItf.reported ≠ ∅) :
    S.makeRestRequest now post w =
      (S.applyResponse w (post (S.restReport now w.drlItf.calculateReward)) >>= fun statics =>
        .ok ({ w with statics := statics, drlItf := w.drlItf.calculateReward.reset },
          [.makeRestRequest])) := by
  have he : ¬ (S.restReport now w.drlItf.calculateReward).stateEmpty = true := by
    rw [stateEmpty_restReport, Ns3DrlInterface.reported_calculateReward]
    exact hr
  unfold makeRestRequest
  rw [if_neg (by simp [hx])]
  dsimp only
  rw [if_neg he]
  rfl

theorem makeRestRequest_empty {post : RestReport → PostResult} {w : World}
    (hx : S.enableXApp = true) (hr : w.drlItf.reported = ∅) :
    S.makeRestRequest now post w = .ok ({ w with drlItf := w.drlItf.calculateReward }, []) := by
  have he : (S.restReport now w.drlItf.calculateReward).stateEmpty = true := by
    rw [stateEmpty_restReport, Ns3DrlInterface.reported_calculateReward]
    exact hr
  unfold makeRestRequest
  rw [if_neg (by simp [hx])]
  dsimp only
  rw [if_pos he]

theorem makeRestRequest_disabled {post : RestReport → PostResult} {w : World}
    (hx : S.enableXApp = false) :
    S.makeRestRequest now post w =
      .ok ({ w with
        statics := setAllDppWeights S.vLyapunov 0 1 w, drlItf := w.drlItf.calculateReward.reset },
        [.makeRestRequest]) := by
  unfold makeRestRequest
  rw [if_pos hx]

theorem makeRestRequest_ok {post : RestReport → PostResult} {w w' : World} {events : List Event}
    (h : S.makeRestRequest now post w = .ok (w', events)) :
    w'.ues = w.ues ∧ w'.allUEs = w.allUEs ∧
      (events = [] ∧ w'.drlItf = w.drlItf.calculateReward ∨
        events = [.makeRestRequest] ∧ w'.drlItf = w.drlItf.calculateReward.reset) := by
  cases hx : S.enableXApp with
  | false =>
      rw [makeRestRequest_disabled hx] at h
      cases h
      exact ⟨rfl, rfl, Or.inr ⟨rfl, rfl⟩⟩
  | true =>
      by_cases hr : w.drlItf.reported = ∅
      · rw [makeRestRequest_empty hx hr] at h
        cases h
        exact ⟨rfl, rfl, Or.inl ⟨rfl, rfl⟩⟩
      · rw [makeRestRequest_sent hx hr] at h
        obtain ⟨st, _, h⟩ := bind_eq_ok.mp h
        cases h
        exact ⟨rfl, rfl, Or.inr ⟨rfl, rfl⟩⟩

end Scheduler

end Rbis
