import Rbis.Sched.RestRequest

/-! # The control loop

The scheduler talks to the xApp in a loop of simulator events: the constructor schedules
`ScheduleRestRequest`, which schedules `MakeRestRequest`, which schedules itself.  Between two
events the interface changes by the calls that report UEs and metrics, and, being a singleton,
by resets of other users.

`MakeRestRequest` returns before the reset and the rescheduling when no UE was reported since
the last reset, and an unusable response throws.  The loop goes on forever exactly if neither
happens (`persists_iff`). -/

namespace Rbis

open Cxx Fallible

/-- The simulator, as far as the loop is concerned. -/
structure Sim where
  world : World
  pending : List Event := [.scheduleRestRequest]
  /-- The exception that ended the simulation. -/
  aborted : Option Fault := none

/-- What happens in the simulator. -/
inductive SimOp where
  /-- The first pending event is executed; `post` is what the HTTP client would return. -/
  | fire (now : ℚ) (post : RestReport → PostResult)
  | updateState (rnti : ℤ) (mcs q g gfbr : ℚ) (pos : Vector3) (timeSlot tLastUpdate : ℚ)
  | updateMetricsThput (rnti : ℤ) (thput : ℚ)
  | updateMetricsRbs (rnti : ℤ) (rbs totalRbs : ℚ)
  | reset
  | register (ue : UePtrAndBufferReq)

namespace Sim

/-- A call that changes the interface. -/
def onItf (s : Sim) (f : Ns3DrlInterface → Ns3DrlInterface) : Sim :=
  { s with world := { s.world with drlItf := f s.world.drlItf } }

/-- The execution of the first pending event. -/
def fire (S : Scheduler) (now : ℚ) (post : RestReport → PostResult) (s : Sim) : Sim :=
  match s.pending with
  | [] => s
  | .scheduleRestRequest :: rest => { s with pending := rest ++ [.makeRestRequest] }
  | .makeRestRequest :: rest =>
      match S.makeRestRequest now post s.world with
      | .ok (w, events) => { s with world := w, pending := rest ++ events }
      | .error f => { s with pending := [], aborted := some f }

def step (S : Scheduler) (s : Sim) : SimOp → Sim
  | .fire now post => s.fire S now post
  | .updateState rnti mcs q g gfbr pos timeSlot tLastUpdate =>
      s.onItf fun itf => itf.updateState rnti mcs q g gfbr pos timeSlot tLastUpdate
  | .updateMetricsThput rnti thput => s.onItf fun itf => itf.updateMetricsThput rnti thput
  | .updateMetricsRbs rnti rbs totalRbs => s.onItf fun itf => itf.updateMetricsRbs rnti rbs totalRbs
  | .reset => s.onItf Ns3DrlInterface.reset
  | .register ue => { s with world := { s.world with allUEs := s.world.allUEs ++ [ue] } }

variable {S : Scheduler}

/-- A request is pending after the step, and if the step executes `MakeRestRequest`, then
exactly one further `MakeRestRequest`, and the interface is reset. -/
def Persists (S : Scheduler) (s : Sim) (op : SimOp) : Prop :=
  (s.step S op).pending ≠ [] ∧
    ∀ now post, op = .fire now post → s.pending.head? = some .makeRestRequest →
      (s.step S op).pending = [.makeRestRequest] ∧
        ∃ itf : Ns3DrlInterface, (s.step S op).world.drlItf = itf.reset

/-- The response can be applied: the request failed, or the body is JSON and gives numbers to
every UE it is applied to. -/
def Usable (S : Scheduler) (w : World) : PostResult → Prop
  | .failed => True
  | .body none => False
  | .body (some actions) =>
      S.ueNodes = 0 ∨ ∀ ue ∈ w.allUEs, (entriesOf actions (w.ues ue.1).rnti).isOk = true

/-- When the step executes `MakeRestRequest` with the xApp enabled, some UE was reported since
the last reset, and the response is usable. -/
def Answered (S : Scheduler) (s : Sim) : SimOp → Prop
  | .fire now post =>
      s.pending.head? = some .makeRestRequest → S.enableXApp = true →
        s.world.drlItf.reported ≠ ∅ ∧
          Usable S s.world (post (S.restReport now s.world.drlItf.calculateReward))
  | _ => True

/-! ### Usable responses -/

theorem foldlM_applyEntries_isOk {ues : UePtr → UeInfo} {actions : Json} :
    ∀ {l : List UePtrAndBufferReq} {st : DppaStatics},
      (l.foldlM (applyEntries ues actions) st).isOk = true ↔
        ∀ ue ∈ l, (entriesOf actions (ues ue.1).rnti).isOk = true
  | [], _ => by simp [List.foldlM_nil, Except.isOk, Except.toBool]
  | ue :: l, st => by
      rw [List.foldlM_cons]
      cases he : entriesOf actions (ues ue.1).rnti with
      | error f =>
          have h : applyEntries ues actions st ue = .error f := by
            unfold applyEntries
            rw [he, error_bind]
          rw [h, error_bind]
          simp [he, Except.isOk, Except.toBool]
      | ok e =>
          have h : applyEntries ues actions st ue = .ok (setDppWeights e.1 e.2.1 e.2.2) := by
            unfold applyEntries
            rw [he, ok_bind, pure_eq]
          rw [h, ok_bind, foldlM_applyEntries_isOk, List.forall_mem_cons, he]
          simp [Except.isOk, Except.toBool]

theorem usable_iff {w : World} {res : PostResult} :
    Usable S w res ↔ ∃ st, S.applyResponse w res = .ok st := by
  have hok : ∀ x : Except Fault DppaStatics, x.isOk = true ↔ ∃ st, x = .ok st := by
    intro x
    refine ⟨exists_of_isOk, ?_⟩
    rintro ⟨st, rfl⟩
    rfl
  cases res with
  | failed => exact ⟨fun _ => ⟨_, rfl⟩, fun _ => trivial⟩
  | body json =>
      cases json with
      | none => exact ⟨False.elim, fun ⟨_, h⟩ => by cases h⟩
      | some actions =>
          simp only [Usable, Scheduler.applyResponse]
          by_cases hn : S.ueNodes = 0
          · simp [hn]
          · rw [if_neg hn, ← hok, foldlM_applyEntries_isOk]
            simp [hn]

/-! ### One event -/

/-- The states in which the loop goes on. -/
def Alive (s : Sim) : Prop := s.pending = [.scheduleRestRequest] ∨ s.pending = [.makeRestRequest]

theorem fire_makeRestRequest {s : Sim} (hs : s.pending = [.makeRestRequest]) {now : ℚ}
    {post : RestReport → PostResult} {w : World} {events : List Event}
    (h : S.makeRestRequest now post s.world = .ok (w, events)) :
    s.step S (.fire now post) = { s with world := w, pending := events } := by
  simp [step, fire, hs, h]

theorem fire_makeRestRequest_error {s : Sim} (hs : s.pending = [.makeRestRequest]) {now : ℚ}
    {post : RestReport → PostResult} {f : Fault}
    (h : S.makeRestRequest now post s.world = .error f) :
    s.step S (.fire now post) = { s with pending := [], aborted := some f } := by
  simp [step, fire, hs, h]

/-- **One execution** of `MakeRestRequest` resets the interface and schedules the next one
exactly if it is answered. -/
theorem persists_fire {s : Sim} (hs : s.pending = [.makeRestRequest]) (now : ℚ)
    (post : RestReport → PostResult) :
    Persists S s (.fire now post) ↔ Answered S s (.fire now post) := by
  have hgood : ∀ (w : World) (itf : Ns3DrlInterface), w.drlItf = itf.reset →
      S.makeRestRequest now post s.world = .ok (w, [.makeRestRequest]) →
      Persists S s (.fire now post) := by
    intro w itf hw h
    unfold Persists
    rw [fire_makeRestRequest hs h]
    exact ⟨by simp, fun _ _ _ _ => ⟨rfl, itf, hw⟩⟩
  have hbad : (s.step S (.fire now post)).pending = [] → ¬ Persists S s (.fire now post) :=
    fun h hp => hp.1 h
  have hhead : s.pending.head? = some .makeRestRequest := by rw [hs]; rfl
  cases hx : S.enableXApp with
  | false =>
      have h := hgood _ _ rfl (Scheduler.makeRestRequest_disabled hx)
      refine ⟨fun _ _ hx' => ?_, fun _ => h⟩
      rw [hx] at hx'
      cases hx'
  | true =>
      by_cases hr : s.world.drlItf.reported = ∅
      · have h := hbad (by rw [fire_makeRestRequest hs (Scheduler.makeRestRequest_empty hx hr)])
        refine ⟨fun hp => absurd hp h, fun ha => ?_⟩
        exact absurd hr (ha hhead hx).1
      · have hsent : S.makeRestRequest now post s.world = _ :=
          Scheduler.makeRestRequest_sent hx hr
        cases hres : S.applyResponse s.world
            (post (S.restReport now s.world.drlItf.calculateReward)) with
        | ok st =>
            rw [hres, ok_bind] at hsent
            have h := hgood _ _ rfl hsent
            exact ⟨fun _ _ _ => ⟨hr, usable_iff.mpr ⟨st, hres⟩⟩, fun _ => h⟩
        | error f =>
            rw [hres, error_bind] at hsent
            have h := hbad (by rw [fire_makeRestRequest_error hs hsent])
            refine ⟨fun hp => absurd hp h, fun ha => ?_⟩
            obtain ⟨st, hst⟩ := usable_iff.mp (ha hhead hx).2
            rw [hres] at hst
            cases hst

/-- **Step lemma.** From a state in which the loop goes on, a step keeps it going exactly if it
is answered. -/
theorem persists_step {s : Sim} (hs : s.Alive) (op : SimOp) :
    Persists S s op ↔ Answered S s op := by
  have hne : s.pending ≠ [] := by
    obtain h | h := hs
    · simp [h]
    · simp [h]
  cases op with
  | fire now post =>
      obtain h | h := hs
      · have hstep : (s.step S (.fire now post)).pending = [.makeRestRequest] := by
          simp [step, fire, h]
        have hhead : s.pending.head? ≠ some .makeRestRequest := by simp [h]
        refine ⟨fun _ h' => absurd h' hhead, fun _ => ⟨by simp [hstep], ?_⟩⟩
        intro _ _ _ h'
        exact absurd h' hhead
      · exact persists_fire h now post
  | updateState rnti mcs q g gfbr pos timeSlot t =>
      exact ⟨fun _ => trivial, fun _ => ⟨hne, fun _ _ h => by cases h⟩⟩
  | updateMetricsThput rnti thput =>
      exact ⟨fun _ => trivial, fun _ => ⟨hne, fun _ _ h => by cases h⟩⟩
  | updateMetricsRbs rnti rbs total =>
      exact ⟨fun _ => trivial, fun _ => ⟨hne, fun _ _ h => by cases h⟩⟩
  | reset => exact ⟨fun _ => trivial, fun _ => ⟨hne, fun _ _ h => by cases h⟩⟩
  | register ue => exact ⟨fun _ => trivial, fun _ => ⟨hne, fun _ _ h => by cases h⟩⟩

theorem alive_step {s : Sim} (hs : s.Alive) {op : SimOp} (hp : Persists S s op) :
    (s.step S op).Alive := by
  cases op with
  | fire now post =>
      obtain h | h := hs
      · exact Or.inr (by simp [step, fire, h])
      · exact Or.inr (hp.2 now post rfl (by rw [h]; rfl)).1
  | updateState rnti mcs q g gfbr pos timeSlot t => exact hs
  | updateMetricsThput rnti thput => exact hs
  | updateMetricsRbs rnti rbs total => exact hs
  | reset => exact hs
  | register ue => exact hs

end Sim

/-- **The control loop persists** in a run exactly if every execution of `MakeRestRequest` with
the xApp enabled is answered. -/
theorem persists_iff (S : Scheduler) (w : World) (ops : List SimOp) :
    Runs.AllSteps (Sim.step S) (Sim.Persists S) { world := w } ops ↔
      Runs.AllSteps (Sim.step S) (Sim.Answered S) { world := w } ops := by
  have hlegal : Runs.AllSteps (Sim.step S) (fun _ _ => True) { world := w } ops :=
    Runs.allSteps_of_forall (fun _ _ => trivial) _ _
  refine Runs.allSteps_iff Sim.Alive ?_ ?_ (Or.inl rfl) hlegal
  · intro s op hs _
    exact Sim.persists_step hs op
  · intro s op hs _ ha
    exact Sim.alive_step hs ((Sim.persists_step hs op).mpr ha)

/-- A period without an active UE: the second event is a `MakeRestRequest` that schedules
nothing. -/
theorem not_persists_idle :
    ¬ Runs.AllSteps (Sim.step (.wideband [true])) (Sim.Persists (.wideband [true]))
      { world := .fresh {} fun _ => 0 } [.fire 0 fun _ => .failed, .fire 2 fun _ => .failed] := by
  rintro ⟨_, ⟨hpending, _⟩, _⟩
  exact hpending (by decide +kernel)

end Rbis
