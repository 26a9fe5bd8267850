import Rbis.Lib.Fallible
import Rbis.Server.State

/-! # The inference request

`infer_sched_config` encodes the report of a request as a state vector, counts the step, logs it
and then answers in one of several ways (`Branch`); the answer of a learner comes from `ppo`.
The evaluation mode is never entered, so there is never a pending reward. -/

namespace Rbis

open Cxx Fallible

/-- The report of a request. -/
structure InferRequest where
  mcs : List ℤ
  q : List ℤ
  g : List ℤ
  closeToObstacle : List ℤ
  reward : Dbl
deriving DecidableEq

/-- How a request is answered. -/
inductive Branch where
  /-- Fewer than four UEs: all weights zero, for four UEs. -/
  | default
  /-- In the transition mode: all weights zero. -/
  | transition (numUes : ℕ)
  /-- By `ppo`; the state is the text `<invalid>` for an unknown `env_type`. -/
  | ppo (state : Option (List ℤ)) (reward : Dbl)
  | random
  /-- By `static_tuning`, with the first MCS value. -/
  | static (mcs : ℤ)
  | null
deriving DecidableEq

/-- One of the first four MCS values, for the obstacle flag of its UE. -/
def encodeMcsAt (closeToObstacle : List ℤ) (mcs : List ℤ) (i : ℕ) : Except ServerError (List ℤ) :=
  if i < mcs.length then
    match closeToObstacle[i]? with
    | none => .error .indexError
    | some flag =>
        .ok (if flag = 1 then mcs.set i 0 else if flag = 0 then mcs.set i 1 else mcs)
  else .ok mcs

/-- `mcs_values` of the state. -/
def encodeMcs (envType : String) (req : InferRequest) : Except ServerError (List ℤ) :=
  if envType = "ISAC" ∨ envType = "Test" then
    [0, 1, 2, 3].foldlM (encodeMcsAt req.closeToObstacle) req.mcs
  else .ok req.mcs

/-- The state vector: `q`, `g` and the obstacle flags are replaced by zeros. -/
def stateVector (envType : String) (mcs : List ℤ) : Option (List ℤ) :=
  let zeros := List.replicate mcs.length 0
  if envType = "ISAC" then some (mcs ++ zeros ++ zeros ++ zeros)
  else if envType = "Basic" then some (mcs ++ zeros ++ zeros)
  else none

namespace Server

/-- The row of the learning curve of a step; as in `configure`, opening the file does not fail. -/
def logStep (s : Server) : Server :=
  { s.appendCurve (.row s.csvIndex s.stepsCounter) with csvIndex := s.csvIndex + 1 }

/-- A request in the transition mode. -/
def inferTransition (mcs : List ℤ) (s : Server) : Server × Except ServerError Branch :=
  let s := { s with transitionStepsRemaining := s.transitionStepsRemaining - 1 }
  let s := s.logStep
  let s := if s.transitionStepsRemaining ≤ 0 then { s with transitionMode := false } else s
  let numUes :=
    match s.env with
    | some env => if s.modelType = some "PPO" then env.numUes else mcs.length
    | none => mcs.length
  (s, .ok (.transition numUes))

/-- The globals that `ppo` and the code around it use. -/
def consult (o : Options) (state : Option (List ℤ)) (reward : Dbl) (s : Server) :
    Except ServerError Branch :=
  match s.condition, s.env with
  | none, _ => .error .typeError
  | some _, none => .error .attributeError
  | some _, some _ =>
      if o.predict && s.model.isNone then .error .attributeError else .ok (.ppo state reward)

/-- The answer by the model type. -/
def answerOf (o : Options) (mcs : List ℤ) (reward : Dbl) (s : Server) :
    Except ServerError Branch :=
  match s.modelType.bind Algorithm.ofName with
  | some _ => s.consult o (stateVector s.envType mcs) reward
  | none =>
      if s.modelType = some "Random" then .ok .random
      else if s.modelType = some "Static" then .ok (.static (mcs.headD 0))
      else .ok .null

/-- A request outside of the transition mode.  At the index 20000 the model of a learner is saved. -/
def inferTrain (o : Options) (mcs : List ℤ) (reward : Dbl) (s : Server) :
    Server × Except ServerError Branch :=
  if s.csvIndex = 20000 ∧ s.modelType.bind Algorithm.ofName ≠ none ∧ s.model = none then
    (s, .error .attributeError)
  else (s.logStep, s.logStep.answerOf o mcs reward)

/-- `infer_sched_config`, up to the answer. -/
def infer (o : Options) (req : InferRequest) (s : Server) : Server × Except ServerError Branch :=
  if req.mcs.length < 4 then (s, .ok .default)
  else
    match encodeMcs s.envType req with
    | .error e => (s, .error e)
    | .ok mcs =>
        let s := { s with stepsCounter := s.stepsCounter + 1 }
        if s.transitionMode then s.inferTransition mcs else s.inferTrain o mcs req.reward

end Server

/-! ### The length of the state vector -/

theorem encodeMcsAt_cases {obs mcs mcs' : List ℤ} {i : ℕ} (h : encodeMcsAt obs mcs i = .ok mcs') :
    mcs' = mcs ∨ mcs' = mcs.set i 0 ∨ mcs' = mcs.set i 1 := by
  unfold encodeMcsAt at h
  split at h
  · split at h
    · cases h
    · cases h
      split
      · exact Or.inr (Or.inl rfl)
      · split
        · exact Or.inr (Or.inr rfl)
        · exact Or.inl rfl
  · cases h
    exact Or.inl rfl

theorem length_of_encodeMcsAt {obs mcs mcs' : List ℤ} {i : ℕ}
    (h : encodeMcsAt obs mcs i = .ok mcs') : mcs'.length = mcs.length := by
  obtain rfl | rfl | rfl := encodeMcsAt_cases h
  · rfl
  · exact List.length_set
  · exact List.length_set

theorem exists_encodeMcsAt {obs mcs : List ℤ} {i : ℕ} :
    (∃ mcs', encodeMcsAt obs mcs i = .ok mcs') ↔ (i < mcs.length → i < obs.length) := by
  unfold encodeMcsAt
  by_cases hi : i < mcs.length
  · rw [if_pos hi]
    by_cases ho : i < obs.length
    · rw [List.getElem?_eq_getElem ho]
      exact ⟨fun _ _ => ho, fun _ => ⟨_, rfl⟩⟩
    · rw [List.getElem?_eq_none (not_lt.mp ho)]
      constructor
      · rintro ⟨mcs', h⟩
        cases h
      · exact fun h => absurd (h hi) ho
  · exact ⟨fun _ h => absurd h hi, fun _ => ⟨mcs, if_neg hi⟩⟩

theorem foldlM_encodeMcsAt_ok {obs mcs : List ℤ} {l : List ℕ}
    (h : ∀ i ∈ l, i < mcs.length → i < obs.length) :
    ∃ mcs', l.foldlM (encodeMcsAt obs) mcs = .ok mcs' ∧ mcs'.length = mcs.length := by
  refine foldlM_total (P := fun b : List ℤ => b.length = mcs.length) (fun i hi b hb => ?_) rfl
  obtain ⟨c, hc⟩ := exists_encodeMcsAt.mpr (hb ▸ h i hi)
  exact ⟨c, hc, (length_of_encodeMcsAt hc).trans hb⟩

theorem encodeMcs_ok (envType : String) (req : InferRequest)
    (h : req.mcs.length ≤ req.closeToObstacle.length) :
    ∃ mcs, encodeMcs envType req = .ok mcs ∧ mcs.length = req.mcs.length := by
  unfold encodeMcs
  split
  · exact foldlM_encodeMcsAt_ok fun i _ hi => hi.trans_le h
  · exact ⟨req.mcs, rfl, rfl⟩

theorem length_stateVector {cls : EnvClass} {envType : String} (mcs : List ℤ)
    (htype : envType = "ISAC" ∨ envType = "Basic")
    (hcls : cls.stateSpace = if envType = "ISAC" then 4 else 3) :
    ∃ v, stateVector envType mcs = some v ∧
      v.length = (cls.observationSpace mcs.length).length := by
  rw [EnvClass.length_observationSpace, hcls]
  obtain rfl | rfl := htype
  · refine ⟨_, rfl, ?_⟩
    simp
    omega
  · refine ⟨_, rfl, ?_⟩
    simp
    omega

end Rbis
