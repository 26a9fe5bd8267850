import Rbis.Server.Service

/-! # Rejected configure requests

`configure` returns an error from inside the choice of the environment, after it has replaced
`model_type`, `env_type` and the counters, and for PPO the condition.  So a rejected request
leaves the globals alone only when they were what it writes (`atomic_iff`). -/

namespace Rbis

namespace Server

/-- The globals that a rejected request must not change. -/
structure SameGlobals (s s' : Server) : Prop where
  modelType : s'.modelType = s.modelType
  envType : s'.envType = s.envType
  env : s'.env = s.env
  condition : s'.condition = s.condition
  callbackClass : s'.callbackClass = s.callbackClass
  model : s'.model = s.model
  stepsCounter : s'.stepsCounter = s.stepsCounter
  csvIndex : s'.csvIndex = s.csvIndex

/-- The answers to a sequence of inference requests. -/
def answers (o : Options) : List InferRequest → Server → List (Except ServerError Branch)
  | [], _ => []
  | r :: rs, s => (s.infer o r).2 :: answers o rs (s.infer o r).1

/-- A rejected request leaves the globals and all later answers as they were. -/
def Atomic (o : Options) (lib : Libraries) (req : ConfigureRequest) (s : Server) : Prop :=
  ∀ message, (s.configure o lib req).2 = .error message →
    s.SameGlobals (s.configure o lib req).1 ∧
      ∀ reqs, answers o reqs (s.configure o lib req).1 = answers o reqs s

/-- A request for which no environment can be reused is one for PPO only if a class is
designated for it, and one for an invalid model only if the globals are what it writes. -/
def Unaffected (o : Options) (req : ConfigureRequest) (s : Server) : Prop :=
  s.reusesEnv req = false →
    (Algorithm.ofName req.model = some .PPO →
      (designatedEnv req.model req.envType).isSome = true) ∧
    (Algorithm.ofName req.model = none → s.modelType = some req.model ∧ s.envType = req.envType ∧
      s.savedCounters.getD (0, 0) = (s.csvIndex, s.stepsCounter) ∧
        ((s.isAgentThreadRunning && o.continueTraining) = true → s.transitionMode = false))

variable {o : Options}

/-! ### Answers and the transition mode -/

theorem inferTrain_stepsRemaining (mcs : List ℤ) (reward : Cxx.Dbl) (k : ℤ) (s : Server) :
    ({ s with transitionStepsRemaining := k } : Server).inferTrain o mcs reward =
      ({ (s.inferTrain o mcs reward).1 with transitionStepsRemaining := k },
        (s.inferTrain o mcs reward).2) := by
  unfold inferTrain
  simp only
  split
  · rfl
  · rfl

theorem infer_stepsRemaining {s : Server} (hs : s.transitionMode = false) (k : ℤ)
    (r : InferRequest) :
    ({ s with transitionStepsRemaining := k } : Server).infer o r =
      ({ (s.infer o r).1 with transitionStepsRemaining := k }, (s.infer o r).2) := by
  unfold infer
  by_cases hlen : r.mcs.length < 4
  · simp only [if_pos hlen]
  · simp only [if_neg hlen]
    cases hmcs : encodeMcs s.envType r with
    | error e => rfl
    | ok mcs =>
        have hoff : ¬ s.transitionMode = true := by simp [hs]
        simp only [if_neg hoff]
        exact inferTrain_stepsRemaining mcs r.reward k { s with stepsCounter := s.stepsCounter + 1 }

theorem transitionMode_inferTrain (mcs : List ℤ) (reward : Cxx.Dbl) (s : Server) :
    (s.inferTrain o mcs reward).1.transitionMode = s.transitionMode := by
  unfold inferTrain
  split
  · rfl
  · rfl

theorem transitionMode_infer {s : Server} (hs : s.transitionMode = false) (r : InferRequest) :
    (s.infer o r).1.transitionMode = false := by
  unfold infer
  split
  · exact hs
  · split
    · exact hs
    · have hoff : ¬ s.transitionMode = true := by simp [hs]
      simp only [if_neg hoff]
      rw [transitionMode_inferTrain]
      exact hs

theorem answers_stepsRemaining (k : ℤ) (reqs : List InferRequest) {s : Server}
    (hs : s.transitionMode = false) :
    answers o reqs { s with transitionStepsRemaining := k } = answers o reqs s := by
  induction reqs generalizing s with
  | nil => rfl
  | cons r rs ih =>
      rw [answers, infer_stepsRemaining hs k r, ih (transitionMode_infer hs r), answers]

/-- A report of four UEs. -/
def fourUes : InferRequest :=
  { mcs := [0, 0, 0, 0], q := [0, 0, 0, 0], g := [0, 0, 0, 0], closeToObstacle := [0, 0, 0, 0],
    reward := .fin 0 }

theorem answerOf_ne_transition (mcs : List ℤ) (reward : Cxx.Dbl) (s : Server) (n : ℕ) :
    s.answerOf o mcs reward ≠ .ok (.transition n) := by
  unfold answerOf
  split
  · unfold consult
    split
    · nofun
    · nofun
    · split
      · nofun
      · nofun
  · split
    · nofun
    · split
      · nofun
      · nofun

theorem inferTrain_ne_transition (mcs : List ℤ) (reward : Cxx.Dbl) (s : Server) (n : ℕ) :
    (s.inferTrain o mcs reward).2 ≠ .ok (.transition n) := by
  unfold inferTrain
  split
  · nofun
  · exact answerOf_ne_transition mcs reward s.logStep n

theorem infer_fourUes (s : Server) :
    (∃ n, (s.infer o fourUes).2 = .ok (.transition n)) ↔ s.transitionMode = true := by
  obtain ⟨mcs, hmcs, _⟩ := encodeMcs_ok s.envType fourUes le_rfl
  have hlen : ¬ fourUes.mcs.length < 4 := by decide
  unfold infer
  simp only [if_neg hlen, hmcs]
  cases hs : s.transitionMode with
  | true => simp [inferTransition]
  | false =>
      simp only [Bool.false_eq_true, if_false, iff_false, not_exists]
      exact inferTrain_ne_transition mcs _ _

/-- **The answers** are the same exactly if the transition mode is. -/
theorem answers_entered {req : ConfigureRequest} {s : Server}
    (hm : s.modelType = some req.model) (he : s.envType = req.envType)
    (hc : s.savedCounters.getD (0, 0) = (s.csvIndex, s.stepsCounter)) :
    (∀ reqs, answers o reqs (s.entered o req) = answers o reqs s) ↔
      ((s.isAgentThreadRunning && o.continueTraining) = true → s.transitionMode = false) := by
  have hsame : s.entered o req = { s with
      transitionMode := if s.isAgentThreadRunning && o.continueTraining then false
        else s.transitionMode
      transitionStepsRemaining := if s.isAgentThreadRunning && o.continueTraining then 0
        else s.transitionStepsRemaining } := by
    unfold entered
    rw [← he, ← hm, hc]
  rw [hsame]
  cases hoff : s.isAgentThreadRunning && o.continueTraining with
  | false => simp
  | true =>
      simp only [if_true, forall_const]
      constructor
      · intro h
        have hfirst := List.cons.inj (h [fourUes])
        cases hs : s.transitionMode with
        | false => rfl
        | true =>
            obtain ⟨n, hn⟩ := (infer_fourUes (o := o) s).mpr hs
            have hoff' := (infer_fourUes (o := o) _).mp ⟨n, hfirst.1.trans hn⟩
            cases hoff'
      · intro hs reqs
        rw [← hs]
        exact answers_stepsRemaining 0 reqs hs

/-! ### Requests -/

theorem sameGlobals_entered {req : ConfigureRequest} {s : Server} :
    s.SameGlobals (s.entered o req) ↔ s.modelType = some req.model ∧ s.envType = req.envType ∧
      s.savedCounters.getD (0, 0) = (s.csvIndex, s.stepsCounter) := by
  constructor
  · intro h
    have he : req.envType = s.envType := h.envType
    refine ⟨h.modelType.symm, he.symm, ?_⟩
    have h1 := h.csvIndex
    have h2 := h.stepsCounter
    simp only [entered, he] at h1 h2
    exact Prod.ext h1 h2
  · rintro ⟨hm, he, hc⟩
    refine ⟨hm.symm, he.symm, rfl, rfl, rfl, rfl, ?_, ?_⟩
    · simp only [entered, ← he, hc]
    · simp only [entered, ← he, hc]

theorem unaffected_of_chosen {s : Server} {lib : Libraries} {req : ConfigureRequest}
    {alg : Algorithm} {b : Objects} (ha : Algorithm.ofName req.model = some alg)
    (hb : s.EnvChosen lib req alg b) : Unaffected o req s := by
  intro hre
  refine ⟨fun hppo => ?_, fun hnone => ?_⟩
  · cases hb with
    | reused hre' => simp [hre] at hre'
    | created cls _ hd _ _ => rw [hd]; rfl
    | kept _ _ hdqn =>
        subst hdqn
        rw [ha] at hppo
        cases hppo
  · rw [ha] at hnone
    cases hnone

/-- **One request.** -/
theorem atomic_iff_unaffected {s : Server} (hs : s.objects.Sound) (lib : Libraries)
    (req : ConfigureRequest) : Atomic o lib req s ↔ Unaffected o req s := by
  have h := configure_cases o lib req s
  unfold Atomic Unaffected
  generalize s.configure o lib req = res at h ⊢
  obtain ⟨s', r⟩ := res
  simp only at h ⊢
  cases h with
  | continued _ hc _ _ =>
      refine iff_of_true nofun fun hre => ?_
      rw [(compatible_iff.mp hc).1] at hre
      cases hre
  | invalidModel ha hre hs' =>
      rw [hs']
      simp only [Reply.error.injEq, forall_eq', hre, ha, forall_const, reduceCtorEq, false_implies,
        true_and, sameGlobals_entered]
      rw [and_assoc, and_assoc]
      refine and_congr_right fun hm => and_congr_right fun he => and_congr_right fun hc => ?_
      exact answers_entered hm he hc
  | invalidEnv ha hre hd hs' =>
      refine iff_of_false (fun h => ?_) (fun h => ?_)
      · have hcond : s'.condition = s.condition := (h _ rfl).1.condition
        rw [hs'] at hcond
        exact lt_irrefl _ (hs.condition s.nextId hcond.symm)
      · have hsome := (h hre).1 ha
        rw [hd] at hsome
        cases hsome
  | envRaised alg cls e ha hre hd _ _ =>
      refine iff_of_true nofun fun _ => ⟨fun _ => by rw [hd]; rfl, fun hnone => ?_⟩
      rw [ha] at hnone
      cases hnone
  | noLearner _ hre _ _ =>
      refine iff_of_true nofun fun hre' => ?_
      rw [hre] at hre'
      cases hre'
  | modelRaised alg b e ha hb _ _ => exact iff_of_true nofun (unaffected_of_chosen ha hb)
  | learned alg b ha hb _ _ _ => exact iff_of_true nofun (unaffected_of_chosen ha hb)

end Server

/-- **Every rejected request of a run** leaves the globals and the later answers alone exactly if
every request is unaffected. -/
theorem atomic_iff (o : Options) (curves : String → List CurveLine) (ops : List ServiceOp) :
    Runs.AllSteps (Service.step o) (Service.OnConfigure (Server.Atomic o)) (.start curves) ops ↔
      Runs.AllSteps (Service.step o) (Service.OnConfigure fun _ => Server.Unaffected o)
        (.start curves) ops :=
  Service.allSteps_onConfigure (fun lib req _ hs => Server.atomic_iff_unaffected hs lib req)
    curves ops

/-- PPO for an unknown environment type: the environment waits on the old condition. -/
theorem not_atomic_condition :
    ¬ Runs.AllSteps (Service.step {}) (Service.OnConfigure (Server.Atomic {}))
      (.start fun _ => [])
      [.configure .untrained ⟨"PPO", 4, "Basic"⟩, .configure .untrained ⟨"PPO", 5, "Other"⟩] := by
  rintro ⟨_, h, _⟩
  have hcond := (h rfl "Invalid env_type: Other" (by decide +kernel)).1.condition
  revert hcond
  decide +kernel

end Rbis
