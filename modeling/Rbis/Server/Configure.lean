import Rbis.Server.State

/-! # The configure request

`configure` replaces the environment, the model and the agent thread, each under its own
condition: the environment is reused when the number of UEs is the same, the model is reused when
there is one and no training is active, and a thread is started when none is running.
`configure_cases` lists what a request can do. -/

namespace Rbis

structure ConfigureRequest where
  model : String
  numUes : ℤ
  envType : String
deriving DecidableEq

/-- How a request ends: with a status, or with an exception. -/
inductive Reply where
  | success
  | error (message : String)
  | raised (e : ServerError)
deriving DecidableEq

/-- The path of the pretrained model; unbound for an `env_type` other than these two. -/
def pretrainedModelPath (alg : Algorithm) (envType : String) : Option String :=
  if envType = "Basic" then some "./saved_models/dqn_model_20k_steps_Basic_sample"
  else if envType = "ISAC" then
    match alg with
    | .DQN => some "./saved_models/dqn_model_20k_steps_ISAC_sample"
    | .PPO => some "./saved_models/ppo_model_20k_steps_ISAC_sample"
  else none

namespace Server

variable (o : Options) (lib : Libraries) (req : ConfigureRequest)

/-- The test for a training that can go on. -/
def compatible (s : Server) : Bool :=
  match s.env with
  | none => false
  | some env => s.envType == req.envType && (env.numUes : ℤ) == req.numUes && req.model == "PPO"

/-- The test for an environment that can be reused. -/
def reusesEnv (s : Server) : Bool :=
  match s.env with
  | none => false
  | some env => (env.numUes : ℤ) == req.numUes

/-- `env = cls(num_ues, condition)` and the choice of the callback class. -/
def createEnv (cls : EnvClass) (condition : ℕ) (s : Server) : Server × Option Reply :=
  if req.numUes < 0 then (s, some (.raised .valueError))
  else if lib.env cls req.numUes.toNat then
    ({ s with env := some ⟨s.nextId, cls, req.numUes.toNat, condition⟩, nextId := s.nextId + 1,
              callbackClass := cls.callbackClass }, none)
  else (s, some (.raised .library))

/-- A new environment, when the old one cannot be reused. -/
def newEnv (s : Server) : Server × Option Reply :=
  let condition := s.nextId
  let s' := { s with condition := some condition, nextId := s.nextId + 1 }
  if req.model = "PPO" then
    if req.envType = "ISAC" then s'.createEnv lib req .customEnvISAC condition
    else if req.envType = "Basic" then s'.createEnv lib req .customEnvBasic condition
    else (s', some (.error ("Invalid env_type: " ++ req.envType)))
  else if req.model = "DQN" then
    if req.envType = "ISAC" then s'.createEnv lib req .customEnvDQN condition
    else if req.envType = "Basic" then s'.createEnv lib req .customEnvDQNBasic condition
    else (s', none)
  else (s, some (.error ("Invalid model_type: " ++ req.model)))

/-- A new model. -/
def createModel (alg : Algorithm) (s : Server) : Server × Option Reply :=
  match s.env with
  | none => (s, some (.raised .library))
  | some env =>
      if lib.create alg env then
        ({ s with model := some ⟨s.nextId, alg, some env⟩, nextId := s.nextId + 1 }, none)
      else (s, some (.raised .library))

/-- The model: reused, loaded, created, or left alone while a training is active. -/
def obtainModel (alg : Algorithm) (s : Server) : Server × Option Reply :=
  if s.isAgentThreadRunning then (s, none)
  else
    match s.model with
    | some m => ({ s with model := some { m with env := s.env } }, none)
    | none =>
        if o.loadModel then
          match pretrainedModelPath alg s.envType with
          | none => (s, some (.raised .unboundLocalError))
          | some path =>
              if lib.load alg path s.env then
                let s := { s with model := some ⟨s.nextId, alg, s.env⟩, nextId := s.nextId + 1 }
                (if o.predict then s else s.startAgentThread, some .success)
              else s.createModel lib alg
        else s.createModel lib alg

/-- The end of the transition, unless a training goes on. -/
def endTransition (s : Server) : Server :=
  if s.isAgentThreadRunning && o.continueTraining then s
  else { s with transitionMode := false, transitionStepsRemaining := 0 }

/-- The part of `configure` behind the choice of the environment.  Opening the curve, whose path
contains the `env_type`, does not fail here; it does for an `env_type` with a slash. -/
def configureModel (trainingContinues : Bool) (s : Server) : Server × Reply :=
  let s := if trainingContinues then s
    else { s with curves := Function.update s.curves s.envType [.other] }
  match Algorithm.ofName req.model with
  | none => (s.endTransition o, .success)
  | some alg =>
      match s.obtainModel o lib alg with
      | (s, some reply) => (s, reply)
      | (s, none) =>
          let s := if !o.predict && !s.isAgentThreadRunning then s.startAgentThread else s
          (s.endTransition o, .success)

/-- The choice of the environment, and what follows it. -/
def chooseEnv (trainingContinues : Bool) (s : Server) : Server × Reply :=
  if s.reusesEnv req then s.configureModel o lib req trainingContinues
  else
    match s.newEnv lib req with
    | (s, some reply) => (s, reply)
    | (s, none) => s.configureModel o lib req trainingContinues

/-- The part of `configure` behind the test for an active training. -/
def configureEnv (s : Server) : Server × Reply :=
  let s := { s with envType := req.envType }
  s.loadTrainingState.1.chooseEnv o lib req s.loadTrainingState.2

/-- `configure`. -/
def configure (s : Server) : Server × Reply :=
  let s := { s with modelType := some req.model }
  if s.isAgentThreadRunning && o.continueTraining then
    if s.compatible req then
      let s := { s with transitionMode := true, transitionStepsRemaining := 20 }
      (s.loadTrainingState.1, .success)
    else
      configureEnv o lib req { s with transitionMode := false, transitionStepsRemaining := 0 }
  else s.configureEnv o lib req

/-- `stop_training`: the reference to the thread is dropped. -/
def stopTraining (s : Server) : Server :=
  if s.isAgentThreadRunning then { s with agentThread := none } else s

end Server

/-! ### What a request can do -/

/-- The environment class that is designated for a model and an environment type. -/
def designatedEnv (modelType envType : String) : Option EnvClass :=
  match Algorithm.ofName modelType with
  | none => none
  | some alg =>
      if envType = "ISAC" then some (match alg with | .PPO => .customEnvISAC | .DQN => .customEnvDQN)
      else if envType = "Basic" then
        some (match alg with | .PPO => .customEnvBasic | .DQN => .customEnvDQNBasic)
      else none

/-- A model can be constructed for this environment, if it is one. -/
def Libraries.makes (lib : Libraries) (alg : Algorithm) : Option EnvObject → Bool
  | none => false
  | some env => lib.create alg env

/-- The globals that are objects, and the threads. -/
structure Objects where
  model : Option Model
  env : Option EnvObject
  condition : Option ℕ
  agentThread : Option ℕ
  threads : List AgentThread
  nextId : ℕ

namespace Objects

def running (b : Objects) : Bool :=
  match b.agentThread with
  | none => false
  | some i => (b.threads[i]?.map AgentThread.isAlive).getD false

/-- A new condition. -/
def withCondition (b : Objects) : Objects :=
  { b with condition := some b.nextId, nextId := b.nextId + 1 }

/-- A new environment with the current condition `c`. -/
def withEnv (cls : EnvClass) (numUes c : ℕ) (b : Objects) : Objects :=
  { b with env := some ⟨b.nextId, cls, numUes, c⟩, nextId := b.nextId + 1 }

/-- The model is reused, or made. -/
def withModel (alg : Algorithm) (b : Objects) : Objects :=
  match b.model with
  | some m => { b with model := some { m with env := b.env } }
  | none => { b with model := some ⟨b.nextId, alg, b.env⟩, nextId := b.nextId + 1 }

def withThread (b : Objects) : Objects :=
  { b with threads := b.threads ++ [.starting], agentThread := some b.threads.length }

/-- There is a model, or one can be had: a training is active, a model is there, a pretrained one
can be loaded, or one can be made for the environment. -/
def hasModel (o : Options) (lib : Libraries) (alg : Algorithm) (envType : String)
    (b : Objects) : Bool :=
  b.running || b.model.isSome ||
    if o.loadModel then
      match pretrainedModelPath alg envType with
      | none => false
      | some path => lib.load alg path b.env || lib.makes alg b.env
    else lib.makes alg b.env

/-- The model stage of a request for a learner. -/
def learn (o : Options) (alg : Algorithm) (b : Objects) : Objects :=
  if b.running then b
  else if o.predict then b.withModel alg else (b.withModel alg).withThread

theorem running_of_nil {b : Objects} (h : b.threads = []) : b.running = false := by
  unfold running
  rw [h]
  cases b.agentThread <;> rfl

theorem withModel_env (alg : Algorithm) (b : Objects) : (b.withModel alg).env = b.env := by
  unfold withModel
  cases b.model <;> rfl

theorem withModel_condition (alg : Algorithm) (b : Objects) :
    (b.withModel alg).condition = b.condition := by
  unfold withModel
  cases b.model <;> rfl

theorem withModel_threads (alg : Algorithm) (b : Objects) :
    (b.withModel alg).threads = b.threads := by
  unfold withModel
  cases b.model <;> rfl

theorem learn_env (o : Options) (alg : Algorithm) (b : Objects) : (b.learn o alg).env = b.env := by
  unfold learn
  split
  · rfl
  · split
    · exact withModel_env alg b
    · exact withModel_env alg b

theorem learn_condition (o : Options) (alg : Algorithm) (b : Objects) :
    (b.learn o alg).condition = b.condition := by
  unfold learn
  split
  · rfl
  · split
    · exact withModel_condition alg b
    · exact withModel_condition alg b

end Objects

namespace Server

def objects (s : Server) : Objects :=
  ⟨s.model, s.env, s.condition, s.agentThread, s.threads, s.nextId⟩

/-- The state with which the choice of the environment begins. -/
def entered (o : Options) (req : ConfigureRequest) (s : Server) : Server :=
  let off := s.isAgentThreadRunning && o.continueTraining
  { s with
    modelType := some req.model
    envType := req.envType
    csvIndex := (({ s with envType := req.envType } : Server).savedCounters.getD (0, 0)).1
    stepsCounter := (({ s with envType := req.envType } : Server).savedCounters.getD (0, 0)).2
    transitionMode := if off then false else s.transitionMode
    transitionStepsRemaining := if off then 0 else s.transitionStepsRemaining }

/-- The objects with which the model stage of a request for the algorithm begins. -/
inductive EnvChosen (lib : Libraries) (req : ConfigureRequest) (alg : Algorithm) (s : Server) :
    Objects → Prop where
  | reused : s.reusesEnv req = true → EnvChosen lib req alg s s.objects
  | created (cls : EnvClass) : s.reusesEnv req = false →
      designatedEnv req.model req.envType = some cls → 0 ≤ req.numUes →
        lib.env cls req.numUes.toNat = true →
          EnvChosen lib req alg s (s.objects.withCondition.withEnv cls req.numUes.toNat s.nextId)
  | kept : s.reusesEnv req = false → designatedEnv req.model req.envType = none → alg = .DQN →
      EnvChosen lib req alg s s.objects.withCondition

/-- The outcomes of a request. -/
inductive Configured (o : Options) (lib : Libraries) (req : ConfigureRequest) (s s' : Server) :
    Reply → Prop where
  | continued : s.isAgentThreadRunning = true → s.compatible req = true →
      s'.objects = s.objects → s'.envType = req.envType → Configured o lib req s s' .success
  | invalidModel : Algorithm.ofName req.model = none → s.reusesEnv req = false →
      s' = s.entered o req →
        Configured o lib req s s' (.error ("Invalid model_type: " ++ req.model))
  | invalidEnv : Algorithm.ofName req.model = some .PPO → s.reusesEnv req = false →
      designatedEnv req.model req.envType = none →
        s' = { s.entered o req with condition := some s.nextId, nextId := s.nextId + 1 } →
          Configured o lib req s s' (.error ("Invalid env_type: " ++ req.envType))
  | envRaised (alg : Algorithm) (cls : EnvClass) (e : ServerError) :
      Algorithm.ofName req.model = some alg → s.reusesEnv req = false →
        designatedEnv req.model req.envType = some cls →
          ¬ (0 ≤ req.numUes ∧ lib.env cls req.numUes.toNat = true) →
            s'.objects = s.objects.withCondition → Configured o lib req s s' (.raised e)
  | noLearner : Algorithm.ofName req.model = none → s.reusesEnv req = true →
      s'.objects = s.objects → s'.envType = req.envType → Configured o lib req s s' .success
  | modelRaised (alg : Algorithm) (b : Objects) (e : ServerError) :
      Algorithm.ofName req.model = some alg → EnvChosen lib req alg s b →
        b.hasModel o lib alg req.envType = false → s'.objects = b →
          Configured o lib req s s' (.raised e)
  | learned (alg : Algorithm) (b : Objects) : Algorithm.ofName req.model = some alg →
      EnvChosen lib req alg s b → b.hasModel o lib alg req.envType = true →
        s'.objects = b.learn o alg → s'.envType = req.envType →
          Configured o lib req s s' .success

variable {o : Options} {lib : Libraries} {req : ConfigureRequest}

theorem running_objects (s : Server) : s.objects.running = s.isAgentThreadRunning := rfl

theorem objects_startAgentThread (s : Server) :
    s.startAgentThread.objects = s.objects.withThread := rfl

theorem objects_endTransition (s : Server) : (s.endTransition o).objects = s.objects := by
  unfold endTransition
  split <;> rfl

theorem envType_endTransition (s : Server) : (s.endTransition o).envType = s.envType := by
  unfold endTransition
  split <;> rfl

theorem running_withModel (alg : Algorithm) (b : Objects) :
    (b.withModel alg).running = b.running := by
  unfold Objects.withModel
  cases b.model with
  | none => rfl
  | some m => rfl

/-- `newEnv`, by the class that is designated. -/
theorem newEnv_eq (s : Server) :
    s.newEnv lib req =
      match Algorithm.ofName req.model with
      | none => (s, some (.error ("Invalid model_type: " ++ req.model)))
      | some alg =>
          let s' := { s with condition := some s.nextId, nextId := s.nextId + 1 }
          match designatedEnv req.model req.envType, alg with
          | some cls, _ => s'.createEnv lib req cls s.nextId
          | none, .PPO => (s', some (.error ("Invalid env_type: " ++ req.envType)))
          | none, .DQN => (s', none) := by
  by_cases hp : req.model = "PPO"
  · by_cases hi : req.envType = "ISAC"
    · simp [newEnv, designatedEnv, Algorithm.ofName, hp, hi]
    · by_cases hb : req.envType = "Basic"
      · simp [newEnv, designatedEnv, Algorithm.ofName, hp, hb]
      · simp [newEnv, designatedEnv, Algorithm.ofName, hp, hi, hb]
  · by_cases hd : req.model = "DQN"
    · by_cases hi : req.envType = "ISAC"
      · simp [newEnv, designatedEnv, Algorithm.ofName, hd, hi]
      · by_cases hb : req.envType = "Basic"
        · simp [newEnv, designatedEnv, Algorithm.ofName, hd, hb]
        · simp [newEnv, designatedEnv, Algorithm.ofName, hd, hi, hb]
    · simp [newEnv, Algorithm.ofName, hp, hd]

theorem createEnv_cases (lib : Libraries) (req : ConfigureRequest) (cls : EnvClass) (c : ℕ)
    (s : Server) :
    (∃ e, s.createEnv lib req cls c = (s, some (.raised e)) ∧
      ¬ (0 ≤ req.numUes ∧ lib.env cls req.numUes.toNat = true)) ∨
    ∃ s', s.createEnv lib req cls c = (s', none) ∧ 0 ≤ req.numUes ∧
      lib.env cls req.numUes.toNat = true ∧
        s'.objects = s.objects.withEnv cls req.numUes.toNat c ∧ s'.envType = s.envType := by
  unfold createEnv
  by_cases hn : req.numUes < 0
  · exact .inl ⟨_, if_pos hn, fun h => by omega⟩
  · rw [if_neg hn]
    by_cases hl : lib.env cls req.numUes.toNat = true
    · rw [if_pos hl]
      exact .inr ⟨_, rfl, not_lt.mp hn, hl, rfl, rfl⟩
    · rw [if_neg hl]
      exact .inl ⟨_, rfl, fun h => hl h.2⟩

theorem createModel_cases (lib : Libraries) (alg : Algorithm) {s : Server} (hm : s.model = none) :
    (∃ e, s.createModel lib alg = (s, some (.raised e)) ∧ lib.makes alg s.env = false) ∨
      ∃ s', s.createModel lib alg = (s', none) ∧ lib.makes alg s.env = true ∧
        s'.objects = s.objects.withModel alg ∧ s'.envType = s.envType := by
  unfold createModel
  cases he : s.env with
  | none => exact .inl ⟨_, rfl, rfl⟩
  | some env =>
      by_cases hl : lib.create alg env = true
      · simp only [if_pos hl]
        refine .inr ⟨_, rfl, hl, ?_, rfl⟩
        simp [objects, Objects.withModel, hm, he]
      · simp only [if_neg hl]
        exact .inl ⟨_, rfl, by simpa [Libraries.makes] using hl⟩

theorem objects_newModel (alg : Algorithm) {s : Server} (hm : s.model = none) :
    ({ s with model := some ⟨s.nextId, alg, s.env⟩, nextId := s.nextId + 1 } : Server).objects =
      s.objects.withModel alg := by
  simp [objects, Objects.withModel, hm]

/-- The model is left alone while a training is active, and obtained otherwise; a loaded model
ends the request. -/
theorem obtainModel_cases (o : Options) (lib : Libraries) (alg : Algorithm) (s : Server) :
    (∃ e, s.objects.hasModel o lib alg s.envType = false ∧
      s.obtainModel o lib alg = (s, some (.raised e))) ∨
    s.objects.hasModel o lib alg s.envType = true ∧
      ((∃ s', s.obtainModel o lib alg = (s', some .success) ∧
        s'.objects = s.objects.learn o alg ∧ s'.envType = s.envType) ∨
      ∃ s', s.obtainModel o lib alg = (s', none) ∧
        s'.objects = (if s.isAgentThreadRunning then s.objects else s.objects.withModel alg) ∧
          s'.envType = s.envType) := by
  unfold obtainModel Objects.hasModel
  rw [running_objects]
  cases hr : s.isAgentThreadRunning with
  | true => exact .inr ⟨rfl, .inr ⟨s, rfl, rfl, rfl⟩⟩
  | false =>
      have henv : s.objects.env = s.env := rfl
      have hmodel : s.objects.model = s.model := rfl
      simp only [Bool.false_eq_true, if_false, Bool.false_or, henv, hmodel]
      cases hm : s.model with
      | some m =>
          refine .inr ⟨rfl, .inr ⟨_, rfl, ?_, rfl⟩⟩
          simp [objects, Objects.withModel, hm]
      | none =>
          have hnew := createModel_cases lib alg hm
          simp only [Option.isSome_none, Bool.false_or]
          by_cases hload : o.loadModel = true
          · simp only [hload, if_true]
            cases hpath : pretrainedModelPath alg s.envType with
            | none => exact .inl ⟨_, rfl, rfl⟩
            | some path =>
                by_cases hl : lib.load alg path s.env = true
                · simp only [hl, if_true, Bool.true_or, true_and]
                  have hobj := objects_newModel alg hm
                  have hrun : s.objects.running = false := hr
                  refine .inr (.inl ⟨_, rfl, ?_, ?_⟩)
                  · unfold Objects.learn
                    rw [hrun, ← hobj]
                    cases o.predict <;> rfl
                  · cases o.predict <;> rfl
                · simp only [hl, Bool.false_eq_true, if_false, Bool.false_or]
                  obtain ⟨e, h, hmk⟩ | ⟨s', h, hmk, ho, ht⟩ := hnew
                  · exact .inl ⟨e, hmk, h⟩
                  · exact .inr ⟨hmk, .inr ⟨s', h, ho, ht⟩⟩
          · simp only [hload, Bool.false_eq_true, if_false]
            obtain ⟨e, h, hmk⟩ | ⟨s', h, hmk, ho, ht⟩ := hnew
            · exact .inl ⟨e, hmk, h⟩
            · exact .inr ⟨hmk, .inr ⟨s', h, ho, ht⟩⟩

/-- The model stage. -/
theorem configureModel_cases (o : Options) (lib : Libraries) (req : ConfigureRequest)
    (trainingContinues : Bool) (s : Server) :
    (Algorithm.ofName req.model = none ∧ ∃ s',
      s.configureModel o lib req trainingContinues = (s', .success) ∧ s'.objects = s.objects ∧
        s'.envType = s.envType) ∨
      ∃ alg, Algorithm.ofName req.model = some alg ∧
        ((∃ s' e, s.configureModel o lib req trainingContinues = (s', .raised e) ∧
          s.objects.hasModel o lib alg s.envType = false ∧ s'.objects = s.objects) ∨
        ∃ s', s.configureModel o lib req trainingContinues = (s', .success) ∧
          s.objects.hasModel o lib alg s.envType = true ∧
            s'.objects = s.objects.learn o alg ∧ s'.envType = s.envType) := by
  obtain ⟨t, ht, hobj, htype⟩ : ∃ t : Server, t = (if trainingContinues then s
      else { s with curves := Function.update s.curves s.envType [.other] }) ∧
        t.objects = s.objects ∧ t.envType = s.envType := by
    cases trainingContinues with
    | true => exact ⟨s, rfl, rfl, rfl⟩
    | false => exact ⟨_, rfl, rfl, rfl⟩
  unfold configureModel
  rw [← ht]
  cases ha : Algorithm.ofName req.model with
  | none =>
      refine .inl ⟨rfl, _, rfl, ?_, ?_⟩
      · rw [objects_endTransition, hobj]
      · rw [envType_endTransition, htype]
  | some alg =>
      refine .inr ⟨alg, rfl, ?_⟩
      have hcases := obtainModel_cases o lib alg t
      rw [hobj, htype] at hcases
      obtain ⟨e, hm, h⟩ | ⟨hm, ⟨s', h, ho, he⟩ | ⟨s', h, ho, he⟩⟩ := hcases
      · simp only [h]
        exact .inl ⟨_, _, rfl, hm, hobj⟩
      · simp only [h]
        exact .inr ⟨_, rfl, hm, ho, he⟩
      · simp only [h]
        have hrun : s'.isAgentThreadRunning = t.isAgentThreadRunning := by
          rw [← running_objects, ho, ← hobj]
          split
          · rfl
          · rw [running_withModel, running_objects]
        refine .inr ⟨_, rfl, hm, ?_, ?_⟩
        · rw [objects_endTransition, Objects.learn, hrun, ← hobj, running_objects]
          rw [← hobj] at ho
          cases hr : t.isAgentThreadRunning with
          | true =>
              rw [hr] at ho
              simpa using ho
          | false =>
              rw [hr] at ho
              cases hp : o.predict with
              | true => simpa using ho
              | false => simpa [objects_startAgentThread] using congrArg Objects.withThread ho
        · rw [envType_endTransition]
          split
          · exact he
          · exact he

theorem reusesEnv_iff {s : Server} :
    s.reusesEnv req = true ↔ ∃ e, s.env = some e ∧ (e.numUes : ℤ) = req.numUes := by
  unfold reusesEnv
  cases s.env with
  | none => simp
  | some e => simp

theorem compatible_iff {s : Server} : s.compatible req = true ↔
    s.reusesEnv req = true ∧ s.envType = req.envType ∧ req.model = "PPO" := by
  unfold compatible reusesEnv
  cases s.env with
  | none => simp
  | some e =>
      simp only [Bool.and_eq_true, beq_iff_eq]
      rw [← and_assoc, and_comm (a := s.envType = req.envType)]

theorem configured_of_chosen {s t : Server} {alg : Algorithm} {b : Objects}
    (ha : Algorithm.ofName req.model = some alg) (hb : EnvChosen lib req alg s b)
    (hobj : t.objects = b) (htype : t.envType = req.envType) (c : Bool) :
    Configured o lib req s (t.configureModel o lib req c).1
      (t.configureModel o lib req c).2 := by
  obtain ⟨hnone, _⟩ | ⟨alg', ha', h⟩ := configureModel_cases o lib req c t
  · rw [ha] at hnone
    cases hnone
  · have halg : alg' = alg := Option.some.inj (ha'.symm.trans ha)
    subst halg
    rw [hobj, htype] at h
    obtain ⟨s', e, h, hm, ho⟩ | ⟨s', h, hm, ho, he⟩ := h
    · rw [h]
      exact .modelRaised alg' b e ha hb hm ho
    · rw [h]
      exact .learned alg' b ha hb hm ho he

theorem configured_noLearner {s t : Server} (ha : Algorithm.ofName req.model = none)
    (hre : s.reusesEnv req = true) (hobj : t.objects = s.objects) (htype : t.envType = req.envType)
    (c : Bool) :
    Configured o lib req s (t.configureModel o lib req c).1
      (t.configureModel o lib req c).2 := by
  obtain ⟨_, s', h, ho, he⟩ | ⟨alg, ha', _⟩ :=
    configureModel_cases o lib req c t
  · rw [h]
    exact .noLearner ha hre (ho.trans hobj) (he.trans htype)
  · rw [ha] at ha'
    cases ha'

/-- The choice of the environment and what follows it. -/
theorem chooseEnv_cases (s : Server) (c : Bool) :
    Configured o lib req s ((s.entered o req).chooseEnv o lib req c).1
      ((s.entered o req).chooseEnv o lib req c).2 := by
  have hobj : (s.entered o req).objects = s.objects := rfl
  have hreuse : (s.entered o req).reusesEnv req = s.reusesEnv req := rfl
  unfold chooseEnv
  rw [hreuse]
  cases hre : s.reusesEnv req with
  | true =>
      rw [if_pos rfl]
      cases ha : Algorithm.ofName req.model with
      | none => exact configured_noLearner ha hre hobj rfl c
      | some alg => exact configured_of_chosen ha (.reused hre) hobj rfl c
  | false =>
      rw [if_neg (by simp), newEnv_eq]
      cases ha : Algorithm.ofName req.model with
      | none => exact .invalidModel ha hre rfl
      | some alg =>
          have hid : (s.entered o req).nextId = s.nextId := rfl
          cases hd : designatedEnv req.model req.envType with
          | some cls =>
              obtain ⟨e, h, hn⟩ | ⟨s', h, hn, hl, ho, he⟩ :=
                createEnv_cases lib req cls s.nextId
                  { s.entered o req with condition := some s.nextId, nextId := s.nextId + 1 }
              · simp only [hid, h]
                exact .envRaised alg cls e ha hre hd hn rfl
              · simp only [hid, h]
                exact configured_of_chosen ha (.created cls hre hd hn hl) ho he c
          | none =>
              cases alg with
              | PPO => exact .invalidEnv ha hre hd rfl
              | DQN => exact configured_of_chosen ha (.kept hre hd rfl) rfl rfl c

theorem configureEnv_cases {s t : Server} (ht : ({ t with envType := req.envType } :
    Server).loadTrainingState.1 = s.entered o req) :
    Configured o lib req s (t.configureEnv o lib req).1 (t.configureEnv o lib req).2 := by
  unfold configureEnv
  simp only
  rw [ht]
  exact chooseEnv_cases s _

/-- **What a request does.** -/
theorem configure_cases (o : Options) (lib : Libraries) (req : ConfigureRequest) (s : Server) :
    Configured o lib req s (s.configure o lib req).1 (s.configure o lib req).2 := by
  unfold configure
  cases hr : s.isAgentThreadRunning && o.continueTraining with
  | true =>
      have hrun : s.isAgentThreadRunning = true := (Bool.and_eq_true_iff.mp hr).1
      have hcond : (({ s with modelType := some req.model } : Server).isAgentThreadRunning &&
        o.continueTraining) = true := hr
      have hcomp : ({ s with modelType := some req.model } : Server).compatible req =
        s.compatible req := rfl
      simp only [hcond, if_true, hcomp]
      cases hc : s.compatible req with
      | true =>
          rw [if_pos rfl, loadTrainingState_eq]
          exact .continued hrun hc rfl (compatible_iff.mp hc).2.1
      | false =>
          rw [if_neg (by simp)]
          apply configureEnv_cases
          rw [loadTrainingState_eq]
          simp only [entered, hr, if_true]
          rfl
  | false =>
      have hcond : (({ s with modelType := some req.model } : Server).isAgentThreadRunning &&
        o.continueTraining) = false := hr
      simp only [hcond]
      rw [if_neg (by simp)]
      apply configureEnv_cases
      rw [loadTrainingState_eq]
      simp only [entered, hr]
      rfl

theorem EnvChosen.frame {s : Server} {alg : Algorithm} {b : Objects}
    (h : EnvChosen lib req alg s b) :
    b.model = s.model ∧ b.agentThread = s.agentThread ∧ b.threads = s.threads := by
  cases h with
  | reused _ => exact ⟨rfl, rfl, rfl⟩
  | created cls _ _ _ _ => exact ⟨rfl, rfl, rfl⟩
  | kept _ _ _ => exact ⟨rfl, rfl, rfl⟩

theorem EnvChosen.running {s : Server} {alg : Algorithm} {b : Objects}
    (h : EnvChosen lib req alg s b) : b.running = s.isAgentThreadRunning := by
  obtain ⟨_, hthread, hthreads⟩ := h.frame
  rw [← running_objects, Objects.running, Objects.running, hthread, hthreads]
  rfl

theorem EnvChosen.unique {s : Server} {alg : Algorithm} {b b' : Objects}
    (h : EnvChosen lib req alg s b) (h' : EnvChosen lib req alg s b') : b = b' := by
  cases h with
  | reused hre =>
      cases h' with
      | reused _ => rfl
      | created cls hre' _ _ _ => simp [hre] at hre'
      | kept hre' _ _ => simp [hre] at hre'
  | created cls hre hd _ _ =>
      cases h' with
      | reused hre' => simp [hre] at hre'
      | created cls' _ hd' _ _ =>
          have hcls : cls = cls' := Option.some.inj (hd.symm.trans hd')
          rw [hcls]
      | kept _ hd' _ => simp [hd] at hd'
  | kept hre hd _ =>
      cases h' with
      | reused hre' => simp [hre] at hre'
      | created cls' _ hd' _ _ => simp [hd] at hd'
      | kept _ _ _ => rfl

/-- A request for a learner can be met: there is an environment to work with, and a model. -/
def CanLearn (o : Options) (lib : Libraries) (req : ConfigureRequest) (alg : Algorithm)
    (s : Server) : Prop :=
  ∃ b, s.EnvChosen lib req alg b ∧ b.hasModel o lib alg req.envType = true

/-- When a request for a learner succeeds. -/
theorem success_iff {alg : Algorithm} (ha : Algorithm.ofName req.model = some alg) (s : Server) :
    (s.configure o lib req).2 = .success ↔ s.CanLearn o lib req alg := by
  have h := configure_cases o lib req s
  generalize s.configure o lib req = res at h ⊢
  obtain ⟨s', r⟩ := res
  have halg : ∀ {alg'}, Algorithm.ofName req.model = some alg' → alg' = alg :=
    fun ha' => Option.some.inj (ha'.symm.trans ha)
  cases h with
  | continued hr hc _ _ =>
      refine iff_of_true rfl ⟨s.objects, .reused (compatible_iff.mp hc).1, ?_⟩
      have hrun : s.objects.running = true := hr
      simp [Objects.hasModel, hrun]
  | noLearner hnone _ _ _ => simp [ha] at hnone
  | learned alg' b ha' hb hm _ _ =>
      cases halg ha'
      exact iff_of_true rfl ⟨b, hb, hm⟩
  | invalidModel hnone _ _ => simp [ha] at hnone
  | invalidEnv ha' hre hd _ =>
      cases halg ha'
      refine iff_of_false nofun ?_
      rintro ⟨b, hb, _⟩
      cases hb with
      | reused hre' => simp [hre] at hre'
      | created cls _ hd' _ _ => simp [hd] at hd'
      | kept _ _ hdqn => cases hdqn
  | envRaised alg' cls e ha' hre hd hl _ =>
      cases halg ha'
      refine iff_of_false nofun ?_
      rintro ⟨b, hb, _⟩
      cases hb with
      | reused hre' => simp [hre] at hre'
      | created cls' _ hd' hn hl' =>
          cases Option.some.inj (hd.symm.trans hd')
          exact hl ⟨hn, hl'⟩
      | kept _ hd' _ => simp [hd] at hd'
  | modelRaised alg' b e ha' hb hm _ =>
      cases halg ha'
      refine iff_of_false nofun ?_
      rintro ⟨b', hb', hm'⟩
      rw [hb'.unique hb, hm] at hm'
      cases hm'

/-! ### The training record -/

/-- What the choice of the objects leaves alone. -/
structure TrainingRecord where
  modelType : Option String
  envType : String
  stepsCounter : ℤ
  csvIndex : ℤ
  curves : String → List CurveLine

def record (s : Server) : TrainingRecord :=
  ⟨s.modelType, s.envType, s.stepsCounter, s.csvIndex, s.curves⟩

/-- The record with the learning curve written anew. -/
def TrainingRecord.restart (r : TrainingRecord) : TrainingRecord :=
  { r with curves := Function.update r.curves r.envType [.other] }

theorem record_createEnv (cls : EnvClass) (c : ℕ) (s : Server) :
    (s.createEnv lib req cls c).1.record = s.record := by
  unfold createEnv
  split
  · rfl
  · split
    · rfl
    · rfl

theorem record_newEnv (s : Server) : (s.newEnv lib req).1.record = s.record := by
  rw [newEnv_eq]
  split
  · rfl
  · dsimp only
    split
    · exact record_createEnv _ _ _
    · rfl
    · rfl

theorem record_createModel (alg : Algorithm) (s : Server) :
    (s.createModel lib alg).1.record = s.record := by
  unfold createModel
  split
  · rfl
  · split
    · rfl
    · rfl

theorem record_obtainModel (alg : Algorithm) (s : Server) :
    (s.obtainModel o lib alg).1.record = s.record := by
  unfold obtainModel
  split
  · rfl
  · split
    · rfl
    · split
      · split
        · rfl
        · dsimp only
          split
          · split
            · rfl
            · rfl
          · exact record_createModel _ _
      · exact record_createModel _ _

theorem record_endTransition (s : Server) : (s.endTransition o).record = s.record := by
  unfold endTransition
  split
  · rfl
  · rfl

/-- The model stage, which begins with the file. -/
theorem record_configureModel (c : Bool) (s : Server) :
    (s.configureModel o lib req c).1.record = if c then s.record else s.record.restart := by
  obtain ⟨t, ht, hrec⟩ : ∃ t : Server, t = (if c then s
      else { s with curves := Function.update s.curves s.envType [.other] }) ∧
        t.record = if c then s.record else s.record.restart := by
    cases c with
    | true => exact ⟨s, rfl, rfl⟩
    | false => exact ⟨_, rfl, rfl⟩
  unfold configureModel
  rw [← ht, ← hrec]
  dsimp only
  split
  · rw [record_endTransition]
  · next alg _ =>
      have h : (t.obtainModel o lib alg).1.record = t.record := record_obtainModel alg t
      split
      · next heq =>
          rw [heq] at h
          exact h
      · next heq =>
          rw [heq] at h
          rw [record_endTransition, ← h]
          split
          · rfl
          · rfl

theorem record_chooseEnv (o : Options) (lib : Libraries) (req : ConfigureRequest) (c : Bool)
    (s : Server) :
    (s.chooseEnv o lib req c).1.record = s.record ∨
      (s.chooseEnv o lib req c).1.record = if c then s.record else s.record.restart := by
  unfold chooseEnv
  split
  · exact Or.inr (record_configureModel c s)
  · have h : (s.newEnv lib req).1.record = s.record := record_newEnv s
    split
    · next heq =>
        rw [heq] at h
        exact Or.inl h
    · next heq =>
        rw [heq] at h
        right
        rw [record_configureModel, h]

/-- The record a request reads the counters into. -/
def loadedRecord (req : ConfigureRequest) (s : Server) : TrainingRecord :=
  let saved := { s with envType := req.envType }.savedCounters
  ⟨some req.model, req.envType, (saved.getD (0, 0)).2, (saved.getD (0, 0)).1, s.curves⟩

/-- **What a request does to the record**: the counters are those of the file of its `env_type`, and
the file is written anew at most if it holds none. -/
theorem record_configure (o : Options) (lib : Libraries) (req : ConfigureRequest) (s : Server) :
    (s.configure o lib req).1.record = s.loadedRecord req ∨
      { s with envType := req.envType }.savedCounters = none ∧
        (s.configure o lib req).1.record = (s.loadedRecord req).restart := by
  have hchoose : ∀ t : Server, t.modelType = some req.model → t.curves = s.curves →
      (t.configureEnv o lib req).1.record = s.loadedRecord req ∨
        { s with envType := req.envType }.savedCounters = none ∧
          (t.configureEnv o lib req).1.record = (s.loadedRecord req).restart := by
    intro t ht hc
    have hsaved : { t with envType := req.envType }.savedCounters =
        { s with envType := req.envType }.savedCounters := by
      unfold savedCounters
      rw [hc]
    have hload : { t with envType := req.envType }.loadTrainingState.1.record =
        s.loadedRecord req := by
      rw [loadTrainingState_eq, hsaved]
      simp only [record, loadedRecord, ht, hc]
    unfold configureEnv
    dsimp only
    rcases record_chooseEnv o lib req
      { t with envType := req.envType }.loadTrainingState.2
      { t with envType := req.envType }.loadTrainingState.1 with h | h
    · exact Or.inl (h.trans hload)
    · rw [hload] at h
      rw [h]
      unfold loadTrainingState
      rw [hsaved]
      cases { s with envType := req.envType }.savedCounters with
      | some c => exact Or.inl rfl
      | none => exact Or.inr ⟨rfl, rfl⟩
  unfold configure
  dsimp only
  split
  · split
    · next hcompat =>
        left
        have htype : s.envType = req.envType := (compatible_iff.mp hcompat).2.1
        rw [loadTrainingState_eq]
        simp only [record, loadedRecord, savedCounters, htype]
    · exact hchoose _ rfl rfl
  · exact hchoose _ rfl rfl

theorem modelType_configure (s : Server) :
    (s.configure o lib req).1.modelType = some req.model := by
  rcases record_configure o lib req s with h | ⟨-, h⟩
  · exact congrArg TrainingRecord.modelType h
  · exact congrArg TrainingRecord.modelType h

end Server

end Rbis
