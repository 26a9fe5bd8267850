import Rbis.Server.Env
import Mathlib.Logic.Function.Basic

/-! # The state of the server

The globals of `server.py`, the agent threads that were started, and the learning-curve files.
Environments, conditions and models are objects: they carry an identity, and two of them are the
same object exactly if they have the same one.  What the libraries do (whether an environment or
a model can be constructed, whether a pretrained model can be loaded) is an input of a request
(`Libraries`). -/

namespace Rbis

/-- The constants at the head of `server.py`. -/
structure Options where
  loadModel : Bool := true
  predict : Bool := true
  continueTraining : Bool := false
  totalTimesteps : ℕ := 100000

/-- The learning algorithms, `PPO` and `DQN`. -/
inductive Algorithm where
  | PPO
  | DQN
deriving DecidableEq

/-- The algorithm of a `model_type`. -/
def Algorithm.ofName (modelType : String) : Option Algorithm :=
  if modelType = "PPO" then some .PPO else if modelType = "DQN" then some .DQN else none

/-- The callback classes, under the names `server.py` imports them by. -/
inductive CallbackClass where
  | meanRewardLogCallbackBasic
  | meanRewardLogCallbackISAC
  | meanRewardLogCallbackDQN
  | meanRewardLogCallbackDQNBasic
deriving DecidableEq

/-- The callback class that goes with an environment class. -/
def EnvClass.callbackClass : EnvClass → CallbackClass
  | customEnvBasic => .meanRewardLogCallbackBasic
  | customEnvISAC => .meanRewardLogCallbackISAC
  | customEnvDQN => .meanRewardLogCallbackDQN
  | customEnvDQNBasic => .meanRewardLogCallbackDQNBasic

/-- An environment object, with the condition it was constructed with. -/
structure EnvObject where
  id : ℕ
  cls : EnvClass
  numUes : ℕ
  condition : ℕ
deriving DecidableEq

/-- A model object. -/
structure Model where
  id : ℕ
  algorithm : Algorithm
  /-- `model.env`. -/
  env : Option EnvObject
deriving DecidableEq

/-- A thread that runs `agent_loop`. -/
inductive AgentThread where
  /-- Started, before it has read the globals `condition` and `model`. -/
  | starting
  /-- In `model.learn`: the condition whose lock it took, the model, the environment whose `step`
  it is in, and the number of timesteps left. -/
  | learning (condition model : ℕ) (env : EnvObject) (left : ℕ)
  | ended
deriving DecidableEq

/-- `is_alive()`. -/
def AgentThread.isAlive : AgentThread → Bool
  | .ended => false
  | _ => true

/-- A line of a learning-curve file: a row that begins with two integers, or another line. -/
inductive CurveLine where
  | row (index step : ℤ)
  | other
deriving DecidableEq

structure Server where
  modelType : Option String := none
  model : Option Model := none
  env : Option EnvObject := none
  condition : Option ℕ := none
  /-- The index of the thread `agent_thread` refers to. -/
  agentThread : Option ℕ := none
  envType : String := "Basic"
  callbackClass : CallbackClass := .meanRewardLogCallbackBasic
  stepsCounter : ℤ := 0
  csvIndex : ℤ := 1
  transitionMode : Bool := false
  transitionStepsRemaining : ℤ := 0
  /-- All threads that were started. -/
  threads : List AgentThread := []
  /-- The identity of the next object. -/
  nextId : ℕ := 0
  /-- The lines of the file `learning_curve_{env_type}_0.csv` of each `env_type`. -/
  curves : String → List CurveLine := fun _ => []

/-- The outcomes of library calls during a request. -/
structure Libraries where
  /-- The constructor of an environment with this number of UEs succeeds. -/
  env : EnvClass → ℕ → Bool
  /-- The pretrained model of this path can be loaded for this environment. -/
  load : Algorithm → String → Option EnvObject → Bool
  /-- A model can be constructed for this environment. -/
  create : Algorithm → EnvObject → Bool

/-- Libraries in which every constructor succeeds and no pretrained model can be loaded. -/
def Libraries.untrained : Libraries := ⟨fun _ _ => true, fun _ _ _ => false, fun _ _ => true⟩

namespace Server

/-- `is_agent_thread_running()`. -/
def isAgentThreadRunning (s : Server) : Bool :=
  match s.agentThread with
  | none => false
  | some i => (s.threads[i]?.map AgentThread.isAlive).getD false

/-- `agent_thread = Thread(target=agent_loop, daemon=True); agent_thread.start()`. -/
def startAgentThread (s : Server) : Server :=
  { s with threads := s.threads ++ [.starting], agentThread := some s.threads.length }

/-- The counters in the last line of the learning curve of `env_type`. -/
def savedCounters (s : Server) : Option (ℤ × ℤ) :=
  if 1 < (s.curves s.envType).length then
    match (s.curves s.envType).getLast? with
    | some (.row index step) => some (index + 1, step)
    | _ => none
  else none

/-- `load_training_state()`: the counters afterwards, and whether they were read from the file. -/
def loadTrainingState (s : Server) : Server × Bool :=
  match s.savedCounters with
  | some (csvIndex, stepsCounter) => ({ s with csvIndex, stepsCounter }, true)
  | none => ({ s with csvIndex := 0, stepsCounter := 0 }, false)

/-- The next line of the learning curve of `env_type` is written. -/
def appendCurve (s : Server) (line : CurveLine) : Server :=
  { s with curves := Function.update s.curves s.envType (s.curves s.envType ++ [line]) }

theorem loadTrainingState_eq (s : Server) :
    s.loadTrainingState.1 =
      { s with csvIndex := (s.savedCounters.getD (0, 0)).1,
               stepsCounter := (s.savedCounters.getD (0, 0)).2 } := by
  unfold loadTrainingState
  cases s.savedCounters with
  | none => rfl
  | some c => rfl

end Server

end Rbis
