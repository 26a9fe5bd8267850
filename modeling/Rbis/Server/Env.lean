import Mathlib.Algebra.Group.Nat.Defs
import Rbis.Lib.Containers

/-! # The environments

The four environment classes of the server.  They differ in the number of state components per
UE, in the action space, in the moment at which `step` stores the action (see
`Rbis.Server.Handshake`) and in what `get_action` makes of it.  A PPO environment has no
attribute `action` before its first `step` has returned; a DQN environment has `None`. -/

namespace Rbis

open Cxx

/-- What a request handler of the server raises. -/
inductive ServerError where
  | attributeError
  | indexError
  | valueError
  | typeError
  | unboundLocalError
  /-- An exception of a library call. -/
  | library
deriving DecidableEq

/-- The environment classes, under the names `server.py` imports them by. -/
inductive EnvClass where
  | customEnvBasic
  | customEnvISAC
  | customEnvDQN
  | customEnvDQNBasic
deriving DecidableEq

/-- An action of a policy: one entry per setting, or the index of a combination of settings. -/
inductive Action where
  | multi (xs : List ℕ)
  | index (i : ℕ)
deriving DecidableEq

inductive ActionSpace where
  | multiDiscrete (ns : List ℕ)
  | discrete (n : ℕ)
deriving DecidableEq

namespace EnvClass

/-- The environments whose action is an index. -/
def isDQN : EnvClass → Bool
  | customEnvBasic | customEnvISAC => false
  | customEnvDQN | customEnvDQNBasic => true

/-- `STATE_SPACE`. -/
def stateSpace : EnvClass → ℕ
  | customEnvBasic | customEnvDQNBasic => 3
  | customEnvISAC | customEnvDQN => 4

/-- `V_STATES`. -/
def vStates : EnvClass → ℕ
  | customEnvBasic | customEnvISAC => 3
  | customEnvDQN | customEnvDQNBasic => 4

/-- `WQ_STATES`. -/
def wqStates : EnvClass → ℕ := fun _ => 1

/-- `WG_STATES`. -/
def wgStates : EnvClass → ℕ
  | customEnvBasic | customEnvISAC => 1
  | customEnvDQN | customEnvDQNBasic => 2

/-- `low_bounds` and `high_bounds` of the observation space, component by component. -/
def observationSpace (cls : EnvClass) (numUes : ℕ) : List (ℤ × ℤ) :=
  List.replicate numUes (0, 2) ++ List.replicate numUes (0, 2) ++ List.replicate numUes (0, 2) ++
    if cls.stateSpace = 4 then List.replicate numUes (0, 1) else []

def actionSpace (cls : EnvClass) (numUes : ℕ) : ActionSpace :=
  if cls.isDQN then .discrete (cls.vStates * cls.wgStates ^ numUes)
  else .multiDiscrete ([cls.vStates] ++ List.replicate numUes cls.wqStates ++
    List.replicate numUes cls.wgStates)

/-- The loop of `decode_action`: `n` digits of `i` in base `b`, the last one first. -/
def wgDigits (b : ℕ) : ℕ → ℕ → List ℕ
  | 0, _ => []
  | n + 1, i => i % b :: wgDigits b n (i / b)

/-- `decode_action`: `v`, `wq_list` and `wg_list` of an action index. -/
def decodeAction (cls : EnvClass) (numUes actionIdx : ℕ) : ℕ × List ℕ × List ℕ :=
  let totalWgCombinations := cls.wgStates ^ numUes
  let v := actionIdx / totalWgCombinations
  let wgCombinationIdx := actionIdx % totalWgCombinations
  let wgList := (wgDigits cls.wgStates numUes wgCombinationIdx).reverse
  (v, List.replicate numUes 0, wgList)

theorem length_wgDigits (b : ℕ) : ∀ n i, (wgDigits b n i).length = n
  | 0, _ => rfl
  | n + 1, i => by rw [wgDigits, List.length_cons, length_wgDigits b n]

theorem length_observationSpace (cls : EnvClass) (n : ℕ) :
    (cls.observationSpace n).length = cls.stateSpace * n := by
  cases cls with
  | customEnvBasic => simp [observationSpace, stateSpace]; omega
  | customEnvISAC => simp [observationSpace, stateSpace]; omega
  | customEnvDQN => simp [observationSpace, stateSpace]; omega
  | customEnvDQNBasic => simp [observationSpace, stateSpace]; omega

end EnvClass

/-- An environment object. -/
structure Env where
  cls : EnvClass
  numUes : ℕ
  state : List ℤ
  reward : Dbl
  /-- The attribute `action`: `none` stands for its absence in a PPO environment and for `None`
  in a DQN environment. -/
  action : Option Action
deriving DecidableEq

namespace Env

/-- The constructor. -/
def new (cls : EnvClass) (numUes : ℕ) : Env :=
  { cls, numUes, state := List.replicate (cls.stateSpace * numUes) 0, reward := .fin 0,
    action := none }

/-- `update_data`. -/
def updateData (env : Env) (state : List ℤ) (reward : Dbl) : Env := { env with state, reward }

/-- `reset`: the observation is `env.state`; the DQN environments forget the action. -/
def reset (env : Env) : Env :=
  if env.cls.isDQN then { env with action := none } else env

/-- `step(action)` up to its `condition.wait()`: the DQN environments store the action here. -/
def stepBeforeWait (env : Env) (action : Action) : Env :=
  if env.cls.isDQN then { env with action := some action } else env

/-- `step(action)` from its `condition.wait()` on: the PPO environments store the action here. -/
def stepAfterWait (env : Env) (action : Action) : Env :=
  if env.cls.isDQN then env else { env with action := some action }

/-- `get_action`: the array of the settings, or `None`.  The names of the two lists that
`decode_action` returns are exchanged when it is called and again when the array is built. -/
def getAction (env : Env) : Except ServerError (Option (List ℕ)) :=
  if env.cls.isDQN then
    match env.action with
    | none => .ok none
    | some (.index actionIdx) =>
        let (v, wgList, wqList) := env.cls.decodeAction env.numUes actionIdx
        .ok (some ([v] ++ wgList ++ wqList))
    | some (.multi _) => .error .typeError
  else
    match env.action with
    | none => .error .attributeError
    | some (.multi xs) => .ok (some xs)
    | some (.index _) => .error .indexError

theorem reset_eq (env : Env) :
    env.reset = { env with action := if env.cls.isDQN then none else env.action } := by
  unfold reset
  split <;> rfl

theorem stepBeforeWait_eq (env : Env) (a : Action) :
    env.stepBeforeWait a = { env with action := if env.cls.isDQN then some a else env.action } := by
  unfold stepBeforeWait
  split <;> rfl

theorem stepAfterWait_eq (env : Env) (a : Action) :
    env.stepAfterWait a = { env with action := if env.cls.isDQN then env.action else some a } := by
  unfold stepAfterWait
  split <;> rfl

end Env

/-! ### The settings of a response -/

/-- One of `wq`, `wg`: a number, or a list with an entry per UE. -/
inductive Weights where
  | num (w : ℕ)
  | list (ws : List ℕ)
deriving DecidableEq

/-- The object a request is answered with. -/
structure Settings where
  v : ℕ
  wq : Weights
  wg : Weights
deriving DecidableEq

namespace Settings

/-- `v`, `wq` and `wg` are all zero. -/
def zero (numUes : ℕ) : Settings :=
  { v := 0, wq := .list (List.replicate numUes 0), wg := .list (List.replicate numUes 0) }

/-- `action[0]`, `action[1 : 1 + n]` and `action[1 + n : 1 + 2 * n]`. -/
def ofArray (numUes : ℕ) (action : List ℕ) : Except ServerError Settings :=
  match action with
  | [] => .error .indexError
  | v :: rest => .ok { v, wq := .list (rest.take numUes), wg := .list ((rest.drop numUes).take numUes) }

end Settings

/-- The settings an action of an environment stands for. -/
def Action.settings (cls : EnvClass) (numUes : ℕ) : Action → Except ServerError Settings
  | .multi xs => if cls.isDQN then .error .typeError else Settings.ofArray numUes xs
  | .index actionIdx =>
      if cls.isDQN then
        let (v, wqList, wgList) := cls.decodeAction numUes actionIdx
        .ok { v, wq := .list wqList, wg := .list wgList }
      else .error .indexError

theorem Settings.ofArray_decoded (cls : EnvClass) (n i : ℕ) :
    Settings.ofArray n ([(cls.decodeAction n i).1] ++ (cls.decodeAction n i).2.1 ++
      (cls.decodeAction n i).2.2) =
      .ok { v := (cls.decodeAction n i).1, wq := .list (cls.decodeAction n i).2.1,
            wg := .list (cls.decodeAction n i).2.2 } := by
  have hq : (cls.decodeAction n i).2.1.length = n := by simp [EnvClass.decodeAction]
  have hg : (cls.decodeAction n i).2.2.length = n := by
    simp [EnvClass.decodeAction, EnvClass.length_wgDigits]
  generalize (cls.decodeAction n i).2.1 = wq at hq
  generalize (cls.decodeAction n i).2.2 = wg at hg
  subst hq
  simp [Settings.ofArray, ← hg]

end Rbis
