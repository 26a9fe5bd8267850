import Mathlib.Data.List.Forall2
import Rbis.Server.Infer

/-! # The object of a response

What `infer_sched_config` returns for each of its branches: zeros for four UEs, zeros in the
transition mode, the settings of a learner in prediction or in training, random settings, the
settings of a static type, or nothing.  What the libraries and the agent thread contribute is an
input (`Surroundings`), with what is documented of it as fields.  When it returns is the subject of
`Rbis.Server.Reply`. -/

namespace Rbis

open Cxx Fallible

/-- An action of the space. -/
def ActionSpace.Contains : ActionSpace → Action → Prop
  | .multiDiscrete ns, .multi xs => List.Forall₂ (· < ·) xs ns
  | .discrete n, .index i => i < n
  | _, _ => False

/-- The policy of a model.  It keeps the spaces of the environment it was made for, whatever
environment the model is given later. -/
structure Policy where
  cls : EnvClass
  numUes : ℕ
  /-- `predict`, on a state vector or the text `<invalid>`. -/
  predict : Option (List ℤ) → Except ServerError Action
  /-- An observation of another shape is refused. -/
  accepts : ∀ state, (predict state).isOk = true ↔
    state.map List.length = some (cls.observationSpace numUes).length
  predict_mem : ∀ state a, predict state = .ok a → (cls.actionSpace numUes).Contains a

/-- What a request meets outside of the handler. -/
structure Surroundings where
  policy : Policy
  /-- The attribute `action` of the environment when the handler reads it, back from `ppo`; the
  agent thread calls `step` with actions of the policy. -/
  action : Option Action
  action_mem : ∀ a, action = some a → (policy.cls.actionSpace policy.numUes).Contains a
  /-- The random numbers. -/
  randV : ℕ
  randWq : ℕ → ℕ
  randWg : ℕ → ℕ

/-- `random_tuning`, for the environment of `numUes` UEs. -/
def randomTuning (x : Surroundings) (numUes : ℕ) : Settings :=
  { v := x.randV, wq := .list ((List.range numUes).map x.randWq),
    wg := .list ((List.range numUes).map x.randWg) }

/-- The types `static_tuning` knows besides `Test`, with `v` and `wg`. -/
def staticTypes : List (String × ℕ × ℕ) :=
  [("Static_0_0_0", 0, 0), ("Static_1_0_0", 1, 0), ("Static_2_0_0", 2, 0), ("Static_3_0_0", 3, 0),
    ("Static_4_0_0", 4, 0), ("Static_0_0_1", 0, 1), ("Static_1_0_1", 1, 1), ("Static_2_0_1", 2, 1),
    ("Static_3_0_1", 3, 1), ("Static_4_0_1", 4, 1), ("Static_50_0_1", 50, 1)]

/-- `static_tuning`; it returns nothing for an unknown type. -/
def staticTuning (type : String) (mcs : ℤ) : Option Settings :=
  if type = "Test" then some { v := if mcs = 1 then 3 else 2, wq := .num 0, wg := .num 1 }
  else (staticTypes.lookup type).map fun e => { v := e.1, wq := .num 0, wg := .num e.2 }

namespace Server

variable (o : Options) (x : Surroundings)

/-- The settings of a prediction. -/
def predicted (alg : Algorithm) (e : EnvObject) (a : Action) : Except ServerError Settings :=
  match alg, a with
  | .PPO, .multi xs => Settings.ofArray e.numUes xs
  | .PPO, .index _ => .error .indexError
  | .DQN, a => if e.cls.isDQN then a.settings e.cls e.numUes else .error .attributeError

/-- The environment, as the handler reads it. -/
def envRead (e : EnvObject) (state : Option (List ℤ)) (reward : Dbl) : Env :=
  { cls := e.cls, numUes := e.numUes, state := state.getD [], reward, action := x.action }

/-- The settings in training: of what `ppo` returned with PPO, and of a second `get_action` with
DQN. -/
def trained (alg : Algorithm) (env : Env) (numMcs : ℕ) : Except ServerError Settings := do
  let action ← env.getAction
  match alg with
  | .PPO =>
      match action with
      | none => throw .typeError
      | some xs => Settings.ofArray env.numUes xs
  | .DQN =>
      match ← env.getAction with
      | none => return .zero numMcs
      | some actionFull => Settings.ofArray env.numUes actionFull

/-- What `infer_sched_config` returns in a branch, once `ppo` has returned; `none` is `None`. -/
def returned (numMcs : ℕ) (s : Server) : Branch → Except ServerError (Option Settings)
  | .default => .ok (some (.zero 4))
  | .transition numUes => .ok (some (.zero numUes))
  | .ppo state reward =>
      match s.modelType.bind Algorithm.ofName, s.env with
      | some alg, some e =>
          if o.predict then do
            let a ← x.policy.predict state
            let settings ← predicted alg e a
            return some settings
          else do
            let settings ← trained alg (envRead x e state reward) numMcs
            return some settings
      | _, _ => .error .attributeError
  | .random =>
      match s.env with
      | none => .error .attributeError
      | some e => .ok (some (randomTuning x e.numUes))
  | .static mcs => .ok (staticTuning s.envType mcs)
  | .null => .ok none

end Server

/-! ### The arrays of an action -/

/-- `v` and arrays of these lengths. -/
def Settings.HasLengths (st : Settings) (q g : ℕ) : Prop :=
  ∃ ws ws', st.wq = .list ws ∧ ws.length = q ∧ st.wg = .list ws' ∧ ws'.length = g

theorem hasLengths_zero (n : ℕ) : (Settings.zero n).HasLengths n n :=
  ⟨_, _, rfl, List.length_replicate, rfl, List.length_replicate⟩

theorem hasLengths_randomTuning (x : Surroundings) (n : ℕ) : (randomTuning x n).HasLengths n n := by
  refine ⟨_, _, rfl, ?_, rfl, ?_⟩
  · simp
  · simp

theorem hasLengths_ofArray {n m : ℕ} {xs : List ℕ} (h : xs.length = 1 + 2 * m) :
    ∃ st, Settings.ofArray n xs = .ok st ∧ st.HasLengths (min n (2 * m)) (min n (2 * m - n)) := by
  cases xs with
  | nil =>
      rw [List.length_nil] at h
      omega
  | cons v rest =>
      have hrest : rest.length = 2 * m := by
        rw [List.length_cons] at h
        omega
      refine ⟨_, rfl, _, _, rfl, ?_, rfl, ?_⟩
      · rw [List.length_take, hrest]
      · rw [List.length_take, List.length_drop, hrest]

theorem hasLengths_decoded {cls : EnvClass} (h : cls.isDQN = true) (n i : ℕ) :
    ∃ st, (Action.index i).settings cls n = .ok st ∧ st.HasLengths n n := by
  unfold Action.settings
  dsimp only
  rw [if_pos h]
  refine ⟨_, rfl, _, _, rfl, ?_, rfl, ?_⟩
  · simp [EnvClass.decodeAction]
  · simp [EnvClass.decodeAction, EnvClass.length_wgDigits]

theorem action_cases {cls : EnvClass} {n : ℕ} {a : Action} (h : (cls.actionSpace n).Contains a) :
    cls.isDQN = true ∧ (∃ i, a = .index i) ∨
      cls.isDQN = false ∧ ∃ xs, a = .multi xs ∧ xs.length = 1 + 2 * n := by
  unfold EnvClass.actionSpace at h
  cases hd : cls.isDQN with
  | true =>
      rw [hd, if_pos rfl] at h
      cases a with
      | multi xs => cases h
      | index i => exact Or.inl ⟨rfl, i, rfl⟩
  | false =>
      rw [hd, if_neg Bool.false_ne_true] at h
      cases a with
      | multi xs =>
          refine Or.inr ⟨rfl, xs, rfl, ?_⟩
          have hlen := List.Forall₂.length_eq h
          simp at hlen
          omega
      | index i => cases h

end Rbis
