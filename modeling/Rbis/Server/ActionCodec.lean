import Mathlib.Data.Set.Function
import Rbis.Lib.Numeral
import Rbis.Server.Answer
import Rbis.Server.Configure

/-! # The action index of a DQN environment

An action of a DQN environment is an index below `V_STATES * WG_STATES ** num_ues`.
`decode_action` takes it apart into `v` and the digits of a numeral in base `WG_STATES`, one for
each UE.  The settings reach the scheduler through `decode_action` in prediction and through
`get_action` in training, and `step` puts them into `info`. -/

namespace Rbis

open Cxx Fallible

/-! ### Indices and settings -/

/-- The constants `V_STATES` and `WG_STATES` of a class. -/
structure DqnStates where
  vStates : ℕ
  wgStates : ℕ
  vStates_pos : 0 < vStates
  wgStates_pos : 0 < wgStates

namespace DqnStates

variable (D : DqnStates) (numUes : ℕ)

/-- The size of the action space, `V_STATES * WG_STATES ** num_ues`. -/
def numActions : ℕ := D.vStates * D.wgStates ^ numUes

/-- `decode_action`: `v`, `wq_list` and `wg_list`. -/
def decodeAction (actionIdx : ℕ) : ℕ × List ℕ × List ℕ :=
  let totalWgCombinations := D.wgStates ^ numUes
  let v := actionIdx / totalWgCombinations
  let wgCombinationIdx := actionIdx % totalWgCombinations
  let wgList := (Numeral.digits D.wgStates numUes wgCombinationIdx).reverse
  (v, List.replicate numUes 0, wgList)

/-- The index of the settings `v` and `wg`. -/
def encodeAction (v : ℕ) (wg : List ℕ) : ℕ :=
  v * D.wgStates ^ numUes +
    ∑ i ∈ Finset.range numUes, wg.getD i 0 * D.wgStates ^ (numUes - 1 - i)

/-- The combinations of settings: a `v`, zeros for `wq`, and a value of `wg` for each UE. -/
def settings : Set (ℕ × List ℕ × List ℕ) :=
  {s | s.1 < D.vStates ∧ s.2.1 = List.replicate numUes 0 ∧
    s.2.2.length = numUes ∧ ∀ w ∈ s.2.2, w < D.wgStates}

variable {D numUes}

theorem encodeAction_eq {v : ℕ} {wg : List ℕ} (h : wg.length = numUes) :
    D.encodeAction numUes v wg = Nat.ofDigits D.wgStates wg.reverse + D.wgStates ^ numUes * v := by
  subst h
  rw [encodeAction, Numeral.ofDigits_reverse, mul_comm v, add_comm]

theorem decodeAction_mem {a : ℕ} (ha : a < D.numActions numUes) :
    D.decodeAction numUes a ∈ D.settings numUes := by
  refine ⟨?_, rfl, Numeral.reverse_mem (Numeral.digits_mem D.wgStates_pos _ _)⟩
  rw [numActions, mul_comm] at ha
  exact Nat.div_lt_of_lt_mul ha

theorem encodeAction_lt {s : ℕ × List ℕ × List ℕ} (hs : s ∈ D.settings numUes) :
    D.encodeAction numUes s.1 s.2.2 < D.numActions numUes := by
  obtain ⟨hv, _, hwg⟩ := hs
  rw [encodeAction_eq hwg.1, numActions]
  have hlt := Numeral.ofDigits_lt (Numeral.reverse_mem hwg)
  calc Nat.ofDigits D.wgStates s.2.2.reverse + D.wgStates ^ numUes * s.1
      < D.wgStates ^ numUes * (s.1 + 1) := by rw [Nat.mul_succ]; omega
    _ ≤ D.wgStates ^ numUes * D.vStates := Nat.mul_le_mul_left _ hv
    _ = D.vStates * D.wgStates ^ numUes := mul_comm _ _

theorem encodeAction_decodeAction (a : ℕ) :
    D.encodeAction numUes (D.decodeAction numUes a).1 (D.decodeAction numUes a).2.2 = a := by
  have hlen : (D.decodeAction numUes a).2.2.length = numUes :=
    List.length_reverse.trans (Numeral.length_digits _ _ _)
  rw [encodeAction_eq hlen]
  unfold decodeAction
  dsimp only
  rw [List.reverse_reverse, Numeral.ofDigits_digits, Nat.mod_mod]
  exact Nat.mod_add_div a (D.wgStates ^ numUes)

theorem decodeAction_encodeAction {s : ℕ × List ℕ × List ℕ} (hs : s ∈ D.settings numUes) :
    D.decodeAction numUes (D.encodeAction numUes s.1 s.2.2) = s := by
  obtain ⟨v, wq, wg⟩ := s
  obtain ⟨_, hwq, hwg⟩ := hs
  dsimp only at hwq hwg ⊢
  have hmem := Numeral.reverse_mem hwg
  have hlt := Numeral.ofDigits_lt hmem
  rw [encodeAction_eq hwg.1, hwq]
  unfold decodeAction
  dsimp only
  rw [Nat.add_mul_div_left _ _ (Nat.pow_pos D.wgStates_pos), Nat.div_eq_of_lt hlt, Nat.zero_add,
    Nat.add_mul_mod_self_left, Nat.mod_eq_of_lt hlt, Numeral.digits_ofDigits hmem,
    List.reverse_reverse]

/-- **The codec.** `decode_action` is a bijection from the action space to the combinations of
settings, and `encodeAction` is its inverse. -/
theorem decodeAction_bijOn (D : DqnStates) (numUes : ℕ) :
    Set.BijOn (D.decodeAction numUes) {a | a < D.numActions numUes} (D.settings numUes) ∧
      Set.InvOn (fun s => D.encodeAction numUes s.1 s.2.2) (D.decodeAction numUes)
        {a | a < D.numActions numUes} (D.settings numUes) := by
  have hinv : Set.InvOn (fun s => D.encodeAction numUes s.1 s.2.2) (D.decodeAction numUes)
      {a | a < D.numActions numUes} (D.settings numUes) :=
    ⟨fun a _ => encodeAction_decodeAction a, fun s hs => decodeAction_encodeAction hs⟩
  exact ⟨hinv.bijOn (fun a ha => decodeAction_mem ha) fun s hs => encodeAction_lt hs, hinv⟩

end DqnStates

namespace EnvClass

/-- The constants of a class. -/
def dqnStates (cls : EnvClass) : DqnStates where
  vStates := cls.vStates
  wgStates := cls.wgStates
  vStates_pos := by cases cls <;> decide
  wgStates_pos := by cases cls <;> decide

theorem wgDigits_eq (b : ℕ) : ∀ n i, wgDigits b n i = Numeral.digits b n i
  | 0, _ => rfl
  | n + 1, i => by rw [wgDigits, Numeral.digits, wgDigits_eq b n]

theorem decodeAction_eq (cls : EnvClass) (numUes a : ℕ) :
    cls.decodeAction numUes a = cls.dqnStates.decodeAction numUes a := by
  unfold decodeAction
  dsimp only
  rw [wgDigits_eq]
  rfl

end EnvClass

/-! ### The three paths -/

/-- The `info` that `step` returns. -/
structure StepInfo where
  v : ℕ
  wq : List ℕ
  wg : List ℕ
  actionIdx : ℕ
deriving DecidableEq

/-- The `info` of `step(action)` in a DQN environment.  As in `get_action`, the names of the two
lists are exchanged when `decode_action` is called; here they are not exchanged back. -/
def EnvClass.stepInfo (cls : EnvClass) (numUes action : ℕ) : StepInfo :=
  let (v, wgList, wqList) := cls.decodeAction numUes action
  { v, wq := wqList, wg := wgList, actionIdx := action }

/-- A request in a server with the DQN environment `e`, which meets the action `a` in both modes:
the policy predicts it, and it is the last action of the environment. -/
structure Server.MeetsAction (s : Server) (e : EnvObject) (x : Surroundings)
    (state : Option (List ℤ)) (a : ℕ) : Prop where
  model : s.modelType.bind Algorithm.ofName = some .DQN
  env : s.env = some e
  cls : e.cls.isDQN = true
  predicts : x.policy.predict state = .ok (.index a)
  action : x.action = some (.index a)

/-- The response in prediction, the one in training, and the `info` of `step` have the same `v`,
`wq` and `wg`. -/
def Server.PathsAgree (s : Server) (o : Options) (x : Surroundings) (e : EnvObject)
    (state : Option (List ℤ)) (reward : Dbl) (numMcs a : ℕ) : Prop :=
  ∃ v wq wg,
    s.returned { o with predict := true } x numMcs (.ppo state reward) =
      .ok (some { v, wq := .list wq, wg := .list wg }) ∧
    s.returned { o with predict := false } x numMcs (.ppo state reward) =
      .ok (some { v, wq := .list wq, wg := .list wg }) ∧
    e.cls.stepInfo e.numUes a = { v, wq, wg, actionIdx := a }

theorem EnvClass.wg_eq_zeros_iff (cls : EnvClass) (numUes a : ℕ) :
    (cls.decodeAction numUes a).2.2 = List.replicate numUes 0 ↔ cls.wgStates ^ numUes ∣ a := by
  rw [cls.decodeAction_eq]
  unfold DqnStates.decodeAction
  dsimp only
  rw [List.reverse_eq_iff, List.reverse_replicate,
    Numeral.digits_eq_zeros_iff cls.dqnStates.wgStates_pos]
  exact Nat.dvd_mod_iff dvd_rfl

namespace Server.MeetsAction

variable {s : Server} {e : EnvObject} {x : Surroundings} {state : Option (List ℤ)} {a : ℕ}

/-- The settings of an index. -/
def settingsOf (e : EnvObject) (a : ℕ) : Settings where
  v := (e.cls.decodeAction e.numUes a).1
  wq := .list (e.cls.decodeAction e.numUes a).2.1
  wg := .list (e.cls.decodeAction e.numUes a).2.2

theorem returned_predict (h : s.MeetsAction e x state a) (o : Options) (reward : Dbl)
    (numMcs : ℕ) : s.returned { o with predict := true } x numMcs (.ppo state reward) =
      .ok (some (settingsOf e a)) := by
  unfold returned
  dsimp only
  rw [h.model, h.env]
  dsimp only
  rw [if_pos rfl, h.predicts, ok_bind]
  unfold predicted Action.settings
  dsimp only
  rw [if_pos h.cls, if_pos h.cls]
  rfl

theorem returned_train (h : s.MeetsAction e x state a) (o : Options) (reward : Dbl)
    (numMcs : ℕ) : s.returned { o with predict := false } x numMcs (.ppo state reward) =
      .ok (some (settingsOf e a)) := by
  unfold returned
  dsimp only
  rw [h.model, h.env]
  dsimp only
  have hget : (envRead x e state reward).getAction =
      .ok (some ([(e.cls.decodeAction e.numUes a).1] ++ (e.cls.decodeAction e.numUes a).2.1 ++
        (e.cls.decodeAction e.numUes a).2.2)) := by
    unfold Env.getAction envRead
    dsimp only
    rw [if_pos h.cls, h.action]
  have htrained : trained .DQN (envRead x e state reward) numMcs = .ok (settingsOf e a) := by
    unfold trained
    rw [hget, ok_bind]
    dsimp only
    rw [ok_bind]
    exact Settings.ofArray_decoded e.cls e.numUes a
  rw [if_neg Bool.false_ne_true, htrained, ok_bind]
  rfl

/-- **The three paths** agree exactly on the indices whose values of `wg` are zeros. -/
theorem pathsAgree_iff (h : s.MeetsAction e x state a) (o : Options) (reward : Dbl) (numMcs : ℕ) :
    s.PathsAgree o x e state reward numMcs a ↔ e.cls.wgStates ^ e.numUes ∣ a := by
  unfold PathsAgree
  rw [h.returned_predict, h.returned_train, ← e.cls.wg_eq_zeros_iff]
  constructor
  · rintro ⟨v, wq, wg, hsent, _, hinfo⟩
    have hwq : Weights.list (e.cls.decodeAction e.numUes a).2.1 = .list wq :=
      congrArg Settings.wq (Option.some.inj (Except.ok.inj hsent))
    have hinfoq : (e.cls.decodeAction e.numUes a).2.2 = wq := congrArg StepInfo.wq hinfo
    rw [hinfoq]
    exact (Weights.list.inj hwq).symm
  · intro hzeros
    refine ⟨_, _, _, rfl, rfl, ?_⟩
    have hsame : (e.cls.decodeAction e.numUes a).2.2 = (e.cls.decodeAction e.numUes a).2.1 := hzeros
    exact congrArg₂ (fun wq wg => StepInfo.mk (e.cls.decodeAction e.numUes a).1 wq wg a)
      hsame hsame.symm

end Server.MeetsAction

/-- A policy that always predicts the index `a`. -/
def Policy.always (numUes a : ℕ) (ha : a < 4 * 2 ^ numUes) : Policy where
  cls := .customEnvDQNBasic
  numUes := numUes
  predict := fun state =>
    if state.map List.length = some (EnvClass.customEnvDQNBasic.observationSpace numUes).length then
      .ok (.index a)
    else .error .library
  accepts := by
    intro state
    split
    · next h => exact iff_of_true rfl h
    · next h => exact iff_of_false (fun h' => by cases h') h
  predict_mem := by
    intro state b h
    split at h
    · cases h
      exact ha
    · cases h

/-- This policy, with `a` as the last action. -/
def Surroundings.always (numUes a : ℕ) (ha : a < 4 * 2 ^ numUes) : Surroundings where
  policy := .always numUes a ha
  action := some (.index a)
  action_mem := by
    rintro b h
    cases h
    exact ha
  randV := 0
  randWq := fun _ => 0
  randWg := fun _ => 0

/-- The server after a request for a DQN learner of four UEs. -/
def Server.dqnFourUes : Server :=
  (({} : Server).configure {} .untrained ⟨"DQN", 4, "Basic"⟩).1

theorem meetsAction_dqnFourUes {a : ℕ} (ha : a < 4 * 2 ^ 4) :
    Server.dqnFourUes.MeetsAction ⟨1, .customEnvDQNBasic, 4, 0⟩ (.always 4 a ha)
      (some (List.replicate 12 0)) a :=
  ⟨by decide +kernel, by decide +kernel, rfl, rfl, rfl⟩

theorem pathsAgree_fourUes : Server.dqnFourUes.PathsAgree {} (.always 4 16 (by decide))
    ⟨1, .customEnvDQNBasic, 4, 0⟩ (some (List.replicate 12 0)) (.fin 1) 4 16 :=
  (Server.MeetsAction.pathsAgree_iff (meetsAction_dqnFourUes (by decide)) {} (.fin 1) 4).mpr
    (by decide)

/-- With the index 1, only the last UE has a `wg`: `step` reports it as `wq`. -/
theorem not_pathsAgree_index : ¬ Server.dqnFourUes.PathsAgree {} (.always 4 1 (by decide))
    ⟨1, .customEnvDQNBasic, 4, 0⟩ (some (List.replicate 12 0)) (.fin 1) 4 1 := by
  rintro ⟨v, wq, wg, hsent, _, hinfo⟩
  have hwq : Weights.list [0, 0, 0, 0] = .list wq := by
    rw [(meetsAction_dqnFourUes (a := 1) (by decide)).returned_predict] at hsent
    exact congrArg Settings.wq (Option.some.inj (Except.ok.inj hsent))
  have hinfoq : [0, 0, 0, 1] = wq := congrArg StepInfo.wq hinfo
  rw [← hinfoq] at hwq
  exact absurd hwq (by decide)

end Rbis
