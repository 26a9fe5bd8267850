import Mathlib.Data.List.GetD
import Rbis.Server.Handshake

/-! # Which action a response carries

In a handshake in which the agent waits when the first request arrives, request `t` carries the
`t`-th observation, from which the learner predicts its `t`-th action.  The DQN environments
store an action before they wait, the PPO environments after it; `get_action` runs in between.
So with PPO the response to request `t` carries action `t - 1`, with DQN action `t`, and the
last response carries the last action in both (`Training.reply`). -/

namespace Rbis

open Cxx Monitor

theorem answer_getAction {env : Env} {a : Action} (h : env.action = some a) (d : Sample) :
    answer env d env.getAction = a.settings env.cls env.numUes := by
  cases hd : env.cls.isDQN with
  | false =>
      cases a with
      | multi xs => simp [answer, Env.getAction, Action.settings, h, hd, bind, Except.bind]
      | index i => simp [answer, Env.getAction, Action.settings, h, hd, bind, Except.bind]
  | true =>
      cases a with
      | multi xs => simp [answer, Env.getAction, Action.settings, h, hd, bind, Except.bind]
      | index i =>
          have hcut := Settings.ofArray_decoded env.cls env.numUes i
          simp only [answer, Env.getAction, Action.settings, h, hd, bind, Except.bind, if_true]
          exact hcut

namespace Training

variable (T : Training) (posted : List (List ℤ × Dbl))

/-- The `k`-th observation: the one of `reset`, then those of the requests. -/
def observation : ℕ → List ℤ
  | 0 => (Env.new T.cls T.numUes).state
  | k + 1 => (posted.map Prod.fst).getD k []

/-- The reward of the `k`-th request. -/
def rewardAt (posted : List (List ℤ × Dbl)) (k : ℕ) : Dbl :=
  (posted.map Prod.snd).getD (k - 1) (.fin 0)

/-- The action predicted from the `k`-th observation. -/
def action (k : ℕ) : Action := T.policy k (T.observation posted k)

/-- The settings the `k`-th action stands for. -/
def settings (k : ℕ) : Except ServerError Settings := (T.action posted k).settings T.cls T.numUes

/-- The transition of the `k`-th `env.step`. -/
def transition (k : ℕ) : Transition :=
  ⟨T.observation posted k, T.action posted k, rewardAt posted (k + 1), T.observation posted (k + 1)⟩

/-- The action in the environment when `k` calls of `env.step` have returned, the next one being
called or not. -/
def stored (k : ℕ) (called : Bool) : Option Action :=
  match T.cls.isDQN && called, k with
  | true, k => some (T.action posted k)
  | false, 0 => none
  | false, k + 1 => some (T.action posted k)

/-- The index of the action the response to request `k + 1` carries. -/
def replied (k : ℕ) : ℕ := if T.cls.isDQN ∧ k + 1 < T.totalTimesteps then k + 1 else k

variable {T posted}

theorem observation_append {k : ℕ} (hk : k ≤ posted.length) (x : List ℤ × Dbl) :
    T.observation (posted ++ [x]) k = T.observation posted k := by
  cases k with
  | zero => rfl
  | succ k =>
      have hk' : k < (posted.map Prod.fst).length := by rwa [List.length_map]
      simp only [observation, List.map_append, List.map_cons, List.map_nil]
      rw [List.getD_append _ _ _ _ hk']

theorem action_append {k : ℕ} (hk : k ≤ posted.length) (x : List ℤ × Dbl) :
    T.action (posted ++ [x]) k = T.action posted k := by
  simp only [action, observation_append hk]

theorem transition_append {k : ℕ} (hk : k < posted.length) (x : List ℤ × Dbl) :
    T.transition (posted ++ [x]) k = T.transition posted k := by
  have hk' : k < (posted.map Prod.snd).length := by rwa [List.length_map]
  have hr : rewardAt (posted ++ [x]) (k + 1) = rewardAt posted (k + 1) := by
    simp only [rewardAt, List.map_append, List.map_cons, List.map_nil, Nat.add_sub_cancel]
    exact List.getD_append _ _ _ _ hk'
  simp only [transition, observation_append hk.le, observation_append (Nat.succ_le_of_lt hk),
    action_append hk.le, hr]

theorem settings_append {k : ℕ} (hk : k ≤ posted.length) (x : List ℤ × Dbl) :
    T.settings (posted ++ [x]) k = T.settings posted k := by
  simp only [settings, action_append hk]

theorem stored_append {k : ℕ} (hk : k ≤ posted.length) (b : Bool) (x : List ℤ × Dbl) :
    T.stored (posted ++ [x]) k b = T.stored posted k b := by
  unfold stored
  split
  · rw [action_append hk]
  · rfl
  · rw [action_append (by omega)]

@[simp] theorem stored_zero : T.stored posted 0 false = none := by
  unfold stored
  cases T.cls.isDQN <;> rfl

theorem stored_called (hd : T.cls.isDQN = true) (k : ℕ) :
    T.stored posted k true = some (T.action posted k) := by
  simp [stored, hd]

theorem stored_returned (k : ℕ) : T.stored posted (k + 1) false = some (T.action posted k) := by
  simp [stored]

theorem stored_ppo (hd : T.cls.isDQN = false) (k : ℕ) (b : Bool) :
    T.stored posted k b = T.stored posted k false := by
  simp [stored, hd]

theorem replied_le (k : ℕ) : T.replied k ≤ k + 1 := by
  unfold replied
  split <;> omega

end Training

/-! ### The logs of a run -/

namespace Training

variable (T : Training) (posted : List (List ℤ × Dbl))

def selectedLog (n : ℕ) : List (List ℤ × Action) :=
  (List.range n).map fun k => (T.observation posted k, T.action posted k)

def recordedLog (n : ℕ) : List Transition := (List.range n).map (T.transition posted)

def responsesLog (n : ℕ) : List (Except ServerError Settings) :=
  (List.range n).map fun k => T.settings posted (T.replied k)

variable {T posted}

theorem selectedLog_append {n : ℕ} (hn : n ≤ posted.length + 1) (x : List ℤ × Dbl) :
    T.selectedLog (posted ++ [x]) n = T.selectedLog posted n := by
  refine List.map_congr_left fun k hk => ?_
  have hk' : k ≤ posted.length := by
    have := List.mem_range.mp hk
    omega
  rw [observation_append hk', action_append hk']

theorem recordedLog_append {n : ℕ} (hn : n ≤ posted.length) (x : List ℤ × Dbl) :
    T.recordedLog (posted ++ [x]) n = T.recordedLog posted n := by
  refine List.map_congr_left fun k hk => ?_
  have := List.mem_range.mp hk
  exact transition_append (by omega) x

theorem responsesLog_append {n : ℕ} (hn : n ≤ posted.length) (x : List ℤ × Dbl) :
    T.responsesLog (posted ++ [x]) n = T.responsesLog posted n := by
  refine List.map_congr_left fun k hk => ?_
  have := List.mem_range.mp hk
  have := T.replied_le k
  exact settings_append (by omega) x

theorem selectedLog_succ (n : ℕ) :
    T.selectedLog posted (n + 1) =
      T.selectedLog posted n ++ [(T.observation posted n, T.action posted n)] := by
  simp [selectedLog, List.range_succ]

theorem recordedLog_succ (n : ℕ) :
    T.recordedLog posted (n + 1) = T.recordedLog posted n ++ [T.transition posted n] := by
  simp [recordedLog, List.range_succ]

theorem responsesLog_succ (n : ℕ) :
    T.responsesLog posted (n + 1) =
      T.responsesLog posted n ++ [T.settings posted (T.replied n)] := by
  simp [responsesLog, List.range_succ]

end Training

/-- The agent has called `env.step` and is still in it. -/
def AgentPc.called : AgentPc → Bool
  | .stepping _ | .returning _ => true
  | _ => false

/-- The handler has posted a request and has not answered it. -/
def HandlerPc.busy : HandlerPc → Bool
  | .posting _ | .waiting _ | .reading _ | .answering _ _ => true
  | _ => false

namespace Handshake

/-- The first request arrives when the agent waits in `env.step`. -/
def AgentFirst (s : Handshake) : Move → Prop
  | .request _ => s.posted = [] → ∃ a, s.agent = .stepping a
  | _ => True

/-- What the agent knows at each of its places. -/
def AgentData (T : Training) (s : Handshake) : AgentPc → Prop
  | .starting | .resetting => s.recorded = [] ∧ s.env.state = T.observation s.posted 0
  | .choosing =>
      s.lastObs = T.observation s.posted s.recorded.length ∧ s.recorded.length ≤ T.totalTimesteps
  | .stepping a | .returning a =>
      s.lastObs = T.observation s.posted s.recorded.length ∧
        s.recorded.length < T.totalTimesteps ∧ a = T.action s.posted s.recorded.length
  | .ended => s.recorded.length = T.totalTimesteps

/-- The logs and the environment are those of the requests posted so far. -/
structure Synced (T : Training) (s : Handshake) : Prop where
  cls : s.env.cls = T.cls
  numUes : s.env.numUes = T.numUes
  count : s.consumed.length = s.recorded.length
  selected : s.selected =
    T.selectedLog s.posted (s.recorded.length + if s.agent.called then 1 else 0)
  recorded : s.recorded = T.recordedLog s.posted s.recorded.length
  responses : s.responses =
    T.responsesLog s.posted (s.posted.length - if s.handler.busy then 1 else 0)
  action : s.env.action = T.stored s.posted s.recorded.length s.agent.called
  agent : AgentData T s s.agent
  pending : s.handler.busy = true → s.posted ≠ []
  answering : ∀ d action, s.handler = .answering d action → action = s.env.getAction
  /-- The agent waits, or has ended, or is waited for, or no request has arrived. -/
  turn : (∃ a, s.agent = .stepping a) ∨ s.agent = .ended ∨ (∃ d, s.handler = .waiting d) ∨
    s.handler = .idle ∧ s.posted = []

variable {T : Training}

theorem synced_start : Synced T (start T) where
  cls := rfl
  numUes := rfl
  count := rfl
  selected := rfl
  recorded := rfl
  responses := rfl
  action := Training.stored_zero.symm
  agent := ⟨rfl, rfl⟩
  pending h := by cases h
  answering _ _ h := by cases h
  turn := .inr (.inr (.inr ⟨rfl, rfl⟩))

theorem synced_request {s : Handshake} (hs : Synced T s) {d : Sample}
    (hm : AgentFirst s (.request d)) : Synced T (s.step T (.request d)) := by
  obtain ⟨condition, env, handler, agent, _, _, _, _, _, _⟩ := s
  cases handler with
  | idle =>
      refine ⟨hs.cls, hs.numUes, hs.count, hs.selected, hs.recorded, hs.responses, hs.action,
        hs.agent, fun h => (by cases h), fun _ _ h => (by cases h), ?_⟩
      obtain h | h | ⟨d', h⟩ | ⟨_, h⟩ := hs.turn
      · exact .inl h
      · exact .inr (.inl h)
      · cases h
      · exact .inl (hm h)
  | _ => exact hs

/-- `update_data`, with the lock just taken. -/
theorem synced_post {s : Handshake} (hs : Synced T s) (hp : s.posted = s.consumed) {d : Sample}
    (hd : s.handler = .entering d)
    (hturn : (∃ a, s.agent = .stepping a) ∨ s.agent = .ended) (c : Condition Party) :
    Synced T { s with condition := c, env := s.env.updateData d.state d.reward,
                      posted := s.posted ++ [d.data], handler := .posting d } := by
  have hlen : s.recorded.length = s.posted.length := by rw [hp, hs.count]
  obtain ⟨condition, env, handler, agent, _, posted, _, _, recorded, _⟩ := s
  have hsel := hs.selected
  have hresp := hs.responses
  simp only at hd hlen hsel hresp
  subst hd
  refine ⟨hs.cls, hs.numUes, hs.count, ?_, ?_, ?_, ?_, ?_, fun _ => by simp,
    fun _ _ h => (by cases h), ?_⟩
  · refine hsel.trans (Training.selectedLog_append ?_ d.data).symm
    split <;> omega
  · exact hs.recorded.trans (Training.recordedLog_append hlen.le d.data).symm
  · simp only [HandlerPc.busy, List.length_append, List.length_singleton, if_true,
      Nat.add_sub_cancel]
    exact hresp.trans (Training.responsesLog_append (by omega) d.data).symm
  · exact hs.action.trans (Training.stored_append hlen.le _ d.data).symm
  · have hag := hs.agent
    obtain ⟨a, rfl⟩ | rfl := hturn
    · obtain ⟨h1, h2, h3⟩ := hag
      refine ⟨?_, h2, ?_⟩
      · exact h1.trans (Training.observation_append hlen.le d.data).symm
      · exact h3.trans (Training.action_append hlen.le d.data).symm
    · exact hag
  · obtain h | h := hturn
    · exact .inl h
    · exact .inr (.inl h)

/-- The answer carries the action `Training.replied` says. -/
theorem synced_answer {s : Handshake} (hs : Synced T s) (hp : s.posted = s.consumed) {d : Sample}
    {action : Except ServerError (Option (List ℕ))} (hd : s.handler = .answering d action)
    (hturn : (∃ a, s.agent = .stepping a) ∨ s.agent = .ended) :
    answer s.env d action = T.settings s.posted (T.replied (s.posted.length - 1)) := by
  have hlen : s.recorded.length = s.posted.length := by rw [hp, hs.count]
  have hpos : s.posted.length - 1 + 1 = s.posted.length := by
    have := List.length_pos_of_ne_nil (hs.pending (by simp [hd, HandlerPc.busy]))
    omega
  have hact : s.env.action = some (T.action s.posted (T.replied (s.posted.length - 1))) := by
    rw [hs.action, hlen, ← hpos]
    have hag := hs.agent
    obtain ⟨a, ha⟩ | ha := hturn
    · rw [ha] at hag ⊢
      cases hdqn : T.cls.isDQN with
      | true =>
          have hT : s.posted.length - 1 + 1 < T.totalTimesteps := by
            have := hag.2.1
            omega
          rw [AgentPc.called, Training.stored_called hdqn]
          simp [Training.replied, hdqn, hT]
      | false =>
          rw [Training.stored_ppo hdqn, Training.stored_returned]
          simp [Training.replied, hdqn]
    · rw [ha] at hag ⊢
      have hT : ¬ s.posted.length - 1 + 1 < T.totalTimesteps := by
        have : s.recorded.length = T.totalTimesteps := hag
        omega
      simp only [AgentPc.called]
      rw [Training.stored_returned]
      simp [Training.replied, hT]
  rw [hs.answering d action hd, answer_getAction hact, hs.cls, hs.numUes]
  rfl

theorem synced_handler {s : Handshake} (hi : Inv s) (hs : Synced T s) : Synced T s.handlerStep := by
  have hphase := hi.phase
  have hcons := hi.consumed
  have hturn := hs.turn
  have hans := synced_answer hs
  have hpost := synced_post hs
  obtain ⟨condition, env, handler, agent, _, posted, consumed, _, _, _⟩ := s
  cases handler with
  | idle => exact hs
  | entering d =>
      have hp : posted = consumed := by simpa [inFlight] using hcons
      have ht : (∃ a, agent = .stepping a) ∨ agent = .ended := by simpa using hturn
      simp only [handlerStep]
      cases condition.acquire Party.handler with
      | none => exact hs
      | some c => exact hpost hp rfl ht c
  | posting d =>
      exact ⟨hs.cls, hs.numUes, hs.count, hs.selected, hs.recorded, hs.responses, hs.action,
        hs.agent, hs.pending, fun _ _ h => (by cases h), .inr (.inr (.inl ⟨d, rfl⟩))⟩
  | waiting d =>
      cases hphase with
      | quiet h | resetting h | choosing h | stopped h => exact h.elim
      | ready _ h => exact h.elim
      | heard _ _ => exact hs
      | returning _ _ => exact hs
      | chosen _ => exact hs
      | answered _ a =>
          exact ⟨hs.cls, hs.numUes, hs.count, hs.selected, hs.recorded, hs.responses, hs.action,
            hs.agent, hs.pending, fun _ _ h => (by cases h), .inl ⟨a, rfl⟩⟩
      | finished _ =>
          exact ⟨hs.cls, hs.numUes, hs.count, hs.selected, hs.recorded, hs.responses, hs.action,
            hs.agent, hs.pending, fun _ _ h => (by cases h), .inr (.inl rfl)⟩
  | reading d =>
      refine ⟨hs.cls, hs.numUes, hs.count, hs.selected, hs.recorded, hs.responses, hs.action,
        hs.agent, hs.pending, ?_, ?_⟩
      · intro d' action h
        cases h
        rfl
      · simpa [handlerStep] using hturn
  | answering d action =>
      have hp : posted = consumed := by simpa [inFlight] using hcons
      have ht : (∃ a, agent = .stepping a) ∨ agent = .ended := by simpa using hturn
      have hpos : posted.length - 1 + 1 = posted.length := by
        have hne : posted ≠ [] := hs.pending rfl
        have := List.length_pos_of_ne_nil hne
        omega
      refine ⟨hs.cls, hs.numUes, hs.count, hs.selected, hs.recorded, ?_, hs.action, hs.agent,
        fun h => (by cases h), fun _ _ h => (by cases h), ?_⟩
      · simp only [handlerStep, HandlerPc.busy, Bool.false_eq_true, if_false, Nat.sub_zero]
        rw [← hpos, Training.responsesLog_succ, hans hp rfl ht]
        exact congrArg (· ++ _) hs.responses
      · obtain h | h := ht
        · exact .inl h
        · exact .inr (.inl h)

/-- `env.step` returns: the data it read is the last that was posted. -/
theorem synced_return {s : Handshake} (hi : Inv s) (hs : Synced T s) {a : Action}
    (ha : s.agent = .returning a) : Synced T (s.agentStep T) := by
  have hphase := hi.phase
  have hfresh := hi.fresh
  have hcons := hi.consumed
  obtain ⟨condition, env, handler, agent, lastObs, posted, consumed, selected, recorded, _⟩ := s
  simp only at ha
  subst ha
  cases hphase with
  | returning d _ =>
      have hdata : (env.state, env.reward) = d.data := hfresh _ (by simp [inFlight])
      have hp : posted = consumed ++ [(env.state, env.reward)] := by
        rw [hdata]
        simpa [inFlight] using hcons
      have hlen : consumed.length = recorded.length := hs.count
      have hcls : env.cls = T.cls := hs.cls
      have hsel : selected = T.selectedLog posted (recorded.length + 1) := hs.selected
      have hrec : recorded = T.recordedLog posted recorded.length := hs.recorded
      have hact : env.action = T.stored posted recorded.length true := hs.action
      obtain ⟨h1, h2, h3⟩ := hs.agent
      simp only at h1 h2 h3
      have hobs : T.observation posted (recorded.length + 1) = env.state := by
        rw [hp, ← hlen]
        simp [Training.observation]
      have hrew : Training.rewardAt posted (recorded.length + 1) = env.reward := by
        rw [hp, ← hlen]
        simp [Training.rewardAt]
      have htr : T.transition posted recorded.length = ⟨lastObs, a, env.reward, env.state⟩ := by
        rw [Training.transition, hobs, hrew, ← h1, ← h3]
      have henv := Env.stepAfterWait_eq env a
      refine ⟨(congrArg Env.cls henv).trans hcls, (congrArg Env.numUes henv).trans hs.numUes,
        by simp [agentStep, hlen], ?_, ?_, hs.responses, ?_, ⟨?_, ?_⟩, hs.pending,
        fun _ _ h => (by cases h), .inr (.inr (.inl ⟨d, rfl⟩))⟩
      · simpa [agentStep, AgentPc.called] using hsel
      · simp only [agentStep, List.length_append, List.length_singleton]
        rw [Training.recordedLog_succ, htr, ← hrec]
      · simp only [agentStep, AgentPc.called, List.length_append, List.length_singleton]
        rw [henv, Training.stored_returned]
        cases hd : T.cls.isDQN with
        | true => simp [hcls, hd, hact, Training.stored_called hd]
        | false => simp [hcls, hd, h3]
      · simpa [agentStep] using hobs.symm
      · simpa [agentStep] using Nat.succ_le_of_lt h2

/-- The next prediction, and the call of `env.step`. -/
theorem synced_choose {s : Handshake} (hs : Synced T s) (ha : s.agent = .choosing)
    (hh : ∀ d action, s.handler ≠ .answering d action)
    (hT : s.recorded.length < T.totalTimesteps) : Synced T (s.agentStep T) := by
  obtain ⟨condition, env, handler, agent, lastObs, posted, _, selected, recorded, _⟩ := s
  simp only at ha hh hT
  subst ha
  have hcls : env.cls = T.cls := hs.cls
  have hsel : selected = T.selectedLog posted recorded.length := hs.selected
  have hact : env.action = T.stored posted recorded.length false := hs.action
  have h1 : lastObs = T.observation posted recorded.length := hs.agent.1
  have ha : T.policy recorded.length lastObs = T.action posted recorded.length := by
    rw [h1, Training.action]
  simp only [agentStep, if_pos hT, ha]
  have henv := Env.stepBeforeWait_eq env (T.action posted recorded.length)
  refine ⟨(congrArg Env.cls henv).trans hcls, (congrArg Env.numUes henv).trans hs.numUes, hs.count,
    ?_, hs.recorded, hs.responses, ?_, ⟨h1, hT, rfl⟩, hs.pending,
    fun d action h => absurd h (hh d action), .inl ⟨_, rfl⟩⟩
  · simp only [AgentPc.called, if_true]
    rw [Training.selectedLog_succ, hsel, h1]
  · simp only [AgentPc.called, henv]
    cases hd : T.cls.isDQN with
    | true => simp [hcls, hd, Training.stored_called hd]
    | false => simp [hcls, hd, hact, Training.stored_ppo hd _ true]

theorem Synced.not_answering {s : Handshake} (hs : Synced T s) (ha : ∀ a, s.agent ≠ .stepping a)
    (he : s.agent ≠ .ended) : ∀ d action, s.handler ≠ .answering d action := by
  intro d action h
  obtain ⟨a, hstep⟩ | hend | ⟨d', hd⟩ | ⟨hd, _⟩ := hs.turn
  · exact ha a hstep
  · exact he hend
  · cases hd.symm.trans h
  · cases hd.symm.trans h

theorem synced_agent {s : Handshake} (hi : Inv s) (hs : Synced T s) : Synced T (s.agentStep T) := by
  have hphase := hi.phase
  have hret := @synced_return T s hi hs
  have hchoose := synced_choose hs
  have hturn := hs.turn
  obtain ⟨condition, env, handler, agent, lastObs, posted, _, _, recorded, _⟩ := s
  cases agent with
  | starting =>
      simp only [agentStep]
      cases condition.acquire Party.agent with
      | none => exact hs
      | some c =>
          refine ⟨hs.cls, hs.numUes, hs.count, hs.selected, hs.recorded, hs.responses, hs.action,
            hs.agent, hs.pending, hs.answering, ?_⟩
          simpa using hturn
  | resetting =>
      have hrec : recorded = [] := hs.agent.1
      have hobs : env.state = T.observation posted 0 := hs.agent.2
      subst hrec
      have hact : env.action = none := hs.action.trans Training.stored_zero
      have henv := Env.reset_eq env
      refine ⟨(congrArg Env.cls henv).trans hs.cls, (congrArg Env.numUes henv).trans hs.numUes,
        hs.count, hs.selected, hs.recorded, hs.responses, ?_, ⟨hobs, Nat.zero_le _⟩, hs.pending,
        ?_, ?_⟩
      · simp [agentStep, henv, hact, AgentPc.called]
      · intro d action h
        exact absurd h (hs.not_answering (fun a ha => by cases ha) (fun ha => by cases ha) d action)
      · simpa [agentStep] using hturn
  | choosing =>
      by_cases hT : recorded.length < T.totalTimesteps
      · refine hchoose rfl ?_ hT
        exact hs.not_answering (fun a ha => by cases ha) (fun ha => by cases ha)
      · have hle : recorded.length ≤ T.totalTimesteps := hs.agent.2
        simp only [agentStep, if_neg hT]
        refine ⟨hs.cls, hs.numUes, hs.count, hs.selected, hs.recorded, hs.responses, hs.action,
          ?_, hs.pending, hs.answering, .inr (.inl rfl)⟩
        exact le_antisymm hle (not_lt.mp hT)
  | stepping a =>
      cases hphase with
      | ready _ _ => exact hs
      | posting _ _ => exact hs
      | heard d _ =>
          exact ⟨hs.cls, hs.numUes, hs.count, hs.selected, hs.recorded, hs.responses, hs.action,
            hs.agent, hs.pending, fun _ _ h => (by cases h), .inr (.inr (.inl ⟨d, rfl⟩))⟩
      | answered _ _ => exact hs
      | reading _ _ => exact hs
  | returning a => exact hret rfl
  | ended => exact hs

/-! ### Runs -/

/-- What the logs of a run are, whether or not the handshake still goes on. -/
structure Logs (T : Training) (s : Handshake) : Prop where
  selected : s.selected = T.selectedLog s.posted s.selected.length
  recorded : s.recorded = T.recordedLog s.posted s.recorded.length
  responses : s.responses = T.responsesLog s.posted s.responses.length
  budget : s.selected.length ≤ T.totalTimesteps
  answered : s.responses.length ≤ s.posted.length
  consumed : s.recorded.length ≤ s.posted.length
  /-- The action after the last one that was answered has been predicted, if there is one. -/
  ahead : s.responses.length = 0 ∨ s.responses.length < s.selected.length ∨
    s.selected.length = T.totalTimesteps

theorem length_inFlight_le (s : Handshake) :
    s.inFlight.length ≤ if s.handler.busy then 1 else 0 := by
  unfold inFlight
  cases s.handler with
  | waiting d => by_cases hw : Party.handler ∈ s.condition.waiting <;> simp [hw, HandlerPc.busy]
  | _ => simp [HandlerPc.busy]

theorem inFlight_eq_nil {s : Handshake} (hi : Inv s) {d : Sample} (hd : s.handler = .waiting d)
    (hc : s.agent.called = false) : s.inFlight = [] := by
  have hphase := hi.phase
  obtain ⟨condition, env, handler, agent, _, _, _, _, _, _⟩ := s
  simp only at hd
  subst hd
  cases hphase with
  | quiet h | resetting h | choosing h | stopped h => exact h.elim
  | ready _ h => exact h.elim
  | heard _ _ => cases hc
  | returning _ _ => cases hc
  | chosen _ => rfl
  | answered _ _ => cases hc
  | finished _ => rfl

theorem logs_of_synced {s : Handshake} (hi : Inv s) (hs : Synced T s) : Logs T s := by
  have hsel : s.selected.length = s.recorded.length + if s.agent.called then 1 else 0 := by
    rw [hs.selected]
    simp [Training.selectedLog]
  have hresp : s.responses.length = s.posted.length - if s.handler.busy then 1 else 0 := by
    rw [hs.responses]
    simp [Training.responsesLog]
  have hposted : s.posted.length = s.recorded.length + s.inFlight.length := by
    rw [hi.consumed, List.length_append, hs.count]
  have hflight := length_inFlight_le s
  have hle : s.responses.length ≤ s.recorded.length := by omega
  have hbudget : s.selected.length ≤ T.totalTimesteps := by
    rw [hsel]
    have hag := hs.agent
    cases hpc : s.agent with
    | starting | resetting =>
        rw [hpc] at hag
        simp [hag.1, AgentPc.called]
    | choosing =>
        rw [hpc] at hag
        exact hag.2
    | stepping a | returning a =>
        rw [hpc] at hag
        exact Nat.succ_le_of_lt hag.2.1
    | ended =>
        rw [hpc] at hag
        exact hag.le
  refine ⟨?_, hs.recorded, ?_, hbudget, by omega, by omega, ?_⟩
  · rw [hsel]
    exact hs.selected
  · rw [hresp]
    exact hs.responses
  · obtain ⟨a, ha⟩ | ha | ⟨d, hd⟩ | ⟨_, hp⟩ := hs.turn
    · rw [ha, AgentPc.called, if_pos rfl] at hsel
      exact .inr (.inl (by omega))
    · have hT : s.recorded.length = T.totalTimesteps := by
        have hag := hs.agent
        rw [ha] at hag
        exact hag
      rw [ha] at hsel
      exact .inr (.inr (by simpa [AgentPc.called, hT] using hsel))
    · have hbusy : s.handler.busy = true := by rw [hd]; rfl
      have hpos := List.length_pos_of_ne_nil (hs.pending hbusy)
      rw [hbusy, if_pos rfl] at hresp
      cases hc : s.agent.called with
      | true =>
          rw [hc, if_pos rfl] at hsel
          exact .inr (.inl (by omega))
      | false =>
          rw [inFlight_eq_nil hi hd hc, List.length_nil] at hposted
          exact .inr (.inl (by omega))
    · rw [hp] at hresp
      exact .inl (by simpa using hresp)

/-- The handshake is in step with its requests, or the timesteps are used up and the handler
waits for an agent that has ended. -/
def Followed (T : Training) (s : Handshake) : Prop :=
  (Inv s ∧ Synced T s) ∨ (Lost s ∧ s.agent = .ended ∧ Logs T s)

theorem Followed.logs {s : Handshake} (h : Followed T s) : Logs T s := by
  obtain ⟨hi, hs⟩ | ⟨_, _, hl⟩ := h
  · exact logs_of_synced hi hs
  · exact hl

theorem ended_of_not_heard {s : Handshake} (hs : Synced T s) {m : Move}
    (hm : ¬ Heard s m) : m = .handler ∧ s.agent = .ended ∧ ∃ d, s.handler = .posting d := by
  simp only [Heard, Classical.not_imp, not_forall] at hm
  obtain ⟨rfl, d, hd, ha⟩ := hm
  refine ⟨rfl, ?_, d, hd⟩
  obtain h | h | ⟨d', h⟩ | ⟨h, _⟩ := hs.turn
  · exact absurd h ha
  · exact h
  · cases hd.symm.trans h
  · cases hd.symm.trans h

/-- **Step lemma.** -/
theorem followed_step {s : Handshake} (hf : Followed T s) {m : Move} (hm : AgentFirst s m) :
    Followed T (s.step T m) := by
  obtain ⟨hi, hs⟩ | ⟨hlost, hend, hlogs⟩ := hf
  · by_cases hh : Heard s m
    · refine .inl ⟨inv_step hi hh, ?_⟩
      cases m with
      | request d => exact synced_request hs hm
      | handler => exact synced_handler hi hs
      | agent => exact synced_agent hi hs
    · obtain ⟨rfl, hend, d, hd⟩ := ended_of_not_heard hs hh
      have hlogs := logs_of_synced hi hs
      refine .inr ⟨lost_of_not_heard hi hh, ?_, ?_⟩
      · simp [step, handlerStep, hd, hend]
      · simp only [step, handlerStep, hd]
        exact ⟨hlogs.selected, hlogs.recorded, hlogs.responses, hlogs.budget, hlogs.answered,
          hlogs.consumed, hlogs.ahead⟩
  · have hstay : s.step T m = s := by
      obtain ⟨d, hd⟩ := hlost.waits
      have hnot : s.condition.resume .handler = none :=
        Condition.resume_of_not_notified (by simp [hlost.notified])
      cases m with
      | request d' => simp [step, hd]
      | handler => simp [step, handlerStep, hd, hnot]
      | agent => simp [step, agentStep, hend]
    rw [hstay]
    exact .inr ⟨hlost, hend, hlogs⟩

/-- The response to request `t` carries the action predicted from the state of request `t`, and
the transition recorded from this state carries the same action, and the reward and the state of
the next request. -/
def Corresponds (T : Training) (s : Handshake) (t : ℕ) : Prop :=
  ∃ d a, s.posted[t - 1]? = some d ∧ s.selected[t]? = some (d.1, a) ∧
    s.responses[t - 1]? = some (a.settings T.cls T.numUes) ∧
      ∀ tr, s.recorded[t]? = some tr → ∃ d', s.posted[t]? = some d' ∧ tr = ⟨d.1, a, d'.2, d'.1⟩

theorem corresponds_of_logs {s : Handshake} (hl : Logs T s) {t : ℕ} (ht : 1 ≤ t)
    (hr : t ≤ s.responses.length) :
    Corresponds T s t ↔ t < T.totalTimesteps ∧
      (T.cls.isDQN = true ∨ T.settings s.posted (t - 1) = T.settings s.posted t) := by
  obtain ⟨k, rfl⟩ : ∃ k, t = k + 1 := ⟨t - 1, by omega⟩
  rw [Nat.add_sub_cancel]
  have hk : k < s.posted.length := lt_of_lt_of_le hr hl.answered
  have hd : s.posted[k]? = some s.posted[k] := List.getElem?_eq_getElem hk
  have hobs : T.observation s.posted (k + 1) = s.posted[k].1 := by
    simp [Training.observation, List.getD_eq_getElem?_getD, hd]
  have hresp : s.responses[k]? = some (T.settings s.posted (T.replied k)) := by
    rw [hl.responses, Training.responsesLog, List.getElem?_map, List.getElem?_range hr]
    rfl
  have hsel : ∀ h : k + 1 < s.selected.length,
      s.selected[k + 1]? = some (s.posted[k].1, T.action s.posted (k + 1)) := by
    intro h
    rw [hl.selected, Training.selectedLog, List.getElem?_map, List.getElem?_range h, ← hobs]
    rfl
  constructor
  · rintro ⟨d, a, _, hsel', hresp', _⟩
    have hlt : k + 1 < s.selected.length := (List.getElem?_eq_some_iff.mp hsel').1
    have hT : k + 1 < T.totalTimesteps := lt_of_lt_of_le hlt hl.budget
    have ha : a = T.action s.posted (k + 1) := by
      rw [hsel hlt] at hsel'
      exact (Prod.mk.inj (Option.some.inj hsel')).2.symm
    have heq : T.settings s.posted (T.replied k) = T.settings s.posted (k + 1) := by
      rw [Nat.add_sub_cancel, hresp, ha] at hresp'
      exact Option.some.inj hresp'
    refine ⟨hT, ?_⟩
    cases hdqn : T.cls.isDQN with
    | true => exact .inl rfl
    | false =>
        rw [Training.replied, if_neg (by simp [hdqn])] at heq
        exact .inr heq
  · rintro ⟨hT, hcase⟩
    have hlt : k + 1 < s.selected.length := by
      obtain h | h | h := hl.ahead
      · omega
      · omega
      · omega
    have heq : T.settings s.posted (T.replied k) = T.settings s.posted (k + 1) := by
      unfold Training.replied
      split
      · rfl
      · next hn =>
          obtain h | h := hcase
          · exact absurd ⟨h, hT⟩ hn
          · exact h
    refine ⟨s.posted[k], T.action s.posted (k + 1), hd, hsel hlt, ?_, ?_⟩
    · rw [Nat.add_sub_cancel, hresp, heq]
      rfl
    · intro tr htr
      have hrec : k + 1 < s.recorded.length := (List.getElem?_eq_some_iff.mp htr).1
      have hnext : k + 1 < s.posted.length := lt_of_lt_of_le hrec hl.consumed
      have hd' : s.posted[k + 1]? = some s.posted[k + 1] := List.getElem?_eq_getElem hnext
      refine ⟨s.posted[k + 1], hd', ?_⟩
      rw [hl.recorded, Training.recordedLog, List.getElem?_map, List.getElem?_range hrec] at htr
      cases htr
      simp [Training.transition, Training.rewardAt, Training.observation,
        List.getD_eq_getElem?_getD, hd, hd']

theorem followed_exec {l : List Move} (hfirst : Runs.AllSteps (step T) AgentFirst (start T) l) :
    Followed T (Runs.exec (step T) (start T) l) :=
  Runs.exec_of_guard (Followed T) (fun _ _ hs hm => followed_step hs hm)
    (.inl ⟨inv_start, synced_start⟩) hfirst

end Handshake

/-- **Correspondence.** In a run in which the agent waits when the first request arrives,
response `t` carries the action predicted from the state of request `t` exactly if a further
timestep is left and the environment stores the action before it waits, or the actions `t - 1`
and `t` stand for the same settings. -/
theorem corresponds_iff (T : Training) (l : List Move)
    (hfirst : Runs.AllSteps (Handshake.step T) Handshake.AgentFirst (.start T) l) (t : ℕ)
    (ht : 1 ≤ t) (hr : t ≤ (Runs.exec (Handshake.step T) (.start T) l).responses.length) :
    Handshake.Corresponds T (Runs.exec (Handshake.step T) (.start T) l) t ↔
      t < T.totalTimesteps ∧ (T.cls.isDQN = true ∨
        T.settings (Runs.exec (Handshake.step T) (.start T) l).posted (t - 1) =
          T.settings (Runs.exec (Handshake.step T) (.start T) l).posted t) :=
  Handshake.corresponds_of_logs (Handshake.followed_exec hfirst).logs ht hr

/-- One request, answered by the agent. -/
def Move.oneRound (d : Sample) : List Move :=
  [.agent, .agent, .agent, .request d, .handler, .handler, .agent, .agent, .agent, .handler,
    .handler, .handler]

theorem agentFirst_oneRound {T : Training} (hT : 0 < T.totalTimesteps) (d : Sample) :
    Runs.AllSteps (Handshake.step T) Handshake.AgentFirst (.start T) (Move.oneRound d) := by
  simp [Move.oneRound, Runs.AllSteps, Handshake.step, Handshake.AgentFirst, Handshake.start,
    Handshake.agentStep, hT]

theorem exec_oneRound {T : Training} (hT : 1 < T.totalTimesteps) (d : Sample) :
    (Runs.exec (Handshake.step T) (.start T) (Move.oneRound d)).posted = [d.data] ∧
      (Runs.exec (Handshake.step T) (.start T) (Move.oneRound d)).responses.length = 1 := by
  simp [Move.oneRound, Handshake.step, Handshake.start, Handshake.agentStep,
    Handshake.handlerStep, hT, Nat.zero_lt_of_lt hT, Condition.resume_free, Condition.wait,
    Condition.notify, Condition.release]

/-- A DQN learner that tries the actions in turn. -/
def Training.dqnSample : Training := ⟨.customEnvDQN, 1, 2, fun k _ => .index (k % 8)⟩

theorem corresponds_dqnSample :
    Handshake.Corresponds .dqnSample (Runs.exec (Handshake.step .dqnSample) (.start .dqnSample)
      (Move.oneRound ⟨[1, 0, 0, 0], .fin 0, 1⟩)) 1 := by
  have hT : 1 < Training.dqnSample.totalTimesteps := by decide
  refine (corresponds_iff _ _ (agentFirst_oneRound (Nat.zero_lt_of_lt hT) _) 1 le_rfl ?_).mpr
    ⟨hT, .inl rfl⟩
  exact (exec_oneRound hT _).2.ge

/-- A PPO learner that tries the values of `v` in turn. -/
def Training.ppoSample : Training := ⟨.customEnvBasic, 1, 100000, fun k _ => .multi [k % 3, 0, 0]⟩

/-- The first response of this training carries the action predicted from the observation of
`reset`. -/
theorem not_corresponds_ppoSample :
    Runs.AllSteps (Handshake.step .ppoSample) Handshake.AgentFirst (.start .ppoSample)
        (Move.oneRound ⟨[1, 0, 0], .fin 0, 1⟩) ∧
      (Runs.exec (Handshake.step .ppoSample) (.start .ppoSample)
        (Move.oneRound ⟨[1, 0, 0], .fin 0, 1⟩)).responses.length = 1 ∧
      ¬ Handshake.Corresponds .ppoSample (Runs.exec (Handshake.step .ppoSample)
        (.start .ppoSample) (Move.oneRound ⟨[1, 0, 0], .fin 0, 1⟩)) 1 := by
  have hT : 1 < Training.ppoSample.totalTimesteps := by decide
  have hround := exec_oneRound hT ⟨[1, 0, 0], .fin 0, 1⟩
  have hfirst := agentFirst_oneRound (Nat.zero_lt_of_lt hT) ⟨[1, 0, 0], .fin 0, 1⟩
  refine ⟨hfirst, hround.2, ?_⟩
  rw [Handshake.corresponds_of_logs (Handshake.followed_exec hfirst).logs le_rfl hround.2.ge,
    hround.1]
  rintro ⟨_, h | h⟩
  · cases h
  · exact absurd h (by decide)

end Rbis
