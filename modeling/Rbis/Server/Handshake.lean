import Rbis.Lib.Monitor
import Rbis.Lib.Runs
import Rbis.Server.Env

/-! # The training handshake

With `PREDICT = False` two threads share one `Condition`.  The request handler posts the state
and the reward of a request (`ppo`), notifies, and waits for the action; the agent thread
(`agent_loop`) runs `model.learn`, which resets the environment once and then, until the
timesteps are used up, predicts an action from the last observation and calls `env.step`, which
waits for the next request.  Both hold the lock wherever they do not wait.

The state of the handshake is where the two threads stand, the condition, the environment, and
what was posted, read, predicted, recorded and answered so far.  A step is one move of the
scheduler: a request arrives, or one of the threads runs up to its next access to the
condition; a thread that cannot go on stays where it is.

`notify` and `wait` are not guarded by a predicate, so the handshake rests on the notification
of the handler finding the agent in `env.step` (`Heard`).  In a run in which it always does,
nothing is lost (`Phase`), and the first time it does not, the handler waits forever
(`handshakeOk_iff`). -/

namespace Rbis

open Cxx Monitor

/-- The two threads. -/
inductive Party where
  | handler
  | agent
deriving DecidableEq

/-- A request, as `ppo` and the code after it see it. -/
structure Sample where
  state : List ℤ
  reward : Dbl
  /-- `len(mcs_values)`. -/
  numMcs : ℕ
deriving DecidableEq

/-- What `update_data` is called with. -/
def Sample.data (d : Sample) : List ℤ × Dbl := (d.state, d.reward)

/-- Where the request handler stands. -/
inductive HandlerPc where
  | idle
  /-- At `with condition`. -/
  | entering (d : Sample)
  /-- Before `condition.notify()`. -/
  | posting (d : Sample)
  /-- In `condition.wait()`. -/
  | waiting (d : Sample)
  /-- Back from `condition.wait()`. -/
  | reading (d : Sample)
  /-- After `ppo`, which returned or raised `action`. -/
  | answering (d : Sample) (action : Except ServerError (Option (List ℕ)))

/-- The handler is outside of `ppo`, or waits for the lock at its beginning. -/
def HandlerPc.Outside : HandlerPc → Prop
  | .idle | .entering _ | .answering _ _ => True
  | .posting _ | .waiting _ | .reading _ => False

/-- Where the agent thread stands. -/
inductive AgentPc where
  /-- At `with condition`. -/
  | starting
  /-- In `model.learn`, before `env.reset()`. -/
  | resetting
  /-- Before the next prediction, or the end of `model.learn`. -/
  | choosing
  /-- In the `condition.wait()` of `env.step(action)`. -/
  | stepping (action : Action)
  /-- In `env.step(action)`, back from `condition.wait()`. -/
  | returning (action : Action)
  | ended

/-- A transition as the learner records it. -/
structure Transition where
  obs : List ℤ
  action : Action
  reward : Dbl
  nextObs : List ℤ
deriving DecidableEq

/-- A training: the environment, the number of timesteps and the learner.  `policy k obs` is the
`k`-th action the learner predicts, from the observation `obs`. -/
structure Training where
  cls : EnvClass
  numUes : ℕ
  totalTimesteps : ℕ
  policy : ℕ → List ℤ → Action

structure Handshake where
  condition : Condition Party := {}
  env : Env
  handler : HandlerPc := .idle
  agent : AgentPc := .starting
  /-- The observation the next action is predicted from. -/
  lastObs : List ℤ := []
  /-- The data of the calls of `update_data`. -/
  posted : List (List ℤ × Dbl) := []
  /-- The data the calls of `env.step` have read. -/
  consumed : List (List ℤ × Dbl) := []
  /-- The predicted actions, with the observations they were predicted from. -/
  selected : List (List ℤ × Action) := []
  recorded : List Transition := []
  responses : List (Except ServerError Settings) := []

/-- A move of the scheduler. -/
inductive Move where
  | request (d : Sample)
  | handler
  | agent
deriving DecidableEq

/-- The response to a request, from what `ppo` returned.  For a DQN model the handler asks the
environment once more. -/
def answer (env : Env) (d : Sample) (action : Except ServerError (Option (List ℕ))) :
    Except ServerError Settings := do
  let xs ← action
  if env.cls.isDQN then
    match ← env.getAction with
    | none => return .zero d.numMcs
    | some actionFull => Settings.ofArray env.numUes actionFull
  else
    match xs with
    | none => throw .typeError
    | some xs => Settings.ofArray env.numUes xs

namespace Handshake

/-- The handshake after `configure` has started the agent thread. -/
def start (T : Training) : Handshake := { env := .new T.cls T.numUes }

/-- The request handler: `ppo` and what follows it. -/
def handlerStep (s : Handshake) : Handshake :=
  match s.handler with
  | .idle => s
  | .entering d =>
      match s.condition.acquire .handler with
      | none => s
      | some c =>
          { s with condition := c, env := s.env.updateData d.state d.reward,
                   posted := s.posted ++ [d.data], handler := .posting d }
  | .posting d =>
      { s with condition := s.condition.notify.wait .handler, handler := .waiting d }
  | .waiting d =>
      match s.condition.resume .handler with
      | none => s
      | some c => { s with condition := c, handler := .reading d }
  | .reading d =>
      { s with condition := s.condition.release, handler := .answering d s.env.getAction }
  | .answering d action =>
      { s with responses := s.responses ++ [answer s.env d action], handler := .idle }

/-- The agent thread: `agent_loop`, with the loop of `model.learn`. -/
def agentStep (T : Training) (s : Handshake) : Handshake :=
  match s.agent with
  | .starting =>
      match s.condition.acquire .agent with
      | none => s
      | some c => { s with condition := c, agent := .resetting }
  | .resetting => { s with env := s.env.reset, lastObs := s.env.state, agent := .choosing }
  | .choosing =>
      if s.recorded.length < T.totalTimesteps then
        let a := T.policy s.recorded.length s.lastObs
        { s with env := s.env.stepBeforeWait a, condition := s.condition.wait .agent,
                 selected := s.selected ++ [(s.lastObs, a)], agent := .stepping a }
      else
        { s with condition := s.condition.release, agent := .ended }
  | .stepping a =>
      match s.condition.resume .agent with
      | none => s
      | some c => { s with condition := c, agent := .returning a }
  | .returning a =>
      { s with env := s.env.stepAfterWait a, condition := s.condition.notify,
               consumed := s.consumed ++ [(s.env.state, s.env.reward)],
               recorded := s.recorded ++ [⟨s.lastObs, a, s.env.reward, s.env.state⟩],
               lastObs := s.env.state, agent := .choosing }
  | .ended => s

/-- One move.  The event loop of the server takes the next request when the handler of the last
one has ended. -/
def step (T : Training) (s : Handshake) : Move → Handshake
  | .request d =>
      match s.handler with
      | .idle => { s with handler := .entering d }
      | _ => s
  | .handler => s.handlerStep
  | .agent => s.agentStep T

variable {T : Training}

/-! ### What can go wrong -/

/-- The handler is blocked in `condition.wait()`, and no continuation of the run notifies it. -/
def Deadlocked (T : Training) (s : Handshake) : Prop :=
  (∃ d, s.handler = .waiting d) ∧
    ∀ l, Party.handler ∈ (Runs.exec (step T) s l).condition.waiting

/-- The data that was posted and that no `env.step` has handed to the learner yet. -/
def inFlight (s : Handshake) : List (List ℤ × Dbl) :=
  match s.handler with
  | .posting d => [d.data]
  | .waiting d => if Party.handler ∈ s.condition.waiting then [d.data] else []
  | _ => []

/-- The handler is not left alone, and every posted datum was read by exactly one `env.step`, in
the order of the requests, save the one in flight. -/
def Ok (T : Training) (s : Handshake) : Prop :=
  ¬ Deadlocked T s ∧ s.posted = s.consumed ++ s.inFlight

/-- When the handler is about to notify, the agent waits in `env.step`. -/
def Heard (s : Handshake) (m : Move) : Prop :=
  m = .handler → ∀ d, s.handler = .posting d → ∃ a, s.agent = .stepping a

/-! ### The phases of a handshake in which every notification is heard -/

/-- Where the handler, the agent and the condition stand. -/
inductive Phase : HandlerPc → AgentPc → Condition Party → Prop where
  | quiet {h} : h.Outside → Phase h .starting ⟨none, [], []⟩
  | early (d) : Phase (.posting d) .starting ⟨some .handler, [], []⟩
  | resetting {h} : h.Outside → Phase h .resetting ⟨some .agent, [], []⟩
  | choosing {h} : h.Outside → Phase h .choosing ⟨some .agent, [], []⟩
  | ready {h} (a) : h.Outside → Phase h (.stepping a) ⟨none, [.agent], []⟩
  | posting (d a) : Phase (.posting d) (.stepping a) ⟨some .handler, [.agent], []⟩
  | heard (d a) : Phase (.waiting d) (.stepping a) ⟨none, [.handler], [.agent]⟩
  | returning (d a) : Phase (.waiting d) (.returning a) ⟨some .agent, [.handler], []⟩
  | chosen (d) : Phase (.waiting d) .choosing ⟨some .agent, [], [.handler]⟩
  | answered (d a) : Phase (.waiting d) (.stepping a) ⟨none, [.agent], [.handler]⟩
  | finished (d) : Phase (.waiting d) .ended ⟨none, [], [.handler]⟩
  | reading (d a) : Phase (.reading d) (.stepping a) ⟨some .handler, [.agent], []⟩
  | readingLast (d) : Phase (.reading d) .ended ⟨some .handler, [], []⟩
  | stopped {h} : h.Outside → Phase h .ended ⟨none, [], []⟩
  | late (d) : Phase (.posting d) .ended ⟨some .handler, [], []⟩

theorem Phase.of_outside {h h' : HandlerPc} {a : AgentPc} {c : Condition Party} (hp : Phase h a c)
    (hout : h.Outside) (hout' : h'.Outside) : Phase h' a c := by
  cases hp with
  | quiet _ => exact .quiet hout'
  | resetting _ => exact .resetting hout'
  | choosing _ => exact .choosing hout'
  | ready a _ => exact .ready a hout'
  | stopped _ => exact .stopped hout'
  | early | posting | heard | returning | chosen => exact hout.elim
  | answered | finished | reading | readingLast | late => exact hout.elim

theorem phase_request {s : Handshake} (hs : Phase s.handler s.agent s.condition) (d : Sample) :
    Phase (s.step T (.request d)).handler (s.step T (.request d)).agent
      (s.step T (.request d)).condition := by
  obtain ⟨condition, env, handler, agent, _, _, _, _, _, _⟩ := s
  cases handler with
  | idle => exact hs.of_outside trivial trivial
  | entering d' => exact hs
  | posting d' => exact hs
  | waiting d' => exact hs
  | reading d' => exact hs
  | answering d' action => exact hs

/-- A heard notification hands the turn to the agent. -/
theorem phase_handler {s : Handshake} (hs : Phase s.handler s.agent s.condition)
    (hm : Heard s .handler) :
    Phase s.handlerStep.handler s.handlerStep.agent s.handlerStep.condition := by
  obtain ⟨condition, env, handler, agent, _, _, _, _, _, _⟩ := s
  cases handler with
  | idle => exact hs
  | entering d =>
      cases hs with
      | quiet _ => exact .early d
      | resetting h => exact .resetting h
      | choosing h => exact .choosing h
      | ready a _ => exact .posting d a
      | stopped _ => exact .late d
  | posting d =>
      obtain ⟨a, ha⟩ := hm rfl d rfl
      cases hs with
      | quiet h | resetting h | choosing h | stopped h => exact h.elim
      | ready _ h => exact h.elim
      | early _ => cases ha
      | posting _ a => exact .heard d a
      | late _ => cases ha
  | waiting d =>
      cases hs with
      | quiet h | resetting h | choosing h | stopped h => exact h.elim
      | ready _ h => exact h.elim
      | heard _ a => exact .heard d a
      | returning _ a => exact .returning d a
      | chosen _ => exact .chosen d
      | answered _ a => exact .reading d a
      | finished _ => exact .readingLast d
  | reading d =>
      cases hs with
      | quiet h | resetting h | choosing h | stopped h => exact h.elim
      | ready _ h => exact h.elim
      | reading _ a => exact .ready a trivial
      | readingLast _ => exact .stopped trivial
  | answering d action => exact hs.of_outside trivial trivial

theorem phase_agent {s : Handshake} (hs : Phase s.handler s.agent s.condition) :
    Phase (s.agentStep T).handler (s.agentStep T).agent (s.agentStep T).condition := by
  obtain ⟨condition, env, handler, agent, _, _, _, _, recorded, _⟩ := s
  cases agent with
  | starting =>
      cases hs with
      | quiet h => exact .resetting h
      | early d => exact .early d
  | resetting =>
      cases hs with
      | resetting h => exact .choosing h
  | choosing =>
      by_cases hT : recorded.length < T.totalTimesteps
      · simp only [agentStep, if_pos hT]
        cases hs with
        | choosing h => exact .ready _ h
        | chosen d => exact .answered d _
      · simp only [agentStep, if_neg hT]
        cases hs with
        | choosing h => exact .stopped h
        | chosen d => exact .finished d
  | stepping a =>
      cases hs with
      | ready _ h => exact .ready a h
      | posting d _ => exact .posting d a
      | heard d _ => exact .returning d a
      | answered d _ => exact .answered d a
      | reading d _ => exact .reading d a
  | returning a =>
      cases hs with
      | returning d _ => exact .chosen d
  | ended => exact hs

/-- The threads are in one of the phases, the environment holds the data in flight, and the
rest of what was posted has been consumed. -/
structure Inv (s : Handshake) : Prop where
  phase : Phase s.handler s.agent s.condition
  fresh : ∀ x ∈ s.inFlight, (s.env.state, s.env.reward) = x
  consumed : s.posted = s.consumed ++ s.inFlight

theorem inv_start : Inv (start T) := ⟨.quiet trivial, by simp [inFlight, start], rfl⟩

theorem inv_request {s : Handshake} (hs : Inv s) (d : Sample) : Inv (s.step T (.request d)) := by
  refine ⟨phase_request hs.phase d, ?_, ?_⟩
  · have h := hs.fresh
    cases hh : s.handler with
    | posting d' => simpa [step, hh, inFlight] using h
    | waiting d' => simpa [step, hh, inFlight] using h
    | _ => simp [step, hh, inFlight]
  · have h := hs.consumed
    cases hh : s.handler with
    | _ => simpa [step, hh, inFlight] using h

theorem inv_handler {s : Handshake} (hs : Inv s) (hm : Heard s .handler) : Inv s.handlerStep := by
  have hphase := phase_handler hs.phase hm
  obtain ⟨hp, hf, hc⟩ := hs
  obtain ⟨condition, env, handler, agent, _, posted, consumed, _, _, _⟩ := s
  cases handler with
  | idle => exact ⟨hphase, hf, hc⟩
  | entering d =>
      have hc : posted = consumed := by simpa [inFlight] using hc
      subst hc
      refine ⟨hphase, ?_, ?_⟩
      · cases hp with
        | _ => simp [handlerStep, inFlight, Sample.data, Env.updateData]
      · cases hp with
        | _ => simp [handlerStep, inFlight]
  | posting d =>
      obtain ⟨a, rfl⟩ := hm rfl d rfl
      cases hp with
      | ready _ h => exact h.elim
      | posting _ _ => exact ⟨hphase, hf, hc⟩
  | waiting d =>
      cases hp with
      | quiet h | resetting h | choosing h | stopped h => exact h.elim
      | ready _ h => exact h.elim
      | heard _ _ => exact ⟨hphase, hf, hc⟩
      | returning _ _ => exact ⟨hphase, hf, hc⟩
      | chosen _ => exact ⟨hphase, hf, hc⟩
      | answered _ _ => exact ⟨hphase, hf, hc⟩
      | finished _ => exact ⟨hphase, hf, hc⟩
  | reading d => exact ⟨hphase, hf, hc⟩
  | answering d action => exact ⟨hphase, hf, hc⟩

theorem inv_agent {s : Handshake} (hs : Inv s) : Inv (s.agentStep T) := by
  have hphase := phase_agent (T := T) hs.phase
  obtain ⟨hp, hf, hc⟩ := hs
  obtain ⟨condition, env, handler, agent, _, posted, consumed, _, recorded, _⟩ := s
  cases agent with
  | starting =>
      cases hp with
      | quiet _ => exact ⟨hphase, hf, hc⟩
      | early _ => exact ⟨hphase, hf, hc⟩
  | resetting =>
      refine ⟨hphase, ?_, hc⟩
      simpa [agentStep, Env.reset_eq, inFlight] using hf
  | choosing =>
      by_cases hT : recorded.length < T.totalTimesteps
      · simp only [agentStep, if_pos hT] at hphase ⊢
        refine ⟨hphase, ?_, ?_⟩
        · simpa [Env.stepBeforeWait_eq, inFlight, Condition.wait] using hf
        · simpa [inFlight, Condition.wait] using hc
      · simp only [agentStep, if_neg hT] at hphase ⊢
        exact ⟨hphase, hf, hc⟩
  | stepping a =>
      cases hp with
      | ready _ _ => exact ⟨hphase, hf, hc⟩
      | posting _ _ => exact ⟨hphase, hf, hc⟩
      | heard _ _ => exact ⟨hphase, hf, hc⟩
      | answered _ _ => exact ⟨hphase, hf, hc⟩
      | reading _ _ => exact ⟨hphase, hf, hc⟩
  | returning a =>
      cases hp with
      | returning d _ =>
          have hdata : (env.state, env.reward) = d.data := hf _ (by simp [inFlight])
          refine ⟨hphase, by simp [agentStep, Condition.notify, inFlight], ?_⟩
          have hc : posted = consumed ++ [d.data] := by simpa [inFlight] using hc
          simp [agentStep, Condition.notify, inFlight, hdata, hc]
  | ended => exact ⟨hphase, hf, hc⟩

/-- **Step lemma.** -/
theorem inv_step {s : Handshake} (hs : Inv s) {m : Move} (hm : Heard s m) : Inv (s.step T m) := by
  cases m with
  | request d => exact inv_request hs d
  | handler => exact inv_handler hs hm
  | agent => exact inv_agent hs

/-! ### Heard notifications keep the handshake going -/

theorem not_deadlocked_of {s : Handshake} (l : List Move)
    (h : Party.handler ∉ (Runs.exec (step T) s l).condition.waiting) : ¬ Deadlocked T s :=
  fun hd => h (hd.2 l)

/-- While the handler waits, the agent goes on to notify it, or has done so. -/
theorem Inv.not_deadlocked {s : Handshake} (hs : Inv s) : ¬ Deadlocked T s := by
  have hp := hs.phase
  obtain ⟨condition, env, handler, agent, _, _, _, _, _, _⟩ := s
  cases handler with
  | waiting d =>
      cases hp with
      | quiet h | resetting h | choosing h | stopped h => exact h.elim
      | ready _ h => exact h.elim
      | heard _ a =>
          refine not_deadlocked_of [.agent, .agent] ?_
          simp [step, agentStep, Condition.resume_free, Condition.notify]
      | returning _ a =>
          refine not_deadlocked_of [.agent] ?_
          simp [step, agentStep, Condition.notify]
      | chosen _ => exact not_deadlocked_of [] (by simp)
      | answered _ a => exact not_deadlocked_of [] (by simp)
      | finished _ => exact not_deadlocked_of [] (by simp)
  | _ =>
      rintro ⟨⟨d, hd⟩, _⟩
      cases hd

theorem Inv.ok {s : Handshake} (hs : Inv s) : Ok T s := ⟨hs.not_deadlocked, hs.consumed⟩

/-! ### A notification that is not heard is lost -/

/-- The handler waits, and nothing that happens reaches it: the agent is not about to notify,
and no thread that could become so has been notified. -/
structure Lost (s : Handshake) : Prop where
  waits : ∃ d, s.handler = .waiting d
  waiting : Party.handler ∈ s.condition.waiting
  notified : s.condition.notified = []
  agent : ∀ a, s.agent ≠ .returning a

theorem lost_step {s : Handshake} (hs : Lost s) (m : Move) : Lost (s.step T m) := by
  have hnot : ∀ t, s.condition.resume t = none :=
    fun t => Condition.resume_of_not_notified (by simp [hs.notified])
  obtain ⟨⟨d, hd⟩, hw, hn, ha⟩ := hs
  cases m with
  | request d' =>
      have h : s.step T (.request d') = s := by simp [step, hd]
      rw [h]
      exact ⟨⟨d, hd⟩, hw, hn, ha⟩
  | handler =>
      have h : s.step T .handler = s := by simp [step, handlerStep, hd, hnot]
      rw [h]
      exact ⟨⟨d, hd⟩, hw, hn, ha⟩
  | agent =>
      cases hag : s.agent with
      | starting =>
          cases hacq : s.condition.acquire .agent with
          | none =>
              have h : s.step T .agent = s := by simp [step, agentStep, hag, hacq]
              rw [h]
              exact ⟨⟨d, hd⟩, hw, hn, ha⟩
          | some c =>
              obtain ⟨hcw, hcn⟩ := Condition.acquire_waiting hacq
              simp only [step, agentStep, hag, hacq]
              exact ⟨⟨d, hd⟩, hcw ▸ hw, hcn.trans hn, by simp⟩
      | resetting =>
          simp only [step, agentStep, hag]
          exact ⟨⟨d, hd⟩, hw, hn, by simp⟩
      | choosing =>
          simp only [step, agentStep, hag]
          split
          · exact ⟨⟨d, hd⟩, Condition.mem_waiting_wait hw, hn, by simp⟩
          · exact ⟨⟨d, hd⟩, hw, hn, by simp⟩
      | stepping a =>
          have h : s.step T .agent = s := by simp [step, agentStep, hag, hnot]
          rw [h]
          exact ⟨⟨d, hd⟩, hw, hn, ha⟩
      | returning a => exact absurd hag (ha a)
      | ended =>
          have h : s.step T .agent = s := by simp [step, agentStep, hag]
          rw [h]
          exact ⟨⟨d, hd⟩, hw, hn, ha⟩

theorem Lost.deadlocked {s : Handshake} (hs : Lost s) : Deadlocked T s := by
  refine ⟨hs.waits, fun l => ?_⟩
  have hall : Runs.AllSteps (step T) (fun _ _ => True) s l :=
    Runs.allSteps_of_forall (fun _ _ => trivial) s l
  have h : Lost (Runs.exec (step T) s l) :=
    Runs.exec_of_guard Lost (fun s m hs _ => lost_step hs m) hs hall
  exact h.waiting

theorem lost_of_not_heard {s : Handshake} (hs : Inv s) {m : Move} (hm : ¬ Heard s m) :
    Lost (s.step T m) := by
  have hp := hs.phase
  obtain ⟨condition, env, handler, agent, _, _, _, _, _, _⟩ := s
  simp only [Heard, Classical.not_imp, not_forall] at hm
  obtain ⟨rfl, d, rfl, ha⟩ := hm
  cases hp with
  | quiet h | resetting h | choosing h | stopped h => exact h.elim
  | ready _ h => exact h.elim
  | posting _ a => exact absurd ⟨a, rfl⟩ ha
  | early _ => exact ⟨⟨d, rfl⟩, List.mem_singleton_self _, rfl, by simp [step, handlerStep]⟩
  | late _ => exact ⟨⟨d, rfl⟩, List.mem_singleton_self _, rfl, by simp [step, handlerStep]⟩

end Handshake

/-- **The handshake** leaves no posted request behind and never leaves the handler alone, in a
run of any length, exactly if the handler always notifies an agent that waits in `env.step`. -/
theorem handshakeOk_iff (T : Training) (l : List Move) :
    Runs.Throughout (Handshake.step T) (Handshake.Ok T) (.start T) l ↔
      Runs.AllSteps (Handshake.step T) Handshake.Heard (.start T) l := by
  have hlegal : Runs.AllSteps (Handshake.step T) (fun _ _ => True) (.start T) l :=
    Runs.allSteps_of_forall (fun _ _ => trivial) _ l
  rw [Runs.throughout_iff, and_iff_right Handshake.inv_start.ok]
  refine Runs.allSteps_iff Handshake.Inv ?_ ?_ Handshake.inv_start hlegal
  · intro s m hs _
    constructor
    · intro hok
      by_contra hm
      exact hok.1 (Handshake.lost_of_not_heard hs hm).deadlocked
    · intro hm
      exact (Handshake.inv_step hs hm).ok
  · intro s m hs _ hm
    exact Handshake.inv_step hs hm

/-- The first request is faster than the agent thread: its notification is lost. -/
theorem not_handshakeOk_early :
    let T : Training := ⟨.customEnvBasic, 1, 100000, fun _ _ => .multi [0, 0, 0]⟩
    ¬ Runs.Throughout (Handshake.step T) (Handshake.Ok T) (.start T)
      [.request ⟨[0, 0, 0], .fin 0, 1⟩, .handler, .handler] := by
  intro T h
  have hlost : Handshake.Lost (Runs.exec (Handshake.step T) (.start T)
      [.request ⟨[0, 0, 0], .fin 0, 1⟩, .handler, .handler]) :=
    ⟨⟨_, rfl⟩, List.mem_singleton_self _, rfl, fun _ h => by cases h⟩
  exact (h _ List.prefix_rfl).1 hlost.deadlocked

end Rbis
