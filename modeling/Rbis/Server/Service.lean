import Mathlib.Logic.Relation
import Rbis.Lib.Runs
import Rbis.Server.Configure
import Rbis.Server.Infer

/-! # The server in operation

The event loop handles one request at a time.  A request that consults a learner in training
blocks it in `ppo` until a thread that waits on the current condition has taken a step of its
environment and the handler has got the lock back.  The threads move in between: a started one
reads the globals, one that was notified finishes its `env.step`.  Whether the learner raises
then is an input (`raises`), and so is, when several threads wait on one condition, which of
them is woken. -/

namespace Rbis

open Cxx

/-- Where the event loop stands. -/
inductive EventLoop where
  | free
  /-- In the `condition.wait()` of `ppo`; the notification reached one of these threads. -/
  | waiting (heard : List ℕ)
  /-- In the `condition.wait()` of `ppo`, notified by a thread. -/
  | notified
deriving DecidableEq

structure Service where
  server : Server
  loop : EventLoop := .free
  /-- A request for PPO or DQN has been answered with success. -/
  configured : Bool := false

inductive ServiceOp where
  | configure (lib : Libraries) (req : ConfigureRequest)
  | infer (req : InferRequest)
  | stopTraining
  /-- The thread with this index goes on; `raises`: its learner raises an exception. -/
  | thread (i : ℕ) (raises : Bool)
  /-- The handler in `ppo` gets the lock back and answers. -/
  | answer

namespace Server

/-- The threads that wait on the current condition. -/
def waitingThreads (s : Server) : List ℕ :=
  (List.range s.threads.length).filter fun i =>
    match s.threads[i]? with
    | some (.learning _ _ env _) => s.condition == some env.condition
    | _ => false

/-- `model.learn` goes on to the next `env.step`, which waits on the condition of the
environment: it must be the one whose lock the thread holds. -/
def enterStep (condition model : ℕ) (env : Option EnvObject) (left : ℕ) : AgentThread :=
  match env with
  | none => .ended
  | some env =>
      if left = 0 ∨ env.condition ≠ condition then .ended
      else .learning condition model env left

/-- `agent_loop` reads the globals and `model.learn` begins. -/
def beginLearn (o : Options) (s : Server) : AgentThread :=
  match s.condition, s.model with
  | some c, some m => enterStep c m.id m.env o.totalTimesteps
  | _, _ => .ended

/-- `model.env` of the model a thread runs. -/
def envOf (s : Server) (model : ℕ) (env : EnvObject) : Option EnvObject :=
  match s.model with
  | some m => if m.id = model then m.env else some env
  | none => some env

def setThread (s : Server) (i : ℕ) (t : AgentThread) : Server :=
  { s with threads := s.threads.set i t }

end Server

namespace Service

/-- The start of the server, with the learning curves it finds. -/
def start (curves : String → List CurveLine) : Service := { server := { curves } }

/-- A request of a learner was answered with success. -/
def succeeds (req : ConfigureRequest) (reply : Reply) : Bool :=
  (Algorithm.ofName req.model).isSome && reply == .success

def onConfigure (o : Options) (lib : Libraries) (req : ConfigureRequest) (s : Service) : Service :=
  let (server, reply) := s.server.configure o lib req
  { s with server, configured := s.configured || succeeds req reply }

def onInfer (o : Options) (req : InferRequest) (s : Service) : Service :=
  match s.server.infer o req with
  | (server, .ok (.ppo _ _)) =>
      { s with server, loop := if o.predict then .free else .waiting server.waitingThreads }
  | (server, _) => { s with server }

/-- A move of a thread. -/
def onThread (o : Options) (i : ℕ) (raises : Bool) (s : Service) : Service :=
  match s.server.threads[i]? with
  | some .starting =>
      { s with server := s.server.setThread i (if raises then .ended else s.server.beginLearn o) }
  | some (.learning c m env left) =>
      match s.loop with
      | .waiting heard =>
          if i ∈ heard then
            let t := if raises then .ended else Server.enterStep c m (s.server.envOf m env) (left - 1)
            { s with server := s.server.setThread i t, loop := .notified }
          else s
      | _ => s
  | _ => s

def step (o : Options) (s : Service) : ServiceOp → Service
  | .configure lib req => if s.loop = .free then s.onConfigure o lib req else s
  | .infer req => if s.loop = .free then s.onInfer o req else s
  | .stopTraining => if s.loop = .free then { s with server := s.server.stopTraining } else s
  | .thread i raises => s.onThread o i raises
  | .answer => if s.loop = .notified then { s with loop := .free } else s

end Service

/-! ### Requests that leave the objects alone -/

namespace Server

/-- A request for an inference changes the counters, the transition and the learning curves. -/
theorem infer_frame (o : Options) (req : InferRequest) (s : Server) : ∃ steps csv mode left curves,
    (s.infer o req).1 = { s with
      stepsCounter := steps, csvIndex := csv, transitionMode := mode,
      transitionStepsRemaining := left, curves := curves } := by
  unfold infer
  split
  · exact ⟨_, _, _, _, _, rfl⟩
  · split
    · exact ⟨_, _, _, _, _, rfl⟩
    · simp only
      split
      · unfold inferTransition
        simp only
        split
        · exact ⟨_, _, _, _, _, rfl⟩
        · exact ⟨_, _, _, _, _, rfl⟩
      · unfold inferTrain
        split
        · exact ⟨_, _, _, _, _, rfl⟩
        · exact ⟨_, _, _, _, _, rfl⟩

theorem objects_infer (o : Options) (req : InferRequest) (s : Server) :
    (s.infer o req).1.objects = s.objects := by
  obtain ⟨_, _, _, _, _, h⟩ := infer_frame o req s
  rw [h]
  rfl

end Server

namespace Service

theorem server_onInfer (o : Options) (req : InferRequest) (s : Service) :
    (s.onInfer o req).server = (s.server.infer o req).1 := by
  unfold onInfer
  split
  · next heq => rw [heq]
  · next heq => rw [heq]

theorem objects_onInfer (o : Options) (req : InferRequest) (s : Service) :
    (s.onInfer o req).server.objects = s.server.objects := by
  rw [server_onInfer, Server.objects_infer]

theorem configured_onInfer (o : Options) (req : InferRequest) (s : Service) :
    (s.onInfer o req).configured = s.configured := by
  unfold onInfer
  split <;> rfl

end Service

/-! ### What the operations do to the objects -/

/-- One of the ways in which the objects change. -/
inductive Objects.Change (o : Options) : Objects → Objects → Prop where
  | condition (b : Objects) : Change o b b.withCondition
  | env (b : Objects) (cls : EnvClass) (numUes : ℕ) :
      Change o b (b.withCondition.withEnv cls numUes b.nextId)
  | learn (b : Objects) (alg : Algorithm) : Change o b (b.learn o alg)
  | thread (b : Objects) (i : ℕ) (t : AgentThread) :
      Change o b { b with threads := b.threads.set i t }
  | stop (b : Objects) : Change o b { b with agentThread := none }

/-- Some changes, one after the other. -/
def Objects.Changes (o : Options) : Objects → Objects → Prop :=
  Relation.ReflTransGen (Objects.Change o)

theorem Objects.Changes.invariant {o : Options} {P : Objects → Prop}
    (hP : ∀ b b', Objects.Change o b b' → P b → P b') {b b' : Objects}
    (h : Objects.Changes o b b') (hb : P b) : P b' := by
  induction h with
  | refl => exact hb
  | tail _ hlast ih => exact hP _ _ hlast ih

namespace Server

variable {o : Options} {lib : Libraries} {s s' : Server} {req : ConfigureRequest}

theorem changes_chosen {alg : Algorithm} {b : Objects} (hb : s.EnvChosen lib req alg b) :
    Objects.Changes o s.objects b := by
  cases hb with
  | reused _ => exact .refl
  | created cls _ _ _ _ => exact .single (.env s.objects cls _)
  | kept _ _ _ => exact .single (.condition _)

theorem changes_configured {r : Reply} (h : s.Configured o lib req s' r) :
    Objects.Changes o s.objects s'.objects := by
  cases h with
  | continued _ _ hobj _ => rw [hobj]; exact .refl
  | invalidModel _ _ hs' => rw [hs']; exact .refl
  | invalidEnv _ _ _ hs' => rw [hs']; exact .single (.condition s.objects)
  | envRaised alg cls e _ _ _ _ hobj => rw [hobj]; exact .single (.condition _)
  | noLearner _ _ hobj _ => rw [hobj]; exact .refl
  | modelRaised alg b e _ hb _ hobj => rw [hobj]; exact changes_chosen hb
  | learned alg b _ hb _ hobj _ => rw [hobj]; exact (changes_chosen hb).tail (.learn b alg)

end Server

namespace Service

theorem changes_onThread {o : Options} (s : Service) (i : ℕ) (raises : Bool) :
    Objects.Changes o s.server.objects (s.onThread o i raises).server.objects := by
  unfold onThread
  split
  · exact .single (.thread s.server.objects i _)
  · split
    · split
      · exact .single (.thread s.server.objects i _)
      · exact .refl
    · exact .refl
  · exact .refl

/-- **Step lemma.** -/
theorem changes_step {o : Options} (s : Service) (op : ServiceOp) :
    Objects.Changes o s.server.objects (s.step o op).server.objects := by
  cases op with
  | configure lib req =>
      simp only [step]
      split
      · exact Server.changes_configured (Server.configure_cases o lib req s.server)
      · exact .refl
  | infer req =>
      simp only [step]
      split
      · rw [objects_onInfer]
        exact .refl
      · exact .refl
  | stopTraining =>
      simp only [step, Server.stopTraining]
      split
      · split
        · exact .single (.stop s.server.objects)
        · exact .refl
      · exact .refl
  | thread i raises => exact changes_onThread s i raises
  | answer =>
      simp only [step]
      split
      · exact .refl
      · exact .refl

end Service

/-! ### What holds in every run -/

namespace Objects

/-- The identities in use are smaller than the next one, and a thread is only started for a
model. -/
structure Sound (b : Objects) : Prop where
  env : ∀ e, b.env = some e → e.id < b.nextId ∧ e.condition < b.nextId
  condition : ∀ c, b.condition = some c → c < b.nextId
  threads : b.model = none → b.threads = []

theorem Sound.withCondition {b : Objects} (h : b.Sound) : b.withCondition.Sound := by
  refine ⟨fun e he => ?_, fun c hc => ?_, h.threads⟩
  · obtain ⟨h1, h2⟩ := h.env e he
    exact ⟨Nat.lt_succ_of_lt h1, Nat.lt_succ_of_lt h2⟩
  · cases hc
    exact Nat.lt_succ_self _

theorem Sound.withEnv {b : Objects} (h : b.Sound) {cls : EnvClass} {n c : ℕ}
    (hc : c < b.nextId) : (b.withEnv cls n c).Sound := by
  refine ⟨fun e he => ?_, fun c' hc' => ?_, h.threads⟩
  · cases he
    exact ⟨Nat.lt_succ_self _, Nat.lt_succ_of_lt hc⟩
  · exact Nat.lt_succ_of_lt (h.condition c' hc')

theorem le_withModel_nextId (alg : Algorithm) (b : Objects) :
    b.nextId ≤ (b.withModel alg).nextId := by
  unfold withModel
  cases b.model with
  | none => exact Nat.le_succ _
  | some m => exact le_rfl

theorem le_learn_nextId (o : Options) (alg : Algorithm) (b : Objects) :
    b.nextId ≤ (b.learn o alg).nextId := by
  unfold learn
  split
  · exact le_rfl
  · split
    · exact le_withModel_nextId alg b
    · exact le_withModel_nextId alg b

theorem withModel_isSome (alg : Algorithm) (b : Objects) :
    (b.withModel alg).model.isSome = true := by
  unfold withModel
  cases hm : b.model <;> simp

theorem Sound.learn {b : Objects} (h : b.Sound) (o : Options) (alg : Algorithm) :
    (b.learn o alg).Sound := by
  have hle := le_learn_nextId o alg b
  refine ⟨fun e he => ?_, fun c hc => ?_, fun hm => ?_⟩
  · rw [learn_env] at he
    obtain ⟨h1, h2⟩ := h.env e he
    exact ⟨lt_of_lt_of_le h1 hle, lt_of_lt_of_le h2 hle⟩
  · rw [learn_condition] at hc
    exact lt_of_lt_of_le (h.condition c hc) hle
  · have hsome := withModel_isSome alg b
    unfold Objects.learn at hm ⊢
    by_cases hr : b.running = true
    · rw [if_pos hr] at hm ⊢
      exact h.threads hm
    · have hnone : (b.withModel alg).model = none := by
        rw [if_neg hr] at hm
        split at hm
        · exact hm
        · exact hm
      rw [hnone] at hsome
      cases hsome

theorem Sound.env_condition_ne {b : Objects} (h : b.Sound) :
    b.withCondition.env.map EnvObject.condition ≠ b.withCondition.condition := by
  intro heq
  cases he : b.env with
  | none => simp [Objects.withCondition, he] at heq
  | some env =>
      have hc : env.condition = b.nextId := by simpa [Objects.withCondition, he] using heq
      have := (h.env env he).2
      omega

end Objects

theorem sound_of_changes {o : Options} {b b' : Objects} (h : Objects.Changes o b b')
    (hb : b.Sound) : b'.Sound := by
  refine h.invariant (fun b b' hc hs => ?_) hb
  cases hc with
  | condition => exact hs.withCondition
  | env cls n => exact hs.withCondition.withEnv (Nat.lt_succ_self _)
  | learn alg => exact hs.learn o alg
  | thread i t =>
      refine ⟨hs.env, hs.condition, fun hm => ?_⟩
      have hnil : b.threads = [] := hs.threads hm
      simp [hnil]
  | stop => exact ⟨hs.env, hs.condition, hs.threads⟩

theorem Server.sound_configured {o : Options} {lib : Libraries} {s s' : Server}
    {req : ConfigureRequest} {r : Reply} (hs : s.objects.Sound)
    (h : s.Configured o lib req s' r) : s'.objects.Sound :=
  sound_of_changes (Server.changes_configured h) hs

namespace Service

theorem sound_onThread {o : Options} {s : Service} (hs : s.server.objects.Sound) (i : ℕ)
    (raises : Bool) : (s.onThread o i raises).server.objects.Sound :=
  sound_of_changes (changes_onThread s i raises) hs

theorem sound_step {o : Options} {s : Service} (hs : s.server.objects.Sound) (op : ServiceOp) :
    (s.step o op).server.objects.Sound :=
  sound_of_changes (changes_step s op) hs

theorem sound_start (curves : String → List CurveLine) : (start curves).server.objects.Sound :=
  ⟨nofun, nofun, fun _ => rfl⟩

/-- A condition on the configure requests the event loop handles. -/
def OnConfigure (Q : Libraries → ConfigureRequest → Server → Prop) (s : Service) :
    ServiceOp → Prop
  | .configure lib req => s.loop = .free → Q lib req s.server
  | _ => True

/-- **Run rule.** Two conditions that agree for one request agree for the requests of a run. -/
theorem allSteps_onConfigure {o : Options} {P Q : Libraries → ConfigureRequest → Server → Prop}
    (h : ∀ lib req s, s.objects.Sound → (P lib req s ↔ Q lib req s))
    (curves : String → List CurveLine) (ops : List ServiceOp) :
    Runs.AllSteps (step o) (OnConfigure P) (start curves) ops ↔
      Runs.AllSteps (step o) (OnConfigure Q) (start curves) ops := by
  have hlegal : Runs.AllSteps (step o) (fun _ _ => True) (start curves) ops :=
    Runs.allSteps_of_forall (fun _ _ => trivial) _ ops
  refine Runs.allSteps_iff (fun s => s.server.objects.Sound) ?_ ?_ (sound_start curves) hlegal
  · intro s op hs _
    cases op with
    | configure lib req => exact imp_congr_right fun _ => h lib req s.server hs
    | infer req => exact Iff.rfl
    | stopTraining => exact Iff.rfl
    | thread i raises => exact Iff.rfl
    | answer => exact Iff.rfl
  · intro s op hs _ _
    exact sound_step hs op

end Service

end Rbis
