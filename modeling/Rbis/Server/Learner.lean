import Rbis.Server.Service

/-! # A single live learner

After a successful request for PPO or DQN one thread runs `model.learn` on the current model,
whose environment is the current one and waits on the current condition.  The environment, the
condition, the model and the thread are replaced by different branches of `configure`, and
`stop_training` only drops the reference to the thread, so this is kept by some requests only
(`Service.Keeps`, `singleLearner_iff`). -/

namespace Rbis

/-- The thread will read the globals, or runs this model in this environment. -/
def AgentThread.RunsOn (m : Model) (env : EnvObject) : AgentThread → Prop
  | .starting => True
  | .learning c model e _ => c = env.condition ∧ model = m.id ∧ e = env
  | .ended => False

namespace Objects

/-- The thread with index `k` is the only live one and runs the current model in the current
environment. -/
structure LearnsAt (b : Objects) (k : ℕ) (t : AgentThread) (m : Model) (e : EnvObject) :
    Prop where
  thread : b.threads[k]? = some t
  alive : t.isAlive = true
  unique : ∀ j u, b.threads[j]? = some u → u.isAlive = true → j = k
  model : b.model = some m
  env : b.env = some e
  modelEnv : m.env = some e
  condition : b.condition = some e.condition
  runs : t.RunsOn m e

def SingleLearner (b : Objects) : Prop := ∃ k t m env, b.LearnsAt k t m env

theorem LearnsAt.env_condition {b : Objects} {k : ℕ} {t : AgentThread} {m : Model}
    {env : EnvObject} (h : b.LearnsAt k t m env) : b.env.map EnvObject.condition = b.condition := by
  rw [h.env, h.condition]
  rfl

/-! ### What spoils it -/

theorem not_singleLearner_of_condition {b : Objects}
    (h : b.env.map EnvObject.condition ≠ b.condition) : ¬ b.SingleLearner := by
  rintro ⟨k, t, m, env, hl⟩
  exact h hl.env_condition

theorem not_singleLearner_withThread {b : Objects} {k : ℕ} {t : AgentThread}
    (ht : b.threads[k]? = some t) (ha : t.isAlive = true) : ¬ b.withThread.SingleLearner := by
  rintro ⟨j, u, m, env, hl⟩
  have hk : k < b.threads.length := (List.getElem?_eq_some_iff.mp ht).1
  have hold : b.withThread.threads[k]? = some t := by
    rw [withThread, List.getElem?_append_left hk, ht]
  have hnew : b.withThread.threads[b.threads.length]? = some .starting := by
    simp [withThread]
  have h1 := hl.unique k t hold ha
  have h2 := hl.unique b.threads.length .starting hnew rfl
  omega

theorem not_singleLearner_of_model {b : Objects} {m : Model} (hm : b.model = some m)
    (h : m.env ≠ b.env) : ¬ b.SingleLearner := by
  rintro ⟨k, t, m', env, hl⟩
  have hmm : m = m' := Option.some.inj (hm.symm.trans hl.model)
  subst hmm
  exact h (hl.modelEnv.trans hl.env.symm)

end Objects

namespace Service

/-- After a successful request for PPO or DQN there is a single live learner. -/
def Learns (s : Service) : Prop := s.configured = true → s.server.objects.SingleLearner

/-- The condition a step has to meet.  The first request for PPO or DQN that can be met reuses an
environment only with its condition, and creates one otherwise.  After it, a request for PPO or
DQN finds the training active and as many UEs as before, and a thread that begins or steps has a
timestep left after that and does not raise. -/
def Keeps (o : Options) (s : Service) : ServiceOp → Prop
  | .configure lib req => s.loop = .free → ∀ alg, Algorithm.ofName req.model = some alg →
      if s.configured then
        s.server.isAgentThreadRunning = true ∧ s.server.reusesEnv req = true
      else s.server.CanLearn o lib req alg →
        if s.server.reusesEnv req then
          s.server.env.map EnvObject.condition = s.server.condition
        else (designatedEnv req.model req.envType).isSome = true
  | .thread i raises => s.configured = true →
      match s.server.threads[i]? with
      | some .starting => raises = false ∧ 0 < o.totalTimesteps
      | some (.learning _ _ _ left) =>
          (∃ heard, s.loop = .waiting heard ∧ i ∈ heard) → raises = false ∧ 1 < left
      | _ => True
  | _ => True

/-- Before the first success there is no model and no thread. -/
structure Inv (s : Service) : Prop where
  sound : s.server.objects.Sound
  learner : s.Learns
  empty : s.configured = false →
    s.server.model = none ∧ s.server.agentThread = none ∧ s.server.threads = []

variable {o : Options} {lib : Libraries}

/-! ### Requests -/

theorem succeeds_of {req : ConfigureRequest} {alg : Algorithm}
    (ha : Algorithm.ofName req.model = some alg) : succeeds req .success = true := by
  simp [succeeds, ha]

/-- The objects with which the model stage begins, while a single learner is live: they leave it
alone only when the environment is reused. -/
theorem chosen_singleLearner {s : Server} {req : ConfigureRequest} {alg : Algorithm} {b : Objects}
    (hf : s.objects.Sound) (hs : s.objects.SingleLearner) (hb : s.EnvChosen lib req alg b)
    (ho : o.predict = false) :
    (b.learn o alg).SingleLearner ↔ s.isAgentThreadRunning = true ∧ s.reusesEnv req = true := by
  obtain ⟨k, t, m, e, hl⟩ := hs
  have hthread : b.threads[k]? = some t := by
    rw [hb.frame.2.2]
    exact hl.thread
  have hidle : s.isAgentThreadRunning = false → ¬ (b.learn o alg).SingleLearner := by
    intro hr
    have hlearn : b.learn o alg = (b.withModel alg).withThread := by
      simp [Objects.learn, hb.running, hr, ho]
    rw [hlearn]
    refine Objects.not_singleLearner_withThread (k := k) (t := t) ?_ hl.alive
    rw [Objects.withModel_threads, hthread]
  have hactive : s.isAgentThreadRunning = true → b.learn o alg = b := by
    intro hr
    simp [Objects.learn, hb.running, hr]
  cases hr : s.isAgentThreadRunning with
  | false => simp [hidle hr]
  | true =>
      rw [hactive hr]
      cases hb with
      | reused hre =>
          simp only [hre, and_self, iff_true]
          exact ⟨k, t, m, e, hl⟩
      | created cls hre _ _ _ =>
          simp only [hre, Bool.false_eq_true, and_false, iff_false]
          refine Objects.not_singleLearner_of_model (m := m) hl.model ?_
          rw [hl.modelEnv]
          intro heq
          have hid : e.id = s.nextId + 1 := congrArg EnvObject.id (Option.some.inj heq)
          have hlt : e.id < s.nextId := (hf.env e hl.env).1
          omega
      | kept hre _ _ =>
          simp only [hre, Bool.false_eq_true, and_false, iff_false]
          exact Objects.not_singleLearner_of_condition hf.env_condition_ne

theorem chosen_empty {s : Server} {req : ConfigureRequest} {alg : Algorithm} {b : Objects}
    (hempty : s.model = none ∧ s.agentThread = none ∧ s.threads = [])
    (hb : s.EnvChosen lib req alg b) :
    b.model = none ∧ b.agentThread = none ∧ b.threads = [] := by
  obtain ⟨hm, ha, ht⟩ := hb.frame
  rw [hm, ha, ht]
  exact hempty

/-- The first success: the environment must come with the current condition. -/
theorem learn_first {b : Objects} (alg : Algorithm)
    (hempty : b.model = none ∧ b.agentThread = none ∧ b.threads = []) (ho : o.predict = false) :
    (b.learn o alg).SingleLearner ↔
      b.env.isSome = true ∧ b.env.map EnvObject.condition = b.condition := by
  obtain ⟨hm, ha, ht⟩ := hempty
  constructor
  · rintro ⟨k, t, m, e, hl⟩
    have henv := hl.env
    have hcond := hl.env_condition
    rw [Objects.learn_env] at henv hcond
    rw [Objects.learn_condition] at hcond
    exact ⟨by rw [henv]; rfl, hcond⟩
  · rintro ⟨hsome, hcond⟩
    obtain ⟨e, he⟩ := Option.isSome_iff_exists.mp hsome
    have hlearn : b.learn o alg = (b.withModel alg).withThread := by
      have hr : b.running = false := by simp [Objects.running, ha]
      simp [Objects.learn, hr, ho]
    have hthreads : (b.learn o alg).threads = [.starting] := by
      rw [hlearn, Objects.withThread, Objects.withModel_threads, ht]
      rfl
    refine ⟨0, .starting, ⟨b.nextId, alg, some e⟩, e, ?_, rfl, ?_, ?_, ?_, rfl, ?_, trivial⟩
    · rw [hthreads]
      rfl
    · intro j u hu _
      rw [hthreads] at hu
      have := (List.getElem?_eq_some_iff.mp hu).1
      simp only [List.length_singleton] at this
      omega
    · rw [hlearn]
      simp [Objects.withThread, Objects.withModel, hm, he]
    · rw [Objects.learn_env, he]
    · rw [Objects.learn_condition, ← hcond, he]
      rfl

/-- A request, while a single learner is live. -/
theorem singleLearner_configured {s s' : Server} {req : ConfigureRequest} {r : Reply}
    (hf : s.objects.Sound) (hs : s.objects.SingleLearner) (h : s.Configured o lib req s' r)
    (ho : o.predict = false) :
    s'.objects.SingleLearner ↔ ∀ alg, Algorithm.ofName req.model = some alg →
      s.isAgentThreadRunning = true ∧ s.reusesEnv req = true := by
  cases h with
  | continued hr hc hobj _ =>
      rw [hobj]
      exact iff_of_true hs fun _ _ => ⟨hr, (Server.compatible_iff.mp hc).1⟩
  | invalidModel ha _ hs' =>
      rw [hs']
      exact iff_of_true hs (by simp [ha])
  | invalidEnv ha hre _ hs' =>
      rw [hs']
      refine iff_of_false (Objects.not_singleLearner_of_condition hf.env_condition_ne) ?_
      simp [ha, hre]
  | envRaised alg cls e ha hre _ _ hobj =>
      rw [hobj]
      refine iff_of_false (Objects.not_singleLearner_of_condition hf.env_condition_ne) ?_
      simp [ha, hre]
  | noLearner ha _ hobj _ =>
      rw [hobj]
      exact iff_of_true hs (by simp [ha])
  | modelRaised alg b e _ hb hnone _ =>
      obtain ⟨k, t, m, e', hl⟩ := hs
      have hm : s.model = some m := hl.model
      simp [Objects.hasModel, hb.frame.1, hm] at hnone
  | learned alg b ha hb _ hobj _ =>
      rw [hobj, chosen_singleLearner hf hs hb ho]
      simp [ha]

/-- A request, before the first success. -/
theorem singleLearner_first {s s' : Server} {req : ConfigureRequest} {r : Reply}
    (hf : s.objects.Sound) (hempty : s.model = none ∧ s.agentThread = none ∧ s.threads = [])
    (h : s.Configured o lib req s' r) (ho : o.predict = false) :
    (succeeds req r = true → s'.objects.SingleLearner) ↔
      ∀ alg, Algorithm.ofName req.model = some alg → r = .success →
        if s.reusesEnv req then s.env.map EnvObject.condition = s.condition
        else (designatedEnv req.model req.envType).isSome = true := by
  cases h with
  | continued hr _ _ _ =>
      simp [Server.isAgentThreadRunning, hempty.2.1] at hr
  | invalidModel ha _ _ => simp [succeeds, ha]
  | invalidEnv ha _ _ _ => simp [succeeds]
  | envRaised alg cls e _ _ _ _ _ => simp [succeeds]
  | noLearner ha _ _ _ => simp [succeeds, ha]
  | modelRaised alg b e _ _ _ _ => simp [succeeds]
  | learned alg b ha hb _ hobj _ =>
      rw [hobj, learn_first alg (chosen_empty hempty hb) ho]
      simp only [succeeds_of ha, ha, Option.some.injEq, forall_eq', forall_const]
      cases hb with
      | reused hre =>
          rw [if_pos hre]
          apply and_iff_right
          obtain ⟨env, he, _⟩ := Server.reusesEnv_iff.mp hre
          simp [Server.objects, he]
      | created cls hre hd _ _ =>
          simp [hre, hd, Objects.withEnv, Objects.withCondition, Server.objects]
      | kept hre hd _ =>
          have := hf.env_condition_ne
          simp [hre, hd, this]

theorem empty_configured {s s' : Server} {req : ConfigureRequest} {r : Reply}
    (hempty : s.model = none ∧ s.agentThread = none ∧ s.threads = [])
    (h : s.Configured o lib req s' r) (hr : succeeds req r = false) :
    s'.model = none ∧ s'.agentThread = none ∧ s'.threads = [] := by
  have hof : ∀ b : Objects, s'.objects = b →
      (b.model = none ∧ b.agentThread = none ∧ b.threads = []) →
        s'.model = none ∧ s'.agentThread = none ∧ s'.threads = [] := by
    rintro b rfl hb
    exact hb
  cases h with
  | continued hrun _ _ _ => simp [Server.isAgentThreadRunning, hempty.2.1] at hrun
  | invalidModel _ _ hs => rw [hs]; exact hempty
  | invalidEnv _ _ _ hs => rw [hs]; exact hempty
  | envRaised alg cls e _ _ _ _ hobj => exact hof _ hobj hempty
  | noLearner _ _ hobj _ => exact hof _ hobj hempty
  | modelRaised alg b e _ hb _ hobj => exact hof b hobj (chosen_empty hempty hb)
  | learned alg b ha _ _ _ _ =>
      rw [succeeds_of ha] at hr
      cases hr

theorem learns_configure {s : Service} (hs : Inv s) (hloop : s.loop = .free) (lib : Libraries)
    (req : ConfigureRequest) (ho : o.predict = false) :
    (s.onConfigure o lib req).Learns ↔ Keeps o s (.configure lib req) := by
  have hcfg := Server.configure_cases o lib req s.server
  have hunfold : (s.onConfigure o lib req).Learns ↔
      ((s.configured || succeeds req (s.server.configure o lib req).2) = true →
        (s.server.configure o lib req).1.objects.SingleLearner) := Iff.rfl
  rw [hunfold]
  simp only [Keeps, hloop, forall_const]
  cases hc : s.configured with
  | true =>
      simp only [Bool.true_or, forall_const, if_true]
      exact singleLearner_configured hs.sound (hs.learner hc) hcfg ho
  | false =>
      simp only [Bool.false_or, Bool.false_eq_true, if_false]
      rw [singleLearner_first hs.sound (hs.empty hc) hcfg ho]
      refine forall_congr' fun alg => forall_congr' fun ha => ?_
      rw [Server.success_iff ha]

theorem inv_configure {s : Service} (hs : Inv s) (hloop : s.loop = .free) (lib : Libraries)
    (req : ConfigureRequest) (ho : o.predict = false) (hk : Keeps o s (.configure lib req)) :
    Inv (s.onConfigure o lib req) := by
  have hcfg := Server.configure_cases o lib req s.server
  refine ⟨Server.sound_configured hs.sound hcfg, (learns_configure hs hloop lib req ho).mpr hk, ?_⟩
  intro hc
  have hor : (s.configured || succeeds req (s.server.configure o lib req).2) = false := hc
  obtain ⟨h1, h2⟩ := Bool.or_eq_false_iff.mp hor
  exact empty_configured (hs.empty h1) hcfg h2

/-! ### Threads -/

/-- The thread `k` becomes `t'`. -/
theorem singleLearner_setThread {b : Objects} {k : ℕ} {t t' : AgentThread} {m : Model}
    {e : EnvObject} (hl : b.LearnsAt k t m e) :
    ({ b with threads := b.threads.set k t' } : Objects).SingleLearner ↔
      t'.isAlive = true ∧ t'.RunsOn m e := by
  have hk : k < b.threads.length := (List.getElem?_eq_some_iff.mp hl.thread).1
  have hset : ∀ j, j ≠ k → (b.threads.set k t')[j]? = b.threads[j]? :=
    fun j hj => List.getElem?_set_ne (Ne.symm hj)
  have hself : (b.threads.set k t')[k]? = some t' := List.getElem?_set_self hk
  constructor
  · rintro ⟨j, u, m', e', hl'⟩
    have hjk : j = k := by
      by_contra hne
      exact hne (hl.unique j u ((hset j hne).symm.trans hl'.thread) hl'.alive)
    subst hjk
    have hu : t' = u := Option.some.inj (hself.symm.trans hl'.thread)
    have hm : m = m' := Option.some.inj (hl.model.symm.trans hl'.model)
    have he : e = e' := Option.some.inj (hl.env.symm.trans hl'.env)
    subst hu hm he
    exact ⟨hl'.alive, hl'.runs⟩
  · rintro ⟨ha, hr⟩
    refine ⟨k, t', m, e, hself, ha, ?_, hl.model, hl.env, hl.modelEnv, hl.condition, hr⟩
    intro j u hu hua
    by_contra hne
    exact hne (hl.unique j u ((hset j hne).symm.trans hu) hua)

theorem enterStep_runsOn {m : Model} {e : EnvObject} {left : ℕ} :
    ((Server.enterStep e.condition m.id (some e) left).isAlive = true ∧
      (Server.enterStep e.condition m.id (some e) left).RunsOn m e) ↔ 0 < left := by
  unfold Server.enterStep
  by_cases h : left = 0
  · simp [h, AgentThread.isAlive]
  · simp [h, AgentThread.isAlive, AgentThread.RunsOn, Nat.pos_of_ne_zero h]

theorem configured_onThread (s : Service) (i : ℕ) (raises : Bool) :
    (s.onThread o i raises).configured = s.configured := by
  unfold onThread
  split
  · rfl
  · split
    · split <;> rfl
    · rfl
  · rfl

theorem learns_notified (raises : Bool) (left : ℕ) {b : Objects} {k : ℕ} {m : Model}
    {e : EnvObject} {t' : AgentThread} (ht : t' = if raises then .ended else
      Server.enterStep e.condition m.id (some e) left) {t : AgentThread}
    (hl : b.LearnsAt k t m e) :
    ({ b with threads := b.threads.set k t' } : Objects).SingleLearner ↔
      raises = false ∧ 0 < left := by
  rw [singleLearner_setThread hl, ht]
  cases raises with
  | true => simp [AgentThread.isAlive]
  | false => simpa using enterStep_runsOn

theorem learns_thread {s : Service} (hs : Inv s) (i : ℕ) (raises : Bool) :
    (s.onThread o i raises).Learns ↔ Keeps o s (.thread i raises) := by
  cases hc : s.configured with
  | false =>
      have hsame := configured_onThread (o := o) s i raises
      rw [hc] at hsame
      simp [Learns, Keeps, hsame, hc]
  | true =>
      have hlearns : s.server.objects.SingleLearner := hs.learner hc
      obtain ⟨k, t, m, e, hl⟩ := hlearns
      simp only [Keeps, hc, forall_const]
      cases hi : s.server.threads[i]? with
      | none => simpa [onThread, hi] using hs.learner
      | some u =>
          cases u with
          | ended => simpa [onThread, hi] using hs.learner
          | starting =>
              have hik : i = k := hl.unique i _ hi rfl
              subst hik
              have hbegin : s.server.beginLearn o =
                  Server.enterStep e.condition m.id (some e) o.totalTimesteps := by
                have h1 : s.server.condition = some e.condition := hl.condition
                have h2 : s.server.model = some m := hl.model
                simp only [Server.beginLearn, h1, h2, hl.modelEnv]
              have hgoal := learns_notified raises o.totalTimesteps rfl hl
              rw [← hbegin] at hgoal
              simp only [Learns, onThread, hi, hc, forall_const]
              exact hgoal
          | learning c mid env left =>
              have hik : i = k := hl.unique i _ hi rfl
              subst hik
              have ht : t = .learning c mid env left := Option.some.inj (hl.thread.symm.trans hi)
              subst ht
              obtain ⟨rfl, rfl, rfl⟩ := hl.runs
              cases hloop : s.loop with
              | waiting heard =>
                  by_cases hmem : i ∈ heard
                  · have henv : s.server.envOf m.id env = some env := by
                      have h : s.server.model = some m := hl.model
                      simp only [Server.envOf, h, if_true, hl.modelEnv]
                    have hgoal := learns_notified raises (left - 1) rfl hl
                    rw [← henv, Nat.sub_pos_iff_lt] at hgoal
                    simp only [Learns, onThread, hi, hc, hloop, hmem, if_true, forall_const,
                      EventLoop.waiting.injEq, exists_eq_left']
                    exact hgoal
                  · simpa [onThread, hi, hloop, hmem] using hs.learner
              | free => simpa [onThread, hi, hloop] using hs.learner
              | notified => simpa [onThread, hi, hloop] using hs.learner

/-! ### Steps -/

/-- The objects but the thread reference stay, and so does the invariant. -/
theorem inv_of_objects {s s' : Service} (hs : Inv s) (hsound : s'.server.objects.Sound)
    (hc : s'.configured = s.configured)
    (hobj : s'.server.objects = s.server.objects ∨
      s'.server.objects = { s.server.objects with agentThread := none }) :
    Inv s' := by
  have hsingle : ∀ b : Objects, b.SingleLearner →
      ({ b with agentThread := none } : Objects).SingleLearner := by
    rintro b ⟨k, t, m, e, hl⟩
    exact ⟨k, t, m, e, hl.thread, hl.alive, hl.unique, hl.model, hl.env, hl.modelEnv,
      hl.condition, hl.runs⟩
  have hof : ∀ b : Objects, s'.server.objects = b →
      (s.configured = true → b.SingleLearner) →
      (s.configured = false → b.model = none ∧ b.agentThread = none ∧ b.threads = []) →
        Inv s' := by
    rintro b rfl h1 h2
    exact ⟨hsound, fun h => h1 (hc ▸ h), fun h => h2 (hc ▸ h)⟩
  obtain h | h := hobj
  · exact hof _ h hs.learner hs.empty
  · refine hof _ h (fun h => hsingle _ (hs.learner h)) ?_
    intro h
    exact ⟨(hs.empty h).1, rfl, (hs.empty h).2.2⟩

theorem inv_thread {s : Service} (hs : Inv s) {i : ℕ} {raises : Bool}
    (hk : Keeps o s (.thread i raises)) : Inv (s.onThread o i raises) := by
  refine ⟨sound_onThread hs.sound i raises, (learns_thread hs i raises).mpr hk, ?_⟩
  intro hc
  rw [configured_onThread] at hc
  have hstay : s.onThread o i raises = s := by
    simp [onThread, (hs.empty hc).2.2]
  rw [hstay]
  exact hs.empty hc

/-- **Step lemma.** A step keeps the invariant when it meets the condition, and the single
learner only then. -/
theorem learns_step {s : Service} (hs : Inv s) (op : ServiceOp) (ho : o.predict = false) :
    ((s.step o op).Learns ↔ Keeps o s op) ∧ (Keeps o s op → Inv (s.step o op)) := by
  have hsame : ∀ s' : Service, Inv s' → Keeps o s op → (s'.Learns ↔ Keeps o s op) :=
    fun s' h hk => iff_of_true h.learner hk
  cases op with
  | configure lib req =>
      by_cases hloop : s.loop = .free
      · simp only [step, if_pos hloop]
        exact ⟨learns_configure hs hloop lib req ho, inv_configure hs hloop lib req ho⟩
      · simp only [step, if_neg hloop]
        exact ⟨hsame s hs fun h => absurd h hloop, fun _ => hs⟩
  | infer req =>
      by_cases hloop : s.loop = .free
      · have hi : Inv (s.onInfer o req) :=
          inv_of_objects hs (by rw [objects_onInfer]; exact hs.sound) (configured_onInfer o req s)
            (.inl (objects_onInfer o req s))
        simp only [step, if_pos hloop]
        exact ⟨hsame _ hi trivial, fun _ => hi⟩
      · simp only [step, if_neg hloop]
        exact ⟨hsame s hs trivial, fun _ => hs⟩
  | stopTraining =>
      by_cases hloop : s.loop = .free
      · have hi : Inv { s with server := s.server.stopTraining } := by
          have hsound := sound_step (o := o) hs.sound .stopTraining
          simp only [step, if_pos hloop] at hsound
          refine inv_of_objects hs hsound rfl ?_
          unfold Server.stopTraining
          split
          · exact .inr rfl
          · exact .inl rfl
        simp only [step, if_pos hloop]
        exact ⟨hsame _ hi trivial, fun _ => hi⟩
      · simp only [step, if_neg hloop]
        exact ⟨hsame s hs trivial, fun _ => hs⟩
  | thread i raises => exact ⟨learns_thread hs i raises, inv_thread hs⟩
  | answer =>
      by_cases hloop : s.loop = .notified
      · have hi : Inv { s with loop := .free } := inv_of_objects hs hs.sound rfl (.inl rfl)
        simp only [step, if_pos hloop]
        exact ⟨hsame _ hi trivial, fun _ => hi⟩
      · simp only [step, if_neg hloop]
        exact ⟨hsame s hs trivial, fun _ => hs⟩

theorem inv_start (curves : String → List CurveLine) : Inv (start curves) where
  sound := sound_start curves
  learner := nofun
  empty := fun _ => ⟨rfl, rfl, rfl⟩

end Service

/-- The options with `PREDICT = False`. -/
def Options.training (o : Options) : Options := { o with predict := false }

/-- **A single live learner** follows every successful request for PPO or DQN, in every state of
a run, exactly if all steps of the run meet the condition. -/
theorem singleLearner_iff (o : Options) (curves : String → List CurveLine)
    (ops : List ServiceOp) :
    Runs.Throughout (Service.step o.training) Service.Learns (.start curves) ops ↔
      Runs.AllSteps (Service.step o.training) (Service.Keeps o.training) (.start curves) ops := by
  have hlegal : Runs.AllSteps (Service.step o.training) (fun _ _ => True) (.start curves) ops :=
    Runs.allSteps_of_forall (fun _ _ => trivial) _ ops
  rw [Runs.throughout_iff, and_iff_right (Service.inv_start curves).learner]
  refine Runs.allSteps_iff Service.Inv ?_ ?_ (Service.inv_start curves) hlegal
  · intro s op hs _
    exact (Service.learns_step hs op rfl).1
  · intro s op hs _ hk
    exact (Service.learns_step hs op rfl).2 hk

/-- A training that is stopped and configured again: both threads are alive. -/
theorem not_singleLearner_stopped :
    ¬ Runs.Throughout (Service.step ({} : Options).training) Service.Learns (.start fun _ => [])
      [.configure .untrained ⟨"PPO", 4, "Basic"⟩, .stopTraining,
        .configure .untrained ⟨"PPO", 4, "Basic"⟩] := by
  intro h
  obtain ⟨k, t, m, e, hl⟩ := h _ List.prefix_rfl (by decide +kernel)
  have h0 := hl.unique 0 .starting (by decide +kernel) rfl
  have h1 := hl.unique 1 .starting (by decide +kernel) rfl
  omega

end Rbis
