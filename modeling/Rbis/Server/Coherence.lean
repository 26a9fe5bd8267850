import Rbis.Server.Service

/-! # What a successful configure request leaves behind

The environment is reused when the number of UEs is the same, whatever its class, and the model
is reused whenever there is one, whatever its algorithm, while `env_type` is always replaced.
So the environment, the model and the state vectors built for it fit the request only under a
condition on what was there before (`coherent_iff`). -/

namespace Rbis

/-- Every array of the report has `n` entries. -/
structure InferRequest.HasLength (r : InferRequest) (n : ℕ) : Prop where
  mcs : r.mcs.length = n
  q : r.q.length = n
  g : r.g.length = n
  closeToObstacle : r.closeToObstacle.length = n

namespace Server

/-- The environment is of the class designated for the request and has its number of UEs, the
model is of its algorithm, and the state vector of a report with an entry per UE in every array
has the length of the observation space. -/
structure Fitted (req : ConfigureRequest) (alg : Algorithm) (s : Server) (cls : EnvClass)
    (e : EnvObject) (m : Model) : Prop where
  designated : designatedEnv req.model req.envType = some cls
  env : s.env = some e
  cls : e.cls = cls
  numUes : (e.numUes : ℤ) = req.numUes
  model : s.model = some m
  algorithm : m.algorithm = alg
  length : ∀ r : InferRequest, r.HasLength e.numUes → ∃ mcs v,
    encodeMcs s.envType r = .ok mcs ∧ stateVector s.envType mcs = some v ∧
      v.length = (e.cls.observationSpace e.numUes).length

/-- A request for PPO or DQN that succeeds leaves a fitting environment and model. -/
def Coherent (o : Options) (lib : Libraries) (req : ConfigureRequest) (s : Server) : Prop :=
  ∀ alg, Algorithm.ofName req.model = some alg → (s.configure o lib req).2 = .success →
    ∃ cls e m, (s.configure o lib req).1.Fitted req alg cls e m

/-- For a request for PPO or DQN that can be met, a class is designated, an environment to be
reused is of this class, and a model that is there is of its algorithm. -/
def Matches (o : Options) (lib : Libraries) (req : ConfigureRequest) (s : Server) : Prop :=
  ∀ alg, Algorithm.ofName req.model = some alg → s.CanLearn o lib req alg →
    ∃ cls, designatedEnv req.model req.envType = some cls ∧
      (s.reusesEnv req = true → s.env.map EnvObject.cls = some cls) ∧
        ∀ m, s.model = some m → m.algorithm = alg

variable {o : Options}

/-- The environment types of the designated classes. -/
theorem stateSpace_of_designated {m envType : String} {cls : EnvClass}
    (h : designatedEnv m envType = some cls) :
    (envType = "ISAC" ∨ envType = "Basic") ∧
      cls.stateSpace = if envType = "ISAC" then 4 else 3 := by
  unfold designatedEnv at h
  cases ha : Algorithm.ofName m with
  | none =>
      rw [ha] at h
      cases h
  | some alg =>
      rw [ha] at h
      by_cases hi : envType = "ISAC"
      · refine ⟨.inl hi, ?_⟩
        simp only [if_pos hi, Option.some.injEq] at h ⊢
        subst h
        cases alg <;> rfl
      · by_cases hb : envType = "Basic"
        · refine ⟨.inr hb, ?_⟩
          simp only [if_neg hi, if_pos hb, Option.some.injEq] at h ⊢
          subst h
          cases alg <;> rfl
        · simp [hi, hb] at h

theorem length_of_designated {s : Server} {req : ConfigureRequest} {e : EnvObject}
    (hd : designatedEnv req.model req.envType = some e.cls) (ht : s.envType = req.envType)
    (r : InferRequest) (hr : r.HasLength e.numUes) :
    ∃ mcs v, encodeMcs s.envType r = .ok mcs ∧ stateVector s.envType mcs = some v ∧
      v.length = (e.cls.observationSpace e.numUes).length := by
  obtain ⟨htype, hcls⟩ := stateSpace_of_designated hd
  rw [← ht] at htype hcls
  obtain ⟨mcs, hmcs, hlen⟩ := encodeMcs_ok s.envType r (hr.mcs.trans hr.closeToObstacle.symm).le
  obtain ⟨v, hv, hvlen⟩ := length_stateVector mcs htype hcls
  rw [hlen, hr.mcs] at hvlen
  exact ⟨mcs, v, hmcs, hv, hvlen⟩

theorem fitted_iff {s : Server} {req : ConfigureRequest} {alg : Algorithm}
    (ht : s.envType = req.envType) :
    (∃ cls e m, s.Fitted req alg cls e m) ↔ ∃ cls, designatedEnv req.model req.envType = some cls ∧
      (∃ e, s.env = some e ∧ e.cls = cls ∧ (e.numUes : ℤ) = req.numUes) ∧
        ∃ m, s.model = some m ∧ m.algorithm = alg := by
  constructor
  · rintro ⟨cls, e, m, h⟩
    exact ⟨cls, h.designated, ⟨e, h.env, h.cls, h.numUes⟩, m, h.model, h.algorithm⟩
  · rintro ⟨cls, hd, ⟨e, he, rfl, hn⟩, m, hm, ha⟩
    exact ⟨e.cls, e, m, hd, he, rfl, hn, hm, ha, length_of_designated hd ht⟩

theorem reused_iff {s : Server} {req : ConfigureRequest} (h : s.reusesEnv req = true)
    (cls : EnvClass) :
    (∃ e, s.env = some e ∧ e.cls = cls ∧ (e.numUes : ℤ) = req.numUes) ↔
      s.env.map EnvObject.cls = some cls := by
  obtain ⟨e, he, hn⟩ := reusesEnv_iff.mp h
  rw [he]
  constructor
  · rintro ⟨e', he', hc, _⟩
    cases he'
    exact congrArg some hc
  · intro hc
    exact ⟨e, rfl, Option.some.inj hc, hn⟩

/-- The model after the model stage is of the algorithm exactly if the one before it was, if
there was one. -/
theorem learn_algorithm {b : Objects} (alg : Algorithm) (hb : b.model = none → b.threads = []) :
    (∃ m, (b.learn o alg).model = some m ∧ m.algorithm = alg) ↔
      ∀ m, b.model = some m → m.algorithm = alg := by
  have hidle : b.model = none → b.running = false :=
    fun hm => Objects.running_of_nil (hb hm)
  cases hm : b.model with
  | none =>
      have hmodel : (b.learn o alg).model = some ⟨b.nextId, alg, b.env⟩ := by
        simp only [Objects.learn, hidle hm, Bool.false_eq_true, if_false]
        cases o.predict <;> simp [Objects.withModel, Objects.withThread, hm]
      simp [hmodel]
  | some m =>
      have hmodel : ∃ env, (b.learn o alg).model = some { m with env } := by
        unfold Objects.learn
        split
        · exact ⟨m.env, hm⟩
        · refine ⟨b.env, ?_⟩
          split
          · simp [Objects.withModel, hm]
          · simp [Objects.withModel, Objects.withThread, hm]
      obtain ⟨env, henv⟩ := hmodel
      simp [henv]

/-- A training that goes on. -/
theorem fitted_continued {s s' : Server} {req : ConfigureRequest} {alg : Algorithm}
    (hs : s.objects.Sound) (hr : s.isAgentThreadRunning = true) (hc : s.compatible req = true)
    (hobj : s'.objects = s.objects) (ht : s'.envType = req.envType) :
    (∃ cls e m, s'.Fitted req alg cls e m) ↔
      ∃ cls, designatedEnv req.model req.envType = some cls ∧
        (s.reusesEnv req = true → s.env.map EnvObject.cls = some cls) ∧
          ∀ m, s.model = some m → m.algorithm = alg := by
  have hre := (compatible_iff.mp hc).1
  have henv : s'.env = s.env := congrArg Objects.env hobj
  have hmodel : s'.model = s.model := congrArg Objects.model hobj
  rw [fitted_iff ht, henv, hmodel]
  refine exists_congr fun cls => and_congr_right fun _ => ?_
  rw [reused_iff hre]
  simp only [hre, forall_const]
  refine and_congr_right fun _ => ?_
  cases hm : s.model with
  | none =>
      have hidle : s.isAgentThreadRunning = false := Objects.running_of_nil (hs.threads hm)
      rw [hidle] at hr
      cases hr
  | some m => simp

/-- The model stage, from the objects the choice of the environment has left. -/
theorem fitted_learned {s s' : Server} {req : ConfigureRequest} {alg : Algorithm} {b : Objects}
    {lib : Libraries} (hs : s.objects.Sound) (hb : s.EnvChosen lib req alg b)
    (hobj : s'.objects = b.learn o alg) (ht : s'.envType = req.envType) :
    (∃ cls e m, s'.Fitted req alg cls e m) ↔
      ∃ cls, designatedEnv req.model req.envType = some cls ∧
        (s.reusesEnv req = true → s.env.map EnvObject.cls = some cls) ∧
          ∀ m, s.model = some m → m.algorithm = alg := by
  have henv : s'.env = b.env := (congrArg Objects.env hobj).trans (Objects.learn_env o alg b)
  have hmodel : s'.model = (b.learn o alg).model := congrArg Objects.model hobj
  obtain ⟨hbm, _, hbt⟩ := hb.frame
  have hempty : b.model = none → b.threads = [] := by
    rw [hbm, hbt]
    exact hs.threads
  rw [fitted_iff ht, henv, hmodel]
  refine exists_congr fun cls => and_congr_right fun hd => ?_
  rw [learn_algorithm alg hempty, hbm]
  refine and_congr_left fun _ => ?_
  cases hb with
  | reused hre =>
      simp only [hre, forall_const]
      exact reused_iff hre cls
  | created cls' hre hd' hn _ =>
      have hcls : cls' = cls := Option.some.inj (hd'.symm.trans hd)
      subst hcls
      simp only [hre, Bool.false_eq_true, false_implies, iff_true]
      exact ⟨_, rfl, rfl, Int.toNat_of_nonneg hn⟩
  | kept hre hd' _ =>
      rw [hd] at hd'
      cases hd'

/-- **One request.** -/
theorem coherent_iff_matches {s : Server} (hs : s.objects.Sound) (lib : Libraries)
    (req : ConfigureRequest) : Coherent o lib req s ↔ Matches o lib req s := by
  refine forall_congr' fun alg => forall_congr' fun ha => ?_
  rw [← success_iff ha]
  have h := configure_cases o lib req s
  generalize s.configure o lib req = res at h ⊢
  obtain ⟨s', r⟩ := res
  simp only at h ⊢
  cases h with
  | invalidModel _ _ _ => simp
  | invalidEnv _ _ _ _ => simp
  | envRaised _ _ _ _ _ _ _ _ => simp
  | modelRaised _ _ _ _ _ _ _ => simp
  | noLearner hnone _ _ _ => simp [ha] at hnone
  | continued hr hc hobj ht => exact forall_congr' fun _ => fitted_continued hs hr hc hobj ht
  | learned alg' b ha' hb _ hobj ht =>
      have halg : alg' = alg := Option.some.inj (ha'.symm.trans ha)
      subst halg
      exact forall_congr' fun _ => fitted_learned hs hb hobj ht

end Server

/-- **Every request of a run** for PPO or DQN that succeeds leaves a fitting environment and
model exactly if every one that can be met finds an environment to be reused of the designated
class, and a model of its algorithm or none. -/
theorem coherent_iff (o : Options) (curves : String → List CurveLine) (ops : List ServiceOp) :
    Runs.AllSteps (Service.step o) (Service.OnConfigure (Server.Coherent o)) (.start curves) ops ↔
      Runs.AllSteps (Service.step o) (Service.OnConfigure (Server.Matches o)) (.start curves)
        ops :=
  Service.allSteps_onConfigure (fun lib req _ hs => Server.coherent_iff_matches hs lib req)
    curves ops

/-- PPO Basic, then PPO ISAC with as many UEs: the environment stays. -/
theorem not_coherent_reused :
    ¬ Runs.AllSteps (Service.step {}) (Service.OnConfigure (Server.Coherent {}))
      (.start fun _ => [])
      [.configure .untrained ⟨"PPO", 4, "Basic"⟩, .configure .untrained ⟨"PPO", 4, "ISAC"⟩] := by
  rintro ⟨_, h, _⟩
  obtain ⟨cls, e, m, hf⟩ := h rfl .PPO (by decide +kernel) (by decide +kernel)
  have hcls : cls = .customEnvISAC :=
    Option.some.inj (hf.designated.symm.trans (by decide +kernel))
  have henv : e.cls = .customEnvBasic :=
    congrArg EnvObject.cls (Option.some.inj (hf.env.symm.trans
      (by decide +kernel : _ = some ⟨1, .customEnvBasic, 4, 0⟩)))
  rw [hf.cls, hcls] at henv
  cases henv

end Rbis
