import Mathlib.Data.List.Forall2
import Rbis.Sched.RestRequest
import Rbis.Server.Coherence

/-! # The report of the scheduler, read by the server

The scheduler reports one entry per UE in every array; the server builds from it the state of
the environment that was configured for `n` UEs.  The vector is in the observation space
whenever it has the right length, but the test for the policy is a comparison with the constant
four: a report is answered by the policy for every number of UEs from four on, and for none
below (`policyContract_iff`). -/

namespace Rbis

open Cxx Fallible

/-! ### The observation space -/

/-- `Box.contains`: the vector has the shape of the space and every component is in its bounds. -/
def EnvClass.Contains (cls : EnvClass) (numUes : ℕ) (v : List ℤ) : Prop :=
  List.Forall₂ (fun x b => b.1 ≤ x ∧ x ≤ b.2) v (cls.observationSpace numUes)

theorem forall₂_replicate {α β : Type} {R : α → β → Prop} {b : β} :
    ∀ {l : List α}, (∀ x ∈ l, R x b) → List.Forall₂ R l (List.replicate l.length b)
  | [], _ => .nil
  | x :: l, h => by
      rw [List.forall_mem_cons] at h
      exact .cons h.1 (forall₂_replicate h.2)

theorem forall₂_zeros {b : ℤ × ℤ} (h : b.1 ≤ 0 ∧ 0 ≤ b.2) (n : ℕ) :
    List.Forall₂ (fun x b => b.1 ≤ x ∧ x ≤ b.2) (List.replicate n (0 : ℤ))
      (List.replicate n b) := by
  have hz := forall₂_replicate (R := fun (x : ℤ) (b : ℤ × ℤ) => b.1 ≤ x ∧ x ≤ b.2) (b := b)
    (l := List.replicate n 0) fun x hx => by rw [List.eq_of_mem_replicate hx]; exact h
  rw [List.length_replicate] at hz
  exact hz

theorem contains_stateVector {cls : EnvClass} {envType : String} {mcs : List ℤ}
    (htype : envType = "ISAC" ∨ envType = "Basic")
    (hcls : cls.stateSpace = if envType = "ISAC" then 4 else 3)
    (hmcs : ∀ x ∈ mcs, 0 ≤ x ∧ x ≤ 2) :
    ∃ v, stateVector envType mcs = some v ∧ cls.Contains mcs.length v := by
  have hm : List.Forall₂ (fun (x : ℤ) (b : ℤ × ℤ) => b.1 ≤ x ∧ x ≤ b.2) mcs
      (List.replicate mcs.length (0, 2)) := forall₂_replicate hmcs
  have hz := forall₂_zeros (b := (0, 2)) ⟨le_rfl, by omega⟩ mcs.length
  unfold EnvClass.Contains EnvClass.observationSpace
  rw [hcls]
  obtain rfl | rfl := htype
  · refine ⟨_, rfl, ?_⟩
    have ho := forall₂_zeros (b := (0, 1)) ⟨le_rfl, by omega⟩ mcs.length
    exact List.rel_append (List.rel_append (List.rel_append hm hz) hz) ho
  · refine ⟨_, rfl, ?_⟩
    rw [if_neg (by decide), List.append_nil]
    exact List.rel_append (List.rel_append hm hz) hz

theorem encodeMcsAt_bounds {obs mcs mcs' : List ℤ} {i : ℕ} (h : encodeMcsAt obs mcs i = .ok mcs')
    (hmcs : ∀ x ∈ mcs, 0 ≤ x ∧ x ≤ 2) : ∀ x ∈ mcs', 0 ≤ x ∧ x ≤ 2 := by
  have hset : ∀ a : ℤ, 0 ≤ a ∧ a ≤ 2 → ∀ x ∈ mcs.set i a, 0 ≤ x ∧ x ≤ 2 := by
    intro a ha x hx
    obtain hx | rfl := List.mem_or_eq_of_mem_set hx
    · exact hmcs x hx
    · exact ha
  obtain rfl | rfl | rfl := encodeMcsAt_cases h
  · exact hmcs
  · exact hset 0 (by omega)
  · exact hset 1 (by omega)

theorem encodeMcs_bounds {envType : String} {req : InferRequest} {mcs : List ℤ}
    (h : encodeMcs envType req = .ok mcs) (hmcs : ∀ x ∈ req.mcs, 0 ≤ x ∧ x ≤ 2) :
    ∀ x ∈ mcs, 0 ≤ x ∧ x ≤ 2 := by
  unfold encodeMcs at h
  split at h
  · refine foldlM_ok (P := fun l : List ℤ => ∀ x ∈ l, 0 ≤ x ∧ x ≤ 2) ?_ hmcs h
    intro i _ b c hb hc
    exact encodeMcsAt_bounds hc hb
  · cases h
    exact hmcs

/-! ### The report -/

/-- The request as the handler gets it.  A reward that is no number is `null` in the body of the
request, which is then refused before the handler runs. -/
def RestReport.inferRequest (r : RestReport) : Option InferRequest :=
  match r.reward with
  | .undef => none
  | .fin q => some
      { mcs := r.mcs.map fun (x : ℕ) => (x : ℤ)
        q := r.q.map fun (x : ℕ) => (x : ℤ)
        g := r.g.map fun (x : ℕ) => (x : ℤ)
        closeToObstacle := r.closeToObstacle.map fun (x : ℕ) => (x : ℤ)
        reward := .fin q }

theorem discretize_le (low high value : ℚ) : discretize low high value ≤ 2 := by
  unfold discretize
  split
  · omega
  · split
    · omega
    · omega

theorem inferRequest_spec {S : Scheduler} {now : ℚ} {itf : Ns3DrlInterface} {req : InferRequest}
    (h : (S.restReport now itf).inferRequest = some req) :
    req.HasLength itf.getUEsNumber ∧ ∀ x ∈ req.mcs, 0 ≤ x ∧ x ≤ 2 := by
  unfold RestReport.inferRequest at h
  split at h
  · cases h
  · cases h
    refine ⟨⟨?_, ?_, ?_, ?_⟩, fun x hx => ?_⟩
    · simp [Scheduler.restReport]
    · simp [Scheduler.restReport]
    · simp [Scheduler.restReport]
    · simp [Scheduler.restReport]
    · obtain ⟨y, hy, rfl⟩ := List.mem_map.mp hx
      obtain ⟨i, _, rfl⟩ := List.mem_map.mp hy
      have hle := discretize_le 22 25 (itf.getMcs i)
      omega

/-! ### The policy -/

namespace Server

/-- The server is configured for a learner, with the environment `e`. -/
structure Ready (s : Server) (e : EnvObject) : Prop where
  env : s.env = some e
  designated : ∃ modelType, s.modelType = some modelType ∧
    designatedEnv modelType s.envType = some e.cls
  model : s.model ≠ none
  condition : s.condition ≠ none

/-- The answer to a report; `none` when the request is refused. -/
def receive (o : Options) (r : RestReport) (s : Server) : Option (Except ServerError Branch) :=
  r.inferRequest.map fun req => (s.infer o req).2

variable {o : Options} {s : Server} {e : EnvObject} {req : InferRequest}

theorem infer_few (h : req.mcs.length < 4) : (s.infer o req).2 = .ok .default := by
  unfold infer
  rw [if_pos h]

theorem infer_transition (h : 4 ≤ req.mcs.length) (ht : s.transitionMode = true)
    (hobs : req.mcs.length ≤ req.closeToObstacle.length) :
    ∃ n, (s.infer o req).2 = .ok (.transition n) := by
  obtain ⟨mcs, hmcs, _⟩ := encodeMcs_ok s.envType req hobs
  unfold infer
  rw [if_neg (by omega), hmcs]
  dsimp only
  rw [if_pos ht]
  exact ⟨_, rfl⟩

/-- With four UEs or more and outside of the transition mode the policy is consulted. -/
theorem infer_policy (hs : s.Ready e) (h : 4 ≤ req.mcs.length) (ht : s.transitionMode = false)
    (hobs : req.mcs.length ≤ req.closeToObstacle.length) : ∃ mcs,
    encodeMcs s.envType req = .ok mcs ∧ mcs.length = req.mcs.length ∧
      (s.infer o req).2 = .ok (.ppo (stateVector s.envType mcs) req.reward) := by
  obtain ⟨mcs, hmcs, hlen⟩ := encodeMcs_ok s.envType req hobs
  obtain ⟨modelType, hmt, hd⟩ := hs.designated
  obtain ⟨alg, halg⟩ : ∃ alg, Algorithm.ofName modelType = some alg := by
    cases ha : Algorithm.ofName modelType with
    | none =>
        unfold designatedEnv at hd
        rw [ha] at hd
        cases hd
    | some alg => exact ⟨alg, rfl⟩
  obtain ⟨m, hm⟩ := Option.ne_none_iff_exists'.mp hs.model
  obtain ⟨c, hc⟩ := Option.ne_none_iff_exists'.mp hs.condition
  refine ⟨mcs, hmcs, hlen, ?_⟩
  unfold infer
  rw [if_neg (by omega), hmcs]
  dsimp only
  rw [if_neg (by rw [ht]; exact Bool.false_ne_true)]
  have hbind : s.modelType.bind Algorithm.ofName = some alg := by
    rw [hmt]
    exact halg
  simp [inferTrain, hm, answerOf, logStep, appendCurve, hbind, consult, hc, hs.env]

section reports

variable {S : Scheduler} {now : ℚ} {itf : Ns3DrlInterface}

theorem receive_undef (h : itf.reward = .undef) : s.receive o (S.restReport now itf) = none := by
  have hreward : (S.restReport now itf).reward = .undef := h
  unfold receive RestReport.inferRequest
  rw [hreward]
  rfl

theorem receive_fin (h : itf.reward ≠ .undef) : ∃ req,
    (S.restReport now itf).inferRequest = some req ∧
      s.receive o (S.restReport now itf) = some (s.infer o req).2 := by
  obtain ⟨q, hq⟩ : ∃ q, (S.restReport now itf).reward = .fin q := by
    cases hr : (S.restReport now itf).reward with
    | undef => exact absurd hr h
    | fin q => exact ⟨q, rfl⟩
  unfold receive RestReport.inferRequest
  rw [hq]
  exact ⟨_, rfl, rfl⟩

/-- When a report reaches the policy. -/
theorem consulted_iff (hs : s.Ready e) :
    (∃ v reward, s.receive o (S.restReport now itf) = some (.ok (.ppo v reward))) ↔
      s.transitionMode = false ∧ 4 ≤ itf.getUEsNumber ∧ itf.reward ≠ .undef := by
  by_cases hu : itf.reward = .undef
  · rw [receive_undef hu]
    refine iff_of_false ?_ fun h => h.2.2 hu
    rintro ⟨v, reward, h⟩
    cases h
  · obtain ⟨req, hreq, hrec⟩ := receive_fin (s := s) (o := o) (S := S) hu
    obtain ⟨⟨hmcs, _, _, hobs⟩, _⟩ := inferRequest_spec hreq
    have hle : req.mcs.length ≤ req.closeToObstacle.length := (hmcs.trans hobs.symm).le
    rw [hrec, ← hmcs]
    by_cases h4 : req.mcs.length < 4
    · rw [infer_few h4]
      refine iff_of_false ?_ fun h => absurd h.2.1 (by omega)
      rintro ⟨v, reward, h⟩
      cases h
    · have hge : 4 ≤ req.mcs.length := by omega
      cases ht : s.transitionMode with
      | true =>
          obtain ⟨n, hn⟩ := infer_transition (o := o) hge ht hle
          rw [hn]
          refine iff_of_false ?_ fun h => by cases h.1
          rintro ⟨v, reward, h⟩
          cases h
      | false =>
          obtain ⟨mcs, _, _, hinfer⟩ := infer_policy (o := o) hs hge ht hle
          rw [hinfer]
          exact iff_of_true ⟨_, _, rfl⟩ ⟨rfl, hge, hu⟩

theorem contains_of_consulted (hs : s.Ready e) (hn : itf.getUEsNumber = e.numUes)
    {v : Option (List ℤ)} {reward : Dbl}
    (h : s.receive o (S.restReport now itf) = some (.ok (.ppo v reward))) :
    ∃ x, v = some x ∧ e.cls.Contains e.numUes x := by
  obtain ⟨ht, hge, hu⟩ := (consulted_iff hs).mp ⟨v, reward, h⟩
  obtain ⟨req, hreq, hrec⟩ := receive_fin (s := s) (o := o) (S := S) hu
  obtain ⟨⟨hmcs, _, _, hobs⟩, hbounds⟩ := inferRequest_spec hreq
  obtain ⟨mcs, henc, hlen, hinfer⟩ := infer_policy (o := o) hs (hge.trans hmcs.ge) ht
    (hmcs.trans hobs.symm).le
  obtain ⟨modelType, _, hd⟩ := hs.designated
  obtain ⟨htype, hcls⟩ := stateSpace_of_designated hd
  obtain ⟨x, hx, hcontains⟩ := contains_stateVector htype hcls (encodeMcs_bounds henc hbounds)
  rw [hrec, hinfer] at h
  cases h
  rw [hlen, hmcs, hn] at hcontains
  exact ⟨x, hx, hcontains⟩

end reports

end Server

/-! ### How the server gets ready -/

/-- Every environment was constructed with a condition. -/
def Objects.Conditioned (b : Objects) : Prop := b.env ≠ none → b.condition ≠ none

theorem conditioned_of_changes {o : Options} {b b' : Objects} (h : Objects.Changes o b b')
    (hb : b.Conditioned) : b'.Conditioned := by
  refine h.invariant (fun b b' hc hs => ?_) hb
  cases hc with
  | condition => exact fun _ h => by cases h
  | env cls n => exact fun _ h => by cases h
  | learn alg =>
      unfold Objects.Conditioned
      rw [Objects.learn_env, Objects.learn_condition]
      exact hs
  | thread i t => exact hs
  | stop => exact hs

namespace Server

variable {o : Options} {lib : Libraries} {s s' : Server} {req : ConfigureRequest}

theorem envType_of_success {alg : Algorithm} (ha : Algorithm.ofName req.model = some alg)
    (h : s.Configured o lib req s' .success) : s'.envType = req.envType := by
  cases h with
  | continued _ _ _ ht => exact ht
  | noLearner hnone _ _ _ =>
      rw [ha] at hnone
      cases hnone
  | learned _ _ _ _ _ _ ht => exact ht

theorem ready_of_success {alg : Algorithm} (hs : s.objects.Sound) (hc : s.objects.Conditioned)
    (ha : Algorithm.ofName req.model = some alg) (hm : Matches o lib req s)
    (hok : (s.configure o lib req).2 = .success) :
    ∃ e, (s.configure o lib req).1.Ready e ∧ (e.numUes : ℤ) = req.numUes := by
  have hcases := configure_cases o lib req s
  rw [hok] at hcases
  obtain ⟨cls, e, m, hf⟩ := (coherent_iff_matches hs lib req).mpr hm alg ha hok
  have henv : (s.configure o lib req).1.env ≠ none := by rw [hf.env]; exact Option.some_ne_none e
  refine ⟨e, ⟨hf.env, ⟨req.model, modelType_configure s, ?_⟩, ?_, ?_⟩, hf.numUes⟩
  · rw [envType_of_success ha hcases, hf.cls]
    exact hf.designated
  · rw [hf.model]
    exact Option.some_ne_none m
  · exact conditioned_of_changes (changes_configured hcases) hc henv

end Server

namespace Service

/-- **In every run** of the server, a request for PPO or DQN that succeeds in a state that
matches it leaves the server ready for the UEs of the request. -/
theorem ready_of_run (o : Options) (curves : String → List CurveLine) (ops : List ServiceOp)
    {lib : Libraries} {req : ConfigureRequest} {alg : Algorithm}
    (ha : Algorithm.ofName req.model = some alg)
    (hm : Server.Matches o lib req (Runs.exec (step o) (start curves) ops).server)
    (hok : ((Runs.exec (step o) (start curves) ops).server.configure o lib req).2 = .success) :
    ∃ e, ((Runs.exec (step o) (start curves) ops).server.configure o lib req).1.Ready e ∧
      (e.numUes : ℤ) = req.numUes := by
  have hall : Runs.AllSteps (step o) (fun _ _ => True) (start curves) ops :=
    Runs.allSteps_of_forall (fun _ _ => trivial) _ _
  have hsound : (Runs.exec (step o) (start curves) ops).server.objects.Sound :=
    Runs.exec_of_guard (fun s : Service => s.server.objects.Sound)
      (fun _ op hs _ => sound_step hs op) (sound_start curves) hall
  have hcond : (Runs.exec (step o) (start curves) ops).server.objects.Conditioned :=
    Runs.exec_of_guard (fun s : Service => s.server.objects.Conditioned)
      (fun s op hs _ => conditioned_of_changes (changes_step s op) hs) (fun h => absurd rfl h) hall
  exact Server.ready_of_success hsound hcond ha hm hok

end Service

/-- What scheduler and server owe each other for a report to a server with the environment
`e`. -/
structure PolicyContract (o : Options) (s : Server) (e : EnvObject) (r : RestReport) : Prop where
  /-- A report with as many entries as the environment has UEs is answered by the policy. -/
  consults : r.mcs.length = e.numUes → s.transitionMode = false →
    ∃ v reward, s.receive o r = some (.ok (.ppo v reward))
  /-- What the environment or the model is given is an observation. -/
  member : ∀ v reward, s.receive o r = some (.ok (.ppo v reward)) →
    ∃ x, v = some x ∧ e.cls.Contains e.numUes x
  /-- A report with another number of entries is not answered by the policy. -/
  rejects : r.mcs.length ≠ e.numUes → ∀ v reward, s.receive o r ≠ some (.ok (.ppo v reward))

/-- **The report and the policy.** -/
theorem policyContract_iff (o : Options) (S : Scheduler) (now : ℚ) (itf : Ns3DrlInterface)
    {s : Server} {e : EnvObject} (hs : s.Ready e) :
    PolicyContract o s e (S.restReport now itf) ↔ s.transitionMode = true ∨
      if itf.getUEsNumber = e.numUes then 4 ≤ e.numUes ∧ itf.reward ≠ .undef
      else itf.getUEsNumber < 4 ∨ itf.reward = .undef := by
  have hlen : (S.restReport now itf).mcs.length = itf.getUEsNumber := by
    simp [Scheduler.restReport]
  have hconsulted : (∃ v reward, s.receive o (S.restReport now itf) =
      some (.ok (.ppo v reward))) ↔ _ := Server.consulted_iff hs
  by_cases hn : itf.getUEsNumber = e.numUes
  · rw [if_pos hn]
    constructor
    · intro h
      cases ht : s.transitionMode with
      | true => exact Or.inl rfl
      | false =>
          obtain ⟨_, hge, hu⟩ := hconsulted.mp (h.consults (hlen.trans hn) ht)
          exact Or.inr ⟨hge.trans hn.le, hu⟩
    · intro h
      refine ⟨fun _ ht => ?_, fun v reward hv => Server.contains_of_consulted hs hn hv,
        fun hne => absurd (hlen.trans hn) hne⟩
      obtain h | ⟨hge, hu⟩ := h
      · rw [ht] at h
        cases h
      · exact hconsulted.mpr ⟨ht, hge.trans hn.ge, hu⟩
  · rw [if_neg hn]
    have hne : (S.restReport now itf).mcs.length ≠ e.numUes := fun h => hn (hlen.symm.trans h)
    constructor
    · intro h
      by_contra hcon
      push Not at hcon
      obtain ⟨ht, hge, hu⟩ := hcon
      obtain ⟨v, reward, hv⟩ := hconsulted.mpr ⟨by simpa using ht, hge, hu⟩
      exact h.rejects hne v reward hv
    · intro h
      have hno : ∀ v reward, s.receive o (S.restReport now itf) ≠
          some (.ok (.ppo v reward)) := by
        intro v reward hv
        obtain ⟨ht, hge, hu⟩ := hconsulted.mp ⟨v, reward, hv⟩
        obtain h | h | h := h
        · rw [ht] at h
          cases h
        · omega
        · exact hu h
      exact ⟨fun h _ => absurd h hne, fun v reward hv => absurd hv (hno v reward), fun _ => hno⟩

/-- Four reported UEs. -/
def Ns3DrlInterface.fourUes : Ns3DrlInterface :=
  [0, 1, 2, 3].foldl (fun itf (i : ℤ) => itf.updateState i 28 0 0 0 {} 1 1) {}

/-- The server after a first request for PPO and `numUes` UEs. -/
def Server.configuredFor (numUes : ℤ) : Server :=
  ((Service.start fun _ => []).server.configure {} .untrained ⟨"PPO", numUes, "Basic"⟩).1

theorem Server.ready_configuredFor_four :
    (Server.configuredFor 4).Ready ⟨1, .customEnvBasic, 4, 0⟩ :=
  ⟨by decide +kernel, ⟨"PPO", by decide +kernel, by decide +kernel⟩, by decide +kernel,
    by decide +kernel⟩

theorem policyContract_fourUes : PolicyContract {} (.configuredFor 4) ⟨1, .customEnvBasic, 4, 0⟩
    (Scheduler.restReport (.wideband [true]) 0 .fourUes) := by
  refine (policyContract_iff {} _ _ _ Server.ready_configuredFor_four).mpr (Or.inr ?_)
  have hcard : Ns3DrlInterface.fourUes.getUEsNumber = 4 := by decide +kernel
  rw [if_pos hcard]
  exact ⟨le_rfl, by decide +kernel⟩

/-- A server configured for one UE answers the report of this UE with the default settings. -/
theorem not_policyContract_oneUe :
    ¬ ∀ (o : Options) (S : Scheduler) (now : ℚ) (itf : Ns3DrlInterface) (s : Server)
      (e : EnvObject), s.Ready e → PolicyContract o s e (S.restReport now itf) := by
  intro h
  have hready : (Server.configuredFor 1).Ready ⟨1, .customEnvBasic, 1, 0⟩ :=
    ⟨by decide +kernel, ⟨"PPO", by decide +kernel, by decide +kernel⟩, by decide +kernel,
      by decide +kernel⟩
  have hcontract := h {} (.wideband [true]) 0
    (Ns3DrlInterface.updateState {} 0 28 0 0 0 {} 1 1) _ _ hready
  obtain ⟨v, reward, hanswer⟩ := hcontract.consults (by decide +kernel) (by decide +kernel)
  have hdefault : (Server.configuredFor 1).receive {} (Scheduler.restReport (.wideband [true]) 0
      (Ns3DrlInterface.updateState {} 0 28 0 0 0 {} 1 1)) = some (.ok .default) := rfl
  rw [hdefault] at hanswer
  cases hanswer

end Rbis
