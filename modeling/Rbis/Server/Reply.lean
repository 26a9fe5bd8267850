import Mathlib.Data.Nat.Pairing
import Rbis.Server.Answer
import Rbis.Server.Service

/-! # The reply to a request

A body that does not fit `InferRequest` is refused before the handler runs.  The handler answers
at once, save for a learner in training: there `ppo` notifies a thread that waits in `env.step` and
waits itself until the thread has gone on and has given back the lock.  Without such a thread it
waits forever, since nobody else notifies the condition and the event loop handles no other
request (`responds_iff`). -/

namespace Rbis

open Cxx Fallible

/-- What a request is answered with. -/
inductive Response where
  /-- The status 422: a reward that is no number is `null` in the body. -/
  | refused
  | returned (r : Except ServerError (Option Settings))

/-- The moves after a request: every thread and the handler go on again and again. -/
structure Schedule where
  op : ℕ → ServiceOp
  thread : ∀ i n, ∃ m, n ≤ m ∧ ∃ raises, op m = .thread i raises
  answer : ∀ n, ∃ m, n ≤ m ∧ op m = .answer

/-- The handler and all threads in turn. -/
def Schedule.inTurn : Schedule where
  op n := if n.unpair.1 = 0 then .answer else .thread (n.unpair.1 - 1) false
  thread i n := by
    refine ⟨Nat.pair (i + 1) n, Nat.right_le_pair _ _, false, ?_⟩
    simp
  answer n := by
    refine ⟨Nat.pair 0 n, Nat.right_le_pair _ _, ?_⟩
    simp

namespace Service

variable (o : Options) (x : Surroundings)

/-- What the handler of a request returns, as soon as the event loop is free again. -/
def settle (numMcs : ℕ) (branch : Except ServerError Branch) (s : Service) :
    List ServiceOp → Option Response
  | [] =>
      if s.loop = .free then some (.returned (branch >>= s.server.returned o x numMcs)) else none
  | op :: ops =>
      if s.loop = .free then some (.returned (branch >>= s.server.returned o x numMcs))
      else settle numMcs branch (s.step o op) ops

/-- What the request is answered with in the course of the moves; `none` while it is not. -/
def reply (req : InferRequest) (s : Service) (ops : List ServiceOp) : Option Response :=
  if req.reward = .undef then some .refused
  else settle o x req.mcs.length (s.server.infer o req).2 (s.onInfer o req) ops

/-- Whatever the order of the moves, the request is answered, and the answer meets `P`. -/
def Responds (req : InferRequest) (s : Service) (P : Response → Prop) : Prop :=
  ∀ σ : Schedule, ∃ n r, s.reply o x req (Runs.upTo σ.op n) = some r ∧ P r

/-- What `infer_sched_config` returns to the request. -/
def answerTo (req : InferRequest) (s : Service) : Except ServerError (Option Settings) :=
  (s.server.infer o req).2 >>= s.server.returned o x req.mcs.length

/-- The handler calls `ppo` in training. -/
def Consults (o : Options) (branch : Except ServerError Branch) : Prop :=
  o.predict = false ∧ ∃ state reward, branch = .ok (.ppo state reward)

variable {o x} {req : InferRequest} {s : Service}

/-! ### The server while a request is handled -/

theorem loop_of_consults (h : Consults o (s.server.infer o req).2) :
    (s.onInfer o req).loop = .waiting s.server.waitingThreads := by
  obtain ⟨hp, state, reward, hb⟩ := h
  have heq : s.server.infer o req = ((s.server.infer o req).1, .ok (.ppo state reward)) :=
    Prod.ext rfl hb
  have hsame : (s.server.infer o req).1.waitingThreads = s.server.waitingThreads := by
    obtain ⟨_, _, _, _, _, hframe⟩ := s.server.infer_frame o req
    rw [hframe]
    rfl
  unfold onInfer
  rw [heq]
  simp [hp, hsame]

theorem loop_of_not_consults (hs : s.loop = .free) (h : ¬ Consults o (s.server.infer o req).2) :
    (s.onInfer o req).loop = .free := by
  unfold onInfer
  split
  · next heq =>
      cases hp : o.predict with
      | true => rfl
      | false => exact absurd ⟨hp, _, _, congrArg Prod.snd heq⟩ h
  · exact hs

/-- While the event loop is busy, the operations only change the threads. -/
theorem server_of_busy (hs : s.loop ≠ .free) (op : ServiceOp) :
    ∃ threads, (s.step o op).server = { s.server with threads := threads } := by
  cases op with
  | configure lib req => exact ⟨_, by rw [step, if_neg hs]⟩
  | infer req => exact ⟨_, by rw [step, if_neg hs]⟩
  | stopTraining => exact ⟨_, by rw [step, if_neg hs]⟩
  | thread i raises =>
      simp only [step, onThread]
      split
      · exact ⟨_, rfl⟩
      · split
        · split
          · exact ⟨_, rfl⟩
          · exact ⟨_, rfl⟩
        · exact ⟨_, rfl⟩
      · exact ⟨_, rfl⟩
  | answer =>
      simp only [step]
      split
      · exact ⟨_, rfl⟩
      · exact ⟨_, rfl⟩

theorem returned_of_busy (hs : s.loop ≠ .free) (op : ServiceOp) (k : ℕ) (b : Branch) :
    (s.step o op).server.returned o x k b = s.server.returned o x k b := by
  obtain ⟨threads, h⟩ := server_of_busy (o := o) hs op
  rw [h]
  cases b with
  | _ => rfl

theorem returned_onInfer (k : ℕ) (b : Branch) :
    (s.onInfer o req).server.returned o x k b = s.server.returned o x k b := by
  obtain ⟨_, _, _, _, _, h⟩ := s.server.infer_frame o req
  rw [server_onInfer, h]
  cases b with
  | _ => rfl

theorem settle_eq {k : ℕ} {branch : Except ServerError Branch} {ops : List ServiceOp}
    {r : Response} (h : settle o x k branch s ops = some r) :
    r = .returned (branch >>= s.server.returned o x k) := by
  induction ops generalizing s with
  | nil =>
      unfold settle at h
      split at h
      · exact (Option.some.inj h).symm
      · cases h
  | cons op ops ih =>
      unfold settle at h
      split at h
      · exact (Option.some.inj h).symm
      · next hbusy =>
          rw [ih h]
          exact congrArg Response.returned (bind_congr fun b => returned_of_busy hbusy op k b)

theorem exists_settle_of_free {k : ℕ} {branch : Except ServerError Branch} {ops : List ServiceOp}
    (h : (Runs.exec (step o) s ops).loop = .free) : ∃ r, settle o x k branch s ops = some r := by
  induction ops generalizing s with
  | nil => exact ⟨_, if_pos h⟩
  | cons op ops ih =>
      unfold settle
      split
      · exact ⟨_, rfl⟩
      · exact ih h

theorem reply_eq (hr : req.reward ≠ .undef) {ops : List ServiceOp} {r : Response}
    (h : s.reply o x req ops = some r) : r = .returned (s.answerTo o x req) := by
  unfold reply at h
  rw [if_neg hr] at h
  rw [settle_eq h]
  exact congrArg Response.returned (bind_congr fun b => returned_onInfer _ b)

/-! ### The wait -/

/-- The handler waits, and so do the threads that heard it. -/
structure Waits (heard : List ℕ) (s : Service) : Prop where
  loop : s.loop = .waiting heard
  threads : ∀ i ∈ heard, ∃ c m env left, s.server.threads[i]? = some (.learning c m env left)

theorem waits_of_consults (h : Consults o (s.server.infer o req).2) :
    Waits s.server.waitingThreads (s.onInfer o req) := by
  refine ⟨loop_of_consults h, fun i hi => ?_⟩
  obtain ⟨_, _, _, _, _, hframe⟩ := s.server.infer_frame o req
  rw [server_onInfer, hframe]
  obtain ⟨_, hlearning⟩ := List.mem_filter.mp hi
  dsimp only
  split at hlearning
  · next heq => exact ⟨_, _, _, _, heq⟩
  · cases hlearning

theorem onThread_of_heard {heard : List ℕ} (hs : Waits heard s) {i : ℕ} (hi : i ∈ heard)
    (raises : Bool) : (s.onThread o i raises).loop = .notified := by
  obtain ⟨c, m, env, left, ht⟩ := hs.threads i hi
  unfold onThread
  rw [ht, hs.loop]
  dsimp only
  rw [if_pos hi]

theorem waits_onThread {heard : List ℕ} (hs : Waits heard s) {i : ℕ} (hi : i ∉ heard)
    (raises : Bool) : Waits heard (s.onThread o i raises) := by
  have hset : ∀ t, Waits heard { s with server := s.server.setThread i t } := by
    refine fun t => ⟨hs.loop, fun j hj => ?_⟩
    have hne : i ≠ j := fun h => hi (h ▸ hj)
    obtain ⟨c, m, env, left, ht⟩ := hs.threads j hj
    exact ⟨c, m, env, left, (List.getElem?_set_ne hne).trans ht⟩
  unfold onThread
  split
  · exact hset _
  · rw [hs.loop]
    dsimp only
    rw [if_neg hi]
    exact hs
  · exact hs

/-- **Step lemma.** -/
theorem waits_step {heard : List ℕ} (hs : Waits heard s) (op : ServiceOp) :
    Waits heard (s.step o op) ∨ (s.step o op).loop = .notified := by
  have hbusy : s.loop ≠ .free := by rw [hs.loop]; exact nofun
  have hdeaf : s.loop ≠ .notified := by rw [hs.loop]; exact nofun
  cases op with
  | configure lib req => rw [step, if_neg hbusy]; exact Or.inl hs
  | infer req => rw [step, if_neg hbusy]; exact Or.inl hs
  | stopTraining => rw [step, if_neg hbusy]; exact Or.inl hs
  | thread i raises =>
      by_cases hi : i ∈ heard
      · exact Or.inr (onThread_of_heard hs hi raises)
      · exact Or.inl (waits_onThread hs hi raises)
  | answer => rw [step, if_neg hdeaf]; exact Or.inl hs

theorem waits_forever (hs : Waits [] s) (ops : List ServiceOp) :
    Waits [] (Runs.exec (step o) s ops) := by
  induction ops generalizing s with
  | nil => exact hs
  | cons op ops ih =>
      refine ih ?_
      cases op with
      | thread i raises => exact waits_onThread hs (List.not_mem_nil) raises
      | _ =>
          refine (waits_step (o := o) hs _).resolve_right ?_
          simp [step, hs.loop]

theorem settle_of_waits_forever {k : ℕ} {branch : Except ServerError Branch} (hs : Waits [] s)
    (ops : List ServiceOp) : settle o x k branch s ops = none := by
  induction ops generalizing s with
  | nil =>
      unfold settle
      rw [if_neg (by rw [hs.loop]; exact nofun)]
  | cons op ops ih =>
      unfold settle
      rw [if_neg (by rw [hs.loop]; exact nofun)]
      exact ih (waits_forever hs [op])

theorem notified_step (hs : s.loop = .notified) (op : ServiceOp) :
    (s.step o op).loop = .notified ∨ (s.step o op).loop = .free := by
  have hbusy : s.loop ≠ .free := by rw [hs]; exact nofun
  cases op with
  | configure lib req => rw [step, if_neg hbusy]; exact Or.inl hs
  | infer req => rw [step, if_neg hbusy]; exact Or.inl hs
  | stopTraining => rw [step, if_neg hbusy]; exact Or.inl hs
  | thread i raises =>
      simp only [step, onThread]
      split
      · exact Or.inl hs
      · rw [hs]
        exact Or.inl hs
      · exact Or.inl hs
  | answer => rw [step, if_pos hs]; exact Or.inr rfl

/-- **Liveness.** With a thread that heard the handler, the event loop is free again at some
point of every schedule. -/
theorem free_of_heard {heard : List ℕ} (hs : Waits heard s) {i : ℕ} (hi : i ∈ heard)
    (σ : Schedule) : ∃ n, (Runs.exec (step o) s (Runs.upTo σ.op n)).loop = .free := by
  have hstart : Waits heard (Runs.exec (step o) s (Runs.upTo σ.op 0)) := hs
  obtain ⟨m, -, hm⟩ := Runs.leadsTo (step o) (P := Waits heard)
    (Q := fun t => t.loop = .notified) (fun op => ∃ raises, op = .thread i raises)
    (fun t op ht => waits_step ht op)
    (fun t op ht hop => by obtain ⟨raises, rfl⟩ := hop; exact onThread_of_heard ht hi raises)
    (σ.thread i) hstart
  obtain ⟨n, -, hn⟩ := Runs.leadsTo (step o) (P := fun t => t.loop = .notified)
    (Q := fun t => t.loop = .free) (fun op => op = .answer) (fun t op ht => notified_step ht op)
    (fun t op ht hop => by rw [hop, step, if_pos ht]) σ.answer hm
  exact ⟨n, hn⟩

/-- **The reply to a request.** It is an answer exactly if the body fits, and if a thread waits
for the handler in case it calls `ppo` in training. -/
theorem responds_iff (hs : s.loop = .free) {P : Response → Prop} :
    s.Responds o x req P ↔
      if req.reward = .undef then P .refused
      else (Consults o (s.server.infer o req).2 → s.server.waitingThreads ≠ []) ∧
        P (.returned (s.answerTo o x req)) := by
  by_cases hr : req.reward = .undef
  · rw [if_pos hr]
    have hreply : ∀ ops, s.reply o x req ops = some .refused := fun ops => if_pos hr
    constructor
    · intro h
      obtain ⟨n, r, hn, hP⟩ := h .inTurn
      rw [hreply] at hn
      cases hn
      exact hP
    · exact fun hP σ => ⟨0, .refused, hreply _, hP⟩
  · rw [if_neg hr]
    constructor
    · intro h
      obtain ⟨n, r, hn, hP⟩ := h .inTurn
      refine ⟨fun hc hnil => ?_, by rw [← reply_eq hr hn]; exact hP⟩
      have hwaits := waits_of_consults hc
      rw [hnil] at hwaits
      rw [reply, if_neg hr, settle_of_waits_forever hwaits] at hn
      cases hn
    · rintro ⟨hheard, hP⟩ σ
      have hfree : ∃ n, (Runs.exec (step o) (s.onInfer o req) (Runs.upTo σ.op n)).loop = .free := by
        by_cases hc : Consults o (s.server.infer o req).2
        · obtain ⟨i, hi⟩ := List.exists_mem_of_ne_nil _ (hheard hc)
          exact free_of_heard (waits_of_consults hc) hi σ
        · exact ⟨0, loop_of_not_consults hs hc⟩
      obtain ⟨n, hn⟩ := hfree
      obtain ⟨r, hsettle⟩ := exists_settle_of_free (x := x) hn
      have hreply : s.reply o x req (Runs.upTo σ.op n) = some r := (if_neg hr).trans hsettle
      exact ⟨n, r, hreply, by rw [reply_eq hr hreply]; exact hP⟩

end Service

end Rbis
