import Rbis.Lib.Blocks
import Rbis.Server.Coherence

/-! # The encoding of a UE

The state has one block per component, with an entry for every UE.  For an `env_type` of `ISAC` the
MCS values of the first four UEs are replaced by their obstacle flags, those of the others are
taken as they are; so a report is encoded the same way in every order of the UEs only if there are
four of them, or if the replacement changes no value (`stateEquivariant_iff`). -/

namespace Rbis

open Cxx Fallible

/-- The entries of a UE in the arrays of a report. -/
structure UeEntries where
  mcs : ℤ
  q : ℤ
  g : ℤ
  closeToObstacle : ℤ

/-- The MCS value that replaces `mcs` for an obstacle flag. -/
def flagMcs (flag mcs : ℤ) : ℤ := if flag = 1 then 0 else if flag = 0 then 1 else mcs

theorem flagMcs_eq_iff {flag mcs : ℤ} :
    flagMcs flag mcs = mcs ↔ (flag = 1 → mcs = 0) ∧ (flag = 0 → mcs = 1) := by
  unfold flagMcs
  split
  · omega
  · split
    · omega
    · simp [*]

namespace InferRequest

variable {n : ℕ}

/-- The report about the UEs. -/
def ofUes (ue : Fin n → UeEntries) (reward : Dbl) : InferRequest where
  mcs := List.ofFn fun i => (ue i).mcs
  q := List.ofFn fun i => (ue i).q
  g := List.ofFn fun i => (ue i).g
  closeToObstacle := List.ofFn fun i => (ue i).closeToObstacle
  reward := reward

theorem hasLength_iff {req : InferRequest} :
    req.HasLength n ↔ ∃ ue : Fin n → UeEntries, req = ofUes ue req.reward := by
  constructor
  · rintro ⟨rfl, hq, hg, ho⟩
    refine ⟨fun i => ⟨req.mcs[i], req.q[i], req.g[i], req.closeToObstacle[i]⟩, ?_⟩
    have hlist : ∀ (l : List ℤ) (h : l.length = req.mcs.length),
        l = List.ofFn fun i : Fin req.mcs.length => l[i] := by
      intro l h
      refine List.ext_getElem (by simp [h]) fun i h1 h2 => ?_
      simp
    obtain ⟨mcs, q, g, obs, reward⟩ := req
    unfold ofUes
    simp only [mk.injEq, and_true]
    exact ⟨hlist mcs rfl, hlist q hq, hlist g hg, hlist obs ho⟩
  · rintro ⟨ue, h⟩
    rw [h]
    exact ⟨List.length_ofFn, List.length_ofFn, List.length_ofFn, List.length_ofFn⟩

/-- The state vector that `infer_sched_config` builds. -/
def state (envType : String) (req : InferRequest) : Except ServerError (Option (List ℤ)) :=
  (encodeMcs envType req).map (stateVector envType)

end InferRequest

/-- The learner is asked for an answer to this state. -/
theorem Server.infer_state {o : Options} {req : InferRequest} {s s' : Server}
    {state : Option (List ℤ)} {reward : Dbl}
    (h : s.infer o req = (s', .ok (.ppo state reward))) : req.state s.envType = .ok state := by
  have hanswer : ∀ {mcs : List ℤ} {t : Server},
      t.answerOf o mcs req.reward = .ok (.ppo state reward) →
        stateVector t.envType mcs = state := by
    intro mcs t ht
    unfold answerOf at ht
    split at ht
    · unfold consult at ht
      split at ht
      · cases ht
      · cases ht
      · split at ht
        · cases ht
        · cases ht
          rfl
    · split at ht
      · cases ht
      · split at ht <;> cases ht
  unfold infer at h
  split at h
  · cases h
  · unfold InferRequest.state
    cases hmcs : encodeMcs s.envType req with
    | error e => simp [hmcs] at h
    | ok mcs =>
        simp only [hmcs] at h
        split at h
        · simp [inferTransition] at h
        · unfold inferTrain at h
          split at h
          · cases h
          · exact congrArg Except.ok (hanswer (congrArg Prod.snd h))

/-! ### The encoding by positions -/

variable {n : ℕ}

theorem encodeMcsAt_eq {obs mcs : List ℤ} {i : ℕ} (hi : i < mcs.length) {flag : ℤ}
    (h : obs[i]? = some flag) :
    encodeMcsAt obs mcs i = .ok (mcs.set i (flagMcs flag mcs[i])) := by
  unfold encodeMcsAt flagMcs
  rw [if_pos hi, h]
  dsimp only
  split
  · rfl
  · split
    · rfl
    · rw [List.set_getElem_self]

theorem encodeMcsAt_ofFn (o m : Fin n → ℤ) (i : ℕ) :
    encodeMcsAt (List.ofFn o) (List.ofFn m) i =
      .ok (List.ofFn fun j => if (j : ℕ) = i then flagMcs (o j) (m j) else m j) := by
  by_cases hi : i < n
  · have hlen : i < (List.ofFn m).length := by rw [List.length_ofFn]; exact hi
    have hflag : (List.ofFn o)[i]? = some (o ⟨i, hi⟩) := by rw [List.getElem?_ofFn, dif_pos hi]
    rw [encodeMcsAt_eq hlen hflag]
    refine congrArg Except.ok (List.ext_getElem (by simp) fun j h1 h2 => ?_)
    simp only [List.getElem_set, List.getElem_ofFn]
    by_cases hj : i = j
    · simp [hj]
    · simp [hj, Ne.symm hj]
  · have hout : ∀ j : Fin n, (j : ℕ) ≠ i := fun j => by omega
    unfold encodeMcsAt
    rw [List.length_ofFn, if_neg hi]
    simp only [hout, if_false]

theorem flagMcs_flagMcs (flag mcs : ℤ) : flagMcs flag (flagMcs flag mcs) = flagMcs flag mcs := by
  unfold flagMcs
  split
  · rfl
  · split <;> rfl

theorem foldlM_encodeMcsAt (o : Fin n → ℤ) (l : List ℕ) (m : Fin n → ℤ) :
    l.foldlM (encodeMcsAt (List.ofFn o)) (List.ofFn m) =
      .ok (List.ofFn fun j => if (j : ℕ) ∈ l then flagMcs (o j) (m j) else m j) := by
  induction l generalizing m with
  | nil => simp
  | cons i l ih =>
      rw [List.foldlM_cons, encodeMcsAt_ofFn, ok_bind, ih]
      refine congrArg Except.ok (congrArg List.ofFn (funext fun j => ?_))
      by_cases hi : (j : ℕ) = i
      · simp only [if_pos hi, flagMcs_flagMcs, ite_self, if_pos (List.mem_cons.mpr (Or.inl hi))]
      · simp only [hi, if_false, List.mem_cons, false_or]

/-- The components that a UE gives to the state at position `i`: only the MCS value is used. -/
def encodeUe (envType : String) (k : ℕ) (i : ℕ) (ue : UeEntries) (c : Fin k) : ℤ :=
  if (c : ℕ) = 0 then
    if envType = "ISAC" ∧ i < 4 then flagMcs ue.closeToObstacle ue.mcs else ue.mcs
  else 0

/-- The number of blocks of the state. -/
def stateBlocks (envType : String) : ℕ := if envType = "ISAC" then 4 else 3

theorem stateVector_ofFn {envType : String} (htype : envType = "ISAC" ∨ envType = "Basic")
    (m : Fin n → ℤ) : stateVector envType (List.ofFn m) =
      some (Blocks.join fun i (c : Fin (stateBlocks envType)) => if (c : ℕ) = 0 then m i else 0) := by
  have hjoin : ∀ k, Blocks.join (fun i (c : Fin (k + 1)) => if (c : ℕ) = 0 then m i else 0) =
      List.ofFn m ++ (List.replicate k (List.replicate n 0)).flatten := by
    intro k
    rw [Blocks.join_succ]
    refine congrArg (List.ofFn m ++ ·) ?_
    simp [Blocks.join, List.ofFn_const]
  obtain rfl | rfl := htype
  · refine Eq.trans ?_ (congrArg some (hjoin 3)).symm
    simp [stateVector, List.replicate_succ, Nat.add_assoc]
  · refine Eq.trans ?_ (congrArg some (hjoin 2)).symm
    simp [stateVector, List.replicate_succ]

/-- **The state** of a report. -/
theorem state_ofUes {envType : String} (htype : envType = "ISAC" ∨ envType = "Basic")
    (ue : Fin n → UeEntries) (reward : Dbl) :
    (InferRequest.ofUes ue reward).state envType = .ok (some
      (Blocks.join fun i => encodeUe envType (stateBlocks envType) i (ue i))) := by
  have hmcs : encodeMcs envType (.ofUes ue reward) = .ok (List.ofFn fun i =>
      if envType = "ISAC" ∧ (i : ℕ) < 4 then flagMcs (ue i).closeToObstacle (ue i).mcs
      else (ue i).mcs) := by
    unfold encodeMcs
    obtain rfl | rfl := htype
    · rw [if_pos (Or.inl rfl)]
      refine (foldlM_encodeMcsAt _ _ _).trans (congrArg Except.ok (congrArg List.ofFn ?_))
      funext i
      have hmem : (i : ℕ) ∈ [0, 1, 2, 3] ↔ (i : ℕ) < 4 := by
        simp only [List.mem_cons, List.not_mem_nil, or_false]
        omega
      simp only [hmem, true_and]
    · rw [if_neg (by decide)]
      exact congrArg Except.ok (congrArg List.ofFn (funext fun i => (if_neg (by simp)).symm))
  unfold InferRequest.state
  rw [hmcs]
  exact congrArg Except.ok (stateVector_ofFn htype _)

/-- **What the learner is asked.** A report with an entry per UE in every array reaches it as one
block per component. -/
theorem Server.infer_blocks {o : Options} {req : InferRequest} {s s' : Server}
    {state : Option (List ℤ)} {reward : Dbl} (htype : s.envType = "ISAC" ∨ s.envType = "Basic")
    (hreq : req.HasLength n) (h : s.infer o req = (s', .ok (.ppo state reward))) :
    ∃ ue : Fin n → UeEntries, req = .ofUes ue req.reward ∧ state = some
      (Blocks.join fun i => encodeUe s.envType (stateBlocks s.envType) i (ue i)) := by
  obtain ⟨ue, hue⟩ := InferRequest.hasLength_iff.mp hreq
  refine ⟨ue, hue, ?_⟩
  have hstate := Server.infer_state h
  rw [hue, state_ofUes htype] at hstate
  exact (Except.ok.inj hstate).symm

/-! ### Permuting the UEs -/

/-- For every order of the UEs, the state of the report in this order is the state of the report
with each of its blocks in this order. -/
def StateEquivariant (envType : String) (ue : Fin n → UeEntries) (reward : Dbl) : Prop :=
  ∀ π : Equiv.Perm (Fin n), (InferRequest.ofUes (ue ∘ π) reward).state envType =
    ((InferRequest.ofUes ue reward).state envType).map
      (Option.map (Blocks.permute π (stateBlocks envType)))

/-- All UEs are encoded by one function of their entries, in every report about `n` UEs. -/
def EncodedAlike (n : ℕ) (envType : String) : Prop :=
  ∃ f : UeEntries → Fin (stateBlocks envType) → ℤ, ∀ (ue : Fin n → UeEntries) (reward : Dbl),
    (InferRequest.ofUes ue reward).state envType = .ok (some (Blocks.join (f ∘ ue)))

/-- The replacement does not change the MCS value. -/
def UeEntries.Unchanged (ue : UeEntries) : Prop :=
  (ue.closeToObstacle = 1 → ue.mcs = 0) ∧ (ue.closeToObstacle = 0 → ue.mcs = 1)

theorem encodeUe_eq_iff {envType : String} {i j : ℕ} {ue : UeEntries} :
    encodeUe envType (stateBlocks envType) i ue = encodeUe envType (stateBlocks envType) j ue ↔
      (envType = "ISAC" → (i < 4 ↔ j < 4) ∨ ue.Unchanged) := by
  have hpos : 0 < stateBlocks envType := by
    unfold stateBlocks
    split <;> omega
  have hfirst : encodeUe envType (stateBlocks envType) i ue =
        encodeUe envType (stateBlocks envType) j ue ↔
      (if envType = "ISAC" ∧ i < 4 then flagMcs ue.closeToObstacle ue.mcs else ue.mcs) =
        if envType = "ISAC" ∧ j < 4 then flagMcs ue.closeToObstacle ue.mcs else ue.mcs := by
    constructor
    · intro h
      exact congrFun h ⟨0, hpos⟩
    · intro h
      funext c
      unfold encodeUe
      rw [h]
  rw [hfirst]
  unfold UeEntries.Unchanged
  rw [← flagMcs_eq_iff]
  by_cases htype : envType = "ISAC"
  · by_cases hi : i < 4
    · by_cases hj : j < 4
      · simp [htype, hi, hj]
      · simp [htype, hi, hj]
    · by_cases hj : j < 4
      · simp [htype, hi, hj, eq_comm]
      · simp [htype, hi, hj]
  · simp [htype]

theorem stateEquivariant_iff_encodeUe {envType : String} (htype : envType = "ISAC" ∨ envType = "Basic")
    (ue : Fin n → UeEntries) (reward : Dbl) : StateEquivariant envType ue reward ↔
      ∀ i j : Fin n, encodeUe envType (stateBlocks envType) i (ue j) =
        encodeUe envType (stateBlocks envType) j (ue j) := by
  rw [← Blocks.equivariant_iff fun i : Fin n => encodeUe envType (stateBlocks envType) i]
  refine forall_congr' fun π => ?_
  rw [state_ofUes htype, state_ofUes htype]
  simp [Except.map]

theorem encodedAlike_iff_encodeUe [Nonempty (Fin n)] {envType : String}
    (htype : envType = "ISAC" ∨ envType = "Basic") : EncodedAlike n envType ↔
      ∀ (i j : Fin n) (ue : UeEntries), encodeUe envType (stateBlocks envType) i ue =
        encodeUe envType (stateBlocks envType) j ue := by
  rw [← Blocks.exists_uniform_iff fun i : Fin n => encodeUe envType (stateBlocks envType) i]
  refine exists_congr fun f => forall_congr' fun ue => ?_
  simp only [state_ofUes htype, Except.ok.injEq, Option.some.injEq]
  exact ⟨fun h => h .undef, fun h _ => h⟩

theorem forall_positions_iff (hn : 4 ≤ n) {P : Fin n → Prop} :
    (∀ i j : Fin n, ((i : ℕ) < 4 ↔ (j : ℕ) < 4) ∨ P j) ↔ n = 4 ∨ ∀ j, P j := by
  constructor
  · intro h
    by_contra hcon
    obtain ⟨hne, hP⟩ := not_or.mp hcon
    refine hP fun j => ?_
    by_cases hj : (j : ℕ) < 4
    · have hlt : 4 < n := by omega
      refine (h ⟨4, hlt⟩ j).resolve_left fun hiff => ?_
      exact absurd (hiff.mpr hj) (lt_irrefl 4)
    · have hlt : 0 < n := by omega
      refine (h ⟨0, hlt⟩ j).resolve_left fun hiff => hj (hiff.mp ?_)
      exact Nat.zero_lt_succ 3
  · rintro (rfl | hP) i j
    · exact Or.inl ⟨fun _ => j.isLt, fun _ => i.isLt⟩
    · exact Or.inr (hP j)

/-- **The encoding is symmetric in the UEs** of a report exactly if the `env_type` is `Basic`, the
report is about four UEs, or the replacement changes the value of none; in all the reports about
`n` UEs, exactly if the `env_type` is `Basic` or `n` is four. -/
theorem stateEquivariant_iff (hn : 4 ≤ n) {envType : String}
    (htype : envType = "ISAC" ∨ envType = "Basic") :
    (∀ (ue : Fin n → UeEntries) (reward : Dbl), StateEquivariant envType ue reward ↔
      envType = "Basic" ∨ n = 4 ∨ ∀ i, (ue i).Unchanged) ∧
    (EncodedAlike n envType ↔ envType = "Basic" ∨ n = 4) := by
  have hbasic : ∀ {Q : Prop}, (envType = "Basic" ∨ Q) ↔ (envType = "ISAC" → Q) := by
    intro Q
    obtain rfl | rfl := htype
    · simp
    · simp
  constructor
  · intro ue reward
    rw [stateEquivariant_iff_encodeUe htype, hbasic, ← forall_positions_iff hn]
    simp only [encodeUe_eq_iff]
    exact ⟨fun h hisac i j => h i j hisac, fun h i j hisac => h hisac i j⟩
  · have hnonempty : Nonempty (Fin n) := ⟨⟨0, by omega⟩⟩
    rw [encodedAlike_iff_encodeUe htype, hbasic]
    simp only [encodeUe_eq_iff]
    have hsome : ¬ ∀ ue : UeEntries, ue.Unchanged := fun h =>
      absurd ((h ⟨2, 0, 0, 1⟩).1 rfl) (by decide)
    have hall := forall_positions_iff hn (P := fun _ => ∀ ue : UeEntries, ue.Unchanged)
    simp only [hsome, or_false, forall_const] at hall
    rw [← hall]
    constructor
    · intro h hisac i j
      by_contra hne
      exact hsome fun ue => (h i j ue hisac).resolve_left hne
    · exact fun h i j ue hisac => Or.inl (h hisac i j)

/-- Five UEs: for `Basic` their order does not matter, for `ISAC` it does. -/
theorem stateEquivariant_iff_fiveUes :
    StateEquivariant "Basic" (fun i : Fin 5 => ⟨2, i, 0, 1⟩) .undef ∧ ¬ EncodedAlike 5 "ISAC" := by
  refine ⟨((stateEquivariant_iff (by decide) (Or.inr rfl)).1 _ _).mpr (Or.inl rfl), fun h => ?_⟩
  exact absurd ((stateEquivariant_iff (by decide) (Or.inl rfl)).2.mp h) (by decide)

/-- Five UEs with the same entries, close to an obstacle: the first four are encoded as `0`, the
fifth keeps its `2`, so that exchanging the last two changes the blocks but not the report. -/
theorem not_stateEquivariant_fiveUes :
    ¬ StateEquivariant "ISAC" (fun _ : Fin 5 => ⟨2, 0, 0, 1⟩) .undef := by
  intro h
  exact absurd (h (Equiv.swap 3 4)) (by decide +kernel)

end Rbis
