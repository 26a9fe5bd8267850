import Rbis.Sched.CallFrame

/-! # Drift-plus-penalty admission

The flag `lyapunov` says whether the UE at the iterator may receive resources.  It is computed
before `AdvanceToNextUeToSchedule` moves the iterator, so that after a move it belongs to
another UE than the one that is served.  The call gives RBGs to admitted UEs only exactly if
no such stale flag serves a UE that is not admitted (`admissionRespected_iff`).

RBGs are added to a UE in the serving loop only (`step_grows`): the fronthaul control frees
RBGs, and the other parts of the call do not touch `m_dlRBG`. -/

namespace Rbis

open Cxx Fallible

/-- Every RBG is given to a UE whose weight is at most `-V`, and a UE whose weight is above
`-V` ends the call with no RBG. -/
structure AdmissionRespected (S : Scheduler) (now : ℚ) (i : SlotStart) : Prop where
  grants : ∀ st beamSym s, S.LoopEntry now i st beamSym s →
    ∀ t, Orbit.Reaches (S.step st beamSym) s t → ∀ p,
      (t.alloc.ues p).dlRBG.length < ((S.step st beamSym t).alloc.ues p).dlRBG.length →
        (t.alloc.ues p).admitted st = true
  final : ∀ w' symPerBeam, S.assignDLRBG now i.world i.symAvail i.activeDl = .ok (w', symPerBeam) →
    ∀ el ∈ i.activeDl, ∀ ue ∈ el.2,
      Dbl.lt (.fin (-w'.statics.vLyapunov)) (w'.ues ue.1).k = true → (w'.ues ue.1).dlRBG = []

/-- The flag, computed as true for the UE at the iterator, is about to serve another UE that is
not admitted: the UE at the iterator is passed over, and the next UE to schedule, whose weight
is not at most `-V`, can take an RBG. -/
def StaleGrant (S : Scheduler) (st : DppaStatics) (beamSym : ℕ) (t : BeamState) : Prop :=
  0 < beamSym ∧ ∃ prevRemaining ue b, t.pc = .serve prevRemaining true ∧
    t.schedInfoIt < S.nextIt beamSym t ∧ t.ueVector[S.nextIt beamSym t]? = some ue ∧
    (t.ueOf ue).admitted st = false ∧
    S.attemptAllocationOfCurrentResourceToUe ue.1 beamSym t.alloc = .ok (true, b)

namespace Scheduler

variable {S : Scheduler} {st : DppaStatics} {beamSym : ℕ}

/-- The UE `ue` takes an RBG in the next step. -/
def Serves (S : Scheduler) (beamSym : ℕ) (t : BeamState) (ue : UePtrAndBufferReq) : Prop :=
  0 < beamSym ∧ ∃ prevRemaining b, t.pc = .serve prevRemaining true ∧
    t.ueVector[S.nextIt beamSym t]? = some ue ∧
    S.attemptAllocationOfCurrentResourceToUe ue.1 beamSym t.alloc = .ok (true, b)

theorem length_extended (u : UeInfo) (rbg beamSym tb : ℕ) :
    (u.extended rbg beamSym tb).dlRBG.length = u.dlRBG.length + beamSym := by
  simp [UeInfo.extended]

/-- **The heap after a step**: unchanged, or with an RBG given to the UE the iterator comes to, or
without the RBGs of the UE reaped. -/
theorem step_ues {t : BeamState} (h : BeamInv S st beamSym t) :
    (S.step st beamSym t).alloc.ues = t.alloc.ues ∨
      (∃ ue prevRemaining b rbg tb, t.pc = .serve prevRemaining true ∧
        t.ueVector[S.nextIt beamSym t]? = some ue ∧
        S.attemptAllocationOfCurrentResourceToUe ue.1 beamSym t.alloc = .ok (true, b) ∧
        S.MetricOk ((t.ueOf ue).extended rbg beamSym tb) ∧ (S.step st beamSym t).alloc.ues =
          Function.update t.alloc.ues ue.1 ((t.ueOf ue).extended rbg beamSym tb)) ∨
      ∃ ue, t.pc = .reap ∧ S.reapVictim t = some ue ∧ (S.step st beamSym t).alloc.ues =
        Function.update t.alloc.ues ue.1 ((t.ueOf ue).withAlloc [] [] 0) := by
  obtain ⟨pc, hstep⟩ | ⟨prevRemaining, lyapunov, hs⟩ | hs := step_cases S st beamSym t
  · rw [hstep]
    exact Or.inl rfl
  · obtain ⟨r, hserve, hstep⟩ := h.step_serve_cases hs
    rw [hstep]
    cases hserve with
    | leave it hit h => exact Or.inl rfl
    | throws f hf => exact Or.inl rfl
    | granted it ue b rbg tb hit hue hlyap hatt hg =>
        exact Or.inr (Or.inl ⟨ue, prevRemaining, b, rbg, tb, by rw [hs, hlyap], hit ▸ hue, hatt,
          hg.metric, hg.ues⟩)
    | lastFailed it b hit hlast hb => exact Or.inl hb.ues
    | failed it ue b hit hue hb => exact Or.inl hb.ues
  · obtain ⟨r, hreap, hstep⟩ := h.step_reap_cases hs
    rw [hstep]
    cases hreap with
    | done h => exact Or.inl rfl
    | popped ue c hv hlast hc hl => exact Or.inr (Or.inr ⟨ue, hs, hv, hc.ues⟩)

theorem step_metric {t : BeamState} (h : BeamInv S st beamSym t) {p : UePtr}
    (hp : S.MetricOk (t.alloc.ues p)) : S.MetricOk ((S.step st beamSym t).alloc.ues p) := by
  obtain hsame | ⟨ue, _, _, rbg, tb, _, _, _, hmetric, hues⟩ | ⟨ue, _, _, hues⟩ := step_ues h
  · rw [hsame]
    exact hp
  · rw [hues]
    by_cases e : p = ue.1
    · rw [e, Function.update_self]
      exact hmetric
    · rw [Function.update_of_ne e]
      exact hp
  · rw [hues]
    by_cases e : p = ue.1
    · rw [e, Function.update_self]
      exact UeInfo.tbSizeNow_of_nil _ _ _ rfl
    · rw [Function.update_of_ne e]
      exact hp

/-- **The loop keeps `m_dlTbSize` up to date.** -/
theorem metric_of_reaches {s t : BeamState} (hs : BeamInv S st beamSym s)
    (ht : Orbit.Reaches (S.step st beamSym) s t) {p : UePtr} (hp : S.MetricOk (s.alloc.ues p)) :
    S.MetricOk (t.alloc.ues p) := by
  have hstep : ∀ u, BeamInv S st beamSym u ∧ S.MetricOk (u.alloc.ues p) →
      BeamInv S st beamSym (S.step st beamSym u) ∧
        S.MetricOk ((S.step st beamSym u).alloc.ues p) :=
    fun u hu => ⟨step_inv hu.1, step_metric hu.1 hu.2⟩
  exact (ht.inv hstep ⟨hs, hp⟩).2

/-- **Growth.** A step that gives RBGs to a UE serves this UE. -/
theorem step_grows {t : BeamState} (h : BeamInv S st beamSym t) {p : UePtr}
    (hp : (t.alloc.ues p).dlRBG.length < ((S.step st beamSym t).alloc.ues p).dlRBG.length) :
    ∃ ue, ue.1 = p ∧ Serves S beamSym t ue := by
  obtain hsame | ⟨ue, prevRemaining, b, rbg, tb, hpc, hue, hatt, _, hues⟩ | ⟨ue, _, _, hues⟩ :=
    step_ues h
  · rw [hsame] at hp
    exact (lt_irrefl _ hp).elim
  · rw [hues] at hp
    by_cases hpu : p = ue.1
    · have hlen : (t.alloc.ues ue.1).dlRBG.length <
          ((t.ueOf ue).extended rbg beamSym tb).dlRBG.length := by
        rw [hpu, Function.update_self] at hp
        exact hp
      have hgrow := length_extended (t.ueOf ue) rbg beamSym tb
      have hsym : 0 < beamSym := by
        unfold BeamState.ueOf at hgrow hlen
        omega
      exact ⟨ue, hpu.symm, hsym, prevRemaining, b, hpc, hue, hatt⟩
    · rw [Function.update_of_ne hpu] at hp
      exact (lt_irrefl _ hp).elim
  · rw [hues] at hp
    by_cases hpu : p = ue.1
    · rw [hpu, Function.update_self] at hp
      exact absurd hp (Nat.not_lt_zero _)
    · rw [Function.update_of_ne hpu] at hp
      exact (lt_irrefl _ hp).elim

theorem grows_of_serves {t : BeamState} (h : BeamInv S st beamSym t) {ue : UePtrAndBufferReq}
    (hs : Serves S beamSym t ue) :
    (t.alloc.ues ue.1).dlRBG.length < ((S.step st beamSym t).alloc.ues ue.1).dlRBG.length := by
  obtain ⟨hb, prevRemaining, b, hpc, hue, hatt⟩ := hs
  have hinv := h.pc
  simp only [PcInv, hpc] at hinv
  obtain ⟨_, _, _, ue₀, hue₀, _⟩ := hinv
  obtain ⟨⟨rbg, tb, hg⟩, hserve⟩ :=
    serve_granted h.ledger (lt_of_getElem?_some hue₀).le hue hatt st prevRemaining
  rw [step_serve hpc, hserve]
  show _ < (b.ues ue.1).dlRBG.length
  rw [hg.ues, Function.update_self, length_extended]
  omega

theorem admitted_of_serves {t : BeamState} (h : BeamInv S st beamSym t)
    (hk : ¬ StaleGrant S st beamSym t) {ue : UePtrAndBufferReq} (hs : Serves S beamSym t ue) :
    (t.ueOf ue).admitted st = true := by
  obtain ⟨hb, prevRemaining, b, hpc, hue, hatt⟩ := hs
  have hinv := h.pc
  simp only [PcInv, hpc] at hinv
  obtain ⟨_, _, _, ue₀, hue₀, hflag⟩ := hinv
  by_contra hadm
  rw [Bool.not_eq_true] at hadm
  have hge : t.schedInfoIt ≤ S.nextIt beamSym t := le_nextIt t
  obtain hmoved | hstay := hge.lt_or_eq
  · exact hk ⟨hb, prevRemaining, ue, b, hpc, hmoved, hue, hadm, hatt⟩
  · rw [← hstay, hue₀] at hue
    rw [← Option.some.inj hue, ← hflag] at hadm
    cases hadm

/-! ### UEs that are not admitted -/

/-- Along a loop without stale grants, the UEs that are not admitted stay without RBGs. -/
theorem nil_of_not_admitted {s t : BeamState} (hs : BeamInv S st beamSym s)
    (ht : Orbit.Reaches (S.step st beamSym) s t)
    (hk : ∀ u, Orbit.Reaches (S.step st beamSym) s u → ¬ StaleGrant S st beamSym u) {p : UePtr}
    (hp : (s.alloc.ues p).dlRBG = []) (hadm : (s.alloc.ues p).admitted st = false) :
    (t.alloc.ues p).dlRBG = [] := by
  have hstep : ∀ u, BeamInv S st beamSym u ∧ (u.alloc.ues p).admitted st = false ∧
        (u.alloc.ues p).dlRBG = [] → ¬ StaleGrant S st beamSym u →
      BeamInv S st beamSym (S.step st beamSym u) ∧
        ((S.step st beamSym u).alloc.ues p).admitted st = false ∧
          ((S.step st beamSym u).alloc.ues p).dlRBG = [] := by
    rintro u ⟨hu, hadm, hnil⟩ hstale
    have hsame := (step_frame hu).same p
    refine ⟨step_inv hu, by rw [hsame.admitted]; exact hadm, ?_⟩
    by_contra hne
    have hgrow : (u.alloc.ues p).dlRBG.length <
        ((S.step st beamSym u).alloc.ues p).dlRBG.length := by
      rw [hnil]
      exact List.length_pos_iff.mpr hne
    obtain ⟨ue, rfl, hserves⟩ := step_grows hu hgrow
    have htrue : (u.alloc.ues ue.1).admitted st = true := admitted_of_serves hu hstale hserves
    rw [hadm] at htrue
    cases htrue
  exact (ht.inv_of_guard hstep ⟨hs, hadm, hp⟩ hk).2.2

theorem not_admitted_of_lt {u : UeInfo} (h : Dbl.lt (.fin (-st.vLyapunov)) u.k = true) :
    u.admitted st = false := by
  unfold UeInfo.admitted
  cases hk : u.k with
  | undef => rfl
  | fin q =>
      rw [hk, Dbl.lt_fin, decide_eq_true_eq] at h
      rw [Dbl.le_fin, decide_eq_false_iff_not, not_le]
      exact h

end Scheduler

/-! ### The whole call -/

/-- No loop of the call gives an RBG on a stale flag. -/
def NoStaleGrant (S : Scheduler) (now : ℚ) (i : SlotStart) : Prop :=
  ∀ st beamSym s, S.LoopEntry now i st beamSym s →
    ∀ t, Orbit.Reaches (S.step st beamSym) s t → ¬ StaleGrant S st beamSym t

namespace Scheduler

variable {S : Scheduler} {now : ℚ} {i : SlotStart} {st : DppaStatics} {beamSym : ℕ}

/-- What holds of the UEs of the beams `pre` after these beams. -/
def NilIfDiscarded (st : DppaStatics) (pre : ActiveUeMap) (w : World) : Prop :=
  ∀ el ∈ pre, ∀ ue ∈ el.2, Dbl.lt (.fin (-st.vLyapunov)) (w.ues ue.1).k = true →
    (w.ues ue.1).dlRBG = []

/-- One beam: a UE that ends it above `-V` has no RBG. -/
theorem assignBeam_nil {pre post : ActiveUeMap} {el : BeamId × List UePtrAndBufferReq}
    {acc acc' : World × List FhQuery} (hk : NoStaleGrant S now i)
    (hi : i.activeDl = pre ++ el :: post)
    (hpre : pre.foldlM (S.assignBeam now (S.getSymPerBeam i.symAvail i.activeDl)) (i.world, []) =
      .ok acc)
    (h : S.assignBeam now (S.getSymPerBeam i.symAvail i.activeDl) acc el = .ok acc') :
    NilIfDiscarded acc'.1.statics [el] acc'.1 := by
  intro el' hel ue hue hlt
  rw [List.mem_singleton.mp hel] at hue
  obtain ⟨e, s, r, he, hs, hr, rfl⟩ := assignBeam_ok h
  have hentry : S.LoopEntry now i e.1.statics _ e.2 :=
    ⟨pre, el, post, acc, e, hi, hpre, rfl, he, rfl, rfl⟩
  have hinv := (loopEntry_inv hentry).1
  obtain ⟨hn, hc⟩ := loopEntry_clean hi hpre
  obtain ⟨hreach, _⟩ := runLoop_ok hs
  obtain ⟨hfh, hloop⟩ := loop_fronthaul_frame he hn hc hs hr
  obtain ⟨_, h1, h2⟩ := beamEntry_ok he
  have hclean : (e.2.alloc.ues ue.1).Clean := by
    rw [h2]
    exact (entered_of_foldlM h1).clean ue.1 (hc ue hue)
  have hk' : (r.1.ues ue.1).k = (e.2.alloc.ues ue.1).k :=
    (hfh.kept ue.1).k.trans (hloop.same ue.1).k
  have hlt' : Dbl.lt (.fin (-e.1.statics.vLyapunov)) (e.2.alloc.ues ue.1).k = true := by
    rw [← hk']
    exact hlt
  exact hfh.nil ue.1 (nil_of_not_admitted hinv hreach (hk _ _ _ hentry) hclean.1
    (not_admitted_of_lt hlt'))

/-- The beams of the call, one after the other. -/
theorem assignBeams_nil (hk : NoStaleGrant S now i) : ∀ (pre : ActiveUeMap) {post : ActiveUeMap}
    {acc : World × List FhQuery}, i.activeDl = pre ++ post →
      pre.foldlM (S.assignBeam now (S.getSymPerBeam i.symAvail i.activeDl)) (i.world, []) =
        .ok acc → NilIfDiscarded acc.1.statics pre acc.1 := by
  intro pre
  induction pre using List.reverseRecOn with
  | nil =>
      intro post acc _ _ el hel
      cases hel
  | append_singleton pre el ih =>
      intro post acc hi h
      rw [List.append_assoc, List.singleton_append] at hi
      rw [List.foldlM_append] at h
      obtain ⟨acc₁, hpre, h⟩ := bind_eq_ok.mp h
      have hone : S.assignBeam now (S.getSymPerBeam i.symAvail i.activeDl) acc₁ el = .ok acc := by
        rw [List.foldlM_cons] at h
        obtain ⟨acc₂, h1, h2⟩ := bind_eq_ok.mp h
        cases h2
        exact h1
      obtain ⟨hn, hc⟩ := loopEntry_clean hi hpre
      have hf := assignBeam_frame hn hc hone
      intro el' hel ue hue hlt
      obtain hel | hel := List.mem_append.mp hel
      · have hne : ue.1 ∉ el.2.map Prod.fst := disjoint_of_split hi hel hue
        rw [hf.statics, hf.others _ hne] at hlt
        rw [hf.others _ hne]
        exact ih hi hpre el' hel ue hue hlt
      · exact assignBeam_nil hk hi hpre hone el' hel ue hue hlt

end Scheduler

/-- **Admission is respected exactly if no loop of the call gives an RBG on a stale flag.** -/
theorem admissionRespected_iff (S : Scheduler) (now : ℚ) (i : SlotStart) :
    AdmissionRespected S now i ↔ NoStaleGrant S now i := by
  constructor
  · rintro h st beamSym s hs t ht ⟨hb, prevRemaining, ue, b, hpc, _, hue, hadm, hatt⟩
    have hinv := (Scheduler.reaches_inv ht (Scheduler.loopEntry_inv hs).1).1
    have hgrow := Scheduler.grows_of_serves hinv ⟨hb, prevRemaining, b, hpc, hue, hatt⟩
    have htrue : (t.ueOf ue).admitted st = true := h.grants st beamSym s hs t ht ue.1 hgrow
    rw [hadm] at htrue
    cases htrue
  · intro hk
    refine ⟨fun st beamSym s hs t ht p hp => ?_, fun w' m h el hel ue hue hlt => ?_⟩
    · have hinv := (Scheduler.reaches_inv ht (Scheduler.loopEntry_inv hs).1).1
      obtain ⟨ue, rfl, hserves⟩ := Scheduler.step_grows hinv hp
      exact Scheduler.admitted_of_serves hinv (hk st beamSym s hs t ht) hserves
    · obtain ⟨acc, hacc, hclose⟩ := Scheduler.assignDLRBG_ok h
      have hnil := Scheduler.assignBeams_nil hk i.activeDl (List.append_nil _).symm hacc
      rw [hclose.dlRBG]
      rw [(hclose.kept ue.1).k, hclose.statics] at hlt
      exact hnil el hel ue hue hlt

/-- Two UEs and `V = 5`: the first is admitted and satisfied with one RBG; in the next round its
flag serves the second one, whose virtual queue is empty and whose weight is zero. -/
theorem not_admissionRespected_stale :
    ¬ AdmissionRespected (.wideband [true, true]) 0
      (.oneBeam (.fresh (setDppWeights 1 0 1) fun p => if p = 0 then 20000000 else 0)
        (fun _ => ⟨rfl, rfl, rfl⟩) (0, 50) [(1, 100)] (by decide)) := by
  intro h
  have hentry : Scheduler.LoopEntry (.wideband [true, true]) 0
      (.oneBeam (.fresh (setDppWeights 1 0 1) fun p => if p = 0 then 20000000 else 0)
        (fun _ => ⟨rfl, rfl, rfl⟩) (0, 50) [(1, 100)] (by decide)) _ _ _ := .first rfl rfl
  have hadm := h.grants _ _ _ hentry _ ⟨5, rfl⟩ 1 (by decide +kernel)
  exact absurd hadm (by decide +kernel)

end Rbis
