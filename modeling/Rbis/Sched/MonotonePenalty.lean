import Rbis.Sched.Accounting
import Rbis.Sched.Admission
import Rbis.Sched.Locality

/-! # The penalty and the allocation

Two calls of `AssignDLRBG` in the same slot, after `SetDppWeights` with the actions `v` and `v'`.
The loops go in step as long as their admission tests agree.  Where the loop under `v'` discards
a UE that the other one serves, it has only reaping left to do, and the UEs that it does not reap
have at least 10 bytes, so the other loop does not reap them either (`loop_subset`).  Hence the
call under `v'` allocates less, unless one of its loops makes an attempt that breaks this picture
(`AttemptsShared`): on a test that fails under `v`, or after a discard. -/

namespace Rbis

open Cxx Fallible

/-- The slot after `SetDppWeights` with the action `v`. -/
def SlotStart.under (i : SlotStart) (v wQ wG : ℚ) : SlotStart :=
  { i with world := { i.world with statics := setDppWeights v wQ wG } }

/-- In `w'` fewer UEs have RBGs than in `w`, and fewer RBGs are allocated. -/
structure AllocatesLess (i : SlotStart) (w w' : World) : Prop where
  ues : ∀ p ∈ Scheduler.pointers i.activeDl, (w'.ues p).dlRBG ≠ [] → (w.ues p).dlRBG ≠ []
  total : (i.activeDl.map fun el => Scheduler.allocated w' el).sum ≤
    (i.activeDl.map fun el => Scheduler.allocated w el).sum

/-- The call under `v'` allocates less than the call under `v`. -/
def MonotonePenalty (S : Scheduler) (now : ℚ) (i : SlotStart) (wQ wG v v' : ℚ) : Prop :=
  ∀ w w' m m', S.assignDLRBG now (i.under v wQ wG).world i.symAvail i.activeDl = .ok (w, m) →
    S.assignDLRBG now (i.under v' wQ wG).world i.symAvail i.activeDl = .ok (w', m') →
      AllocatesLess i w w'

/-- More resource blocks do not bring a transport block below 10 bytes. -/
def NrAmc.KeepsTen (amc : NrAmc) : Prop :=
  ∀ mcs rank n m, n ≤ m → 10 ≤ amc.calculateTbSize mcs rank n → 10 ≤ amc.calculateTbSize mcs rank m

namespace Scheduler

variable (S : Scheduler) (beamSym : ℕ)

/-- The loop comes to `AttemptAllocationOfCurrentResourceToUe`. -/
def Attempts (t : BeamState) : Prop :=
  ∃ n, t.pc = .serve n true ∧ S.nextIt beamSym t < t.ueVector.length

/-- The loop discards the next UE to schedule. -/
def Discards (t : BeamState) : Prop :=
  ∃ n, t.pc = .serve n false ∧ S.nextIt beamSym t < t.ueVector.length

/-- Every attempt of the loop from `s` under `st'` follows a test that succeeds under `st` too, and
no discard. -/
def Shared (st st' : DppaStatics) (s : BeamState) : Prop :=
  ∀ t, Orbit.Reaches (S.step st' beamSym) s t → S.Attempts beamSym t →
    (∀ ue, t.ueVector[t.schedInfoIt]? = some ue → (t.ueOf ue).admitted st = true) ∧
    ∀ d, Orbit.Reaches (S.step st' beamSym) s d → S.Discards beamSym d →
      ¬ Orbit.Reaches (S.step st' beamSym) d t

end Scheduler

/-- The attempts of the loops under `v'` are shared with `v`. -/
def AttemptsShared (S : Scheduler) (now : ℚ) (i : SlotStart) (wQ wG v v' : ℚ) : Prop :=
  ∀ st' beamSym s, S.LoopEntry now (i.under v' wQ wG) st' beamSym s →
    S.Shared beamSym (setDppWeights v wQ wG) st' s

namespace Scheduler

variable {S : Scheduler} {now : ℚ} {i : SlotStart} {st st' : DppaStatics} {beamSym : ℕ}

/-! ### After a discard -/

theorem step_ues_of_not_attempts {t : BeamState} (h : BeamInv S st beamSym t)
    (ha : ¬ S.Attempts beamSym t) (p : UePtr) :
    (S.step st beamSym t).alloc.ues p = t.alloc.ues p ∨
      ((S.step st beamSym t).alloc.ues p).dlRBG = [] := by
  obtain hsame | ⟨ue, n, _, _, _, hpc, hue, _⟩ | ⟨ue, _, _, hues⟩ := step_ues h
  · exact Or.inl (congrFun hsame p)
  · exact absurd ⟨n, hpc, lt_of_getElem?_some hue⟩ ha
  · rw [hues]
    by_cases e : p = ue.1
    · rw [e, Function.update_self]
      exact Or.inr rfl
    · rw [Function.update_of_ne e]
      exact Or.inl rfl

/-- The loop goes on, or it is about to end and every UE of the vector has at least 10 bytes. -/
def Closing (t : BeamState) : Prop :=
  (t.reapingResources = true ∧ t.pc ≠ .finished) ∨
    (t.reapingResources = false ∧ (t.pc = .reapTest ∨ t.pc = .finished) ∧
      ∀ ue ∈ t.ueVector, 10 ≤ (t.ueOf ue).dlTbSize)

/-- Without a victim every UE has at least 10 bytes. -/
theorem ten_le_of_no_victim {t : BeamState} (h : S.reapVictim t = none) :
    ∀ ue ∈ S.sortByTbSize t, 10 ≤ (t.ueOf ue).dlTbSize := by
  intro ue hue
  have hsorted := sortByTbSize_sorted (S := S) t
  unfold reapVictim at h
  cases hlast : (S.sortByTbSize t).getLast? with
  | none =>
      rw [List.getLast?_eq_none_iff.mp hlast] at hue
      cases hue
  | some last =>
      rw [hlast] at h
      dsimp only at h
      split at h
      · cases h
      · next hten =>
          have hl := (List.dropLast_append_getLast? _ hlast).symm
          rw [hl] at hue
          rw [hl, List.pairwise_append] at hsorted
          obtain hue | hue := List.mem_append.mp hue
          · have := hsorted.2.2 ue hue last (List.mem_singleton.mpr rfl)
            omega
          · rw [List.mem_singleton.mp hue]
            omega

theorem step_closing {t : BeamState} (h : BeamInv S st beamSym t) (ha : ¬ S.Attempts beamSym t)
    (hc : Closing t) : Closing (S.step st beamSym t) := by
  obtain ⟨hreap, hfin⟩ | ⟨hreap, hpc, hten⟩ := hc
  · cases hs : t.pc with
    | reapTest =>
        rw [step_reapTest hs, hreap]
        exact Or.inl ⟨rfl, by simp⟩
    | allocTest =>
        rw [step_allocTest hs]
        obtain ⟨_, e⟩ | ⟨_, _, e⟩ | ⟨_, ue, _, e⟩ := allocTest_cases st t
        · rw [e]
          exact Or.inl ⟨hreap, by simp [BeamState.settle]⟩
        · rw [e]
          exact Or.inl ⟨hreap, by simp [BeamState.settle]⟩
        · rw [e]
          exact Or.inl ⟨hreap, by simp [BeamState.settle]⟩
    | serve n f =>
        obtain ⟨_, _, _, ue, hue, _⟩ := h.at_serve hs
        have hit := (lt_of_getElem?_some hue).le
        have hle : S.nextIt beamSym t ≤ t.ueVector.length := nextIt_le hit
        have hend : S.nextIt beamSym t = t.ueVector.length ∨ f = false := by
          by_contra hno
          rw [not_or, Bool.not_eq_false] at hno
          exact ha ⟨n, by rw [hs, hno.2], by omega⟩
        rw [step_serve hs, serve_leave hit hend]
        exact Or.inl ⟨hreap, by simp [BeamState.settle]⟩
    | progress n =>
        rw [step_progress hs]
        refine Or.inl ⟨hreap, ?_⟩
        dsimp only
        split <;> simp
    | reap =>
        obtain ⟨r, hreapStep, hstep⟩ := h.step_reap_cases hs
        rw [hstep]
        cases hreapStep with
        | done hv => exact Or.inr ⟨rfl, Or.inl rfl, ten_le_of_no_victim hv⟩
        | popped ue c hv hlast hc hl => exact Or.inl ⟨hreap, by simp [BeamState.settle]⟩
    | finished => exact absurd hs hfin
    | fault f =>
        rw [step_fault hs]
        exact Or.inl ⟨hreap, hfin⟩
  · obtain hs | hs := hpc
    · rw [step_reapTest hs, hreap]
      exact Or.inr ⟨rfl, Or.inr rfl, hten⟩
    · rw [step_finished hs]
      exact Or.inr ⟨hreap, Or.inr hs, hten⟩

/-- **A loop that discards** and then attempts nothing keeps the RBGs of the UEs with at least 10
bytes, and no others. -/
theorem kept_of_discards {d f : BeamState} (hd : BeamInv S st beamSym d)
    (hdis : S.Discards beamSym d) (hf : Orbit.Reaches (S.step st beamSym) d f)
    (hfin : f.pc = .finished)
    (hno : ∀ t, Orbit.Reaches (S.step st beamSym) d t → ¬ S.Attempts beamSym t)
    {ue : UePtrAndBufferReq} (hue : ue ∈ f.ueVector) :
    (f.ueOf ue).dlRBG = [] ∨ f.ueOf ue = d.ueOf ue ∧ 10 ≤ (d.ueOf ue).dlTbSize := by
  obtain ⟨n, hpc, _⟩ := hdis
  have hclosing : Closing d := Or.inl ⟨(hd.at_serve hpc).1, by rw [hpc]; simp⟩
  have hstep : ∀ t, (BeamInv S st beamSym t ∧ Closing t ∧
        (t.ueOf ue = d.ueOf ue ∨ (t.ueOf ue).dlRBG = [])) → ¬ S.Attempts beamSym t →
      BeamInv S st beamSym (S.step st beamSym t) ∧ Closing (S.step st beamSym t) ∧
        ((S.step st beamSym t).ueOf ue = d.ueOf ue ∨ ((S.step st beamSym t).ueOf ue).dlRBG = []) := by
    rintro t ⟨ht, hc, hkeep⟩ ha
    refine ⟨step_inv ht, step_closing ht ha hc, ?_⟩
    obtain hsame | hnil := step_ues_of_not_attempts ht ha ue.1
    · unfold BeamState.ueOf at hkeep ⊢
      rw [hsame]
      exact hkeep
    · exact Or.inr hnil
  obtain ⟨_, hc, hkeep⟩ := hf.inv_of_guard hstep ⟨hd, hclosing, Or.inl rfl⟩ hno
  obtain ⟨_, hne⟩ | ⟨_, _, hten⟩ := hc
  · exact absurd hfin hne
  · obtain hsame | hnil := hkeep
    · exact Or.inr ⟨hsame, hsame ▸ hten ue hue⟩
    · exact Or.inl hnil

/-! ### UEs with at least 10 bytes -/

theorem getDlMcs_wideband {u : UeInfo} (h : u.mcsCsiSource = .widebandMcs) (amc : NrAmc) :
    u.getDlMcs amc = .ok (u.fhMaxMcsAssignable.getD u.dlMcs) := by
  unfold UeInfo.getDlMcs
  cases u.fhMaxMcsAssignable with
  | some mcs => rfl
  | none => rw [h, if_pos (by simp), Option.getD_none]

theorem dlTbSize_wideband {u : UeInfo} (hw : u.mcsCsiSource = .widebandMcs) (hm : S.MetricOk u)
    (hne : u.dlRBG ≠ []) : u.dlTbSize = S.dlAmc.calculateTbSize
      (u.fhMaxMcsAssignable.getD u.dlMcs) u.dlRank (u.dlRBG.length * S.numRbPerRbg) := by
  obtain ⟨mcs, hmcs, htb⟩ := hm.exists_mcs hne
  rw [getDlMcs_wideband hw] at hmcs
  rw [htb, ← Except.ok.inj hmcs]

/-- The UE has the RBGs `r` at least, and at least 10 bytes. -/
structure Secured (S : Scheduler) (r : List ℕ) (u : UeInfo) : Prop where
  wideband : u.mcsCsiSource = .widebandMcs
  metric : S.MetricOk u
  ten : 10 ≤ u.dlTbSize
  held : r ⊆ u.dlRBG

theorem Secured.extended (hamc : S.dlAmc.KeepsTen) {r : List ℕ} {u : UeInfo} (h : Secured S r u)
    {rbg tb : ℕ} (hm : S.MetricOk (u.extended rbg beamSym tb)) :
    Secured S r (u.extended rbg beamSym tb) := by
  have hne : u.dlRBG ≠ [] := by
    intro hnil
    have := Ledger.dlTbSize_of_nil h.metric hnil
    have := h.ten
    omega
  refine ⟨h.wideband, hm, ?_, fun x hx => List.mem_append_left _ (h.held hx)⟩
  have hne' : (u.extended rbg beamSym tb).dlRBG ≠ [] := List.append_ne_nil_of_left_ne_nil hne _
  have hwide' : (u.extended rbg beamSym tb).mcsCsiSource = .widebandMcs := h.wideband
  have hten := h.ten
  rw [dlTbSize_wideband h.wideband h.metric hne] at hten
  rw [dlTbSize_wideband hwide' hm hne']
  refine hamc _ _ _ _ (Nat.mul_le_mul_right _ ?_) hten
  rw [length_extended]
  exact Nat.le_add_right _ _

/-- **A UE with at least 10 bytes** keeps its RBGs to the end of the loop. -/
theorem secured_of_reaches (hamc : S.dlAmc.KeepsTen) {s t : BeamState}
    (hs : BeamInv S st beamSym s) (ht : Orbit.Reaches (S.step st beamSym) s t) {r : List ℕ}
    {p : UePtr} (hp : Secured S r (s.alloc.ues p)) : Secured S r (t.alloc.ues p) := by
  have hstep : ∀ u, BeamInv S st beamSym u ∧ Secured S r (u.alloc.ues p) →
      BeamInv S st beamSym (S.step st beamSym u) ∧
        Secured S r ((S.step st beamSym u).alloc.ues p) := by
    rintro u ⟨hu, hp⟩
    refine ⟨step_inv hu, ?_⟩
    obtain hsame | ⟨ue, _, _, rbg, tb, _, _, _, hmetric, hues⟩ | ⟨ue, _, hv, hues⟩ := step_ues hu
    · rw [hsame]
      exact hp
    · rw [hues]
      by_cases e : p = ue.1
      · rw [e] at hp ⊢
        rw [Function.update_self]
        exact hp.extended hamc hmetric
      · rw [Function.update_of_ne e]
        exact hp
    · have hne : p ≠ ue.1 := by
        rintro rfl
        have hlt := reapVictim_lt hv
        have hge : 10 ≤ (u.ueOf ue).dlTbSize := hp.ten
        omega
      rw [hues, Function.update_of_ne hne]
      exact hp
  exact (ht.inv hstep ⟨hs, hp⟩).2

/-! ### The two loops of a beam -/

section

variable {l : List UePtr} {s t : BeamState}

/-- The two loops go in step up to the first discard. -/
theorem inStep_or_discards (hsort : S.stdSort.Local) (h : InStep l s t)
    (hs : BeamInv S st' beamSym s) (ht : BeamInv S st beamSym t)
    (hshared : S.Shared beamSym st st' s) (n : ℕ) :
    InStep l ((S.step st' beamSym)^[n] s) ((S.step st beamSym)^[n] t) ∨
      ∃ k < n, S.Discards beamSym ((S.step st' beamSym)^[k] s) ∧
        InStep l ((S.step st' beamSym)^[k] s) ((S.step st beamSym)^[k] t) := by
  refine Orbit.lockstep (fun k hr hstop => ?_) h n
  have hsk := (reaches_inv ⟨k, rfl⟩ hs).1
  have htk := (reaches_inv ⟨k, rfl⟩ ht).1
  refine hr.step hsk hsort fun m f g hpc hpc' hlt => ?_
  have hf : f = true := by
    cases f with
    | true => rfl
    | false => exact absurd ⟨m, hpc, hlt⟩ hstop
  refine ⟨hf, ?_⟩
  obtain ⟨_, _, _, ue, hue, hg⟩ := htk.at_serve hpc'
  rw [hr.ueVector, hr.schedInfoIt] at hue
  have hadm := (hshared _ ⟨k, rfl⟩ ⟨m, hf ▸ hpc, hlt⟩).1 ue hue
  rw [hg, hr.ueOf (List.mem_of_getElem? hue)]
  exact hadm

/-- **One beam.** A UE ends the first loop with fewer RBGs. -/
theorem loop_subset (hamc : S.dlAmc.KeepsTen) (hsort : S.stdSort.Local) (h : InStep l s t)
    (hs : BeamInv S st' beamSym s) (ht : BeamInv S st beamSym t)
    (hshared : S.Shared beamSym st st' s) {s' t' : BeamState}
    (hs' : Orbit.Reaches (S.step st' beamSym) s s') (hfin : s'.pc = .finished)
    (ht' : Orbit.Reaches (S.step st beamSym) t t') (hfin' : t'.pc = .finished)
    {ue : UePtrAndBufferReq} (hue : ue ∈ s.ueVector) (hw : (s.ueOf ue).mcsCsiSource = .widebandMcs)
    (hm : S.MetricOk (s.ueOf ue)) (hheld : (s'.ueOf ue).dlRBG ≠ [] → ue ∈ s'.ueVector) :
    (s'.ueOf ue).dlRBG ⊆ (t'.ueOf ue).dlRBG := by
  have hstay : S.step st' beamSym s' = s' := step_finished hfin
  have hstay' : S.step st beamSym t' = t' := step_finished hfin'
  have hreach := hs'
  obtain ⟨n, hn⟩ := hs'
  obtain hend | ⟨k, hk, hdis, hr⟩ := inStep_or_discards hsort h hs ht hshared n
  · rw [hn] at hend
    obtain hpc | ⟨_, _, _, hpc, _⟩ := Pc.eq_of_point hend.pc
    · have hlast := Orbit.Reaches.fixed_unique hstay' (step_finished (hpc.trans hfin)) ht' ⟨n, rfl⟩
      rw [hlast] at hend
      unfold BeamState.ueOf
      rw [hend.alloc.ues (h.mem ue hue)]
      exact List.Subset.refl _
    · rw [hfin] at hpc
      cases hpc
  · by_cases hnil : (s'.ueOf ue).dlRBG = []
    · rw [hnil]
      exact List.nil_subset _
    have hd : Orbit.Reaches (S.step st' beamSym) s ((S.step st' beamSym)^[k] s) := ⟨k, rfl⟩
    obtain ⟨hinv, hframe⟩ := reaches_inv hd hs
    have hno : ∀ u, Orbit.Reaches (S.step st' beamSym) ((S.step st' beamSym)^[k] s) u →
        ¬ S.Attempts beamSym u :=
      fun u hu ha => (hshared u (hd.trans hu) ha).2 _ hd hdis hu
    obtain hempty | ⟨hsame, hten⟩ := kept_of_discards hinv hdis (hreach.of_fixed hstay hd) hfin hno
      (hheld hnil)
    · exact absurd hempty hnil
    · rw [hsame]
      generalize hdk : (S.step st' beamSym)^[k] s = d at *
      have hsecured : Secured S (d.ueOf ue).dlRBG (d.ueOf ue) := by
        refine ⟨?_, metric_of_reaches hs hd hm, hten, List.Subset.refl _⟩
        have hconfig : (s.ueOf ue).SameConfig (d.ueOf ue) := hframe.same ue.1
        rw [hconfig]
        exact hw
      have hagree : ((S.step st beamSym)^[k] t).alloc.ues ue.1 = d.ueOf ue :=
        hr.alloc.ues (h.mem ue hue)
      rw [← hagree] at hsecured
      have he : Orbit.Reaches (S.step st beamSym) t ((S.step st beamSym)^[k] t) := ⟨k, rfl⟩
      have hlast := secured_of_reaches hamc (reaches_inv he ht).1 (ht'.of_fixed hstay' he) hsecured
      rw [hagree] at hlast
      exact hlast.held

end

/-! ### The two calls -/

variable {wQ wG v v' : ℚ} {el : BeamId × List UePtrAndBufferReq} {pre post : ActiveUeMap} {w : World}
  {acc acc' : World × List FhQuery} {e : World × BeamState}

/-- The two loops of a beam start in step: `V` is not in the weights. -/
theorem entry_inStep (hsort : S.stdSort.Local) {w' : World} {pre' post' : ActiveUeMap}
    {acc₁ acc₁' : World × List FhQuery} {e' : World × BeamState}
    (hr : BeamRound S now (i.under v wQ wG) el w pre post acc acc')
    (he : S.beamEntry now beamSym acc.1 el.2 = .ok e)
    (hr' : BeamRound S now (i.under v' wQ wG) el w' pre' post' acc₁ acc₁')
    (he' : S.beamEntry now beamSym acc₁.1 el.2 = .ok e') :
    InStep (el.2.map Prod.fst) e'.2 e.2 := by
  have hues := (beamEntry_ues hr.split hr.before he).2
  have hues' := (beamEntry_ues hr'.split hr'.before he').2
  obtain ⟨_, _, h2⟩ := beamEntry_ok he
  obtain ⟨_, _, h2'⟩ := beamEntry_ok he'
  have hsame : ∀ ue ∈ el.2, e.1.ues ue.1 = e'.1.ues ue.1 := by
    intro ue hue
    have h := (hues ue hue).trans (hues' ue hue).symm
    rw [h2, h2'] at h
    exact h
  refine ⟨⟨e.1.ues, fun p hp => ?_, ?_⟩, ?_, ?_, ?_, ?_, fun ue hue => ?_⟩
  · obtain ⟨ue, hue, rfl⟩ := List.mem_map.mp hp
    rw [h2']
    exact hsame ue hue
  · rw [h2, h2']
  · rw [h2, h2']
    apply hsort
    intro a ha b hb
    rw [hsame a ha, hsame b hb]
  · rw [h2, h2']
  · rw [h2, h2']
  · rw [h2, h2']
  · exact List.mem_map_of_mem ((beamEntry_mem he').mp hue)

theorem fronthaul_none (hfh : S.fhControl = none) {ues : List UePtrAndBufferReq} {s : BeamState}
    {queries : List FhQuery} {r : Alloc × List FhQuery}
    (h : S.fronthaul beamSym ues s queries = .ok r) : r.1 = s.alloc := by
  unfold fronthaul at h
  rw [hfh] at h
  cases h
  rfl

/-- A slot without fronthaul control in which every UE has a wideband CQI. -/
structure WidebandSlot (S : Scheduler) (i : SlotStart) : Prop where
  fhControl : S.fhControl = none
  wideband : ∀ el ∈ i.activeDl, ∀ ue ∈ el.2, (i.world.ues ue.1).mcsCsiSource = .widebandMcs

theorem dlRBG_subset (hslot : WidebandSlot S i) (hamc : S.dlAmc.KeepsTen)
    (hsort : S.stdSort.Local) (hshared : AttemptsShared S now i wQ wG v v') {w' : World}
    {m m' : BeamSymbolMap}
    (h : S.assignDLRBG now (i.under v wQ wG).world i.symAvail i.activeDl = .ok (w, m))
    (h' : S.assignDLRBG now (i.under v' wQ wG).world i.symAvail i.activeDl = .ok (w', m'))
    (hel : el ∈ i.activeDl) {ue : UePtrAndBufferReq} (hue : ue ∈ el.2) :
    (w'.ues ue.1).dlRBG ⊆ (w.ues ue.1).dlRBG := by
  obtain ⟨pre, post, acc, acc₁, hr⟩ := assignDLRBG_beam (i := i.under v wQ wG) h hel
  obtain ⟨pre', post', acc', acc₁', hr'⟩ := assignDLRBG_beam (i := i.under v' wQ wG) h' hel
  obtain ⟨e, s, r, he, hs, hfr, hacc⟩ := assignBeam_ok hr.round
  obtain ⟨e', s', r', he', hs', hfr', hacc'⟩ := assignBeam_ok hr'.round
  have hentry : S.LoopEntry now (i.under v wQ wG) e.1.statics _ e.2 :=
    ⟨pre, el, post, acc, e, hr.split, hr.before, rfl, he, rfl, rfl⟩
  have hentry' : S.LoopEntry now (i.under v' wQ wG) e'.1.statics _ e'.2 :=
    ⟨pre', el, post', acc', e', hr'.split, hr'.before, rfl, he', rfl, rfl⟩
  obtain ⟨hreach, hfin⟩ := runLoop_ok hs
  obtain ⟨hreach', hfin'⟩ := runLoop_ok hs'
  have hmem : ue ∈ e'.2.ueVector := (beamEntry_mem he').mpr hue
  have hinv' := (loopEntry_inv hentry').1
  obtain ⟨_, _, hl⟩ := hinv'.ledger
  have hstatics : e.1.statics = setDppWeights v wQ wG := (beamEntry_ues hr.split hr.before he).1
  have hwide : (e'.2.ueOf ue).mcsCsiSource = .widebandMcs := by
    rw [(beamEntry_ues hr'.split hr'.before he').2 ue hue]
    exact hslot.wideband el hel ue hue
  have hloop := loop_subset hamc hsort (entry_inStep hsort hr he hr' he') hinv'
    (loopEntry_inv hentry).1 (hstatics ▸ hshared _ _ _ hentry') hreach' hfin' hreach hfin hmem hwide
    (hl.metric ue hmem) (mem_of_held hentry' hreach' hmem)
  rw [hr'.dlRBG ue hue, hr.dlRBG ue hue, hacc, hacc']
  show (r'.1.ues ue.1).dlRBG ⊆ (r.1.ues ue.1).dlRBG
  rw [fronthaul_none hslot.fhControl hfr, fronthaul_none hslot.fhControl hfr']
  exact hloop

end Scheduler

/-- **Monotone penalty.** The call under `v'` allocates less when the attempts of its loops are
shared with `v`. -/
theorem monotonePenalty_of_shared (S : Scheduler) (now : ℚ) (i : SlotStart) (wQ wG v v' : ℚ)
    (hslot : Scheduler.WidebandSlot S i) (hamc : S.dlAmc.KeepsTen) (hsort : S.stdSort.Local)
    (hshared : AttemptsShared S now i wQ wG v v') : MonotonePenalty S now i wQ wG v v' := by
  intro w w' m m' h h'
  have hsub : ∀ el ∈ i.activeDl, ∀ ue ∈ el.2, (w'.ues ue.1).dlRBG ⊆ (w.ues ue.1).dlRBG :=
    fun el hel ue hue => Scheduler.dlRBG_subset hslot hamc hsort hshared h h' hel hue
  refine ⟨fun p hp hne => ?_, List.sum_le_sum fun el hel => ?_⟩
  · obtain ⟨el, hel, hp⟩ := List.mem_flatMap.mp hp
    obtain ⟨ue, hue, rfl⟩ := List.mem_map.mp hp
    intro hnil
    have hs := hsub el hel ue hue
    rw [hnil] at hs
    exact hne (List.subset_nil.mp hs)
  · unfold Scheduler.allocated
    apply Finset.card_le_card
    intro r hr
    rw [List.mem_toFinset, List.mem_flatMap] at hr ⊢
    obtain ⟨ue, hue, hr⟩ := hr
    exact ⟨ue, hue, hsub el hel ue hue hr⟩

/-! ### When the attempts are shared -/

/-- The mapping of `SetDppWeights` keeps the order of two actions exactly if the larger one is
in the table, or beyond the value of the smaller one. -/
theorem vLyapunov_le_iff {v v' : ℚ} (h : v ≤ v') (wQ wG : ℚ) :
    (setDppWeights v wQ wG).vLyapunov ≤ (setDppWeights v' wQ wG).vLyapunov ↔
      v' = 1 ∨ v' = 2 ∨ v' = 3 ∨ (setDppWeights v wQ wG).vLyapunov ≤ v' := by
  by_cases h1 : v' = 1
  · subst h1
    refine ⟨fun _ => Or.inl rfl, fun _ => ?_⟩
    simp only [setDppWeights]
    split_ifs <;> linarith
  by_cases h2 : v' = 2
  · subst h2
    refine ⟨fun _ => Or.inr (Or.inl rfl), fun _ => ?_⟩
    simp only [setDppWeights]
    split_ifs <;> linarith
  by_cases h3 : v' = 3
  · subst h3
    refine ⟨fun _ => Or.inr (Or.inr (Or.inl rfl)), fun _ => ?_⟩
    simp only [setDppWeights]
    split_ifs <;> linarith
  have hself : (setDppWeights v' wQ wG).vLyapunov = v' := by
    simp only [setDppWeights, if_neg h1, if_neg h2, if_neg h3]
    split
    · next h0 => exact h0.symm
    · rfl
  rw [hself]
  simp [h1, h2, h3]

namespace Scheduler

variable {S : Scheduler} {now : ℚ} {i : SlotStart} {st st' : DppaStatics} {beamSym : ℕ}

theorem admitted_of_le (h : st.vLyapunov ≤ st'.vLyapunov) {u : UeInfo}
    (hu : u.admitted st' = true) : u.admitted st = true := by
  unfold UeInfo.admitted at hu ⊢
  cases hk : u.k with
  | undef =>
      rw [hk] at hu
      cases hu
  | fin q =>
      rw [hk, Dbl.le_fin, decide_eq_true_eq] at hu
      rw [Dbl.le_fin, decide_eq_true_eq]
      linarith

theorem not_discards_of_admitted {s t : BeamState} (hs : BeamInv S st beamSym s)
    (ht : Orbit.Reaches (S.step st beamSym) s t)
    (hadm : ∀ ue ∈ s.ueVector, (s.ueOf ue).admitted st = true) : ¬ S.Discards beamSym t := by
  rintro ⟨n, hpc, _⟩
  obtain ⟨hinv, hframe⟩ := reaches_inv ht hs
  obtain ⟨_, _, _, ue, hue, hflag⟩ := hinv.at_serve hpc
  have hmem := hframe.mem ue (List.mem_of_getElem? hue)
  have hsame : (t.ueOf ue).admitted st = (s.ueOf ue).admitted st := (hframe.same ue.1).admitted st
  rw [hsame, hadm ue hmem] at hflag
  cases hflag

end Scheduler

theorem attemptsShared_of_le {S : Scheduler} {now : ℚ} {i : SlotStart} {wQ wG v v' : ℚ}
    (hV : (setDppWeights v wQ wG).vLyapunov ≤ (setDppWeights v' wQ wG).vLyapunov)
    (hno : ∀ st' beamSym s, S.LoopEntry now (i.under v' wQ wG) st' beamSym s →
      ∀ d, Orbit.Reaches (S.step st' beamSym) s d → S.Discards beamSym d →
        ∀ t, Orbit.Reaches (S.step st' beamSym) d t → ¬ S.Attempts beamSym t) :
    AttemptsShared S now i wQ wG v v' := by
  intro st' beamSym s hs t ht ha
  refine ⟨fun ue hue => ?_, fun d hd hdis hdt => hno st' beamSym s hs d hd hdis t hdt ha⟩
  obtain ⟨n, hpc, _⟩ := ha
  have hinv := (Scheduler.reaches_inv ht (Scheduler.loopEntry_inv hs).1).1
  obtain ⟨_, _, _, ue', hue', hflag⟩ := hinv.at_serve hpc
  rw [hue] at hue'
  cases hue'
  obtain ⟨pre, el, post, acc, e, hi, hpre, _, he, rfl, _⟩ := hs
  rw [(Scheduler.beamEntry_ues hi hpre he).1] at hflag
  exact Scheduler.admitted_of_le hV hflag.symm

theorem attemptsShared_of_admitted {S : Scheduler} {now : ℚ} {i : SlotStart} {wQ wG v v' : ℚ}
    (hV : (setDppWeights v wQ wG).vLyapunov ≤ (setDppWeights v' wQ wG).vLyapunov)
    (hadm : ∀ el ∈ i.activeDl, ∀ ue ∈ el.2,
      (S.weighed (setDppWeights v' wQ wG) ((S.getSymPerBeam i.symAvail i.activeDl).getD el.1 0)
        (i.world.ues ue.1) ue.2).admitted (setDppWeights v' wQ wG) = true) :
    AttemptsShared S now i wQ wG v v' := by
  refine attemptsShared_of_le hV fun st' beamSym s hs d hd hdis => ?_
  have hinv := (Scheduler.loopEntry_inv hs).1
  obtain ⟨pre, el, post, acc, e, hi, hpre, rfl, he, rfl, rfl⟩ := hs
  obtain ⟨hst, hues⟩ := Scheduler.beamEntry_ues hi hpre he
  have hel : el ∈ i.activeDl := by
    show el ∈ (i.under v' wQ wG).activeDl
    rw [hi]
    exact List.mem_append_cons_self
  refine absurd hdis (Scheduler.not_discards_of_admitted hinv hd fun ue hue => ?_)
  have hmem := (Scheduler.beamEntry_mem he).mp hue
  rw [hues ue hmem, hst]
  exact hadm el hel ue hmem

/-- Two UEs with long virtual queues. -/
def SlotStart.twoQueues : SlotStart :=
  .oneBeam (.fresh {} fun _ => 20000000) (fun _ => ⟨rfl, rfl, rfl⟩) (0, 50) [(1, 1000)] (by decide)

/-- Both UEs are admitted under the actions 1 and 2. -/
theorem monotonePenalty_twoQueues : ∃ w w' m m',
    (Scheduler.wideband [true, true, true]).assignDLRBG 0 (SlotStart.twoQueues.under 1 0 1).world
        SlotStart.twoQueues.symAvail SlotStart.twoQueues.activeDl = .ok (w, m) ∧
      (Scheduler.wideband [true, true, true]).assignDLRBG 0 (SlotStart.twoQueues.under 2 0 1).world
        SlotStart.twoQueues.symAvail SlotStart.twoQueues.activeDl = .ok (w', m') ∧
      AllocatesLess .twoQueues w w' := by
  obtain ⟨⟨w, m⟩, hw⟩ := exists_of_isOk
    (x := (Scheduler.wideband [true, true, true]).assignDLRBG 0
      (SlotStart.twoQueues.under 1 0 1).world SlotStart.twoQueues.symAvail
      SlotStart.twoQueues.activeDl) (by decide +kernel)
  obtain ⟨⟨w', m'⟩, hw'⟩ := exists_of_isOk
    (x := (Scheduler.wideband [true, true, true]).assignDLRBG 0
      (SlotStart.twoQueues.under 2 0 1).world SlotStart.twoQueues.symAvail
      SlotStart.twoQueues.activeDl) (by decide +kernel)
  have hamc : (Scheduler.wideband [true, true, true]).dlAmc.KeepsTen := by
    intro mcs rank n m hnm hn
    have hn' : 10 ≤ 5 * n := hn
    show 10 ≤ 5 * m
    omega
  have hshared : AttemptsShared (.wideband [true, true, true]) 0 .twoQueues 0 1 1 2 :=
    attemptsShared_of_admitted
      ((vLyapunov_le_iff (by norm_num) 0 1).mpr (Or.inr (Or.inl rfl))) (by decide +kernel)
  exact ⟨w, w', m, m', hw, hw', monotonePenalty_of_shared _ _ _ _ _ _ _ ⟨rfl, fun _ _ _ _ => rfl⟩
    hamc StdSort.insertion_local hshared w w' m m' hw hw'⟩

/-- Four UEs, of which only the first one has a virtual queue. -/
def World.oneQueue : World where
  ues := fun p =>
    { rnti := p + 1, dlLCG := [[⟨4, 100, 0, 0, 1000⟩]], dlMcs := if p = 0 then 0 else 1
      g := if p = 0 then 20000000 else 0 }

/-- A scheduler whose transport blocks grow with the MCS. -/
def Scheduler.byMcs : Scheduler :=
  { Scheduler.wideband [true, true, true] with
    dlAmc := ⟨fun mcs _ nprb => (5 + mcs) * nprb, fun _ => 0, fun _ => 0⟩ }

def SlotStart.fourUes : SlotStart :=
  .oneBeam .oneQueue (fun _ => ⟨rfl, rfl, rfl⟩) (0, 50) [(1, 1000), (2, 1000), (3, 1000)]
    (by decide)

/-- Under the action 1 only UE 0 is admitted.  It is satisfied with one RBG, UE 1 gets one on its
flag and is discarded; after the sort the kept iterator stands at UE 0 again, whose flag now gives
the last RBG to UE 2.  Under the action 0 UE 1 takes both. -/
theorem not_monotonePenalty_fourUes :
    Scheduler.WidebandSlot .byMcs .fourUes ∧ ¬ MonotonePenalty .byMcs 0 .fourUes 0 1 0 1 := by
  refine ⟨⟨rfl, fun _ _ _ _ => rfl⟩, fun h => ?_⟩
  obtain ⟨⟨w, m⟩, hw⟩ := exists_of_isOk
    (x := Scheduler.byMcs.assignDLRBG 0 (SlotStart.fourUes.under 0 0 1).world
      SlotStart.fourUes.symAvail SlotStart.fourUes.activeDl) (by decide +kernel)
  obtain ⟨⟨w', m'⟩, hw'⟩ := exists_of_isOk
    (x := Scheduler.byMcs.assignDLRBG 0 (SlotStart.fourUes.under 1 0 1).world
      SlotStart.fourUes.symAvail SlotStart.fourUes.activeDl) (by decide +kernel)
  have hnone : Except.map (fun a => (a.1.ues 2).dlRBG.length)
      (Scheduler.byMcs.assignDLRBG 0 (SlotStart.fourUes.under 0 0 1).world
        SlotStart.fourUes.symAvail SlotStart.fourUes.activeDl) = .ok 0 := by
    decide +kernel
  have hsome : Except.map (fun a => (a.1.ues 2).dlRBG.length)
      (Scheduler.byMcs.assignDLRBG 0 (SlotStart.fourUes.under 1 0 1).world
        SlotStart.fourUes.symAvail SlotStart.fourUes.activeDl) = .ok 12 := by
    decide +kernel
  rw [hw] at hnone
  rw [hw'] at hsome
  have hempty : (w.ues 2).dlRBG = [] := List.eq_nil_of_length_eq_zero (Except.ok.inj hnone)
  have hheld : (w'.ues 2).dlRBG.length = 12 := Except.ok.inj hsome
  refine (h w w' m m' hw hw').ues 2 (by decide) (fun hnil => ?_) hempty
  rw [hnil] at hheld
  cases hheld

end Rbis
