import Rbis.Sched.Ledger

/-! # The invariant of the allocation loop

`BeamInv` holds at every program point of the loop: there is a ledger, and the local variables
fit the program point (`PcInv`).  It says nothing about the position of the iterator between
two rounds, so every step keeps it (`step_inv`), also a step that leaves the iterator at the
end of the vector; what ends the loop is then a fault.  `measure` decreases with every step
(`step_measure`), so the loop ends (`loop_halts`). -/

namespace Rbis

open Cxx Fallible

namespace Scheduler

variable {S : Scheduler} {st : DppaStatics} {beamSym : ℕ}

/-- What the program point says about the other variables. -/
def PcInv (st : DppaStatics) (s : BeamState) : Prop :=
  match s.pc with
  | .reapTest => True
  | .allocTest => s.reapingResources = true
  | .serve prevRemaining lyapunov =>
      s.reapingResources = true ∧ s.alloc.remainingRbgSet.length = prevRemaining ∧
        0 < prevRemaining ∧
        ∃ ue, s.ueVector[s.schedInfoIt]? = some ue ∧ lyapunov = (s.ueOf ue).admitted st
  | .progress prevRemaining =>
      (s.alloc.remainingRbgSet.length = prevRemaining ∧ 0 < prevRemaining) ∨
        (s.alloc.remainingRbgSet.length + 1 = prevRemaining ∧ s.reapingResources = true)
  | .reap => True
  | .finished => True
  | .fault f => f ≠ .diverged

/-- The invariant of the loop. -/
structure BeamInv (S : Scheduler) (st : DppaStatics) (beamSym : ℕ) (s : BeamState) : Prop where
  ledger : ∃ runs lost, Ledger S beamSym runs lost s.ueVector s.alloc
  pc : PcInv st s

/-! ### What a step can do -/

theorem lt_of_getElem?_some {α : Type} {l : List α} {i : ℕ} {a : α} (h : l[i]? = some a) :
    i < l.length := by
  obtain ⟨hi, _⟩ := List.getElem?_eq_some_iff.mp h
  exact hi

theorem skipCount_le (ues : UePtr → UeInfo) (n : ℕ) (l : List UePtrAndBufferReq) :
    S.skipCount ues n l ≤ l.length := by
  induction l with
  | nil => exact Nat.zero_le _
  | cons ue l ih =>
      obtain ⟨p, buf⟩ := ue
      unfold skipCount
      split
      · rw [List.length_cons]
        omega
      · exact Nat.zero_le _

/-- The position of the next UE to schedule. -/
def nextIt (S : Scheduler) (beamSym : ℕ) (s : BeamState) : ℕ :=
  s.schedInfoIt + S.skipCount s.alloc.ues beamSym (s.ueVector.drop s.schedInfoIt)

theorem nextIt_le {s : BeamState} (h : s.schedInfoIt ≤ s.ueVector.length) :
    S.nextIt beamSym s ≤ s.ueVector.length := by
  have := S.skipCount_le s.alloc.ues beamSym (s.ueVector.drop s.schedInfoIt)
  rw [List.length_drop] at this
  unfold nextIt
  omega

/-- The ways a round of the serving loop can end. -/
inductive Served (S : Scheduler) (st : DppaStatics) (beamSym prevRemaining : ℕ) (lyapunov : Bool)
    (s : BeamState) : Except Fault BeamState → Prop
  /-- No UE is left, or the UE is discarded. -/
  | leave (it : ℕ) (hit : it = S.nextIt beamSym s)
      (h : it = s.ueVector.length ∨ lyapunov = false) :
      Served S st beamSym prevRemaining lyapunov s
        (.ok { s with schedInfoIt := it, pc := .progress prevRemaining })
  /-- The attempt throws. -/
  | throws (f : Fault) (hf : f.thrown) : Served S st beamSym prevRemaining lyapunov s (.error f)
  /-- The UE gets an RBG. -/
  | granted (it : ℕ) (ue : UePtrAndBufferReq) (b : Alloc) (rbg tb : ℕ)
      (hit : it = S.nextIt beamSym s) (hue : s.ueVector[it]? = some ue) (hlyap : lyapunov = true)
      (hatt : S.attemptAllocationOfCurrentResourceToUe ue.1 beamSym s.alloc = .ok (true, b))
      (hg : Alloc.Granted S ue.1 beamSym rbg tb s.alloc b) :
      Served S st beamSym prevRemaining lyapunov s
        (.ok { s with schedInfoIt := it, alloc := b, pc := .progress prevRemaining })
  /-- The attempt fails at the last UE of the vector. -/
  | lastFailed (it : ℕ) (b : Alloc) (hit : it = S.nextIt beamSym s)
      (hlast : it + 1 = s.ueVector.length) (hb : s.alloc.Same b) :
      Served S st beamSym prevRemaining lyapunov s
        (.ok { s with
          schedInfoIt := it + 1, alloc := b, reapingResources := false
          pc := .progress prevRemaining })
  /-- The attempt fails and another UE follows. -/
  | failed (it : ℕ) (ue : UePtrAndBufferReq) (b : Alloc) (hit : it = S.nextIt beamSym s)
      (hue : s.ueVector[it + 1]? = some ue) (hb : s.alloc.Same b) :
      Served S st beamSym prevRemaining lyapunov s
        (.ok { s with
          schedInfoIt := it + 1, alloc := b
          pc := .serve prevRemaining ((s.ueOf ue).admitted st) })

theorem deref_eq {s : BeamState} {ue : UePtrAndBufferReq}
    (h : s.ueVector[s.schedInfoIt]? = some ue) : s.deref = .ok ue := by
  simp [BeamState.deref, h]

theorem advance_eq {s : BeamState} (hit : s.schedInfoIt ≤ s.ueVector.length) :
    S.advanceToNextUeToSchedule s.alloc.ues s.ueVector s.schedInfoIt beamSym =
      .ok (S.nextIt beamSym s) := if_pos hit

theorem serve_leave {prevRemaining : ℕ} {lyapunov : Bool} {s : BeamState}
    (hit : s.schedInfoIt ≤ s.ueVector.length)
    (h : S.nextIt beamSym s = s.ueVector.length ∨ lyapunov = false) :
    S.serve st beamSym prevRemaining lyapunov s = .ok { s with
      schedInfoIt := S.nextIt beamSym s, pc := .progress prevRemaining } := by
  unfold serve
  rw [advance_eq hit, ok_bind]
  dsimp only
  obtain h | h := h
  · rw [if_pos h, pure_eq]
  · rw [if_pos h, pure_eq]
    split <;> rfl

theorem serve_attempt {prevRemaining : ℕ} {s : BeamState} {ue : UePtrAndBufferReq}
    (hit : s.schedInfoIt ≤ s.ueVector.length) (hue : s.ueVector[S.nextIt beamSym s]? = some ue) :
    S.serve st beamSym prevRemaining true s =
      (S.attemptAllocationOfCurrentResourceToUe ue.1 beamSym s.alloc >>=
        S.afterAttempt st prevRemaining ue { s with schedInfoIt := S.nextIt beamSym s }) := by
  have hlt := lt_of_getElem?_some hue
  have hd : BeamState.deref { s with schedInfoIt := S.nextIt beamSym s } = .ok ue := deref_eq hue
  unfold serve
  rw [advance_eq hit, ok_bind]
  dsimp only
  rw [if_neg (by omega), if_neg (by simp), hd, ok_bind]

theorem serve_granted {s : BeamState} {ue : UePtrAndBufferReq} {b : Alloc}
    (hl : ∃ runs lost, Ledger S beamSym runs lost s.ueVector s.alloc)
    (hit : s.schedInfoIt ≤ s.ueVector.length) (hue : s.ueVector[S.nextIt beamSym s]? = some ue)
    (hatt : S.attemptAllocationOfCurrentResourceToUe ue.1 beamSym s.alloc = .ok (true, b))
    (st : DppaStatics) (prevRemaining : ℕ) : (∃ rbg tb, Alloc.Granted S ue.1 beamSym rbg tb s.alloc b) ∧
      S.serve st beamSym prevRemaining true s = .ok { s with
        schedInfoIt := S.nextIt beamSym s, alloc := b, pc := .progress prevRemaining } := by
  obtain ⟨runs, lost, hl⟩ := hl
  have hmem : ue ∈ s.ueVector := List.mem_of_getElem? hue
  obtain ⟨h, _⟩ | ⟨_, rbg, tb, hg⟩ := attempt_ok (hl.metric ue hmem) hatt
  · cases h
  · have hother : S.notAssignedOthers ue.1 s.ueVector b = .ok b :=
      (hl.grant hmem hg).refresh (fun a u => (a.ues u.1).rnti ≠ (a.ues ue.1).rnti) fun _ h => h
    refine ⟨⟨rbg, tb, hg⟩, ?_⟩
    rw [serve_attempt hit hue, hatt, ok_bind, afterAttempt, if_pos rfl, hother, ok_bind, pure_eq]

theorem serve_cases {prevRemaining : ℕ} {lyapunov : Bool} {s : BeamState}
    (hl : ∃ runs lost, Ledger S beamSym runs lost s.ueVector s.alloc)
    (hit : s.schedInfoIt ≤ s.ueVector.length) :
    Served S st beamSym prevRemaining lyapunov s
      (S.serve st beamSym prevRemaining lyapunov s) := by
  have hle : S.nextIt beamSym s ≤ s.ueVector.length := nextIt_le hit
  by_cases hend : S.nextIt beamSym s = s.ueVector.length ∨ lyapunov = false
  · rw [serve_leave hit hend]
    exact Served.leave _ rfl hend
  rw [not_or, Bool.not_eq_false] at hend
  obtain ⟨hend, rfl⟩ := hend
  obtain ⟨ue, hue⟩ : ∃ ue, s.ueVector[S.nextIt beamSym s]? = some ue :=
    ⟨_, List.getElem?_eq_getElem (by omega)⟩
  have hmetric : S.MetricOk (s.alloc.ues ue.1) := by
    obtain ⟨runs, lost, hl⟩ := hl
    exact hl.metric ue (List.mem_of_getElem? hue)
  cases hatt : S.attemptAllocationOfCurrentResourceToUe ue.1 beamSym s.alloc with
  | error f =>
      rw [serve_attempt hit hue, hatt, error_bind]
      exact Served.throws f (attempt_error hatt)
  | ok r =>
      obtain ⟨granted, b⟩ := r
      obtain ⟨rfl, hsame⟩ | ⟨rfl, _⟩ := attempt_ok hmetric hatt
      · rw [serve_attempt hit hue, hatt, ok_bind, afterAttempt, if_neg (by simp)]
        dsimp only
        split
        · next hlast => exact Served.lastFailed _ b rfl hlast hsame
        · next hlast =>
            obtain ⟨ue', hue'⟩ : ∃ ue', s.ueVector[S.nextIt beamSym s + 1]? = some ue' :=
              ⟨_, List.getElem?_eq_getElem (by omega)⟩
            have hd : BeamState.deref
                { s with alloc := b, schedInfoIt := S.nextIt beamSym s + 1 } = .ok ue' :=
              deref_eq hue'
            have h : Served S st beamSym prevRemaining true s _ :=
              Served.failed _ ue' b rfl hue' hsame
            rw [hd, ok_bind, pure_eq]
            simpa only [BeamState.ueOf, hsame.ues] using h
      · have hgranted := serve_granted hl hit hue hatt
        obtain ⟨⟨rbg, tb, hg⟩, hserve⟩ := hgranted st prevRemaining
        rw [hserve]
        exact Served.granted _ ue b rbg tb rfl hue rfl hatt hg

/-- The ways the sort and the reaping can end. -/
inductive ReapStep (S : Scheduler) (beamSym : ℕ) (s : BeamState) : Except Fault BeamState → Prop
  /-- No UE has a transport block below the minimum. -/
  | done (h : S.reapVictim s = none) : ReapStep S beamSym s
      (.ok { s with ueVector := S.sortByTbSize s, reapingResources := false, pc := .reapTest })
  /-- The last UE loses its RBGs and leaves the vector. -/
  | popped (ue : UePtrAndBufferReq) (c : Alloc) (h : S.reapVictim s = some ue)
      (hlast : S.sortByTbSize s = (S.sortByTbSize s).dropLast ++ [ue])
      (hc : Ledger.Reaped ue.1 s.alloc c)
      (hl : ∃ runs lost, Ledger S beamSym runs lost (S.sortByTbSize s).dropLast c) :
      ReapStep S beamSym s
        (.ok { s with alloc := c, ueVector := (S.sortByTbSize s).dropLast, pc := .reapTest })

theorem sortByTbSize_perm (s : BeamState) : (S.sortByTbSize s).Perm s.ueVector := S.stdSort.perm _ _

theorem tbSize_strictWeak (s : BeamState) (l : List UePtrAndBufferReq) :
    StrictWeakOn (fun a b => decide ((s.ueOf a).dlTbSize > (s.ueOf b).dlTbSize)) l := by
  refine ⟨fun a _ => ?_, fun a _ b _ c _ => ?_, fun a _ b _ c _ => ?_⟩
  · simp
  · simp only [decide_eq_true_eq]
    omega
  · simp only [decide_eq_false_iff_not]
    omega

theorem sortByTbSize_sorted (s : BeamState) :
    (S.sortByTbSize s).Pairwise fun a b => (s.ueOf b).dlTbSize ≤ (s.ueOf a).dlTbSize := by
  refine (S.stdSort.sorted _ _ (tbSize_strictWeak s _)).imp fun h => ?_
  simp only [decide_eq_false_iff_not] at h
  omega

theorem reapVictim_last {s : BeamState} {ue : UePtrAndBufferReq} (h : S.reapVictim s = some ue) :
    S.sortByTbSize s = (S.sortByTbSize s).dropLast ++ [ue] := by
  unfold reapVictim at h
  split at h
  · cases h
  · next u hu =>
      split at h
      · cases h
        exact (List.dropLast_append_getLast? _ hu).symm
      · cases h

theorem reapVictim_mem {s : BeamState} {ue : UePtrAndBufferReq} (h : S.reapVictim s = some ue) :
    ue ∈ s.ueVector := by
  refine (sortByTbSize_perm (S := S) s).mem_iff.mp ?_
  rw [reapVictim_last h]
  exact List.mem_append_right _ (List.mem_singleton.mpr rfl)

theorem reapVictim_lt {s : BeamState} {ue : UePtrAndBufferReq} (h : S.reapVictim s = some ue) :
    (s.ueOf ue).dlTbSize < 10 := by
  unfold reapVictim at h
  split at h
  · cases h
  · split at h
    · next hlt =>
        cases h
        exact hlt
    · cases h

theorem reap_cases {s : BeamState}
    (hl : ∃ runs lost, Ledger S beamSym runs lost s.ueVector s.alloc) :
    ReapStep S beamSym s (S.reap beamSym s) := by
  obtain ⟨runs, lost, hl⟩ := hl
  unfold reap
  cases hv : S.reapVictim s with
  | none => exact ReapStep.done hv
  | some ue =>
      have hlast := reapVictim_last hv
      have hsort := hl.perm (sortByTbSize_perm (S := S) s)
      rw [hlast] at hsort
      obtain ⟨b, c, lost', hrel, hass, hfold, hc, hl'⟩ := hsort.reap
      rw [← hlast] at hfold
      have hrel' : releaseRbgs ue.1 beamSym emplace (s.ueOf ue).dlRBG.length s.alloc = .ok b := hrel
      dsimp only
      rw [hrel', ok_bind, hass, ok_bind, hfold, ok_bind, pure_eq]
      exact ReapStep.popped ue c hv hlast hc ⟨runs, lost', hl'⟩

/-! ### Every step keeps the invariant -/

theorem step_reapTest {s : BeamState} (h : s.pc = .reapTest) :
    S.step st beamSym s =
      { s with pc := if s.reapingResources then .allocTest else .finished } := by
  simp [step, h]

theorem step_allocTest {s : BeamState} (h : s.pc = .allocTest) :
    S.step st beamSym s = s.settle (allocTest st s) := by
  simp [step, h]

theorem step_serve {s : BeamState} {prevRemaining : ℕ} {lyapunov : Bool}
    (h : s.pc = .serve prevRemaining lyapunov) :
    S.step st beamSym s = s.settle (S.serve st beamSym prevRemaining lyapunov s) := by
  simp [step, h]

theorem step_progress {s : BeamState} {prevRemaining : ℕ} (h : s.pc = .progress prevRemaining) :
    S.step st beamSym s =
      { s with
        pc := if prevRemaining = s.alloc.remainingRbgSet.length then .reap else .allocTest } := by
  simp [step, h]

theorem step_reap {s : BeamState} (h : s.pc = .reap) :
    S.step st beamSym s = s.settle (S.reap beamSym s) := by
  simp [step, h]

theorem step_finished {s : BeamState} (h : s.pc = .finished) : S.step st beamSym s = s := by
  simp [step, h]

theorem step_fault {s : BeamState} {f : Fault} (h : s.pc = .fault f) :
    S.step st beamSym s = s := by
  simp [step, h]

theorem allocTest_cases (st : DppaStatics) (s : BeamState) :
    (s.alloc.remainingRbgSet = [] ∧ allocTest st s = .ok { s with pc := .reap }) ∨
      (s.alloc.remainingRbgSet ≠ [] ∧ s.ueVector[s.schedInfoIt]? = none ∧
        allocTest st s = .error .invalidIterator) ∨
      (s.alloc.remainingRbgSet ≠ [] ∧ ∃ ue, s.ueVector[s.schedInfoIt]? = some ue ∧
        allocTest st s = .ok
          { s with pc := .serve s.alloc.remainingRbgSet.length ((s.ueOf ue).admitted st) }) := by
  unfold allocTest
  by_cases hr : s.alloc.remainingRbgSet = []
  · exact Or.inl ⟨hr, by rw [if_pos hr]⟩
  · rw [if_neg hr]
    cases hue : s.ueVector[s.schedInfoIt]? with
    | none =>
        refine Or.inr (Or.inl ⟨hr, rfl, ?_⟩)
        simp [BeamState.deref, hue]
    | some ue =>
        refine Or.inr (Or.inr ⟨hr, ue, rfl, ?_⟩)
        rw [deref_eq hue, ok_bind, pure_eq]

theorem step_cases (S : Scheduler) (st : DppaStatics) (beamSym : ℕ) (s : BeamState) :
    (∃ pc, S.step st beamSym s = { s with pc := pc }) ∨
      (∃ prevRemaining lyapunov, s.pc = .serve prevRemaining lyapunov) ∨ s.pc = .reap := by
  cases hs : s.pc with
  | reapTest => exact Or.inl ⟨_, step_reapTest hs⟩
  | allocTest =>
      obtain ⟨_, e⟩ | ⟨_, _, e⟩ | ⟨_, ue, _, e⟩ := allocTest_cases st s
      · exact Or.inl ⟨_, by rw [step_allocTest hs, e]; rfl⟩
      · exact Or.inl ⟨_, by rw [step_allocTest hs, e]; rfl⟩
      · exact Or.inl ⟨_, by rw [step_allocTest hs, e]; rfl⟩
  | serve prevRemaining lyapunov => exact Or.inr (Or.inl ⟨prevRemaining, lyapunov, rfl⟩)
  | progress prevRemaining => exact Or.inl ⟨_, step_progress hs⟩
  | reap => exact Or.inr (Or.inr rfl)
  | finished => exact Or.inl ⟨s.pc, step_finished hs⟩
  | fault f => exact Or.inl ⟨s.pc, step_fault hs⟩

theorem BeamInv.at_serve {s : BeamState} (h : BeamInv S st beamSym s) {prevRemaining : ℕ}
    {lyapunov : Bool} (hs : s.pc = .serve prevRemaining lyapunov) :
    s.reapingResources = true ∧ s.alloc.remainingRbgSet.length = prevRemaining ∧
      0 < prevRemaining ∧
        ∃ ue, s.ueVector[s.schedInfoIt]? = some ue ∧ lyapunov = (s.ueOf ue).admitted st := by
  have hpc := h.pc
  simpa only [PcInv, hs] using hpc

theorem BeamInv.step_serve_cases {s : BeamState} (h : BeamInv S st beamSym s) {prevRemaining : ℕ}
    {lyapunov : Bool} (hs : s.pc = .serve prevRemaining lyapunov) :
    ∃ r, Served S st beamSym prevRemaining lyapunov s r ∧ S.step st beamSym s = s.settle r := by
  obtain ⟨_, _, _, ue, hue, _⟩ := h.at_serve hs
  exact ⟨_, serve_cases h.ledger (lt_of_getElem?_some hue).le, step_serve hs⟩

theorem BeamInv.step_reap_cases {s : BeamState} (h : BeamInv S st beamSym s) (hs : s.pc = .reap) :
    ∃ r, ReapStep S beamSym s r ∧ S.step st beamSym s = s.settle r :=
  ⟨_, reap_cases h.ledger, step_reap hs⟩

theorem BeamInv.at_progress {s : BeamState} (h : BeamInv S st beamSym s) {prevRemaining : ℕ}
    (hs : s.pc = .progress prevRemaining) :
    (s.alloc.remainingRbgSet.length = prevRemaining ∧ 0 < prevRemaining) ∨
      (s.alloc.remainingRbgSet.length + 1 = prevRemaining ∧ s.reapingResources = true) := by
  have hpc := h.pc
  simpa only [PcInv, hs] using hpc

/-- **Step lemma.** Every step of the loop keeps the invariant. -/
theorem step_inv {s : BeamState} (h : BeamInv S st beamSym s) :
    BeamInv S st beamSym (S.step st beamSym s) := by
  have hl := h.ledger
  have hpc := h.pc
  cases hs : s.pc with
  | reapTest =>
      rw [step_reapTest hs]
      refine ⟨hl, ?_⟩
      cases hreap : s.reapingResources with
      | true => exact rfl
      | false => trivial
  | allocTest =>
      have hreap : s.reapingResources = true := by simpa [PcInv, hs] using hpc
      rw [step_allocTest hs]
      obtain ⟨_, e⟩ | ⟨_, _, e⟩ | ⟨hne, ue, hue, e⟩ := allocTest_cases st s
      · rw [e]
        exact ⟨hl, trivial⟩
      · rw [e]
        exact ⟨hl, by simp [PcInv, BeamState.settle]⟩
      · rw [e]
        exact ⟨hl, hreap, rfl, List.length_pos_iff.mpr hne, ue, hue, rfl⟩
  | serve prevRemaining lyapunov =>
      obtain ⟨hreap, hprev, hpos, _⟩ := h.at_serve hs
      obtain ⟨r, hserve, hstep⟩ := h.step_serve_cases hs
      rw [hstep]
      cases hserve with
      | leave it hit h => exact ⟨hl, Or.inl ⟨hprev, hpos⟩⟩
      | throws f hf => exact ⟨hl, hf.2⟩
      | granted it ue b rbg tb hit hue hlyap hatt hg =>
          obtain ⟨runs, lost, hl⟩ := hl
          refine ⟨⟨_, lost, hl.grant (List.mem_of_getElem? hue) hg⟩, Or.inr ⟨?_, hreap⟩⟩
          show b.remainingRbgSet.length + 1 = prevRemaining
          rw [hg.remaining, List.length_erase_of_mem hg.mem, hprev]
          omega
      | lastFailed it b hit hlast hb =>
          obtain ⟨runs, lost, hl⟩ := hl
          refine ⟨⟨runs, lost, hl.same hb⟩, Or.inl ⟨?_, hpos⟩⟩
          show b.remainingRbgSet.length = prevRemaining
          rw [hb.remaining, hprev]
      | failed it ue b hit hue hb =>
          obtain ⟨runs, lost, hl⟩ := hl
          refine ⟨⟨runs, lost, hl.same hb⟩, hreap, ?_, hpos, ue, hue, ?_⟩
          · show b.remainingRbgSet.length = prevRemaining
            rw [hb.remaining, hprev]
          · show _ = (b.ues ue.1).admitted st
            rw [hb.ues]
            rfl
  | progress prevRemaining =>
      rw [step_progress hs]
      refine ⟨hl, ?_⟩
      split
      · trivial
      · next hne =>
          obtain ⟨h1, _⟩ | ⟨_, h2⟩ := h.at_progress hs
          · exact absurd h1.symm hne
          · exact h2
  | reap =>
      obtain ⟨r, hreap, hstep⟩ := h.step_reap_cases hs
      rw [hstep]
      cases hreap with
      | done h =>
          obtain ⟨runs, lost, hl⟩ := hl
          exact ⟨⟨runs, lost, hl.perm (sortByTbSize_perm s)⟩, trivial⟩
      | popped ue c h hlast hc hl' => exact ⟨hl', trivial⟩
  | finished =>
      rw [step_finished hs]
      exact ⟨hl, hpc⟩
  | fault f =>
      rw [step_fault hs]
      exact ⟨hl, hpc⟩

/-! ### What a step leaves as it is -/

/-- `t` comes from `s` by steps of the loop: its vector has UEs of the vector of `s` only, and
the heap differs in the allocation fields of these UEs only. -/
structure Frame (s t : BeamState) : Prop where
  mem : ∀ ue ∈ t.ueVector, ue ∈ s.ueVector
  length : t.ueVector.length ≤ s.ueVector.length
  same : ∀ p, (s.alloc.ues p).SameConfig (t.alloc.ues p)
  others : ∀ p, p ∉ s.ueVector.map Prod.fst → t.alloc.ues p = s.alloc.ues p

theorem Frame.of_eq {s t : BeamState} (hv : t.ueVector = s.ueVector)
    (hu : t.alloc.ues = s.alloc.ues) : Frame s t where
  mem := fun ue hue => hv ▸ hue
  length := by rw [hv]
  same := fun p => by rw [hu]; exact UeInfo.SameConfig.refl _
  others := fun p _ => by rw [hu]

theorem Frame.trans {s t u : BeamState} (h : Frame s t) (h' : Frame t u) : Frame s u where
  mem := fun ue hue => h.mem ue (h'.mem ue hue)
  length := h'.length.trans h.length
  same := fun p => (h.same p).trans (h'.same p)
  others := fun p hp => by
    rw [h'.others p, h.others p hp]
    intro hp'
    obtain ⟨ue, hue, rfl⟩ := List.mem_map.mp hp'
    exact hp (List.mem_map_of_mem (h.mem ue hue))

theorem Frame.update {s t : BeamState} {ue : UePtrAndBufferReq} {r y : List ℕ} {tb : ℕ}
    (hue : ue ∈ s.ueVector) (hm : ∀ u ∈ t.ueVector, u ∈ s.ueVector)
    (hlen : t.ueVector.length ≤ s.ueVector.length)
    (hu : t.alloc.ues = Function.update s.alloc.ues ue.1 ((s.alloc.ues ue.1).withAlloc r y tb)) :
    Frame s t where
  mem := hm
  length := hlen
  same := fun p => by
    rw [hu]
    by_cases hp : p = ue.1
    · rw [hp, Function.update_self]
      exact (UeInfo.SameConfig.refl _).withAlloc r y tb
    · rw [Function.update_of_ne hp]
      exact UeInfo.SameConfig.refl _
  others := fun p hp => by
    rw [hu, Function.update_of_ne]
    rintro rfl
    exact hp (List.mem_map_of_mem hue)

theorem step_frame {s : BeamState} (h : BeamInv S st beamSym s) :
    Frame s (S.step st beamSym s) := by
  obtain ⟨pc, hstep⟩ | ⟨prevRemaining, lyapunov, hs⟩ | hs := step_cases S st beamSym s
  · rw [hstep]
    exact Frame.of_eq rfl rfl
  · obtain ⟨r, hserve, hstep⟩ := h.step_serve_cases hs
    rw [hstep]
    cases hserve with
    | leave it hit h => exact Frame.of_eq rfl rfl
    | throws f hf => exact Frame.of_eq rfl rfl
    | granted it ue b rbg tb hit hue hlyap hatt hg =>
        exact Frame.update (List.mem_of_getElem? hue) (fun _ h => h) le_rfl hg.ues
    | lastFailed it b hit hlast hb => exact Frame.of_eq rfl hb.ues
    | failed it ue b hit hue hb => exact Frame.of_eq rfl hb.ues
  · have hperm := sortByTbSize_perm (S := S) s
    obtain ⟨r, hreap, hstep⟩ := h.step_reap_cases hs
    rw [hstep]
    cases hreap with
    | done h =>
        exact ⟨fun ue hue => hperm.mem_iff.mp hue, hperm.length_eq.le,
          fun p => UeInfo.SameConfig.refl _, fun p _ => rfl⟩
    | popped ue c h hlast hc hl' =>
        refine Frame.update (hperm.mem_iff.mp (hlast ▸ List.mem_append_right _ (by simp)))
          (fun u hu => hperm.mem_iff.mp (List.mem_of_mem_dropLast hu)) ?_ hc.ues
        show (S.sortByTbSize s).dropLast.length ≤ _
        rw [List.length_dropLast, hperm.length_eq]
        omega

/-! ### The loop ends -/

/-- The number of steps left is at most this, when a round of the inner loop takes at most
`perRbg` steps and a reaping round at most `perReap`. -/
def measure (perRbg perReap : ℕ) (s : BeamState) : ℕ :=
  let n := s.ueVector.length
  match s.pc with
  | .reapTest =>
      if s.reapingResources then n * perReap + s.alloc.remainingRbgSet.length * perRbg + 4 else 1
  | .allocTest => n * perReap + s.alloc.remainingRbgSet.length * perRbg + 3
  | .serve prevRemaining _ =>
      n * perReap + (prevRemaining - 1) * perRbg + 5 + (n - s.schedInfoIt)
  | .progress prevRemaining => n * perReap + (prevRemaining - 1) * perRbg + 4
  | .reap => n * perReap + 2
  | .finished => 0
  | .fault _ => 0

theorem mul_pred_add {r p : ℕ} (h : 0 < r) : r * p = (r - 1) * p + p := by
  obtain ⟨m, rfl⟩ : ∃ m, r = m + 1 := ⟨r - 1, by omega⟩
  rw [Nat.add_sub_cancel, Nat.succ_mul]

theorem le_nextIt (s : BeamState) : s.schedInfoIt ≤ S.nextIt beamSym s := Nat.le_add_right _ _

theorem step_measure {perRbg : ℕ} {s : BeamState} (h : BeamInv S st beamSym s)
    (hn : s.ueVector.length + 4 ≤ perRbg) (hhalt : s.halted = false) :
    measure perRbg (S.dlBitmask.length * perRbg + 5) (S.step st beamSym s) <
      measure perRbg (S.dlBitmask.length * perRbg + 5) s := by
  cases hs : s.pc with
  | reapTest =>
      rw [step_reapTest hs]
      cases hreap : s.reapingResources with
      | true => simp [measure, hs, hreap]
      | false => simp [measure, hs, hreap]
  | allocTest =>
      rw [step_allocTest hs]
      obtain ⟨hr, e⟩ | ⟨_, _, e⟩ | ⟨hne, ue, hue, e⟩ := allocTest_cases st s
      · rw [e]
        simp [measure, hs, hr, BeamState.settle]
      · rw [e]
        simp [measure, hs, BeamState.settle]
      · rw [e]
        have hpos := List.length_pos_iff.mpr hne
        simp only [measure, hs, BeamState.settle]
        rw [mul_pred_add (p := perRbg) hpos]
        omega
  | serve prevRemaining lyapunov =>
      obtain ⟨_, hprev, hpos, ue, hue, _⟩ := h.at_serve hs
      have hlt := lt_of_getElem?_some hue
      have hge : s.schedInfoIt ≤ S.nextIt beamSym s := le_nextIt s
      obtain ⟨r, hserve, hstep⟩ := h.step_serve_cases hs
      rw [hstep]
      cases hserve with
      | leave it hit h =>
          simp only [measure, hs, BeamState.settle]
          omega
      | throws f hf => simp [measure, hs, BeamState.settle]
      | granted it ue b rbg tb hit hue hlyap hatt hg =>
          simp only [measure, hs, BeamState.settle]
          omega
      | lastFailed it b hit hlast hb =>
          simp only [measure, hs, BeamState.settle]
          omega
      | failed it ue b hit hue hb =>
          have := lt_of_getElem?_some hue
          simp only [measure, hs, BeamState.settle]
          omega
  | progress prevRemaining =>
      have hp := h.at_progress hs
      rw [step_progress hs]
      split
      · simp only [measure, hs]
        omega
      · next hne =>
          obtain ⟨h1, _⟩ | ⟨h1, _⟩ := hp
          · exact absurd h1.symm hne
          · have : s.alloc.remainingRbgSet.length = prevRemaining - 1 := by omega
            simp only [measure, hs, this]
            omega
  | reap =>
      have hlen := (sortByTbSize_perm (S := S) s).length_eq
      obtain ⟨r, hreap, hstep⟩ := h.step_reap_cases hs
      rw [hstep]
      cases hreap with
      | done h => simp [measure, hs, BeamState.settle]
      | popped ue c h hlast hc hl' =>
          obtain ⟨runs, lost, hl'⟩ := hl'
          have hR : c.remainingRbgSet.length * perRbg ≤ S.dlBitmask.length * perRbg :=
            Nat.mul_le_mul_right perRbg hl'.length_remaining
          have hpos : 0 < s.ueVector.length := by
            rw [← hlen, hlast]
            simp
          simp only [measure, hs, BeamState.settle, List.length_dropLast, hlen]
          rw [mul_pred_add (p := S.dlBitmask.length * perRbg + 5) hpos]
          split <;> omega
  | finished => simp [BeamState.halted, hs] at hhalt
  | fault f => simp [BeamState.halted, hs] at hhalt

/-- **Termination.** From every state of the invariant the loop halts within `loopFuel`. -/
theorem loop_halts {s : BeamState} (h : BeamInv S st beamSym s) (hpc : s.pc = .reapTest) :
    (Orbit.runFuel (S.step st beamSym) BeamState.halted (loopFuel s) s).halted = true := by
  refine Orbit.runFuel_halted
    (fun t => BeamInv S st beamSym t ∧ t.ueVector.length + 4 ≤ s.ueVector.length + 4)
    (measure (s.ueVector.length + 4) (S.dlBitmask.length * (s.ueVector.length + 4) + 5))
    ?_ ?_ ⟨h, le_rfl⟩ ?_
  · rintro t ⟨ht, hn⟩
    have := (step_frame ht).length
    exact ⟨step_inv ht, by omega⟩
  · rintro t ⟨ht, hn⟩ hhalt
    exact step_measure ht hn hhalt
  · obtain ⟨runs, lost, hl⟩ := h.ledger
    have hR := Nat.mul_le_mul_right (s.ueVector.length + 4) hl.length_remaining
    simp only [measure, hpc, loopFuel, hl.available]
    split <;> omega

end Scheduler

end Rbis
