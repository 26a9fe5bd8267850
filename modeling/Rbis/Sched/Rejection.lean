import Rbis.Sched.Partition

/-! # Rejected attempts

`AttemptAllocationOfCurrentResourceToUe` gives up in three places, in the last of them after it
has allocated the RBG.  `rejected_attempt` says that nothing is left of the attempt then, from the
state in which the allocation loop makes it (`AttemptEntry`); `attemptEntry_of_reaches` says that
the loop makes its attempts in no other state. -/

namespace Rbis

open Cxx Fallible

/-- The symbols of the assigned resources are those of the beam, as soon as there is an RBG. -/
def Alloc.SymOk (beamSym : ℕ) (a : Alloc) : Prop :=
  a.assignedResources.sym = if 0 < a.assignedResources.rbg then beamSym else 0

/-- The state in which an attempt for the UE `p` is made. -/
structure AttemptEntry (S : Scheduler) (p : UePtr) (beamSym : ℕ) (a : Alloc) : Prop where
  metric : S.MetricOk (a.ues p)
  nonempty : a.remainingRbgSet ≠ []
  available : ∀ r ∈ a.remainingRbgSet, a.availableRbgs[r]? = some true
  sym : a.SymOk beamSym

namespace Scheduler

variable {S : Scheduler} {st : DppaStatics} {beamSym : ℕ}

theorem set_set_of_marked {l : List Bool} {r : ℕ} (h : l[r]? = some true) :
    (l.set r false).set r true = l := by
  rw [List.set_set]
  obtain ⟨hr, hget⟩ := List.getElem?_eq_some_iff.mp h
  rw [← hget]
  exact List.set_getElem_self hr

/-- The deallocation after `AllocateCurrentResourceToUe` restores the four variables of the beam,
and takes the RBG from the UE again. -/
theorem dealloc_given {p : UePtr} {rbg tb : ℕ} {a c : Alloc}
    (hmark : a.availableRbgs[rbg]? = some true) (hsym : a.SymOk beamSym)
    (hc : deallocateCurrentResourceFromUe p rbg beamSym (a.given p rbg beamSym tb) = .ok c) :
    c = a.setUe p ((a.ues p).withAlloc (a.ues p).dlRBG (a.ues p).dlSym tb) := by
  have hu : (a.given p rbg beamSym tb).ues p = (a.ues p).extended rbg beamSym tb :=
    Function.update_self ..
  have hlt : rbg < (a.given p rbg beamSym tb).availableRbgs.length := by
    obtain ⟨hr, _⟩ := List.getElem?_eq_some_iff.mp hmark
    simpa [Alloc.given] using hr
  rw [deallocateCurrentResourceFromUe_block (l := (a.ues p).dlRBG) (s := (a.ues p).dlSym)
    (by rw [hu]; rfl) (by rw [hu]; rfl) List.length_range (Nat.succ_pos _) hlt] at hc
  have hres : (⟨a.assignedResources.rbg + 1 - 1,
      if a.assignedResources.rbg + 1 - 1 = 0 then 0 else beamSym⟩ : FTResources) =
      a.assignedResources := by
    have hs : a.assignedResources.sym = if a.assignedResources.rbg = 0 then 0 else beamSym := by
      rw [hsym]
      split <;> split <;> omega
    rw [Nat.add_sub_cancel, ← hs]
  rw [← Except.ok.inj hc, hu]
  simp only [Alloc.given, Alloc.setUe, Alloc.mk.injEq]
  refine ⟨?_, trivial, hres, set_set_of_marked hmark⟩
  simp only [UeInfo.extended, UeInfo.withAlloc_withAlloc, Function.update_idem]
  rfl

/-- **A rejected attempt** leaves every variable of the beam and every UE as they were. -/
theorem rejected_attempt {p : UePtr} {a b : Alloc} (he : AttemptEntry S p beamSym a)
    (h : S.attemptAllocationOfCurrentResourceToUe p beamSym a = .ok (false, b)) : b = a := by
  generalize hg : false = granted at h
  cases attempt_cases h with
  | noRbg => rfl
  | granted => cases hg
  | undone hmem hlt hc hd =>
      have hc' := dealloc_given (he.available _ hmem) he.sym hc
      subst hc'
      obtain ⟨tb, htb, rfl⟩ := assignedDlResources_ok hd
      simp only [Alloc.setUe, Function.update_self] at htb
      have hsize : tb = (a.ues p).dlTbSize := Except.ok.inj (htb.symm.trans he.metric)
      simp [Alloc.setUe, hsize, UeInfo.withAlloc_self]

end Scheduler

/-- A UE with the first RBG, in a sub-band with a better MCS than that of the second. -/
def Alloc.twoSubBands : Alloc where
  ues := fun p => {
    rnti := p + 1, dlRBG := [0, 0], dlSym := [0, 1], dlTbSize := 200, mcsCsiSource := .avgMcs
    dlSbMcsInfo := [⟨7, 10, 0, 0⟩, ⟨5, 1, 0, 0⟩], rbgToSb := [0, 1] }
  remainingRbgSet := [1]
  assignedResources := ⟨1, 2⟩
  availableRbgs := [false, true]

/-- A scheduler whose transport blocks grow with the square of the MCS. -/
def Scheduler.quadratic : Scheduler :=
  { Scheduler.wideband [true, true] with
    dlAmc := ⟨fun mcs _ nprb => mcs * mcs * nprb, fun _ => 0, fun _ => 0⟩
    mcsCsiSource := .avgMcs }

/-- The attempt for the second RBG is undone. -/
theorem Scheduler.rejected_attempt_twoSubBands :
    ∃ b, Scheduler.quadratic.attemptAllocationOfCurrentResourceToUe 0 2 Alloc.twoSubBands =
      .ok (false, b) ∧ b = Alloc.twoSubBands := by
  obtain ⟨r, hr⟩ := exists_of_isOk
    (x := Scheduler.quadratic.attemptAllocationOfCurrentResourceToUe 0 2 Alloc.twoSubBands)
    (by decide +kernel)
  have hfalse : (Scheduler.quadratic.attemptAllocationOfCurrentResourceToUe 0 2
      Alloc.twoSubBands).map Prod.fst = .ok false := by decide +kernel
  rw [hr] at hfalse
  obtain ⟨granted, b⟩ := r
  obtain rfl : granted = false := Except.ok.inj hfalse
  have hmetric : (Alloc.twoSubBands.ues 0).tbSizeNow Scheduler.quadratic.dlAmc
      Scheduler.quadratic.numRbPerRbg = .ok 200 := by decide +kernel
  exact ⟨b, hr, Scheduler.rejected_attempt ⟨hmetric, by decide, by decide, rfl⟩ hr⟩

namespace Scheduler

/-! ### The attempts of the loop -/

variable {S : Scheduler} {st : DppaStatics} {beamSym : ℕ}

theorem attempt_symOk {p : UePtr} {a b : Alloc} {granted : Bool} (he : AttemptEntry S p beamSym a)
    (h : S.attemptAllocationOfCurrentResourceToUe p beamSym a = .ok (granted, b)) :
    b.SymOk beamSym := by
  cases granted with
  | false =>
      rw [rejected_attempt he h]
      exact he.sym
  | true =>
      generalize hg : true = granted at h
      cases attempt_cases h with
      | noRbg => cases hg
      | undone => cases hg
      | granted => simp [Alloc.SymOk, Alloc.given]

theorem deallocateCurrentResourceFromUe_symOk {p : UePtr} {rbg : ℕ} {a b : Alloc}
    (hs : a.SymOk beamSym) (h : deallocateCurrentResourceFromUe p rbg beamSym a = .ok b) :
    b.SymOk beamSym := by
  obtain ⟨hrbg, _, _, _, _, rfl⟩ := deallocateCurrentResourceFromUe_ok h
  unfold Alloc.SymOk at hs ⊢
  dsimp only
  rw [hs, if_pos (Nat.pos_of_ne_zero hrbg)]
  split <;> split <;> omega

theorem releaseRounds_symOk {p : UePtr} : ∀ {k : ℕ} {a b : Alloc}, a.SymOk beamSym →
    releaseRounds p beamSym emplace k a = .ok b → b.SymOk beamSym
  | 0, a, b, hs, h => by
      cases h
      exact hs
  | k + 1, a, b, hs, h => by
      unfold releaseRounds at h
      split at h
      · cases h
        exact hs
      · obtain ⟨c, hc, h⟩ := bind_eq_ok.mp h
        have hsc : c.SymOk beamSym := deallocateCurrentResourceFromUe_symOk hs hc
        exact releaseRounds_symOk (by exact hsc) h

theorem assignedDlResources_symOk {p : UePtr} {a b : Alloc} (hs : a.SymOk beamSym)
    (h : S.assignedDlResources p a = .ok b) : b.SymOk beamSym := by
  obtain ⟨tb, _, rfl⟩ := assignedDlResources_ok h
  exact hs

theorem reap_symOk {s t : BeamState} (hs : s.alloc.SymOk beamSym)
    (h : S.reap beamSym s = .ok t) : t.alloc.SymOk beamSym := by
  unfold reap at h
  split at h
  · cases h
    exact hs
  · obtain ⟨a, ha, h⟩ := bind_eq_ok.mp h
    obtain ⟨b, hb, h⟩ := bind_eq_ok.mp h
    obtain ⟨c, hc, h⟩ := bind_eq_ok.mp h
    cases h
    have hsa : a.SymOk beamSym := releaseRounds_symOk hs (releaseRbgs_ok_iff.mp ha).1
    exact foldlM_ok (P := fun a => a.SymOk beamSym)
      (fun _ _ _ _ hx hy => assignedDlResources_symOk hx hy) (assignedDlResources_symOk hsa hb) hc

variable {ps : List UePtr} {s : BeamState}

theorem PartInv.attemptEntry (h : PartInv S st beamSym ps s) (hsym : s.alloc.SymOk beamSym)
    {prevRemaining : ℕ} {lyapunov : Bool} (hpc : s.pc = .serve prevRemaining lyapunov)
    {ue : UePtrAndBufferReq} (hue : ue ∈ s.ueVector) : AttemptEntry S ue.1 beamSym s.alloc := by
  obtain ⟨_, hlen, hpos, _⟩ := h.inv.at_serve hpc
  obtain ⟨runs, lost, hl⟩ := h.inv.ledger
  refine ⟨hl.metric ue hue, fun hnil => ?_, fun r hr => ?_, hsym⟩
  · rw [hnil, List.length_nil] at hlen
    omega
  · have husable : r ∈ S.usableRbgs := hl.partition.mem_iff.mp (List.mem_append_left _ hr)
    exact (h.marked r husable).mpr hr

/-- **Step lemma.** -/
theorem step_symOk (h : PartInv S st beamSym ps s) (hsym : s.alloc.SymOk beamSym) :
    (S.step st beamSym s).alloc.SymOk beamSym := by
  obtain ⟨pc, hstep⟩ | ⟨prevRemaining, lyapunov, hs⟩ | hs := step_cases S st beamSym s
  · rw [hstep]
    exact hsym
  · obtain ⟨_, _, _, ue, hue, _⟩ := h.inv.at_serve hs
    have hit := (lt_of_getElem?_some hue).le
    rw [step_serve hs]
    cases hr : S.serve st beamSym prevRemaining lyapunov s with
    | error f => exact hsym
    | ok t =>
        obtain e | ⟨ue, granted, hmem, hatt⟩ := serve_alloc h.inv.ledger hit hr
        · show t.alloc.SymOk beamSym
          rw [e]
          exact hsym
        · exact attempt_symOk (h.attemptEntry hsym hs hmem) hatt
  · rw [step_reap hs]
    cases hr : S.reap beamSym s with
    | error f => exact hsym
    | ok t => exact reap_symOk hsym hr

/-- **The attempts of a loop** are made in states of the entry condition. -/
theorem attemptEntry_of_reaches {now : ℚ} {i : SlotStart} (h : S.LoopEntry now i st beamSym s)
    {t : BeamState} (ht : Orbit.Reaches (S.step st beamSym) s t) {prevRemaining : ℕ}
    {lyapunov : Bool} (hpc : t.pc = .serve prevRemaining lyapunov) {ue : UePtrAndBufferReq}
    (hue : ue ∈ t.ueVector) : AttemptEntry S ue.1 beamSym t.alloc := by
  have hentry : s.alloc.SymOk beamSym := by
    obtain ⟨_, _, _, _, _, _, _, _, he, _, rfl⟩ := h
    obtain ⟨_, _, h2⟩ := beamEntry_ok he
    rw [h2]
    rfl
  have hstep : ∀ u, PartInv S st beamSym (s.ueVector.map Prod.fst) u ∧ u.alloc.SymOk beamSym →
      PartInv S st beamSym (s.ueVector.map Prod.fst) (S.step st beamSym u) ∧
        (S.step st beamSym u).alloc.SymOk beamSym :=
    fun _ hu => ⟨step_partInv hu.1, step_symOk hu.1 hu.2⟩
  have hinv := ht.inv hstep ⟨loopEntry_partInv h, hentry⟩
  exact hinv.1.attemptEntry hinv.2 hpc hue

end Scheduler

end Rbis
