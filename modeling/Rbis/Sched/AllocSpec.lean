import Rbis.Lib.Fallible
import Rbis.Sched.BeamLoop

/-! # What the allocation functions do

One specification for each function of the allocation loop; the proofs about the loop use
these and do not unfold the functions.

* An attempt (`attempt_ok`) either grants one RBG of the remaining set to the UE or leaves the
  heap and the remaining set as they were.
* Releasing (`releaseRbgs_blocks`) frees the RBGs of a UE whose `m_dlRBG` is made of blocks of
  `beamSym` equal entries, which is the only form the loop gives it.
* What a function throws is an exception or a failed assertion (`Fault.thrown`), never a
  reading through an invalid iterator. -/

namespace Rbis

open Cxx Fallible

/-- A fault that ends the call by an exception or an assertion. -/
def Fault.thrown (f : Fault) : Prop := f ≠ .invalidIterator ∧ f ≠ .diverged

/-! ### The allocation fields of a UE -/

namespace UeInfo

/-- Replace the allocation fields. -/
def withAlloc (u : UeInfo) (dlRBG dlSym : List ℕ) (dlTbSize : ℕ) : UeInfo :=
  { u with dlRBG := dlRBG, dlSym := dlSym, dlTbSize := dlTbSize }

/-- `v` is `u` up to the allocation fields. -/
def SameConfig (u v : UeInfo) : Prop := v = u.withAlloc v.dlRBG v.dlSym v.dlTbSize

theorem withAlloc_self (u : UeInfo) : u.withAlloc u.dlRBG u.dlSym u.dlTbSize = u := rfl

@[simp] theorem withAlloc_withAlloc (u : UeInfo) (r s r' s' : List ℕ) (t t' : ℕ) :
    (u.withAlloc r s t).withAlloc r' s' t' = u.withAlloc r' s' t' := rfl

@[simp] theorem dlRBG_withAlloc (u : UeInfo) (r s : List ℕ) (t : ℕ) :
    (u.withAlloc r s t).dlRBG = r := rfl

@[simp] theorem dlSym_withAlloc (u : UeInfo) (r s : List ℕ) (t : ℕ) :
    (u.withAlloc r s t).dlSym = s := rfl

@[simp] theorem dlTbSize_withAlloc (u : UeInfo) (r s : List ℕ) (t : ℕ) :
    (u.withAlloc r s t).dlTbSize = t := rfl

theorem SameConfig.refl (u : UeInfo) : u.SameConfig u := rfl

theorem SameConfig.trans {u v w : UeInfo} (h : u.SameConfig v) (h' : v.SameConfig w) :
    u.SameConfig w := by
  unfold SameConfig at h h' ⊢
  rw [h'.trans (congrArg (fun x => x.withAlloc w.dlRBG w.dlSym w.dlTbSize) h)]
  rfl

theorem SameConfig.withAlloc {u v : UeInfo} (h : u.SameConfig v) (r s : List ℕ) (t : ℕ) :
    u.SameConfig (v.withAlloc r s t) := by
  unfold SameConfig at h
  rw [h]
  rfl

theorem SameConfig.admitted {u v : UeInfo} (h : u.SameConfig v) (st : DppaStatics) :
    v.admitted st = u.admitted st := by
  rw [h]
  rfl

theorem SameConfig.k {u v : UeInfo} (h : u.SameConfig v) : v.k = u.k := by
  rw [h]
  rfl

end UeInfo

/-! ### Allocating one RBG -/

theorem setAt_ok {α : Type} {l l' : List α} {i : ℕ} {a : α} (h : setAt l i a = .ok l') :
    i < l.length ∧ l' = l.set i a := by
  unfold setAt at h
  split at h
  · next hi =>
      cases h
      exact ⟨hi, rfl⟩
  · cases h

theorem setAt_error {α : Type} {l : List α} {i : ℕ} {a : α} {f : Fault}
    (h : setAt l i a = .error f) : f.thrown := by
  unfold setAt at h
  split at h
  · cases h
  · cases h
    simp [Fault.thrown]

theorem at?_error {α : Type} {l : List α} {i : ℕ} {f : Fault} (h : at? l i = .error f) :
    f.thrown := by
  unfold at? at h
  split at h
  · cases h
  · cases h
    simp [Fault.thrown]

/-- The UE after `AllocateCurrentResourceToUe`. -/
def UeInfo.extended (u : UeInfo) (rbg beamSym tb : ℕ) : UeInfo :=
  u.withAlloc (u.dlRBG ++ List.replicate beamSym rbg) (u.dlSym ++ List.range beamSym) tb

theorem allocateCurrentResourceToUe_ok {p : UePtr} {rbg beamSym : ℕ} {a b : Alloc}
    (h : allocateCurrentResourceToUe p rbg beamSym a = .ok b) :
    rbg < a.availableRbgs.length ∧
      b = { ues := Function.update a.ues p ((a.ues p).extended rbg beamSym (a.ues p).dlTbSize)
            remainingRbgSet := a.remainingRbgSet
            assignedResources := ⟨a.assignedResources.rbg + 1, beamSym⟩
            availableRbgs := a.availableRbgs.set rbg false } := by
  unfold allocateCurrentResourceToUe at h
  obtain ⟨l, hl, hb⟩ := bind_eq_ok.mp h
  obtain ⟨hlt, rfl⟩ := setAt_ok hl
  cases hb
  exact ⟨hlt, rfl⟩

theorem allocateCurrentResourceToUe_error {p : UePtr} {rbg beamSym : ℕ} {a : Alloc} {f : Fault}
    (h : allocateCurrentResourceToUe p rbg beamSym a = .error f) : f.thrown := by
  unfold allocateCurrentResourceToUe at h
  obtain h | ⟨l, _, h⟩ := bind_eq_error.mp h
  · exact setAt_error h
  · cases h

theorem shrink_append (l r : List ℕ) {n : ℕ} (h : r.length = n) : shrink (l ++ r) n = .ok l := by
  unfold shrink
  rw [if_pos (by rw [List.length_append]; omega), List.length_append, h,
    Nat.add_sub_cancel, List.take_left]

theorem shrink_error {l : List ℕ} {n : ℕ} {f : Fault} (h : shrink l n = .error f) : f.thrown := by
  unfold shrink at h
  split at h
  · cases h
  · cases h
    simp [Fault.thrown]

theorem deallocateCurrentResourceFromUe_ok {p : UePtr} {rbg beamSym : ℕ} {a b : Alloc}
    (h : deallocateCurrentResourceFromUe p rbg beamSym a = .ok b) :
    a.assignedResources.rbg ≠ 0 ∧ rbg < a.availableRbgs.length ∧ ∃ dlRBG dlSym,
      shrink (a.ues p).dlSym beamSym = .ok dlSym ∧ b =
        { ues := Function.update a.ues p { a.ues p with dlRBG := dlRBG, dlSym := dlSym }
          remainingRbgSet := a.remainingRbgSet
          assignedResources := ⟨a.assignedResources.rbg - 1,
            if a.assignedResources.rbg - 1 = 0 then 0 else a.assignedResources.sym⟩
          availableRbgs := a.availableRbgs.set rbg true } := by
  unfold deallocateCurrentResourceFromUe at h
  obtain ⟨dlRBG, _, h⟩ := bind_eq_ok.mp h
  obtain ⟨dlSym, hsym, h⟩ := bind_eq_ok.mp h
  split at h
  · cases h
  · next hrbg =>
      obtain ⟨l, hl, h⟩ := bind_eq_ok.mp h
      obtain ⟨hlt, rfl⟩ := setAt_ok hl
      cases h
      exact ⟨hrbg, hlt, dlRBG, dlSym, hsym, rfl⟩

theorem deallocateCurrentResourceFromUe_error {p : UePtr} {rbg beamSym : ℕ} {a : Alloc} {f : Fault}
    (h : deallocateCurrentResourceFromUe p rbg beamSym a = .error f) : f.thrown := by
  unfold deallocateCurrentResourceFromUe at h
  obtain h | ⟨r, _, h⟩ := bind_eq_error.mp h
  · exact shrink_error h
  obtain h | ⟨s, _, h⟩ := bind_eq_error.mp h
  · exact shrink_error h
  split at h
  · cases h
    simp [Fault.thrown]
  · obtain h | ⟨l, _, h⟩ := bind_eq_error.mp h
    · exact setAt_error h
    · cases h

/-- Freeing the last block of a UE. -/
theorem deallocateCurrentResourceFromUe_block {p : UePtr} {rbg beamSym : ℕ} {a : Alloc}
    {l s s' : List ℕ} (hl : (a.ues p).dlRBG = l ++ List.replicate beamSym rbg)
    (hs : (a.ues p).dlSym = s ++ s') (hs' : s'.length = beamSym)
    (hr : 0 < a.assignedResources.rbg) (hrbg : rbg < a.availableRbgs.length) :
    deallocateCurrentResourceFromUe p rbg beamSym a = .ok
      { ues := Function.update a.ues p ((a.ues p).withAlloc l s (a.ues p).dlTbSize)
        remainingRbgSet := a.remainingRbgSet
        assignedResources := ⟨a.assignedResources.rbg - 1,
          if a.assignedResources.rbg - 1 = 0 then 0 else a.assignedResources.sym⟩
        availableRbgs := a.availableRbgs.set rbg true } := by
  have h1 : shrink (a.ues p).dlRBG beamSym = .ok l := by
    rw [hl]
    exact shrink_append l _ List.length_replicate
  have h2 : shrink (a.ues p).dlSym beamSym = .ok s := by
    rw [hs]
    exact shrink_append s _ hs'
  have h3 : setAt a.availableRbgs rbg true = .ok (a.availableRbgs.set rbg true) := if_pos hrbg
  have h4 : a.assignedResources.rbg ≠ 0 := by omega
  simp only [deallocateCurrentResourceFromUe, h1, h2, h3, ok_bind, if_neg h4, pure_eq]
  rfl

namespace Scheduler

variable {S : Scheduler}

theorem assignedDlResources_ok {p : UePtr} {a b : Alloc} (h : S.assignedDlResources p a = .ok b) :
    ∃ tb, (a.ues p).tbSizeNow S.dlAmc S.numRbPerRbg = .ok tb ∧
      b = a.setUe p ((a.ues p).withAlloc (a.ues p).dlRBG (a.ues p).dlSym tb) := by
  unfold assignedDlResources at h
  obtain ⟨u, hu, hb⟩ := bind_eq_ok.mp h
  obtain ⟨tb, htb, rfl⟩ := UeInfo.updateDlMetric_ok _ _ _ hu
  cases hb
  exact ⟨tb, htb, rfl⟩

theorem assignedDlResources_eq {p : UePtr} {a : Alloc} {tb : ℕ}
    (h : (a.ues p).tbSizeNow S.dlAmc S.numRbPerRbg = .ok tb) :
    S.assignedDlResources p a =
      .ok (a.setUe p ((a.ues p).withAlloc (a.ues p).dlRBG (a.ues p).dlSym tb)) := by
  unfold assignedDlResources
  rw [UeInfo.updateDlMetric_eq _ _ _ h]
  rfl

/-- The metric of the UE is up to date. -/
def MetricOk (S : Scheduler) (u : UeInfo) : Prop :=
  u.tbSizeNow S.dlAmc S.numRbPerRbg = .ok u.dlTbSize

theorem MetricOk.exists_mcs {u : UeInfo} (hm : S.MetricOk u) (hne : u.dlRBG ≠ []) :
    ∃ mcs, u.getDlMcs S.dlAmc = .ok mcs ∧
      u.dlTbSize = S.dlAmc.calculateTbSize mcs u.dlRank (u.dlRBG.length * S.numRbPerRbg) := by
  unfold MetricOk UeInfo.tbSizeNow at hm
  rw [if_neg (by simpa using hne)] at hm
  obtain ⟨mcs, hmcs, htb⟩ := bind_eq_ok.mp hm
  exact ⟨mcs, hmcs, (Except.ok.inj htb).symm⟩

theorem assignedDlResources_self {p : UePtr} {a : Alloc} (h : S.MetricOk (a.ues p)) :
    S.assignedDlResources p a = .ok a := by
  rw [assignedDlResources_eq h]
  simp [Alloc.setUe, UeInfo.withAlloc_self]

theorem sbInfoOf_error {u : UeInfo} {r : ℕ} {f : Fault} (h : u.sbInfoOf r = .error f) :
    f.thrown := by
  unfold UeInfo.sbInfoOf at h
  obtain h | ⟨sb, _, h⟩ := bind_eq_error.mp h
  · exact at?_error h
  · exact at?_error h

theorem mapM_sbInfoOf_error {u : UeInfo} {l : List ℕ} {f : Fault}
    (h : l.mapM u.sbInfoOf = .error f) : f.thrown := by
  induction l with
  | nil => cases h
  | cons r l ih =>
      rw [List.mapM_cons] at h
      obtain h | ⟨i, _, h⟩ := bind_eq_error.mp h
      · exact sbInfoOf_error h
      obtain h | ⟨is', _, h⟩ := bind_eq_error.mp h
      · exact ih h
      · cases h

theorem computeMcs_error {u : UeInfo} {field : SbMcsInfo → ℚ} {post : ℚ → ℕ} {f : Fault}
    (h : u.computeMcs field post = .error f) : f.thrown := by
  unfold UeInfo.computeMcs at h
  obtain h | ⟨i, _, h⟩ := bind_eq_error.mp h
  · exact mapM_sbInfoOf_error h
  · cases h

theorem getDlMcs_error {u : UeInfo} {amc : NrAmc} {f : Fault} (h : u.getDlMcs amc = .error f) :
    f.thrown := by
  unfold UeInfo.getDlMcs at h
  split at h
  · cases h
  split at h
  · cases h
  split at h
  · exact computeMcs_error h
  · exact computeMcs_error h
  · exact computeMcs_error h
  · cases h

theorem assignedDlResources_error {p : UePtr} {a : Alloc} {f : Fault}
    (h : S.assignedDlResources p a = .error f) : f.thrown := by
  unfold assignedDlResources UeInfo.updateDlMetric UeInfo.tbSizeNow at h
  obtain h | ⟨u, _, h⟩ := bind_eq_error.mp h
  · obtain h | ⟨tb, _, h⟩ := bind_eq_error.mp h
    · split at h
      · cases h
      · obtain h | ⟨m, _, h⟩ := bind_eq_error.mp h
        · exact getDlMcs_error h
        · cases h
    · cases h
  · cases h

/-! ### Choosing the RBG -/

theorem findBestRbg_mem {u : UeInfo} {l : List ℕ} {best : Option ℕ × ℕ}
    (h : findBestRbg u l = .ok best) : ∀ r, best.1 = some r → r ∈ l := by
  unfold findBestRbg at h
  refine foldlM_ok (P := fun best : Option ℕ × ℕ => ∀ r, best.1 = some r → r ∈ l) ?_ ?_ h
  · intro x hx b c hb hc
    obtain ⟨info, _, hc⟩ := bind_eq_ok.mp hc
    cases hc
    split
    · intro r hr
      cases hr
      exact hx
    · exact hb
  · intro r hr
    cases hr

theorem findBestRbg_error {u : UeInfo} {l : List ℕ} {f : Fault}
    (h : findBestRbg u l = .error f) : f.thrown := by
  unfold findBestRbg at h
  refine foldlM_error (E := Fault.thrown) ?_ h
  intro x _ b e he
  obtain he | ⟨i, _, he⟩ := bind_eq_error.mp he
  · exact sbInfoOf_error he
  · cases he

theorem chooseRbg_mem {u : UeInfo} {l : List ℕ} {r : ℕ} (h : S.chooseRbg u l = .ok (some r)) :
    r ∈ l := by
  unfold chooseRbg at h
  split at h
  · simp only [Except.ok.injEq] at h
    exact List.mem_of_mem_head? h
  · obtain ⟨best, hbest, h⟩ := bind_eq_ok.mp h
    split at h
    · simp only [pure_eq, Except.ok.injEq] at h
      exact findBestRbg_mem hbest r h
    · obtain ⟨info, _, h⟩ := bind_eq_ok.mp h
      split at h
      · cases h
      · simp only [pure_eq, Except.ok.injEq] at h
        exact findBestRbg_mem hbest r h

theorem chooseRbg_error {u : UeInfo} {l : List ℕ} {f : Fault} (h : S.chooseRbg u l = .error f) :
    f.thrown := by
  unfold chooseRbg at h
  split at h
  · cases h
  · obtain h | ⟨best, _, h⟩ := bind_eq_error.mp h
    · exact findBestRbg_error h
    split at h
    · cases h
    · obtain h | ⟨i, _, h⟩ := bind_eq_error.mp h
      · exact sbInfoOf_error h
      · split at h <;> cases h

end Scheduler

/-! ### An attempt -/

/-- `b` has the heap, the remaining set and the number of assigned RBGs of `a`. -/
structure Alloc.Same (a b : Alloc) : Prop where
  ues : b.ues = a.ues
  remaining : b.remainingRbgSet = a.remainingRbgSet
  rbg : b.assignedResources.rbg = a.assignedResources.rbg
  available : b.availableRbgs.length = a.availableRbgs.length

/-- `b` is `a` after giving the remaining RBG `rbg` to the UE `p`, whose transport block is
now `tb`. -/
structure Alloc.Granted (S : Scheduler) (p : UePtr) (beamSym rbg tb : ℕ) (a b : Alloc) : Prop where
  mem : rbg ∈ a.remainingRbgSet
  lt : rbg < a.availableRbgs.length
  ues : b.ues = Function.update a.ues p ((a.ues p).extended rbg beamSym tb)
  metric : S.MetricOk ((a.ues p).extended rbg beamSym tb)
  remaining : b.remainingRbgSet = a.remainingRbgSet.erase rbg
  rbg : b.assignedResources.rbg = a.assignedResources.rbg + 1
  available : b.availableRbgs.length = a.availableRbgs.length

namespace Alloc

/-- The allocation `a` with the RBG `rbg` given to the UE `p`, whose transport block is now `tb`,
before the RBG leaves the remaining set. -/
def given (p : UePtr) (rbg beamSym tb : ℕ) (a : Alloc) : Alloc where
  ues := Function.update a.ues p ((a.ues p).extended rbg beamSym tb)
  remainingRbgSet := a.remainingRbgSet
  assignedResources := ⟨a.assignedResources.rbg + 1, beamSym⟩
  availableRbgs := a.availableRbgs.set rbg false

theorem setUe_given (p : UePtr) (rbg beamSym tb tb' : ℕ) (a : Alloc) :
    (a.given p rbg beamSym tb).setUe p (((a.given p rbg beamSym tb).ues p).withAlloc
      ((a.given p rbg beamSym tb).ues p).dlRBG ((a.given p rbg beamSym tb).ues p).dlSym tb') =
      a.given p rbg beamSym tb' := by
  simp [setUe, given, UeInfo.extended]

end Alloc

namespace Scheduler

variable {S : Scheduler}

/-- **What an attempt can do**, in the order of its tests: there is no RBG for the UE, the RBG
lowers the size of the transport block and is taken back, or the RBG is given. -/
inductive Attempt (S : Scheduler) (p : UePtr) (beamSym : ℕ) (a : Alloc) : Bool → Alloc → Prop
  | noRbg : Attempt S p beamSym a false a
  | undone {rbg tb : ℕ} {c d : Alloc} (mem : rbg ∈ a.remainingRbgSet)
      (lt : rbg < a.availableRbgs.length)
      (dealloc : deallocateCurrentResourceFromUe p rbg beamSym (a.given p rbg beamSym tb) = .ok c)
      (refresh : S.assignedDlResources p c = .ok d) : Attempt S p beamSym a false d
  | granted {rbg tb : ℕ} (mem : rbg ∈ a.remainingRbgSet) (lt : rbg < a.availableRbgs.length)
      (metric : S.MetricOk ((a.ues p).extended rbg beamSym tb)) :
      Attempt S p beamSym a true
        { a.given p rbg beamSym tb with remainingRbgSet := a.remainingRbgSet.erase rbg }

theorem attempt_cases {p : UePtr} {beamSym : ℕ} {a b : Alloc} {granted : Bool}
    (h : S.attemptAllocationOfCurrentResourceToUe p beamSym a = .ok (granted, b)) :
    Attempt S p beamSym a granted b := by
  unfold attemptAllocationOfCurrentResourceToUe at h
  obtain ⟨choice, hch, h⟩ := bind_eq_ok.mp h
  cases choice with
  | none =>
      cases h
      exact .noRbg
  | some rbg =>
      have hmem : rbg ∈ a.remainingRbgSet := chooseRbg_mem hch
      obtain ⟨b₁, hb₁, h⟩ := bind_eq_ok.mp h
      obtain ⟨hlt, rfl⟩ := allocateCurrentResourceToUe_ok hb₁
      obtain ⟨b₂, hb₂, h⟩ := bind_eq_ok.mp h
      obtain ⟨tb, htb, e⟩ := assignedDlResources_ok hb₂
      obtain rfl := e.trans (Alloc.setUe_given p rbg beamSym _ tb a)
      simp only [Function.update_self] at htb
      obtain ⟨undo, _, h⟩ := bind_eq_ok.mp h
      cases undo with
      | true =>
          obtain ⟨c, hc, h⟩ := bind_eq_ok.mp h
          obtain ⟨d, hd, h⟩ := bind_eq_ok.mp h
          cases h
          exact .undone hmem hlt hc hd
      | false =>
          cases h
          exact .granted hmem hlt htb

theorem undo_allocation {p : UePtr} {rbg beamSym tb : ℕ} {a c d : Alloc}
    (hm : S.MetricOk (a.ues p)) (hlt : rbg < a.availableRbgs.length)
    (hc : deallocateCurrentResourceFromUe p rbg beamSym (a.given p rbg beamSym tb) = .ok c)
    (hd : S.assignedDlResources p c = .ok d) : a.Same d := by
  have hu : (a.given p rbg beamSym tb).ues p = (a.ues p).extended rbg beamSym tb :=
    Function.update_self ..
  rw [deallocateCurrentResourceFromUe_block (l := (a.ues p).dlRBG) (s := (a.ues p).dlSym)
    (by rw [hu]; rfl) (by rw [hu]; rfl) List.length_range (Nat.succ_pos _)
    (by simpa [Alloc.given] using hlt)] at hc
  cases hc
  obtain ⟨tb', htb, rfl⟩ := assignedDlResources_ok hd
  simp only [Function.update_self, hu, UeInfo.extended, UeInfo.withAlloc_withAlloc] at htb
  have htb' : tb' = (a.ues p).dlTbSize := by
    have h := htb.symm.trans hm
    simpa using h
  refine ⟨?_, rfl, by simp [Alloc.setUe, Alloc.given], by simp [Alloc.setUe, Alloc.given]⟩
  simp [Alloc.setUe, Alloc.given, UeInfo.extended, htb', UeInfo.withAlloc_self]

theorem lowered_error {tb : ℕ} {u : UeInfo} {f : Fault} (h : S.lowered tb u = .error f) :
    f.thrown := by
  unfold lowered at h
  split at h
  · obtain h | ⟨m, _, h⟩ := bind_eq_error.mp h
    · exact getDlMcs_error h
    · cases h
  · cases h

/-- **An attempt** grants one RBG or changes nothing. -/
theorem attempt_ok {p : UePtr} {beamSym : ℕ} {a b : Alloc} {granted : Bool}
    (hm : S.MetricOk (a.ues p))
    (h : S.attemptAllocationOfCurrentResourceToUe p beamSym a = .ok (granted, b)) :
    (granted = false ∧ a.Same b) ∨
      (granted = true ∧ ∃ rbg tb, Alloc.Granted S p beamSym rbg tb a b) := by
  cases attempt_cases h with
  | noRbg => exact Or.inl ⟨rfl, rfl, rfl, rfl, rfl⟩
  | undone _ hlt hc hd => exact Or.inl ⟨rfl, undo_allocation hm hlt hc hd⟩
  | granted hmem hlt hmetric =>
      refine Or.inr ⟨rfl, _, _, hmem, hlt, rfl, hmetric, rfl, rfl, ?_⟩
      simp [Alloc.given]

theorem attempt_error {p : UePtr} {beamSym : ℕ} {a : Alloc} {f : Fault}
    (h : S.attemptAllocationOfCurrentResourceToUe p beamSym a = .error f) : f.thrown := by
  unfold attemptAllocationOfCurrentResourceToUe at h
  obtain h | ⟨choice, _, h⟩ := bind_eq_error.mp h
  · exact chooseRbg_error h
  cases choice with
  | none => cases h
  | some rbg =>
      obtain h | ⟨b₁, _, h⟩ := bind_eq_error.mp h
      · exact allocateCurrentResourceToUe_error h
      obtain h | ⟨b₂, _, h⟩ := bind_eq_error.mp h
      · exact assignedDlResources_error h
      obtain h | ⟨undo, _, h⟩ := bind_eq_error.mp h
      · exact lowered_error h
      cases undo with
      | true =>
          obtain h | ⟨c, _, h⟩ := bind_eq_error.mp h
          · exact deallocateCurrentResourceFromUe_error h
          obtain h | ⟨d, _, h⟩ := bind_eq_error.mp h
          · exact assignedDlResources_error h
          · cases h
      | false => cases h

end Scheduler

/-! ### Releasing the RBGs of a UE -/

/-- The `m_dlRBG` of a UE that was given the RBGs `rs`, in this order. -/
def blocks (beamSym : ℕ) (rs : List ℕ) : List ℕ := rs.flatMap (List.replicate beamSym)

@[simp] theorem blocks_nil (beamSym : ℕ) : blocks beamSym [] = [] := rfl

theorem blocks_concat (beamSym : ℕ) (rs : List ℕ) (r : ℕ) :
    blocks beamSym (rs ++ [r]) = blocks beamSym rs ++ List.replicate beamSym r := by
  simp [blocks]

theorem blocks_zero (rs : List ℕ) : blocks 0 rs = [] := by
  simp [blocks]

theorem blocks_eq_nil {beamSym : ℕ} (hb : 0 < beamSym) {rs : List ℕ} :
    blocks beamSym rs = [] ↔ rs = [] := by
  constructor
  · intro h
    cases rs with
    | nil => rfl
    | cons r rs =>
        have : (blocks beamSym (r :: rs)).length = 0 := by rw [h]; rfl
        simp only [blocks, List.flatMap_cons, List.length_append, List.length_replicate] at this
        omega
  · rintro rfl
    rfl

theorem length_blocks (beamSym : ℕ) (rs : List ℕ) :
    (blocks beamSym rs).length = rs.length * beamSym := by
  unfold blocks
  simp

theorem length_le_blocks {beamSym : ℕ} (hb : 0 < beamSym) (rs : List ℕ) :
    rs.length ≤ (blocks beamSym rs).length := by
  induction rs with
  | nil => simp
  | cons r rs ih =>
      simp only [blocks, List.flatMap_cons, List.length_append, List.length_replicate,
        List.length_cons] at ih ⊢
      omega

theorem getLast?_blocks_concat {beamSym : ℕ} (hb : 0 < beamSym) (rs : List ℕ) (r : ℕ) :
    (blocks beamSym (rs ++ [r])).getLast? = some r := by
  have hne : List.replicate beamSym r ≠ [] := by
    simp only [ne_eq, List.replicate_eq_nil_iff]
    omega
  rw [blocks_concat, List.getLast?_append_of_ne_nil _ hne, List.getLast?_replicate,
    if_neg (by omega)]

theorem deallocateCurrentResourceFromUe_last {p : UePtr} {rbg beamSym : ℕ} {a : Alloc}
    {rs : List ℕ} (hl : (a.ues p).dlRBG = blocks beamSym (rs ++ [rbg]))
    (hs : (a.ues p).dlSym.length = (blocks beamSym (rs ++ [rbg])).length)
    (hr : 0 < a.assignedResources.rbg) (hrbg : rbg < a.availableRbgs.length) :
    deallocateCurrentResourceFromUe p rbg beamSym a = .ok
      { ues := Function.update a.ues p ((a.ues p).withAlloc (blocks beamSym rs)
          ((a.ues p).dlSym.take (blocks beamSym rs).length) (a.ues p).dlTbSize)
        remainingRbgSet := a.remainingRbgSet
        assignedResources := ⟨a.assignedResources.rbg - 1,
          if a.assignedResources.rbg - 1 = 0 then 0 else a.assignedResources.sym⟩
        availableRbgs := a.availableRbgs.set rbg true } := by
  rw [blocks_concat] at hl hs
  rw [List.length_append, List.length_replicate] at hs
  have hsym := (List.take_append_drop (blocks beamSym rs).length (a.ues p).dlSym).symm
  refine deallocateCurrentResourceFromUe_block hl hsym ?_ hr hrbg
  rw [List.length_drop]
  omega

/-- `b` is `a` after freeing the RBGs `rs` of the UE `p`, the last one first. -/
structure Alloc.Released (p : UePtr) (onFree : ℕ → List ℕ → List ℕ) (rs : List ℕ)
    (a b : Alloc) : Prop where
  ues : b.ues = Function.update a.ues p ((a.ues p).withAlloc [] [] (a.ues p).dlTbSize)
  remaining : b.remainingRbgSet = rs.foldr onFree a.remainingRbgSet
  rbg : b.assignedResources.rbg = a.assignedResources.rbg - rs.length
  available : b.availableRbgs.length = a.availableRbgs.length

/-- **Releasing** the RBGs of a UE whose `m_dlRBG` is made of blocks does not fail. -/
theorem releaseRbgs_blocks {p : UePtr} {beamSym : ℕ} (hb : 0 < beamSym)
    (onFree : ℕ → List ℕ → List ℕ) : ∀ (rs : List ℕ) (n : ℕ) (a : Alloc), rs.length ≤ n →
      (a.ues p).dlRBG = blocks beamSym rs →
      (a.ues p).dlSym.length = (blocks beamSym rs).length →
      rs.length ≤ a.assignedResources.rbg → (∀ r ∈ rs, r < a.availableRbgs.length) →
      ∃ b, releaseRbgs p beamSym onFree n a = .ok b ∧ Alloc.Released p onFree rs a b := by
  intro rs
  induction rs using List.reverseRecOn with
  | nil =>
      intro n a _ hl hs _ _
      have hs' : (a.ues p).dlSym = [] := List.length_eq_zero_iff.mp hs
      have hid : (a.ues p).withAlloc [] [] (a.ues p).dlTbSize = a.ues p := by
        rw [blocks_nil] at hl
        have h := UeInfo.withAlloc_self (a.ues p)
        rw [hl, hs'] at h
        exact h
      refine ⟨a, ?_, ?_, rfl, rfl, rfl⟩
      · cases n with
        | zero => simp [releaseRbgs, hl]
        | succ n => simp [releaseRbgs, hl]
      · rw [hid, Function.update_eq_self]
  | append_singleton rs r ih =>
      intro n a hn hl hs hrbg hlt
      rw [List.length_append, List.length_singleton] at hn hrbg
      obtain ⟨m, rfl⟩ : ∃ m, n = m + 1 := ⟨n - 1, by omega⟩
      have hlast : (a.ues p).dlRBG.getLast? = some r := by
        rw [hl]
        exact getLast?_blocks_concat hb rs r
      have hd := deallocateCurrentResourceFromUe_last hl hs (by omega) (hlt r (by simp))
      rw [blocks_concat, List.length_append] at hs
      simp only [releaseRbgs, hlast, hd, ok_bind]
      obtain ⟨b, hrel, hb'⟩ := ih m
        { ues := Function.update a.ues p ((a.ues p).withAlloc (blocks beamSym rs)
            ((a.ues p).dlSym.take (blocks beamSym rs).length) (a.ues p).dlTbSize)
          remainingRbgSet := onFree r a.remainingRbgSet
          assignedResources := ⟨a.assignedResources.rbg - 1,
            if a.assignedResources.rbg - 1 = 0 then 0 else a.assignedResources.sym⟩
          availableRbgs := a.availableRbgs.set r true }
        (by omega) (by simp) (by simp; omega) (by simp; omega)
        (fun x hx => by simpa using hlt x (by simp [hx]))
      refine ⟨b, hrel, ?_, ?_, ?_, ?_⟩
      · rw [hb'.ues]
        simp
      · rw [hb'.remaining, List.foldr_append]
        rfl
      · rw [hb'.rbg, List.length_append, List.length_singleton]
        exact Nat.sub_sub _ 1 _ |>.trans (by rw [Nat.add_comm])
      · rw [hb'.available]
        simp

end Rbis
