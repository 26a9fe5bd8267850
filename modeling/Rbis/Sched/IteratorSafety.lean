import Rbis.Sched.CallFrame

/-! # The iterator of the allocation loop

`schedInfoIt` is created once per beam and kept over the sorts and the `pop_back`s of the
vector it points into.  A reaping round that pops the element it stands at, or leaves it at
the new end, makes the next round of the inner loop read outside the vector.  The loop reads
the iterator only inside the vector exactly if no reaping round does that while RBGs remain
(`iteratorSafe_iff`). -/

namespace Rbis

open Cxx

/-- The iterator is never read outside the vector, and the loops of the call end. -/
def IteratorSafe (S : Scheduler) (now : ℚ) (i : SlotStart) : Prop :=
  ∀ st beamSym s, S.LoopEntry now i st beamSym s →
    (∀ t, Orbit.Reaches (S.step st beamSym) s t → t.pc ≠ .fault .invalidIterator) ∧
    ∃ t, Orbit.Reaches (S.step st beamSym) s t ∧ t.halted = true ∧ t.pc ≠ .fault .diverged

/-- When the reaping round at `s` pops a UE, and the loop goes on with RBGs to give, the
iterator stands before the last element. -/
def PopKeepsIterator (S : Scheduler) (s : BeamState) : Prop :=
  ∀ ue, S.reapVictim s = some ue → s.reapingResources = true →
    (s.alloc.remainingRbgSet ≠ [] ∨ (s.ueOf ue).dlRBG ≠ []) →
      s.schedInfoIt + 1 < s.ueVector.length

namespace Scheduler

variable {S : Scheduler} {st : DppaStatics} {beamSym : ℕ}

/-- The iterator is inside the vector wherever the code is about to read it. -/
def IteratorInRange (s : BeamState) : Prop :=
  match s.pc with
  | .reapTest => s.reapingResources = true → s.alloc.remainingRbgSet ≠ [] →
      s.schedInfoIt < s.ueVector.length
  | .allocTest => s.alloc.remainingRbgSet ≠ [] → s.schedInfoIt < s.ueVector.length
  | .serve _ _ => True
  | .progress prevRemaining => s.alloc.remainingRbgSet.length + 1 = prevRemaining →
      s.schedInfoIt < s.ueVector.length
  | .reap => True
  | .finished => True
  | .fault f => f ≠ .invalidIterator

theorem iteratorInRange_serve {s : BeamState} {prevRemaining : ℕ} {lyapunov : Bool}
    (h : BeamInv S st beamSym s) (hs : s.pc = .serve prevRemaining lyapunov) :
    IteratorInRange (S.step st beamSym s) := by
  obtain ⟨_, hprev, _⟩ := h.at_serve hs
  obtain ⟨r, hserve, hstep⟩ := h.step_serve_cases hs
  rw [hstep]
  cases hserve with
  | leave it hit h =>
      intro hprog
      have : s.alloc.remainingRbgSet.length + 1 = prevRemaining := hprog
      omega
  | throws f hf => exact hf.1
  | granted it ue b rbg tb hit hue hlyap hatt hg => exact fun _ => lt_of_getElem?_some hue
  | lastFailed it b hit hlast hb =>
      intro hprog
      have : b.remainingRbgSet.length + 1 = prevRemaining := hprog
      rw [hb.remaining] at this
      omega
  | failed it ue b hit hue hb => trivial

theorem iteratorInRange_reap {s : BeamState} (h : BeamInv S st beamSym s) (hs : s.pc = .reap)
    (hk : PopKeepsIterator S s) : IteratorInRange (S.step st beamSym s) := by
  have hlen := (sortByTbSize_perm (S := S) s).length_eq
  obtain ⟨r, hreap, hstep⟩ := h.step_reap_cases hs
  rw [hstep]
  cases hreap with
  | done h =>
      intro h
      cases h
  | popped ue c hv hlast hc hl =>
      intro hgo hrem
      show s.schedInfoIt < (S.sortByTbSize s).dropLast.length
      have hne : s.alloc.remainingRbgSet ≠ [] ∨ (s.ueOf ue).dlRBG ≠ [] := by
        by_contra hcon
        rw [not_or, not_not, not_not] at hcon
        exact hrem (hc.remaining.mpr hcon)
      have := hk ue hv hgo hne
      rw [List.length_dropLast, hlen]
      omega

/-- **Step lemma.** A step keeps the iterator in range, unless it is a reaping round that pops
its element. -/
theorem step_iteratorInRange {s : BeamState} (h : BeamInv S st beamSym s)
    (hit : IteratorInRange s) (hk : s.pc = .reap → PopKeepsIterator S s) :
    IteratorInRange (S.step st beamSym s) := by
  cases hs : s.pc with
  | reapTest =>
      simp only [IteratorInRange, hs] at hit
      rw [step_reapTest hs]
      cases hgo : s.reapingResources with
      | true => exact hit hgo
      | false => trivial
  | allocTest =>
      simp only [IteratorInRange, hs] at hit
      rw [step_allocTest hs]
      obtain ⟨_, e⟩ | ⟨hne, hnone, e⟩ | ⟨_, ue, _, e⟩ := allocTest_cases st s
      · rw [e]
        trivial
      · have hlt := hit hne
        rw [List.getElem?_eq_none_iff] at hnone
        omega
      · rw [e]
        trivial
  | serve prevRemaining lyapunov => exact iteratorInRange_serve h hs
  | progress prevRemaining =>
      simp only [IteratorInRange, hs] at hit
      rw [step_progress hs]
      split
      · trivial
      · next hne =>
          obtain ⟨h1, _⟩ | ⟨h1, _⟩ := h.at_progress hs
          · exact absurd h1.symm hne
          · exact fun _ => hit h1
  | reap => exact iteratorInRange_reap h hs (hk hs)
  | finished =>
      rw [step_finished hs]
      exact hit
  | fault f =>
      rw [step_fault hs]
      exact hit

/-- A reaping round that pops the element of the iterator leads to a read outside the
vector: the two tests follow, then the iterator is read. -/
theorem fault_of_pop {s : BeamState} (h : BeamInv S st beamSym s) (hs : s.pc = .reap)
    (hk : ¬ PopKeepsIterator S s) :
    (S.step st beamSym (S.step st beamSym (S.step st beamSym s))).pc =
      .fault .invalidIterator := by
  unfold PopKeepsIterator at hk
  push Not at hk
  obtain ⟨ue, hv, hgo, hne, hlen⟩ := hk
  have hperm := (sortByTbSize_perm (S := S) s).length_eq
  obtain ⟨r, hreap, hstep⟩ := h.step_reap_cases hs
  rw [hstep]
  cases hreap with
  | done h => rw [h] at hv; cases hv
  | popped ue' c hv' hlast hc hl =>
      have hue : ue' = ue := by
        rw [hv] at hv'
        exact (Option.some.inj hv').symm
      subst hue
      have hrem : c.remainingRbgSet ≠ [] := by
        intro hcon
        obtain ⟨h1, h2⟩ := hc.remaining.mp hcon
        exact hne.elim (fun h => h h1) fun h => h h2
      have hnone : (S.sortByTbSize s).dropLast[s.schedInfoIt]? = none := by
        rw [List.getElem?_eq_none_iff, List.length_dropLast, hperm]
        omega
      have htest : S.step st beamSym
            { s with alloc := c, ueVector := (S.sortByTbSize s).dropLast, pc := .reapTest } =
          { s with alloc := c, ueVector := (S.sortByTbSize s).dropLast, pc := .allocTest } := by
        rw [step_reapTest rfl]
        simp [hgo]
      show (S.step st beamSym (S.step st beamSym _)).pc = _
      rw [BeamState.settle, htest, step_allocTest rfl]
      obtain ⟨h1, _⟩ | ⟨_, _, e⟩ | ⟨_, u, h1, _⟩ := allocTest_cases st
        { s with alloc := c, ueVector := (S.sortByTbSize s).dropLast, pc := .allocTest }
      · exact absurd h1 hrem
      · rw [e]
        rfl
      · rw [hnone] at h1
        cases h1

end Scheduler

/-- **The iterator is safe exactly if no reaping round pops its element** while RBGs remain
for the loop to give. -/
theorem iteratorSafe_iff (S : Scheduler) (now : ℚ) (i : SlotStart) :
    IteratorSafe S now i ↔
      ∀ st beamSym s, S.LoopEntry now i st beamSym s →
        ∀ t, Orbit.Reaches (S.step st beamSym) s t → t.pc = .reap → PopKeepsIterator S t := by
  constructor
  · intro h st beamSym s hs t ht hpc
    by_contra hk
    have hinv := (Scheduler.reaches_inv ht (Scheduler.loopEntry_inv hs).1).1
    exact (h st beamSym s hs).1 _ ht.tail.tail.tail (Scheduler.fault_of_pop hinv hpc hk)
  · intro h st beamSym s hs
    obtain ⟨hinv, hpc, hit, hne⟩ := Scheduler.loopEntry_inv hs
    have hrange : ∀ t, Orbit.Reaches (S.step st beamSym) s t →
        Scheduler.BeamInv S st beamSym t ∧ Scheduler.IteratorInRange t := by
      intro t ht
      have hstart : Scheduler.IteratorInRange s := by
        simp only [Scheduler.IteratorInRange, hpc]
        intro _ _
        rw [hit]
        exact List.length_pos_iff.mpr hne
      have hstep : ∀ u, Scheduler.BeamInv S st beamSym u ∧ Scheduler.IteratorInRange u →
          (u.pc = .reap → PopKeepsIterator S u) →
          Scheduler.BeamInv S st beamSym (S.step st beamSym u) ∧
            Scheduler.IteratorInRange (S.step st beamSym u) :=
        fun u hu hk => ⟨Scheduler.step_inv hu.1, Scheduler.step_iteratorInRange hu.1 hu.2 hk⟩
      exact ht.inv_of_guard hstep ⟨hinv, hstart⟩ (h st beamSym s hs)
    have hend : Orbit.Reaches (S.step st beamSym) s _ :=
      Orbit.runFuel_reaches BeamState.halted (Scheduler.loopFuel s) s
    refine ⟨fun t ht hfault => ?_, _, hend, Scheduler.loop_halts hinv hpc, fun hdiv => ?_⟩
    · have := (hrange t ht).2
      simp [Scheduler.IteratorInRange, hfault] at this
    · have := (hrange _ hend).1.pc
      simp [Scheduler.PcInv, hdiv] at this

/-- One UE with an empty virtual queue and `V = 5`: its weight is above `-V`, so that it is
discarded, reaped with no transport block, and popped; the next round reads the iterator of an
empty vector. -/
theorem not_iteratorSafe_discarded :
    ¬ IteratorSafe (.wideband [true]) 0
      (.oneBeam (.fresh (setDppWeights 1 0 1) fun _ => 0) (fun _ => ⟨rfl, rfl, rfl⟩) (0, 100) []
        (by decide)) := by
  intro h
  have hentry : Scheduler.LoopEntry (.wideband [true]) 0
      (.oneBeam (.fresh (setDppWeights 1 0 1) fun _ => 0) (fun _ => ⟨rfl, rfl, rfl⟩) (0, 100) []
        (by decide)) _ _ _ := .first rfl rfl
  exact (h _ _ _ hentry).1 _ ⟨7, rfl⟩ (by decide +kernel)

end Rbis
