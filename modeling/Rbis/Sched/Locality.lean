import Rbis.Lib.TwoRuns
import Rbis.Sched.BeamInv

/-! # What the loop of a beam reads

The loop of a beam reads the UEs of its vector only.  Two runs from states that differ in other
UEs, as the beams before leave them, end alike function by function (`AgreeOn`), provided that
`std::sort` compares elements of its range only (`StdSort.Local`).

The two runs may have different admission thresholds.  As long as the first one discards no UE
and serves nobody whom the second one would discard, their steps keep them together
(`InStep.step`). -/

namespace Rbis

open Cxx Fallible

/-! ### The functions -/

/-- `b` is `a` with a heap that agrees on the UEs `l`. -/
def Alloc.AgreeOn (l : List UePtr) (a b : Alloc) : Prop :=
  ∃ ues, (∀ p ∈ l, ues p = a.ues p) ∧ b = { a with ues := ues }

theorem Alloc.AgreeOn.ues {l : List UePtr} {a b : Alloc} (h : a.AgreeOn l b) {p : UePtr}
    (hp : p ∈ l) : b.ues p = a.ues p := by
  obtain ⟨ues, hues, rfl⟩ := h
  exact hues p hp

theorem update_agree {l : List UePtr} {f g : UePtr → UeInfo} (h : ∀ p ∈ l, g p = f p) (p : UePtr)
    (u : UeInfo) : ∀ q ∈ l, Function.update g p u q = Function.update f p u q := by
  intro q hq
  by_cases e : q = p
  · rw [e, Function.update_self, Function.update_self]
  · rw [Function.update_of_ne e, Function.update_of_ne e]
    exact h q hq

section

variable {l : List UePtr} {p : UePtr} {rbg beamSym : ℕ} {a b : Alloc}

theorem allocateCurrentResourceToUe_agree (hp : p ∈ l) (h : a.AgreeOn l b) :
    Related (Alloc.AgreeOn l) (allocateCurrentResourceToUe p rbg beamSym a)
      (allocateCurrentResourceToUe p rbg beamSym b) := by
  obtain ⟨ues, hues, rfl⟩ := h
  unfold allocateCurrentResourceToUe
  dsimp only
  rw [hues p hp]
  apply Related.bind_same
  intro available
  exact .ok ⟨_, update_agree hues p _, rfl⟩

theorem deallocateCurrentResourceFromUe_agree (hp : p ∈ l) (h : a.AgreeOn l b) :
    Related (Alloc.AgreeOn l) (deallocateCurrentResourceFromUe p rbg beamSym a)
      (deallocateCurrentResourceFromUe p rbg beamSym b) := by
  obtain ⟨ues, hues, rfl⟩ := h
  unfold deallocateCurrentResourceFromUe
  dsimp only
  rw [hues p hp]
  apply Related.bind_same
  intro dlRBG
  apply Related.bind_same
  intro dlSym
  split
  · exact .error _
  · apply Related.bind_same
    intro available
    exact .ok ⟨_, update_agree hues p _, rfl⟩

theorem releaseRbgs_agree (onFree : ℕ → List ℕ → List ℕ) (hp : p ∈ l) : ∀ (n : ℕ) {a b : Alloc},
    a.AgreeOn l b → Related (Alloc.AgreeOn l) (releaseRbgs p beamSym onFree n a)
      (releaseRbgs p beamSym onFree n b)
  | 0, a, b, h => by
      unfold releaseRbgs
      rw [h.ues hp]
      split
      · exact .ok h
      · exact .error _
  | n + 1, a, b, h => by
      unfold releaseRbgs
      rw [h.ues hp]
      cases (a.ues p).dlRBG.getLast? with
      | none => exact .ok h
      | some rbg =>
          apply (deallocateCurrentResourceFromUe_agree hp h).bind
          rintro c d ⟨ues, hues, rfl⟩
          exact releaseRbgs_agree onFree hp n ⟨ues, hues, rfl⟩

namespace Scheduler

variable {S : Scheduler}

theorem assignedDlResources_agree (hp : p ∈ l) (h : a.AgreeOn l b) :
    Related (Alloc.AgreeOn l) (S.assignedDlResources p a) (S.assignedDlResources p b) := by
  obtain ⟨ues, hues, rfl⟩ := h
  unfold assignedDlResources
  dsimp only
  rw [hues p hp]
  apply Related.bind_same
  intro ue
  exact .ok ⟨_, update_agree hues p _, rfl⟩

/-- The same answer, and allocations that agree. -/
def SameAttempt (l : List UePtr) (r r' : Bool × Alloc) : Prop := r'.1 = r.1 ∧ r.2.AgreeOn l r'.2

theorem attempt_agree (hp : p ∈ l) (h : a.AgreeOn l b) :
    Related (SameAttempt l) (S.attemptAllocationOfCurrentResourceToUe p beamSym a)
      (S.attemptAllocationOfCurrentResourceToUe p beamSym b) := by
  have hrem : b.remainingRbgSet = a.remainingRbgSet := by
    obtain ⟨ues, _, rfl⟩ := h
    rfl
  unfold attemptAllocationOfCurrentResourceToUe
  rw [h.ues hp, hrem]
  apply Related.bind_same
  intro rbg
  cases rbg with
  | none => exact .ok ⟨rfl, h⟩
  | some rbg =>
      apply (allocateCurrentResourceToUe_agree hp h).bind
      intro a b h
      apply (assignedDlResources_agree hp h).bind
      intro a b h
      rw [h.ues hp]
      apply Related.bind_same
      intro undo
      cases undo with
      | true =>
          apply (deallocateCurrentResourceFromUe_agree hp h).bind
          intro a b h
          apply (assignedDlResources_agree hp h).bind
          intro a b h
          exact .ok ⟨rfl, h⟩
      | false =>
          obtain ⟨ues, hues, rfl⟩ := h
          exact .ok ⟨rfl, ues, hues, rfl⟩

theorem skipCount_agree {f g : UePtr → UeInfo} (h : ∀ p ∈ l, g p = f p) (r : ℕ) :
    ∀ {v : List UePtrAndBufferReq}, (∀ ue ∈ v, ue.1 ∈ l) → S.skipCount g r v = S.skipCount f r v
  | [], _ => rfl
  | (p, buf) :: v, hv => by
      unfold skipCount
      rw [h p (hv (p, buf) List.mem_cons_self),
        skipCount_agree h r fun ue hue => hv ue (List.mem_cons_of_mem _ hue)]

theorem notAssignedOthers_agree {v : List UePtrAndBufferReq} (hp : p ∈ l) (hv : ∀ ue ∈ v, ue.1 ∈ l)
    (h : a.AgreeOn l b) :
    Related (Alloc.AgreeOn l) (S.notAssignedOthers p v a) (S.notAssignedOthers p v b) := by
  unfold notAssignedOthers
  refine Related.foldlM (fun ue hue a b h => ?_) h
  rw [h.ues (hv ue hue), h.ues hp]
  split
  · exact assignedDlResources_agree (hv ue hue) h
  · exact .ok h

end Scheduler

end

/-! ### The steps -/

/-- The program point without the flag of the admission test. -/
def Pc.point : Pc → Pc
  | .serve prevRemaining _ => .serve prevRemaining true
  | pc => pc

theorem Pc.eq_of_point {a b : Pc} (h : b.point = a.point) :
    b = a ∨ ∃ n f g, a = .serve n f ∧ b = .serve n g := by
  cases a with
  | serve n f =>
      cases b with
      | serve m g =>
          cases h
          exact Or.inr ⟨n, f, g, rfl, rfl⟩
      | _ => cases h
  | _ =>
      cases b with
      | serve m g => cases h
      | _ => exact Or.inl h

/-- `t` is `s` with a heap that agrees on the UEs `l` and a flag of its own. -/
structure InStep (l : List UePtr) (s t : BeamState) : Prop where
  alloc : s.alloc.AgreeOn l t.alloc
  ueVector : t.ueVector = s.ueVector
  schedInfoIt : t.schedInfoIt = s.schedInfoIt
  reapingResources : t.reapingResources = s.reapingResources
  pc : t.pc.point = s.pc.point
  mem : ∀ ue ∈ s.ueVector, ue.1 ∈ l

namespace InStep

open Scheduler

variable {l : List UePtr} {s t : BeamState} {S : Scheduler} {st st' : DppaStatics} {beamSym : ℕ}

theorem ueOf (h : InStep l s t) {ue : UePtrAndBufferReq} (hue : ue ∈ s.ueVector) :
    t.ueOf ue = s.ueOf ue := h.alloc.ues (h.mem ue hue)

theorem remaining (h : InStep l s t) : t.alloc.remainingRbgSet = s.alloc.remainingRbgSet := by
  obtain ⟨ues, _, hues⟩ := h.alloc
  rw [hues]

theorem nextIt (h : InStep l s t) : S.nextIt beamSym t = S.nextIt beamSym s := by
  obtain ⟨ues, hues, halloc⟩ := h.alloc
  unfold Scheduler.nextIt
  rw [h.schedInfoIt, h.ueVector, halloc]
  rw [skipCount_agree hues beamSym fun ue hue => h.mem ue (List.mem_of_mem_drop hue)]

theorem withPc (h : InStep l s t) (pc : Pc) : InStep l { s with pc := pc } { t with pc := pc } where
  alloc := h.alloc
  ueVector := h.ueVector
  schedInfoIt := h.schedInfoIt
  reapingResources := h.reapingResources
  pc := rfl
  mem := h.mem

theorem settle (h : InStep l s t) {x y : Except Fault BeamState} (hxy : Related (InStep l) x y) :
    InStep l (s.settle x) (t.settle y) := by
  cases hxy with
  | ok h' => exact h'
  | error f => exact h.withPc _

theorem allocTest (h : InStep l s t) :
    Related (InStep l) (Scheduler.allocTest st' s) (Scheduler.allocTest st t) := by
  unfold Scheduler.allocTest BeamState.deref
  rw [h.remaining, h.ueVector, h.schedInfoIt]
  split
  · exact .ok ⟨h.alloc, rfl, rfl, h.reapingResources, rfl, h.mem⟩
  · apply Related.bind_same
    intro ue
    exact .ok ⟨h.alloc, rfl, rfl, h.reapingResources, rfl, h.mem⟩

theorem afterAttempt (h : InStep l s t) (prevRemaining : ℕ) {ue : UePtrAndBufferReq}
    (hue : ue ∈ s.ueVector) {r r' : Bool × Alloc} (hr : SameAttempt l r r') :
    Related (InStep l) (S.afterAttempt st' prevRemaining ue s r)
      (S.afterAttempt st prevRemaining ue t r') := by
  obtain ⟨granted, a⟩ := r
  obtain ⟨granted', b⟩ := r'
  obtain ⟨rfl, hab⟩ := hr
  unfold Scheduler.afterAttempt BeamState.deref
  dsimp only
  rw [h.ueVector, h.schedInfoIt]
  split
  · apply (notAssignedOthers_agree (h.mem ue hue) h.mem hab).bind
    intro a b hab
    exact .ok ⟨hab, rfl, rfl, h.reapingResources, rfl, h.mem⟩
  · split
    · exact .ok ⟨hab, rfl, rfl, rfl, rfl, h.mem⟩
    · apply Related.bind_same
      intro ue
      exact .ok ⟨hab, rfl, rfl, h.reapingResources, rfl, h.mem⟩

/-- A round of the serving loop in which both runs come to an attempt, or none. -/
theorem serve (h : InStep l s t) (hit : s.schedInfoIt ≤ s.ueVector.length) (prevRemaining : ℕ)
    {f g : Bool} (hgo : S.nextIt beamSym s < s.ueVector.length → f = true ∧ g = true) :
    Related (InStep l) (S.serve st' beamSym prevRemaining f s)
      (S.serve st beamSym prevRemaining g t) := by
  have hit' : t.schedInfoIt ≤ t.ueVector.length := by
    rw [h.schedInfoIt, h.ueVector]
    exact hit
  have hle : S.nextIt beamSym s ≤ s.ueVector.length := nextIt_le hit
  obtain hlt | hend := hle.lt_or_eq
  · obtain ⟨rfl, rfl⟩ := hgo hlt
    have hue := List.getElem?_eq_getElem hlt
    have hue' : t.ueVector[S.nextIt beamSym t]? = some s.ueVector[S.nextIt beamSym s] := by
      rw [h.ueVector, h.nextIt]
      exact hue
    rw [serve_attempt hit hue, serve_attempt hit' hue', h.nextIt]
    have hmem := List.mem_of_getElem? hue
    apply (attempt_agree (h.mem _ hmem) h.alloc).bind
    intro r r' hr
    have hmoved : InStep l { s with schedInfoIt := S.nextIt beamSym s }
        { t with schedInfoIt := S.nextIt beamSym s } :=
      ⟨h.alloc, h.ueVector, rfl, h.reapingResources, h.pc, h.mem⟩
    exact hmoved.afterAttempt prevRemaining hmem hr
  · have hend' : S.nextIt beamSym t = t.ueVector.length := by
      rw [h.nextIt, h.ueVector, hend]
    rw [serve_leave hit (Or.inl hend), serve_leave hit' (Or.inl hend'), h.nextIt]
    exact .ok ⟨h.alloc, h.ueVector, rfl, h.reapingResources, rfl, h.mem⟩

theorem sortByTbSize (h : InStep l s t) (hsort : S.stdSort.Local) :
    S.sortByTbSize t = S.sortByTbSize s := by
  unfold Scheduler.sortByTbSize
  rw [h.ueVector]
  apply hsort
  intro a ha b hb
  rw [h.ueOf ha, h.ueOf hb]

theorem reapVictim (h : InStep l s t) (hsort : S.stdSort.Local) :
    S.reapVictim t = S.reapVictim s := by
  unfold Scheduler.reapVictim
  rw [h.sortByTbSize hsort]
  cases hlast : (S.sortByTbSize s).getLast? with
  | none => rfl
  | some ue =>
      have hue := (sortByTbSize_perm (S := S) s).mem_iff.mp (List.mem_of_getLast? hlast)
      dsimp only
      rw [h.ueOf hue]

theorem reap (h : InStep l s t) (hsort : S.stdSort.Local) :
    Related (InStep l) (S.reap beamSym s) (S.reap beamSym t) := by
  have hmem : ∀ ue ∈ S.sortByTbSize s, ue.1 ∈ l := fun ue hue =>
    h.mem ue ((sortByTbSize_perm (S := S) s).mem_iff.mp hue)
  unfold Scheduler.reap
  rw [h.reapVictim hsort, h.sortByTbSize hsort]
  cases hv : S.reapVictim s with
  | none => exact .ok ⟨h.alloc, rfl, h.schedInfoIt, rfl, rfl, hmem⟩
  | some ue =>
      have hue := reapVictim_mem hv
      dsimp only
      rw [h.ueOf hue]
      apply (releaseRbgs_agree emplace (h.mem ue hue) _ h.alloc).bind
      intro a b hab
      apply (assignedDlResources_agree (h.mem ue hue) hab).bind
      intro a b hab
      have hfold : Related (Alloc.AgreeOn l)
          ((S.sortByTbSize s).foldlM (fun a uev => S.assignedDlResources uev.1 a) a)
          ((S.sortByTbSize s).foldlM (fun a uev => S.assignedDlResources uev.1 a) b) :=
        Related.foldlM (fun uev huev a b hab => assignedDlResources_agree (hmem uev huev) hab) hab
      apply hfold.bind
      intro a b hab
      exact .ok ⟨hab, rfl, h.schedInfoIt, h.reapingResources, rfl,
        fun uev huev => hmem uev (List.mem_of_mem_dropLast huev)⟩

/-- **Step lemma.** Two runs stay together when they agree on each attempt. -/
theorem step (h : InStep l s t) (hs : BeamInv S st' beamSym s) (hsort : S.stdSort.Local)
    (hgo : ∀ n f g, s.pc = .serve n f → t.pc = .serve n g →
      S.nextIt beamSym s < s.ueVector.length → f = true ∧ g = true) :
    InStep l (S.step st' beamSym s) (S.step st beamSym t) := by
  obtain hpc | ⟨n, f, g, hpc, hpc'⟩ := Pc.eq_of_point h.pc
  · cases hs' : s.pc with
    | reapTest =>
        rw [step_reapTest hs', step_reapTest (hpc.trans hs')]
        refine ⟨h.alloc, h.ueVector, h.schedInfoIt, h.reapingResources, ?_, h.mem⟩
        dsimp only
        rw [h.reapingResources]
    | allocTest =>
        rw [step_allocTest hs', step_allocTest (hpc.trans hs')]
        exact h.settle h.allocTest
    | serve n f =>
        obtain ⟨_, _, _, ue, hue, _⟩ := hs.at_serve hs'
        rw [step_serve hs', step_serve (hpc.trans hs')]
        exact h.settle (h.serve (lt_of_getElem?_some hue).le n (hgo n f f hs' (hpc.trans hs')))
    | progress n =>
        rw [step_progress hs', step_progress (hpc.trans hs'), h.remaining]
        exact h.withPc _
    | reap =>
        rw [step_reap hs', step_reap (hpc.trans hs')]
        exact h.settle (h.reap hsort)
    | finished =>
        rw [step_finished hs', step_finished (hpc.trans hs')]
        exact h
    | fault f =>
        rw [step_fault hs', step_fault (hpc.trans hs')]
        exact h
  · obtain ⟨_, _, _, ue, hue, _⟩ := hs.at_serve hpc
    rw [step_serve hpc, step_serve hpc']
    exact h.settle (h.serve (lt_of_getElem?_some hue).le n (hgo n f g hpc hpc'))

end InStep

end Rbis
