import Rbis.Sched.CallFrame

/-! # The partition of the RBGs of a beam

The code keeps the allocation of a beam in five places: the set `remainingRbgSet`, the mask
`availableRbgs`, the counter of `assignedResources`, and the vectors `m_dlRBG` and `m_dlSym` of
each UE.  `Partitioned` says that they agree, over all the UEs of the beam.  It holds at every
program point of the allocation loop of a beam with symbols, and between the rounds of a
release (`partitioned_of_visits`).

The ledger of `BeamInv` covers the UEs still in the vector; here the UEs that were popped are
added, which hold nothing (`Idle`), and the mask (`Alloc.Marked`). -/

namespace Rbis

open Cxx Fallible Sharing

/-! ### The rounds of a release -/

/-- The first rounds of `while (!m_dlRBG.empty())`, the loop of `releaseRbgs`. -/
def releaseRounds (p : UePtr) (beamSym : ℕ) (onFree : ℕ → List ℕ → List ℕ) :
    ℕ → Alloc → Except Fault Alloc
  | 0, a => .ok a
  | k + 1, a =>
      match (a.ues p).dlRBG.getLast? with
      | none => .ok a
      | some rbg => do
          let b ← deallocateCurrentResourceFromUe p rbg beamSym a
          releaseRounds p beamSym onFree k
            { b with remainingRbgSet := onFree rbg b.remainingRbgSet }

/-- The loop runs until the UE has no RBG. -/
theorem releaseRbgs_ok_iff {p : UePtr} {beamSym : ℕ} {onFree : ℕ → List ℕ → List ℕ} :
    ∀ {n : ℕ} {a b : Alloc}, releaseRbgs p beamSym onFree n a = .ok b ↔
      releaseRounds p beamSym onFree n a = .ok b ∧ (b.ues p).dlRBG = []
  | 0, a, b => by
      simp only [releaseRbgs, releaseRounds]
      split
      · next h =>
          constructor
          · intro e
            cases e
            exact ⟨rfl, h⟩
          · exact fun e => e.1
      · next h =>
          constructor
          · intro e
            cases e
          · rintro ⟨e, hb⟩
            cases e
            exact absurd hb h
  | n + 1, a, b => by
      simp only [releaseRbgs, releaseRounds]
      cases hlast : (a.ues p).dlRBG.getLast? with
      | none =>
          have hnil : (a.ues p).dlRBG = [] := List.getLast?_eq_none_iff.mp hlast
          constructor
          · intro e
            cases e
            exact ⟨rfl, hnil⟩
          · exact fun e => e.1
      | some rbg =>
          dsimp only
          cases deallocateCurrentResourceFromUe p rbg beamSym a with
          | error f =>
              simp only [error_bind]
              constructor
              · intro e
                cases e
              · rintro ⟨e, _⟩
                cases e
          | ok c =>
              simp only [ok_bind]
              exact releaseRbgs_ok_iff

/-! ### The mask of the available RBGs -/

/-- A usable RBG is marked available exactly if it remains. -/
def Alloc.Marked (S : Scheduler) (a : Alloc) : Prop :=
  ∀ r ∈ S.usableRbgs, a.availableRbgs[r]? = some true ↔ r ∈ a.remainingRbgSet

namespace Alloc.Marked

variable {S : Scheduler} {a b : Alloc}

theorem congr (h : a.Marked S) (hm : b.availableRbgs = a.availableRbgs)
    (hr : b.remainingRbgSet = a.remainingRbgSet) : b.Marked S := by
  unfold Alloc.Marked
  rw [hm, hr]
  exact h

theorem take (h : a.Marked S) (hn : a.remainingRbgSet.Nodup) {rbg : ℕ}
    (hm : b.availableRbgs = a.availableRbgs.set rbg false)
    (hr : b.remainingRbgSet = a.remainingRbgSet.erase rbg) : b.Marked S := by
  intro r hr'
  rw [hm, hr, hn.mem_erase_iff, ← h r hr', List.getElem?_set]
  by_cases e : rbg = r
  · subst e
    simp
  · rw [if_neg e]
    exact ⟨fun h' => ⟨Ne.symm e, h'⟩, fun h' => h'.2⟩

theorem put (h : a.Marked S) {rbg : ℕ} (hlt : rbg < a.availableRbgs.length)
    (hm : b.availableRbgs = a.availableRbgs.set rbg true)
    (hr : ∀ r, r ∈ b.remainingRbgSet ↔ r = rbg ∨ r ∈ a.remainingRbgSet) : b.Marked S := by
  intro r hr'
  rw [hm, hr, ← h r hr', List.getElem?_set]
  by_cases e : rbg = r
  · subst e
    simp [hlt]
  · rw [if_neg e]
    exact ⟨Or.inr, fun h' => h'.resolve_left (Ne.symm e)⟩

end Alloc.Marked

theorem deallocateCurrentResourceFromUe_mask {p : UePtr} {rbg beamSym : ℕ} {a b : Alloc}
    (h : deallocateCurrentResourceFromUe p rbg beamSym a = .ok b) :
    rbg < a.availableRbgs.length ∧ b.availableRbgs = a.availableRbgs.set rbg true ∧
      b.remainingRbgSet = a.remainingRbgSet := by
  obtain ⟨_, hlt, _, _, _, rfl⟩ := deallocateCurrentResourceFromUe_ok h
  exact ⟨hlt, rfl, rfl⟩

theorem mem_emplace {r x : ℕ} {l : List ℕ} : x ∈ emplace r l ↔ x = r ∨ x ∈ l := by
  by_cases h : r ∈ l
  · unfold emplace
    rw [if_pos h]
    constructor
    · exact Or.inr
    · rintro (rfl | h')
      · exact h
      · exact h'
  · rw [(emplace_perm h).mem_iff, List.mem_cons]

theorem releaseRounds_marked {S : Scheduler} {p : UePtr} {beamSym : ℕ} : ∀ {k : ℕ} {a b : Alloc},
    a.Marked S → releaseRounds p beamSym emplace k a = .ok b → b.Marked S
  | 0, a, b, hm, h => by
      cases h
      exact hm
  | k + 1, a, b, hm, h => by
      unfold releaseRounds at h
      split at h
      · cases h
        exact hm
      · next rbg _ =>
          obtain ⟨c, hc, h⟩ := bind_eq_ok.mp h
          obtain ⟨hlt, hmask, hrem⟩ := deallocateCurrentResourceFromUe_mask hc
          have hput : Alloc.Marked S { c with remainingRbgSet := emplace rbg c.remainingRbgSet } := by
            refine hm.put hlt hmask fun r => ?_
            rw [← hrem]
            exact mem_emplace
          exact releaseRounds_marked hput h

namespace Scheduler

variable {S : Scheduler} {st : DppaStatics} {beamSym : ℕ}

theorem assignedDlResources_mask {p : UePtr} {a b : Alloc} (h : S.assignedDlResources p a = .ok b) :
    b.availableRbgs = a.availableRbgs ∧ b.remainingRbgSet = a.remainingRbgSet := by
  obtain ⟨tb, _, rfl⟩ := assignedDlResources_ok h
  exact ⟨rfl, rfl⟩

/-- An attempt keeps the mask, also when it undoes its allocation. -/
theorem attempt_marked {p : UePtr} {a b : Alloc} {granted : Bool} (hm : a.Marked S)
    (hn : a.remainingRbgSet.Nodup)
    (h : S.attemptAllocationOfCurrentResourceToUe p beamSym a = .ok (granted, b)) :
    b.Marked S := by
  cases attempt_cases h with
  | noRbg => exact hm
  | undone hmem hlt hc hd =>
      obtain ⟨_, hmask, hrem⟩ := deallocateCurrentResourceFromUe_mask hc
      obtain ⟨hmask', hrem'⟩ := assignedDlResources_mask hd
      refine hm.put hlt ?_ fun r => ?_
      · rw [hmask', hmask]
        exact List.set_set _
      · have hset : b.remainingRbgSet = a.remainingRbgSet := by rw [hrem', hrem]; rfl
        rw [hset]
        constructor
        · exact Or.inr
        · rintro (rfl | h')
          · exact hmem
          · exact h'
  | granted => exact hm.take hn rfl rfl

/-- What a round of the serving loop does to the resources: nothing, or an attempt. -/
theorem serve_alloc {prevRemaining : ℕ} {lyapunov : Bool} {s t : BeamState}
    (hl : ∃ runs lost, Ledger S beamSym runs lost s.ueVector s.alloc)
    (hit : s.schedInfoIt ≤ s.ueVector.length)
    (h : S.serve st beamSym prevRemaining lyapunov s = .ok t) :
    t.alloc = s.alloc ∨ ∃ ue granted, ue ∈ s.ueVector ∧
      S.attemptAllocationOfCurrentResourceToUe ue.1 beamSym s.alloc = .ok (granted, t.alloc) := by
  by_cases hend : S.nextIt beamSym s = s.ueVector.length ∨ lyapunov = false
  · rw [serve_leave hit hend] at h
    cases h
    exact Or.inl rfl
  rw [not_or, Bool.not_eq_false] at hend
  obtain ⟨hend, rfl⟩ := hend
  have hle : S.nextIt beamSym s ≤ s.ueVector.length := nextIt_le hit
  obtain ⟨ue, hue⟩ : ∃ ue, s.ueVector[S.nextIt beamSym s]? = some ue :=
    ⟨_, List.getElem?_eq_getElem (by omega)⟩
  have hserve := h
  rw [serve_attempt hit hue] at hserve
  obtain ⟨⟨granted, b⟩, hatt, hafter⟩ := bind_eq_ok.mp hserve
  refine Or.inr ⟨ue, granted, List.mem_of_getElem? hue, ?_⟩
  cases granted with
  | true =>
      have hg := (serve_granted hl hit hue hatt st prevRemaining).2
      rw [hg] at h
      cases h
      exact hatt
  | false =>
      unfold afterAttempt at hafter
      rw [if_neg (by simp)] at hafter
      dsimp only at hafter
      split at hafter
      · cases hafter
        exact hatt
      · obtain ⟨u, _, hafter⟩ := bind_eq_ok.mp hafter
        cases hafter
        exact hatt

theorem reap_marked {s t : BeamState} (hm : s.alloc.Marked S) (h : S.reap beamSym s = .ok t) :
    t.alloc.Marked S := by
  unfold reap at h
  split at h
  · cases h
    exact hm
  · obtain ⟨a, ha, h⟩ := bind_eq_ok.mp h
    obtain ⟨b, hb, h⟩ := bind_eq_ok.mp h
    obtain ⟨c, hc, h⟩ := bind_eq_ok.mp h
    cases h
    have hma : a.Marked S := releaseRounds_marked hm (releaseRbgs_ok_iff.mp ha).1
    obtain ⟨h1, h2⟩ := assignedDlResources_mask hb
    refine foldlM_ok (P := fun a => a.Marked S) ?_ (hma.congr h1 h2) hc
    intro ue _ x y hx hy
    obtain ⟨h1, h2⟩ := assignedDlResources_mask hy
    exact hx.congr h1 h2

end Scheduler

/-! ### The shares of the UEs of a beam -/

theorem mem_of_mem_blocks {beamSym : ℕ} {rs : List ℕ} {r : ℕ} (h : r ∈ blocks beamSym rs) :
    r ∈ rs := by
  obtain ⟨x, hx, hr⟩ := List.mem_flatMap.mp h
  rw [(List.mem_replicate.mp hr).2]
  exact hx

theorem mem_blocks {beamSym : ℕ} (hb : 0 < beamSym) {rs : List ℕ} {r : ℕ} :
    r ∈ blocks beamSym rs ↔ r ∈ rs := by
  refine ⟨mem_of_mem_blocks, fun hr => ?_⟩
  exact List.mem_flatMap.mpr ⟨r, hr, List.mem_replicate.mpr ⟨by omega, rfl⟩⟩

theorem card_blocks {beamSym : ℕ} (hb : 0 < beamSym) {held runs : UePtr → List ℕ}
    {ps : List UePtr} (h : ∀ p ∈ ps, held p = blocks beamSym (runs p))
    (hn : (ps.flatMap runs).Nodup) :
    (ps.flatMap held).toFinset.card = (ps.flatMap runs).length := by
  have hset : (ps.flatMap held).toFinset = (ps.flatMap runs).toFinset := by
    ext r
    simp only [List.mem_toFinset, List.mem_flatMap]
    refine exists_congr fun p => and_congr_right fun hp => ?_
    rw [h p hp]
    exact mem_blocks hb
  rw [hset]
  exact List.toFinset_card_of_nodup hn

/-- The UEs `ps` of a beam hold the RBGs `runs`, and the rest of the usable RBGs remains. -/
structure Shares (S : Scheduler) (beamSym : ℕ) (runs : UePtr → List ℕ) (ps : List UePtr)
    (a : Alloc) : Prop where
  nodup : ps.Nodup
  dlRBG : ∀ p ∈ ps, (a.ues p).dlRBG = blocks beamSym (runs p)
  dlSym : ∀ p ∈ ps, (a.ues p).dlSym.length = (blocks beamSym (runs p)).length
  shared : Shared S.usableRbgs a.remainingRbgSet ps runs
  rbg : a.assignedResources.rbg = (ps.flatMap runs).length
  marked : a.Marked S
  size : a.availableRbgs.length = S.dlBitmask.length

/-- The five places agree over the UEs `ps` of a beam. -/
structure Partitioned (S : Scheduler) (beamSym : ℕ) (ps : List UePtr) (a : Alloc) : Prop where
  /-- A usable RBG remains, or one UE has it. -/
  place : ∀ r ∈ S.usableRbgs,
    (r ∈ a.remainingRbgSet ∧ ∀ p ∈ ps, r ∉ (a.ues p).dlRBG) ∨
      (r ∉ a.remainingRbgSet ∧ ∃! p, p ∈ ps ∧ r ∈ (a.ues p).dlRBG)
  /-- No other RBG remains or is allocated. -/
  usable : (∀ r ∈ a.remainingRbgSet, r ∈ S.usableRbgs) ∧
    ∀ p ∈ ps, ∀ r ∈ (a.ues p).dlRBG, r ∈ S.usableRbgs
  runs : ∀ p ∈ ps, ∃ rs : List ℕ, rs.Nodup ∧ (a.ues p).dlRBG = blocks beamSym rs
  dlSym : ∀ p ∈ ps, (a.ues p).dlSym.length = (a.ues p).dlRBG.length
  available : ∀ r ∈ S.usableRbgs, a.availableRbgs[r]? = some true ↔ r ∈ a.remainingRbgSet
  /-- The counter is the number of RBGs allocated. -/
  rbg : a.assignedResources.rbg = (ps.flatMap fun p => (a.ues p).dlRBG).toFinset.card

namespace Shares

variable {S : Scheduler} {beamSym : ℕ} {runs : UePtr → List ℕ} {ps : List UePtr} {a b : Alloc}

theorem mem_dlRBG (h : Shares S beamSym runs ps a) (hb : 0 < beamSym) {p : UePtr} (hp : p ∈ ps)
    {r : ℕ} : r ∈ (a.ues p).dlRBG ↔ r ∈ runs p := by
  rw [h.dlRBG p hp]
  exact mem_blocks hb

theorem partitioned (h : Shares S beamSym runs ps a) (hb : 0 < beamSym) :
    Partitioned S beamSym ps a where
  place := by
    intro r hr
    obtain ⟨h1, h2⟩ | ⟨h1, p, ⟨hp, hrp⟩, huniq⟩ :=
      h.shared.free_or_held S.usableRbgs_nodup hr
    · exact Or.inl ⟨h1, fun p hp hm => h2 p hp ((h.mem_dlRBG hb hp).mp hm)⟩
    · refine Or.inr ⟨h1, p, ⟨hp, (h.mem_dlRBG hb hp).mpr hrp⟩, ?_⟩
      rintro q ⟨hq, hrq⟩
      exact huniq q ⟨hq, (h.mem_dlRBG hb hq).mp hrq⟩
  usable := by
    refine ⟨fun r hr => h.shared.mem_of_free hr, fun p hp r hr => ?_⟩
    exact h.shared.mem_of_held hp ((h.mem_dlRBG hb hp).mp hr)
  runs := fun p hp => by
    have hflat := (h.shared.nodup S.usableRbgs_nodup).2.1
    exact ⟨runs p, (List.nodup_flatMap.mp hflat).1 p hp, h.dlRBG p hp⟩
  dlSym := fun p hp => by rw [h.dlSym p hp, h.dlRBG p hp]
  available := h.marked
  rbg := by rw [card_blocks hb h.dlRBG (h.shared.nodup S.usableRbgs_nodup).2.1, h.rbg]

/-- One round of a release. -/
theorem release (h : Shares S beamSym runs ps a) (hb : 0 < beamSym) {p : UePtr} (hp : p ∈ ps)
    {rbg : ℕ} (hlast : (a.ues p).dlRBG.getLast? = some rbg)
    (hd : deallocateCurrentResourceFromUe p rbg beamSym a = .ok b) :
    ∃ runs', Shares S beamSym runs' ps
      { b with remainingRbgSet := emplace rbg b.remainingRbgSet } := by
  obtain ⟨rs, hruns⟩ : ∃ rs, runs p = rs ++ [rbg] := by
    cases hr : runs p using List.reverseRecOn with
    | nil =>
        rw [h.dlRBG p hp, hr] at hlast
        cases hlast
    | append_singleton rs r _ =>
        rw [h.dlRBG p hp, hr, getLast?_blocks_concat hb] at hlast
        cases hlast
        exact ⟨rs, rfl⟩
  have hl := h.dlRBG p hp
  have hs := h.dlSym p hp
  rw [hruns] at hl hs
  have hmem : rbg ∈ runs p := by
    rw [hruns]
    simp
  have hpos : 0 < (ps.flatMap runs).length :=
    List.length_pos_of_mem (List.mem_flatMap.mpr ⟨p, hp, hmem⟩)
  have hlt : rbg < a.availableRbgs.length := by
    rw [h.size]
    exact S.lt_of_mem_usableRbgs (h.shared.mem_of_held hp hmem)
  have hfree : rbg ∉ a.remainingRbgSet :=
    fun hf => (h.shared.nodup S.usableRbgs_nodup).2.2 rbg hf p hp hmem
  rw [deallocateCurrentResourceFromUe_last hl hs (by rw [h.rbg]; exact hpos) hlt] at hd
  cases hd
  rw [blocks_concat, List.length_append] at hs
  have hshared := h.shared.release h.nodup hp hruns (emplace_perm hfree)
  have hcount := hshared.length_eq
  have hcount' := h.shared.length_eq
  refine ⟨Function.update runs p rs, h.nodup, fun q hq => ?_, fun q hq => ?_, hshared, ?_, ?_, ?_⟩
  · by_cases e : q = p
    · rw [e]
      simp
    · simp only [Function.update_of_ne e]
      exact h.dlRBG q hq
  · by_cases e : q = p
    · rw [e]
      simp
      omega
    · simp only [Function.update_of_ne e]
      exact h.dlSym q hq
  · have hlen := (emplace_perm hfree).length_eq
    rw [List.length_append] at hcount hcount'
    rw [List.length_cons] at hlen
    show a.assignedResources.rbg - 1 = _
    rw [h.rbg]
    omega
  · exact h.marked.put hlt rfl fun r => mem_emplace
  · show (a.availableRbgs.set rbg true).length = _
    rw [List.length_set]
    exact h.size

theorem releaseRounds (hb : 0 < beamSym) {p : UePtr} (hp : p ∈ ps) : ∀ {k : ℕ} {a b : Alloc}
    {runs : UePtr → List ℕ}, Shares S beamSym runs ps a →
      releaseRounds p beamSym emplace k a = .ok b → ∃ runs', Shares S beamSym runs' ps b
  | 0, a, b, runs, h, hk => by
      cases hk
      exact ⟨runs, h⟩
  | k + 1, a, b, runs, h, hk => by
      unfold Rbis.releaseRounds at hk
      split at hk
      · cases hk
        exact ⟨runs, h⟩
      · next rbg hlast =>
          obtain ⟨c, hc, hk⟩ := bind_eq_ok.mp hk
          obtain ⟨runs', h'⟩ := h.release hb hp hlast hc
          exact releaseRounds hb hp h' hk

end Shares

/-! ### The loop keeps the partition -/

namespace Scheduler

variable {S : Scheduler} {st : DppaStatics} {beamSym : ℕ} {ps : List UePtr} {s t : BeamState}

theorem step_marked (h : BeamInv S st beamSym s) (hm : s.alloc.Marked S) :
    (S.step st beamSym s).alloc.Marked S := by
  obtain ⟨pc, hstep⟩ | ⟨prevRemaining, lyapunov, hs⟩ | hs := step_cases S st beamSym s
  · rw [hstep]
    exact hm
  · obtain ⟨_, _, _, ue, hue, _⟩ := h.at_serve hs
    have hit := (lt_of_getElem?_some hue).le
    obtain ⟨runs, lost, hl⟩ := h.ledger
    have hn : s.alloc.remainingRbgSet.Nodup :=
      (List.nodup_append.mp (hl.partition.nodup_iff.mpr S.usableRbgs_nodup)).1
    rw [step_serve hs]
    cases hr : S.serve st beamSym prevRemaining lyapunov s with
    | error f => exact hm
    | ok t =>
        obtain e | ⟨ue, granted, _, hatt⟩ := serve_alloc h.ledger hit hr
        · exact hm.congr (congrArg Alloc.availableRbgs e) (congrArg Alloc.remainingRbgSet e)
        · exact attempt_marked hm hn hatt
  · rw [step_reap hs]
    cases hr : S.reap beamSym s with
    | error f => exact hm
    | ok t => exact reap_marked hm hr

/-- A UE leaves the vector without RBGs. -/
theorem step_left (h : BeamInv S st beamSym s) {p : UePtr} (hp : p ∈ s.ueVector.map Prod.fst)
    (hp' : p ∉ (S.step st beamSym s).ueVector.map Prod.fst) :
    ((S.step st beamSym s).alloc.ues p).dlRBG = [] ∧
      ((S.step st beamSym s).alloc.ues p).dlSym = [] := by
  obtain ⟨pc, hstep⟩ | ⟨prevRemaining, lyapunov, hs⟩ | hs := step_cases S st beamSym s
  · rw [hstep] at hp'
    exact absurd hp hp'
  · obtain ⟨r, hserve, hstep⟩ := h.step_serve_cases hs
    rw [hstep] at hp' ⊢
    cases hserve with
    | leave => exact absurd hp hp'
    | throws => exact absurd hp hp'
    | granted => exact absurd hp hp'
    | lastFailed => exact absurd hp hp'
    | failed => exact absurd hp hp'
  · have hperm := (sortByTbSize_perm (S := S) s).map Prod.fst
    obtain ⟨r, hreap, hstep⟩ := h.step_reap_cases hs
    rw [hstep] at hp' ⊢
    cases hreap with
    | done => exact absurd (hperm.mem_iff.mpr hp) hp'
    | popped ue c h hlast hc hl =>
        have hmem := hperm.mem_iff.mpr hp
        rw [hlast, List.map_append, List.mem_append] at hmem
        have e : p = ue.1 := by simpa using hmem.resolve_left hp'
        show (c.ues p).dlRBG = [] ∧ (c.ues p).dlSym = []
        rw [hc.ues, e, Function.update_self]
        exact ⟨rfl, rfl⟩

/-- The invariant of the loop, with the mask and with the UEs `ps` of the beam that left the
vector. -/
structure PartInv (S : Scheduler) (st : DppaStatics) (beamSym : ℕ) (ps : List UePtr)
    (s : BeamState) : Prop where
  inv : BeamInv S st beamSym s
  mem : ∀ ue ∈ s.ueVector, ue.1 ∈ ps
  /-- A UE that left the vector holds nothing. -/
  idle : ∀ p ∈ ps, p ∉ s.ueVector.map Prod.fst →
    (s.alloc.ues p).dlRBG = [] ∧ (s.alloc.ues p).dlSym = []
  marked : s.alloc.Marked S

/-- **Step lemma.** -/
theorem step_partInv (h : PartInv S st beamSym ps s) :
    PartInv S st beamSym ps (S.step st beamSym s) := by
  have hframe : Frame s (S.step st beamSym s) := step_frame h.inv
  refine ⟨step_inv h.inv, fun ue hue => h.mem ue (hframe.mem ue hue), fun p hp hout => ?_,
    step_marked h.inv h.marked⟩
  by_cases hin : p ∈ s.ueVector.map Prod.fst
  · exact step_left h.inv hin hout
  · rw [hframe.others p hin]
    exact h.idle p hp hin

/-- The shares of all the UEs of the beam. -/
theorem PartInv.shares (h : PartInv S st beamSym ps s) (hn : ps.Nodup) (hb : 0 < beamSym) :
    ∃ runs, Shares S beamSym runs ps s.alloc := by
  obtain ⟨runs, lost, hl⟩ := h.inv.ledger
  have hsub : ∀ p ∈ s.ueVector.map Prod.fst, p ∈ ps := by
    intro p hp
    obtain ⟨ue, hue, rfl⟩ := List.mem_map.mp hp
    exact h.mem ue hue
  have hflat := flatMap_restrict_perm runs hn hl.nodup hsub
  have hpart := hl.partition
  have hrbg := hl.rbg
  rw [hl.conserved hb] at hpart hrbg
  refine ⟨fun p => if p ∈ s.ueVector.map Prod.fst then runs p else [], hn, fun p hp => ?_,
    fun p hp => ?_, ?_, ?_, h.marked, hl.available⟩
  · by_cases hin : p ∈ s.ueVector.map Prod.fst
    · rw [if_pos hin]
      obtain ⟨ue, hue, rfl⟩ := List.mem_map.mp hin
      exact hl.dlRBG ue hue
    · rw [if_neg hin]
      exact (h.idle p hp hin).1
  · by_cases hin : p ∈ s.ueVector.map Prod.fst
    · rw [if_pos hin]
      obtain ⟨ue, hue, rfl⟩ := List.mem_map.mp hin
      exact hl.dlSym ue hue
    · rw [if_neg hin, (h.idle p hp hin).2]
      rfl
  · exact (hflat.append_left _).trans hpart
  · rw [hflat.length_eq, hrbg]
    simp

theorem loopEntry_partInv {now : ℚ} {i : SlotStart} (h : S.LoopEntry now i st beamSym s) :
    PartInv S st beamSym (s.ueVector.map Prod.fst) s := by
  refine ⟨(loopEntry_inv h).1, fun ue hue => List.mem_map_of_mem hue,
    fun p hp hout => absurd hp hout, ?_⟩
  obtain ⟨pre, el, post, acc, e, _, _, _, he, _, rfl⟩ := h
  obtain ⟨_, _, h2⟩ := beamEntry_ok he
  rw [h2]
  intro r hr
  have hbit : S.dlBitmask.getD r false = true := by simpa using (List.mem_filter.mp hr).2
  refine ⟨fun _ => hr, fun _ => ?_⟩
  show S.dlBitmask[r]? = some true
  rw [List.getD_eq_getElem?_getD] at hbit
  cases hget : S.dlBitmask[r]? with
  | none =>
      rw [hget] at hbit
      cases hbit
  | some b =>
      rw [hget] at hbit
      rw [show b = true from hbit]

theorem mem_of_held {now : ℚ} {i : SlotStart} {t : BeamState} (h : S.LoopEntry now i st beamSym s)
    (ht : Orbit.Reaches (S.step st beamSym) s t) {ue : UePtrAndBufferReq} (hue : ue ∈ s.ueVector)
    (hne : (t.ueOf ue).dlRBG ≠ []) : ue ∈ t.ueVector := by
  have hinv := (loopEntry_inv h).1
  have hpart := ht.inv (fun _ => step_partInv) (loopEntry_partInv h)
  obtain ⟨_, _, hl⟩ := hinv.ledger
  by_cases hin : ue.1 ∈ t.ueVector.map Prod.fst
  · obtain ⟨u, hu, he⟩ := List.mem_map.mp hin
    have hus : u ∈ s.ueVector := (reaches_inv ht hinv).2.mem u hu
    rw [← List.inj_on_of_nodup_map hl.nodup hus hue he]
    exact hu
  · exact absurd (hpart.idle ue.1 (List.mem_map_of_mem hue) hin).1 hne

theorem PartInv.blocks (h : PartInv S st beamSym ps s) (hn : ps.Nodup) :
    ∃ runs, (∀ p ∈ ps, (s.alloc.ues p).dlRBG = blocks beamSym (runs p)) ∧
      (ps.flatMap runs).Nodup ∧ ∀ p ∈ ps, ∀ r ∈ runs p, r ∈ S.usableRbgs := by
  obtain hb | hb := Nat.eq_zero_or_pos beamSym
  · subst hb
    obtain ⟨runs, lost, hl⟩ := h.inv.ledger
    have hflat : ps.flatMap (fun _ => ([] : List ℕ)) = [] := by simp
    refine ⟨fun _ => [], fun p hp => ?_, by rw [hflat]; exact List.nodup_nil,
      fun p _ r hr => absurd hr List.not_mem_nil⟩
    by_cases hin : p ∈ s.ueVector.map Prod.fst
    · obtain ⟨ue, hue, rfl⟩ := List.mem_map.mp hin
      rw [hl.dlRBG ue hue, blocks_zero, blocks_zero]
    · exact (h.idle p hp hin).1
  · obtain ⟨runs, hs⟩ := h.shares hn hb
    exact ⟨runs, hs.dlRBG, (hs.shared.nodup S.usableRbgs_nodup).2.1,
      fun p hp r hr => hs.shared.mem_of_held hp hr⟩

theorem PartInv.usable (h : PartInv S st beamSym ps s) (hn : ps.Nodup) :
    (∀ r ∈ s.alloc.remainingRbgSet, r ∈ S.usableRbgs) ∧
      ∀ p ∈ ps, ∀ r ∈ (s.alloc.ues p).dlRBG, r ∈ S.usableRbgs := by
  refine ⟨fun r hr => ?_, fun p hp r hr => ?_⟩
  · obtain ⟨runs, lost, hl⟩ := h.inv.ledger
    exact hl.partition.mem_iff.mp (List.mem_append_left _ hr)
  · obtain ⟨runs, hblocks, _, husable⟩ := h.blocks hn
    rw [hblocks p hp] at hr
    exact husable p hp r (mem_of_mem_blocks hr)

/-- **After a call** the UEs of a beam hold blocks of usable RBGs, each RBG in one UE. -/
theorem assignDLRBG_blocks {now : ℚ} {i : SlotStart} {w' : World} {symPerBeam : BeamSymbolMap}
    (h : S.assignDLRBG now i.world i.symAvail i.activeDl = .ok (w', symPerBeam))
    {el : BeamId × List UePtrAndBufferReq} (hel : el ∈ i.activeDl) :
    ∃ runs : UePtr → List ℕ,
      (∀ ue ∈ el.2, (w'.ues ue.1).dlRBG =
        Rbis.blocks ((S.getSymPerBeam i.symAvail i.activeDl).getD el.1 0) (runs ue.1)) ∧
      ((el.2.map Prod.fst).flatMap runs).Nodup ∧
      ∀ ue ∈ el.2, ∀ r ∈ runs ue.1, r ∈ S.usableRbgs := by
  obtain ⟨pre, post, acc₁, acc₂, hround⟩ := assignDLRBG_beam h hel
  obtain ⟨e, s, r, he, hs, hr, hacc⟩ := assignBeam_ok hround.round
  have hentry : S.LoopEntry now i e.1.statics
      ((S.getSymPerBeam i.symAvail i.activeDl).getD el.1 0) e.2 :=
    ⟨pre, el, post, acc₁, e, hround.split, hround.before, rfl, he, rfl, rfl⟩
  have hperm : (e.2.ueVector.map Prod.fst).Perm (el.2.map Prod.fst) := by
    obtain ⟨_, _, h2⟩ := beamEntry_ok he
    rw [h2]
    exact (S.stdSort.perm _ _).map _
  have hn : (e.2.ueVector.map Prod.fst).Nodup :=
    hperm.nodup_iff.mpr (loopEntry_clean hround.split hround.before).1
  have hinv := (runLoop_ok hs).1.inv (fun _ => step_partInv) (loopEntry_partInv hentry)
  obtain ⟨runs, hblocks, hnodup, husable⟩ := hinv.blocks hn
  have hmem : ∀ ue ∈ el.2, ue.1 ∈ e.2.ueVector.map Prod.fst := fun ue hue =>
    hperm.mem_iff.mpr (List.mem_map_of_mem hue)
  refine ⟨fun p => if (w'.ues p).dlRBG = [] then [] else runs p, fun ue hue => ?_, ?_,
    fun ue hue x hx => ?_⟩
  · dsimp only
    by_cases hnil : (w'.ues ue.1).dlRBG = []
    · rw [if_pos hnil, hnil]
      rfl
    · rw [if_neg hnil, ← hblocks ue.1 (hmem ue hue)]
      rw [hround.dlRBG ue hue, hacc] at hnil ⊢
      exact (fronthaul_dlRBG hr ue.1).resolve_right hnil
  · have hflat := (hperm.flatMap_right runs).nodup_iff.mp hnodup
    refine hflat.sublist (flatMap_sublist fun p => ?_)
    split
    · exact List.nil_sublist _
    · exact List.Sublist.refl _
  · dsimp only at hx
    split at hx
    · cases hx
    · exact husable ue.1 (hmem ue hue) x hx

theorem assignDLRBG_shares {now : ℚ} {i : SlotStart} {w' : World} {symPerBeam : BeamSymbolMap}
    (h : S.assignDLRBG now i.world i.symAvail i.activeDl = .ok (w', symPerBeam))
    {el : BeamId × List UePtrAndBufferReq} (hel : el ∈ i.activeDl)
    (hb : 0 < (S.getSymPerBeam i.symAvail i.activeDl).getD el.1 0) :
    (∀ ue ∈ el.2, ∀ r ∈ (w'.ues ue.1).dlRBG, r ∈ S.usableRbgs) ∧
      ∀ ue ∈ el.2, ∀ ue' ∈ el.2, ∀ r ∈ (w'.ues ue.1).dlRBG, r ∈ (w'.ues ue'.1).dlRBG →
        ue.1 = ue'.1 := by
  obtain ⟨runs, hblocks, hnodup, husable⟩ := assignDLRBG_blocks h hel
  have hruns : ∀ ue ∈ el.2, ∀ r ∈ (w'.ues ue.1).dlRBG, r ∈ runs ue.1 := by
    intro ue hue r hr
    rw [hblocks ue hue] at hr
    exact (mem_blocks hb).mp hr
  refine ⟨fun ue hue r hr => husable ue hue r (hruns ue hue r hr),
    fun ue hue ue' hue' r hr hr' => ?_⟩
  exact owner_unique hnodup (List.mem_map_of_mem hue) (List.mem_map_of_mem hue')
    (hruns ue hue r hr) (hruns ue' hue' r hr')

end Scheduler

/-- The states of the resources during the loop that starts in `s`: at its program points, and
after the rounds of the release in a reaping round. -/
inductive Visits (S : Scheduler) (st : DppaStatics) (beamSym : ℕ) (s : BeamState) : Alloc → Prop
  | point {t : BeamState} (h : Orbit.Reaches (S.step st beamSym) s t) :
      Visits S st beamSym s t.alloc
  | releasing {t : BeamState} {ue : UePtrAndBufferReq} {a : Alloc} (k : ℕ)
      (h : Orbit.Reaches (S.step st beamSym) s t) (hpc : t.pc = .reap)
      (hvictim : S.reapVictim t = some ue)
      (hk : releaseRounds ue.1 beamSym emplace k t.alloc = .ok a) : Visits S st beamSym s a

/-- **The RBGs of a beam with symbols are partitioned** in every state of its loop. -/
theorem partitioned_of_visits (S : Scheduler) (now : ℚ) (i : SlotStart) {st : DppaStatics}
    {beamSym : ℕ} {s : BeamState} (h : S.LoopEntry now i st beamSym s) (hb : 0 < beamSym)
    {a : Alloc} (ha : Visits S st beamSym s a) :
    Partitioned S beamSym (s.ueVector.map Prod.fst) a := by
  have hn : (s.ueVector.map Prod.fst).Nodup := by
    obtain ⟨runs, lost, hl⟩ := (Scheduler.loopEntry_inv h).1.ledger
    exact hl.nodup
  have hinv : ∀ {t}, Orbit.Reaches (S.step st beamSym) s t →
      Scheduler.PartInv S st beamSym (s.ueVector.map Prod.fst) t :=
    fun ht => ht.inv (fun _ => Scheduler.step_partInv) (Scheduler.loopEntry_partInv h)
  cases ha with
  | point ht =>
      obtain ⟨runs, hs⟩ := (hinv ht).shares hn hb
      exact hs.partitioned hb
  | releasing k ht hpc hvictim hk =>
      obtain ⟨runs, hs⟩ := (hinv ht).shares hn hb
      have hue := Scheduler.reapVictim_mem hvictim
      obtain ⟨runs', hs'⟩ := hs.releaseRounds hb ((hinv ht).mem _ hue) hk
      exact hs'.partitioned hb

/-- A slot of twelve symbols, three RBGs of which the second is notched, and two UEs in one
beam, after seven steps of the loop. -/
theorem partitioned_of_visits_oneBeam : ∃ st s,
    Scheduler.LoopEntry (.wideband [true, false, true]) 0
      (.oneBeam (.fresh (setDppWeights 0 1 1) fun _ => 5) (fun _ => ⟨rfl, rfl, rfl⟩) (0, 100)
        [(1, 50)] (by decide)) st 12 s ∧
      Partitioned (.wideband [true, false, true]) 12 (s.ueVector.map Prod.fst)
        ((Scheduler.step (.wideband [true, false, true]) st 12)^[7] s).alloc := by
  have hentry : Scheduler.LoopEntry (.wideband [true, false, true]) 0
      (.oneBeam (.fresh (setDppWeights 0 1 1) fun _ => 5) (fun _ => ⟨rfl, rfl, rfl⟩) (0, 100)
        [(1, 50)] (by decide)) _ _ _ := .first rfl rfl
  exact ⟨_, _, hentry, partitioned_of_visits _ _ _ hentry (by decide) (.point ⟨7, rfl⟩)⟩

end Rbis
