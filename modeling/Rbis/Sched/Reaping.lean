import Rbis.Sched.Throughput

/-! # What the reaping leaves behind

A reaping round takes the RBGs of the UE with the smallest transport block, when it is below the
10 bytes of a DCI, and asks for another round through the flag `reapingResources`.  A failed
attempt for the last UE of the vector clears the flag before the round, which is then the last
one.  No RBG is left with a UE that cannot transmit if and only if no such round finds a second
UE below the minimum (`reaped_iff`). -/

namespace Rbis

open Cxx Fallible

/-- No UE of the beam holds RBGs for a transport block below the minimum. -/
def BeamState.NoneStarved (ps : List UePtr) (s : BeamState) : Prop :=
  ∀ p ∈ ps, (s.alloc.ues p).dlRBG ≠ [] → 10 ≤ (s.alloc.ues p).dlTbSize

namespace Scheduler

/-- At a reaping round with the flag already cleared: apart from the UE at the end of the sorted
vector, no UE holds RBGs for a transport block below the minimum. -/
def ReapsAll (S : Scheduler) (s : BeamState) : Prop :=
  s.pc = .reap → s.reapingResources = false →
    ∀ ue ∈ (S.sortByTbSize s).dropLast, (s.ueOf ue).dlRBG ≠ [] → 10 ≤ (s.ueOf ue).dlTbSize

variable {S : Scheduler} {st : DppaStatics} {beamSym : ℕ} {ps : List UePtr} {s : BeamState}

/-- When the last UE of the sorted vector reaches the minimum, all do. -/
theorem le_of_reapVictim_none (h : S.reapVictim s = none) {ue : UePtrAndBufferReq}
    (hue : ue ∈ s.ueVector) : 10 ≤ (s.ueOf ue).dlTbSize := by
  have hmem : ue ∈ S.sortByTbSize s := (sortByTbSize_perm (S := S) s).mem_iff.mpr hue
  unfold reapVictim at h
  cases hlast : (S.sortByTbSize s).getLast? with
  | none =>
      rw [List.getLast?_eq_none_iff.mp hlast] at hmem
      cases hmem
  | some u =>
      rw [hlast] at h
      dsimp only at h
      split at h
      · cases h
      · next hge =>
          have hsorted := sortByTbSize_sorted (S := S) s
          rw [← List.dropLast_append_getLast? u hlast] at hsorted hmem
          rcases List.mem_append.mp hmem with hin | hin
          · have := (List.pairwise_append.mp hsorted).2.2 ue hin u (List.mem_singleton.mpr rfl)
            omega
          · rw [List.mem_singleton.mp hin]
            omega

/-- After a reaping round. -/
theorem PartInv.noneStarved_reap (h : PartInv S st beamSym ps s) (hpc : s.pc = .reap) :
    (S.step st beamSym s).NoneStarved ps ↔
      ∀ ue ∈ (S.sortByTbSize s).dropLast, (s.ueOf ue).dlRBG ≠ [] → 10 ≤ (s.ueOf ue).dlTbSize := by
  have hperm := sortByTbSize_perm (S := S) s
  obtain ⟨r, hreap, hstep⟩ := h.inv.step_reap_cases hpc
  rw [hstep]
  cases hreap with
  | done hnone =>
      constructor
      · intro _ ue hue _
        exact le_of_reapVictim_none hnone (hperm.mem_iff.mp (List.mem_of_mem_dropLast hue))
      · intro _ p hp hne
        by_cases hin : p ∈ s.ueVector.map Prod.fst
        · obtain ⟨ue, hue, rfl⟩ := List.mem_map.mp hin
          exact le_of_reapVictim_none hnone hue
        · exact absurd (h.idle p hp hin).1 hne
  | popped u c hv hlast hc hl =>
      obtain ⟨_, _, hl₀⟩ := h.inv.ledger
      have hnodup := (hl₀.perm hperm).nodup
      rw [hlast, List.map_append] at hnodup
      have hother : ∀ ue ∈ (S.sortByTbSize s).dropLast, c.ues ue.1 = s.alloc.ues ue.1 := by
        intro ue hue
        have hne : ue.1 ≠ u.1 := fun he =>
          (List.disjoint_of_nodup_append hnodup) (List.mem_map_of_mem hue)
            (by rw [he]; exact List.mem_singleton.mpr rfl)
        rw [hc.ues, Function.update_of_ne hne]
      constructor
      · intro hnone ue hue hne
        have hmem := h.mem ue (hperm.mem_iff.mp (List.mem_of_mem_dropLast hue))
        have := hnone ue.1 hmem
        simp only [BeamState.settle, hother ue hue] at this
        exact this hne
      · intro hall p hp hne
        simp only [BeamState.settle] at hne ⊢
        by_cases hin : p ∈ s.ueVector.map Prod.fst
        · obtain ⟨ue, hue, rfl⟩ := List.mem_map.mp hin
          have hue' := hperm.mem_iff.mpr hue
          rw [hlast] at hue'
          rcases List.mem_append.mp hue' with hd | hd
          · rw [hother ue hd] at hne ⊢
            exact hall ue hd hne
          · rw [List.mem_singleton.mp hd, hc.ues, Function.update_self] at hne
            exact absurd rfl hne
        · have hpu : p ≠ u.1 := by
            rintro rfl
            exact hin (List.mem_map_of_mem (reapVictim_mem hv))
          rw [hc.ues, Function.update_of_ne hpu] at hne
          exact absurd (h.idle p hp hin).1 hne

/-- The loop is over, or will be without another round. -/
def Ending (s : BeamState) : Prop :=
  s.pc = .finished ∨ s.pc = .reapTest ∧ s.reapingResources = false

/-- The invariant of the loop, with what holds once no other round follows. -/
structure ReapInv (S : Scheduler) (st : DppaStatics) (beamSym : ℕ) (ps : List UePtr)
    (s : BeamState) : Prop where
  part : PartInv S st beamSym ps s
  ending : Ending s → s.NoneStarved ps

/-- Within the inner loop no end is near. -/
theorem not_ending_step (h : BeamInv S st beamSym s) (hpc : s.pc = .allocTest ∨
    (∃ n l, s.pc = .serve n l) ∨ ∃ n, s.pc = .progress n) : ¬ Ending (S.step st beamSym s) := by
  rcases hpc with hs | ⟨n, l, hs⟩ | ⟨n, hs⟩
  · rw [step_allocTest hs]
    obtain ⟨_, e⟩ | ⟨_, _, e⟩ | ⟨_, ue, _, e⟩ := allocTest_cases st s
    · simp [e, Ending, BeamState.settle]
    · simp [e, Ending, BeamState.settle]
    · simp [e, Ending, BeamState.settle]
  · obtain ⟨r, hserved, hstep⟩ := h.step_serve_cases hs
    rw [hstep]
    cases hserved with
    | leave it hit hleave => simp [Ending, BeamState.settle]
    | throws f hf => simp [Ending, BeamState.settle]
    | granted it ue b rbg tb hit hue hlyap hatt hg => simp [Ending, BeamState.settle]
    | lastFailed it b hit hlast hb => simp [Ending, BeamState.settle]
    | failed it ue b hit hue hb => simp [Ending, BeamState.settle]
  · rw [step_progress hs]
    unfold Ending
    dsimp only
    split <;> simp

/-- **Step lemma.** -/
theorem step_reapInv (h : ReapInv S st beamSym ps s) (hall : S.ReapsAll s) :
    ReapInv S st beamSym ps (S.step st beamSym s) := by
  refine ⟨step_partInv h.part, fun hend => ?_⟩
  cases hs : s.pc with
  | reapTest =>
      rw [step_reapTest hs] at hend ⊢
      cases hflag : s.reapingResources with
      | true => simp [Ending, hflag] at hend
      | false => exact h.ending (Or.inr ⟨hs, hflag⟩)
  | allocTest => exact absurd hend (not_ending_step h.part.inv (Or.inl hs))
  | serve n l => exact absurd hend (not_ending_step h.part.inv (Or.inr (Or.inl ⟨n, l, hs⟩)))
  | progress n => exact absurd hend (not_ending_step h.part.inv (Or.inr (Or.inr ⟨n, hs⟩)))
  | reap =>
      refine (h.part.noneStarved_reap hs).mpr ?_
      cases hflag : s.reapingResources with
      | false => exact hall hs hflag
      | true =>
          intro ue hue _
          obtain ⟨r, hreap, hstep⟩ := h.part.inv.step_reap_cases hs
          rw [hstep] at hend
          cases hreap with
          | done hnone =>
              exact le_of_reapVictim_none hnone
                ((sortByTbSize_perm (S := S) s).mem_iff.mp (List.mem_of_mem_dropLast hue))
          | popped u c hv hlast hc hl => simp [Ending, BeamState.settle, hflag] at hend
  | finished =>
      rw [step_finished hs]
      exact h.ending (Or.inl hs)
  | fault f =>
      rw [step_fault hs] at hend
      rcases hend with he | ⟨he, _⟩
      · rw [hs] at he
        cases he
      · rw [hs] at he
        cases he

theorem reaches_of_last (h : BeamInv S st beamSym s) (hpc : s.pc = .reap)
    (hflag : s.reapingResources = false) :
    ∃ t, Orbit.Reaches (S.step st beamSym) s t ∧ t.pc = .finished ∧
      t.alloc = (S.step st beamSym s).alloc := by
  have hnext : (S.step st beamSym s).pc = .reapTest ∧
      (S.step st beamSym s).reapingResources = false := by
    obtain ⟨r, hreap, hstep⟩ := h.step_reap_cases hpc
    rw [hstep]
    cases hreap with
    | done hnone => exact ⟨rfl, rfl⟩
    | popped u c hv hlast hc hl => exact ⟨rfl, hflag⟩
  refine ⟨_, (Orbit.Reaches.refl s).tail.tail, ?_, ?_⟩
  · rw [step_reapTest hnext.1, hnext.2]
    rfl
  · rw [step_reapTest hnext.1]

/-- At the end `t` of the loop that starts in `s`, every UE of the beam with RBGs has a transport
block of at least ten bytes, and `CreateDlDci` makes a DCI of it. -/
def AllTransmit (S : Scheduler) (s t : BeamState) : Prop :=
  ∀ ue ∈ s.ueVector, (t.ueOf ue).dlRBG ≠ [] →
    10 ≤ (t.ueOf ue).dlTbSize ∧ S.Sends (t.ueOf ue) (t.ueOf ue).dlTbSize

theorem allTransmit_iff_noneStarved {now : ℚ} {i : SlotStart} {t : BeamState}
    (h : S.LoopEntry now i st beamSym s) (ht : Orbit.Reaches (S.step st beamSym) s t) :
    S.AllTransmit s t ↔ t.NoneStarved (s.ueVector.map Prod.fst) := by
  constructor
  · intro hall p hp hne
    obtain ⟨ue, hue, rfl⟩ := List.mem_map.mp hp
    exact (hall ue hue hne).1
  · intro hnone ue hue hne
    have hle := hnone ue.1 (List.mem_map_of_mem hue) hne
    obtain ⟨_, _, hl⟩ := (reaches_inv ht (loopEntry_inv h).1).1.ledger
    exact ⟨hle, hne, hl.metric ue (mem_of_held h ht hue hne), hle⟩

/-- **No RBG is left with a UE that cannot transmit** if and only if no round of the loop finds
the flag cleared and a second UE below the minimum. -/
theorem reaped_iff {now : ℚ} {i : SlotStart} {t : BeamState}
    (h : S.LoopEntry now i st beamSym s) (hrun : S.runLoop st beamSym s = .ok t) :
    S.AllTransmit s t ↔ ∀ u, Orbit.Reaches (S.step st beamSym) s u → S.ReapsAll u := by
  obtain ⟨ht, hfin⟩ := runLoop_ok hrun
  rw [allTransmit_iff_noneStarved h ht]
  have hpart := loopEntry_partInv h
  constructor
  · intro hnone u hu hpc hflag
    have hpu := hu.inv (fun _ => step_partInv) hpart
    obtain ⟨v, hv, hvfin, hva⟩ := reaches_of_last hpu.inv hpc hflag
    obtain rfl : t = v :=
      ht.eq_of_fixed (hu.trans hv) (step_finished hfin) (step_finished hvfin)
    refine (hpu.noneStarved_reap hpc).mp ?_
    unfold BeamState.NoneStarved at hnone ⊢
    rwa [← hva]
  · intro hall
    have hstart : ReapInv S st beamSym (s.ueVector.map Prod.fst) s := by
      refine ⟨hpart, fun hend => ?_⟩
      obtain ⟨_, _, _, _, _, _, _, _, he, _, rfl⟩ := h
      obtain ⟨_, _, h2⟩ := beamEntry_ok he
      rw [h2] at hend
      simp [Ending] at hend
    have hinv := ht.inv_of_guard (G := S.ReapsAll) (fun _ => step_reapInv) hstart hall
    exact hinv.ending (Or.inl hfin)

end Scheduler

theorem Scheduler.exists_firstLoop {S : Scheduler} (now : ℚ) {i : SlotStart} (beamSym : ℕ)
    {el : BeamId × List UePtrAndBufferReq} {post : ActiveUeMap} {α : Type} {f : BeamState → α}
    {c : α} (hi : i.activeDl = el :: post)
    (hb : beamSym = (S.getSymPerBeam i.symAvail i.activeDl).getD el.1 0)
    (h : (S.beamEntry now beamSym i.world el.2 >>= fun e =>
      (S.runLoop e.1.statics beamSym e.2).map f) = .ok c) :
    ∃ st s t, S.LoopEntry now i st beamSym s ∧ S.runLoop st beamSym s = .ok t ∧ f t = c ∧
      ∀ ue, ue ∈ s.ueVector ↔ ue ∈ el.2 := by
  obtain ⟨e, he, hend⟩ := bind_eq_ok.mp h
  cases hrun : S.runLoop e.1.statics beamSym e.2 with
  | error f =>
      rw [hrun] at hend
      cases hend
  | ok t =>
      rw [hrun] at hend
      refine ⟨_, _, t, ?_, hrun, Except.ok.inj hend, fun ue => beamEntry_mem he⟩
      rw [hb] at he ⊢
      exact .first hi he

/-- Two RBGs of four bytes, and one without signal. -/
def Scheduler.fourBytes : Scheduler :=
  { Scheduler.wideband [true, true, true] with
    dlAmc := ⟨fun _ _ nprb => nprb / 3, fun _ => 0, fun _ => 0⟩
    mcsCsiSource := .avgMcs }

/-- Two UEs with `buf` bytes each. -/
def SlotStart.twoUes (buf : ℕ) : SlotStart :=
  .oneBeam
    { World.fresh (setDppWeights 0 1 1) fun _ => 5 with
      ues := fun p => {
        rnti := p + 1, dlLCG := [[⟨4, 100, 0, 0, 1000⟩]], g := 5, mcsCsiSource := .avgMcs
        dlSbMcsInfo := [⟨5, 1, 0, 0⟩, ⟨0, 1, 0, 0⟩], rbgToSb := [0, 0, 1] } }
    (fun _ => ⟨rfl, rfl, rfl⟩) (0, buf) [(1, buf)] (by simp)

/-- The first UE gets the two RBGs, for eight bytes.  The attempts for the third one fail, the
last of them clears the flag, and the second UE, which has nothing, is the one that is reaped. -/
theorem Scheduler.not_allTransmit_fourBytes : ¬ ∀ st s t,
    Scheduler.fourBytes.LoopEntry 0 (.twoUes 100) st 12 s →
      Scheduler.fourBytes.runLoop st 12 s = .ok t → Scheduler.fourBytes.AllTransmit s t := by
  intro h
  obtain ⟨st, s, t, hentry, hrun, hc, hmem⟩ := exists_firstLoop (S := Scheduler.fourBytes) 0
    (i := .twoUes 100) 12
    (f := fun t => ((t.ueOf (0, 100)).dlTbSize, (t.ueOf (0, 100)).dlRBG.length))
    (c := (8, 24)) rfl (by decide +kernel) (by decide +kernel)
  have hsize : (t.ueOf (0, 100)).dlTbSize = 8 := congrArg Prod.fst hc
  have hlen : (t.ueOf (0, 100)).dlRBG.length = 24 := congrArg Prod.snd hc
  have hne : (t.ueOf (0, 100)).dlRBG ≠ [] := by
    intro hnil
    rw [hnil] at hlen
    cases hlen
  have hle := (h st s t hentry hrun (0, 100) ((hmem _).mpr List.mem_cons_self) hne).1
  omega

/-- With wideband reports and two usable RBGs of sixty bytes, both UEs can transmit. -/
theorem Scheduler.reaped_wideband : ∃ st s t,
    LoopEntry (.wideband [true, true]) 0 (.twoUes 50) st 12 s ∧
      runLoop (.wideband [true, true]) st 12 s = .ok t ∧
      ∀ u, Orbit.Reaches (step (.wideband [true, true]) st 12) s u →
        ReapsAll (.wideband [true, true]) u := by
  obtain ⟨st, s, t, hentry, hrun, hc, hmem⟩ := exists_firstLoop (S := .wideband [true, true]) 0
    (i := .twoUes 50) 12 (f := fun t => ((t.alloc.ues 0).dlTbSize, (t.alloc.ues 1).dlTbSize))
    (c := (60, 60)) rfl (by decide +kernel) (by decide +kernel)
  refine ⟨st, s, t, hentry, hrun, (reaped_iff hentry hrun).mp ?_⟩
  refine (allTransmit_iff_noneStarved hentry (runLoop_ok hrun).1).mpr fun p hp _ => ?_
  obtain ⟨ue, hue, rfl⟩ := List.mem_map.mp hp
  have hue' : ue = (0, 50) ∨ ue = (1, 50) := by simpa using (hmem ue).mp hue
  have h0 : (t.alloc.ues 0).dlTbSize = 60 := congrArg Prod.fst hc
  have h1 : (t.alloc.ues 1).dlTbSize = 60 := congrArg Prod.snd hc
  rcases hue' with rfl | rfl
  · exact h0.symm ▸ (by decide : 10 ≤ 60)
  · exact h1.symm ▸ (by decide : 10 ≤ 60)

end Rbis
