import Rbis.Lib.Strips
import Rbis.Sched.DlSlot
import Rbis.Sched.Partition

/-! # The DCIs of a slot do not collide

A DCI occupies the cells of its symbols and of the RBGs of its bitmask.  Within a beam the DCIs
have the same symbols, and the allocation loop gave their UEs different RBGs.  From beam to beam
the starting point moves past the symbols of the beam, unless the beam got no DCI, so the beams
lie one after the other in the slot (`Strips.Laid`). -/

namespace Rbis

open Cxx Fallible Strips

namespace DciInfoElementTdma

def symbols (d : DciInfoElementTdma) : Set ℕ := Set.Ico d.symStart (d.symStart + d.numSym)

def rbgs (d : DciInfoElementTdma) : Set ℕ := {r | d.rbgBitmask[r]? = some true}

/-- The (symbol, RBG) cells of the DCI. -/
def cells (d : DciInfoElementTdma) : Set (ℕ × ℕ) := d.symbols ×ˢ d.rbgs

end DciInfoElementTdma

namespace DlScheduler

variable {D : DlScheduler} {harqId : UePtr → Option ℕ} {spoint : FTResources} {beamSym : ℕ}

/-! ### One DCI -/

theorem markRbgs_ok {notched : List Bool} : ∀ {l : List ℕ} {mask mask' : List Bool},
    l.foldlM (markRbg notched) mask = .ok mask' →
      ∀ r, mask'[r]? = some true ↔ mask[r]? = some true ∨ r ∈ l
  | [], mask, mask', h, r => by
      cases h
      simp
  | rbg :: l, mask, mask', h, r => by
      rw [List.foldlM_cons] at h
      obtain ⟨mask₁, h1, h2⟩ := bind_eq_ok.mp h
      obtain ⟨allowed, _, h1⟩ := bind_eq_ok.mp h1
      split at h1
      · obtain ⟨hlt, rfl⟩ := setAt_ok h1
        rw [markRbgs_ok h2 r, List.getElem?_set, List.mem_cons]
        by_cases e : rbg = r
        · subst e
          simp [hlt]
        · rw [if_neg e]
          constructor
          · exact fun h => h.imp_right Or.inr
          · rintro (h | rfl | h)
            · exact Or.inl h
            · exact absurd rfl e
            · exact Or.inr h
      · cases h1

theorem createRbgBitmask_iff {l : List ℕ} {mask : List Bool}
    (h : D.createRbgBitmaskFromAllocatedRbgs l = .ok mask) (r : ℕ) :
    mask[r]? = some true ↔ r ∈ l := by
  unfold createRbgBitmaskFromAllocatedRbgs at h
  split at h
  · rw [markRbgs_ok h r, List.getElem?_replicate]
    simp
  · cases h

/-- A DCI has the symbols of the beam and the RBGs of its UE. -/
structure DciOf (spoint : FTResources) (beamSym : ℕ) (u : UeInfo) (d : DciInfoElementTdma) :
    Prop where
  rnti : d.rnti = u.rnti
  symStart : d.symStart = spoint.sym
  numSym : d.numSym = beamSym
  rbgs : ∀ r, r ∈ d.rbgs ↔ r ∈ u.dlRBG

/-- `CreateDlDci` drops a transport block below the minimum, and else makes its DCI. -/
theorem createDlDci_cases {u v : UeInfo} {dci : Option DciInfoElementTdma}
    (h : D.createDlDci spoint u beamSym = .ok (dci, v)) :
    ∃ mcs tbs, u.getDlMcs D.dlAmc = .ok mcs ∧
      tbs = D.dlAmc.calculateTbSize mcs u.dlRank (u.dlRBG.length * D.numRbPerRbg) ∧
        ((tbs < 10 ∧ dci = none) ∨
          (10 ≤ tbs ∧ ∃ d, dci = some d ∧ DciOf spoint beamSym u d ∧ d.tbSize = tbs)) := by
  unfold createDlDci at h
  obtain ⟨mcs, hmcs, h⟩ := bind_eq_ok.mp h
  refine ⟨mcs, _, hmcs, rfl, ?_⟩
  dsimp only at h
  split at h
  · cases h
  split at h
  · cases h
  split at h
  · cases h
  · next hmax =>
      split at h
      · next hlt =>
          cases h
          exact Or.inl ⟨hlt, rfl⟩
      · next hge =>
          obtain ⟨mask, hmask, h⟩ := bind_eq_ok.mp h
          split at h
          · cases h
          · cases h
            have hnum : beamSym % 256 = beamSym := by omega
            exact Or.inr ⟨Nat.not_lt.mp hge, _, rfl,
              ⟨rfl, rfl, hnum, createRbgBitmask_iff hmask⟩, rfl⟩

theorem createDlDci_ok {u v : UeInfo} {d : DciInfoElementTdma}
    (h : D.createDlDci spoint u beamSym = .ok (some d, v)) : DciOf spoint beamSym u d := by
  obtain ⟨_, _, _, _, ⟨_, hnone⟩ | ⟨_, d', hsome, hd, _⟩⟩ := createDlDci_cases h
  · cases hnone
  · cases hsome
    exact hd

/-! ### The UEs of a beam -/

/-- The ways the round of one UE can end. -/
inductive UeScheduled (D : DlScheduler) (spoint : FTResources) (beamSym : ℕ)
    (ue : UePtrAndBufferReq) (s : DlUeLoop) : DlUeLoop → Prop
  | idle (hnil : (s.ues ue.1).dlRBG = []) : UeScheduled D spoint beamSym ue s s
  | dropped {u : UeInfo} (hne : (s.ues ue.1).dlRBG ≠ [])
      (hdci : D.createDlDci spoint (s.ues ue.1) beamSym = .ok (none, u)) :
      UeScheduled D spoint beamSym ue s
        { s with ues := Function.update s.ues ue.1 u.resetDlMetric }
  | sent {u v : UeInfo} {dci : DciInfoElementTdma} {harqProcess : ℕ} {rlcPduInfo : List RlcPduInfo}
      (hne : (s.ues ue.1).dlRBG ≠ [])
      (hdci : D.createDlDci spoint (s.ues ue.1) beamSym = .ok (some dci, u)) :
      UeScheduled D spoint beamSym ue s {
        ues := Function.update s.ues ue.1 v
        varTtiAllocInfo :=
          s.varTtiAllocInfo ++ [⟨{ dci with harqProcess := harqProcess }, rlcPduInfo⟩]
        assigned := true
        symbStartDci := dci.symStart :: s.symbStartDci
        allocSym := if dci.symStart ∈ s.symbStartDci then s.allocSym
          else s.allocSym + dci.numSym }

theorem scheduleUe_cases {s t : DlUeLoop} {ue : UePtrAndBufferReq}
    (h : D.scheduleUe harqId spoint beamSym s ue = .ok t) :
    UeScheduled D spoint beamSym ue s t := by
  unfold scheduleUe at h
  dsimp only at h
  split at h
  · next hnil =>
      cases h
      exact .idle hnil
  · next hne =>
      obtain ⟨⟨dci, u⟩, hdci, h⟩ := bind_eq_ok.mp h
      cases dci with
      | none =>
          cases h
          exact .dropped hne hdci
      | some dci =>
          dsimp only at h
          split at h
          · cases h
          · split at h
            · cases h
            · obtain ⟨b, _, h⟩ := bind_eq_ok.mp h
              cases h
              exact .sent hne hdci

/-- What the round of one UE does: no DCI, or one at the end of the list. -/
structure UeRound (spoint : FTResources) (beamSym : ℕ) (ue : UePtrAndBufferReq)
    (s t : DlUeLoop) : Prop where
  others : ∀ p, p ≠ ue.1 → t.ues p = s.ues p
  cases : (t.varTtiAllocInfo = s.varTtiAllocInfo ∧ t.assigned = s.assigned ∧
      t.symbStartDci = s.symbStartDci ∧ t.allocSym = s.allocSym) ∨
    ∃ v, DciOf spoint beamSym (s.ues ue.1) v.dci ∧ t.varTtiAllocInfo = s.varTtiAllocInfo ++ [v] ∧
      t.assigned = true ∧ t.symbStartDci = spoint.sym :: s.symbStartDci ∧
      t.allocSym = if spoint.sym ∈ s.symbStartDci then s.allocSym else s.allocSym + beamSym

theorem scheduleUe_ok {s t : DlUeLoop} {ue : UePtrAndBufferReq}
    (h : D.scheduleUe harqId spoint beamSym s ue = .ok t) : UeRound spoint beamSym ue s t := by
  cases scheduleUe_cases h with
  | idle => exact ⟨fun _ _ => rfl, Or.inl ⟨rfl, rfl, rfl, rfl⟩⟩
  | dropped _ _ => exact ⟨fun _ hp => Function.update_of_ne hp _ _, Or.inl ⟨rfl, rfl, rfl, rfl⟩⟩
  | @sent u v dci harqProcess rlcPduInfo _ hdci =>
      have hd := createDlDci_ok hdci
      refine ⟨fun p hp => Function.update_of_ne hp _ _, Or.inr ⟨_, ?_, rfl, rfl, ?_, ?_⟩⟩
      · exact ⟨hd.rnti, hd.symStart, hd.numSym, hd.rbgs⟩
      · show dci.symStart :: s.symbStartDci = _
        rw [hd.symStart]
      · show (if dci.symStart ∈ s.symbStartDci then s.allocSym else _) = _
        rw [hd.symStart, hd.numSym]

/-- The DCIs `part` of a beam with the UEs `l`: each is the DCI of one of the UEs, and two are
never of the same one. -/
structure BeamDcis (spoint : FTResources) (beamSym : ℕ) (ues : UePtr → UeInfo)
    (l : List UePtrAndBufferReq) (part : List VarTtiAllocInfo) : Prop where
  dci : ∀ v ∈ part, ∃ ue ∈ l, DciOf spoint beamSym (ues ue.1) v.dci
  distinct : part.Pairwise fun v v' => ∃ ue ∈ l, ∃ ue' ∈ l, ue.1 ≠ ue'.1 ∧
    DciOf spoint beamSym (ues ue.1) v.dci ∧ DciOf spoint beamSym (ues ue'.1) v'.dci

theorem BeamDcis.nil (spoint : FTResources) (beamSym : ℕ) (ues : UePtr → UeInfo)
    (l : List UePtrAndBufferReq) : BeamDcis spoint beamSym ues l [] :=
  ⟨fun _ hv => absurd hv List.not_mem_nil, List.Pairwise.nil⟩

theorem BeamDcis.mono {ues ues' : UePtr → UeInfo} {l l' : List UePtrAndBufferReq}
    {part : List VarTtiAllocInfo} (h : BeamDcis spoint beamSym ues l part)
    (hl : ∀ ue ∈ l, ue ∈ l') (hues : ∀ ue ∈ l, ues' ue.1 = ues ue.1) :
    BeamDcis spoint beamSym ues' l' part := by
  refine ⟨fun v hv => ?_, h.distinct.imp ?_⟩
  · obtain ⟨ue, hue, hd⟩ := h.dci v hv
    refine ⟨ue, hl ue hue, ?_⟩
    rw [hues ue hue]
    exact hd
  · rintro v v' ⟨ue, hue, ue', hue', hne, hd, hd'⟩
    refine ⟨ue, hl ue hue, ue', hl ue' hue', hne, ?_, ?_⟩
    · rw [hues ue hue]
      exact hd
    · rw [hues ue' hue']
      exact hd'

/-- What the rounds of the UEs `l` do. -/
structure UesRound (spoint : FTResources) (beamSym : ℕ) (l : List UePtrAndBufferReq)
    (part : List VarTtiAllocInfo) (s t : DlUeLoop) : Prop where
  others : ∀ p, p ∉ l.map Prod.fst → t.ues p = s.ues p
  dcis : BeamDcis spoint beamSym s.ues l part
  varTti : t.varTtiAllocInfo = s.varTtiAllocInfo ++ part
  counters : (part = [] ∧ t.assigned = s.assigned ∧ t.symbStartDci = s.symbStartDci ∧
      t.allocSym = s.allocSym) ∨
    (part ≠ [] ∧ t.assigned = true ∧ spoint.sym ∈ t.symbStartDci ∧
      t.allocSym = if spoint.sym ∈ s.symbStartDci then s.allocSym else s.allocSym + beamSym)

theorem scheduleUes_ok : ∀ {l : List UePtrAndBufferReq} {s t : DlUeLoop},
    (l.map Prod.fst).Nodup → l.foldlM (D.scheduleUe harqId spoint beamSym) s = .ok t →
      ∃ part, UesRound spoint beamSym l part s t
  | [], s, t, _, h => by
      cases h
      exact ⟨[], fun _ _ => rfl, BeamDcis.nil _ _ _ _, (List.append_nil _).symm,
        Or.inl ⟨rfl, rfl, rfl, rfl⟩⟩
  | ue :: l, s, t, hn, h => by
      rw [List.map_cons, List.nodup_cons] at hn
      rw [List.foldlM_cons] at h
      obtain ⟨s₁, h1, h2⟩ := bind_eq_ok.mp h
      have hue := scheduleUe_ok h1
      obtain ⟨part, hr⟩ := scheduleUes_ok hn.2 h2
      have hne : ∀ u ∈ l, u.1 ≠ ue.1 := fun u hu e => hn.1 (e ▸ List.mem_map_of_mem hu)
      have hothers : ∀ p, p ∉ (ue :: l).map Prod.fst → t.ues p = s.ues p := by
        intro p hp
        rw [List.map_cons, List.mem_cons, not_or] at hp
        rw [hr.others p hp.2, hue.others p hp.1]
      have hdcis : BeamDcis spoint beamSym s.ues l part :=
        hr.dcis.mono (fun _ h => h) fun u hu => (hue.others u.1 (hne u hu)).symm
      have hall : BeamDcis spoint beamSym s.ues (ue :: l) part :=
        hdcis.mono (fun _ h => List.mem_cons_of_mem _ h) fun _ _ => rfl
      obtain ⟨e1, e2, e3, e4⟩ | ⟨v, hd, e1, e2, e3, e4⟩ := hue.cases
      · refine ⟨part, hothers, hall, by rw [hr.varTti, e1], ?_⟩
        rw [← e2, ← e3, ← e4]
        exact hr.counters
      · refine ⟨v :: part, hothers, ⟨fun w hw => ?_, ?_⟩, by rw [hr.varTti, e1]; simp, ?_⟩
        · obtain rfl | hw := List.mem_cons.mp hw
          · exact ⟨ue, List.mem_cons_self, hd⟩
          · exact hall.dci w hw
        · refine List.Pairwise.cons (fun w hw => ?_) hall.distinct
          obtain ⟨u, hu, hdu⟩ := hdcis.dci w hw
          exact ⟨ue, List.mem_cons_self, u, List.mem_cons_of_mem _ hu, (hne u hu).symm, hd, hdu⟩
        · have hmem : spoint.sym ∈ s₁.symbStartDci := by
            rw [e3]
            exact List.mem_cons_self
          refine Or.inr ⟨List.cons_ne_nil _ _, ?_⟩
          obtain ⟨_, c2, c3, c4⟩ | ⟨_, c2, c3, c4⟩ := hr.counters
          · exact ⟨c2.trans e2, by rw [c3]; exact hmem, c4.trans e4⟩
          · rw [if_pos hmem] at c4
            exact ⟨c2, c3, c4.trans e4⟩

/-! ### The beams -/

/-- What the round of a beam does: no DCI and no symbol used, or the symbols of the beam. -/
structure DlBeamRound (beamSym : ℕ) (l : List UePtrAndBufferReq) (part : List VarTtiAllocInfo)
    (s t : DlBeamLoop) : Prop where
  others : ∀ p, p ∉ l.map Prod.fst → t.ues p = s.ues p
  dcis : BeamDcis s.spoint beamSym s.ues l part
  varTti : t.slotAlloc.varTtiAllocInfo = s.slotAlloc.varTtiAllocInfo ++ part
  moves : (part = [] ∧ t.spoint = s.spoint ∧ t.usedSym = s.usedSym) ∨
    (0 < beamSym ∧ t.spoint.sym = (s.spoint.sym + beamSym) % 256 ∧
      t.usedSym = (s.usedSym + beamSym) % 256)

/-- A beam without symbols is passed over; the round of another one is the loop over its UEs. -/
theorem scheduleBeam_cases {symPerBeam : BeamSymbolMap} {s t : DlBeamLoop}
    {el : BeamId × List UePtrAndBufferReq} {beamSym : ℕ} (hsym : symPerBeam.getD el.1 0 = beamSym)
    (h : D.scheduleBeam harqId symPerBeam s el = .ok t) :
    (beamSym = 0 ∧ t = s) ∨
      (0 < beamSym ∧ ∃ r,
        el.2.foldlM (D.scheduleUe harqId s.spoint beamSym)
          ⟨s.ues, s.slotAlloc.varTtiAllocInfo, false, [], 0⟩ = .ok r ∧
        t.ues = r.ues ∧ t.slotAlloc.varTtiAllocInfo = r.varTtiAllocInfo ∧
        ((r.assigned = true ∧ t.spoint.sym = (s.spoint.sym + beamSym) % 256 ∧
            t.usedSym = (s.usedSym + r.allocSym) % 256) ∨
          (r.assigned = false ∧ t.spoint = s.spoint ∧ t.usedSym = s.usedSym))) := by
  unfold scheduleBeam at h
  rw [hsym] at h
  dsimp only at h
  split at h
  · next hb =>
      cases h
      exact Or.inl ⟨hb, rfl⟩
  · next hb =>
      obtain ⟨r, hr, h⟩ := bind_eq_ok.mp h
      refine Or.inr ⟨Nat.pos_of_ne_zero hb, r, hr, ?_⟩
      split at h
      · next hassigned =>
          cases h
          exact ⟨rfl, rfl, Or.inl ⟨hassigned, rfl, rfl⟩⟩
      · next hassigned =>
          cases h
          exact ⟨rfl, rfl, Or.inr ⟨Bool.eq_false_iff.mpr hassigned, rfl, rfl⟩⟩

theorem scheduleBeam_ok {symPerBeam : BeamSymbolMap} {s t : DlBeamLoop}
    {el : BeamId × List UePtrAndBufferReq} (hn : (el.2.map Prod.fst).Nodup)
    (h : D.scheduleBeam harqId symPerBeam s el = .ok t) :
    ∃ part, DlBeamRound (symPerBeam.getD el.1 0) el.2 part s t := by
  obtain ⟨_, rfl⟩ | ⟨hb, r, hr, hues, hvar, hmoves⟩ := scheduleBeam_cases rfl h
  · exact ⟨[], fun _ _ => rfl, BeamDcis.nil _ _ _ _, (List.append_nil _).symm,
      Or.inl ⟨rfl, rfl, rfl⟩⟩
  · obtain ⟨part, hround⟩ := scheduleUes_ok hn hr
    refine ⟨part, hues ▸ hround.others, hround.dcis, hvar.trans hround.varTti, ?_⟩
    obtain ⟨hassigned, hsym, hused⟩ | ⟨hassigned, hspoint, hused⟩ := hmoves
    · refine Or.inr ⟨hb, hsym, ?_⟩
      obtain ⟨_, c2, _, _⟩ | ⟨_, _, _, c4⟩ := hround.counters
      · rw [hassigned] at c2
        cases c2
      · rw [hused, c4]
        simp
    · refine Or.inl ⟨?_, hspoint, hused⟩
      obtain ⟨c1, _⟩ | ⟨_, c2, _, _⟩ := hround.counters
      · exact c1
      · rw [hassigned] at c2
        cases c2

/-- **The beams lie one after the other** from the symbol `c` on. -/
theorem scheduleBeams_ok {symPerBeam : BeamSymbolMap} {ues : UePtr → UeInfo} :
    ∀ {l : ActiveUeMap} {s t : DlBeamLoop} {c : ℕ}, (Scheduler.pointers l).Nodup →
      (∀ p ∈ Scheduler.pointers l, s.ues p = ues p) → s.spoint.sym = c % 256 →
      c + Scheduler.symbolsOf symPerBeam l ≤ 256 →
      l.foldlM (D.scheduleBeam harqId symPerBeam) s = .ok t →
      ∃ parts e, t.slotAlloc.varTtiAllocInfo = s.slotAlloc.varTtiAllocInfo ++ parts.flatten ∧
        Laid (fun v => v.dci.symbols) c parts e ∧ e ≤ c + Scheduler.symbolsOf symPerBeam l ∧
        t.usedSym + c ≤ s.usedSym + e ∧
        List.Forall₂ (fun el part => (part ≠ [] → 0 < symPerBeam.getD el.1 0) ∧
          ∃ sp, BeamDcis sp (symPerBeam.getD el.1 0) ues el.2 part) l parts
  | [], s, t, c, _, _, _, _, h => by
      cases h
      exact ⟨[], c, by simp, Laid.nil c, Nat.le_add_right _ _, le_rfl, List.Forall₂.nil⟩
  | el :: l, s, t, c, hn, hues, hc, hsum, h => by
      unfold Scheduler.pointers at hn
      rw [List.flatMap_cons, List.nodup_append] at hn
      rw [List.foldlM_cons] at h
      obtain ⟨s₁, h1, h2⟩ := bind_eq_ok.mp h
      obtain ⟨part, hr⟩ := scheduleBeam_ok hn.1 h1
      have hsymbols : Scheduler.symbolsOf symPerBeam (el :: l) =
          symPerBeam.getD el.1 0 + Scheduler.symbolsOf symPerBeam l := by simp [Scheduler.symbolsOf]
      rw [hsymbols] at hsum ⊢
      have hdcis : BeamDcis s.spoint (symPerBeam.getD el.1 0) ues el.2 part := by
        refine hr.dcis.mono (fun _ h => h) fun ue hue => (hues ue.1 ?_).symm
        exact List.mem_flatMap.mpr ⟨el, List.mem_cons_self, List.mem_map_of_mem hue⟩
      have hues₁ : ∀ p ∈ Scheduler.pointers l, s₁.ues p = ues p := by
        intro p hp
        rw [hr.others p fun hm => hn.2.2 p hm p hp rfl]
        apply hues p
        unfold Scheduler.pointers
        rw [List.flatMap_cons]
        exact List.mem_append_right _ hp
      obtain ⟨hpart, hsp, hused⟩ | ⟨hb, hsp, hused⟩ := hr.moves
      · subst hpart
        obtain ⟨parts, e, h1, h2, h3, h4, h5⟩ := scheduleBeams_ok (c := c) hn.2.1 hues₁
          (by rw [hsp, hc]) (by omega) h2
        refine ⟨[] :: parts, e, by rw [h1, hr.varTti]; simp, h2.skip, by omega, by omega,
          List.Forall₂.cons ⟨fun h => absurd rfl h, s.spoint, hdcis⟩ h5⟩
      · obtain ⟨parts, e, h1, h2, h3, h4, h5⟩ := scheduleBeams_ok
          (c := c + symPerBeam.getD el.1 0) hn.2.1 hues₁ (by rw [hsp, hc]; omega) (by omega) h2
        refine ⟨part :: parts, e, by rw [h1, hr.varTti]; simp, h2.strip fun v hv => ?_, by omega,
          ?_, List.Forall₂.cons ⟨fun _ => hb, s.spoint, hdcis⟩ h5⟩
        · obtain ⟨ue, _, hd⟩ := hdcis.dci v hv
          unfold DciInfoElementTdma.symbols
          rw [hd.symStart, hd.numSym, hc, Nat.mod_eq_of_lt (by omega)]
        · have hle := Nat.mod_le (s.usedSym + symPerBeam.getD el.1 0) 256
          omega

theorem doScheduleDlData_ok {now : ℚ} {w w' : World} {symAvail : ℕ} {activeDl : ActiveUeMap}
    {slotAlloc slotAlloc' : SlotAllocInfo} {spoint' : FTResources} {usedSym : ℕ}
    (h : D.doScheduleDlData harqId now w spoint symAvail activeDl slotAlloc =
      .ok (w', spoint', slotAlloc', usedSym)) :
    ∃ r s, D.assignDLRBG now w symAvail activeDl = .ok r ∧
      activeDl.foldlM (D.scheduleBeam harqId r.2) ⟨r.1.ues, spoint, slotAlloc, 0⟩ = .ok s ∧
      w' = { r.1 with ues := resetActive activeDl s.ues } ∧ spoint' = s.spoint ∧
      slotAlloc' = s.slotAlloc ∧ usedSym = s.usedSym := by
  unfold doScheduleDlData at h
  split at h
  · cases h
  · obtain ⟨r, hr, h⟩ := bind_eq_ok.mp h
    obtain ⟨s, hs, h⟩ := bind_eq_ok.mp h
    split at h
    · cases h
    · cases h
      exact ⟨r, s, hr, hs, rfl, rfl, rfl, rfl⟩

end DlScheduler

theorem forall₂_right {α β : Type} {R : α → β → Prop} {l : List α} {m : List β}
    (h : List.Forall₂ R l m) : ∀ b ∈ m, ∃ a ∈ l, R a b := by
  induction h with
  | nil => exact fun b hb => absurd hb List.not_mem_nil
  | cons hr _ ih =>
      intro b hb
      obtain rfl | hb := List.mem_cons.mp hb
      · exact ⟨_, List.mem_cons_self, hr⟩
      · obtain ⟨a, ha, hab⟩ := ih b hb
        exact ⟨a, List.mem_cons_of_mem _ ha, hab⟩

/-! ### The slot -/

/-- The DCIs of the beams, in the order of the beams, and the number of used symbols. -/
structure CollisionFree (D : DlScheduler) (i : DlSlotStart) (parts : List (List VarTtiAllocInfo))
    (usedSym : ℕ) : Prop where
  /-- The DCIs of a beam are for UEs of the beam. -/
  beams : List.Forall₂ (fun el part =>
    ∀ v ∈ part, ∃ ue ∈ el.2, v.dci.rnti = (i.world.ues ue.1).rnti) i.activeDl parts
  cells : parts.flatten.Pairwise fun v v' => Disjoint v.dci.cells v'.dci.cells
  rbgs : ∀ v ∈ parts.flatten, ∀ r ∈ v.dci.rbgs, r ∈ D.usableRbgs
  symbols : ∀ v ∈ parts.flatten,
    v.dci.symbols ⊆ Set.Ico i.spoint.sym (i.spoint.sym + i.symAvail)
  /-- Two beams share no symbol. -/
  beamSymbols : parts.Pairwise fun part part' =>
    ∀ v ∈ part, ∀ v' ∈ part', Disjoint v.dci.symbols v'.dci.symbols
  used : usedSym ≤ i.symAvail

/-- **The DCIs of a slot do not collide**, when the beams get no more symbols than there are. -/
theorem collisionFree (D : DlScheduler) (harqId : UePtr → Option ℕ) (now : ℚ) (i : DlSlotStart)
    (hsum : Scheduler.symbolsOf (D.getSymPerBeam i.symAvail i.activeDl) i.activeDl ≤ i.symAvail)
    {w' : World} {spoint' : FTResources} {slotAlloc' : SlotAllocInfo} {usedSym : ℕ}
    (h : D.doScheduleDlData harqId now i.world i.spoint i.symAvail i.activeDl i.slotAlloc =
      .ok (w', spoint', slotAlloc', usedSym)) :
    ∃ parts, slotAlloc'.varTtiAllocInfo = i.slotAlloc.varTtiAllocInfo ++ parts.flatten ∧
      CollisionFree D i parts usedSym := by
  obtain ⟨⟨w, symPerBeam⟩, s, hassign, hbeams, _, _, rfl, rfl⟩ := DlScheduler.doScheduleDlData_ok h
  obtain rfl := Scheduler.assignDLRBG_symPerBeam hassign
  have hfits := i.fits
  have hrnti := Scheduler.assignDLRBG_rnti hassign
  obtain ⟨parts, e, hparts, hlaid, he, hused, hall⟩ := DlScheduler.scheduleBeams_ok i.nodup
    (fun _ _ => rfl) (Nat.mod_eq_of_lt i.sym_lt).symm (by dsimp only; omega) hbeams
  dsimp only at he hused
  have hrbgs : ∀ part ∈ parts, (∀ v ∈ part, ∀ r ∈ v.dci.rbgs, r ∈ D.usableRbgs) ∧
      part.Pairwise fun v v' => Disjoint v.dci.rbgs v'.dci.rbgs := by
    intro part hpart
    obtain ⟨el, hel, hpos, sp, hd⟩ := forall₂_right hall part hpart
    by_cases hnil : part = []
    · rw [hnil]
      exact ⟨fun v hv => absurd hv List.not_mem_nil, List.Pairwise.nil⟩
    · obtain ⟨husable, hone⟩ := Scheduler.assignDLRBG_shares hassign hel (hpos hnil)
      refine ⟨fun v hv r hr => ?_, hd.distinct.imp ?_⟩
      · obtain ⟨ue, hue, hdci⟩ := hd.dci v hv
        exact husable ue hue r ((hdci.rbgs r).mp hr)
      · rintro v v' ⟨ue, hue, ue', hue', hne, hdci, hdci'⟩
        rw [Set.disjoint_left]
        intro r hr hr'
        exact hne (hone ue hue ue' hue' r ((hdci.rbgs r).mp hr) ((hdci'.rbgs r).mp hr'))
  refine ⟨parts, hparts, ?_, ?_, ?_, ?_, hlaid.apart, ?_⟩
  · refine hall.imp ?_
    rintro el part ⟨_, sp, hd⟩ v hv
    obtain ⟨ue, hue, hdci⟩ := hd.dci v hv
    exact ⟨ue, hue, hdci.rnti.trans (hrnti ue.1)⟩
  · exact hlaid.cells_apart fun part hpart => (hrbgs part hpart).2
  · intro v hv r hr
    obtain ⟨part, hpart, hv⟩ := List.mem_flatten.mp hv
    exact (hrbgs part hpart).1 v hv r hr
  · intro v hv
    obtain ⟨part, hpart, hv⟩ := List.mem_flatten.mp hv
    refine (hlaid.within part hpart v hv).trans ?_
    apply Set.Ico_subset_Ico_right
    omega
  · omega

/-- Two RBGs, and every byte of a transport block to one logical channel. -/
def DlScheduler.twoRbgs : DlScheduler :=
  { Scheduler.wideband [true, true] with
    bandwidth := 2
    dlNotchedRbgMask := []
    getDlBitmask := rfl
    symbolsPerSlot := 14
    bwpId := 0
    assignBytesToDlLC := fun _ tbSize => [⟨0, 4, tbSize⟩]
    assignedData := fun dlLCG _ => .ok dlLCG }

/-- Two UEs in one beam, after one symbol of control. -/
def DlSlotStart.oneBeam : DlSlotStart :=
  { SlotStart.oneBeam (.fresh (setDppWeights 0 1 1) fun _ => 5) (fun _ => ⟨rfl, rfl, rfl⟩) (0, 60)
      [(1, 50)] (by decide) with
    spoint := ⟨0, 1⟩
    slotAlloc := ⟨[], 1⟩
    sym_lt := by decide
    fits := by decide }

theorem collisionFree_oneBeam : ∃ parts r, DlScheduler.twoRbgs.doScheduleDlData (fun _ => some 0) 0
      DlSlotStart.oneBeam.world DlSlotStart.oneBeam.spoint DlSlotStart.oneBeam.symAvail
      DlSlotStart.oneBeam.activeDl DlSlotStart.oneBeam.slotAlloc = .ok r ∧
    CollisionFree .twoRbgs .oneBeam parts r.2.2.2 := by
  obtain ⟨⟨w', spoint', slotAlloc', usedSym⟩, h⟩ := exists_of_isOk
    (x := DlScheduler.twoRbgs.doScheduleDlData (fun _ => some 0) 0 DlSlotStart.oneBeam.world
      DlSlotStart.oneBeam.spoint DlSlotStart.oneBeam.symAvail DlSlotStart.oneBeam.activeDl
      DlSlotStart.oneBeam.slotAlloc) (by decide +kernel)
  obtain ⟨parts, _, hfree⟩ := collisionFree .twoRbgs (fun _ => some 0) 0 .oneBeam
    (by decide +kernel) h
  exact ⟨parts, _, h, hfree⟩

end Rbis
