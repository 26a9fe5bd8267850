import Rbis.Sched.BeamInv

/-! # The beams of a call

What each part of `AssignDLRBG` leaves alone, beam after beam.  The entry of a beam writes only
the weights of its UEs, the loop and the fronthaul control only the allocation fields and the
MCS cap of its UEs, and the static members are never written.  Hence every beam starts with
clean UEs, and its loop in the invariant (`loopEntry_inv`). -/

namespace Rbis

open Cxx Fallible

/-- The fields that neither the loop nor the fronthaul control writes. -/
structure UeInfo.Kept (u v : UeInfo) : Prop where
  rnti : v.rnti = u.rnti
  k : v.k = u.k

theorem UeInfo.Kept.refl (u : UeInfo) : u.Kept u := ⟨rfl, rfl⟩

theorem UeInfo.Kept.trans {u v w : UeInfo} (h : u.Kept v) (h' : v.Kept w) : u.Kept w :=
  ⟨h'.rnti.trans h.rnti, h'.k.trans h.k⟩

theorem UeInfo.SameConfig.kept {u v : UeInfo} (h : u.SameConfig v) : u.Kept v := by
  rw [h]
  exact ⟨rfl, rfl⟩

namespace Scheduler

variable {S : Scheduler} {now : ℚ} {beamSym : ℕ}

/-! ### The entry of a beam -/

/-- The weight of a UE in the slot. -/
def weighed (S : Scheduler) (st : DppaStatics) (beamSym : ℕ) (u : UeInfo) (buf : ℕ) : UeInfo :=
  u.updateDlK st S.dlAmc S.numRbPerRbg buf ⟨beamSym, beamSym⟩ S.slotPeriod

theorem enterUe_ok {w w' : World} {ue : UePtrAndBufferReq}
    (h : S.enterUe now beamSym w ue = .ok w') :
    w' = { ues := Function.update w.ues ue.1 (S.weighed w.statics beamSym (w.ues ue.1) ue.2)
           drlItf := S.reportUe now w.drlItf (S.weighed w.statics beamSym (w.ues ue.1) ue.2) ue.2
           allUEs := registerUe w.allUEs w.drlItf ue
           statics := w.statics } := by
  unfold enterUe at h
  dsimp only at h
  split at h
  · cases h
  · cases h
    simp [beforeDlSched, weighed]

/-- What the entry of the UEs `l` does to the world. -/
structure Entered (S : Scheduler) (beamSym : ℕ) (l : List UePtrAndBufferReq) (w w' : World) :
    Prop where
  statics : w'.statics = w.statics
  others : ∀ p, p ∉ l.map Prod.fst → w'.ues p = w.ues p
  rnti : ∀ p, (w'.ues p).rnti = (w.ues p).rnti
  clean : ∀ p, (w.ues p).Clean → (w'.ues p).Clean
  weighed : (l.map Prod.fst).Nodup → ∀ ue ∈ l,
    w'.ues ue.1 = S.weighed w.statics beamSym (w.ues ue.1) ue.2

theorem entered_of_foldlM : ∀ {l : List UePtrAndBufferReq} {w w' : World},
    l.foldlM (S.enterUe now beamSym) w = .ok w' → Entered S beamSym l w w'
  | [], w, w', h => by
      cases h
      exact ⟨rfl, fun _ _ => rfl, fun _ => rfl, fun _ h => h, fun _ _ h => absurd h (by simp)⟩
  | ue :: l, w, w', h => by
      rw [List.foldlM_cons] at h
      obtain ⟨w₁, h1, h2⟩ := bind_eq_ok.mp h
      have ih := entered_of_foldlM h2
      have e := enterUe_ok h1
      have hst : w₁.statics = w.statics := by rw [e]
      have hself : w₁.ues ue.1 = S.weighed w.statics beamSym (w.ues ue.1) ue.2 := by
        rw [e]
        exact Function.update_self _ _ _
      have hother : ∀ p, p ≠ ue.1 → w₁.ues p = w.ues p := by
        intro p hp
        rw [e]
        exact Function.update_of_ne hp _ _
      refine ⟨ih.statics.trans hst, fun p hp => ?_, fun p => ?_, fun p hc => ?_,
        fun hn u hu => ?_⟩
      · rw [List.map_cons, List.mem_cons, not_or] at hp
        rw [ih.others p hp.2, hother p hp.1]
      · rw [ih.rnti p]
        by_cases hp : p = ue.1
        · rw [hp, hself]
          rfl
        · rw [hother p hp]
      · apply ih.clean p
        by_cases hp : p = ue.1
        · rw [hp, hself]
          rw [hp] at hc
          exact hc
        · rw [hother p hp]
          exact hc
      · rw [List.map_cons, List.nodup_cons] at hn
        obtain rfl | hu := List.mem_cons.mp hu
        · rw [ih.others u.1 hn.1, hself]
        · have hne : u.1 ≠ ue.1 := fun h => hn.1 (h ▸ List.mem_map_of_mem hu)
          rw [ih.weighed hn.2 u hu, hst, hother u.1 hne]

theorem beamEntry_ok {w : World} {ues : List UePtrAndBufferReq} {e : World × BeamState}
    (h : S.beamEntry now beamSym w ues = .ok e) :
    S.usableRbgs ≠ [] ∧ ues.foldlM (S.enterUe now beamSym) w = .ok e.1 ∧
      e.2 = { alloc := ⟨e.1.ues, S.usableRbgs, ⟨0, 0⟩, S.dlBitmask⟩
              ueVector := S.stdSort.sort (fun a b => compareUeWeightsDl (e.1.ues a.1) (e.1.ues b.1)) ues
              schedInfoIt := 0, reapingResources := true, pc := .reapTest } := by
  unfold beamEntry at h
  split at h
  · cases h
  · next hne =>
      obtain ⟨w', h1, h2⟩ := bind_eq_ok.mp h
      cases h2
      exact ⟨hne, h1, rfl⟩

/-- The loop of a beam starts in the invariant. -/
theorem beamEntry_inv {w : World} {ues : List UePtrAndBufferReq} {e : World × BeamState}
    (h : S.beamEntry now beamSym w ues = .ok e) (hn : (ues.map Prod.fst).Nodup)
    (hc : ∀ ue ∈ ues, (w.ues ue.1).Clean) (st : DppaStatics) : BeamInv S st beamSym e.2 := by
  obtain ⟨_, h1, h2⟩ := beamEntry_ok h
  have hent := entered_of_foldlM h1
  have hperm : e.2.ueVector.Perm ues := by
    rw [h2]
    exact S.stdSort.perm _ _
  have hclean : ∀ ue ∈ e.2.ueVector, (e.2.alloc.ues ue.1).Clean := by
    intro ue hue
    rw [h2]
    exact hent.clean ue.1 (hc ue (hperm.mem_iff.mp hue))
  refine ⟨⟨fun _ => [], [], ?_⟩, by rw [h2]; trivial⟩
  have hflat : (e.2.ueVector.map Prod.fst).flatMap (fun _ => ([] : List ℕ)) = [] := by simp
  refine ⟨(hperm.map Prod.fst).nodup_iff.mpr hn, fun ue hue => ?_, fun ue hue => ?_,
    fun ue hue => ?_, ?_, ?_, ?_, fun _ => rfl⟩
  · unfold MetricOk
    rw [UeInfo.tbSizeNow_of_nil _ _ _ (hclean ue hue).1, (hclean ue hue).2.2]
  · exact (hclean ue hue).1
  · rw [(hclean ue hue).2.1]
    rfl
  · rw [hflat, h2]
    simp
  · rw [hflat, h2]
    rfl
  · rw [h2]

/-! ### The loop and the fronthaul control -/

theorem runLoop_ok {st : DppaStatics} {s t : BeamState} (h : S.runLoop st beamSym s = .ok t) :
    Orbit.Reaches (S.step st beamSym) s t ∧ t.pc = .finished := by
  unfold runLoop at h
  have hr : Orbit.Reaches (S.step st beamSym) s _ :=
    Orbit.runFuel_reaches BeamState.halted (loopFuel s) s
  generalize Orbit.runFuel (S.step st beamSym) BeamState.halted (loopFuel s) s = u at h hr
  cases hpc : u.pc with
  | finished =>
      simp only [hpc] at h
      cases h
      exact ⟨hr, hpc⟩
  | reapTest => simp [hpc] at h
  | allocTest => simp [hpc] at h
  | serve n b => simp [hpc] at h
  | progress n => simp [hpc] at h
  | reap => simp [hpc] at h
  | fault f => simp [hpc] at h

theorem reaches_inv {st : DppaStatics} {s t : BeamState}
    (h : Orbit.Reaches (S.step st beamSym) s t) (hs : BeamInv S st beamSym s) :
    BeamInv S st beamSym t ∧ Frame s t := by
  have hstep : ∀ u, BeamInv S st beamSym u ∧ Frame s u →
      BeamInv S st beamSym (S.step st beamSym u) ∧ Frame s (S.step st beamSym u) :=
    fun u hu => ⟨step_inv hu.1, hu.2.trans (step_frame hu.1)⟩
  exact h.inv hstep ⟨hs, Frame.of_eq rfl rfl⟩

/-- What the fronthaul control may do to the heap: only the UEs `l` change, and they keep
their weight and get no RBG. -/
structure FhFrame (l : List UePtr) (ues ues' : UePtr → UeInfo) : Prop where
  others : ∀ p, p ∉ l → ues' p = ues p
  kept : ∀ p, (ues p).Kept (ues' p)
  nil : ∀ p, (ues p).dlRBG = [] → (ues' p).dlRBG = []

theorem FhFrame.refl (l : List UePtr) (ues : UePtr → UeInfo) : FhFrame l ues ues :=
  ⟨fun _ _ => rfl, fun _ => UeInfo.Kept.refl _, fun _ h => h⟩

theorem FhFrame.trans {l : List UePtr} {u v w : UePtr → UeInfo} (h : FhFrame l u v)
    (h' : FhFrame l v w) : FhFrame l u w :=
  ⟨fun p hp => (h'.others p hp).trans (h.others p hp), fun p => (h.kept p).trans (h'.kept p),
    fun p hp => h'.nil p (h.nil p hp)⟩

theorem FhFrame.update {l : List UePtr} {ues : UePtr → UeInfo} {p : UePtr} {u : UeInfo}
    (hp : p ∈ l) (hk : (ues p).Kept u) (hnil : (ues p).dlRBG = [] → u.dlRBG = []) :
    FhFrame l ues (Function.update ues p u) := by
  refine ⟨fun q hq => ?_, fun q => ?_, fun q hq => ?_⟩
  · rw [Function.update_of_ne]
    rintro rfl
    exact hq hp
  · by_cases e : q = p
    · rw [e, Function.update_self]
      exact hk
    · rw [Function.update_of_ne e]
      exact UeInfo.Kept.refl _
  · by_cases e : q = p
    · rw [e, Function.update_self]
      rw [e] at hq
      exact hnil hq
    · rw [Function.update_of_ne e]
      exact hq

theorem shrink_prefix {l r : List ℕ} {n : ℕ} (h : shrink l n = .ok r) : r <+: l := by
  unfold shrink at h
  split at h
  · cases h
    exact List.take_prefix _ _
  · cases h

theorem deallocateCurrentResourceFromUe_ues {p : UePtr} {rbg : ℕ} {a b : Alloc}
    (h : deallocateCurrentResourceFromUe p rbg beamSym a = .ok b) :
    ∃ r y, y <+: (a.ues p).dlSym ∧
      b.ues = Function.update a.ues p { a.ues p with dlRBG := r, dlSym := y } := by
  obtain ⟨_, _, r, y, hy, rfl⟩ := deallocateCurrentResourceFromUe_ok h
  exact ⟨r, y, shrink_prefix hy, rfl⟩

/-- A release leaves the UE without RBGs. -/
theorem releaseRbgs_ues {p : UePtr} {onFree : ℕ → List ℕ → List ℕ} :
    ∀ {n : ℕ} {a b : Alloc}, releaseRbgs p beamSym onFree n a = .ok b →
      ∃ y, y <+: (a.ues p).dlSym ∧
        b.ues = Function.update a.ues p { a.ues p with dlRBG := [], dlSym := y } := by
  intro n
  have hself : ∀ {a : Alloc}, (a.ues p).dlRBG = [] →
      a.ues = Function.update a.ues p { a.ues p with dlRBG := [], dlSym := (a.ues p).dlSym } := by
    intro a hnil
    have e : { a.ues p with dlRBG := [], dlSym := (a.ues p).dlSym } = a.ues p := by rw [← hnil]
    rw [e, Function.update_eq_self]
  induction n with
  | zero =>
      intro a b h
      unfold releaseRbgs at h
      split at h
      · next hnil =>
          cases h
          exact ⟨_, List.prefix_rfl, hself hnil⟩
      · cases h
  | succ n ih =>
      intro a b h
      unfold releaseRbgs at h
      split at h
      · next hnone =>
          cases h
          exact ⟨_, List.prefix_rfl, hself (List.getLast?_eq_none_iff.mp hnone)⟩
      · obtain ⟨c, hc, h⟩ := bind_eq_ok.mp h
        obtain ⟨r, y, hy, hcu⟩ := deallocateCurrentResourceFromUe_ues hc
        obtain ⟨z, hz, hbu⟩ := ih h
        have hcp : c.ues p = { a.ues p with dlRBG := r, dlSym := y } := by
          rw [hcu, Function.update_self]
        have hz' : z <+: (c.ues p).dlSym := hz
        rw [hcp] at hz'
        refine ⟨z, hz'.trans hy, ?_⟩
        show b.ues = _
        rw [hbu]
        show Function.update c.ues p { c.ues p with dlRBG := [], dlSym := z } = _
        rw [hcp, hcu, Function.update_idem]

/-- **The fronthaul control** keeps what capping the MCS and taking the whole allocation of a
UE of `l` keep. -/
theorem fronthaul_ues {P : (UePtr → UeInfo) → Prop} {l : List UePtr}
    (hcap : ∀ ues, ∀ p ∈ l, ∀ mcs, (ues p).dlRBG ≠ [] → P ues →
      P (Function.update ues p { ues p with fhMaxMcsAssignable := some mcs }))
    (hfree : ∀ ues, ∀ p ∈ l, ∀ y, y <+: (ues p).dlSym → P ues →
      P (Function.update ues p { ues p with dlRBG := [], dlSym := y }))
    {ues : List UePtrAndBufferReq} {s : BeamState} {queries : List FhQuery}
    {r : Alloc × List FhQuery} (hues : ∀ ue ∈ ues, ue.1 ∈ l) (hvec : ∀ ue ∈ s.ueVector, ue.1 ∈ l)
    (h : S.fronthaul beamSym ues s queries = .ok r) (hs : P s.alloc.ues) : P r.1.ues := by
  unfold fronthaul at h
  split at h
  · cases h
    exact hs
  · next fh _ =>
      obtain ⟨heap, hheap, h⟩ := bind_eq_ok.mp h
      have hheap' : P heap := by
        unfold capAll at hheap
        split at hheap
        · refine foldlM_ok (P := P) ?_ hs hheap
          intro ue hue b c hb hc
          unfold capMcs at hc
          dsimp only at hc
          split at hc
          · cases hc
            exact hb
          · next hne =>
              obtain ⟨mcs, _, hc⟩ := bind_eq_ok.mp hc
              cases hc
              exact hcap b ue.1 (hues ue hue) _ hne hb
        · cases hheap
          exact hs
      have hdrop : S.deallocateResourcesDueToFronthaulConstraint fh beamSym s.ueVector
          { s.alloc with ues := heap } queries = .ok r → P r.1.ues := by
        intro h
        unfold deallocateResourcesDueToFronthaulConstraint at h
        refine foldlM_ok (P := fun acc => P acc.1.ues) ?_ hheap' h
        intro ue hue b c hb hc
        have hmem := hvec ue ((S.stdShuffle_perm s.ueVector).mem_iff.mp hue)
        unfold dropUnfit at hc
        dsimp only at hc
        split at hc
        · cases hc
          exact hb
        · obtain ⟨mcs, _, hc⟩ := bind_eq_ok.mp hc
          split at hc
          · cases hc
            exact hb
          · obtain ⟨d, hd, hc⟩ := bind_eq_ok.mp hc
            cases hc
            obtain ⟨y, hy, hdu⟩ := releaseRbgs_ues hd
            show P d.ues
            rw [hdu]
            exact hfree _ ue.1 hmem y hy hb
      dsimp only at h
      split at h
      · cases h
        exact hheap'
      · exact hdrop h

theorem fronthaul_frame {l : List UePtr} {ues : List UePtrAndBufferReq} {s : BeamState}
    {queries : List FhQuery} {r : Alloc × List FhQuery} (hues : ∀ ue ∈ ues, ue.1 ∈ l)
    (hvec : ∀ ue ∈ s.ueVector, ue.1 ∈ l) (h : S.fronthaul beamSym ues s queries = .ok r) :
    FhFrame l s.alloc.ues r.1.ues := by
  refine fronthaul_ues (P := fun ues => FhFrame l s.alloc.ues ues) ?_ ?_ hues hvec h
    (FhFrame.refl l _)
  · intro ues p hp mcs hne hf
    exact hf.trans (FhFrame.update hp ⟨rfl, rfl⟩ fun h => absurd h hne)
  · intro ues p hp y _ hf
    exact hf.trans (FhFrame.update hp ⟨rfl, rfl⟩ fun _ => rfl)

/-- A UE keeps its RBGs or loses them all. -/
theorem fronthaul_dlRBG {ues : List UePtrAndBufferReq} {s : BeamState} {queries : List FhQuery}
    {r : Alloc × List FhQuery} (h : S.fronthaul beamSym ues s queries = .ok r) (p : UePtr) :
    (r.1.ues p).dlRBG = (s.alloc.ues p).dlRBG ∨ (r.1.ues p).dlRBG = [] := by
  refine fronthaul_ues
    (P := fun ues => ∀ p, (ues p).dlRBG = (s.alloc.ues p).dlRBG ∨ (ues p).dlRBG = [])
    (l := ues.map Prod.fst ++ s.ueVector.map Prod.fst) ?_ ?_
    (fun ue hue => List.mem_append_left _ (List.mem_map_of_mem hue))
    (fun ue hue => List.mem_append_right _ (List.mem_map_of_mem hue)) h (fun p => Or.inl rfl) p
  · intro ues p _ mcs _ hkeep q
    by_cases e : q = p
    · rw [e, Function.update_self]
      exact hkeep p
    · rw [Function.update_of_ne e]
      exact hkeep q
  · intro ues p _ y _ hkeep q
    by_cases e : q = p
    · rw [e, Function.update_self]
      exact Or.inr rfl
    · rw [Function.update_of_ne e]
      exact hkeep q

/-! ### One beam, and the beams before it -/

variable {symPerBeam : BeamSymbolMap}

theorem assignBeam_ok {acc acc' : World × List FhQuery} {el : BeamId × List UePtrAndBufferReq}
    (h : S.assignBeam now symPerBeam acc el = .ok acc') :
    ∃ e s r, S.beamEntry now (symPerBeam.getD el.1 0) acc.1 el.2 = .ok e ∧
      S.runLoop e.1.statics (symPerBeam.getD el.1 0) e.2 = .ok s ∧
      S.fronthaul (symPerBeam.getD el.1 0) el.2 s acc.2 = .ok r ∧
      acc' = ({ e.1 with ues := r.1.ues }, r.2) := by
  unfold assignBeam at h
  obtain ⟨e, he, h⟩ := bind_eq_ok.mp h
  obtain ⟨s, hs, h⟩ := bind_eq_ok.mp h
  obtain ⟨r, hr, h⟩ := bind_eq_ok.mp h
  cases h
  exact ⟨e, s, r, he, hs, hr, rfl⟩

/-- What beams with the UEs `l` do to the world. -/
structure BeamFrame (l : List UePtr) (w w' : World) : Prop where
  statics : w'.statics = w.statics
  others : ∀ p, p ∉ l → w'.ues p = w.ues p
  rnti : ∀ p, (w'.ues p).rnti = (w.ues p).rnti

theorem BeamFrame.refl (l : List UePtr) (w : World) : BeamFrame l w w :=
  ⟨rfl, fun _ _ => rfl, fun _ => rfl⟩

theorem beamEntry_mem {w : World} {ues : List UePtrAndBufferReq} {e : World × BeamState}
    (h : S.beamEntry now beamSym w ues = .ok e) {ue : UePtrAndBufferReq} :
    ue ∈ e.2.ueVector ↔ ue ∈ ues := by
  obtain ⟨_, _, h2⟩ := beamEntry_ok h
  rw [h2]
  exact S.stdSort.mem_sort _ _

theorem loop_fronthaul_frame {w : World} {ues : List UePtrAndBufferReq} {e : World × BeamState}
    {st : DppaStatics} {s : BeamState} {q : List FhQuery} {r : Alloc × List FhQuery}
    (he : S.beamEntry now beamSym w ues = .ok e) (hn : (ues.map Prod.fst).Nodup)
    (hc : ∀ ue ∈ ues, (w.ues ue.1).Clean) (hs : S.runLoop st beamSym e.2 = .ok s)
    (hr : S.fronthaul beamSym ues s q = .ok r) :
    FhFrame (ues.map Prod.fst) s.alloc.ues r.1.ues ∧ Frame e.2 s := by
  have hreach := (runLoop_ok hs).1
  have hframe := (reaches_inv hreach (beamEntry_inv he hn hc st)).2
  refine ⟨fronthaul_frame (fun ue hue => List.mem_map_of_mem hue) (fun ue hue => ?_) hr, hframe⟩
  exact List.mem_map_of_mem ((beamEntry_mem he).mp (hframe.mem ue hue))

theorem assignBeam_frame {acc acc' : World × List FhQuery}
    {el : BeamId × List UePtrAndBufferReq} (hn : (el.2.map Prod.fst).Nodup)
    (hc : ∀ ue ∈ el.2, (acc.1.ues ue.1).Clean)
    (h : S.assignBeam now symPerBeam acc el = .ok acc') :
    BeamFrame (el.2.map Prod.fst) acc.1 acc'.1 := by
  obtain ⟨e, s, r, he, hs, hr, rfl⟩ := assignBeam_ok h
  obtain ⟨_, h1, h2⟩ := beamEntry_ok he
  have hent := entered_of_foldlM h1
  obtain ⟨hfh, hloop⟩ := loop_fronthaul_frame he hn hc hs hr
  have hues : e.2.alloc.ues = e.1.ues := by rw [h2]
  refine ⟨hent.statics, fun p hp => ?_, fun p => ?_⟩
  · have hp' : p ∉ e.2.ueVector.map Prod.fst := by
      intro hm
      obtain ⟨ue, hue, rfl⟩ := List.mem_map.mp hm
      exact hp (List.mem_map_of_mem ((beamEntry_mem he).mp hue))
    show r.1.ues p = _
    rw [hfh.others p hp, hloop.others p hp', hues, hent.others p hp]
  · show (r.1.ues p).rnti = _
    rw [(hfh.kept p).rnti, (hloop.same p).kept.rnti, hues, hent.rnti p]

/-- The UEs of the beams. -/
def pointers (l : ActiveUeMap) : List UePtr := l.flatMap fun el => el.2.map Prod.fst

theorem assignBeams_frame : ∀ {l : ActiveUeMap} {acc acc' : World × List FhQuery},
    (pointers l).Nodup → (∀ el ∈ l, ∀ ue ∈ el.2, (acc.1.ues ue.1).Clean) →
      l.foldlM (S.assignBeam now symPerBeam) acc = .ok acc' →
      BeamFrame (pointers l) acc.1 acc'.1
  | [], acc, acc', _, _, h => by
      cases h
      exact BeamFrame.refl _ _
  | el :: l, acc, acc', hn, hc, h => by
      have hn' : (el.2.map Prod.fst).Nodup ∧ (pointers l).Nodup ∧
          ∀ p ∈ el.2.map Prod.fst, ∀ q ∈ pointers l, p ≠ q := by
        unfold pointers at hn
        rw [List.flatMap_cons] at hn
        exact List.nodup_append.mp hn
      rw [List.foldlM_cons] at h
      obtain ⟨acc₁, h1, h2⟩ := bind_eq_ok.mp h
      have hf := assignBeam_frame hn'.1 (fun ue hue => hc el List.mem_cons_self ue hue) h1
      have hc₁ : ∀ el' ∈ l, ∀ ue ∈ el'.2, (acc₁.1.ues ue.1).Clean := by
        intro el' hel' ue hue
        have hq : ue.1 ∈ pointers l :=
          List.mem_flatMap.mpr ⟨el', hel', List.mem_map_of_mem hue⟩
        rw [hf.others ue.1 fun hm => hn'.2.2 ue.1 hm ue.1 hq rfl]
        exact hc el' (List.mem_cons_of_mem el hel') ue hue
      have ih := assignBeams_frame hn'.2.1 hc₁ h2
      refine ⟨ih.statics.trans hf.statics, fun p hp => ?_, fun p => (ih.rnti p).trans (hf.rnti p)⟩
      have hp' : p ∉ el.2.map Prod.fst ∧ p ∉ pointers l := by
        constructor
        · exact fun hm => hp (List.mem_append_left _ hm)
        · exact fun hm => hp (List.mem_append_right _ hm)
      rw [ih.others p hp'.2, hf.others p hp'.1]

end Scheduler

namespace Scheduler

variable {S : Scheduler} {now : ℚ} {i : SlotStart} {pre post : ActiveUeMap}
  {el : BeamId × List UePtrAndBufferReq}

theorem disjoint_of_split (hi : i.activeDl = pre ++ el :: post)
    {el' : BeamId × List UePtrAndBufferReq} (hel : el' ∈ pre) {ue : UePtrAndBufferReq}
    (hue : ue ∈ el'.2) : ue.1 ∉ el.2.map Prod.fst := by
  have hn := i.nodup
  rw [hi, List.flatMap_append, List.nodup_append] at hn
  intro hm
  refine hn.2.2 ue.1 (List.mem_flatMap.mpr ⟨el', hel, List.mem_map_of_mem hue⟩) ue.1 ?_ rfl
  exact List.mem_append_left _ hm

theorem beforeBeam {acc : World × List FhQuery} (hi : i.activeDl = pre ++ el :: post)
    (hpre : pre.foldlM (S.assignBeam now (S.getSymPerBeam i.symAvail i.activeDl)) (i.world, []) =
      .ok acc) :
    acc.1.statics = i.world.statics ∧ ∀ ue ∈ el.2, acc.1.ues ue.1 = i.world.ues ue.1 := by
  have hn := i.nodup
  rw [hi, List.flatMap_append, List.nodup_append, List.flatMap_cons] at hn
  obtain ⟨hnpre, _, hdisj⟩ := hn
  have hcpre : ∀ el ∈ pre, ∀ ue ∈ el.2, (i.world.ues ue.1).Clean := by
    intro el hel ue hue
    refine i.clean el ?_ ue hue
    rw [hi]
    exact List.mem_append_left _ hel
  have hf : BeamFrame _ i.world acc.1 := assignBeams_frame hnpre hcpre hpre
  refine ⟨hf.statics, fun ue hue => ?_⟩
  have hmem : ue.1 ∈ el.2.map Prod.fst := List.mem_map_of_mem hue
  exact hf.others ue.1 fun hm => hdisj ue.1 hm ue.1 (List.mem_append_left _ hmem) rfl

theorem loopEntry_clean {acc : World × List FhQuery} (hi : i.activeDl = pre ++ el :: post)
    (hpre : pre.foldlM (S.assignBeam now (S.getSymPerBeam i.symAvail i.activeDl)) (i.world, []) =
      .ok acc) :
    (el.2.map Prod.fst).Nodup ∧ ∀ ue ∈ el.2, (acc.1.ues ue.1).Clean := by
  have hn := i.nodup
  rw [hi, List.flatMap_append, List.nodup_append, List.flatMap_cons, List.nodup_append] at hn
  refine ⟨hn.2.1.1, fun ue hue => ?_⟩
  rw [(beforeBeam hi hpre).2 ue hue]
  refine i.clean el ?_ ue hue
  rw [hi]
  exact List.mem_append_cons_self

theorem beamEntry_ues {beamSym : ℕ} {acc : World × List FhQuery} {e : World × BeamState}
    (hi : i.activeDl = pre ++ el :: post)
    (hpre : pre.foldlM (S.assignBeam now (S.getSymPerBeam i.symAvail i.activeDl)) (i.world, []) =
      .ok acc)
    (he : S.beamEntry now beamSym acc.1 el.2 = .ok e) :
    e.1.statics = i.world.statics ∧ ∀ ue ∈ el.2,
      e.2.ueOf ue = S.weighed i.world.statics beamSym (i.world.ues ue.1) ue.2 := by
  obtain ⟨hn, _⟩ := loopEntry_clean hi hpre
  obtain ⟨hst, hues⟩ := beforeBeam hi hpre
  obtain ⟨_, h1, h2⟩ := beamEntry_ok he
  have hent := entered_of_foldlM h1
  refine ⟨hent.statics.trans hst, fun ue hue => ?_⟩
  rw [h2]
  show e.1.ues ue.1 = _
  rw [hent.weighed hn ue hue, hst, hues ue hue]

/-- **Entry.** The allocation loop of every beam of a call starts in the invariant. -/
theorem loopEntry_inv {st : DppaStatics} {beamSym : ℕ} {s : BeamState}
    (h : S.LoopEntry now i st beamSym s) :
    BeamInv S st beamSym s ∧ s.pc = .reapTest ∧ s.schedInfoIt = 0 ∧ s.ueVector ≠ [] := by
  obtain ⟨pre, el, post, acc, e, hi, hpre, rfl, he, rfl, rfl⟩ := h
  obtain ⟨hn, hc⟩ := loopEntry_clean hi hpre
  obtain ⟨_, _, h2⟩ := beamEntry_ok he
  refine ⟨beamEntry_inv he hn hc _, by rw [h2], by rw [h2], fun hnil => ?_⟩
  have hmem : el ∈ i.activeDl := by
    rw [hi]
    exact List.mem_append_cons_self
  obtain ⟨ue, hue⟩ := List.exists_mem_of_ne_nil _ (i.nonempty el hmem)
  have := (beamEntry_mem he).mpr hue
  rw [hnil] at this
  cases this

theorem loopEntry_resources {st : DppaStatics} {beamSym : ℕ} {s : BeamState}
    (h : S.LoopEntry now i st beamSym s) :
    s.alloc.remainingRbgSet = S.usableRbgs ∧ s.reapingResources = true := by
  obtain ⟨pre, el, post, acc, e, _, _, rfl, he, rfl, rfl⟩ := h
  obtain ⟨_, _, h2⟩ := beamEntry_ok he
  rw [h2]
  exact ⟨rfl, rfl⟩

theorem assignBeam_statics {acc acc' : World × List FhQuery} {symPerBeam : BeamSymbolMap}
    (h : S.assignBeam now symPerBeam acc el = .ok acc') : acc'.1.statics = acc.1.statics := by
  obtain ⟨e, s, r, he, hs, hr, rfl⟩ := assignBeam_ok h
  obtain ⟨_, h1, _⟩ := beamEntry_ok he
  exact (entered_of_foldlM h1).statics

/-! ### The end of the call -/

/-- What the end of the call leaves of the world. -/
structure CloseFrame (w w' : World) : Prop where
  statics : w'.statics = w.statics
  allUEs : w'.allUEs = w.allUEs
  reported : w'.drlItf.reported = w.drlItf.reported
  kept : ∀ p, (w.ues p).Kept (w'.ues p)
  dlRBG : ∀ p, (w'.ues p).dlRBG = (w.ues p).dlRBG

theorem closeUe_frame (S : Scheduler) (total : ℕ) (w : World) (ue : UePtrAndBufferReq) :
    CloseFrame w (S.closeUe total w ue) := by
  have hu : ∀ u : UeInfo, u.Kept (if S.enableVirtualQueue then
        u.updateDlTputVirtualQueue S.slotPeriod else u) ∧
      (if S.enableVirtualQueue then u.updateDlTputVirtualQueue S.slotPeriod else u).dlRBG =
        u.dlRBG := by
    intro u
    split
    · exact ⟨⟨rfl, rfl⟩, rfl⟩
    · exact ⟨UeInfo.Kept.refl u, rfl⟩
  refine ⟨rfl, rfl, rfl, fun p => ?_, fun p => ?_⟩
  · by_cases hp : p = ue.1
    · rw [hp]
      simp only [closeUe, Function.update_self]
      exact (hu _).1
    · simp only [closeUe, Function.update_of_ne hp]
      exact UeInfo.Kept.refl _
  · by_cases hp : p = ue.1
    · rw [hp]
      simp only [closeUe, Function.update_self]
      exact (hu _).2
    · simp only [closeUe, Function.update_of_ne hp]

theorem closeAll_frame (S : Scheduler) (total : ℕ) : ∀ (l : List UePtrAndBufferReq) (w : World),
    CloseFrame w (l.foldl (S.closeUe total) w)
  | [], _ => ⟨rfl, rfl, rfl, fun _ => UeInfo.Kept.refl _, fun _ => rfl⟩
  | ue :: l, w => by
      have h := closeUe_frame S total w ue
      have ih := closeAll_frame S total l (S.closeUe total w ue)
      rw [List.foldl_cons]
      exact ⟨ih.statics.trans h.statics, ih.allUEs.trans h.allUEs, ih.reported.trans h.reported,
        fun p => (h.kept p).trans (ih.kept p), fun p => (ih.dlRBG p).trans (h.dlRBG p)⟩

theorem assignDLRBG_ok {w w' : World} {symAvail : ℕ} {activeDl : ActiveUeMap}
    {symPerBeam : BeamSymbolMap} (h : S.assignDLRBG now w symAvail activeDl = .ok (w', symPerBeam)) :
    ∃ acc, activeDl.foldlM (S.assignBeam now (S.getSymPerBeam symAvail activeDl)) (w, []) =
      .ok acc ∧ CloseFrame acc.1 w' := by
  unfold assignDLRBG at h
  obtain ⟨acc, hacc, h⟩ := bind_eq_ok.mp h
  cases h
  exact ⟨acc, hacc, closeAll_frame S _ _ _⟩

theorem assignDLRBG_statics {w w' : World} {symAvail : ℕ} {activeDl : ActiveUeMap}
    {symPerBeam : BeamSymbolMap} (h : S.assignDLRBG now w symAvail activeDl = .ok (w', symPerBeam)) :
    w'.statics = w.statics := by
  obtain ⟨acc, hacc, hclose⟩ := assignDLRBG_ok h
  rw [hclose.statics]
  refine foldlM_ok (P := fun acc => acc.1.statics = w.statics) ?_ rfl hacc
  intro el _ b c hb hc
  exact (assignBeam_statics hc).trans hb

theorem assignDLRBG_symPerBeam {w w' : World} {symAvail : ℕ} {activeDl : ActiveUeMap}
    {symPerBeam : BeamSymbolMap} (h : S.assignDLRBG now w symAvail activeDl = .ok (w', symPerBeam)) :
    symPerBeam = S.getSymPerBeam symAvail activeDl := by
  unfold assignDLRBG at h
  obtain ⟨acc, _, h⟩ := bind_eq_ok.mp h
  cases h
  rfl

theorem assignDLRBG_rnti {w' : World} {symPerBeam : BeamSymbolMap}
    (h : S.assignDLRBG now i.world i.symAvail i.activeDl = .ok (w', symPerBeam)) (p : UePtr) :
    (w'.ues p).rnti = (i.world.ues p).rnti := by
  obtain ⟨acc, hacc, hclose⟩ := assignDLRBG_ok h
  have hf : BeamFrame _ i.world acc.1 := assignBeams_frame i.nodup i.clean hacc
  rw [(hclose.kept p).rnti, hf.rnti p]

/-- The round of one beam in a call: its UEs enter as they were before the call, and leave the
call with the RNTI, the weight and the RBGs they have after the round. -/
structure BeamRound (S : Scheduler) (now : ℚ) (i : SlotStart) (el : BeamId × List UePtrAndBufferReq)
    (w' : World) (pre post : ActiveUeMap) (acc acc' : World × List FhQuery) : Prop where
  split : i.activeDl = pre ++ el :: post
  before : pre.foldlM (S.assignBeam now (S.getSymPerBeam i.symAvail i.activeDl)) (i.world, []) =
    .ok acc
  round : S.assignBeam now (S.getSymPerBeam i.symAvail i.activeDl) acc el = .ok acc'
  statics : acc.1.statics = i.world.statics
  enters : ∀ ue ∈ el.2, acc.1.ues ue.1 = i.world.ues ue.1
  kept : ∀ ue ∈ el.2, (acc'.1.ues ue.1).Kept (w'.ues ue.1)
  dlRBG : ∀ ue ∈ el.2, (w'.ues ue.1).dlRBG = (acc'.1.ues ue.1).dlRBG

/-- The beams before a beam, its round, and what the beams after it leave alone. -/
theorem assignBeams_round {acc : World × List FhQuery} (hi : i.activeDl = pre ++ el :: post)
    (hacc : i.activeDl.foldlM (S.assignBeam now (S.getSymPerBeam i.symAvail i.activeDl))
      (i.world, []) = .ok acc) :
    ∃ acc₁ acc₂, pre.foldlM (S.assignBeam now (S.getSymPerBeam i.symAvail i.activeDl))
        (i.world, []) = .ok acc₁ ∧
      S.assignBeam now (S.getSymPerBeam i.symAvail i.activeDl) acc₁ el = .ok acc₂ ∧
      acc₁.1.statics = i.world.statics ∧
      (∀ ue ∈ el.2, acc₁.1.ues ue.1 = i.world.ues ue.1) ∧
      ∀ ue ∈ el.2, acc.1.ues ue.1 = acc₂.1.ues ue.1 := by
  have hall := hacc
  rw [hi, List.foldlM_append, ← hi] at hall
  obtain ⟨acc₁, hpre, hall⟩ := bind_eq_ok.mp hall
  rw [List.foldlM_cons] at hall
  obtain ⟨acc₂, hone, hpost⟩ := bind_eq_ok.mp hall
  obtain ⟨hn, hc⟩ := loopEntry_clean hi hpre
  have hsplit := i.nodup
  rw [hi, List.flatMap_append, List.nodup_append, List.flatMap_cons, List.nodup_append] at hsplit
  obtain ⟨hnpre, ⟨_, hnpost, hdisj⟩, hdisj'⟩ := hsplit
  have hbefore : BeamFrame _ i.world acc₁.1 := assignBeams_frame hnpre (fun el' hel' u hu =>
    i.clean el' (hi ▸ List.mem_append_left _ hel') u hu) hpre
  have hof := assignBeam_frame hn hc hone
  have hcpost : ∀ el' ∈ post, ∀ u ∈ el'.2, (acc₂.1.ues u.1).Clean := by
    intro el' hel' u hu
    have hq : u.1 ∈ pointers post := List.mem_flatMap.mpr ⟨el', hel', List.mem_map_of_mem hu⟩
    rw [hof.others u.1 fun hm => hdisj u.1 hm u.1 hq rfl,
      hbefore.others u.1 fun hm => hdisj' u.1 hm u.1 (List.mem_append_right _ hq) rfl]
    exact i.clean el' (hi ▸ List.mem_append_right _ (List.mem_cons_of_mem el hel')) u hu
  have hafter : BeamFrame _ acc₂.1 acc.1 := assignBeams_frame hnpost hcpost hpost
  obtain ⟨hstatics, henters⟩ := beforeBeam hi hpre
  refine ⟨acc₁, acc₂, hpre, hone, hstatics, henters, fun ue hue => ?_⟩
  exact hafter.others ue.1 fun hm => hdisj ue.1 (List.mem_map_of_mem hue) ue.1 hm rfl

theorem assignDLRBG_beam {w' : World} {symPerBeam : BeamSymbolMap}
    (h : S.assignDLRBG now i.world i.symAvail i.activeDl = .ok (w', symPerBeam))
    (hel : el ∈ i.activeDl) : ∃ pre post acc acc', BeamRound S now i el w' pre post acc acc' := by
  obtain ⟨acc, hacc, hclose⟩ := assignDLRBG_ok h
  obtain ⟨pre, post, hi⟩ := List.append_of_mem hel
  obtain ⟨acc₁, acc₂, hpre, hone, hstatics, henters, hlater⟩ := assignBeams_round hi hacc
  refine ⟨pre, post, acc₁, acc₂, hi, hpre, hone, hstatics, henters, fun ue hue => ?_,
    fun ue hue => ?_⟩
  · rw [← hlater ue hue]
    exact hclose.kept ue.1
  · rw [hclose.dlRBG ue.1, hlater ue hue]

theorem assignBeams_itf {P : Ns3DrlInterface → Prop}
    (hreport : ∀ itf u buf, P itf → P (S.reportUe now itf u buf))
    {acc acc' : World × List FhQuery} {activeDl : ActiveUeMap} {symPerBeam : BeamSymbolMap}
    (h : activeDl.foldlM (S.assignBeam now symPerBeam) acc = .ok acc') (hw : P acc.1.drlItf) :
    P acc'.1.drlItf := by
  refine foldlM_ok (P := fun acc => P acc.1.drlItf) ?_ hw h
  intro el _ b c hb hc
  obtain ⟨e, s, r, he, _, _, rfl⟩ := assignBeam_ok hc
  obtain ⟨_, h1, _⟩ := beamEntry_ok he
  refine foldlM_ok (P := fun w => P w.drlItf) ?_ hb h1
  intro ue _ v v' hv hv'
  rw [enterUe_ok hv']
  exact hreport _ _ _ hv

/-- What holds of the interface before a call holds after it, when reports of UEs and of
resource blocks keep it. -/
theorem assignDLRBG_itf {P : Ns3DrlInterface → Prop}
    (hreport : ∀ itf u buf, P itf → P (S.reportUe now itf u buf))
    (hrbs : ∀ itf k (rbs total : ℕ), P itf → P (itf.updateMetricsRbs k rbs total))
    {w w' : World} {symAvail : ℕ} {activeDl : ActiveUeMap} {symPerBeam : BeamSymbolMap}
    (h : S.assignDLRBG now w symAvail activeDl = .ok (w', symPerBeam)) (hw : P w.drlItf) :
    P w'.drlItf := by
  have hclose : ∀ (total : ℕ) (l : List UePtrAndBufferReq) (v : World), P v.drlItf →
      P (l.foldl (S.closeUe total) v).drlItf := by
    intro total l
    induction l with
    | nil => exact fun v hv => hv
    | cons ue l ih =>
        intro v hv
        rw [List.foldl_cons]
        apply ih
        exact hrbs _ _ _ _ hv
  unfold assignDLRBG at h
  obtain ⟨acc, hacc, h⟩ := bind_eq_ok.mp h
  cases h
  apply hclose
  exact assignBeams_itf hreport hacc hw

end Scheduler

end Rbis
