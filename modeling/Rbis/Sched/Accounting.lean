import Mathlib.Algebra.BigOperators.Ring.List
import Mathlib.Algebra.Order.BigOperators.Group.List
import Rbis.Sched.Partition

/-! # The accounting of the resource blocks

At its end a call of `AssignDLRBG` hands to the interface, for every UE of `m_allUEs`, the
resource blocks of the UE and the total of the slot (`metricsRbs`).  The resource blocks of a
beam are counted right: the entries of `m_dlRBG` are the RBGs times the symbols of the beam
(`sum_dlRBG`).  But the total is overwritten by every beam and multiplied twice by
`NumRbPerRbg`, and the sum runs over the UEs of the registry in place of the active ones. -/

namespace Rbis

open Cxx Fallible Sharing

/-- The arguments of a call of `UpdateMetricsRbs`. -/
structure MetricsRbs where
  rnti : ℤ
  rbs : ℕ
  totalRbs : ℕ

namespace Scheduler

variable {S : Scheduler} {now : ℚ} {i : SlotStart} {w' : World} {symPerBeam : BeamSymbolMap}

/-- The calls of `UpdateMetricsRbs` at the end of a call with the total `total`. -/
def metricsRbs (S : Scheduler) (total : ℕ) (w : World) : List MetricsRbs :=
  w.allUEs.map fun ue =>
    ⟨(w.ues ue.1).itfKey, S.numRbPerRbg * (w.ues ue.1).dlRBG.length, S.numRbPerRbg * total⟩

/-- What the entry of a UE does to the registry and to the set of reported UEs. -/
def registerStep (w : World) (acc : List UePtrAndBufferReq × Finset ℤ) (ue : UePtrAndBufferReq) :
    List UePtrAndBufferReq × Finset ℤ :=
  (if acc.1.length < acc.2.card then acc.1 ++ [ue] else acc.1, insert (w.ues ue.1).itfKey acc.2)

/-- `m_allUEs` after the active UEs have entered. -/
def registryAfter (w : World) (activeDl : ActiveUeMap) : List UePtrAndBufferReq :=
  ((activeDl.flatMap Prod.snd).foldl (registerStep w) (w.allUEs, w.drlItf.reported)).1

theorem enterUes_registry {beamSym : ℕ} {w₀ : World} : ∀ {l : List UePtrAndBufferReq}
    {w w' : World}, (∀ p, (w.ues p).rnti = (w₀.ues p).rnti) →
      l.foldlM (S.enterUe now beamSym) w = .ok w' →
      (w'.allUEs, w'.drlItf.reported) =
        l.foldl (registerStep w₀) (w.allUEs, w.drlItf.reported)
  | [], w, w', _, h => by
      cases h
      rfl
  | ue :: l, w, w', hr, h => by
      rw [List.foldlM_cons] at h
      obtain ⟨w₁, h1, h2⟩ := bind_eq_ok.mp h
      have hfold : [ue].foldlM (S.enterUe now beamSym) w = .ok w₁ := by
        rw [List.foldlM_cons, h1]
        rfl
      have hent : Entered S beamSym [ue] w w₁ := entered_of_foldlM hfold
      rw [enterUes_registry (fun p => (hent.rnti p).trans (hr p)) h2, List.foldl_cons,
        enterUe_ok h1]
      have hkey : (S.weighed w.statics beamSym (w.ues ue.1) ue.2).itfKey =
          (w₀.ues ue.1).itfKey := by
        unfold UeInfo.itfKey
        rw [← hr ue.1]
        rfl
      unfold registerStep
      rw [← hkey]
      rfl

theorem assignBeams_registry : ∀ {pre post : ActiveUeMap} {acc : World × List FhQuery},
    i.activeDl = pre ++ post →
      pre.foldlM (S.assignBeam now (S.getSymPerBeam i.symAvail i.activeDl)) (i.world, []) =
        .ok acc →
      (acc.1.allUEs, acc.1.drlItf.reported) = (pre.flatMap Prod.snd).foldl
        (registerStep i.world) (i.world.allUEs, i.world.drlItf.reported) := by
  intro pre
  induction pre using List.reverseRecOn with
  | nil =>
      intro post acc _ h
      cases h
      rfl
  | append_singleton pre el ih =>
      intro post acc hi h
      rw [List.append_assoc] at hi
      rw [List.foldlM_append] at h
      obtain ⟨acc₁, h1, h2⟩ := bind_eq_ok.mp h
      rw [List.foldlM_cons] at h2
      obtain ⟨acc₂, h2, h3⟩ := bind_eq_ok.mp h2
      cases h3
      obtain ⟨e, s, r, he, _, _, rfl⟩ := assignBeam_ok h2
      obtain ⟨_, hent, _⟩ := beamEntry_ok he
      have hn := i.nodup
      rw [hi, List.flatMap_append, List.nodup_append] at hn
      have hf : BeamFrame _ i.world acc₁.1 := assignBeams_frame hn.1
        (fun el' hel' => i.clean el' (hi ▸ List.mem_append_left _ hel')) h1
      rw [List.flatMap_append, List.foldl_append, ← ih hi h1, List.flatMap_cons,
        List.flatMap_nil, List.append_nil]
      have hreg := enterUes_registry hf.rnti hent
      exact hreg

theorem assignDLRBG_allUEs
    (h : S.assignDLRBG now i.world i.symAvail i.activeDl = .ok (w', symPerBeam)) :
    w'.allUEs = registryAfter i.world i.activeDl := by
  obtain ⟨acc, hacc, hclose⟩ := assignDLRBG_ok h
  rw [hclose.allUEs]
  exact congrArg Prod.fst (assignBeams_registry (List.append_nil _).symm hacc)

/-! ### The resource blocks of a beam -/

/-- The number of RBGs allocated in the beam. -/
def allocated (w : World) (el : BeamId × List UePtrAndBufferReq) : ℕ :=
  (el.2.flatMap fun ue => (w.ues ue.1).dlRBG).toFinset.card

/-- The entries of `m_dlRBG` in a beam are its RBGs times its symbols. -/
theorem sum_dlRBG (h : S.assignDLRBG now i.world i.symAvail i.activeDl = .ok (w', symPerBeam))
    {el : BeamId × List UePtrAndBufferReq} (hel : el ∈ i.activeDl) :
    (el.2.map fun ue => (w'.ues ue.1).dlRBG.length).sum =
        (S.getSymPerBeam i.symAvail i.activeDl).getD el.1 0 * allocated w' el ∧
      allocated w' el ≤ S.usableRbgs.length := by
  obtain ⟨runs, hblocks, hnodup, husable⟩ := assignDLRBG_blocks h hel
  have hlen : (el.2.map fun ue => (w'.ues ue.1).dlRBG.length).sum =
      (S.getSymPerBeam i.symAvail i.activeDl).getD el.1 0 *
        ((el.2.map Prod.fst).flatMap runs).length := by
    rw [List.length_flatMap, List.map_map, ← List.sum_map_mul_left]
    refine congrArg List.sum (List.map_congr_left fun ue hue => ?_)
    rw [hblocks ue hue, length_blocks]
    exact Nat.mul_comm _ _
  have hle : ((el.2.map Prod.fst).flatMap runs).length ≤ S.usableRbgs.length := by
    refine (hnodup.subperm fun r hr => ?_).length_le
    obtain ⟨p, hp, hr⟩ := List.mem_flatMap.mp hr
    obtain ⟨ue, hue, rfl⟩ := List.mem_map.mp hp
    exact husable ue hue r hr
  obtain hb | hb := Nat.eq_zero_or_pos ((S.getSymPerBeam i.symAvail i.activeDl).getD el.1 0)
  · have hnil : (el.2.flatMap fun ue => (w'.ues ue.1).dlRBG) = [] := by
      rw [List.flatMap_eq_nil_iff]
      intro ue hue
      rw [hblocks ue hue, hb, blocks_zero]
    rw [hlen, hb]
    refine ⟨by omega, ?_⟩
    unfold allocated
    rw [hnil]
    exact Nat.zero_le _
  · have hcard : allocated w' el = ((el.2.map Prod.fst).flatMap runs).length := by
      have hmap : (el.2.flatMap fun ue => (w'.ues ue.1).dlRBG) =
          (el.2.map Prod.fst).flatMap fun p => (w'.ues p).dlRBG := by
        rw [List.flatMap_map]
      unfold allocated
      rw [hmap]
      refine card_blocks hb (fun p hp => ?_) hnodup
      obtain ⟨ue, hue, rfl⟩ := List.mem_map.mp hp
      exact hblocks ue hue
    rw [hcard]
    exact ⟨hlen, hle⟩

/-! ### The two sums -/

/-- The resource blocks the slot offers. -/
def offered (S : Scheduler) (i : SlotStart) : ℕ :=
  (i.activeDl.map fun el => S.numRbPerRbg * (S.getSymPerBeam i.symAvail i.activeDl).getD el.1 0 *
    S.usableRbgs.length).sum

/-- The resource blocks of the allocated RBGs. -/
def granted (S : Scheduler) (i : SlotStart) (w' : World) : ℕ :=
  (i.activeDl.map fun el => S.numRbPerRbg * (S.getSymPerBeam i.symAvail i.activeDl).getD el.1 0 *
    allocated w' el).sum

theorem granted_le_offered
    (h : S.assignDLRBG now i.world i.symAvail i.activeDl = .ok (w', symPerBeam)) :
    S.granted i w' ≤ S.offered i := by
  apply List.sum_le_sum
  intro el hel
  exact Nat.mul_le_mul_left _ (sum_dlRBG h hel).2

theorem granted_eq (h : S.assignDLRBG now i.world i.symAvail i.activeDl = .ok (w', symPerBeam)) :
    S.granted i w' =
      S.numRbPerRbg * ((pointers i.activeDl).map fun p => (w'.ues p).dlRBG.length).sum := by
  have hbeams : ((pointers i.activeDl).map fun p => (w'.ues p).dlRBG.length).sum =
      (i.activeDl.map fun el => (el.2.map fun ue => (w'.ues ue.1).dlRBG.length).sum).sum := by
    unfold pointers
    rw [List.map_flatMap, List.flatMap_def, List.sum_flatten, List.map_map]
    refine congrArg List.sum (List.map_congr_left fun el _ => ?_)
    rw [Function.comp, List.map_map]
    rfl
  rw [hbeams, ← List.sum_map_mul_left]
  refine congrArg List.sum (List.map_congr_left fun el hel => ?_)
  rw [(sum_dlRBG h hel).1, Nat.mul_assoc]

theorem handed_eq (total : ℕ) (w : World) :
    ((S.metricsRbs total w).map MetricsRbs.rbs).sum =
      S.numRbPerRbg * ((w.allUEs.map Prod.fst).map fun p => (w.ues p).dlRBG.length).sum := by
  unfold metricsRbs
  rw [List.map_map, List.map_map, ← List.sum_map_mul_left]
  rfl

/-- The symbols of the last beam. -/
def lastSym (symPerBeam : BeamSymbolMap) (activeDl : ActiveUeMap) : ℕ :=
  match activeDl.getLast? with
  | none => 0
  | some el => symPerBeam.getD el.1 0

theorem totalResources_eq (S : Scheduler) (symPerBeam : BeamSymbolMap) (activeDl : ActiveUeMap) :
    S.totalResources symPerBeam activeDl =
      lastSym symPerBeam activeDl * S.numRbPerRbg * S.usableRbgs.length := by
  unfold totalResources lastSym
  cases activeDl.getLast? with
  | none => simp
  | some el => rfl

theorem offered_eq (S : Scheduler) (i : SlotStart) :
    S.offered i = S.numRbPerRbg * S.usableRbgs.length *
      symbolsOf (S.getSymPerBeam i.symAvail i.activeDl) i.activeDl := by
  unfold offered symbolsOf
  rw [← List.sum_map_mul_left]
  refine congrArg List.sum (List.map_congr_left fun el _ => ?_)
  exact Nat.mul_right_comm _ _ _

end Scheduler

/-! ### When the accounts are right -/

/-- The calls of `UpdateMetricsRbs` at the end of the call. -/
def SlotStart.metrics (i : SlotStart) (S : Scheduler) (w' : World) : List MetricsRbs :=
  S.metricsRbs (S.totalResources (S.getSymPerBeam i.symAvail i.activeDl) i.activeDl) w'

/-- The total is what the slot offers, and the resource blocks are those of the allocated RBGs. -/
structure Accounted (S : Scheduler) (i : SlotStart) (w' : World) : Prop where
  total : ∀ c ∈ i.metrics S w', c.totalRbs = S.offered i
  rbs : ((i.metrics S w').map MetricsRbs.rbs).sum = S.granted i w'
  le : ∀ c ∈ i.metrics S w', ((i.metrics S w').map MetricsRbs.rbs).sum ≤ c.totalRbs

/-- `NumRbPerRbg` times the symbols of the last beam are the symbols of all the beams. -/
def TotalExact (S : Scheduler) (i : SlotStart) : Prop :=
  S.numRbPerRbg = 0 ∨
    S.numRbPerRbg * Scheduler.lastSym (S.getSymPerBeam i.symAvail i.activeDl) i.activeDl =
      Scheduler.symbolsOf (S.getSymPerBeam i.symAvail i.activeDl) i.activeDl

/-- At the end of the call the registry has every active UE once, and no other UE with RBGs. -/
structure RegistryExact (i : SlotStart) : Prop where
  once : ∀ p ∈ Scheduler.pointers i.activeDl,
    ((Scheduler.registryAfter i.world i.activeDl).map Prod.fst).count p = 1
  idle : ∀ p ∈ (Scheduler.registryAfter i.world i.activeDl).map Prod.fst,
    p ∉ Scheduler.pointers i.activeDl → (i.world.ues p).dlRBG = []

namespace Scheduler

variable {S : Scheduler} {now : ℚ} {i : SlotStart} {w' : World} {symPerBeam : BeamSymbolMap}

theorem totalRbs_eq {c : MetricsRbs} (hc : c ∈ i.metrics S w') :
    c.totalRbs = S.numRbPerRbg * S.usableRbgs.length *
      (S.numRbPerRbg * lastSym (S.getSymPerBeam i.symAvail i.activeDl) i.activeDl) := by
  obtain ⟨ue, _, rfl⟩ := List.mem_map.mp hc
  dsimp only
  rw [totalResources_eq]
  ring

theorem usableRbgs_pos
    (h : S.assignDLRBG now i.world i.symAvail i.activeDl = .ok (w', symPerBeam))
    (hne : i.activeDl ≠ []) : 0 < S.usableRbgs.length := by
  obtain ⟨el, hel⟩ := List.exists_mem_of_ne_nil _ hne
  obtain ⟨pre, post, acc₁, acc₂, hround⟩ := assignDLRBG_beam h hel
  obtain ⟨e, s, r, he, _⟩ := assignBeam_ok hround.round
  exact List.length_pos_iff.mpr (beamEntry_ok he).1

theorem total_iff (h : S.assignDLRBG now i.world i.symAvail i.activeDl = .ok (w', symPerBeam))
    {c : MetricsRbs} (hc : c ∈ i.metrics S w') : c.totalRbs = S.offered i ↔ TotalExact S i := by
  rw [totalRbs_eq hc, offered_eq]
  unfold TotalExact
  by_cases hne : i.activeDl = []
  · simp [hne, symbolsOf, lastSym]
  · have hpos := usableRbgs_pos h hne
    rw [mul_eq_mul_left_iff, mul_eq_zero]
    constructor
    · rintro (h | h | h)
      · exact Or.inr h
      · exact Or.inl h
      · omega
    · rintro (h | h)
      · exact Or.inr (Or.inl h)
      · exact Or.inl h

theorem dlRBG_of_idle
    (h : S.assignDLRBG now i.world i.symAvail i.activeDl = .ok (w', symPerBeam)) {p : UePtr}
    (hp : p ∉ pointers i.activeDl) : (w'.ues p).dlRBG = (i.world.ues p).dlRBG := by
  obtain ⟨acc, hacc, hclose⟩ := assignDLRBG_ok h
  have hf : BeamFrame _ i.world acc.1 := assignBeams_frame i.nodup i.clean hacc
  rw [hclose.dlRBG p, hf.others p hp]

end Scheduler

/-- **The accounts of a call.** They are right when the total fits and the registry has every
active UE once.  Conversely, when they are right and some UE is registered, the total fits; and
when moreover no UE is registered twice, no active UE with RBGs is missing in the registry. -/
theorem accounted_of_exact (S : Scheduler) (now : ℚ) (i : SlotStart) {w' : World}
    {symPerBeam : BeamSymbolMap}
    (h : S.assignDLRBG now i.world i.symAvail i.activeDl = .ok (w', symPerBeam)) :
    (TotalExact S i → RegistryExact i → Accounted S i w') ∧
      (Accounted S i w' → Scheduler.registryAfter i.world i.activeDl ≠ [] → TotalExact S i) ∧
      (Accounted S i w' → 0 < S.numRbPerRbg →
        ((Scheduler.registryAfter i.world i.activeDl).map Prod.fst).Nodup →
        (∀ p ∈ (Scheduler.registryAfter i.world i.activeDl).map Prod.fst,
          p ∉ Scheduler.pointers i.activeDl → (i.world.ues p).dlRBG = []) →
        ∀ p ∈ Scheduler.pointers i.activeDl, (w'.ues p).dlRBG ≠ [] →
          p ∈ (Scheduler.registryAfter i.world i.activeDl).map Prod.fst) := by
  have hreg := Scheduler.assignDLRBG_allUEs h
  have hidle : (∀ p ∈ (Scheduler.registryAfter i.world i.activeDl).map Prod.fst,
      p ∉ Scheduler.pointers i.activeDl → (i.world.ues p).dlRBG = []) →
      ∀ p ∈ (Scheduler.registryAfter i.world i.activeDl).map Prod.fst,
        p ∉ Scheduler.pointers i.activeDl → (w'.ues p).dlRBG.length = 0 := by
    intro hidle p hp hout
    rw [Scheduler.dlRBG_of_idle h hout, hidle p hp hout]
    rfl
  have hhanded : ((i.metrics S w').map MetricsRbs.rbs).sum =
      S.numRbPerRbg * (((Scheduler.registryAfter i.world i.activeDl).map Prod.fst).map
        fun p => (w'.ues p).dlRBG.length).sum := by
    rw [← hreg]
    exact Scheduler.handed_eq _ _
  refine ⟨fun htotal hexact => ?_, fun hacc hne => ?_, fun hacc hN hn hstale p hp hrbg => ?_⟩
  · have htot : ∀ c ∈ i.metrics S w', c.totalRbs = S.offered i := fun c hc =>
      (Scheduler.total_iff h hc).mpr htotal
    have hrbs : ((i.metrics S w').map MetricsRbs.rbs).sum = S.granted i w' := by
      rw [hhanded, Scheduler.granted_eq h,
        sum_map_of_count_one _ i.nodup hexact.once (hidle hexact.idle)]
      rfl
    refine ⟨htot, hrbs, fun c hc => ?_⟩
    rw [hrbs, htot c hc]
    exact Scheduler.granted_le_offered h
  · obtain ⟨ue, hue⟩ := List.exists_mem_of_ne_nil _ hne
    rw [← hreg] at hue
    have hc : (⟨(w'.ues ue.1).itfKey, _, _⟩ : MetricsRbs) ∈ i.metrics S w' :=
      List.mem_map_of_mem hue
    exact (Scheduler.total_iff h hc).mp (hacc.total _ hc)
  · by_contra hout
    have hsum := hacc.rbs
    rw [hhanded, Scheduler.granted_eq h] at hsum
    have hzero := eq_zero_of_sum_eq _ hn i.nodup (hidle hstale)
      (Nat.eq_of_mul_eq_mul_left hN hsum) p hp hout
    exact hrbg (List.length_eq_zero_iff.mp hzero)

/-- One active UE, which is registered and was reported. -/
def SlotStart.registeredUe : SlotStart :=
  .oneBeam
    { World.fresh (setDppWeights 0 1 1) fun _ => 5 with
      allUEs := [(0, 100)]
      drlItf := ({} : Ns3DrlInterface).updateState 0 28 0 0 0 {} 1 1 }
    (fun _ => ⟨rfl, rfl, rfl⟩) (0, 100) [] (by decide)

theorem accounted_of_exact_registeredUe : ∃ r,
    Scheduler.assignDLRBG (.wideband [true]) 0 SlotStart.registeredUe.world
        SlotStart.registeredUe.symAvail SlotStart.registeredUe.activeDl = .ok r ∧
      Accounted (.wideband [true]) .registeredUe r.1 := by
  obtain ⟨⟨w', symPerBeam⟩, h⟩ := exists_of_isOk
    (x := Scheduler.assignDLRBG (.wideband [true]) 0 SlotStart.registeredUe.world
      SlotStart.registeredUe.symAvail SlotStart.registeredUe.activeDl) (by decide +kernel)
  refine ⟨_, h, (accounted_of_exact (.wideband [true]) 0 .registeredUe h).1 ?_ ⟨?_, ?_⟩⟩
  · exact Or.inr (by decide +kernel)
  · decide +kernel
  · decide +kernel

/-- Two resource blocks per RBG. -/
def Scheduler.twoRbs : Scheduler := { Scheduler.wideband [true] with numRbPerRbg := 2 }

/-- The slot offers 24 resource blocks, and 48 are handed over as the total. -/
theorem not_accounted_twoRbs : ∃ r,
    Scheduler.twoRbs.assignDLRBG 0 SlotStart.registeredUe.world SlotStart.registeredUe.symAvail
        SlotStart.registeredUe.activeDl = .ok r ∧
      ¬ Accounted .twoRbs .registeredUe r.1 := by
  obtain ⟨⟨w', symPerBeam⟩, h⟩ := exists_of_isOk
    (x := Scheduler.twoRbs.assignDLRBG 0 SlotStart.registeredUe.world
      SlotStart.registeredUe.symAvail SlotStart.registeredUe.activeDl) (by decide +kernel)
  refine ⟨_, h, fun hacc => ?_⟩
  have hue : ((0, 100) : UePtrAndBufferReq) ∈ w'.allUEs := by
    rw [Scheduler.assignDLRBG_allUEs h]
    decide +kernel
  have htotal : Scheduler.twoRbs.numRbPerRbg * Scheduler.twoRbs.totalResources
      (Scheduler.twoRbs.getSymPerBeam SlotStart.registeredUe.symAvail
        SlotStart.registeredUe.activeDl) SlotStart.registeredUe.activeDl =
      Scheduler.twoRbs.offered .registeredUe := hacc.total _ (List.mem_map_of_mem hue)
  exact absurd htotal (by decide +kernel)

end Rbis
