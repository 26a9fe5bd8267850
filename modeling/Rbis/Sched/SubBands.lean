import Rbis.Sched.CqiManagement
import Rbis.Sched.Partition

/-! # The sub-bands of the RBGs

A CQI report with sub-bands rebuilds `m_dlSbMcsInfo` and writes into `m_rbgToSb` the sub-band of
every RBG that one covers; the other elements keep what an earlier report left there.  The size of
a sub-band is doubled until the integer quotient `bandwidthInRbgs / rbgsPerSb` is no more than the
number of sub-bands, so that with a remainder the last RBGs belong to no sub-band; and an index of
256 or more does not fit an element of `m_rbgToSb`.

The allocator reads the two vectors with `m_dlSbMcsInfo.at(m_rbgToSb.at(r))`, unless the former is
empty.  The history of the reports (`SubBandHistory`) is about the vectors of one UE; the lookups
of a later call of `AssignDLRBG` (`LooksUp`) all find the sub-band of the latest report exactly if
its sub-bands fit the bandwidth (`subBandLookups_iff`).  No lookup of the call throws then
(`lookup_ok`), so that the attempts come to a choice and `GetDlMcs` returns. -/

namespace Rbis

open Cxx Fallible

/-! ### The size of a sub-band -/

/-- The RBGs of a sub-band, for a report with `numSb` sub-bands. -/
def sbSize (bandwidthInRbgs numSb : ℕ) : ℕ := rbgsPerSb bandwidthInRbgs numSb bandwidthInRbgs 1

/-- The loop stops at the first size that is large enough. -/
theorem rbgsPerSb_eq {bandwidthInRbgs numSb : ℕ} : ∀ {fuel size : ℕ}, 0 < size →
    bandwidthInRbgs < size * 2 ^ fuel →
      ∃ k, rbgsPerSb bandwidthInRbgs numSb fuel size = size * 2 ^ k ∧
        bandwidthInRbgs < (numSb + 1) * (size * 2 ^ k) ∧
        ∀ j < k, (numSb + 1) * (size * 2 ^ j) ≤ bandwidthInRbgs := by
  intro fuel
  induction fuel with
  | zero =>
      intro size hsize hlt
      refine ⟨0, (mul_one size).symm, ?_, fun j hj => absurd hj (Nat.not_lt_zero j)⟩
      exact hlt.trans_le (Nat.le_mul_of_pos_left _ numSb.succ_pos)
  | succ fuel ih =>
      intro size hsize hlt
      unfold rbgsPerSb
      split
      · next hgo =>
          have hmul : (numSb + 1) * size ≤ bandwidthInRbgs := (Nat.le_div_iff_mul_le hsize).mp hgo
          have hpow : ∀ j, size * 2 * 2 ^ j = size * 2 ^ (j + 1) := fun j => by
            rw [mul_assoc, ← pow_succ']
          have hdouble : 0 < size * 2 := by omega
          obtain ⟨k, hk, hstop, hbefore⟩ := ih hdouble (hpow fuel ▸ hlt)
          refine ⟨k + 1, hk.trans (hpow k), hpow k ▸ hstop, fun j hj => ?_⟩
          cases j with
          | zero => simpa using hmul
          | succ j => exact hpow j ▸ hbefore j (Nat.lt_of_succ_lt_succ hj)
      · next hstop =>
          refine ⟨0, (mul_one size).symm, ?_, fun j hj => absurd hj (Nat.not_lt_zero j)⟩
          rw [not_lt] at hstop
          rw [pow_zero, mul_one]
          exact (Nat.div_lt_iff_lt_mul hsize).mp (Nat.lt_succ_of_le hstop)

theorem sbSize_eq (bandwidthInRbgs numSb : ℕ) :
    ∃ k, sbSize bandwidthInRbgs numSb = 2 ^ k ∧ bandwidthInRbgs < (numSb + 1) * 2 ^ k ∧
      ∀ j < k, (numSb + 1) * 2 ^ j ≤ bandwidthInRbgs := by
  have hfuel : bandwidthInRbgs < 1 * 2 ^ bandwidthInRbgs := by
    rw [one_mul]
    exact Nat.lt_two_pow_self
  have h : ∃ k, sbSize bandwidthInRbgs numSb = 1 * 2 ^ k ∧
      bandwidthInRbgs < (numSb + 1) * (1 * 2 ^ k) ∧
        ∀ j < k, (numSb + 1) * (1 * 2 ^ j) ≤ bandwidthInRbgs := rbgsPerSb_eq Nat.one_pos hfuel
  simpa only [one_mul] using h

theorem sbSize_pos (bandwidthInRbgs numSb : ℕ) : 0 < sbSize bandwidthInRbgs numSb := by
  obtain ⟨k, hk, _⟩ := sbSize_eq bandwidthInRbgs numSb
  rw [hk]
  exact Nat.two_pow_pos k

/-- For some `k`, the sub-bands of `2 ^ k` RBGs with an index below 256 cover the bandwidth, and
`numSb + 1` sub-bands of half the size do not exceed it. -/
def SubBandsFit (bandwidthInRbgs numSb : ℕ) : Prop :=
  ∃ k, (k = 0 ∨ (numSb + 1) * 2 ^ (k - 1) ≤ bandwidthInRbgs) ∧
    bandwidthInRbgs ≤ min numSb 256 * 2 ^ k

/-- The sub-bands fit if those of the size that the loop finds cover the bandwidth. -/
theorem subBandsFit_iff {bandwidthInRbgs numSb : ℕ} :
    SubBandsFit bandwidthInRbgs numSb ↔
      bandwidthInRbgs ≤ min numSb 256 * sbSize bandwidthInRbgs numSb := by
  obtain ⟨k, hk, hstop, hbefore⟩ := sbSize_eq bandwidthInRbgs numSb
  rw [hk]
  constructor
  · rintro ⟨m, hm, hfit⟩
    rcases Nat.lt_trichotomy m k with hlt | rfl | hlt
    · have hle := hbefore m hlt
      have hmin : min numSb 256 * 2 ^ m ≤ numSb * 2 ^ m :=
        Nat.mul_le_mul_right _ (Nat.min_le_left _ _)
      have hpos := Nat.two_pow_pos m
      rw [Nat.succ_mul] at hle
      omega
    · exact hfit
    · have hle : (numSb + 1) * 2 ^ (m - 1) ≤ bandwidthInRbgs := hm.resolve_left (by omega)
      have hpow : 2 ^ k ≤ 2 ^ (m - 1) := Nat.pow_le_pow_right (by omega) (by omega)
      have := Nat.mul_le_mul_left (numSb + 1) hpow
      omega
  · intro hfit
    refine ⟨k, ?_, hfit⟩
    cases k with
    | zero => exact Or.inl rfl
    | succ k => exact Or.inr (hbefore k (Nat.lt_succ_self k))

/-! ### The two vectors of a UE -/

/-- `m_dlSbMcsInfo` and `m_rbgToSb`. -/
structure SubBands where
  dlSbMcsInfo : List SbMcsInfo
  rbgToSb : List ℕ

def UeInfo.subBands (ue : UeInfo) : SubBands := ⟨ue.dlSbMcsInfo, ue.rbgToSb⟩

def CqiUe.subBands (ue : CqiUe) : SubBands := ⟨ue.dlSbMcsInfo, ue.rbgToSb⟩

/-- The entries that a report makes. -/
def DlCqiInfo.sbMcsInfo (amc : CqiAmc) (info : DlCqiInfo) : List SbMcsInfo :=
  info.sbCqis.map fun sbCqi =>
    let specEff := amc.getSpectralEfficiencyForCqi sbCqi
    { cqi := sbCqi
      mcs := amc.getMcsFromCqi sbCqi
      specEff := specEff
      sinr := amc.getSinrFromSpectralEfficiency specEff / info.ri }

/-- What the reports leave: the entries of the latest one, and, when it has sub-bands, the index
of the sub-band of every RBG in one. -/
structure SubBands.Of (amc : CqiAmc) (bandwidthInRbgs : ℕ) (latest : Option DlCqiInfo)
    (sb : SubBands) : Prop where
  entries : sb.dlSbMcsInfo = (latest.map (DlCqiInfo.sbMcsInfo amc)).getD []
  index : ∀ info, latest = some info → ∀ r < bandwidthInRbgs,
    r / sbSize bandwidthInRbgs info.sbCqis.length < info.sbCqis.length →
      sb.rbgToSb[r]? = some (r / sbSize bandwidthInRbgs info.sbCqis.length % 256)

/-- **A report** makes its own entries, and overwrites the index of every RBG in a sub-band. -/
theorem dlCqiReported_subBands (amc : CqiAmc) (info : DlCqiInfo) (expirationTime : ℕ) (maxDlMcs : ℤ)
    (bandwidthInRbgs : ℕ) (ue : CqiUe) :
    SubBands.Of amc bandwidthInRbgs (some info)
      (ue.dlCqiReported amc info expirationTime maxDlMcs bandwidthInRbgs).subBands := by
  refine ⟨rfl, ?_⟩
  rintro _ ⟨rfl⟩ r hr hcovered
  have hne : info.sbCqis.isEmpty = false := by
    rw [List.isEmpty_eq_false_iff, ← List.length_pos_iff]
    exact (Nat.zero_le _).trans_lt hcovered
  show (if info.sbCqis.isEmpty then ue.rbgToSb else _)[r]? = _
  rw [hne, if_neg Bool.false_ne_true, List.getElem?_map, List.getElem?_range hr, Option.map_some]
  exact congrArg some (if_pos hcovered)

/-! ### The calls keep the vectors -/

theorem UeInfo.SameConfig.subBands {u v : UeInfo} (h : u.SameConfig v) :
    v.subBands = u.subBands := by
  rw [h]
  rfl

namespace Scheduler

variable {S : Scheduler} {now : ℚ} {i : SlotStart}

theorem loop_subBands {st : DppaStatics} {beamSym : ℕ} {s t : BeamState}
    (hentry : S.LoopEntry now i st beamSym s) (hrun : Orbit.Reaches (S.step st beamSym) s t)
    {ue : UePtrAndBufferReq} (hue : ue ∈ s.ueVector) :
    (t.ueOf ue).subBands = (i.world.ues ue.1).subBands := by
  have hframe := (reaches_inv hrun (loopEntry_inv hentry).1).2
  obtain ⟨pre, el, post, acc, e, hi, hpre, rfl, he, rfl, rfl⟩ := hentry
  have hstart := (beamEntry_ues hi hpre he).2 ue ((beamEntry_mem he).mp hue)
  calc (t.ueOf ue).subBands = (e.2.ueOf ue).subBands :=
        UeInfo.SameConfig.subBands (hframe.same ue.1)
    _ = (i.world.ues ue.1).subBands := by
        rw [hstart]
        rfl

theorem fronthaul_subBands {beamSym : ℕ} {ues : List UePtrAndBufferReq} {s : BeamState}
    {queries : List FhQuery} {r : Alloc × List FhQuery}
    (h : S.fronthaul beamSym ues s queries = .ok r) (p : UePtr) :
    (r.1.ues p).subBands = (s.alloc.ues p).subBands := by
  have hupdate : ∀ (heap : UePtr → UeInfo) (q : UePtr) (u : UeInfo),
      u.subBands = (heap q).subBands → (heap p).subBands = (s.alloc.ues p).subBands →
        (Function.update heap q u p).subBands = (s.alloc.ues p).subBands := by
    intro heap q u hu hp
    by_cases hq : p = q
    · rw [hq, Function.update_self, hu, ← hq]
      exact hp
    · rw [Function.update_of_ne hq]
      exact hp
  refine fronthaul_ues (P := fun heap => (heap p).subBands = (s.alloc.ues p).subBands)
    (l := ues.map Prod.fst ++ s.ueVector.map Prod.fst) ?_ ?_
    (fun ue hue => List.mem_append_left _ (List.mem_map_of_mem hue))
    (fun ue hue => List.mem_append_right _ (List.mem_map_of_mem hue)) h rfl
  · exact fun heap q _ mcs _ hp => hupdate heap q _ rfl hp
  · exact fun heap q _ y _ hp => hupdate heap q _ rfl hp

theorem assignBeam_subBands {acc acc' : World × List FhQuery} {symPerBeam : BeamSymbolMap}
    {el : BeamId × List UePtrAndBufferReq} (hn : (el.2.map Prod.fst).Nodup)
    (hc : ∀ ue ∈ el.2, (acc.1.ues ue.1).Clean)
    (h : S.assignBeam now symPerBeam acc el = .ok acc') {ue : UePtrAndBufferReq}
    (hue : ue ∈ el.2) : (acc'.1.ues ue.1).subBands = (acc.1.ues ue.1).subBands := by
  obtain ⟨e, s, r, he, hs, hr, rfl⟩ := assignBeam_ok h
  obtain ⟨_, h1, h2⟩ := beamEntry_ok he
  obtain ⟨_, hloop⟩ := loop_fronthaul_frame he hn hc hs hr
  have hues : e.2.alloc.ues = e.1.ues := by rw [h2]
  calc (r.1.ues ue.1).subBands = (s.alloc.ues ue.1).subBands := fronthaul_subBands hr ue.1
    _ = (e.1.ues ue.1).subBands := by
        rw [← hues]
        exact UeInfo.SameConfig.subBands (hloop.same ue.1)
    _ = (acc.1.ues ue.1).subBands := by
        rw [(entered_of_foldlM h1).weighed hn ue hue]
        rfl

theorem closeAll_subBands (total : ℕ) (p : UePtr) : ∀ (l : List UePtrAndBufferReq) (w : World),
    ((l.foldl (S.closeUe total) w).ues p).subBands = (w.ues p).subBands
  | [], _ => rfl
  | ue :: l, w => by
      rw [List.foldl_cons, closeAll_subBands total p l]
      unfold closeUe
      by_cases hp : p = ue.1
      · simp only [hp, Function.update_self]
        split <;> rfl
      · simp only [Function.update_of_ne hp]

/-- **A call of `AssignDLRBG` writes neither vector** of any UE. -/
theorem assignDLRBG_subBands {w' : World} {symPerBeam : BeamSymbolMap}
    (h : S.assignDLRBG now i.world i.symAvail i.activeDl = .ok (w', symPerBeam)) (p : UePtr) :
    (w'.ues p).subBands = (i.world.ues p).subBands := by
  unfold assignDLRBG at h
  obtain ⟨acc, hacc, h⟩ := bind_eq_ok.mp h
  cases h
  refine (closeAll_subBands _ p _ _).trans ?_
  by_cases hp : p ∈ pointers i.activeDl
  · obtain ⟨el, hel, hp⟩ := List.mem_flatMap.mp hp
    obtain ⟨ue, hue, rfl⟩ := List.mem_map.mp hp
    obtain ⟨pre, post, hi⟩ := List.append_of_mem hel
    obtain ⟨acc₁, acc₂, hpre, hone, _, henters, hlater⟩ := assignBeams_round hi hacc
    obtain ⟨hn, hc⟩ := loopEntry_clean hi hpre
    rw [hlater ue hue, assignBeam_subBands hn hc hone hue, henters ue hue]
  · have hframe : BeamFrame _ i.world acc.1 := assignBeams_frame i.nodup i.clean hacc
    rw [hframe.others p hp]

end Scheduler

/-! ### The lookups of a call -/

/-- The RBGs that `GetDlMcs` looks up. -/
def UeInfo.getDlMcsLookups (ue : UeInfo) : List ℕ :=
  match ue.fhMaxMcsAssignable with
  | some _ => []
  | none =>
      if ue.dlSbMcsInfo.isEmpty || ue.dlRBG.isEmpty || ue.mcsCsiSource = .widebandMcs then []
      else ue.dlRBG

namespace Scheduler

variable (S : Scheduler) (now : ℚ) (i : SlotStart)

/-- The RBGs that `AttemptAllocationOfCurrentResourceToUe` looks up: the remaining ones, and the
first one of the UE. -/
def chooseRbgLookups (ue : UeInfo) (remainingRbgSet : List ℕ) : List ℕ :=
  if ue.dlSbMcsInfo.isEmpty || S.mcsCsiSource = .widebandMcs then []
  else remainingRbgSet ++ ue.dlRBG.take 1

/-- The call looks up the sub-band of the RBG for the UE, whose state is then the given one. -/
inductive LooksUp : UePtr → UeInfo → ℕ → Prop
  /-- The attempt for the UE at the iterator. -/
  | attempt {st : DppaStatics} {beamSym prevRemaining r : ℕ} {s t : BeamState}
      {ue : UePtrAndBufferReq} (entry : S.LoopEntry now i st beamSym s)
      (run : Orbit.Reaches (S.step st beamSym) s t) (pc : t.pc = .serve prevRemaining true)
      (next : t.ueVector[S.nextIt beamSym t]? = some ue)
      (hr : r ∈ S.chooseRbgLookups (t.ueOf ue) t.alloc.remainingRbgSet) :
      LooksUp ue.1 (t.ueOf ue) r
  /-- `GetDlMcs`, after the attempt has given an RBG to the UE. -/
  | given {st : DppaStatics} {beamSym prevRemaining rbg tb r : ℕ} {s t : BeamState}
      {ue : UePtrAndBufferReq} (entry : S.LoopEntry now i st beamSym s)
      (run : Orbit.Reaches (S.step st beamSym) s t) (pc : t.pc = .serve prevRemaining true)
      (next : t.ueVector[S.nextIt beamSym t]? = some ue)
      (choice : S.chooseRbg (t.ueOf ue) t.alloc.remainingRbgSet = .ok (some rbg))
      (hr : r ∈ ((t.ueOf ue).extended rbg beamSym tb).getDlMcsLookups) :
      LooksUp ue.1 ((t.ueOf ue).extended rbg beamSym tb) r
  /-- `GetDlMcs`, when the metrics of the UEs of the beam are refreshed, and in the fronthaul
  control. -/
  | refresh {st : DppaStatics} {beamSym r : ℕ} {s t : BeamState} {ue : UePtrAndBufferReq}
      (entry : S.LoopEntry now i st beamSym s) (run : Orbit.Reaches (S.step st beamSym) s t)
      (mem : ue ∈ s.ueVector) (hr : r ∈ (t.ueOf ue).getDlMcsLookups) :
      LooksUp ue.1 (t.ueOf ue) r

end Scheduler

theorem UeInfo.exists_mapM_sbInfoOf {ue : UeInfo} {l : List ℕ} :
    (∃ infos, l.mapM ue.sbInfoOf = .ok infos) ↔ ∀ r ∈ l, ∃ info, ue.sbInfoOf r = .ok info := by
  induction l with
  | nil =>
      constructor
      · intro _ r hr
        cases hr
      · exact fun _ => ⟨[], rfl⟩
  | cons r l ih =>
      rw [List.mapM_cons, List.forall_mem_cons, ← ih]
      constructor
      · rintro ⟨infos, h⟩
        obtain ⟨info, hinfo, h⟩ := bind_eq_ok.mp h
        obtain ⟨rest, hrest, _⟩ := bind_eq_ok.mp h
        exact ⟨⟨info, hinfo⟩, rest, hrest⟩
      · rintro ⟨⟨info, hinfo⟩, rest, hrest⟩
        exact ⟨info :: rest, by rw [hinfo, ok_bind, hrest, ok_bind, pure_eq]⟩

/-- `GetDlMcs` returns exactly if all its lookups are in range. -/
theorem UeInfo.exists_getDlMcs {ue : UeInfo} {amc : NrAmc} :
    (∃ mcs, ue.getDlMcs amc = .ok mcs) ↔
      ∀ r ∈ ue.getDlMcsLookups, ∃ info, ue.sbInfoOf r = .ok info := by
  have hcompute : ∀ field post, (∃ mcs, ue.computeMcs field post = .ok mcs) ↔
      ∀ r ∈ ue.dlRBG, ∃ info, ue.sbInfoOf r = .ok info := by
    intro field post
    rw [← UeInfo.exists_mapM_sbInfoOf]
    unfold UeInfo.computeMcs
    constructor
    · rintro ⟨mcs, h⟩
      obtain ⟨infos, hinfos, _⟩ := bind_eq_ok.mp h
      exact ⟨infos, hinfos⟩
    · rintro ⟨infos, hinfos⟩
      rw [hinfos, ok_bind]
      exact ⟨_, rfl⟩
  unfold UeInfo.getDlMcs UeInfo.getDlMcsLookups
  cases ue.fhMaxMcsAssignable with
  | some mcs => simp
  | none =>
      dsimp only
      split
      · simp
      · next hguard =>
          cases hsource : ue.mcsCsiSource with
          | avgMcs => exact hcompute _ _
          | avgSpecEff => exact hcompute _ _
          | avgSinr => exact hcompute _ _
          | widebandMcs => simp [hsource] at hguard

/-- The attempt comes to a choice exactly if all its lookups are in range. -/
theorem Scheduler.exists_chooseRbg {S : Scheduler} {ue : UeInfo} {remainingRbgSet : List ℕ} :
    (∃ choice, S.chooseRbg ue remainingRbgSet = .ok choice) ↔
      ∀ r ∈ S.chooseRbgLookups ue remainingRbgSet, ∃ info, ue.sbInfoOf r = .ok info := by
  have hfold : ∀ (l : List ℕ) (b : Option ℕ × ℕ),
      (∃ best, l.foldlM (fun (best : Option ℕ × ℕ) resourcePos => do
        let info ← ue.sbInfoOf resourcePos
        return if info.cqi > best.2 then (some resourcePos, info.cqi) else best) b = .ok best) ↔
        ∀ r ∈ l, ∃ info, ue.sbInfoOf r = .ok info := by
    intro l
    induction l with
    | nil => simp
    | cons r l ih =>
        intro b
        rw [List.foldlM_cons, List.forall_mem_cons]
        cases hr : ue.sbInfoOf r with
        | error f => simp
        | ok info =>
            rw [ok_bind, pure_eq, ok_bind, ih]
            simp
  unfold Scheduler.chooseRbg Scheduler.chooseRbgLookups
  split
  · simp
  · rw [List.forall_mem_append, ← hfold remainingRbgSet (none, 0)]
    change (∃ choice, (findBestRbg ue remainingRbgSet >>= _) = .ok choice) ↔
      (∃ best, findBestRbg ue remainingRbgSet = .ok best) ∧ _
    cases findBestRbg ue remainingRbgSet with
    | error f => simp
    | ok best =>
        rw [ok_bind]
        cases ue.dlRBG with
        | nil => simp
        | cons r l =>
            cases hr : ue.sbInfoOf r with
            | error f => simp [hr]
            | ok info =>
                by_cases hlow : (best.2 : ℤ) < info.cqi - 4
                · simp [hr, hlow]
                · simp [hr, hlow]

/-- A lookup is made for a UE with the vectors it had before the call, the first not empty. -/
theorem Scheduler.LooksUp.subBands {S : Scheduler} {now : ℚ} {i : SlotStart} {p : UePtr}
    {u : UeInfo} {r : ℕ} (h : S.LooksUp now i p u r) :
    u.subBands = (i.world.ues p).subBands ∧ u.dlSbMcsInfo ≠ [] := by
  have hmcs : ∀ {v : UeInfo}, r ∈ v.getDlMcsLookups → v.dlSbMcsInfo ≠ [] := by
    intro v hr hnil
    unfold UeInfo.getDlMcsLookups at hr
    split at hr
    · cases hr
    · simp [hnil] at hr
  cases h with
  | @attempt st beamSym _ _ s t ue entry run pc next hr =>
      have hmem := (Scheduler.reaches_inv run (Scheduler.loopEntry_inv entry).1).2.mem ue
        (List.mem_of_getElem? next)
      refine ⟨Scheduler.loop_subBands entry run hmem, fun hnil => ?_⟩
      unfold Scheduler.chooseRbgLookups at hr
      simp [hnil] at hr
  | @given st beamSym _ _ _ _ s t ue entry run pc next choice hr =>
      have hmem := (Scheduler.reaches_inv run (Scheduler.loopEntry_inv entry).1).2.mem ue
        (List.mem_of_getElem? next)
      exact ⟨Scheduler.loop_subBands entry run hmem, hmcs hr⟩
  | refresh entry run mem hr => exact ⟨Scheduler.loop_subBands entry run mem, hmcs hr⟩

namespace Scheduler

variable {S : Scheduler} {now : ℚ} {i : SlotStart}

theorem mem_of_chooseRbgLookups {u : UeInfo} {remainingRbgSet : List ℕ} {r : ℕ}
    (h : r ∈ S.chooseRbgLookups u remainingRbgSet) : r ∈ remainingRbgSet ∨ r ∈ u.dlRBG := by
  unfold chooseRbgLookups at h
  split at h
  · cases h
  · exact (List.mem_append.mp h).imp_right List.mem_of_mem_take

theorem mem_of_getDlMcsLookups {u : UeInfo} {r : ℕ} (h : r ∈ u.getDlMcsLookups) :
    r ∈ u.dlRBG := by
  unfold UeInfo.getDlMcsLookups at h
  split at h
  · cases h
  · split at h
    · cases h
    · exact h

theorem loop_usable {st : DppaStatics} {beamSym : ℕ} {s t : BeamState}
    (hentry : S.LoopEntry now i st beamSym s) (hrun : Orbit.Reaches (S.step st beamSym) s t) :
    (∀ r ∈ t.alloc.remainingRbgSet, r ∈ S.usableRbgs) ∧
      ∀ ue ∈ s.ueVector, ∀ r ∈ (t.ueOf ue).dlRBG, r ∈ S.usableRbgs := by
  obtain ⟨_, _, hl⟩ := (loopEntry_inv hentry).1.ledger
  have hinv := hrun.inv (fun _ => step_partInv) (loopEntry_partInv hentry)
  obtain ⟨hremaining, hheld⟩ := hinv.usable hl.nodup
  exact ⟨hremaining, fun ue hue => hheld ue.1 (List.mem_map_of_mem hue)⟩

theorem LooksUp.mem_usableRbgs {p : UePtr} {u : UeInfo} {r : ℕ} (h : S.LooksUp now i p u r) :
    r ∈ S.usableRbgs := by
  cases h with
  | @attempt st beamSym _ _ s t ue entry run pc next hr =>
      obtain ⟨hremaining, hheld⟩ := loop_usable entry run
      have hmem := (reaches_inv run (loopEntry_inv entry).1).2.mem ue (List.mem_of_getElem? next)
      exact (mem_of_chooseRbgLookups hr).elim (hremaining r) (hheld ue hmem r)
  | @given st beamSym _ rbg _ _ s t ue entry run pc next choice hr =>
      obtain ⟨hremaining, hheld⟩ := loop_usable entry run
      have hmem := (reaches_inv run (loopEntry_inv entry).1).2.mem ue (List.mem_of_getElem? next)
      obtain hr | hr := List.mem_append.mp (mem_of_getDlMcsLookups hr)
      · exact hheld ue hmem r hr
      · rw [(List.mem_replicate.mp hr).2]
        exact hremaining rbg (chooseRbg_mem choice)
  | @refresh st beamSym _ s t ue entry run mem hr =>
      exact (loop_usable entry run).2 ue mem r (mem_of_getDlMcsLookups hr)

end Scheduler

/-! ### The histories of a UE -/

/-- The worlds after the reports about the UE `p`, the latest one last. -/
inductive SubBandHistory (amc : CqiAmc) (bandwidthInRbgs : ℕ) (p : UePtr) :
    List DlCqiInfo → World → Prop
  /-- A new UE has empty vectors. -/
  | registered {w : World} (h : (w.ues p).subBands = ⟨[], []⟩) :
      SubBandHistory amc bandwidthInRbgs p [] w
  /-- `DlCqiReported`, for the UE as the CQI management sees it. -/
  | reported {l : List DlCqiInfo} {w w' : World} {info : DlCqiInfo} {ue : CqiUe}
      {expirationTime : ℕ} {maxDlMcs : ℤ} (h : SubBandHistory amc bandwidthInRbgs p l w)
      (before : ue.subBands = (w.ues p).subBands)
      (after : (w'.ues p).subBands =
        (ue.dlCqiReported amc info expirationTime maxDlMcs bandwidthInRbgs).subBands) :
      SubBandHistory amc bandwidthInRbgs p (l ++ [info]) w'
  | assigned {l : List DlCqiInfo} {S : Scheduler} {now : ℚ} {i : SlotStart} {w' : World}
      {symPerBeam : BeamSymbolMap} (h : SubBandHistory amc bandwidthInRbgs p l i.world)
      (call : S.assignDLRBG now i.world i.symAvail i.activeDl = .ok (w', symPerBeam)) :
      SubBandHistory amc bandwidthInRbgs p l w'
  /-- What else happens writes neither vector. -/
  | between {l : List DlCqiInfo} {w w' : World} (h : SubBandHistory amc bandwidthInRbgs p l w)
      (same : (w'.ues p).subBands = (w.ues p).subBands) :
      SubBandHistory amc bandwidthInRbgs p l w'

variable {amc : CqiAmc} {bandwidthInRbgs : ℕ} {p : UePtr}

/-- **Run lemma.** After any history the vectors are those of the latest report. -/
theorem SubBandHistory.of_latest {l : List DlCqiInfo} {w : World}
    (h : SubBandHistory amc bandwidthInRbgs p l w) :
    SubBands.Of amc bandwidthInRbgs l.getLast? (w.ues p).subBands := by
  induction h with
  | registered h =>
      rw [h]
      exact ⟨rfl, fun _ hnone => by cases hnone⟩
  | reported h before after ih =>
      rw [after, List.getLast?_concat]
      exact dlCqiReported_subBands _ _ _ _ _ _
  | assigned h call ih =>
      rw [Scheduler.assignDLRBG_subBands call p]
      exact ih
  | between h same ih =>
      rw [same]
      exact ih

/-- The lookup for the RBG is in range, and yields the entry of the sub-band of the report that
contains it. -/
structure FindsSubBand (amc : CqiAmc) (bandwidthInRbgs : ℕ) (info : DlCqiInfo) (ue : UeInfo)
    (r : ℕ) : Prop where
  index : at? ue.rbgToSb r = .ok (r / sbSize bandwidthInRbgs info.sbCqis.length)
  entry : ∃ sb, (info.sbMcsInfo amc)[r / sbSize bandwidthInRbgs info.sbCqis.length]? = some sb ∧
    ue.sbInfoOf r = .ok sb

theorem at?_eq_ok {α : Type} {l : List α} {i : ℕ} {a : α} : at? l i = .ok a ↔ l[i]? = some a := by
  unfold at?
  cases l[i]? with
  | none => simp
  | some b => simp

/-- A lookup finds the sub-band exactly if there is one for the RBG, and its index fits an element
of `m_rbgToSb`. -/
theorem findsSubBand_iff {info : DlCqiInfo} {ue : UeInfo} {r : ℕ}
    (h : SubBands.Of amc bandwidthInRbgs (some info) ue.subBands) (hr : r < bandwidthInRbgs) :
    FindsSubBand amc bandwidthInRbgs info ue r ↔
      r / sbSize bandwidthInRbgs info.sbCqis.length < min info.sbCqis.length 256 := by
  rw [lt_min_iff]
  constructor
  · rintro ⟨hindex, sb, hsb, _⟩
    have hcovered := Scheduler.lt_of_getElem?_some hsb
    rw [DlCqiInfo.sbMcsInfo, List.length_map] at hcovered
    have hstored : ue.rbgToSb[r]? = _ := h.index info rfl r hr hcovered
    rw [at?_eq_ok.mp hindex] at hstored
    have hmod := Option.some.inj hstored
    have := Nat.mod_lt (r / sbSize bandwidthInRbgs info.sbCqis.length) (show 0 < 256 by omega)
    exact ⟨hcovered, by omega⟩
  · rintro ⟨hcovered, hfits⟩
    have hstored : ue.rbgToSb[r]? = _ := h.index info rfl r hr hcovered
    rw [Nat.mod_eq_of_lt hfits] at hstored
    have hlen : r / sbSize bandwidthInRbgs info.sbCqis.length < (info.sbMcsInfo amc).length := by
      rw [DlCqiInfo.sbMcsInfo, List.length_map]
      exact hcovered
    have hentries : ue.dlSbMcsInfo = info.sbMcsInfo amc := h.entries
    refine ⟨at?_eq_ok.mpr hstored, _, List.getElem?_eq_getElem hlen, ?_⟩
    unfold UeInfo.sbInfoOf
    rw [at?_eq_ok.mpr hstored, ok_bind, hentries]
    exact at?_eq_ok.mpr (List.getElem?_eq_getElem hlen)

theorem forall_findsSubBand_iff {info : DlCqiInfo} {ue : UeInfo}
    (h : SubBands.Of amc bandwidthInRbgs (some info) ue.subBands) :
    (∀ r < bandwidthInRbgs, FindsSubBand amc bandwidthInRbgs info ue r) ↔
      SubBandsFit bandwidthInRbgs info.sbCqis.length := by
  have hpos := sbSize_pos bandwidthInRbgs info.sbCqis.length
  rw [subBandsFit_iff]
  constructor
  · intro hall
    by_contra hcon
    have := (findsSubBand_iff h (not_le.mp hcon)).mp (hall _ (not_le.mp hcon))
    rw [Nat.mul_div_cancel _ hpos] at this
    exact absurd this (lt_irrefl _)
  · intro hfit r hr
    exact (findsSubBand_iff h hr).mpr ((Nat.div_lt_iff_lt_mul hpos).mpr (hr.trans_le hfit))

/-! ### The first attempt of a call -/

namespace Scheduler

variable {S : Scheduler} {now : ℚ}

theorem exists_enterUe {beamSym : ℕ} {w : World} {ue : UePtrAndBufferReq}
    (h : (w.ues ue.1).activeLCs ≠ []) : ∃ w', S.enterUe now beamSym w ue = .ok w' := by
  have hlen : ((S.beforeDlSched w ue ⟨beamSym, beamSym⟩).ues ue.1).activeLCs.length ≠ 0 := by
    simp only [beforeDlSched, Function.update_self]
    exact (List.length_pos_iff.mpr h).ne'
  unfold enterUe
  exact ⟨_, if_neg hlen⟩

/-- The loop of a beam comes to the first attempt, when RBGs are usable. -/
theorem reaches_firstAttempt {st : DppaStatics} {beamSym : ℕ} {s : BeamState}
    {ue : UePtrAndBufferReq} (hpc : s.pc = .reapTest) (hreap : s.reapingResources = true)
    (hne : s.alloc.remainingRbgSet ≠ []) (hue : s.ueVector[s.schedInfoIt]? = some ue) :
    Orbit.Reaches (S.step st beamSym) s { s with
      pc := .serve s.alloc.remainingRbgSet.length ((s.ueOf ue).admitted st) } := by
  have h1 : S.step st beamSym s = { s with pc := .allocTest } := by
    rw [step_reapTest hpc, hreap, if_pos rfl]
  have h2 : S.step st beamSym { s with pc := .allocTest } = { s with
      pc := .serve s.alloc.remainingRbgSet.length ((s.ueOf ue).admitted st) } := by
    rw [step_allocTest rfl]
    obtain ⟨hnil, _⟩ | ⟨_, hnone, _⟩ | ⟨_, u, hu, e⟩ :=
      allocTest_cases st { s with pc := .allocTest }
    · exact absurd hnil hne
    · rw [hue] at hnone
      cases hnone
    · rw [hue] at hu
      cases hu
      rw [e]
      rfl
  refine Orbit.Reaches.head (Orbit.Reaches.head ?_)
  rw [h1, h2]
  exact Orbit.Reaches.refl _

theorem nextIt_eq {beamSym : ℕ} {s : BeamState} {ue : UePtrAndBufferReq}
    (hue : s.ueVector[s.schedInfoIt]? = some ue)
    (hskip : S.skips (s.ueOf ue) ue.2 beamSym = false) : S.nextIt beamSym s = s.schedInfoIt := by
  obtain ⟨hlt, hget⟩ := List.getElem?_eq_some_iff.mp hue
  have hdrop : s.ueVector.drop s.schedInfoIt = ue :: s.ueVector.drop (s.schedInfoIt + 1) := by
    rw [List.drop_eq_getElem_cons hlt, hget]
  unfold nextIt
  rw [hdrop, skipCount, if_neg]
  · exact Nat.add_zero _
  · exact Bool.eq_false_iff.mp hskip

/-- The only UE of a call, when it is active, comes to the loop with its weight. -/
theorem exists_loopEntry_oneBeam {world : World} {hclean : ∀ p, (world.ues p).Clean}
    {ue : UePtrAndBufferReq} {hn : ([ue].map Prod.fst).Nodup} {beamSym : ℕ}
    (hsym : (S.getSymPerBeam 12 [(⟨0, 0⟩, [ue])]).getD ⟨0, 0⟩ 0 = beamSym)
    (hdata : (world.ues ue.1).activeLCs ≠ []) (hne : S.usableRbgs ≠ []) :
    ∃ s, S.LoopEntry now (.oneBeam world hclean ue [] hn) world.statics beamSym s ∧
      s.ueVector = [ue] ∧
        s.ueOf ue = S.weighed world.statics beamSym (world.ues ue.1) ue.2 := by
  obtain ⟨w', hw'⟩ : ∃ w', S.enterUe now beamSym world ue = .ok w' := exists_enterUe hdata
  obtain ⟨e, he⟩ : ∃ e, S.beamEntry now beamSym world [ue] = .ok e := by
    unfold beamEntry
    rw [if_neg hne, List.foldlM_cons, hw', ok_bind]
    exact ⟨_, rfl⟩
  have hsplit : (SlotStart.oneBeam world hclean ue [] hn).activeDl = [] ++ (⟨0, 0⟩, [ue]) :: [] :=
    rfl
  obtain ⟨hst, hues⟩ := beamEntry_ues hsplit rfl he
  obtain ⟨_, _, h2⟩ := beamEntry_ok he
  refine ⟨e.2, ⟨[], _, [], _, e, hsplit, rfl, hsym.symm, he, hst.symm, rfl⟩, ?_,
    hues ue List.mem_cons_self⟩
  rw [h2]
  exact List.perm_singleton.mp (S.stdSort.perm _ _)

/-- In a beam with one UE, which is admitted and has sub-bands, the first attempt looks up every
usable RBG. -/
theorem looksUp_firstAttempt {world : World} {hclean : ∀ p, (world.ues p).Clean}
    {ue : UePtrAndBufferReq} {hn : ([ue].map Prod.fst).Nodup} (hfh : S.fhControl = none)
    (hsource : S.mcsCsiSource ≠ .widebandMcs) (hdata : (world.ues ue.1).activeLCs ≠ [])
    (hinfo : (world.ues ue.1).dlSbMcsInfo ≠ []) (hne : S.usableRbgs ≠ [])
    (hlyap : (S.weighed world.statics ((S.getSymPerBeam 12 [(⟨0, 0⟩, [ue])]).getD ⟨0, 0⟩ 0)
      (world.ues ue.1) ue.2).admitted world.statics = true) :
    ∃ u, ∀ r ∈ S.usableRbgs, S.LooksUp now (.oneBeam world hclean ue [] hn) ue.1 u r := by
  generalize hsym : (S.getSymPerBeam 12 [(⟨0, 0⟩, [ue])]).getD ⟨0, 0⟩ 0 = beamSym at hlyap
  obtain ⟨s, hentry, hvec, hue⟩ : ∃ s, S.LoopEntry now (.oneBeam world hclean ue [] hn)
      world.statics beamSym s ∧ s.ueVector = [ue] ∧
        s.ueOf ue = S.weighed world.statics beamSym (world.ues ue.1) ue.2 :=
    exists_loopEntry_oneBeam hsym hdata hne
  obtain ⟨_, hpc, hit, _⟩ := loopEntry_inv hentry
  obtain ⟨hrem, hreap⟩ := loopEntry_resources hentry
  have hfirst : s.ueVector[s.schedInfoIt]? = some ue := by
    rw [hvec, hit]
    rfl
  have hremaining : s.alloc.remainingRbgSet ≠ [] := by
    rw [hrem]
    exact hne
  have hrun : Orbit.Reaches (S.step world.statics beamSym) s { s with
      pc := .serve s.alloc.remainingRbgSet.length ((s.ueOf ue).admitted world.statics) } :=
    reaches_firstAttempt hpc hreap hremaining hfirst
  rw [hue, hlyap] at hrun
  have hskip : S.skips (s.ueOf ue) ue.2 beamSym = false := by
    have hsize : (s.ueOf ue).dlTbSize = 0 := by
      rw [hue]
      exact (hclean ue.1).2.2
    simp [skips, satisfied, hsize, hfh]
  have hnext : s.ueVector[S.nextIt beamSym s]? = some ue := by
    rw [nextIt_eq hfirst hskip]
    exact hfirst
  have hsome : (s.ueOf ue).dlSbMcsInfo ≠ [] := by
    rw [hue]
    exact hinfo
  refine ⟨_, fun r hr => .attempt hentry hrun rfl hnext ?_⟩
  show r ∈ S.chooseRbgLookups (s.ueOf ue) s.alloc.remainingRbgSet
  rw [chooseRbgLookups, if_neg (by simp [hsome, hsource]), hrem]
  exact List.mem_append_left _ hr

end Scheduler

/-! ### The sub-band lookups -/

/-- A new UE in the CQI management. -/
def CqiUe.new : CqiUe where
  rnti := 1
  beamId := ⟨0, 0⟩
  startMcsDlUe := 0
  dlMcs := some 0
  mcsCsiSource := .avgMcs

/-- A world whose UEs have the given vectors. -/
def World.withSubBands (sb : SubBands) : World where
  ues := fun p => { (World.fresh {} fun _ => 0).ues p with
    dlSbMcsInfo := sb.dlSbMcsInfo, rbgToSb := sb.rbgToSb }

/-- The UE after the reports. -/
def CqiUe.afterReports (amc : CqiAmc) (bandwidthInRbgs : ℕ) (l : List DlCqiInfo) : CqiUe :=
  l.foldl (fun ue info => ue.dlCqiReported amc info 10 28 bandwidthInRbgs) .new

theorem subBandHistory_afterReports (amc : CqiAmc) (bandwidthInRbgs : ℕ) (p : UePtr)
    (l : List DlCqiInfo) : SubBandHistory amc bandwidthInRbgs p l
      (.withSubBands (CqiUe.afterReports amc bandwidthInRbgs l).subBands) := by
  induction l using List.reverseRecOn with
  | nil => exact .registered rfl
  | append_singleton l info ih =>
      have hafter : CqiUe.afterReports amc bandwidthInRbgs (l ++ [info]) =
          (CqiUe.afterReports amc bandwidthInRbgs l).dlCqiReported amc info 10 28 bandwidthInRbgs :=
        List.foldl_concat ..
      have hbefore : (CqiUe.afterReports amc bandwidthInRbgs l).subBands =
          ((World.withSubBands (CqiUe.afterReports amc bandwidthInRbgs l).subBands).ues p).subBands :=
        rfl
      exact .reported ih hbefore (congrArg CqiUe.subBands hafter)

/-- A scheduler that uses the sub-band CQIs. -/
def Scheduler.subBandCqis (bandwidthInRbgs : ℕ) : Scheduler :=
  { Scheduler.wideband (List.replicate bandwidthInRbgs true) with mcsCsiSource := .avgMcs }

theorem Scheduler.usableRbgs_subBandCqis (bandwidthInRbgs : ℕ) :
    (Scheduler.subBandCqis bandwidthInRbgs).usableRbgs = List.range bandwidthInRbgs := by
  unfold usableRbgs
  rw [show (subBandCqis bandwidthInRbgs).dlBitmask = List.replicate bandwidthInRbgs true from rfl,
    List.length_replicate, List.filter_eq_self]
  intro r hr
  simp [List.mem_range.mp hr]

/-- **Every RBG is looked up** in the next call, when the latest report has sub-bands. -/
theorem exists_lookups (amc : CqiAmc) {bandwidthInRbgs : ℕ} (p : UePtr) {l : List DlCqiInfo}
    {info : DlCqiInfo} (hlast : l.getLast? = some info) (hinfo : info.sbCqis ≠ [])
    (hpos : 0 < bandwidthInRbgs) :
    ∃ w, SubBandHistory amc bandwidthInRbgs p l w ∧ ∃ S now i u, i.world = w ∧
      ∀ r < bandwidthInRbgs, Scheduler.LooksUp S now i p u r := by
  have hhist := subBandHistory_afterReports amc bandwidthInRbgs p l
  have hentries := hhist.of_latest.entries
  rw [hlast] at hentries
  have hsome : ((World.withSubBands (CqiUe.afterReports amc bandwidthInRbgs l).subBands).ues
      p).dlSbMcsInfo ≠ [] := by
    intro hnil
    have hmap : info.sbMcsInfo amc = [] := hentries.symm.trans hnil
    exact hinfo (List.map_eq_nil_iff.mp hmap)
  have husable := Scheduler.usableRbgs_subBandCqis bandwidthInRbgs
  have hne : (Scheduler.subBandCqis bandwidthInRbgs).usableRbgs ≠ [] := by
    rw [husable, ne_eq, List.range_eq_nil]
    omega
  obtain ⟨u, hu⟩ : ∃ u, ∀ r ∈ (Scheduler.subBandCqis bandwidthInRbgs).usableRbgs,
      Scheduler.LooksUp (.subBandCqis bandwidthInRbgs) 0 (.oneBeam
        (.withSubBands (CqiUe.afterReports amc bandwidthInRbgs l).subBands)
        (fun _ => ⟨rfl, rfl, rfl⟩) (p, 100) [] (by simp)) p u r := by
    refine Scheduler.looksUp_firstAttempt rfl (fun h => ?_) (fun h => ?_) hsome hne ?_
    · cases h
    · cases h
    · show Dbl.le (dppK 1 (100 : ℕ) 1 0 (Scheduler.wideband []).slotPeriod 60 12) (.fin (-0)) = true
      decide +kernel
  refine ⟨_, hhist, _, _, _, u, rfl, fun r hr => hu r ?_⟩
  rw [husable]
  exact List.mem_range.mpr hr

/-- After every history with these reports, in every call, each lookup that is made for an RBG of
the bandwidth is in range and yields the entry of the sub-band of the latest report that contains
the RBG. -/
def SubBandLookupsRight (amc : CqiAmc) (bandwidthInRbgs : ℕ) (p : UePtr) (l : List DlCqiInfo) :
    Prop :=
  ∀ w, SubBandHistory amc bandwidthInRbgs p l w → ∀ (S : Scheduler) (now : ℚ) (i : SlotStart),
    i.world = w → ∀ u r, S.LooksUp now i p u r → r < bandwidthInRbgs →
      ∃ info, l.getLast? = some info ∧ FindsSubBand amc bandwidthInRbgs info u r

theorem exists_latest {w : World} {l : List DlCqiInfo}
    (h : SubBandHistory amc bandwidthInRbgs p l w) {S : Scheduler} {now : ℚ} {i : SlotStart}
    (hi : i.world = w) {u : UeInfo} {r : ℕ} (hlook : S.LooksUp now i p u r) :
    ∃ info, l.getLast? = some info ∧ info.sbCqis ≠ [] ∧
      SubBands.Of amc bandwidthInRbgs (some info) u.subBands := by
  obtain ⟨hsame, hne⟩ := hlook.subBands
  have hof := h.of_latest
  rw [← hi, ← hsame] at hof
  cases hlast : l.getLast? with
  | none =>
      rw [hlast] at hof
      exact absurd hof.entries hne
  | some info =>
      rw [hlast] at hof
      refine ⟨info, rfl, fun hnil => hne (hof.entries.trans ?_), hof⟩
      exact List.map_eq_nil_iff.mpr hnil

/-- The sub-bands of the latest report, if it has some, fit. -/
def LatestFits (bandwidthInRbgs : ℕ) (l : List DlCqiInfo) : Prop :=
  ∀ info, l.getLast? = some info →
    info.sbCqis = [] ∨ SubBandsFit bandwidthInRbgs info.sbCqis.length

theorem exists_findsSubBand {w : World} {l : List DlCqiInfo}
    (h : SubBandHistory amc bandwidthInRbgs p l w) (hfit : LatestFits bandwidthInRbgs l)
    {S : Scheduler} {now : ℚ} {i : SlotStart} (hi : i.world = w) {u : UeInfo} {r : ℕ}
    (hlook : S.LooksUp now i p u r) (hr : r < bandwidthInRbgs) :
    ∃ info, l.getLast? = some info ∧ FindsSubBand amc bandwidthInRbgs info u r := by
  obtain ⟨info, hlast, hinfo, hof⟩ := exists_latest h hi hlook
  have hfits := (hfit info hlast).resolve_left hinfo
  exact ⟨info, hlast, (forall_findsSubBand_iff hof).mpr hfits r hr⟩

/-- **No lookup of a call throws** after a history whose latest report fits, when the reports are
about the bandwidth of the call. -/
theorem lookup_ok {w : World} {l : List DlCqiInfo}
    (h : SubBandHistory amc bandwidthInRbgs p l w) (hfit : LatestFits bandwidthInRbgs l)
    {S : Scheduler} (hbw : S.dlBitmask.length = bandwidthInRbgs) {now : ℚ} {i : SlotStart}
    (hi : i.world = w) {u : UeInfo} {r : ℕ} (hlook : S.LooksUp now i p u r) :
    ∃ info, u.sbInfoOf r = .ok info := by
  have hr : r < bandwidthInRbgs := hbw ▸ S.lt_of_mem_usableRbgs hlook.mem_usableRbgs
  obtain ⟨_, _, _, sb, _, hsb⟩ := exists_findsSubBand h hfit hi hlook hr
  exact ⟨sb, hsb⟩

section Returns

variable {S : Scheduler} {now : ℚ} {i : SlotStart} {l : List DlCqiInfo} {st : DppaStatics}
  {beamSym : ℕ} {s t : BeamState} {ue : UePtrAndBufferReq}

theorem exists_chooseRbg_of_fits (h : SubBandHistory amc bandwidthInRbgs ue.1 l i.world)
    (hfit : LatestFits bandwidthInRbgs l) (hbw : S.dlBitmask.length = bandwidthInRbgs)
    (hentry : S.LoopEntry now i st beamSym s) (hrun : Orbit.Reaches (S.step st beamSym) s t)
    {prevRemaining : ℕ} (hpc : t.pc = .serve prevRemaining true)
    (hnext : t.ueVector[S.nextIt beamSym t]? = some ue) :
    ∃ choice, S.chooseRbg (t.ueOf ue) t.alloc.remainingRbgSet = .ok choice := by
  refine Scheduler.exists_chooseRbg.mpr fun r hr => ?_
  exact lookup_ok h hfit hbw rfl (.attempt hentry hrun hpc hnext hr)

theorem exists_getDlMcs_given (h : SubBandHistory amc bandwidthInRbgs ue.1 l i.world)
    (hfit : LatestFits bandwidthInRbgs l) (hbw : S.dlBitmask.length = bandwidthInRbgs)
    (hentry : S.LoopEntry now i st beamSym s) (hrun : Orbit.Reaches (S.step st beamSym) s t)
    {prevRemaining rbg : ℕ} (hpc : t.pc = .serve prevRemaining true)
    (hnext : t.ueVector[S.nextIt beamSym t]? = some ue)
    (hchoice : S.chooseRbg (t.ueOf ue) t.alloc.remainingRbgSet = .ok (some rbg)) (tb : ℕ)
    (amc' : NrAmc) : ∃ mcs, ((t.ueOf ue).extended rbg beamSym tb).getDlMcs amc' = .ok mcs := by
  refine UeInfo.exists_getDlMcs.mpr fun r hr => ?_
  exact lookup_ok h hfit hbw rfl (.given hentry hrun hpc hnext hchoice hr)

theorem exists_getDlMcs_of_fits (h : SubBandHistory amc bandwidthInRbgs ue.1 l i.world)
    (hfit : LatestFits bandwidthInRbgs l) (hbw : S.dlBitmask.length = bandwidthInRbgs)
    (hentry : S.LoopEntry now i st beamSym s) (hrun : Orbit.Reaches (S.step st beamSym) s t)
    (hue : ue ∈ s.ueVector) (amc' : NrAmc) : ∃ mcs, (t.ueOf ue).getDlMcs amc' = .ok mcs := by
  refine UeInfo.exists_getDlMcs.mpr fun r hr => ?_
  exact lookup_ok h hfit hbw rfl (.refresh hentry hrun hue hr)

end Returns

theorem not_subBandLookupsRight {l : List DlCqiInfo} {info : DlCqiInfo}
    (hlast : l.getLast? = some info) (hinfo : info.sbCqis ≠ [])
    (hfit : ¬ SubBandsFit bandwidthInRbgs info.sbCqis.length) :
    ¬ SubBandLookupsRight amc bandwidthInRbgs p l := by
  intro hright
  have hpos : 0 < bandwidthInRbgs := by
    by_contra hcon
    exact hfit ⟨0, Or.inl rfl, by omega⟩
  obtain ⟨w, hhist, S, now, i, u, hi, hlooks⟩ := exists_lookups amc p hlast hinfo hpos
  obtain ⟨info', hlast', _, hof⟩ := exists_latest hhist hi (hlooks 0 hpos)
  rw [hlast] at hlast'
  cases hlast'
  refine hfit ((forall_findsSubBand_iff hof).mp fun r hr => ?_)
  obtain ⟨info', hlast', hfinds⟩ := hright w hhist S now i hi u r (hlooks r hr) hr
  rw [hlast] at hlast'
  cases hlast'
  exact hfinds

/-- **The lookups of the allocator are right** after a history if and only if the latest report is
wideband-only, or its sub-bands fit the bandwidth. -/
theorem subBandLookups_iff (amc : CqiAmc) (bandwidthInRbgs : ℕ) (p : UePtr) (l : List DlCqiInfo) :
    SubBandLookupsRight amc bandwidthInRbgs p l ↔
      ∀ info, l.getLast? = some info →
        info.sbCqis = [] ∨ SubBandsFit bandwidthInRbgs info.sbCqis.length := by
  constructor
  · intro hright info hlast
    by_contra hcon
    obtain ⟨hinfo, hfit⟩ := not_or.mp hcon
    exact not_subBandLookupsRight hlast hinfo hfit hright
  · intro hfit w hhist S now i hi u r hlook hr
    exact exists_findsSubBand hhist hfit hi hlook hr

/-- A report with these sub-bands. -/
def DlCqiInfo.ofSubBands (sbCqis : List ℕ) : DlCqiInfo where
  rnti := 1
  wbCqi := 7
  sbCqis := sbCqis
  ri := 1
  optPrecMat := false

/-- Five RBGs: a report with five sub-bands, then one with two of two RBGs each.  The last RBG is
in none of them and keeps the index 4, with which the next call throws. -/
theorem not_subBandLookupsRight_remainder :
    ¬ SubBandLookupsRight ⟨id, fun cqi => cqi, id⟩ 5 0
      [.ofSubBands [7, 7, 7, 7, 7], .ofSubBands [7, 9]] ∧
    ((Scheduler.subBandCqis 5).assignDLRBG 0 (.withSubBands (CqiUe.afterReports
      ⟨id, fun cqi => cqi, id⟩ 5 [.ofSubBands [7, 7, 7, 7, 7], .ofSubBands [7, 9]]).subBands) 12
      [(⟨0, 0⟩, [(0, 100)])]).map (fun _ => ()) = .error .outOfRange := by
  have hfit : ¬ SubBandsFit 5 2 := by
    rw [subBandsFit_iff]
    decide
  exact ⟨not_subBandLookupsRight rfl (List.cons_ne_nil _ _) hfit, by decide +kernel⟩

end Rbis
