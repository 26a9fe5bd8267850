import Rbis.Sched.CqiManagement

/-! # The MCS on an expired CQI

On an expired CQI a UE gets an element of the table of the periodic MCS test instead of its starting
MCS.  Without the test the elements are indeterminate; with it there are four of them, for the RNTIs
from one to four. -/

namespace Rbis

namespace CqiScheduler

/-! ### The starting MCS -/

/-- The UEs whose timer is zero have the starting MCS. -/
def ExpiredAtStart (s : CqiScheduler) : Prop :=
  s.ForUes fun ue => ue.timer = 0 → ue.dlMcs = some s.startMcsDl

/-- With a fixed MCS every UE has it. -/
def FixedAtStart (s : CqiScheduler) : Prop :=
  s.fixedMcsDl = true → s.ForUes fun ue => ue.dlMcs = some s.startMcsDl

/-- After a refresh, the UEs whose timer is zero have the starting MCS. -/
def RefreshesToStart (amc : CqiAmc) (s : CqiScheduler) : CqiCall → Prop
  | .schedDlTriggerReq => (s.call amc .schedDlTriggerReq).ExpiredAtStart
  | _ => True

/-- A slot finds no UE whose timer is zero, and the UEs whose timer is one have the starting MCS. -/
def NoneExpired (s : CqiScheduler) : CqiCall → Prop
  | .schedDlTriggerReq =>
      s.ForUes fun ue => ue.timer ≠ 0 ∧ (ue.timer = 1 → ue.dlMcs = some s.startMcsDl)
  | _ => True

/-- The call does not start the periodic test. -/
def NotStarted (_s : CqiScheduler) (c : CqiCall) : Prop := c ≠ .updateMcsPeriodically

/-- While the test is not started the table is not written, and with a fixed MCS no report has set a
timer. -/
structure Untested (s : CqiScheduler) : Prop where
  started : s.mcsSchedulerStarted = false
  table : ∀ i, s.mcsPrueba i = none
  fixed : s.fixedMcsDl = true → s.ForUes fun ue => ue.timer = 0 ∧ ue.dlMcs = some s.startMcsDl

section Steps

variable {amc : CqiAmc} {s : CqiScheduler}

theorem readMcsPrueba_of_none {table : Fin 4 → Option ℕ} (h : ∀ i, table i = none) (index : ℤ) :
    readMcsPrueba table index = none := by
  unfold readMcsPrueba
  split
  · exact h _
  · rfl

/-- **One UE in a slot**: its timer is zero afterwards if it expires or is about to. -/
theorem refreshDlCqi_iff (h : ∀ i, s.mcsPrueba i = none) (ue : CqiUe) :
    ((ue.refreshDlCqi s.mcsPrueba).1.timer = 0 →
      (ue.refreshDlCqi s.mcsPrueba).1.dlMcs = some s.startMcsDl) ↔
    ue.timer ≠ 0 ∧ (ue.timer = 1 → ue.dlMcs = some s.startMcsDl) := by
  unfold CqiUe.refreshDlCqi
  by_cases h0 : ue.timer = 0
  · rw [if_pos h0]
    simp [h0, readMcsPrueba_of_none h]
  · rw [if_neg h0, and_iff_right h0]
    show (ue.timer - 1 = 0 → ue.dlMcs = _) ↔ _
    have h1 : ue.timer - 1 = 0 ↔ ue.timer = 1 := by omega
    rw [h1]

theorem refreshesToStart_iff (h : ∀ i, s.mcsPrueba i = none) (c : CqiCall) :
    s.RefreshesToStart amc c ↔ s.NoneExpired c := by
  cases c with
  | schedDlTriggerReq =>
      show s.refreshDlCqiMaps.ForUes _ ↔ _
      rw [forUes_refresh]
      exact forall_congr' fun rnti => forall_congr' fun ue => forall_congr' fun _ =>
        refreshDlCqi_iff h ue
  | cschedUeConfigReq rnti beamId => exact Iff.rfl
  | cschedUeReleaseReq rnti => exact Iff.rfl
  | schedDlCqiInfoReq cqiList => exact Iff.rfl
  | updateMcsPeriodically => exact Iff.rfl
  | changeMcsPeriodically low => exact Iff.rfl

/-- With a fixed MCS a slot that meets `NoneExpired` has no UE. -/
theorem Untested.step (hs : s.Untested) (c : CqiCall) (hc : NotStarted s c)
    (hn : s.NoneExpired c) : (s.call amc c).Untested := by
  obtain ⟨hstart, htable, hfixed⟩ := hs
  cases c with
  | cschedUeConfigReq rnti beamId =>
      refine ⟨hstart, htable, fun hf => ?_⟩
      exact s.forUes_config (hfixed hf) rnti beamId (fun ue hmcs ht => ⟨ht, hmcs⟩)
        fun ue hue => hue
  | cschedUeReleaseReq rnti =>
      exact ⟨hstart, htable, fun hf => s.forUes_release (hfixed hf) rnti⟩
  | schedDlCqiInfoReq cqiList =>
      by_cases hf : s.fixedMcsDl = true
      · show (s.doSchedDlCqiInfoReq amc cqiList).Untested
        rw [doSchedDlCqiInfoReq, if_pos hf]
        exact ⟨hstart, htable, hfixed⟩
      · obtain ⟨ueMap, h⟩ := s.doSchedDlCqiInfoReq_frame amc cqiList
        show (s.doSchedDlCqiInfoReq amc cqiList).Untested
        rw [h]
        exact ⟨hstart, htable, fun hf' => absurd hf' hf⟩
  | schedDlTriggerReq =>
      refine ⟨hstart, htable, fun hf => ?_⟩
      rw [call, forUes_refresh]
      intro rnti ue hue
      exact absurd (hfixed hf rnti ue hue).1 (hn rnti ue hue).1
  | updateMcsPeriodically => exact absurd rfl hc
  | changeMcsPeriodically low =>
      show (s.changeMcsPeriodically low).Untested
      rw [changeMcsPeriodically, if_neg (by rw [hstart]; decide)]
      exact ⟨hstart, htable, hfixed⟩

theorem Untested.fixedAtStart (hs : s.Untested) : s.FixedAtStart := fun hf rnti ue hue =>
  (hs.fixed hf rnti ue hue).2

end Steps

/-- The scheduler without UEs, as the constructors leave it. -/
structure IsInitial (s : CqiScheduler) : Prop where
  ueMap : ∀ rnti, s.ueMap rnti = none
  table : ∀ i, s.mcsPrueba i = none
  started : s.mcsSchedulerStarted = false

theorem IsInitial.forUes {s : CqiScheduler} (h : s.IsInitial) (P : CqiUe → Prop) : s.ForUes P := by
  intro rnti ue hue
  rw [h.ueMap rnti] at hue
  cases hue

/-- **The MCS on an expired CQI.** In a run without the periodic test, every UE whose timer is zero
after a refresh has the starting MCS, and with a fixed MCS every UE has it in every state, exactly
if no slot finds an expired CQI, nor another MCS than the starting one on a CQI about to expire. -/
theorem startMcs_throughout_iff {amc : CqiAmc} {s : CqiScheduler} (hs : s.IsInitial)
    {calls : List CqiCall} (hcalls : Runs.AllSteps (call amc) NotStarted s calls) :
    (Runs.AllSteps (call amc) (RefreshesToStart amc) s calls ∧
      Runs.Throughout (call amc) FixedAtStart s calls) ↔
    Runs.AllSteps (call amc) NoneExpired s calls := by
  have hu : s.Untested := ⟨hs.started, hs.table, fun _ => hs.forUes _⟩
  have hfix : s.FixedAtStart := hu.fixedAtStart
  rw [Runs.throughout_iff, and_iff_right hfix, Runs.allSteps_and]
  refine Runs.allSteps_iff Untested (fun s c hu hc => ?_) (fun s c hu hc hn => hu.step c hc hn) hu
    hcalls
  rw [refreshesToStart_iff hu.table]
  exact ⟨fun h => h.1, fun hn => ⟨hn, (hu.step c hc hn).fixedAtStart⟩⟩

/-- A scheduler with the starting MCS 10. -/
def sample : CqiScheduler where
  startMcsDl := 10
  fixedMcsDl := false
  maxDlMcs := 28
  mcsCsiSource := .widebandMcs
  cqiTimersThreshold := 1000000000
  slotPeriod := 250000
  bandwidthInRbg := 25

theorem sample_isInitial : sample.IsInitial := ⟨fun _ => rfl, fun _ => rfl, rfl⟩

/-- An AMC that maps every CQI to its double. -/
def CqiAmc.double : CqiAmc := ⟨fun cqi => 2 * cqi, fun cqi => cqi, fun specEff => specEff⟩

/-- A UE that reports its CQI before the first slot. -/
def reportFirst : List CqiCall :=
  [.cschedUeConfigReq 1 ⟨0, 0⟩, .schedDlCqiInfoReq [⟨1, 7, [], 1, false⟩], .schedDlTriggerReq]

theorem reportFirst_notStarted :
    Runs.AllSteps (call CqiAmc.double) NotStarted sample reportFirst := by
  refine ⟨?_, ?_, ?_, trivial⟩ <;> exact fun h => by cases h

theorem reportFirst_noneExpired :
    Runs.AllSteps (call CqiAmc.double) NoneExpired sample reportFirst := by
  refine ⟨trivial, trivial, ?_, trivial⟩
  intro rnti ue hue
  by_cases h : rnti = 1
  · subst h
    obtain rfl := Option.some.inj hue
    decide +kernel
  · change Function.update (Function.update (fun _ => none) 1 _) 1 _ rnti = some ue at hue
    rw [Function.update_of_ne h, Function.update_of_ne h] at hue
    cases hue

theorem startMcs_throughout_iff_reportFirst :
    Runs.AllSteps (call CqiAmc.double) (RefreshesToStart CqiAmc.double) sample reportFirst ∧
      Runs.Throughout (call CqiAmc.double) FixedAtStart sample reportFirst :=
  (startMcs_throughout_iff sample_isInitial reportFirst_notStarted).mpr reportFirst_noneExpired

/-- A UE without a report: the first slot reads its MCS from the table, which nobody wrote. -/
theorem not_startMcs_first_slot :
    ¬ (Runs.AllSteps (call CqiAmc.double) (RefreshesToStart CqiAmc.double) sample
        [.cschedUeConfigReq 1 ⟨0, 0⟩, .schedDlTriggerReq] ∧
      Runs.Throughout (call CqiAmc.double) FixedAtStart sample
        [.cschedUeConfigReq 1 ⟨0, 0⟩, .schedDlTriggerReq]) := by
  rintro ⟨⟨-, h, -⟩, -⟩
  have hmcs := h 1 _ rfl rfl
  cases hmcs

/-! ### The reads of the table -/

/-- The reads of a slot are inside the table, of elements that were written, and give an MCS of the
AMC. -/
def SafeReads (maxMcs : ℕ) (s : CqiScheduler) : CqiCall → Prop
  | .schedDlTriggerReq =>
      s.ForUes fun ue => ∀ r ∈ (ue.refreshDlCqi s.mcsPrueba).2,
        (0 ≤ r.index ∧ r.index < 4) ∧ r.value.isSome = true ∧
          ∀ mcs ∈ (ue.refreshDlCqi s.mcsPrueba).1.dlMcs, mcs ≤ maxMcs
  | _ => True

/-- A slot finds an expired CQI only after the test was started, of a UE with an RNTI from one to
four, and an MCS of 28 only where the AMC has it, as 20. -/
def TestedUes (maxMcs : ℕ) (s : CqiScheduler) : CqiCall → Prop
  | .schedDlTriggerReq =>
      s.ForUes fun ue => ue.timer = 0 → s.mcsSchedulerStarted = true ∧
        (1 ≤ ue.rnti ∧ ue.rnti ≤ 4) ∧
          (28 ≤ maxMcs ∨ 20 ≤ maxMcs ∧ readMcsPrueba s.mcsPrueba (ue.rnti - 1) = some 20)
  | _ => True

/-- The table is written once the test was started. -/
structure TableOk (s : CqiScheduler) : Prop where
  unwritten : s.mcsSchedulerStarted = false → ∀ i, s.mcsPrueba i = none
  written : s.mcsSchedulerStarted = true → ∀ i, s.mcsPrueba i = some 20 ∨ s.mcsPrueba i = some 28

section Reads

variable {amc : CqiAmc} {s : CqiScheduler}

theorem TableOk.step (hs : s.TableOk) (c : CqiCall) : (s.call amc c).TableOk := by
  cases c with
  | cschedUeConfigReq rnti beamId => exact ⟨hs.unwritten, hs.written⟩
  | cschedUeReleaseReq rnti => exact ⟨hs.unwritten, hs.written⟩
  | schedDlCqiInfoReq cqiList =>
      obtain ⟨ueMap, h⟩ := s.doSchedDlCqiInfoReq_frame amc cqiList
      show (s.doSchedDlCqiInfoReq amc cqiList).TableOk
      rw [h]
      exact ⟨hs.unwritten, hs.written⟩
  | schedDlTriggerReq => exact ⟨hs.unwritten, hs.written⟩
  | updateMcsPeriodically =>
      show s.updateMcsPeriodically.TableOk
      unfold updateMcsPeriodically
      split
      · exact hs
      · refine ⟨fun h => ?_, fun _ _ => Or.inr rfl⟩
        cases h
  | changeMcsPeriodically low =>
      show (s.changeMcsPeriodically low).TableOk
      unfold changeMcsPeriodically
      split
      · next hstarted =>
          refine ⟨fun h => ?_, fun _ i => ?_⟩
          · exact absurd (hstarted.symm.trans h) (by decide)
          · show some _ = some _ ∨ some _ = some _
            cases low i
            · exact Or.inr rfl
            · exact Or.inl rfl
      · exact hs

theorem readMcsPrueba_rnti (table : Fin 4 → Option ℕ) {rnti : ℕ} (h : 1 ≤ rnti ∧ rnti ≤ 4) :
    readMcsPrueba table (rnti - 1) = table ⟨rnti - 1, by omega⟩ := by
  have hindex : 0 ≤ (rnti : ℤ) - 1 ∧ (rnti : ℤ) - 1 < 4 := by omega
  have htoNat : ((rnti : ℤ) - 1).toNat = rnti - 1 := by omega
  rw [readMcsPrueba, dif_pos hindex]
  exact congrArg table (Fin.ext htoNat)

/-- **The read for one UE.** -/
theorem safeRead_iff (hs : s.TableOk) (maxMcs : ℕ) (ue : CqiUe) :
    (∀ r ∈ (ue.refreshDlCqi s.mcsPrueba).2,
      (0 ≤ r.index ∧ r.index < 4) ∧ r.value.isSome = true ∧
        ∀ mcs ∈ (ue.refreshDlCqi s.mcsPrueba).1.dlMcs, mcs ≤ maxMcs) ↔
    (ue.timer = 0 → s.mcsSchedulerStarted = true ∧ (1 ≤ ue.rnti ∧ ue.rnti ≤ 4) ∧
      (28 ≤ maxMcs ∨ 20 ≤ maxMcs ∧ readMcsPrueba s.mcsPrueba (ue.rnti - 1) = some 20)) := by
  by_cases h0 : ue.timer = 0
  · have hread : ue.refreshDlCqi s.mcsPrueba =
        ({ ue with wbCqi := 1, cqiType := .wb,
                   dlMcs := readMcsPrueba s.mcsPrueba (ue.rnti - 1) },
          some ⟨ue.rnti - 1, readMcsPrueba s.mcsPrueba (ue.rnti - 1)⟩) := if_pos h0
    rw [hread]
    simp only [Option.mem_some_iff, forall_eq', h0, forall_const]
    have hbound : (0 ≤ (ue.rnti : ℤ) - 1 ∧ (ue.rnti : ℤ) - 1 < 4) ↔ 1 ≤ ue.rnti ∧ ue.rnti ≤ 4 := by
      omega
    rw [hbound]
    by_cases hrnti : 1 ≤ ue.rnti ∧ ue.rnti ≤ 4
    · rw [and_iff_right hrnti, and_iff_right hrnti, readMcsPrueba_rnti _ hrnti]
      cases hst : s.mcsSchedulerStarted with
      | false => simp [hs.unwritten hst]
      | true =>
          rcases hs.written hst ⟨ue.rnti - 1, by omega⟩ with h | h
          · rw [h]
            simp
            omega
          · rw [h]
            simp
    · exact iff_of_false (fun h => hrnti h.1) fun h => hrnti h.2.1
  · have hread : ue.refreshDlCqi s.mcsPrueba = ({ ue with timer := ue.timer - 1 }, none) :=
      if_neg h0
    rw [hread]
    exact iff_of_true (fun r hr => by cases hr) fun h => absurd h h0

end Reads

/-- **The reads of the table.** In every run, the reads of all slots are safe exactly if an expired
CQI is only found with the test started, for an RNTI from one to four, and with an MCS of the test
that the AMC has. -/
theorem safeReads_iff {amc : CqiAmc} {s : CqiScheduler} (hs : s.IsInitial) (maxMcs : ℕ)
    (calls : List CqiCall) :
    Runs.AllSteps (call amc) (SafeReads maxMcs) s calls ↔
      Runs.AllSteps (call amc) (TestedUes maxMcs) s calls := by
  have htable : s.TableOk := by
    refine ⟨fun _ => hs.table, fun h => ?_⟩
    rw [hs.started] at h
    cases h
  have hlegal : Runs.AllSteps (call amc) (fun _ _ => True) s calls :=
    Runs.allSteps_of_forall (fun _ _ => trivial) s calls
  refine Runs.allSteps_iff TableOk (fun s c hs _ => ?_) (fun s c hs _ _ => hs.step c) htable hlegal
  cases c with
  | schedDlTriggerReq =>
      exact forall_congr' fun rnti => forall_congr' fun ue => forall_congr' fun _ =>
        safeRead_iff hs maxMcs ue
  | cschedUeConfigReq rnti beamId => exact Iff.rfl
  | cschedUeReleaseReq rnti => exact Iff.rfl
  | schedDlCqiInfoReq cqiList => exact Iff.rfl
  | updateMcsPeriodically => exact Iff.rfl
  | changeMcsPeriodically low => exact Iff.rfl

/-- The slot of a UE without a report, after the test was started. -/
theorem safeReads_iff_started :
    Runs.AllSteps (call CqiAmc.double) (SafeReads 28) sample
      [.updateMcsPeriodically, .cschedUeConfigReq 1 ⟨0, 0⟩, .schedDlTriggerReq] := by
  refine (safeReads_iff sample_isInitial 28 _).mpr ⟨trivial, trivial, ?_, trivial⟩
  refine forUes_update (s := sample.startMcsScheduler) (sample_isInitial.forUes _) fun _ => ?_
  exact ⟨rfl, by decide, Or.inl (by decide)⟩

/-- The first slot of a UE, with the test not started. -/
theorem not_safeReads_first_slot :
    ¬ Runs.AllSteps (call CqiAmc.double) (SafeReads 28) sample
      [.cschedUeConfigReq 1 ⟨0, 0⟩, .schedDlTriggerReq] := by
  rintro ⟨-, h, -⟩
  have hread := (h 1 _ rfl ⟨0, none⟩ rfl).2.1
  cases hread

end CqiScheduler

end Rbis
