import Mathlib.Logic.Function.Basic
import Rbis.Lib.Runs
import Rbis.Sched.UeInfo

/-! # The MCS of the UEs and its timers

A UE gets its downlink MCS when it is registered (`DoCschedUeConfigReq`), from every CQI report
(`DlCqiReported`), and in each slot in which its CQI timer is zero (`RefreshDlCqiMaps`).  The last
one reads the table `m_mcs_prueba` of the DRL interface, which has four elements and no
initializer; a periodic test writes them, if something starts it.

A value that was not written is `none`, and so is one behind the bounds of the table.  The numbers
in the table are the integers 20 and 28. -/

namespace Rbis

/-- The functions of the AMC that map a CQI. -/
structure CqiAmc where
  getMcsFromCqi : ℕ → ℕ
  getSpectralEfficiencyForCqi : ℕ → ℚ
  getSinrFromSpectralEfficiency : ℚ → ℚ

/-- A report: the wideband and the sub-band CQIs, the rank, and whether it has a precoding matrix. -/
structure DlCqiInfo where
  rnti : ℕ
  wbCqi : ℕ
  sbCqis : List ℕ
  ri : ℕ
  optPrecMat : Bool

inductive CqiType where
  | wb
  | sb
deriving DecidableEq

/-- The fields of a UE that its registration and the CQI management write. -/
structure CqiUe where
  rnti : ℕ
  beamId : BeamId
  startMcsDlUe : ℕ
  /-- `none`: indeterminate. -/
  dlMcs : Option ℕ
  mcsCsiSource : McsCsiSource
  cqiType : CqiType := .wb
  wbCqi : ℕ := 0
  sbCqi : List ℕ := []
  /-- `m_dlCqi.m_timer`. -/
  timer : ℕ := 0
  dlSbMcsInfo : List SbMcsInfo := []
  rbgToSb : List ℕ := []
  dlRank : ℕ := 1

/-- The scheduler, and the table of the DRL interface. -/
structure CqiScheduler where
  startMcsDl : ℕ
  fixedMcsDl : Bool
  maxDlMcs : ℤ
  mcsCsiSource : McsCsiSource
  /-- `m_cqiTimersThreshold` and the slot period, in nanoseconds. -/
  cqiTimersThreshold : ℕ
  slotPeriod : ℕ
  bandwidthInRbg : ℕ
  ueMap : ℕ → Option CqiUe := fun _ => none
  mcsPrueba : Fin 4 → Option ℕ := fun _ => none
  mcsSchedulerStarted : Bool := false

/-! ### CQI reports -/

/-- `while (bandwidthInRbgs / rbgsPerSb > sbCqi.size()) rbgsPerSb <<= 1`: less than
`bandwidthInRbgs` times. -/
def rbgsPerSb (bandwidthInRbgs numSb : ℕ) : ℕ → ℕ → ℕ
  | 0, size => size
  | fuel + 1, size =>
      if numSb < bandwidthInRbgs / size then rbgsPerSb bandwidthInRbgs numSb fuel (size * 2)
      else size

/-- `DlCqiReported`.  An element of `m_rbgToSb` is a `uint8_t`. -/
def CqiUe.dlCqiReported (amc : CqiAmc) (info : DlCqiInfo) (expirationTime : ℕ) (maxDlMcs : ℤ)
    (bandwidthInRbgs : ℕ) (ue : CqiUe) : CqiUe :=
  let size := rbgsPerSb bandwidthInRbgs info.sbCqis.length bandwidthInRbgs 1
  { ue with
    timer := expirationTime
    cqiType := .wb
    wbCqi := info.wbCqi
    dlMcs := some (min (amc.getMcsFromCqi info.wbCqi % 256) (maxDlMcs % 256).toNat)
    sbCqi := info.sbCqis
    dlSbMcsInfo := info.sbCqis.map fun sbCqi =>
      let specEff := amc.getSpectralEfficiencyForCqi sbCqi
      { cqi := sbCqi
        mcs := amc.getMcsFromCqi sbCqi
        specEff := specEff
        sinr := amc.getSinrFromSpectralEfficiency specEff / info.ri }
    rbgToSb :=
      if info.sbCqis.isEmpty then ue.rbgToSb
      else (List.range bandwidthInRbgs).map fun rbg =>
        if rbg / size < info.sbCqis.length then rbg / size % 256 else ue.rbgToSb.getD rbg 0
    dlRank := if info.optPrecMat then info.ri else ue.dlRank }

/-! ### The table of the periodic test -/

/-- `m_mcs_prueba[index]`. -/
def readMcsPrueba (table : Fin 4 → Option ℕ) (index : ℤ) : Option ℕ :=
  if h : 0 ≤ index ∧ index < 4 then table ⟨index.toNat, by omega⟩ else none

/-- A read of the table: its index and what it yields. -/
structure TableRead where
  index : ℤ
  value : Option ℕ

/-- What `RefreshDlCqiMaps` does to one UE, and what it reads for it. -/
def CqiUe.refreshDlCqi (table : Fin 4 → Option ℕ) (ue : CqiUe) : CqiUe × Option TableRead :=
  if ue.timer = 0 then
    ({ ue with wbCqi := 1, cqiType := .wb, dlMcs := readMcsPrueba table (ue.rnti - 1) },
      some ⟨ue.rnti - 1, readMcsPrueba table (ue.rnti - 1)⟩)
  else ({ ue with timer := ue.timer - 1 }, none)

/-! ### Calls -/

inductive CqiCall where
  | cschedUeConfigReq (rnti : ℕ) (beamId : BeamId)
  | cschedUeReleaseReq (rnti : ℕ)
  | schedDlCqiInfoReq (cqiList : List DlCqiInfo)
  | schedDlTriggerReq
  /-- `UpdateMcsPeriodically`, which starts the test if it is not running. -/
  | updateMcsPeriodically
  /-- The event of the test; `low`: the elements that are drawn to be 20. -/
  | changeMcsPeriodically (low : Fin 4 → Bool)

namespace CqiScheduler

variable (s : CqiScheduler)

def doCschedUeConfigReq (rnti : ℕ) (beamId : BeamId) : CqiScheduler :=
  let ue : CqiUe :=
    match s.ueMap rnti with
    | none =>
        { rnti, beamId, startMcsDlUe := s.startMcsDl, dlMcs := some s.startMcsDl,
          mcsCsiSource := s.mcsCsiSource }
    | some ue => { ue with beamId }
  { s with ueMap := Function.update s.ueMap rnti (some ue) }

def doCschedUeReleaseReq (rnti : ℕ) : CqiScheduler :=
  { s with ueMap := Function.update s.ueMap rnti none }

/-- The expiration time of a report, in slots (`uint32_t`). -/
def expirationTime : ℕ := s.cqiTimersThreshold / s.slotPeriod % 2 ^ 32

/-- One report; a report about a UE that is not registered fails an assertion, and changes
nothing. -/
def reportDlCqi (amc : CqiAmc) (s : CqiScheduler) (info : DlCqiInfo) : CqiScheduler :=
  match s.ueMap info.rnti with
  | none => s
  | some ue =>
      { s with ueMap := Function.update s.ueMap info.rnti (some
          (ue.dlCqiReported amc info s.expirationTime s.maxDlMcs s.bandwidthInRbg)) }

def doSchedDlCqiInfoReq (amc : CqiAmc) (cqiList : List DlCqiInfo) : CqiScheduler :=
  if s.fixedMcsDl then s else cqiList.foldl (reportDlCqi amc) s

/-- `RefreshDlCqiMaps`, with which `DoSchedDlTriggerReq` begins. -/
def refreshDlCqiMaps : CqiScheduler :=
  { s with ueMap := fun rnti => (s.ueMap rnti).map fun ue => (ue.refreshDlCqi s.mcsPrueba).1 }

def startMcsScheduler : CqiScheduler :=
  { s with mcsSchedulerStarted := true, mcsPrueba := fun _ => some 28 }

def updateMcsPeriodically : CqiScheduler :=
  if s.mcsSchedulerStarted then s else s.startMcsScheduler

/-- The event is there once the test was started. -/
def changeMcsPeriodically (low : Fin 4 → Bool) : CqiScheduler :=
  if s.mcsSchedulerStarted then
    { s with mcsPrueba := fun i => some (if low i then 20 else 28) }
  else s

/-- The state after a call. -/
def call (amc : CqiAmc) (s : CqiScheduler) : CqiCall → CqiScheduler
  | .cschedUeConfigReq rnti beamId => s.doCschedUeConfigReq rnti beamId
  | .cschedUeReleaseReq rnti => s.doCschedUeReleaseReq rnti
  | .schedDlCqiInfoReq cqiList => s.doSchedDlCqiInfoReq amc cqiList
  | .schedDlTriggerReq => s.refreshDlCqiMaps
  | .updateMcsPeriodically => s.updateMcsPeriodically
  | .changeMcsPeriodically low => s.changeMcsPeriodically low

/-! ### What holds of the registered UEs -/

/-- `P` holds of every registered UE. -/
def ForUes (P : CqiUe → Prop) : Prop := ∀ rnti ue, s.ueMap rnti = some ue → P ue

theorem forUes_update {s : CqiScheduler} {P : CqiUe → Prop} (h : s.ForUes P) {rnti : ℕ} {ue : CqiUe}
    (hue : P ue) : { s with ueMap := Function.update s.ueMap rnti (some ue) }.ForUes P := by
  intro k u hk
  by_cases he : k = rnti
  · have hu : some ue = some u := by
      rw [← hk, he]
      exact Function.update_self rnti (some ue) s.ueMap |>.symm
    cases hu
    exact hue
  · have hk' : s.ueMap k = some u := by
      rw [← hk]
      exact (Function.update_of_ne he (some ue) s.ueMap).symm
    exact h k u hk'

theorem forUes_config {P : CqiUe → Prop} (h : s.ForUes P) (rnti : ℕ) (beamId : BeamId)
    (hnew : ∀ ue : CqiUe, ue.dlMcs = some s.startMcsDl → ue.timer = 0 → P ue)
    (hbeam : ∀ ue : CqiUe, P ue → P { ue with beamId }) :
    (s.doCschedUeConfigReq rnti beamId).ForUes P := by
  apply forUes_update h
  cases hm : s.ueMap rnti with
  | none => exact hnew _ rfl rfl
  | some ue => exact hbeam ue (h rnti ue hm)

theorem forUes_release {P : CqiUe → Prop} (h : s.ForUes P) (rnti : ℕ) :
    (s.doCschedUeReleaseReq rnti).ForUes P := by
  intro k u hk
  by_cases he : k = rnti
  · have hnone : (none : Option CqiUe) = some u := by
      rw [← hk, he]
      exact (Function.update_self rnti none s.ueMap).symm
    cases hnone
  · have hk' : s.ueMap k = some u := by
      rw [← hk]
      exact (Function.update_of_ne he none s.ueMap).symm
    exact h k u hk'

theorem forUes_refresh {P : CqiUe → Prop} :
    s.refreshDlCqiMaps.ForUes P ↔ s.ForUes fun ue => P (ue.refreshDlCqi s.mcsPrueba).1 := by
  constructor
  · intro h rnti ue hue
    have hue' : s.refreshDlCqiMaps.ueMap rnti = some (ue.refreshDlCqi s.mcsPrueba).1 := by
      unfold refreshDlCqiMaps
      dsimp only
      rw [hue]
      rfl
    exact h rnti _ hue'
  · intro h rnti ue hue
    obtain ⟨ue', hue', rfl⟩ := Option.map_eq_some_iff.mp hue
    exact h rnti ue' hue'

theorem doSchedDlCqiInfoReq_frame (amc : CqiAmc) (cqiList : List DlCqiInfo) :
    ∃ ueMap, s.doSchedDlCqiInfoReq amc cqiList = { s with ueMap } := by
  have hfold : ∀ (l : List DlCqiInfo) (t : CqiScheduler),
      ∃ ueMap, l.foldl (reportDlCqi amc) t = { t with ueMap } := by
    intro l
    induction l with
    | nil => exact fun t => ⟨t.ueMap, rfl⟩
    | cons info l ih =>
        intro t
        obtain ⟨ueMap, h⟩ := ih (reportDlCqi amc t info)
        refine ⟨ueMap, h.trans ?_⟩
        unfold reportDlCqi
        split
        · rfl
        · rfl
  unfold doSchedDlCqiInfoReq
  split
  · exact ⟨s.ueMap, rfl⟩
  · exact hfold cqiList s

end CqiScheduler

end Rbis
