import Mathlib.Data.List.Perm.Basic
import Mathlib.Data.List.Range
import Mathlib.Data.Nat.Count
import Mathlib.Data.Nat.Periodic
import Rbis.Lib.Fallible
import Rbis.Lib.Runs
import Rbis.Sched.UeInfo

/-! # Sounding reference signals

All UEs share a periodicity, one of the standard ones, and each has its own offset
(`NrMacSchedulerSrsDefault`).  A new UE takes the last of the offsets that are left; if none is
left, the periodicity grows and all the UEs get new offsets.  In the slots for SRS a counter goes
up, a `uint32_t`, and the UE whose offset is its remainder transmits (`DoScheduleSrs`).

The order in which the UEs are visited and the order of the offsets that are left, which
`ShuffleOffsets` makes random, may change at any time. -/

namespace Rbis

/-- `StandardPeriodicity`. -/
def standardPeriodicity : List ℕ :=
  [2, 4, 5, 8, 10, 16, 20, 32, 40, 64, 80, 160, 320, 640, 1280, 2560]

structure SrsUe where
  rnti : ℕ
  srsPeriodicity : ℕ := 0
  srsOffset : ℕ := 0
deriving DecidableEq

structure NrMacSchedulerSrsDefault where
  periodicity : ℕ
  /-- The back of the vector is the end of the list. -/
  availableOffsetValues : List ℕ

namespace NrMacSchedulerSrsDefault

variable (s : NrMacSchedulerSrsDefault)

/-- `AddUe`, with the periodicity and the offset if they are valid. -/
def addUe : Option (ℕ × ℕ) × NrMacSchedulerSrsDefault :=
  match s.availableOffsetValues.getLast? with
  | none => (none, s)
  | some offset => (some (s.periodicity, offset),
      { s with availableOffsetValues := s.availableOffsetValues.dropLast })

def removeUe (offset : ℕ) : NrMacSchedulerSrsDefault :=
  { s with availableOffsetValues := s.availableOffsetValues ++ [offset] }

/-- `SetStartingPeriodicity`, before the offsets are shuffled. -/
def setStartingPeriodicity (start : ℕ) : Except Fault NrMacSchedulerSrsDefault :=
  if s.availableOffsetValues ≠ [] then .error .assertion
  else if start ∉ standardPeriodicity then .error .assertion
  else .ok ⟨start, List.range start⟩

def reassignSrsValue : List SrsUe → NrMacSchedulerSrsDefault →
    Except Fault (NrMacSchedulerSrsDefault × List SrsUe)
  | [], s => .ok (s, [])
  | ue :: rest, s =>
      match s.addUe with
      | (none, _) => .error .assertion
      | (some (periodicity, offset), s) => do
          let r ← reassignSrsValue rest s
          return (r.1, { ue with srsPeriodicity := periodicity, srsOffset := offset } :: r.2)

/-- `IncreasePeriodicity`; `none` if it returns `false`. -/
def increasePeriodicity (ueMap : List SrsUe) :
    Except Fault (Option (NrMacSchedulerSrsDefault × List SrsUe)) :=
  match standardPeriodicity.find? (s.periodicity < ·) with
  | none => .ok none
  | some p => do
      let t ← setStartingPeriodicity { s with availableOffsetValues := [] } p
      let r ← reassignSrsValue ueMap t
      return some r

/-- `IsMaxSrsReached`. -/
def isMaxSrsReached : Bool :=
  decide (standardPeriodicity.getLast? = some s.periodicity ∧ s.availableOffsetValues = [])

end NrMacSchedulerSrsDefault

/-- The part of the scheduler that has to do with SRS. -/
structure SrsScheduler where
  schedulerSrs : NrMacSchedulerSrsDefault
  ueMap : List SrsUe := []
  srsSlotCounter : ℕ := 0
  /-- For each slot with SRS, the UE that transmitted. -/
  log : List (Option ℕ) := []

inductive SrsEvent where
  | configUe (rnti : ℕ)
  | releaseUe (rnti : ℕ)
  /-- The offsets that are left are shuffled. -/
  | shuffle (offsets : List ℕ)
  /-- The map yields the UEs in another order. -/
  | rehash (ueMap : List SrsUe)
  /-- `DoScheduleUl` in a slot with SRS. -/
  | slot
deriving DecidableEq

namespace SrsScheduler

variable (s : SrsScheduler)

/-- `DoCschedUeConfigReq`. -/
def configUe (rnti : ℕ) : Except Fault SrsScheduler :=
  if rnti ∈ s.ueMap.map SrsUe.rnti then .ok s
  else
    match s.schedulerSrs.addUe with
    | (some (periodicity, offset), srs) =>
        .ok { s with schedulerSrs := srs, ueMap := ⟨rnti, periodicity, offset⟩ :: s.ueMap }
    | (none, srs) => do
        match ← srs.increasePeriodicity ({ rnti := rnti } :: s.ueMap) with
        | none => throw .assertion
        | some r => return { s with schedulerSrs := r.1, ueMap := r.2 }

/-- `DoCschedUeReleaseReq`. -/
def releaseUe (rnti : ℕ) : Except Fault SrsScheduler :=
  match s.ueMap.find? fun ue => ue.rnti = rnti with
  | none => .error .assertion
  | some ue => .ok { s with
      schedulerSrs := s.schedulerSrs.removeUe ue.srsOffset, ueMap := s.ueMap.erase ue }

/-- The UE that `DoScheduleSrs` finds; the RNTI 0 stands for none. -/
def doScheduleSrs (srsSlotCounter : ℕ) : Except Fault (Option ℕ) :=
  match s.ueMap with
  | [] => .ok none
  | ue :: _ =>
      if ue.srsPeriodicity = 0 then .error .divByZero
      else
        let offset := srsSlotCounter % ue.srsPeriodicity
        let rnti := s.ueMap.foldl (fun rnti ue => if ue.srsOffset = offset then ue.rnti else rnti) 0
        .ok (if rnti = 0 then none else some rnti)

def step : SrsEvent → Except Fault SrsScheduler
  | .configUe rnti => s.configUe rnti
  | .releaseUe rnti => s.releaseUe rnti
  | .shuffle offsets => .ok { s with
      schedulerSrs := { s.schedulerSrs with availableOffsetValues := offsets } }
  | .rehash ueMap => .ok { s with ueMap := ueMap }
  | .slot => do
      let srsSlotCounter := (s.srsSlotCounter + 1) % 2 ^ 32
      let sent ← s.doScheduleSrs srsSlotCounter
      return { s with srsSlotCounter := srsSlotCounter, log := s.log ++ [sent] }

/-- The RRC asks `IsMaxSrsReached` before a UE comes.  RNTIs are not 0. -/
def Admissible : SrsEvent → Prop
  | .configUe rnti => rnti ≠ 0 ∧ s.schedulerSrs.isMaxSrsReached = false
  | .releaseUe rnti => rnti ∈ s.ueMap.map SrsUe.rnti
  | .shuffle offsets => offsets.Perm s.schedulerSrs.availableOffsetValues
  | .rehash ueMap => ueMap.Perm s.ueMap
  | .slot => True

instance : ∀ ev, Decidable (s.Admissible ev)
  | .configUe rnti =>
      inferInstanceAs (Decidable (rnti ≠ 0 ∧ s.schedulerSrs.isMaxSrsReached = false))
  | .releaseUe rnti => inferInstanceAs (Decidable (rnti ∈ s.ueMap.map SrsUe.rnti))
  | .shuffle offsets =>
      inferInstanceAs (Decidable (offsets.Perm s.schedulerSrs.availableOffsetValues))
  | .rehash ueMap => inferInstanceAs (Decidable (ueMap.Perm s.ueMap))
  | .slot => .isTrue trivial

/-! ### The invariant -/

/-- The offsets below the periodicity are distributed among the UEs and the ones that are left. -/
structure Inv (s : SrsScheduler) : Prop where
  standard : s.schedulerSrs.periodicity ∈ standardPeriodicity
  perm : (s.ueMap.map SrsUe.srsOffset ++ s.schedulerSrs.availableOffsetValues).Perm
    (List.range s.schedulerSrs.periodicity)
  periodicity : ∀ ue ∈ s.ueMap, ue.srsPeriodicity = s.schedulerSrs.periodicity
  nodup : (s.ueMap.map SrsUe.rnti).Nodup
  nonzero : ∀ ue ∈ s.ueMap, ue.rnti ≠ 0
  counter : s.srsSlotCounter < 2 ^ 32

theorem standard_pos : ∀ p ∈ standardPeriodicity, 0 < p ∧ (p < 2560 ∨ p = 2560) := by decide

end SrsScheduler

namespace NrMacSchedulerSrsDefault

theorem addUe_cases (s : NrMacSchedulerSrsDefault) :
    s.availableOffsetValues = [] ∧ s.addUe = (none, s) ∨
      ∃ init offset, s.availableOffsetValues = init ++ [offset] ∧
        s.addUe = (some (s.periodicity, offset), ⟨s.periodicity, init⟩) := by
  unfold addUe
  obtain h | ⟨init, offset, h⟩ := List.eq_nil_or_concat s.availableOffsetValues
  · exact .inl ⟨h, by rw [h]; rfl⟩
  · rw [List.concat_eq_append] at h
    refine .inr ⟨init, offset, h, ?_⟩
    rw [h, List.getLast?_concat, List.dropLast_concat]

/-- Enough offsets for all the UEs. -/
theorem reassignSrsValue_ok : ∀ (ues : List SrsUe) (s : NrMacSchedulerSrsDefault),
    ues.length ≤ s.availableOffsetValues.length →
    ∃ t ues', reassignSrsValue ues s = .ok (t, ues') ∧ t.periodicity = s.periodicity ∧
      ues'.map SrsUe.rnti = ues.map SrsUe.rnti ∧
      (ues'.map SrsUe.srsOffset ++ t.availableOffsetValues).Perm s.availableOffsetValues ∧
      ∀ ue ∈ ues', ue.srsPeriodicity = s.periodicity
  | [], s, _ => ⟨s, [], rfl, rfl, rfl, List.Perm.refl _, fun _ h => absurd h List.not_mem_nil⟩
  | ue :: ues, s, h => by
      rcases s.addUe_cases with ⟨hnil, -⟩ | ⟨init, offset, hinit, hadd⟩
      · rw [hnil] at h
        exact absurd h (Nat.not_succ_le_zero _)
      · have hle : ues.length ≤ init.length := by
          rw [hinit, List.length_append] at h
          exact Nat.le_of_succ_le_succ h
        obtain ⟨t, ues', h1, h2, h3, h4, h5⟩ :=
          reassignSrsValue_ok ues ⟨s.periodicity, init⟩ hle
        refine ⟨t, { ue with srsPeriodicity := s.periodicity, srsOffset := offset } :: ues', ?_, h2,
          congrArg (ue.rnti :: ·) h3, ?_, fun u hu => ?_⟩
        · rw [reassignSrsValue, hadd]
          dsimp only
          rw [h1]
          rfl
        · rw [hinit]
          exact (h4.cons offset).trans (List.perm_append_singleton offset init).symm
        · obtain rfl | hu := List.mem_cons.mp hu
          · rfl
          · exact h5 u hu

end NrMacSchedulerSrsDefault

namespace SrsScheduler

variable {s t : SrsScheduler}

/-! ### UEs that come and go -/

theorem Inv.nodup_offsets (h : s.Inv) : (s.ueMap.map SrsUe.srsOffset).Nodup :=
  (h.perm.nodup_iff.mpr List.nodup_range).of_append_left

/-- What a step keeps of the UEs. -/
structure Keeps (s t : SrsScheduler) (ev : SrsEvent) : Prop where
  le : s.schedulerSrs.periodicity ≤ t.schedulerSrs.periodicity
  mem : t.schedulerSrs.periodicity = s.schedulerSrs.periodicity →
    ∀ ue ∈ s.ueMap, ev ≠ .releaseUe ue.rnti → ue ∈ t.ueMap

/-- The periodicity can grow up to 2560. -/
theorem increasePeriodicity_ok {srs : NrMacSchedulerSrsDefault} (ues : List SrsUe)
    (hlength : ues.length = srs.periodicity + 1) (hlt : srs.periodicity < 2560) :
    ∃ r, srs.increasePeriodicity ues = .ok (some r) ∧ srs.periodicity < r.1.periodicity ∧
      r.1.periodicity ∈ standardPeriodicity ∧ r.2.map SrsUe.rnti = ues.map SrsUe.rnti ∧
      (r.2.map SrsUe.srsOffset ++ r.1.availableOffsetValues).Perm (List.range r.1.periodicity) ∧
      ∀ ue ∈ r.2, ue.srsPeriodicity = r.1.periodicity := by
  unfold NrMacSchedulerSrsDefault.increasePeriodicity
  cases hfind : standardPeriodicity.find? (srs.periodicity < ·) with
  | none =>
      have hlast := List.find?_eq_none.mp hfind 2560 (by decide)
      exact absurd (decide_eq_true hlt) hlast
  | some q =>
      have hq : q ∈ standardPeriodicity := List.mem_of_find?_eq_some hfind
      have hgrows : srs.periodicity < q := of_decide_eq_true
        (List.find?_some (p := fun q => decide (srs.periodicity < q)) hfind)
      have hstart : NrMacSchedulerSrsDefault.setStartingPeriodicity
          { srs with availableOffsetValues := [] } q = .ok ⟨q, List.range q⟩ := by
        rw [NrMacSchedulerSrsDefault.setStartingPeriodicity, if_neg (not_not_intro rfl),
          if_neg (not_not_intro hq)]
      obtain ⟨r, ues', h1, h2, h3, h4, h5⟩ := NrMacSchedulerSrsDefault.reassignSrsValue_ok
        ues ⟨q, List.range q⟩ (by rw [List.length_range]; omega)
      dsimp only at h2 h4 h5 ⊢
      rw [hstart, Fallible.ok_bind, h1]
      refine ⟨(r, ues'), rfl, ?_⟩
      rw [h2]
      exact ⟨hgrows, hq, h3, h4, h5⟩

theorem Inv.configUe (h : s.Inv) {r : ℕ} (hr : r ≠ 0)
    (hmax : s.schedulerSrs.isMaxSrsReached = false) :
    ∃ t, s.configUe r = .ok t ∧ t.Inv ∧ Keeps s t (.configUe r) ∧ t.log = s.log ∧
      t.srsSlotCounter = s.srsSlotCounter := by
  unfold SrsScheduler.configUe
  by_cases hmem : r ∈ s.ueMap.map SrsUe.rnti
  · rw [if_pos hmem]
    exact ⟨s, rfl, h, ⟨le_rfl, fun _ ue hue _ => hue⟩, rfl, rfl⟩
  rw [if_neg hmem]
  have hnonzero : ∀ {ues : List SrsUe}, ues.map SrsUe.rnti = r :: s.ueMap.map SrsUe.rnti →
      ∀ ue ∈ ues, ue.rnti ≠ 0 := by
    intro ues hues ue hue
    have : ue.rnti ∈ r :: s.ueMap.map SrsUe.rnti := hues ▸ List.mem_map_of_mem hue
    rcases List.mem_cons.mp this with heq | hold
    · exact heq ▸ hr
    · obtain ⟨u, hu, heq⟩ := List.mem_map.mp hold
      exact heq ▸ h.nonzero u hu
  rcases s.schedulerSrs.addUe_cases with ⟨hnil, hadd⟩ | ⟨init, offset, hinit, hadd⟩
  · have hlength : s.ueMap.length = s.schedulerSrs.periodicity := by
      have := h.perm.length_eq
      rwa [hnil, List.append_nil, List.length_map, List.length_range] at this
    have hlt : s.schedulerSrs.periodicity < 2560 := by
      refine (standard_pos _ h.standard).2.resolve_right fun heq => ?_
      refine of_decide_eq_false hmax ⟨?_, hnil⟩
      rw [heq]
      rfl
    obtain ⟨t, h1, h2, h3, h4, h5, h6⟩ := increasePeriodicity_ok
      ({ rnti := r } :: s.ueMap) (congrArg Nat.succ hlength) hlt
    rw [hadd]
    dsimp only
    rw [h1]
    refine ⟨_, rfl, ⟨h3, h5, h6, ?_, hnonzero h4, h.counter⟩,
      ⟨h2.le, fun heq => absurd heq h2.ne'⟩, rfl, rfl⟩
    rw [h4]
    exact List.nodup_cons.mpr ⟨hmem, h.nodup⟩
  · rw [hadd]
    refine ⟨_, rfl, ⟨h.standard, ?_, fun ue hue => ?_, List.nodup_cons.mpr ⟨hmem, h.nodup⟩,
      hnonzero rfl, h.counter⟩, ⟨le_rfl, fun _ ue hue _ => List.mem_cons_of_mem _ hue⟩, rfl, rfl⟩
    · refine List.Perm.trans ?_ h.perm
      rw [hinit, ← List.append_assoc]
      exact (List.perm_append_singleton offset _).symm
    · obtain rfl | hue := List.mem_cons.mp hue
      · rfl
      · exact h.periodicity ue hue

theorem Inv.releaseUe (h : s.Inv) {r : ℕ} (hr : r ∈ s.ueMap.map SrsUe.rnti) :
    ∃ t, s.releaseUe r = .ok t ∧ t.Inv ∧ Keeps s t (.releaseUe r) ∧ t.log = s.log ∧
      t.srsSlotCounter = s.srsSlotCounter := by
  obtain ⟨ue', hue', hrnti⟩ := List.mem_map.mp hr
  obtain ⟨ue, hfind⟩ : ∃ ue, s.ueMap.find? (fun ue => ue.rnti = r) = some ue :=
    Option.isSome_iff_exists.mp (List.find?_isSome.mpr ⟨ue', hue', decide_eq_true hrnti⟩)
  have hmem : ue ∈ s.ueMap := List.mem_of_find?_eq_some hfind
  have hue : ue.rnti = r := of_decide_eq_true
    (List.find?_some (p := fun ue : SrsUe => decide (ue.rnti = r)) hfind)
  have hperm := List.perm_cons_erase hmem
  rw [SrsScheduler.releaseUe, hfind]
  refine ⟨_, rfl, ⟨h.standard, ?_, fun u hu => h.periodicity u (List.mem_of_mem_erase hu),
    (h.nodup.sublist (List.erase_sublist.map _)), fun u hu =>
      h.nonzero u (List.mem_of_mem_erase hu), h.counter⟩, ⟨le_rfl, fun _ u hu hne => ?_⟩, rfl, rfl⟩
  · refine List.Perm.trans ?_ h.perm
    refine List.Perm.trans ?_ (((hperm.map SrsUe.srsOffset).append_right _).symm)
    dsimp only [NrMacSchedulerSrsDefault.removeUe]
    rw [← List.append_assoc]
    exact List.perm_append_singleton ue.srsOffset _
  · refine (List.mem_erase_of_ne ?_).mpr hu
    rintro rfl
    exact hne (congrArg _ hue.symm)

/-! ### The slots -/

theorem foldl_of_ne {o : ℕ} : ∀ {l : List SrsUe} {r : ℕ}, (∀ ue ∈ l, ue.srsOffset ≠ o) →
    l.foldl (fun rnti ue => if ue.srsOffset = o then ue.rnti else rnti) r = r
  | [], _, _ => rfl
  | u :: l, r, h => by
      rw [List.foldl_cons, if_neg (h u List.mem_cons_self)]
      exact foldl_of_ne fun ue hue => h ue (List.mem_cons_of_mem u hue)

theorem foldl_of_mem {ue : SrsUe} : ∀ {l : List SrsUe} {r : ℕ}, (l.map SrsUe.srsOffset).Nodup →
    ue ∈ l → l.foldl (fun rnti u => if u.srsOffset = ue.srsOffset then u.rnti else rnti) r = ue.rnti
  | u :: l, r, hn, hue => by
      rw [List.map_cons, List.nodup_cons] at hn
      rw [List.foldl_cons]
      obtain rfl | hue := List.mem_cons.mp hue
      · rw [if_pos rfl]
        exact foldl_of_ne fun v hv e => hn.1 (e ▸ List.mem_map_of_mem hv)
      · exact foldl_of_mem hn.2 hue

/-- A UE transmits if the remainder of the counter is its offset. -/
theorem Inv.doScheduleSrs (h : s.Inv) (c : ℕ) : ∃ sent, s.doScheduleSrs c = .ok sent ∧
    ∀ ue ∈ s.ueMap, sent = some ue.rnti ↔ c % s.schedulerSrs.periodicity = ue.srsOffset := by
  have hues : ∀ ue ∈ s.ueMap,
      (s.ueMap.foldl (fun rnti u => if u.srsOffset = c % s.schedulerSrs.periodicity then u.rnti
        else rnti) 0 = ue.rnti ↔ c % s.schedulerSrs.periodicity = ue.srsOffset) := by
    intro ue hue
    constructor
    · intro heq
      by_contra hne
      by_cases hany : ∃ v ∈ s.ueMap, v.srsOffset = c % s.schedulerSrs.periodicity
      · obtain ⟨v, hv, hoffset⟩ := hany
        rw [← hoffset, foldl_of_mem h.nodup_offsets hv] at heq
        have hvue : v = ue := List.inj_on_of_nodup_map h.nodup hv hue heq
        exact hne (hvue ▸ hoffset.symm)
      · rw [foldl_of_ne fun v hv e => hany ⟨v, hv, e⟩] at heq
        exact h.nonzero ue hue heq.symm
    · intro heq
      rw [heq]
      exact foldl_of_mem h.nodup_offsets hue
  unfold SrsScheduler.doScheduleSrs
  cases hmap : s.ueMap with
  | nil => exact ⟨none, rfl, fun ue hue => absurd hue List.not_mem_nil⟩
  | cons u l =>
      have hperiodicity : u.srsPeriodicity = s.schedulerSrs.periodicity :=
        h.periodicity u (hmap ▸ List.mem_cons_self)
      have hpos := (standard_pos _ h.standard).1
      dsimp only
      rw [hperiodicity, if_neg hpos.ne', ← hmap]
      refine ⟨_, rfl, fun ue hue => ?_⟩
      rw [← hues ue hue]
      have hne := h.nonzero ue hue
      split
      · next hzero =>
          rw [hzero]
          exact iff_of_false (fun e => by cases e) hne.symm
      · exact Option.some_inj

/-- What a step adds to the log, and the slots it counts. -/
def Logged (s t : SrsScheduler) (ev : SrsEvent) : Prop :=
  ev ≠ .slot ∧ t.log = s.log ∧ t.srsSlotCounter = s.srsSlotCounter ∨
    ev = .slot ∧ t.srsSlotCounter = (s.srsSlotCounter + 1) % 2 ^ 32 ∧
      ∃ sent, t.log = s.log ++ [sent] ∧ ∀ ue ∈ s.ueMap,
        sent = some ue.rnti ↔ t.srsSlotCounter % s.schedulerSrs.periodicity = ue.srsOffset

/-- **Step lemma.** -/
theorem Inv.step (h : s.Inv) {ev : SrsEvent} (ha : s.Admissible ev) :
    ∃ t, s.step ev = .ok t ∧ t.Inv ∧ Keeps s t ev ∧ Logged s t ev := by
  cases ev with
  | configUe r =>
      obtain ⟨t, h1, h2, h3, h4⟩ := h.configUe ha.1 ha.2
      exact ⟨t, h1, h2, h3, .inl ⟨SrsEvent.noConfusion, h4⟩⟩
  | releaseUe r =>
      obtain ⟨t, h1, h2, h3, h4⟩ := h.releaseUe ha
      exact ⟨t, h1, h2, h3, .inl ⟨SrsEvent.noConfusion, h4⟩⟩
  | shuffle offsets =>
      exact ⟨_, rfl, ⟨h.standard, (ha.append_left _).trans h.perm, h.periodicity, h.nodup,
        h.nonzero, h.counter⟩, ⟨le_rfl, fun _ ue hue _ => hue⟩, .inl ⟨SrsEvent.noConfusion, rfl, rfl⟩⟩
  | rehash ueMap =>
      refine ⟨_, rfl, ⟨h.standard, ((ha.map SrsUe.srsOffset).append_right _).trans h.perm,
        fun ue hue => h.periodicity ue (ha.mem_iff.mp hue), ?_,
        fun ue hue => h.nonzero ue (ha.mem_iff.mp hue), h.counter⟩,
        ⟨le_rfl, fun _ ue hue _ => ha.mem_iff.mpr hue⟩, .inl ⟨SrsEvent.noConfusion, rfl, rfl⟩⟩
      exact (ha.map SrsUe.rnti).nodup_iff.mpr h.nodup
  | slot =>
      obtain ⟨sent, h1, h2⟩ := h.doScheduleSrs ((s.srsSlotCounter + 1) % 2 ^ 32)
      refine ⟨{ s with
          srsSlotCounter := (s.srsSlotCounter + 1) % 2 ^ 32, log := s.log ++ [sent] }, ?_,
        ⟨h.standard, h.perm, h.periodicity, h.nodup, h.nonzero, Nat.mod_lt _ (by decide)⟩,
        ⟨le_rfl, fun _ ue hue _ => hue⟩, .inr ⟨rfl, rfl, sent, rfl, h2⟩⟩
      rw [SrsScheduler.step, h1]
      rfl

/-! ### Runs -/

/-- The offsets are shuffled, and no UE is there. -/
def start (periodicity : ℕ) (offsets : List ℕ) : SrsScheduler :=
  { schedulerSrs := ⟨periodicity, offsets⟩ }

theorem inv_start {p : ℕ} {offsets : List ℕ} (hp : p ∈ standardPeriodicity)
    (ho : offsets.Perm (List.range p)) : (start p offsets).Inv :=
  ⟨hp, ho, fun _ h => absurd h List.not_mem_nil, List.nodup_nil,
    fun _ h => absurd h List.not_mem_nil, Nat.two_pow_pos 32⟩

/-- **Run lemma.** -/
theorem run_inv {p : ℕ} {offsets : List ℕ} (hp : p ∈ standardPeriodicity)
    (ho : offsets.Perm (List.range p)) {evs : List SrsEvent}
    (h : Runs.Allowed step Admissible (start p offsets) evs) :
    ∃ s, Runs.run step (start p offsets) evs = .ok s ∧ s.Inv :=
  Runs.run_of_guard Inv (fun _ _ hs ha => by
    obtain ⟨t, h1, h2, -⟩ := hs.step ha
    exact ⟨t, h1, h2⟩) (inv_start hp ho) h

/-- **The offsets are different.** No run fails an assertion when the RRC asks before a UE comes.
All UEs share the periodicity, a standard one; their offsets and the ones that are left are the
numbers below it, each once. -/
theorem offsets_distinct (p : ℕ) (offsets : List ℕ) (hp : p ∈ standardPeriodicity)
    (ho : offsets.Perm (List.range p)) (evs : List SrsEvent)
    (h : Runs.Allowed step Admissible (start p offsets) evs) :
    ∃ s, Runs.run step (start p offsets) evs = .ok s ∧
      s.schedulerSrs.periodicity ∈ standardPeriodicity ∧
      (∀ ue ∈ s.ueMap, ue.srsPeriodicity = s.schedulerSrs.periodicity) ∧
      (s.ueMap.map SrsUe.srsOffset ++ s.schedulerSrs.availableOffsetValues).Perm
        (List.range s.schedulerSrs.periodicity) := by
  obtain ⟨s, hrun, hs⟩ := run_inv hp ho h
  exact ⟨s, hrun, hs.standard, hs.periodicity, hs.perm⟩

/-- Two UEs use up the offsets of the periodicity 2, and a third one comes. -/
def third : List SrsEvent :=
  [.configUe 1, .configUe 2, .slot, .slot, .configUe 3, .shuffle [0], .slot, .releaseUe 2, .slot,
    .rehash [⟨1, 4, 1⟩, ⟨3, 4, 3⟩]]

theorem offsets_distinct_third : ∃ s, Runs.run step (start 2 [1, 0]) third = .ok s ∧
    s.schedulerSrs.periodicity ∈ standardPeriodicity ∧
    (∀ ue ∈ s.ueMap, ue.srsPeriodicity = s.schedulerSrs.periodicity) ∧
    (s.ueMap.map SrsUe.srsOffset ++ s.schedulerSrs.availableOffsetValues).Perm
      (List.range s.schedulerSrs.periodicity) :=
  offsets_distinct 2 [1, 0] (by decide) (by decide) third (by decide +kernel)

theorem run_le : ∀ {l : List SrsEvent} {s t : SrsScheduler}, s.Inv →
    Runs.Allowed step Admissible s l → Runs.run step s l = .ok t →
    s.schedulerSrs.periodicity ≤ t.schedulerSrs.periodicity
  | [], s, t, _, _, h => by
      cases h
      exact le_rfl
  | ev :: l, s, t, hs, ha, h => by
      obtain ⟨u, h1, h2, h3, -⟩ := hs.step ha.1
      rw [Runs.run_cons_of_ok h1] at h
      exact h3.le.trans (run_le h2 (ha.2 u h1) h)

/-- The slots in which a UE transmits, while the periodicity stays and the UE is not released. -/
theorem run_log {ue : SrsUe} : ∀ {l : List SrsEvent} {s t : SrsScheduler} {c : ℕ}, s.Inv →
    SrsEvent.releaseUe ue.rnti ∉ l → Runs.Allowed step Admissible s l →
    Runs.run step s l = .ok t → ue ∈ s.ueMap → s.srsSlotCounter = c % 2 ^ 32 →
    t.schedulerSrs.periodicity = s.schedulerSrs.periodicity →
    ∃ sent, t.log = s.log ++ sent ∧ sent.count (some ue.rnti) =
      (List.range' (c + 1) (l.count .slot)).countP fun i =>
        i % 2 ^ 32 % s.schedulerSrs.periodicity = ue.srsOffset := by
  intro l
  induction l with
  | nil =>
      intro s t c _ _ _ h _ _ _
      cases h
      exact ⟨[], (List.append_nil _).symm, rfl⟩
  | cons ev l ih =>
      intro s t c hs hstay ha h hue hc hp
      obtain ⟨hev, hnot⟩ := not_or.mp (mt List.mem_cons.mpr hstay)
      obtain ⟨u, h1, h2, h3, h4⟩ := hs.step ha.1
      rw [Runs.run_cons_of_ok h1] at h
      have hpu : u.schedulerSrs.periodicity = s.schedulerSrs.periodicity :=
        le_antisymm (hp ▸ run_le h2 (ha.2 u h1) h) h3.le
      have hueu : ue ∈ u.ueMap := h3.mem hpu ue hue (Ne.symm hev)
      rcases h4 with ⟨hne, hlog, hcounter⟩ | ⟨rfl, hcounter, e, hlog, he⟩
      · obtain ⟨sent, k1, k2⟩ := ih h2 hnot (ha.2 u h1) h hueu (hcounter.trans hc)
          (hp.trans hpu.symm)
        rw [hpu] at k2
        refine ⟨sent, k1.trans (by rw [hlog]), ?_⟩
        rw [List.count_cons_of_ne hne]
        exact k2
      · have hc' : u.srsSlotCounter = (c + 1) % 2 ^ 32 := by
          rw [hcounter, hc]
          omega
        obtain ⟨sent, k1, k2⟩ := ih h2 hnot (ha.2 u h1) h hueu hc' (hp.trans hpu.symm)
        rw [hpu] at k2
        refine ⟨e :: sent, k1.trans (by rw [hlog, List.append_assoc]; rfl), ?_⟩
        have hhead := he ue hue
        rw [hc'] at hhead
        rw [List.count_cons_self, List.range'_succ, List.countP_cons, List.count_cons, k2]
        simp only [beq_iff_eq, hhead, decide_eq_true_eq]

theorem countP_mod {p o : ℕ} (ho : o < p) (c : ℕ) :
    (List.range' c p).countP (fun i => i % p = o) = 1 := by
  have hcount := Nat.filter_multiset_Ico_card_eq_of_periodic c p (fun i => i % p = o)
    fun i => by simp only [Nat.add_mod_right]
  have hone : p.count (fun i => i % p = o) = 1 := by
    rw [Nat.count_eq_card_filter_range, Finset.card_eq_one]
    refine ⟨o, Finset.ext fun i => ?_⟩
    rw [Finset.mem_filter, Finset.mem_range, Finset.mem_singleton]
    constructor
    · rintro ⟨hi, hmod⟩
      rwa [Nat.mod_eq_of_lt hi] at hmod
    · rintro rfl
      exact ⟨ho, Nat.mod_eq_of_lt ho⟩
  rw [show Multiset.Ico c (c + p) = (List.range' c (c + p - c) : Multiset ℕ) from rfl,
    Nat.add_sub_cancel_left, Multiset.filter_coe, Multiset.coe_card, hone] at hcount
  rw [List.countP_eq_length_filter]
  exact hcount

/-- **Once in a period.** While the periodicity stays and a UE is not released, the UE transmits
once in as many slots as the periodicity, whatever UEs come and go, unless the counter wraps around
and the periodicity is no power of two. -/
theorem once_per_period (p : ℕ) (offsets : List ℕ) (hp : p ∈ standardPeriodicity)
    (ho : offsets.Perm (List.range p)) (evs l : List SrsEvent) (s t : SrsScheduler) (ue : SrsUe)
    (h : Runs.Allowed step Admissible (start p offsets) evs)
    (hs : Runs.run step (start p offsets) evs = .ok s) (hl : Runs.Allowed step Admissible s l)
    (ht : Runs.run step s l = .ok t) (hue : ue ∈ s.ueMap)
    (hstay : SrsEvent.releaseUe ue.rnti ∉ l)
    (hsame : t.schedulerSrs.periodicity = s.schedulerSrs.periodicity)
    (hslots : l.count .slot = s.schedulerSrs.periodicity)
    (hwrap : s.srsSlotCounter + s.schedulerSrs.periodicity < 2 ^ 32 ∨
      s.schedulerSrs.periodicity ∣ 2 ^ 32) :
    ∃ sent, t.log = s.log ++ sent ∧ sent.count (some ue.rnti) = 1 := by
  obtain ⟨s', hs', hinv⟩ := run_inv hp ho h
  obtain rfl : s' = s := Except.ok.inj (hs'.symm.trans hs)
  obtain ⟨sent, h1, h2⟩ := run_log hinv hstay hl ht hue (Nat.mod_eq_of_lt hinv.counter).symm hsame
  have hoffset : ue.srsOffset < s'.schedulerSrs.periodicity := by
    rw [← List.mem_range, ← hinv.perm.mem_iff]
    exact List.mem_append_left _ (List.mem_map_of_mem hue)
  refine ⟨sent, h1, ?_⟩
  rw [h2, hslots]
  refine (List.countP_congr fun i hi => ?_).trans (countP_mod hoffset (s'.srsSlotCounter + 1))
  have hlt := (List.mem_range'_1.mp hi).2
  rcases hwrap with hsmall | hdvd
  · rw [Nat.mod_eq_of_lt (by omega : i < 2 ^ 32)]
  · rw [Nat.mod_mod_of_dvd _ hdvd]

/-- Four slots, in which UE 2 leaves and UE 4 comes. -/
def period : List SrsEvent :=
  [.slot, .releaseUe 2, .slot, .configUe 4, .slot, .shuffle [0], .slot]

theorem once_per_period_third : ∃ s t, Runs.run step (start 2 [1, 0]) [.configUe 1, .configUe 2,
    .configUe 3] = .ok s ∧ Runs.run step s period = .ok t ∧
    ∃ sent, t.log = s.log ++ sent ∧ sent.count (some 1) = 1 :=
  ⟨⟨⟨4, [0]⟩, [⟨3, 4, 3⟩, ⟨2, 4, 2⟩, ⟨1, 4, 1⟩], 0, []⟩,
    ⟨⟨4, [0]⟩, [⟨4, 4, 2⟩, ⟨3, 4, 3⟩, ⟨1, 4, 1⟩], 4, [some 1, none, some 3, none]⟩, rfl, rfl,
    once_per_period 2 [1, 0] (by decide) (by decide) [.configUe 1, .configUe 2, .configUe 3]
      period _ _ ⟨1, 4, 1⟩ (by decide +kernel) rfl (by decide +kernel) rfl (by decide)
      (by decide) rfl rfl (.inl (by decide))⟩

end SrsScheduler

end Rbis
