import Mathlib.Data.Finset.Max
import Rbis.Lib.Runs
import Rbis.Sched.ReportedSet

/-! # The age of a throughput

A throughput tracer writes what its UE received every `interval` nanoseconds, first after one
interval; the first `MakeRestRequest` comes one nanosecond and one `reconfigPeriod` after the
start, the next ones a period after the one before.  `MakeRestRequest` reads the throughputs for
the reward and then overwrites them with -1.

A request reads for every UE a throughput written since the request before it, in all runs,
exactly if the interval is at most the period and every UE has a tracer (`fresh_iff`). -/

namespace Rbis

open Cxx Finset

/-- A simulation with tracers for some of its UEs.  Times are in nanoseconds. -/
structure Timing where
  scheduler : Scheduler
  interval : ℕ
  interval_pos : 0 < interval
  reconfigPeriod : ℕ
  /-- The smallest value the attribute takes. -/
  reconfigPeriod_ge : 100000000 ≤ reconfigPeriod
  ueNum : ℕ
  tracers : Finset ℕ
  tracers_lt : ∀ u ∈ tracers, u < ueNum

/-- The simulation, with the next event of every tracer and the next request. -/
structure Timed where
  world : World
  now : ℕ := 0
  /-- `m_rxBytes` of the tracers. -/
  rxBytes : ℕ → ℕ := fun _ => 0
  tracerDue : ℕ → ℕ
  requestDue : Option ℕ
  /-- The throughputs written since the last reset. -/
  written : ℕ → Option ℚ := fun _ => none

inductive TimedOp where
  /-- `RxTrace`. -/
  | rxTrace (u size : ℕ)
  /-- `UpdateThroughput`. -/
  | updateThroughput (u : ℕ)
  /-- A slot reports to the interface. -/
  | report (time : ℕ) (op : ItfOp)
  /-- `MakeRestRequest`. -/
  | request (post : RestReport → PostResult)

namespace Timed

variable (T : Timing)

def start (world : World) : Timed where
  world := { world with drlItf := {} }
  tracerDue := fun _ => T.interval
  requestDue := some (T.reconfigPeriod + 1)

def updateThroughput (u : ℕ) (s : Timed) : Timed :=
  let thput : ℚ := (s.rxBytes u : ℚ) * 8 / ((T.interval : ℚ) / 1000000000)
  { s with
    world := { s.world with drlItf := s.world.drlItf.updateMetricsThput u thput }
    now := s.tracerDue u
    rxBytes := Function.update s.rxBytes u 0
    tracerDue := Function.update s.tracerDue u (s.tracerDue u + T.interval)
    written := Function.update s.written u (some thput) }

/-- A request resets the interface exactly if it schedules the next one. -/
def request (post : RestReport → PostResult) (due : ℕ) (s : Timed) : Timed :=
  match T.scheduler.makeRestRequest ((due : ℚ) / 1000000000) post s.world with
  | .ok (world, []) => { s with world, now := due, requestDue := none }
  | .ok (world, _ :: _) =>
      { s with world, now := due, requestDue := some (due + T.reconfigPeriod),
               written := fun _ => none }
  | .error _ => { s with now := due, requestDue := none }

def step (s : Timed) : TimedOp → Timed
  | .rxTrace u size => { s with rxBytes := Function.update s.rxBytes u (s.rxBytes u + size) }
  | .updateThroughput u => s.updateThroughput T u
  | .report time op =>
      { s with world := { s.world with drlItf := op.apply s.world.drlItf }, now := time }
  | .request post =>
      match s.requestDue with
      | some due => s.request T post due
      | none => s

/-- The request is the next event.  Of two events at one time the one that was scheduled first
comes first, which is the one with the longer period. -/
def Ready (s : Timed) : Prop :=
  ∃ due, s.requestDue = some due ∧ ∀ u ∈ T.tracers,
    due ≤ s.tracerDue u ∧ (s.tracerDue u = due → T.interval ≤ T.reconfigPeriod)

/-- The tracer has the next event. -/
def TracerNext (s : Timed) (u : ℕ) : Prop :=
  u ∈ T.tracers ∧ (∀ v ∈ T.tracers, s.tracerDue u ≤ s.tracerDue v) ∧
    ∀ due, s.requestDue = some due →
      s.tracerDue u ≤ due ∧ (s.tracerDue u = due → T.reconfigPeriod ≤ T.interval)

/-- The scheduler reports UEs of the simulation and their resource blocks; the throughputs come
from the tracers. -/
def Reportable : ItfOp → Prop
  | .updateState rnti _ _ _ _ => rnti ∈ firstKeys T.ueNum
  | .updateMetricsRbs rnti _ _ => rnti ∈ firstKeys T.ueNum
  | .updateMetricsThput _ _ => False

/-- What may happen next. -/
def Legal (s : Timed) : TimedOp → Prop
  | .rxTrace u _ => u ∈ T.tracers
  | .updateThroughput u => s.TracerNext T u
  | .report time op =>
      Reportable T op ∧ s.now ≤ time ∧ (∀ u ∈ T.tracers, time ≤ s.tracerDue u) ∧
        ∀ due, s.requestDue = some due → time ≤ due
  | .request _ => s.Ready T

/-- A calculated reward finds for every reported UE with a tracer the throughput written since
the last reset, and uses no -1 and no throughput written before it. -/
def Fresh (s : Timed) : TimedOp → Prop
  | .request _ =>
      (∀ u ∈ T.tracers, (u : ℤ) ∈ s.world.drlItf.reported →
        ∃ v, s.written u = some v ∧ s.world.drlItf.thput.get? u = some v) ∧
      ∀ i : ℕ, i < s.world.drlItf.getUEsNumber → s.world.drlItf.gfbr.getD i 0 ≠ 0 →
        s.world.drlItf.thput.getD i 0 ≠ -1 ∧
          ∀ v, s.world.drlItf.thput.get? i = some v → s.written i = some v
  | _ => True

/-! ### What every run keeps -/

/-- The events are due at multiples of the interval, and at the start plus multiples of the
period; the ghost is what the interface holds. -/
structure Clocked (s : Timed) : Prop where
  reported : s.world.drlItf.reported ⊆ firstKeys T.ueNum
  tracers : ∀ u ∈ T.tracers, T.interval ∣ s.tracerDue u ∧ s.now ≤ s.tracerDue u ∧
    s.tracerDue u ≤ s.now + T.interval
  request : ∀ due, s.requestDue = some due → s.now ≤ due ∧ due % T.reconfigPeriod = 1
  written : ∀ u v, s.written u = some v → s.world.drlItf.thput.get? u = some v ∧ 0 ≤ v

variable {T}

theorem clocked_start (w : World) : (start T w).Clocked T where
  reported := empty_subset _
  tracers := fun u _ => ⟨dvd_rfl, Nat.zero_le _, (Nat.zero_add _).ge⟩
  request := by
    intro due h
    have hge := T.reconfigPeriod_ge
    cases h
    refine ⟨Nat.zero_le _, ?_⟩
    rw [Nat.add_mod_left, Nat.mod_eq_of_lt (by omega)]
  written := fun u v h => by cases h

theorem request_cases (post : RestReport → PostResult) (due : ℕ) (s : Timed) :
    (s.request T post due).tracerDue = s.tracerDue ∧ (s.request T post due).now = due ∧
      ((s.request T post due).requestDue = none ∧
          (s.request T post due).written = s.written ∧
          ((s.request T post due).world.drlItf = s.world.drlItf.calculateReward ∨
            (s.request T post due).world.drlItf = s.world.drlItf) ∨
        (s.request T post due).requestDue = some (due + T.reconfigPeriod) ∧
          (s.request T post due).written = (fun _ => none) ∧
          (s.request T post due).world.drlItf = s.world.drlItf.calculateReward.reset) := by
  unfold request
  cases h : T.scheduler.makeRestRequest ((due : ℚ) / 1000000000) post s.world with
  | error f => exact ⟨rfl, rfl, Or.inl ⟨rfl, rfl, Or.inr rfl⟩⟩
  | ok r =>
      obtain ⟨w, es⟩ := r
      obtain ⟨_, _, ⟨rfl, hitf⟩ | ⟨rfl, hitf⟩⟩ := Scheduler.makeRestRequest_ok h
      · exact ⟨rfl, rfl, Or.inl ⟨rfl, rfl, Or.inl hitf⟩⟩
      · exact ⟨rfl, rfl, Or.inr ⟨rfl, rfl, hitf⟩⟩

theorem apply_reportable {op : ItfOp} (h : Reportable T op) (itf : Ns3DrlInterface) :
    (op.apply itf).thput = itf.thput ∧
      (itf.reported ⊆ firstKeys T.ueNum → (op.apply itf).reported ⊆ firstKeys T.ueNum) := by
  cases op with
  | updateState rnti s pos timeSlot t =>
      refine ⟨rfl, fun hsub => ?_⟩
      intro k hk
      obtain rfl | hk := mem_insert.mp hk
      · exact h
      · exact hsub hk
  | updateMetricsThput rnti thput => exact h.elim
  | updateMetricsRbs rnti rbs total => exact ⟨rfl, fun hsub => hsub⟩

theorem thput_nonneg (T : Timing) (bytes : ℕ) :
    0 ≤ (bytes : ℚ) * 8 / ((T.interval : ℚ) / 1000000000) := by positivity

theorem clocked_updateThroughput {s : Timed} (h : s.Clocked T) {u : ℕ} (hu : s.TracerNext T u) :
    (s.updateThroughput T u).Clocked T := by
  obtain ⟨hmem, hmin, hreq⟩ := hu
  obtain ⟨hdvd, hnow, hle⟩ := h.tracers u hmem
  refine ⟨h.reported, fun v hv => ?_, fun due hdue => ?_, fun v x hx => ?_⟩
  · obtain ⟨hdvd', hnow', hle'⟩ := h.tracers v hv
    have hmin' := hmin v hv
    by_cases e : v = u
    · subst e
      simp only [updateThroughput, Function.update_self]
      exact ⟨(Nat.dvd_add_right hdvd).mpr dvd_rfl, by omega, by omega⟩
    · simp only [updateThroughput, Function.update_of_ne e]
      exact ⟨hdvd', hmin', by omega⟩
  · exact ⟨(hreq due hdue).1, (h.request due hdue).2⟩
  · show (s.world.drlItf.thput.set (u : ℤ) _).get? v = some x ∧ _
    simp only [updateThroughput] at hx
    by_cases e : v = u
    · subst e
      rw [Function.update_self] at hx
      cases hx
      exact ⟨if_pos rfl, thput_nonneg T _⟩
    · rw [Function.update_of_ne e] at hx
      have hne : ¬ ((v : ℤ) = (u : ℤ)) := fun h' => e (Int.ofNat.inj h')
      obtain ⟨hx, hpos⟩ := h.written v x hx
      exact ⟨(if_neg hne).trans hx, hpos⟩

theorem clocked_request {s : Timed} (h : s.Clocked T) {due : ℕ} (hdue : s.requestDue = some due)
    (hr : ∀ u ∈ T.tracers, due ≤ s.tracerDue u) (post : RestReport → PostResult) :
    (s.request T post due).Clocked T := by
  obtain ⟨hnow, hmod⟩ := h.request due hdue
  obtain ⟨htr, hn, hcase⟩ := request_cases (T := T) post due s
  have htracers : ∀ u ∈ T.tracers, T.interval ∣ (s.request T post due).tracerDue u ∧
      (s.request T post due).now ≤ (s.request T post due).tracerDue u ∧
      (s.request T post due).tracerDue u ≤ (s.request T post due).now + T.interval := by
    intro u hu
    obtain ⟨hdvd, _, hle⟩ := h.tracers u hu
    rw [htr, hn]
    exact ⟨hdvd, hr u hu, by omega⟩
  obtain ⟨hnone, hw, hitf⟩ | ⟨hnext, hw, hitf⟩ := hcase
  · refine ⟨?_, htracers, fun d hd => ?_, fun u v hv => ?_⟩
    · obtain e | e := hitf
      · rw [e, Ns3DrlInterface.reported_calculateReward]
        exact h.reported
      · rw [e]
        exact h.reported
    · rw [hnone] at hd
      cases hd
    · rw [hw] at hv
      obtain ⟨hv, hpos⟩ := h.written u v hv
      obtain e | e := hitf
      · rw [e]
        exact ⟨Ns3DrlInterface.get?_thput_calculateReward hv, hpos⟩
      · rw [e]
        exact ⟨hv, hpos⟩
  · refine ⟨?_, htracers, fun d hd => ?_, fun u v hv => ?_⟩
    · rw [hitf]
      exact empty_subset _
    · rw [hnext] at hd
      cases hd
      rw [hn, Nat.add_mod_right]
      exact ⟨by omega, hmod⟩
    · rw [hw] at hv
      cases hv

/-- **Step lemma.** Every legal step keeps the clock. -/
theorem clocked_step {s : Timed} (h : s.Clocked T) {op : TimedOp} (hl : s.Legal T op) :
    (s.step T op).Clocked T := by
  cases op with
  | rxTrace u size => exact ⟨h.reported, h.tracers, h.request, h.written⟩
  | updateThroughput u => exact clocked_updateThroughput h hl
  | report time op =>
      obtain ⟨hop, hnow, htr, hreq⟩ := hl
      obtain ⟨hthput, hrep⟩ := apply_reportable hop s.world.drlItf
      refine ⟨hrep h.reported, fun u hu => ?_, fun due hdue => ?_, fun u v hv => ?_⟩
      · obtain ⟨hdvd, _, hle⟩ := h.tracers u hu
        exact ⟨hdvd, htr u hu, hle.trans (Nat.add_le_add_right hnow _)⟩
      · exact ⟨hreq due hdue, (h.request due hdue).2⟩
      · show (op.apply s.world.drlItf).thput.get? u = some v ∧ 0 ≤ v
        rw [hthput]
        exact h.written u v hv
  | request post =>
      obtain ⟨due, hdue, hr⟩ := hl
      simp only [step, hdue]
      exact clocked_request h hdue (fun u hu => (hr u hu).1) post

/-! ### Tracers that are fast enough -/

/-- Every tracer has written since the last reset, or does so before the next request. -/
def Timely (T : Timing) (s : Timed) : Prop :=
  ∀ due, s.requestDue = some due → ∀ u ∈ T.tracers, s.written u ≠ none ∨ s.tracerDue u < due

theorem timely_start (h : T.interval ≤ T.reconfigPeriod) (w : World) : (start T w).Timely T := by
  intro due hdue u _
  cases hdue
  exact Or.inr (Nat.lt_succ_of_le h)

/-- After a reset, every tracer is due before the next request. -/
theorem timely_request (hle : T.interval ≤ T.reconfigPeriod) {s : Timed} (h : s.Clocked T)
    {due : ℕ} (hdue : s.requestDue = some due) (post : RestReport → PostResult) :
    (s.request T post due).Timely T := by
  obtain ⟨hnow, hmod⟩ := h.request due hdue
  obtain ⟨htr, _, hcase⟩ := request_cases (T := T) post due s
  intro due' hdue' u hu
  obtain ⟨hnone, _⟩ | ⟨hnext, _⟩ := hcase
  · rw [hnone] at hdue'
    cases hdue'
  · rw [hnext] at hdue'
    cases hdue'
    obtain ⟨hdvd, _, hle'⟩ := h.tracers u hu
    refine Or.inr ?_
    rw [htr]
    have hge := T.reconfigPeriod_ge
    by_contra hnot
    have heq : T.interval = T.reconfigPeriod := by omega
    have hdue0 : s.tracerDue u = due + T.reconfigPeriod := by omega
    have hzero := Nat.mod_eq_zero_of_dvd hdvd
    rw [hdue0, heq, Nat.add_mod_right, hmod] at hzero
    omega

theorem timely_step (hle : T.interval ≤ T.reconfigPeriod) {s : Timed} (hc : s.Clocked T)
    (h : s.Timely T) {op : TimedOp} (hl : s.Legal T op) : (s.step T op).Timely T := by
  cases op with
  | rxTrace u size => exact h
  | updateThroughput u =>
      intro due hdue v hv
      show Function.update s.written u _ v ≠ none ∨ Function.update s.tracerDue u _ v < due
      by_cases e : v = u
      · rw [e, Function.update_self]
        exact Or.inl (Option.some_ne_none _)
      · rw [Function.update_of_ne e, Function.update_of_ne e]
        exact h due hdue v hv
  | report time op => exact h
  | request post =>
      obtain ⟨due, hdue, _⟩ := hl
      simp only [step, hdue]
      exact timely_request hle hc hdue post

/-- **Fresh.** A request of a run with fast tracers for all UEs. -/
theorem fresh_of_timely (hall : ∀ u < T.ueNum, u ∈ T.tracers) {s : Timed} (hc : s.Clocked T)
    (h : s.Timely T) {op : TimedOp} (hl : s.Legal T op) : s.Fresh T op := by
  cases op with
  | request post =>
      obtain ⟨due, hdue, hr⟩ := hl
      have hwritten : ∀ u ∈ T.tracers, ∃ v, s.written u = some v ∧
          s.world.drlItf.thput.get? u = some v ∧ 0 ≤ v := by
        intro u hu
        obtain hne | hlt := h due hdue u hu
        · obtain ⟨v, hv⟩ := Option.ne_none_iff_exists'.mp hne
          exact ⟨v, hv, hc.written u v hv⟩
        · have := (hr u hu).1
          omega
      refine ⟨fun u hu _ => ?_, fun i hi _ => ?_⟩
      · obtain ⟨v, hv, hget, _⟩ := hwritten u hu
        exact ⟨v, hv, hget⟩
      · have hcard := card_le_card hc.reported
        rw [card_firstKeys, ← Ns3DrlInterface.getUEsNumber_eq_card] at hcard
        obtain ⟨v, hv, hget, hpos⟩ := hwritten i (hall i (by omega))
        refine ⟨?_, fun v' hv' => ?_⟩
        · unfold UMap.getD
          rw [hget, Option.getD_some]
          linarith
        · rw [hv, ← hget, hv']
  | _ => trivial

/-! ### Runs that read a stale throughput -/

theorem run_reports (T : Timing) (now : ℕ) : ∀ (ops : List ItfOp) (s : Timed),
    (∀ op ∈ ops, Reportable T op) → s.now = now → (∀ u ∈ T.tracers, now ≤ s.tracerDue u) →
    (∀ due, s.requestDue = some due → now ≤ due) →
    Runs.AllSteps (step T) (Legal T) s (ops.map (.report now)) ∧
      Runs.exec (step T) s (ops.map (.report now)) =
        { s with world := { s.world with drlItf := Runs.exec ItfOp.apply s.world.drlItf ops } }
  | [], _, _, _, _, _ => ⟨trivial, rfl⟩
  | op :: ops, s, hops, hnow, htr, hreq => by
      have ih := run_reports T now ops (s.step T (.report now op))
        (fun o ho => hops o (List.mem_cons_of_mem op ho)) rfl htr hreq
      obtain ⟨h1, h2⟩ := ih
      rw [List.map_cons, Runs.exec_cons]
      refine ⟨⟨⟨hops op List.mem_cons_self, hnow.le, htr, hreq⟩, h1⟩, ?_⟩
      rw [h2, ← hnow]
      rfl

/-- Every UE is reported once, with a GFBR. -/
def reportAll (n : ℕ) : List ItfOp :=
  updateOnce ⟨0, 0, 0, 1⟩ ((List.range n).map fun i : ℕ => (i : ℤ))

theorem reportable_reportAll {op : ItfOp} (h : op ∈ reportAll T.ueNum) : Reportable T op := by
  obtain ⟨k, hk, rfl⟩ := List.mem_map.mp h
  obtain ⟨i, hi, rfl⟩ := List.mem_map.mp hk
  exact mem_image_of_mem _ (mem_range.mpr (List.mem_range.mp hi))

theorem thput_exec {ops : List ItfOp} (hops : ∀ op ∈ ops, Reportable T op)
    (itf : Ns3DrlInterface) : (Runs.exec ItfOp.apply itf ops).thput = itf.thput := by
  induction ops generalizing itf with
  | nil => rfl
  | cons op ops ih =>
      rw [Runs.exec_cons, ih fun o ho => hops o (List.mem_cons_of_mem op ho)]
      exact (apply_reportable (hops op List.mem_cons_self) itf).1

/-- All UEs of the simulation are reported, with a GFBR of one. -/
structure AllReported (T : Timing) (itf : Ns3DrlInterface) : Prop where
  reported : itf.reported = firstKeys T.ueNum
  gfbr : ∀ i < T.ueNum, itf.gfbr.getD (i : ℤ) 0 = 1

theorem allReported_exec (itf : Ns3DrlInterface) :
    AllReported T (Runs.exec ItfOp.apply itf.reset (reportAll T.ueNum)) := by
  have hkeys : updatedKeys (reportAll T.ueNum) = firstKeys T.ueNum := by
    unfold reportAll
    rw [updatedKeys_updateOnce]
    ext k
    simp [firstKeys]
  refine ⟨?_, fun i hi => ?_⟩
  · rw [Ns3DrlInterface.reported_exec, hkeys, Ns3DrlInterface.reported_reset, empty_union]
  · have hmem : (i : ℤ) ∈ firstKeys T.ueNum := mem_image_of_mem _ (mem_range.mpr hi)
    have hagg := Ns3DrlInterface.aggregateAt_updated itf (hkeys ▸ hmem)
    have hs : samplesOf (i : ℤ) (reportAll T.ueNum) = [⟨0, 0, 0, 1⟩] := by
      apply samplesOf_updateOnce
      · exact List.nodup_range.map Nat.cast_injective
      · exact List.mem_map_of_mem (List.mem_range.mpr hi)
    rw [hs] at hagg
    refine (congrArg Aggregate.gfbr hagg).trans ?_
    decide +kernel

variable {s₀ : Timed}

theorem exists_reported {s : Timed} (hr : Runs.Reachable (step T) (Legal T) s₀ s)
    (hc : s.Clocked T) (itf : Ns3DrlInterface) (hitf : s.world.drlItf = itf.reset) :
    ∃ s', Runs.Reachable (step T) (Legal T) s₀ s' ∧ AllReported T s'.world.drlItf ∧
      s'.requestDue = s.requestDue ∧ s'.tracerDue = s.tracerDue ∧ s'.written = s.written ∧
        s'.world.drlItf.thput = s.world.drlItf.thput := by
  obtain ⟨h1, h2⟩ := run_reports T s.now (reportAll T.ueNum) s
    (fun _ ho => reportable_reportAll ho) rfl (fun u hu => (hc.tracers u hu).2.1)
    (fun due hdue => (hc.request due hdue).1)
  refine ⟨_, hr.run h1, ?_⟩
  rw [h2]
  refine ⟨?_, rfl, rfl, rfl, thput_exec (fun _ ho => reportable_reportAll ho) _⟩
  show AllReported T (Runs.exec ItfOp.apply s.world.drlItf (reportAll T.ueNum))
  rw [hitf]
  exact allReported_exec itf

theorem exists_tracerNext {s : Timed} {due : ℕ} (hdue : s.requestDue = some due)
    (hn : ¬ s.Ready T) : ∃ u, s.TracerNext T u := by
  have hlate : ∃ v ∈ T.tracers, s.tracerDue v < due ∨
      s.tracerDue v = due ∧ T.reconfigPeriod < T.interval := by
    by_contra hc
    refine hn ⟨due, hdue, fun u hu => ?_⟩
    by_contra hnot
    apply hc
    refine ⟨u, hu, ?_⟩
    omega
  obtain ⟨v, hv, hvlate⟩ := hlate
  obtain ⟨u, hu, hmin⟩ := exists_min_image T.tracers s.tracerDue ⟨v, hv⟩
  refine ⟨u, hu, hmin, fun d hd => ?_⟩
  have hle := hmin v hv
  rw [hdue] at hd
  cases hd
  omega

/-- The tracers go on until the request is the next event; only their throughputs change. -/
theorem exists_ready {due : ℕ} : ∀ (n : ℕ) {s : Timed},
    Runs.Reachable (step T) (Legal T) s₀ s → s.requestDue = some due →
    ∑ u ∈ T.tracers, (due + 1 - s.tracerDue u) ≤ n →
    ∃ s', Runs.Reachable (step T) (Legal T) s₀ s' ∧ s'.Ready T ∧ s'.requestDue = some due ∧
      (AllReported T s.world.drlItf → AllReported T s'.world.drlItf) ∧
      ∀ k : ℤ, (∀ u ∈ T.tracers, k ≠ u) →
        s'.world.drlItf.thput.get? k = s.world.drlItf.thput.get? k := by
  intro n
  induction n with
  | zero =>
      intro s hr hdue hsum
      refine ⟨s, hr, ⟨due, hdue, fun u hu => ?_⟩, hdue, fun h => h, fun _ _ => rfl⟩
      have := sum_eq_zero_iff.mp (Nat.le_zero.mp hsum) u hu
      omega
  | succ n ih =>
      intro s hr hdue hsum
      by_cases hready : s.Ready T
      · exact ⟨s, hr, hready, hdue, fun h => h, fun _ _ => rfl⟩
      · obtain ⟨u, hu⟩ := exists_tracerNext hdue hready
        have hpos := T.interval_pos
        have hlt : ∑ v ∈ T.tracers, (due + 1 - (s.updateThroughput T u).tracerDue v) <
            ∑ v ∈ T.tracers, (due + 1 - s.tracerDue v) := by
          refine sum_lt_sum (fun v _ => ?_) ⟨u, hu.1, ?_⟩
          · by_cases e : v = u
            · simp only [updateThroughput, e, Function.update_self]
              omega
            · simp only [updateThroughput, Function.update_of_ne e]
              exact le_rfl
          · have hle := (hu.2.2 due hdue).1
            simp only [updateThroughput, Function.update_self]
            omega
        obtain ⟨s', h1, h2, h3, h4, h5⟩ := ih (s := s.step T (.updateThroughput u))
          (hr.tail hu) hdue (Nat.le_of_lt_succ (hlt.trans_le hsum))
        refine ⟨s', h1, h2, h3, fun h => h4 ⟨h.reported, h.gfbr⟩, fun k hk => ?_⟩
        rw [h5 k hk]
        exact if_neg (hk u hu.1)

theorem request_failed {s : Timed} (due : ℕ) (hrep : s.world.drlItf.reported ≠ ∅) :
    (s.request T (fun _ => .failed) due).requestDue = some (due + T.reconfigPeriod) := by
  have hok : ∃ w, T.scheduler.makeRestRequest ((due : ℚ) / 1000000000) (fun _ => .failed) s.world =
      .ok (w, [.makeRestRequest]) := by
    cases hx : T.scheduler.enableXApp with
    | false => exact ⟨_, Scheduler.makeRestRequest_disabled hx⟩
    | true => exact ⟨_, Scheduler.makeRestRequest_sent hx hrep⟩
  obtain ⟨w, hw⟩ := hok
  unfold request
  rw [hw]

theorem exists_next {s : Timed} (hr : Runs.Reachable (step T) (Legal T) s₀ s)
    (hready : s.Ready T) {due : ℕ} (hdue : s.requestDue = some due) (hn : 0 < T.ueNum)
    (hall : AllReported T s.world.drlItf) :
    ∃ s', Runs.Reachable (step T) (Legal T) s₀ s' ∧
      s'.requestDue = some (due + T.reconfigPeriod) ∧ s'.tracerDue = s.tracerDue ∧
      s'.written = (fun _ => none) ∧ s'.world.drlItf = s.world.drlItf.calculateReward.reset := by
  have hrep : s.world.drlItf.reported ≠ ∅ := by
    intro h
    have hcard := congrArg card (hall.reported.symm.trans h)
    rw [card_firstKeys, card_empty] at hcard
    omega
  have hreach := hr.tail (i := .request fun _ => .failed) hready
  obtain ⟨htr, _, hcase⟩ := request_cases (T := T) (fun _ => .failed) due s
  have hnext := request_failed (T := T) due hrep
  simp only [step, hdue] at hreach
  obtain ⟨hnone, _⟩ | ⟨h1, h2, h3⟩ := hcase
  · rw [hnone] at hnext
    cases hnext
  · exact ⟨_, hreach, h1, htr, h2, h3⟩

theorem clocked_of_reachable {w : World} {s : Timed}
    (h : Runs.Reachable (step T) (Legal T) (start T w) s) : s.Clocked T :=
  h.inv (fun s => s.Clocked T) (fun _ _ hc hl => clocked_step hc hl) (clocked_start w)

theorem exists_first (T : Timing) (w : World) :
    ∃ s, Runs.Reachable (step T) (Legal T) (start T w) s ∧ AllReported T s.world.drlItf ∧
      s.requestDue = some (T.reconfigPeriod + 1) ∧ s.tracerDue = (fun _ => T.interval) ∧
        s.written = (fun _ => none) := by
  obtain ⟨s, h1, h2, h3, h4, h5, _⟩ := exists_reported (Runs.Reachable.refl (start T w))
    (clocked_start w) {} rfl
  exact ⟨s, h1, h2, h3, h4, h5⟩

/-- A UE without a tracer is read as -1 in the second request. -/
theorem stale_of_untraced (T : Timing) (w : World) {u : ℕ} (hu : u < T.ueNum)
    (hnot : u ∉ T.tracers) : ∃ s, Runs.Reachable (step T) (Legal T) (start T w) s ∧
      ∃ op, s.Legal T op ∧ ¬ s.Fresh T op := by
  have hne : ∀ v ∈ T.tracers, (u : ℤ) ≠ v := by
    intro v hv e
    exact hnot (Int.ofNat.inj e ▸ hv)
  obtain ⟨s₁, hr₁, hall₁, hdue₁, _⟩ := exists_first T w
  obtain ⟨s₂, hr₂, hready₂, hdue₂, hall₂, _⟩ := exists_ready _ hr₁ hdue₁ le_rfl
  have hall₂ := hall₂ hall₁
  obtain ⟨s₃, hr₃, hdue₃, _, _, hitf₃⟩ := exists_next hr₂ hready₂ hdue₂ (by omega) hall₂
  obtain ⟨s₄, hr₄, hall₄, hdue₄, _, _, hth₄⟩ :=
    exists_reported hr₃ (clocked_of_reachable hr₃) _ hitf₃
  obtain ⟨s₅, hr₅, hready₅, _, hall₅, hth₅⟩ := exists_ready _ hr₄ (hdue₄.trans hdue₃) le_rfl
  have hall₅ := hall₅ hall₄
  refine ⟨s₅, hr₅, .request fun _ => .failed, hready₅, fun hfresh => ?_⟩
  have hcount : ∀ {itf : Ns3DrlInterface}, AllReported T itf → u < itf.getUEsNumber := by
    intro itf h
    rw [Ns3DrlInterface.getUEsNumber_eq_card, h.reported, card_firstKeys]
    exact hu
  obtain ⟨v, hv⟩ := Ns3DrlInterface.exists_thput_calculateReward (hcount hall₂)
    (by rw [hall₂.gfbr u hu]; exact one_ne_zero)
  have hmark : s₅.world.drlItf.thput.get? u = some (-1) := by
    rw [hth₅ u hne, hth₄, hitf₃]
    show (s₂.world.drlItf.calculateReward.thput.get? u).map _ = _
    rw [hv]
    rfl
  refine (hfresh.2 u (hcount hall₅) (by rw [hall₅.gfbr u hu]; exact one_ne_zero)).1 ?_
  unfold UMap.getD
  rw [hmark, Option.getD_some]

/-- A tracer with a longer interval than the period misses one of the first two requests. -/
theorem stale_of_slow (T : Timing) (w : World) (hlt : T.reconfigPeriod < T.interval)
    (h0 : 0 < T.ueNum) (hmem : 0 ∈ T.tracers) :
    ∃ s, Runs.Reachable (step T) (Legal T) (start T w) s ∧
      ∃ op, s.Legal T op ∧ ¬ s.Fresh T op := by
  have hstale : ∀ {s : Timed}, AllReported T s.world.drlItf → s.written = (fun _ => none) →
      ∀ post, ¬ s.Fresh T (.request post) := by
    intro s hall hw post hfresh
    have hrep : ((0 : ℕ) : ℤ) ∈ s.world.drlItf.reported := by
      rw [hall.reported]
      exact mem_image_of_mem _ (mem_range.mpr h0)
    obtain ⟨v, hv, _⟩ := hfresh.1 0 hmem hrep
    rw [hw] at hv
    cases hv
  obtain ⟨s₁, hr₁, hall₁, hdue₁, htr₁, hw₁⟩ := exists_first T w
  by_cases hone : T.interval = T.reconfigPeriod + 1
  · obtain ⟨s₂, hr₂, hready₂, hdue₂, hall₂, _⟩ := exists_ready _ hr₁ hdue₁ le_rfl
    have hall₂ := hall₂ hall₁
    have hc₂ := clocked_of_reachable hr₂
    obtain ⟨s₃, hr₃, hdue₃, htr₃, hw₃, hitf₃⟩ := exists_next hr₂ hready₂ hdue₂ h0 hall₂
    obtain ⟨s₄, hr₄, hall₄, hdue₄, htr₄, hw₄, _⟩ :=
      exists_reported hr₃ (clocked_of_reachable hr₃) _ hitf₃
    refine ⟨s₄, hr₄, .request fun _ => .failed, ⟨_, hdue₄.trans hdue₃, fun u hu => ?_⟩,
      hstale hall₄ (hw₄.trans hw₃) _⟩
    obtain ⟨due, hdue, hr⟩ := hready₂
    rw [hdue₂] at hdue
    cases hdue
    obtain ⟨hge, htie⟩ := hr u hu
    obtain ⟨m, hm⟩ := (hc₂.tracers u hu).1
    have hm2 : 2 ≤ m := by
      by_contra hlt2
      have : m = 0 ∨ m = 1 := by omega
      obtain rfl | rfl := this
      · omega
      · omega
    have hmul := Nat.mul_le_mul_left T.interval hm2
    rw [htr₄, htr₃]
    omega
  · refine ⟨s₁, hr₁, .request fun _ => .failed, ⟨_, hdue₁, fun u _ => ?_⟩, hstale hall₁ hw₁ _⟩
    simp only [htr₁]
    omega

end Timed

/-- **Throughput freshness.** In every run, every calculated reward reads fresh throughputs only,
exactly if the interval of the tracers is at most the period of the requests and every UE has a
tracer, or there is no UE. -/
theorem fresh_iff (T : Timing) (w : World) :
    (∀ ops, Runs.AllSteps (Timed.step T) (Timed.Legal T) (Timed.start T w) ops →
      Runs.AllSteps (Timed.step T) (Timed.Fresh T) (Timed.start T w) ops) ↔
      T.ueNum = 0 ∨ T.interval ≤ T.reconfigPeriod ∧ ∀ u < T.ueNum, u ∈ T.tracers := by
  rw [Runs.forall_allSteps_iff]
  constructor
  · intro h
    by_contra hc
    rw [not_or, not_and_or] at hc
    obtain ⟨hn, hbad⟩ := hc
    have hstale : ∃ s, Runs.Reachable (Timed.step T) (Timed.Legal T) (Timed.start T w) s ∧
        ∃ op, s.Legal T op ∧ ¬ s.Fresh T op := by
      by_cases hall : ∀ u < T.ueNum, u ∈ T.tracers
      · have hlt : ¬ T.interval ≤ T.reconfigPeriod := hbad.resolve_right fun h' => h' hall
        exact Timed.stale_of_slow T w (by omega) (by omega) (hall 0 (by omega))
      · simp only [not_forall] at hall
        obtain ⟨u, hu, hnot⟩ := hall
        exact Timed.stale_of_untraced T w hu hnot
    obtain ⟨s, hs, op, hl, hf⟩ := hstale
    exact hf (h s hs op hl)
  · intro hcond s hs op hl
    have hc := Timed.clocked_of_reachable hs
    obtain hn | ⟨hle, hall⟩ := hcond
    · have hfirst : firstKeys T.ueNum = ∅ := by
        rw [hn]
        rfl
      have hempty : s.world.drlItf.reported = ∅ := subset_empty.mp (hfirst ▸ hc.reported)
      cases op with
      | request post =>
          refine ⟨fun u hu _ => ?_, fun i hi _ => ?_⟩
          · have := T.tracers_lt u hu
            omega
          · rw [Ns3DrlInterface.getUEsNumber_eq_card, hempty, card_empty] at hi
            omega
      | _ => trivial
    · have htimely : s.Clocked T ∧ s.Timely T := by
        refine hs.inv (fun s => s.Clocked T ∧ s.Timely T) ?_
          ⟨Timed.clocked_start w, Timed.timely_start hle w⟩
        rintro s op ⟨hc, ht⟩ hl
        exact ⟨Timed.clocked_step hc hl, Timed.timely_step hle hc ht hl⟩
      exact Timed.fresh_of_timely hall htimely.1 htimely.2 hl

/-- Tracers every 2 s, requests every 1 s. -/
def Timing.slow : Timing where
  scheduler := .wideband [true]
  interval := 2000000000
  interval_pos := by decide
  reconfigPeriod := 1000000000
  reconfigPeriod_ge := by decide
  ueNum := 1
  tracers := {0}
  tracers_lt := by decide

/-- The UE is reported, and the first request comes before the first throughput. -/
theorem not_fresh_slow :
    Runs.AllSteps (Timed.step .slow) (Timed.Legal .slow) (Timed.start .slow (.fresh {} fun _ => 0))
        [.report 0 (.updateState 0 ⟨28, 0, 0, 1⟩ {} 1 1), .request fun _ => .failed] ∧
      ¬ Runs.AllSteps (Timed.step .slow) (Timed.Fresh .slow)
        (Timed.start .slow (.fresh {} fun _ => 0))
        [.report 0 (.updateState 0 ⟨28, 0, 0, 1⟩ {} 1 1), .request fun _ => .failed] := by
  constructor
  · refine ⟨⟨?_, le_rfl, fun _ _ => Nat.zero_le _, fun _ _ => Nat.zero_le _⟩,
      ⟨_, rfl, fun _ _ => ?_⟩, trivial⟩
    · show (0 : ℤ) ∈ firstKeys 1
      decide
    · show 1000000001 ≤ 2000000000 ∧ (2000000000 = 1000000001 → 2000000000 ≤ 1000000000)
      omega
  · rintro ⟨_, ⟨h, _⟩, _⟩
    obtain ⟨v, hv, _⟩ := h 0 (by decide) (by decide)
    cases hv

end Rbis
