import Rbis.Sched.ReportedSet

/-! # The velocity estimate

`UpdateState` estimates the velocity of a UE from its last two positions and keeps the average
of the estimates since the last reset.  For a UE in uniform motion the estimates are exact, but
the first one after a reset has no position before it and is zero: after `n` updates the
interface holds `(n - 1) / n` of the velocity (`tracks_exec`), which is the velocity itself only
if the UE does not move (`velocityExact_iff`). -/

namespace Rbis

open Cxx Runs

/-! ### Calls of the interface, across resets -/

inductive ItfCall where
  | op (o : ItfOp)
  | calculateReward
  | reset

namespace ItfCall

def apply (itf : Ns3DrlInterface) : ItfCall → Ns3DrlInterface
  | .op o => o.apply itf
  | .calculateReward => itf.calculateReward
  | .reset => itf.reset

/-- `UpdateState` for the UE with the key `k`. -/
def Updates (k : ℤ) (c : ItfCall) : Prop :=
  ∃ s pos timeSlot t, c = .op (.updateState k s pos timeSlot t)

end ItfCall

/-- `GetVelocity`. -/
def Ns3DrlInterface.getVelocity (itf : Ns3DrlInterface) (rnti : ℤ) : Vector3 :=
  itf.velocity.getD rnti {}

/-- The updates of one UE: their number since the last reset, and the time of the last one. -/
structure UpdateLog where
  inInterval : ℕ := 0
  last : Option ℚ := none

def UpdateLog.add (k : ℤ) (u : UpdateLog) : ItfCall → UpdateLog
  | .op (.updateState rnti _ _ _ t) => if rnti = k then ⟨u.inInterval + 1, some t⟩ else u
  | .reset => { u with inInterval := 0 }
  | _ => u

/-- The interface and the updates of the UE with the key `k` so far. -/
def watch (k : ℤ) (s : Ns3DrlInterface × UpdateLog) (c : ItfCall) : Ns3DrlInterface × UpdateLog :=
  (c.apply s.1, s.2.add k c)

/-! ### Uniform motion -/

/-- A motion with constant integer velocity. -/
structure Motion where
  start : Vector3
  vx : ℤ
  vy : ℤ
  vz : ℤ

namespace Motion

def position (m : Motion) (t : ℚ) : Vector3 :=
  ⟨m.start.x + m.vx * t, m.start.y + m.vy * t, m.start.z + m.vz * t⟩

def velocity (m : Motion) : Vector3 := ⟨m.vx, m.vy, m.vz⟩

/-- What is left of the velocity in an average of `n` estimates, the first of them zero. -/
def estimate (m : Motion) (n : ℕ) : Vector3 :=
  ⟨m.vx * ((n - 1) / n), m.vy * ((n - 1) / n), m.vz * ((n - 1) / n)⟩

/-- The call, when it updates the UE with the key `k`, reports its position on the motion, at
least one time slot after the update before. -/
def Reports (m : Motion) (k : ℤ) (u : UpdateLog) (c : ItfCall) : Prop :=
  ∀ s pos timeSlot t, c = .op (.updateState k s pos timeSlot t) →
    pos = m.position t ∧ 0 < timeSlot ∧ ∀ t₀ ∈ u.last, t₀ + timeSlot ≤ t

end Motion

/-- After the call, when it updates the UE a second time in its interval or later, the estimate
is the velocity. -/
def ExactAfter (k : ℤ) (m : Motion) (s : Ns3DrlInterface × UpdateLog) (c : ItfCall) : Prop :=
  c.Updates k → s.2.inInterval ≠ 0 → (watch k s c).1.getVelocity k = m.velocity

/-! ### One estimate -/

theorem stdRound_intCast (z : ℤ) : stdRound (z : ℚ) = z := by
  unfold stdRound
  split
  · rw [Int.floor_eq_iff]
    constructor
    · linarith
    · linarith
  · have h : ⌊-(z : ℚ) + 1 / 2⌋ = -z := by
      rw [Int.floor_eq_iff]
      push_cast
      constructor
      · linarith
      · linarith
    rw [h, neg_neg]

theorem abs_lt_of_stdRound_eq_zero {q : ℚ} (h : stdRound q = 0) : |q| < 1 / 2 := by
  unfold stdRound at h
  split at h
  · next hq =>
      have hlt := (Int.floor_eq_iff.mp h).2
      rw [abs_of_nonneg hq]
      norm_num at hlt
      linarith
  · next hq =>
      have hlt := (Int.floor_eq_iff.mp (neg_eq_zero.mp h)).2
      rw [abs_of_neg (not_le.mp hq)]
      norm_num at hlt
      linarith

theorem velocityOf_moving {start timeSlot t₀ t : ℚ} {v : ℤ} (hslot : 0 < timeSlot)
    (ht : t₀ + timeSlot ≤ t) :
    Ns3DrlInterface.velocityOf (start + v * t) (start + v * t₀) timeSlot (t - t₀) = v := by
  have hdiff : start + v * t - (start + v * t₀) = v * (t - t₀) := by ring
  have helapsed : t - t₀ ≠ 0 := by linarith
  unfold Ns3DrlInterface.velocityOf
  rw [hdiff, mul_div_assoc, mul_div_cancel_right₀ _ helapsed, stdRound_intCast]
  split
  · next h =>
      have habs := abs_lt_of_stdRound_eq_zero h
      have hone : 1 ≤ (t - t₀) / timeSlot := (one_le_div hslot).mpr (by linarith)
      rw [abs_mul, abs_of_pos (lt_of_lt_of_le one_pos hone)] at habs
      have hv : |(v : ℚ)| < 1 := by nlinarith [abs_nonneg (v : ℚ)]
      have hv' : |v| < 1 := by exact_mod_cast hv
      rw [Int.abs_lt_one_iff.mp hv', Int.cast_zero]
  · rfl

theorem velocityOf_self (pos timeSlot elapsed : ℚ) :
    Ns3DrlInterface.velocityOf pos pos timeSlot elapsed = 0 := by
  unfold Ns3DrlInterface.velocityOf
  rw [sub_self, zero_div, if_pos (by decide +kernel)]

theorem running_estimate (v : ℚ) {n : ℕ} (hn : n ≠ 0) :
    (v * ((n - 1) / n) * n + v) / (n + 1) = v * (((n + 1 : ℕ) - 1) / (n + 1 : ℕ)) := by
  have h : (n : ℚ) ≠ 0 := Nat.cast_ne_zero.mpr hn
  have h' : (n : ℚ) + 1 ≠ 0 := Nat.cast_add_one_ne_zero n
  push_cast
  field_simp
  ring

/-! ### The estimates of a run -/

/-- What the interface knows of the UE `k`, which moves as `m` says. -/
structure Tracks (k : ℤ) (m : Motion) (s : Ns3DrlInterface × UpdateLog) : Prop where
  count : s.1.count.getD k 0 = s.2.inInterval
  fresh : s.2.inInterval = 0 → (∀ d, s.1.prevPosition.getD k d = d) ∧ s.1.getVelocity k = {}
  known : s.2.inInterval ≠ 0 → ∃ t, s.2.last = some t ∧ s.1.tLastUpdate.getD k 0 = t ∧
    (∀ d, s.1.prevPosition.getD k d = m.position t) ∧
      s.1.getVelocity k = m.estimate s.2.inInterval

variable {k : ℤ} {m : Motion}

theorem tracks_init : Tracks k m ({}, {}) :=
  ⟨rfl, fun _ => ⟨fun _ => rfl, rfl⟩, fun h => absurd rfl h⟩

theorem Tracks.frame {itf itf' : Ns3DrlInterface} {u : UpdateLog} (h : Tracks k m (itf, u))
    (hcount : ∀ d, itf'.count.getD k d = itf.count.getD k d)
    (hprev : ∀ d, itf'.prevPosition.getD k d = itf.prevPosition.getD k d)
    (hvel : ∀ d, itf'.velocity.getD k d = itf.velocity.getD k d)
    (hlast : ∀ d, itf'.tLastUpdate.getD k d = itf.tLastUpdate.getD k d) :
    Tracks k m (itf', u) := by
  refine ⟨(hcount 0).trans h.count, fun h0 => ?_, fun h0 => ?_⟩
  · obtain ⟨h1, h2⟩ := h.fresh h0
    exact ⟨fun d => (hprev d).trans (h1 d), (hvel _).trans h2⟩
  · obtain ⟨t, h1, h2, h3, h4⟩ := h.known h0
    exact ⟨t, h1, (hlast 0).trans h2, fun d => (hprev d).trans (h3 d), (hvel _).trans h4⟩

/-- The estimate after an update of the UE. -/
theorem Tracks.getVelocity_updateState {itf : Ns3DrlInterface} {u : UpdateLog}
    (h : Tracks k m (itf, u)) {timeSlot t : ℚ} (hslot : 0 < timeSlot)
    (ht : ∀ t₀ ∈ u.last, t₀ + timeSlot ≤ t) (mcs q g gfbr : ℚ) :
    (itf.updateState k mcs q g gfbr (m.position t) timeSlot t).getVelocity k =
      m.estimate (u.inInterval + 1) := by
  unfold Ns3DrlInterface.updateState Ns3DrlInterface.getVelocity
  dsimp only
  have hcount : itf.count.getD k 0 = u.inInterval := h.count
  rw [UMap.getD_set, if_pos rfl, hcount]
  rcases Nat.eq_zero_or_pos u.inInterval with h0 | hpos
  · obtain ⟨hprev, hvel⟩ := h.fresh h0
    have hold : itf.velocity.getD k {} = {} := hvel
    rw [hprev, hold, h0]
    simp [velocityOf_self, Motion.estimate]
  · obtain ⟨t₀, hlast, htl, hprev, hvel⟩ := h.known hpos.ne'
    have hold : itf.velocity.getD k {} = m.estimate u.inInterval := hvel
    have hgap := ht t₀ hlast
    have hne : t ≠ t₀ := by
      rintro rfl
      linarith
    rw [hprev, hold, htl, if_neg hne]
    simp only [Motion.position, Motion.estimate, velocityOf_moving hslot hgap,
      running_estimate _ hpos.ne']

/-- **Step lemma.** -/
theorem tracks_watch {s : Ns3DrlInterface × UpdateLog} {c : ItfCall} (h : Tracks k m s)
    (hc : m.Reports k s.2 c) : Tracks k m (watch k s c) := by
  obtain ⟨itf, u⟩ := s
  cases c with
  | reset =>
      exact ⟨rfl, fun _ => ⟨fun _ => rfl, rfl⟩, fun h0 => absurd rfl h0⟩
  | calculateReward =>
      exact h.frame
        (fun d => Ns3DrlInterface.calculateReward_frame (f := fun itf => itf.count.getD k d)
          (fun _ _ _ _ _ _ => rfl) itf)
        (fun d => Ns3DrlInterface.calculateReward_frame (f := fun itf => itf.prevPosition.getD k d)
          (fun _ _ _ _ _ _ => rfl) itf)
        (fun d => Ns3DrlInterface.calculateReward_frame (f := fun itf => itf.velocity.getD k d)
          (fun _ _ _ _ _ _ => rfl) itf)
        (fun d => Ns3DrlInterface.calculateReward_frame (f := fun itf => itf.tLastUpdate.getD k d)
          (fun _ _ _ _ _ _ => rfl) itf)
  | op o =>
      cases o with
      | updateMetricsThput rnti thput =>
          exact h.frame (fun _ => rfl) (fun _ => rfl) (fun _ => rfl) fun _ => rfl
      | updateMetricsRbs rnti rbs totalRbs =>
          exact h.frame (fun _ => rfl) (fun _ => rfl) (fun _ => rfl) fun _ => rfl
      | updateState rnti s pos timeSlot t =>
          rcases eq_or_ne rnti k with rfl | hne
          · obtain ⟨rfl, hslot, hgap⟩ := hc s pos timeSlot t rfl
            have hlog : (watch rnti (itf, u) (.op (.updateState rnti s (m.position t) timeSlot t))).2 =
                ⟨u.inInterval + 1, some t⟩ := if_pos rfl
            have hvel := h.getVelocity_updateState hslot hgap s.mcs s.q s.g s.gfbr
            refine ⟨?_, fun h0 => ?_, fun _ => ⟨t, ?_, ?_, fun d => ?_, ?_⟩⟩
            · rw [hlog, ← h.count]
              exact (UMap.getD_set _ _ _ _ _).trans (if_pos rfl)
            · rw [hlog] at h0
              cases h0
            · rw [hlog]
            · exact (UMap.getD_set _ _ _ _ _).trans (if_pos rfl)
            · exact (UMap.getD_set _ _ _ _ _).trans (if_pos rfl)
            · rw [hlog]
              exact hvel
          · have hlog : (watch k (itf, u) (.op (.updateState rnti s pos timeSlot t))).2 = u :=
              if_neg hne
            have hframe : Tracks k m
                ((ItfCall.op (.updateState rnti s pos timeSlot t)).apply itf, u) :=
              h.frame
                (fun d => (UMap.getD_set _ _ _ _ d).trans (if_neg hne.symm))
                (fun d => (UMap.getD_set _ _ _ _ d).trans (if_neg hne.symm))
                (fun d => (UMap.getD_set _ _ _ _ d).trans (if_neg hne.symm))
                (fun d => (UMap.getD_set _ _ _ _ d).trans (if_neg hne.symm))
            rw [← hlog] at hframe
            exact hframe

/-- **Run lemma.** After every run in which the UE moves as `m` says, the interface holds the
estimate of `m` for the number of updates in the interval. -/
theorem tracks_exec {l : List ItfCall}
    (hl : AllSteps (watch k) (fun s c => m.Reports k s.2 c) ({}, {}) l) :
    Tracks k m (exec (watch k) ({}, {}) l) :=
  exec_of_guard (Tracks k m) (fun _ _ hs hc => tracks_watch hs hc) tracks_init hl

theorem Motion.estimate_eq_velocity_iff (m : Motion) {n : ℕ} (hn : n ≠ 0) :
    m.estimate n = m.velocity ↔ m.velocity = {} := by
  have h : (n : ℚ) ≠ 0 := Nat.cast_ne_zero.mpr hn
  have hcoord : ∀ v : ℚ, v * ((n - 1) / n) = v ↔ v = 0 := by
    intro v
    rw [sub_div, div_self h, mul_sub, mul_one, sub_eq_self, mul_eq_zero, one_div, inv_eq_zero]
    exact or_iff_left h
  simp only [estimate, velocity, Vector3.mk.injEq, hcoord]

/-- After one update. -/
theorem Tracks.exactAfter_iff {s : Ns3DrlInterface × UpdateLog} {c : ItfCall} (h : Tracks k m s)
    (hc : m.Reports k s.2 c) :
    ExactAfter k m s c ↔ m.velocity = {} ∨ (c.Updates k → s.2.inInterval = 0) := by
  have hvel : c.Updates k → (watch k s c).1.getVelocity k = m.estimate (s.2.inInterval + 1) := by
    rintro ⟨x, pos, timeSlot, t, rfl⟩
    obtain ⟨rfl, hslot, hgap⟩ := hc x pos timeSlot t rfl
    exact h.getVelocity_updateState hslot hgap x.mcs x.q x.g x.gfbr
  constructor
  · intro hexact
    by_cases hsecond : c.Updates k ∧ s.2.inInterval ≠ 0
    · left
      obtain ⟨hu, hne⟩ := hsecond
      exact (m.estimate_eq_velocity_iff (Nat.succ_ne_zero _)).mp
        ((hvel hu).symm.trans (hexact hu hne))
    · right
      intro hu
      by_contra hne
      exact hsecond ⟨hu, hne⟩
  · rintro (hzero | hfirst) hu hne
    · rw [hvel hu]
      exact (m.estimate_eq_velocity_iff (Nat.succ_ne_zero _)).mpr hzero
    · exact absurd (hfirst hu) hne

/-- **The velocity estimate** is exact throughout a run of a UE in uniform motion if and only if
the UE does not move, or has no second update in an interval. -/
theorem velocityExact_iff (k : ℤ) (m : Motion) (l : List ItfCall)
    (hl : AllSteps (watch k) (fun s c => m.Reports k s.2 c) ({}, {}) l) :
    AllSteps (watch k) (ExactAfter k m) ({}, {}) l ↔
      m.velocity = {} ∨
        AllSteps (watch k) (fun s c => c.Updates k → s.2.inInterval = 0) ({}, {}) l := by
  rw [allSteps_iff (Tracks k m) (fun _ _ hs hc => hs.exactAfter_iff hc)
    (fun _ _ hs hc _ => tracks_watch hs hc) tracks_init hl]
  constructor
  · intro h
    by_cases hzero : m.velocity = {}
    · exact Or.inl hzero
    · exact Or.inr (h.mono fun _ _ hstep => hstep.resolve_left hzero)
  · rintro (hzero | h)
    · exact allSteps_of_forall (fun _ _ => Or.inl hzero) _ _
    · exact h.mono fun _ _ => Or.inr

/-! ### A UE that moves one metre a second -/

def Motion.alongX : Motion := ⟨{}, 1, 0, 0⟩

/-- The update of the UE with the key 0, in slots of a second. -/
def Motion.report (m : Motion) (t : ℚ) : ItfCall :=
  .op (.updateState 0 ⟨0, 0, 0, 0⟩ (m.position t) 1 t)

theorem reports_report {m : Motion} {u : UpdateLog} {t : ℚ} (ht : ∀ t₀ ∈ u.last, t₀ + 1 ≤ t) :
    m.Reports 0 u (m.report t) := by
  rintro s pos timeSlot t' ⟨⟩
  exact ⟨rfl, one_pos, ht⟩

/-- The second update estimates half of the velocity. -/
theorem not_velocityExact_alongX : ¬ ∀ l : List ItfCall,
    AllSteps (watch 0) (fun s c => Motion.alongX.Reports 0 s.2 c) ({}, {}) l →
      AllSteps (watch 0) (ExactAfter 0 Motion.alongX) ({}, {}) l := by
  intro h
  have hfirst : Motion.alongX.Reports 0 {} (Motion.alongX.report 0) :=
    reports_report fun _ h => by cases h
  have hsecond : Motion.alongX.Reports 0 ⟨1, some 0⟩ (Motion.alongX.report 1) :=
    reports_report fun _ h => by
      cases h
      norm_num
  obtain ⟨_, hexact, _⟩ := h [Motion.alongX.report 0, Motion.alongX.report 1]
    ⟨hfirst, hsecond, trivial⟩
  have hx := congrArg Vector3.x (hexact ⟨_, _, _, _, rfl⟩ (by decide))
  exact absurd hx (by decide +kernel)

/-- Two updates, each the first one of its interval. -/
theorem velocityExact_alongX_reset : AllSteps (watch 0) (ExactAfter 0 Motion.alongX) ({}, {})
    [Motion.alongX.report 0, .reset, Motion.alongX.report 1] := by
  have hreports : AllSteps (watch 0) (fun s c => Motion.alongX.Reports 0 s.2 c) ({}, {})
      [Motion.alongX.report 0, .reset, Motion.alongX.report 1] := by
    refine ⟨reports_report fun _ h => ?_, ?_, reports_report fun _ h => ?_, trivial⟩
    · cases h
    · rintro s pos timeSlot t ⟨⟩
    · cases h
      norm_num
  refine (velocityExact_iff 0 Motion.alongX _ hreports).mpr (Or.inr ?_)
  refine ⟨fun _ => rfl, ?_, fun _ => rfl, trivial⟩
  rintro ⟨_, _, _, _, ⟨⟩⟩

end Rbis
