import Mathlib.Algebra.Order.BigOperators.Group.List
import Mathlib.Algebra.Order.Floor.Semifield
import Rbis.Sched.AssignDlRbg

/-! # The mean GFBR of a UE

`AssignDLRBG` and `UpdateDlTputVirtualQueue` contain the same loop over the active logical
channels.  The rates are 64 bits wide, the loop casts each of them to `unsigned` and adds them up
in 32 bits. -/

namespace Rbis

open Cxx

theorem foldl_add_mod {α : Type} (f : α → ℕ) (m : ℕ) (l : List α) (a : ℕ) (ha : a < m) :
    l.foldl (fun acc x => (acc + f x % m) % m) a = (a + (l.map f).sum) % m := by
  induction l generalizing a with
  | nil => rw [List.foldl_nil, List.map_nil, List.sum_nil, Nat.add_zero, Nat.mod_eq_of_lt ha]
  | cons x l ih =>
      rw [List.foldl_cons, ih _ (Nat.mod_lt _ (by omega)), List.map_cons, List.sum_cons,
        Nat.add_mod_mod, Nat.mod_add_mod, Nat.add_assoc]

theorem mod_div_eq_iff {t m n : ℕ} (hn : 0 < n) (hnm : n ≤ m) : t % m / n = t / n ↔ t < m := by
  constructor
  · intro h
    by_contra hge
    have hle : t % m + m ≤ t := by
      rw [Nat.mod_eq_sub_mod (not_lt.mp hge)]
      have := Nat.mod_le (t - m) m
      omega
    have hlt : t % m / n < t / n := by
      calc t % m / n < t % m / n + 1 := Nat.lt_succ_self _
        _ = (t % m + n) / n := (Nat.add_div_right _ hn).symm
        _ ≤ t / n := Nat.div_le_div_right (by omega)
    omega
  · intro h
    rw [Nat.mod_eq_of_lt h]

namespace UeInfo

/-- The guaranteed rates of the active channels. -/
def activeRates (u : UeInfo) : List ℕ := u.activeLCs.map NrMacSchedulerLC.eRabGuaranteedBitrateDl

/-- `avg_gfbr` in `AssignDLRBG`. -/
def reportedGfbr (u : UeInfo) : ℕ := u.gfbrSum / u.activeLCs.length

/-- `avg_gfbr` in `UpdateDlTputVirtualQueue`. -/
def queueGfbr (u : UeInfo) : ℕ :=
  if u.activeLCs.length = 0 then 0 else u.gfbrSum / u.activeLCs.length

theorem reportUe_eq (S : Scheduler) (now : ℚ) (itf : Ns3DrlInterface) (u : UeInfo) (buf : ℕ) :
    S.reportUe now itf u buf = itf.updateState u.itfKey u.dlMcs buf u.g u.reportedGfbr
      (S.getPosition u.rnti) S.slotPeriod now := rfl

theorem updateDlTputVirtualQueue_g (u : UeInfo) (timeSlot : ℚ) :
    (u.updateDlTputVirtualQueue timeSlot).g =
      max (u.g + (if u.queueGfbr ≠ 0 then (u.queueGfbr : ℚ) else u.gfbr) -
        u.dlTbSize * 8 / timeSlot) 0 := rfl

/-- The two maps of channels have keys of one byte. -/
structure ByteKeys (u : UeInfo) : Prop where
  groups : u.dlLCG.length ≤ 2 ^ 8
  channels : ∀ lcg ∈ u.dlLCG, lcg.length ≤ 2 ^ 8

/-- Both averages are the mean of the rates, rounded down. -/
structure MeanGfbr (u : UeInfo) : Prop where
  same : u.reportedGfbr = u.queueGfbr
  mean : u.reportedGfbr = ⌊(u.activeRates.sum : ℚ) / u.activeLCs.length⌋₊

variable {u : UeInfo}

theorem ByteKeys.length_le (h : u.ByteKeys) : u.activeLCs.length ≤ 2 ^ 32 := by
  have hgroup : ∀ lcg ∈ u.dlLCG, (getActiveLCs lcg).length ≤ 2 ^ 8 := fun lcg hl =>
    (List.length_filter_le _ lcg).trans (h.channels lcg hl)
  have hsum : (u.dlLCG.map fun lcg => (getActiveLCs lcg).length).sum ≤ u.dlLCG.length * 2 ^ 8 := by
    have hle := List.sum_le_card_nsmul (u.dlLCG.map fun lcg => (getActiveLCs lcg).length) (2 ^ 8)
      fun n hn => by
        obtain ⟨lcg, hl, rfl⟩ := List.mem_map.mp hn
        exact hgroup lcg hl
    simpa using hle
  unfold activeLCs
  rw [List.length_flatMap]
  have := h.groups
  omega

theorem gfbrSum_eq (u : UeInfo) : u.gfbrSum = u.activeRates.sum % 2 ^ 32 := by
  rw [gfbrSum, foldl_add_mod _ _ _ _ (by decide), Nat.zero_add]
  rfl

/-- **The mean GFBR.** The two averages are the mean exactly if the rates of the active channels
sum to less than `2 ^ 32`. -/
theorem meanGfbr_iff (hk : u.ByteKeys) (hne : u.activeLCs ≠ []) :
    u.MeanGfbr ↔ u.activeRates.sum < 2 ^ 32 := by
  have hpos : 0 < u.activeLCs.length := List.length_pos_iff.mpr hne
  have hsame : u.reportedGfbr = u.queueGfbr := by
    rw [queueGfbr, if_neg (by omega)]
    rfl
  have hmean : u.reportedGfbr = ⌊(u.activeRates.sum : ℚ) / u.activeLCs.length⌋₊ ↔
      u.activeRates.sum < 2 ^ 32 := by
    rw [Nat.floor_div_eq_div, reportedGfbr, gfbrSum_eq]
    exact mod_div_eq_iff hpos hk.length_le
  rw [← hmean]
  exact ⟨MeanGfbr.mean, fun h => ⟨hsame, h⟩⟩

end UeInfo

/-- A UE with one active channel of this rate. -/
def UeInfo.oneChannel (rate : ℕ) : UeInfo := { rnti := 1, dlLCG := [[⟨4, 100, 0, 0, rate⟩]] }

theorem UeInfo.byteKeys_oneChannel (rate : ℕ) : (UeInfo.oneChannel rate).ByteKeys :=
  ⟨Nat.le_of_ble_eq_true rfl, fun lcg h => by
    rw [List.mem_singleton.mp h]
    exact Nat.le_of_ble_eq_true rfl⟩

theorem UeInfo.meanGfbr_tenMegabit : (UeInfo.oneChannel 10000000).MeanGfbr :=
  (UeInfo.meanGfbr_iff (UeInfo.byteKeys_oneChannel _) (by decide)).mpr (by decide)

/-- A rate of 5 Gb/s is reported as one of 0.7 Gb/s. -/
theorem UeInfo.not_meanGfbr_fiveGigabit : ¬ (UeInfo.oneChannel 5000000000).MeanGfbr := by
  intro h
  have hreported : (UeInfo.oneChannel 5000000000).reportedGfbr = 705032704 := by decide
  have hmean := h.mean
  rw [hreported] at hmean
  simp [oneChannel, activeRates, activeLCs, getActiveLCs, NrMacSchedulerLC.getTotalSize] at hmean

end Rbis
