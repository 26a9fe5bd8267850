import Rbis.Lib.Average
import Rbis.Sched.DrlInterface

/-! # The reward

`CalculateReward` as a function of what the interface holds (`calculateReward_eq`): the average
of the throughput terms of the UEs `0, 1, ..., n - 1`, and, when this average is one, a bonus and
the share of the resource blocks left unused.  The entries its reads insert are no change for
any reader (`Reads`).

A state that meets every GFBR is rewarded more than any state that misses one, the former by the
resource blocks they save, the latter by their throughputs (`reward_ordering`). -/

namespace Rbis

open Cxx Finset

namespace Ns3DrlInterface

/-! ### What the loops compute -/

/-- The term of a UE: one without a GFBR, else the fraction of the GFBR it reached, at most
one. -/
def thputTerm (itf : Ns3DrlInterface) (i : ℕ) : ℚ :=
  if itf.gfbr.getD i 0 = 0 then 1
  else min 1 (1 - (itf.gfbr.getD i 0 - itf.thput.getD i 0) / itf.gfbr.getD i 0)

def thputSum (itf : Ns3DrlInterface) : ℚ := ∑ i ∈ range itf.getUEsNumber, itf.thputTerm i

/-- `rbs_used`. -/
def rbsUsed (itf : Ns3DrlInterface) : ℚ := ∑ i ∈ range itf.getUEsNumber, itf.rbs.getD i 0

/-- `m_reward`. -/
def rewardOf (itf : Ns3DrlInterface) : Dbl :=
  let avg := itf.thputSum / itf.getUEsNumber
  if itf.getUEsNumber = 0 then .undef
  else if avg = 1 then
    match itf.totalRbs with
    | .undef => .undef
    | .fin t =>
        if t = 0 then .undef
        else .fin (avg * (1 / 5) + 3 / 10 + (1 - itf.rbsUsed / (t * 1000)) * (1 / 2))
  else .fin (avg * (1 / 5))

/-- `b` is `a` up to entries with the default value, and the results of a calculation. -/
structure Reads (a b : Ns3DrlInterface) : Prop where
  mcs : b.mcs = a.mcs
  q : b.q = a.q
  g : b.g = a.g
  gfbr : ∀ k, b.gfbr.getD k 0 = a.gfbr.getD k 0
  thput : ∀ k, b.thput.getD k 0 = a.thput.getD k 0
  rbs : ∀ k, b.rbs.getD k 0 = a.rbs.getD k 0
  totalRbs : b.totalRbs = a.totalRbs

theorem Reads.refl (a : Ns3DrlInterface) : Reads a a :=
  ⟨rfl, rfl, rfl, fun _ => rfl, fun _ => rfl, fun _ => rfl, rfl⟩

variable {itf : Ns3DrlInterface}

theorem rewardThputOf_spec {acc : Ns3DrlInterface × ℚ} (h : Reads itf acc.1) (i : ℕ) :
    Reads itf (rewardThputOf acc i).1 ∧
      (rewardThputOf acc i).2 = acc.2 + itf.thputTerm i := by
  have hg : (acc.1.gfbr.touch (i : ℤ) 0).getD i 0 = itf.gfbr.getD i 0 := by
    rw [UMap.getD_touch, h.gfbr]
  have ht : (acc.1.thput.touch (i : ℤ) 0).getD i 0 = itf.thput.getD i 0 := by
    rw [UMap.getD_touch, h.thput]
  unfold rewardThputOf thputTerm
  dsimp only
  rw [hg, ht]
  split
  · refine ⟨⟨h.mcs, h.q, h.g, fun k => ?_, h.thput, h.rbs, h.totalRbs⟩, rfl⟩
    exact (UMap.getD_touch _ _ _ _).trans (h.gfbr k)
  · refine ⟨⟨h.mcs, h.q, h.g, fun k => ?_, fun k => ?_, h.rbs, h.totalRbs⟩, rfl⟩
    · exact (UMap.getD_touch _ _ _ _).trans (h.gfbr k)
    · exact (UMap.getD_touch _ _ _ _).trans (h.thput k)

theorem foldl_rewardThputOf (itf : Ns3DrlInterface) (n : ℕ) :
    Reads itf ((List.range n).foldl rewardThputOf (itf, 0)).1 ∧
      ((List.range n).foldl rewardThputOf (itf, 0)).2 = ∑ i ∈ range n, itf.thputTerm i := by
  induction n with
  | zero => exact ⟨Reads.refl itf, by simp⟩
  | succ n ih =>
      obtain ⟨h1, h2⟩ := rewardThputOf_spec ih.1 n
      rw [List.range_succ, List.foldl_append, List.foldl_cons, List.foldl_nil]
      refine ⟨h1, ?_⟩
      rw [h2, ih.2, sum_range_succ]

theorem foldl_rbsUsedOf {a : Ns3DrlInterface} (h : Reads itf a) (n : ℕ) :
    Reads itf ((List.range n).foldl rbsUsedOf (a, 0)).1 ∧
      ((List.range n).foldl rbsUsedOf (a, 0)).2 = ∑ i ∈ range n, itf.rbs.getD i 0 := by
  induction n with
  | zero => exact ⟨h, by simp⟩
  | succ n ih =>
      rw [List.range_succ, List.foldl_append, List.foldl_cons, List.foldl_nil]
      generalize (List.range n).foldl rbsUsedOf (a, 0) = acc at ih ⊢
      obtain ⟨h1, h2⟩ := ih
      refine ⟨⟨h1.mcs, h1.q, h1.g, h1.gfbr, h1.thput, fun k => ?_, h1.totalRbs⟩, ?_⟩
      · exact (UMap.getD_touch _ _ _ _).trans (h1.rbs k)
      · show acc.2 + acc.1.rbs.getD n 0 = _
        rw [h2, h1.rbs, sum_range_succ]

/-- **The calculation** leaves every reader what it read, and its results are those of the
sums. -/
theorem calculateReward_eq (itf : Ns3DrlInterface) :
    Reads itf itf.calculateReward ∧ itf.calculateReward.reward = itf.rewardOf ∧
      itf.calculateReward.rewardThput = Dbl.div itf.thputSum itf.getUEsNumber := by
  obtain ⟨h1, h2⟩ := foldl_rewardThputOf itf itf.getUEsNumber
  unfold calculateReward rewardOf Dbl.div
  dsimp only
  rw [h2]
  by_cases hn : itf.getUEsNumber = 0
  · rw [if_pos hn, if_pos hn, if_pos (by rw [hn]; rfl)]
    exact ⟨⟨h1.mcs, h1.q, h1.g, h1.gfbr, h1.thput, h1.rbs, h1.totalRbs⟩, rfl, rfl⟩
  · have hne : (itf.getUEsNumber : ℚ) ≠ 0 := Nat.cast_ne_zero.mpr hn
    rw [if_neg hn, if_neg hn, if_neg hne]
    by_cases havg : itf.thputSum / itf.getUEsNumber = 1
    · obtain ⟨h3, h4⟩ := foldl_rbsUsedOf h1 itf.getUEsNumber
      unfold thputSum at havg ⊢
      rw [if_pos havg, if_pos havg, h4, h3.totalRbs]
      exact ⟨⟨h3.mcs, h3.q, h3.g, h3.gfbr, h3.thput, h3.rbs, rfl⟩, rfl, rfl⟩
    · unfold thputSum at havg ⊢
      rw [if_neg havg, if_neg havg]
      exact ⟨⟨h1.mcs, h1.q, h1.g, h1.gfbr, h1.thput, h1.rbs, h1.totalRbs⟩, rfl, rfl⟩

/-! ### The entries a calculation inserts -/

theorem thput_foldl_rbsUsedOf (l : List ℕ) (acc : Ns3DrlInterface × ℚ) :
    (l.foldl rbsUsedOf acc).1.thput = acc.1.thput := by
  induction l generalizing acc with
  | nil => rfl
  | cons i l ih => exact ih (rbsUsedOf acc i)

theorem thput_calculateReward (itf : Ns3DrlInterface) :
    itf.calculateReward.thput =
      ((List.range itf.getUEsNumber).foldl rewardThputOf (itf, 0)).1.thput := by
  unfold calculateReward
  dsimp only
  split
  · rfl
  · split
    · exact thput_foldl_rbsUsedOf _ _
    · rfl

theorem rewardThputOf_kept {acc : Ns3DrlInterface × ℚ} {k : ℤ} {v : ℚ}
    (h : acc.1.thput.get? k = some v) (i : ℕ) : (rewardThputOf acc i).1.thput.get? k = some v := by
  unfold rewardThputOf
  dsimp only
  split
  · exact h
  · show (acc.1.thput.touch (i : ℤ) 0).get? k = some v
    rw [UMap.get?_touch]
    split
    · next e => rw [← e, UMap.getD, h, Option.getD_some]
    · exact h

theorem foldl_rewardThputOf_kept {k : ℤ} {v : ℚ} (l : List ℕ) (acc : Ns3DrlInterface × ℚ)
    (h : acc.1.thput.get? k = some v) :
    (l.foldl rewardThputOf acc).1.thput.get? k = some v := by
  induction l generalizing acc with
  | nil => exact h
  | cons i l ih => exact ih _ (rewardThputOf_kept h i)

theorem get?_thput_calculateReward {k : ℤ} {v : ℚ} (h : itf.thput.get? k = some v) :
    itf.calculateReward.thput.get? k = some v := by
  rw [thput_calculateReward]
  exact foldl_rewardThputOf_kept _ _ h

/-- A UE with a GFBR has a throughput after the calculation, if only the inserted one. -/
theorem exists_thput_calculateReward {i : ℕ} (hi : i < itf.getUEsNumber)
    (hg : itf.gfbr.getD i 0 ≠ 0) : ∃ v, itf.calculateReward.thput.get? i = some v := by
  rw [thput_calculateReward]
  obtain ⟨pre, post, hsplit⟩ := List.append_of_mem (List.mem_range.mpr hi)
  have hpre : Reads itf (pre.foldl rewardThputOf (itf, 0)).1 := by
    have h : ∀ (l : List ℕ) (acc : Ns3DrlInterface × ℚ), Reads itf acc.1 →
        Reads itf (l.foldl rewardThputOf acc).1 := by
      intro l
      induction l with
      | nil => exact fun _ h => h
      | cons j l ih => exact fun acc h => ih _ (rewardThputOf_spec h j).1
    exact h pre _ (Reads.refl itf)
  rw [hsplit, List.foldl_append, List.foldl_cons]
  generalize pre.foldl rewardThputOf (itf, 0) = acc at hpre
  have hne : (acc.1.gfbr.touch (i : ℤ) 0).getD i 0 ≠ 0 := by
    rw [UMap.getD_touch, hpre.gfbr]
    exact hg
  have hself : (rewardThputOf acc i).1.thput.get? i = some (acc.1.thput.getD i 0) := by
    unfold rewardThputOf
    dsimp only
    rw [if_neg hne]
    show (acc.1.thput.touch (i : ℤ) 0).get? i = _
    rw [UMap.get?_touch, if_pos rfl]
  exact ⟨_, foldl_rewardThputOf_kept _ _ hself⟩

/-! ### Reached and missed bit rates -/

/-- Every UE with a GFBR reaches it. -/
def Met (itf : Ns3DrlInterface) : Prop :=
  ∀ i : ℕ, i < itf.getUEsNumber → itf.gfbr.getD i 0 ≠ 0 → itf.gfbr.getD i 0 ≤ itf.thput.getD i 0

/-- Some UE misses its GFBR. -/
def Missed (itf : Ns3DrlInterface) : Prop :=
  ∃ i : ℕ, i < itf.getUEsNumber ∧ itf.gfbr.getD i 0 ≠ 0 ∧
    itf.thput.getD i 0 < itf.gfbr.getD i 0

theorem not_met_iff : ¬ itf.Met ↔ itf.Missed := by
  simp only [Met, Missed, not_forall, not_le, exists_prop]

theorem thputTerm_le_one (itf : Ns3DrlInterface) (i : ℕ) : itf.thputTerm i ≤ 1 := by
  unfold thputTerm
  split
  · exact le_rfl
  · exact min_le_left _ _

theorem thputTerm_of_ne {i : ℕ} (h : itf.gfbr.getD i 0 ≠ 0) :
    itf.thputTerm i = min 1 (itf.thput.getD i 0 / itf.gfbr.getD i 0) := by
  unfold thputTerm
  rw [if_neg h, sub_div, div_self h, sub_sub_cancel]

theorem thputTerm_eq_one_iff {i : ℕ} (h : 0 ≤ itf.gfbr.getD i 0) :
    itf.thputTerm i = 1 ↔
      (itf.gfbr.getD i 0 ≠ 0 → itf.gfbr.getD i 0 ≤ itf.thput.getD i 0) := by
  by_cases h0 : itf.gfbr.getD i 0 = 0
  · simp [thputTerm, h0]
  · have hpos : 0 < itf.gfbr.getD i 0 := lt_of_le_of_ne h (Ne.symm h0)
    rw [thputTerm_of_ne h0, min_eq_left_iff, one_le_div hpos]
    simp [h0]

theorem thputTerm_mono {a b : Ns3DrlInterface} {i : ℕ} (h : 0 ≤ a.gfbr.getD i 0)
    (hg : a.gfbr.getD i 0 = b.gfbr.getD i 0) (ht : a.thput.getD i 0 ≤ b.thput.getD i 0) :
    a.thputTerm i ≤ b.thputTerm i := by
  by_cases h0 : a.gfbr.getD i 0 = 0
  · have h0' : b.gfbr.getD i 0 = 0 := hg.symm.trans h0
    simp [thputTerm, h0, h0']
  · have h0' : b.gfbr.getD i 0 ≠ 0 := hg ▸ h0
    rw [thputTerm_of_ne h0, thputTerm_of_ne h0', ← hg]
    exact min_le_min_left 1 (div_le_div_of_nonneg_right ht h)

theorem average_eq_one_iff (hn : itf.getUEsNumber ≠ 0)
    (hg : ∀ i : ℕ, i < itf.getUEsNumber → 0 ≤ itf.gfbr.getD i 0) :
    itf.thputSum / itf.getUEsNumber = 1 ↔ itf.Met := by
  have h := Average.eq_one_iff hn fun i _ => itf.thputTerm_le_one i
  unfold thputSum
  rw [h]
  exact forall_congr' fun i => forall_congr' fun hi => thputTerm_eq_one_iff (hg i hi)

theorem rewardOf_of_met (hn : itf.getUEsNumber ≠ 0)
    (hg : ∀ i : ℕ, i < itf.getUEsNumber → 0 ≤ itf.gfbr.getD i 0) (h : itf.Met) {t : ℚ}
    (ht : itf.totalRbs = .fin t) (ht0 : t ≠ 0) :
    itf.rewardOf = .fin (1 / 2 + (1 - itf.rbsUsed / (t * 1000)) * (1 / 2)) := by
  have havg := (average_eq_one_iff hn hg).mpr h
  unfold rewardOf
  simp only [if_neg hn, ht, if_neg ht0, havg]
  norm_num

theorem rewardOf_of_missed (hg : ∀ i : ℕ, i < itf.getUEsNumber → 0 ≤ itf.gfbr.getD i 0)
    (h : itf.Missed) :
    itf.rewardOf = .fin (itf.thputSum / itf.getUEsNumber * (1 / 5)) ∧
      itf.thputSum / itf.getUEsNumber ≤ 1 := by
  have hn : itf.getUEsNumber ≠ 0 := by
    obtain ⟨i, hi, _⟩ := h
    omega
  have havg : ¬ itf.thputSum / itf.getUEsNumber = 1 := by
    intro e
    exact not_met_iff.mpr h ((average_eq_one_iff hn hg).mp e)
  refine ⟨?_, Average.le_one hn fun i _ => itf.thputTerm_le_one i⟩
  unfold rewardOf
  simp only [if_neg hn, if_neg havg]

/-! ### The order of the rewards -/

/-- A state from which a reward is calculated: at least one UE is reported, the reported UEs are
`0, 1, ..., n - 1`, and the counters are in their ranges. -/
structure Accountable (itf : Ns3DrlInterface) : Prop where
  pos : itf.getUEsNumber ≠ 0
  indexed : itf.reported = (range itf.getUEsNumber).image fun i : ℕ => (i : ℤ)
  total : ∃ t : ℚ, itf.totalRbs = .fin t ∧ 0 < t ∧ itf.rbsUsed ≤ 1000 * t
  used : 0 ≤ itf.rbsUsed
  thput : ∀ i : ℕ, i < itf.getUEsNumber → 0 ≤ itf.thput.getD i 0
  gfbr : ∀ i : ℕ, i < itf.getUEsNumber → 0 ≤ itf.gfbr.getD i 0

variable {a b : Ns3DrlInterface}

theorem reward_met_missed (ha : a.Accountable) (hb : b.Accountable) (hm : a.Met)
    (hs : b.Missed) : Dbl.lt b.rewardOf a.rewardOf = true := by
  obtain ⟨t, ht, hpos, hle⟩ := ha.total
  obtain ⟨hrb, havg⟩ := rewardOf_of_missed hb.gfbr hs
  have hra := rewardOf_of_met ha.pos ha.gfbr hm ht hpos.ne'
  have hfrac : a.rbsUsed / (t * 1000) ≤ 1 := by
    rw [div_le_one (by linarith)]
    linarith
  rw [hra, hrb, Dbl.lt_fin, decide_eq_true_eq]
  linarith

theorem reward_met_lt (ha : a.Accountable) (hb : b.Accountable) (hma : a.Met) (hmb : b.Met)
    (ht : a.totalRbs = b.totalRbs) (hu : a.rbsUsed < b.rbsUsed) :
    Dbl.lt b.rewardOf a.rewardOf = true := by
  obtain ⟨t, hta, hpos, _⟩ := ha.total
  have htb : b.totalRbs = .fin t := ht.symm.trans hta
  have hra := rewardOf_of_met ha.pos ha.gfbr hma hta hpos.ne'
  have hrb := rewardOf_of_met hb.pos hb.gfbr hmb htb hpos.ne'
  have hlt : a.rbsUsed / (t * 1000) < b.rbsUsed / (t * 1000) :=
    div_lt_div_of_pos_right hu (by linarith)
  rw [hra, hrb, Dbl.lt_fin, decide_eq_true_eq]
  linarith

theorem reward_missed_mono (ha : a.Accountable) (hb : b.Accountable) (hsa : a.Missed)
    (hsb : b.Missed) (hn : a.getUEsNumber = b.getUEsNumber)
    (hg : ∀ i : ℕ, i < a.getUEsNumber → a.gfbr.getD i 0 = b.gfbr.getD i 0)
    (ht : ∀ i : ℕ, i < a.getUEsNumber → a.thput.getD i 0 ≤ b.thput.getD i 0) :
    Dbl.le a.rewardOf b.rewardOf = true := by
  obtain ⟨hra, _⟩ := rewardOf_of_missed ha.gfbr hsa
  obtain ⟨hrb, _⟩ := rewardOf_of_missed hb.gfbr hsb
  have hle : a.thputSum / a.getUEsNumber ≤ b.thputSum / b.getUEsNumber := by
    unfold thputSum
    rw [← hn]
    exact Average.mono fun i hi => thputTerm_mono (ha.gfbr i hi) (hg i hi) (ht i hi)
  rw [hra, hrb, Dbl.le_fin, decide_eq_true_eq]
  linarith

end Ns3DrlInterface

/-- **The order of the rewards** of two states.  A state that meets every GFBR gets more than one
that misses some; of two states that meet every GFBR under the same `m_total_rbs`, the one that
used fewer resource blocks gets more; of two states that miss some of the same GFBRs, the one
with the larger throughputs gets at least as much, whatever the resource blocks, and equal
throughputs get the same. -/
theorem reward_ordering {a b : Ns3DrlInterface} (ha : a.Accountable) (hb : b.Accountable) :
    (a.Met → b.Missed →
      Dbl.lt b.calculateReward.reward a.calculateReward.reward = true) ∧
    (a.Met → b.Met → a.totalRbs = b.totalRbs → a.rbsUsed < b.rbsUsed →
      Dbl.lt b.calculateReward.reward a.calculateReward.reward = true) ∧
    (a.Missed → b.Missed → a.getUEsNumber = b.getUEsNumber →
      (∀ i : ℕ, i < a.getUEsNumber → a.gfbr.getD i 0 = b.gfbr.getD i 0) →
      (∀ i : ℕ, i < a.getUEsNumber → a.thput.getD i 0 ≤ b.thput.getD i 0) →
      Dbl.le a.calculateReward.reward b.calculateReward.reward = true) ∧
    (a.Missed → b.Missed → a.getUEsNumber = b.getUEsNumber →
      (∀ i : ℕ, i < a.getUEsNumber → a.gfbr.getD i 0 = b.gfbr.getD i 0) →
      (∀ i : ℕ, i < a.getUEsNumber → a.thput.getD i 0 = b.thput.getD i 0) →
      a.calculateReward.reward = b.calculateReward.reward) := by
  obtain ⟨_, hra, _⟩ := a.calculateReward_eq
  obtain ⟨_, hrb, _⟩ := b.calculateReward_eq
  rw [hra, hrb]
  refine ⟨Ns3DrlInterface.reward_met_missed ha hb, Ns3DrlInterface.reward_met_lt ha hb,
    Ns3DrlInterface.reward_missed_mono ha hb, ?_⟩
  intro hsa hsb hn hg ht
  have h1 := Ns3DrlInterface.reward_missed_mono ha hb hsa hsb hn hg fun i hi => (ht i hi).le
  have h2 := Ns3DrlInterface.reward_missed_mono hb ha hsb hsa hn.symm
    (fun i hi => (hg i (hn ▸ hi)).symm) fun i hi => (ht i (hn ▸ hi)).ge
  exact Dbl.le_antisymm h1 h2

/-- One UE with a GFBR of 100, its throughput, and the resource blocks it used of 10 a slot. -/
def Ns3DrlInterface.oneUe (thput rbs : ℚ) : Ns3DrlInterface :=
  ((({} : Ns3DrlInterface).updateState 0 10 0 0 100 {} 1 1).updateMetricsThput 0 thput).updateMetricsRbs
    0 rbs 10

namespace Ns3DrlInterface

theorem oneUe_reads (thput rbs : ℚ) :
    (oneUe thput rbs).getUEsNumber = 1 ∧ (oneUe thput rbs).gfbr.getD 0 0 = 100 ∧
      (oneUe thput rbs).thput.getD 0 0 = thput ∧ (oneUe thput rbs).rbsUsed = rbs := by
  have hn : (oneUe thput rbs).getUEsNumber = 1 := rfl
  refine ⟨hn, by simp [oneUe, updateMetricsRbs, updateMetricsThput, updateState, runningMean], ?_, ?_⟩
  · simp [oneUe, updateMetricsRbs, updateMetricsThput]
  · unfold rbsUsed
    rw [hn]
    simp [oneUe, updateMetricsRbs, updateMetricsThput, updateState]

theorem oneUe_accountable {thput rbs : ℚ} (ht : 0 ≤ thput) (hr : 0 ≤ rbs) (hr' : rbs ≤ 10000) :
    (oneUe thput rbs).Accountable := by
  obtain ⟨hn, hg, hth, hu⟩ := oneUe_reads thput rbs
  refine ⟨by rw [hn]; decide, by rw [hn]; rfl, ⟨10, rfl, by norm_num, ?_⟩, by rwa [hu], ?_, ?_⟩
  · rw [hu]
    linarith
  · intro i hi
    obtain rfl : i = 0 := by omega
    exact hth.symm ▸ ht
  · intro i hi
    obtain rfl : i = 0 := by omega
    have hg' : (oneUe thput rbs).gfbr.getD ((0 : ℕ) : ℤ) 0 = 100 := hg
    rw [hg']
    norm_num

theorem oneUe_met {thput : ℚ} (h : 100 ≤ thput) (rbs : ℚ) : (oneUe thput rbs).Met := by
  obtain ⟨hn, hg, hth, _⟩ := oneUe_reads thput rbs
  intro i hi _
  obtain rfl : i = 0 := by omega
  exact hg.trans_le (h.trans_eq hth.symm)

theorem oneUe_missed {thput : ℚ} (h : thput < 100) (rbs : ℚ) : (oneUe thput rbs).Missed := by
  obtain ⟨hn, hg, hth, _⟩ := oneUe_reads thput rbs
  refine ⟨0, by omega, ?_, hth.trans_lt (h.trans_eq hg.symm)⟩
  have hg' : (oneUe thput rbs).gfbr.getD ((0 : ℕ) : ℤ) 0 = 100 := hg
  rw [hg']
  norm_num

end Ns3DrlInterface

theorem reward_ordering_oneUe :
    Dbl.lt (Ns3DrlInterface.oneUe 60 0).calculateReward.reward
        (Ns3DrlInterface.oneUe 120 500).calculateReward.reward = true ∧
      Dbl.lt (Ns3DrlInterface.oneUe 120 500).calculateReward.reward
        (Ns3DrlInterface.oneUe 120 200).calculateReward.reward = true := by
  have h500 : (Ns3DrlInterface.oneUe 120 500).Accountable :=
    Ns3DrlInterface.oneUe_accountable (by norm_num) (by norm_num) (by norm_num)
  have h200 : (Ns3DrlInterface.oneUe 120 200).Accountable :=
    Ns3DrlInterface.oneUe_accountable (by norm_num) (by norm_num) (by norm_num)
  have h60 : (Ns3DrlInterface.oneUe 60 0).Accountable :=
    Ns3DrlInterface.oneUe_accountable (by norm_num) (by norm_num) (by norm_num)
  constructor
  · apply (reward_ordering h500 h60).1
    · exact Ns3DrlInterface.oneUe_met (by norm_num) 500
    · exact Ns3DrlInterface.oneUe_missed (by norm_num) 0
  · apply (reward_ordering h200 h500).2.1
    · exact Ns3DrlInterface.oneUe_met (by norm_num) 200
    · exact Ns3DrlInterface.oneUe_met (by norm_num) 500
    · rfl
    · rw [(Ns3DrlInterface.oneUe_reads 120 200).2.2.2, (Ns3DrlInterface.oneUe_reads 120 500).2.2.2]
      norm_num

end Rbis
