import Rbis.Sched.Reward
import Rbis.Sched.RestRequest

/-! # Which UEs a report is about

The interface keeps what it knows of a UE under its key `rnti - 1`, while the reward and the
report run over the keys `0, 1, ..., n - 1` for the number `n` of keys.  The two are the same
exactly if the UEs reported since the last reset are the first `n` ones (`reportsExactly_iff`).

What a UE is reported with is the aggregate of its own samples since the reset
(`aggregateAt_exec`): the averages of its queues and bit rates (`ofSamples_average`), and the
average of its MCS rounded at each sample. -/

namespace Rbis

open Cxx Finset

/-! ### Aggregates -/

/-- What one `UpdateState` reports of a UE. -/
structure UeSample where
  mcs : ℚ
  q : ℚ
  g : ℚ
  gfbr : ℚ

/-- What the interface keeps of a UE. -/
structure Aggregate where
  count : ℕ := 0
  mcs : ℚ := 0
  q : ℚ := 0
  g : ℚ := 0
  gfbr : ℚ := 0

namespace Aggregate

def add (a : Aggregate) (s : UeSample) : Aggregate where
  count := a.count + 1
  mcs := stdRound ((a.mcs * a.count + s.mcs) / (a.count + 1))
  q := (a.q * a.count + s.q) / (a.count + 1)
  g := (a.g * a.count + s.g) / (a.count + 1)
  gfbr := (a.gfbr * a.count + s.gfbr) / (a.count + 1)

def ofSamples (l : List UeSample) : Aggregate := l.foldl add {}

theorem foldl_add {a : Aggregate} (h : a.count = 0) {l : List UeSample} (hl : l ≠ []) :
    l.foldl add a = ofSamples l := by
  cases l with
  | nil => exact absurd rfl hl
  | cons s l =>
      have hs : a.add s = ({} : Aggregate).add s := by simp [add, h]
      unfold ofSamples
      rw [List.foldl_cons, List.foldl_cons, hs]

theorem foldl_add_running (l : List UeSample) (a : Aggregate) :
    ((l.foldl add a).count, (l.foldl add a).q) =
      (l.map UeSample.q).foldl Average.running (a.count, a.q) ∧
    ((l.foldl add a).count, (l.foldl add a).g) =
      (l.map UeSample.g).foldl Average.running (a.count, a.g) ∧
    ((l.foldl add a).count, (l.foldl add a).gfbr) =
      (l.map UeSample.gfbr).foldl Average.running (a.count, a.gfbr) := by
  induction l generalizing a with
  | nil => exact ⟨rfl, rfl, rfl⟩
  | cons s l ih => exact ih (a.add s)

theorem ofSamples_average {l : List UeSample} (hl : l ≠ []) :
    (ofSamples l).q = (l.map UeSample.q).sum / l.length ∧
      (ofSamples l).g = (l.map UeSample.g).sum / l.length ∧
        (ofSamples l).gfbr = (l.map UeSample.gfbr).sum / l.length := by
  obtain ⟨hq, hg, hb⟩ := foldl_add_running l {}
  have havg : ∀ f : UeSample → ℚ, ((l.map f).foldl Average.running (0, 0)).2 =
      (l.map f).sum / l.length := by
    intro f
    have hne : l.map f ≠ [] := fun h => hl (List.map_eq_nil_iff.mp h)
    rw [Average.foldl_running hne, List.length_map]
  exact ⟨(congrArg Prod.snd hq).trans (havg _), (congrArg Prod.snd hg).trans (havg _),
    (congrArg Prod.snd hb).trans (havg _)⟩

theorem foldl_add_rounded (l : List UeSample) (a : Aggregate) :
    ((l.foldl add a).count, (l.foldl add a).mcs) =
      (l.map UeSample.mcs).foldl (Average.rounded fun x => (stdRound x : ℚ)) (a.count, a.mcs) := by
  induction l generalizing a with
  | nil => rfl
  | cons s l ih => exact ih (a.add s)

/-- The aggregates are the averages of the samples, that of the MCS rounded once. -/
structure MeansOf (a : Aggregate) (l : List UeSample) : Prop where
  mcs : a.mcs = stdRound ((l.map UeSample.mcs).sum / l.length)
  q : a.q = (l.map UeSample.q).sum / l.length
  g : a.g = (l.map UeSample.g).sum / l.length
  gfbr : a.gfbr = (l.map UeSample.gfbr).sum / l.length

theorem meansOf_ofSamples_iff {l : List UeSample} (hl : l ≠ []) :
    (ofSamples l).MeansOf l ↔
      ((l.map UeSample.mcs).foldl (Average.rounded fun x => (stdRound x : ℚ)) (0, 0)).2 =
        stdRound (Average.mean (l.map UeSample.mcs)) := by
  have hmcs : (ofSamples l).mcs =
      ((l.map UeSample.mcs).foldl (Average.rounded fun x => (stdRound x : ℚ)) (0, 0)).2 :=
    congrArg Prod.snd (foldl_add_rounded l {})
  rw [Average.mean, List.length_map, ← hmcs]
  obtain ⟨hq, hg, hb⟩ := ofSamples_average hl
  exact ⟨MeansOf.mcs, fun h => ⟨h, hq, hg, hb⟩⟩

end Aggregate

/-! ### Updates of the interface -/

/-- What may happen to the interface between a reset and a request. -/
inductive ItfOp where
  | updateState (rnti : ℤ) (s : UeSample) (pos : Vector3) (timeSlot tLastUpdate : ℚ)
  | updateMetricsThput (rnti : ℤ) (thput : ℚ)
  | updateMetricsRbs (rnti : ℤ) (rbs totalRbs : ℚ)

namespace ItfOp

/-- The key a sample is kept under. -/
def key? : ItfOp → Option ℤ
  | .updateState rnti _ _ _ _ => some rnti
  | _ => none

/-- The sample of the UE with this key. -/
def sampleOf (k : ℤ) : ItfOp → Option UeSample
  | .updateState rnti s _ _ _ => if rnti = k then some s else none
  | _ => none

def apply (itf : Ns3DrlInterface) : ItfOp → Ns3DrlInterface
  | .updateState rnti s pos timeSlot tLastUpdate =>
      itf.updateState rnti s.mcs s.q s.g s.gfbr pos timeSlot tLastUpdate
  | .updateMetricsThput rnti thput => itf.updateMetricsThput rnti thput
  | .updateMetricsRbs rnti rbs totalRbs => itf.updateMetricsRbs rnti rbs totalRbs

end ItfOp

/-- The UEs updated by the operations. -/
def updatedKeys (l : List ItfOp) : Finset ℤ := (l.filterMap ItfOp.key?).toFinset

/-- The samples of a UE, in the order of the operations. -/
def samplesOf (k : ℤ) (l : List ItfOp) : List UeSample := l.filterMap (ItfOp.sampleOf k)

theorem mem_updatedKeys {k : ℤ} {l : List ItfOp} : k ∈ updatedKeys l ↔ samplesOf k l ≠ [] := by
  induction l with
  | nil => simp [updatedKeys, samplesOf]
  | cons op l ih =>
      unfold updatedKeys samplesOf at ih ⊢
      cases op with
      | updateState rnti s pos timeSlot t =>
          by_cases h : rnti = k
          · simp [ItfOp.key?, ItfOp.sampleOf, h]
          · have h' : ¬ k = rnti := fun e => h e.symm
            simp [ItfOp.key?, ItfOp.sampleOf, h, h', ← ih]
      | updateMetricsThput rnti thput => simpa [ItfOp.key?, ItfOp.sampleOf] using ih
      | updateMetricsRbs rnti rbs total => simpa [ItfOp.key?, ItfOp.sampleOf] using ih

namespace Ns3DrlInterface

/-- The aggregate kept under a key. -/
def aggregateAt (itf : Ns3DrlInterface) (k : ℤ) : Aggregate where
  count := itf.count.getD k 0
  mcs := itf.getMcs k
  q := itf.getQ k
  g := itf.getG k
  gfbr := itf.getGfbr k

theorem aggregateAt_apply (itf : Ns3DrlInterface) (k : ℤ) (op : ItfOp) :
    (op.apply itf).aggregateAt k =
      match op.sampleOf k with
      | some s => (itf.aggregateAt k).add s
      | none => itf.aggregateAt k := by
  cases op with
  | updateState rnti s pos timeSlot t =>
      by_cases h : rnti = k
      · simp [ItfOp.apply, ItfOp.sampleOf, h, aggregateAt, Aggregate.add, updateState, getMcs, getQ,
          getG, getGfbr, runningMean]
      · have h' : ¬ k = rnti := fun e => h e.symm
        simp [ItfOp.apply, ItfOp.sampleOf, h, h', aggregateAt, updateState, getMcs, getQ, getG,
          getGfbr]
  | updateMetricsThput rnti thput => rfl
  | updateMetricsRbs rnti rbs total => rfl

theorem aggregateAt_exec (itf : Ns3DrlInterface) (k : ℤ) (l : List ItfOp) :
    (Runs.exec ItfOp.apply itf l).aggregateAt k =
      (samplesOf k l).foldl Aggregate.add (itf.aggregateAt k) := by
  induction l generalizing itf with
  | nil => rfl
  | cons op l ih =>
      rw [Runs.exec_cons, ih, aggregateAt_apply]
      unfold samplesOf
      rw [List.filterMap_cons]
      cases op.sampleOf k with
      | none => rfl
      | some s => rfl

theorem reported_exec (itf : Ns3DrlInterface) (l : List ItfOp) :
    (Runs.exec ItfOp.apply itf l).reported = itf.reported ∪ updatedKeys l := by
  induction l generalizing itf with
  | nil => simp [updatedKeys]
  | cons op l ih =>
      rw [Runs.exec_cons, ih]
      unfold updatedKeys
      rw [List.filterMap_cons]
      cases op with
      | updateState rnti s pos timeSlot t =>
          simp [ItfOp.apply, ItfOp.key?]
      | updateMetricsThput rnti thput => rfl
      | updateMetricsRbs rnti rbs total => rfl

theorem aggregateAt_updated (itf : Ns3DrlInterface) {k : ℤ} {l : List ItfOp}
    (hk : k ∈ updatedKeys l) :
    (Runs.exec ItfOp.apply itf.reset l).aggregateAt k = Aggregate.ofSamples (samplesOf k l) := by
  rw [aggregateAt_exec]
  exact Aggregate.foldl_add rfl (mem_updatedKeys.mp hk)

theorem forall_prefix_samplesOf {k : ℤ} {l : List ItfOp} {P : List ℚ → Prop} :
    (∀ l', l' <+: l → P ((samplesOf k l').map UeSample.mcs)) ↔
      ∀ p, p <+: (samplesOf k l).map UeSample.mcs → P p := by
  constructor
  · intro h p hp
    obtain ⟨ss, hss, rfl⟩ := List.prefix_map_iff.mp hp
    obtain ⟨l', hl', rfl⟩ := List.prefix_filterMap_iff.mp hss
    exact h l' hl'
  · intro h l' hl'
    exact h _ ((hl'.filterMap _).map _)

/-- **The aggregates of a UE are averages** of its samples since the reset, after every update,
exactly if the average MCS of the samples so far can always be rounded before the next sample is
added. -/
theorem meansOf_iff (itf : Ns3DrlInterface) (k : ℤ) (l : List ItfOp) :
    (∀ l', l' <+: l → samplesOf k l' ≠ [] →
      ((Runs.exec ItfOp.apply itf.reset l').aggregateAt k).MeansOf (samplesOf k l')) ↔
    ∀ p v, p ++ [v] <+: (samplesOf k l).map UeSample.mcs →
      Average.Neutral (fun x => (stdRound x : ℚ)) p v := by
  rw [← Average.foldl_rounded_iff _ _ 0, ← forall_prefix_samplesOf]
  refine forall_congr' fun l' => forall_congr' fun _ => ?_
  rw [ne_eq, ne_eq, List.map_eq_nil_iff]
  refine forall_congr' fun hne => ?_
  rw [aggregateAt_exec, Aggregate.foldl_add rfl hne]
  exact Aggregate.meansOf_ofSamples_iff hne

/-- Three samples of the MCS, 0, 1 and 0: the average of the first two is rounded to 1, and so is
that of 1, 1 and 0. -/
theorem not_meansOf_third :
    ¬ ((Runs.exec ItfOp.apply ({} : Ns3DrlInterface).reset
        [.updateState 0 ⟨0, 0, 0, 0⟩ {} 1 1, .updateState 0 ⟨1, 0, 0, 0⟩ {} 1 2,
          .updateState 0 ⟨0, 0, 0, 0⟩ {} 1 3]).aggregateAt 0).MeansOf
      (samplesOf 0 [.updateState 0 ⟨0, 0, 0, 0⟩ {} 1 1, .updateState 0 ⟨1, 0, 0, 0⟩ {} 1 2,
        .updateState 0 ⟨0, 0, 0, 0⟩ {} 1 3]) := by
  intro h
  have hmcs := h.mcs
  revert hmcs
  decide +kernel

/-! ### The reward and the report over a set of UEs -/

/-- The throughput term of the UE with this key. -/
def termAt (itf : Ns3DrlInterface) (k : ℤ) : ℚ :=
  if itf.gfbr.getD k 0 = 0 then 1
  else min 1 (1 - (itf.gfbr.getD k 0 - itf.thput.getD k 0) / itf.gfbr.getD k 0)

/-- `reward_thput`, aggregated over the UEs of `K`. -/
def thputOver (itf : Ns3DrlInterface) (K : Finset ℤ) : Dbl :=
  Dbl.div (∑ k ∈ K, itf.termAt k) K.card

/-- `m_reward`, aggregated over the UEs of `K`. -/
def rewardOver (itf : Ns3DrlInterface) (K : Finset ℤ) : Dbl :=
  let avg := (∑ k ∈ K, itf.termAt k) / K.card
  if K.card = 0 then .undef
  else if avg = 1 then
    match itf.totalRbs with
    | .undef => .undef
    | .fin t =>
        if t = 0 then .undef
        else .fin (avg * (1 / 5) + 3 / 10 + (1 - (∑ k ∈ K, itf.rbs.getD k 0) / (t * 1000)) * (1 / 2))
  else .fin (avg * (1 / 5))

/-- The reward is aggregated over the UEs of `K`, and every array of the report has one entry for
each of them, in one order, with the aggregate of its own samples. -/
structure ReportsExactly (S : Scheduler) (now : ℚ) (K : Finset ℤ) (l : List ItfOp)
    (itf : Ns3DrlInterface) : Prop where
  thput : itf.calculateReward.rewardThput = itf.thputOver K
  reward : itf.calculateReward.reward = itf.rewardOver K
  arrays : ∃ ids : List ℤ, ids.Nodup ∧ ids.toFinset = K ∧
    (S.restReport now itf.calculateReward).mcs =
      ids.map (fun k => discretize 22 25 (Aggregate.ofSamples (samplesOf k l)).mcs) ∧
    (S.restReport now itf.calculateReward).q =
      ids.map (fun k => discretize 1000000 5000000 (Aggregate.ofSamples (samplesOf k l)).q) ∧
    (S.restReport now itf.calculateReward).g =
      ids.map (fun k => discretize 1000000 10000000 (Aggregate.ofSamples (samplesOf k l)).g) ∧
    (S.restReport now itf.calculateReward).gfbr =
      ids.map (fun k => truncate ((Aggregate.ofSamples (samplesOf k l)).gfbr / 1000000)) ∧
    (S.restReport now itf.calculateReward).closeToObstacle =
      ids.map (fun k => if S.getCloseToObs itf.calculateReward k now then 1 else 0)

end Ns3DrlInterface

/-- The keys of the first `n` UEs. -/
def firstKeys (n : ℕ) : Finset ℤ := (range n).image fun i : ℕ => (i : ℤ)

theorem card_firstKeys (n : ℕ) : (firstKeys n).card = n := by
  unfold firstKeys
  rw [card_image_of_injective _ Nat.cast_injective, card_range]

theorem sum_firstKeys (f : ℤ → ℚ) (n : ℕ) : ∑ k ∈ firstKeys n, f k = ∑ i ∈ range n, f i :=
  sum_image fun _ _ _ _ h => Int.ofNat.inj h

theorem map_range_key {α : Type} {f : ℕ → α} {f' : ℤ → α} {n : ℕ} (h : ∀ i < n, f i = f' i) :
    (List.range n).map f = ((List.range n).map fun i : ℕ => (i : ℤ)).map f' := by
  rw [List.map_map]
  exact List.map_congr_left fun i hi => h i (List.mem_range.mp hi)

theorem exists_notMem_of_ne {K : Finset ℤ} (h : K ≠ firstKeys K.card) :
    ∃ i : ℕ, i < K.card ∧ (i : ℤ) ∉ K := by
  by_contra hc
  apply h
  have hsub : firstKeys K.card ⊆ K := by
    intro k hk
    obtain ⟨i, hi, rfl⟩ := mem_image.mp hk
    by_contra hnot
    exact hc ⟨i, mem_range.mp hi, hnot⟩
  exact (eq_of_subset_of_card_le hsub (card_firstKeys K.card).ge).symm

namespace Ns3DrlInterface

variable {S : Scheduler} {now : ℚ}

/-- The keys `0, 1, ..., n - 1` are all and the only ones. -/
theorem reportsExactly_of_first {n : ℕ} {l : List ItfOp} (hl : updatedKeys l = firstKeys n)
    (itf₀ : Ns3DrlInterface) :
    ReportsExactly S now (firstKeys n) l (Runs.exec ItfOp.apply itf₀.reset l) := by
  have hown : ∀ i : ℕ, i < n → (Runs.exec ItfOp.apply itf₀.reset l).aggregateAt i =
      Aggregate.ofSamples (samplesOf i l) := by
    intro i hi
    apply aggregateAt_updated
    rw [hl]
    exact mem_image_of_mem _ (mem_range.mpr hi)
  have hrep : (Runs.exec ItfOp.apply itf₀.reset l).reported = firstKeys n := by
    rw [reported_exec, reported_reset, empty_union, hl]
  generalize Runs.exec ItfOp.apply itf₀.reset l = itf at hown hrep
  have hcard := card_firstKeys n
  have hn : itf.getUEsNumber = n := by rw [getUEsNumber_eq_card, hrep, hcard]
  have hn' : itf.calculateReward.getUEsNumber = n := by
    rw [getUEsNumber_eq_card, reported_calculateReward, hrep, hcard]
  obtain ⟨hreads, hr, ht⟩ := itf.calculateReward_eq
  refine ⟨?_, ?_, (List.range n).map fun i : ℕ => (i : ℤ), ?_, ?_, ?_⟩
  · rw [ht]
    unfold thputOver thputSum
    rw [hcard, sum_firstKeys, hn]
    rfl
  · rw [hr]
    unfold rewardOver rewardOf thputSum rbsUsed
    rw [hcard, sum_firstKeys, sum_firstKeys, hn]
    rfl
  · exact List.nodup_range.map Nat.cast_injective
  · ext k
    simp [firstKeys]
  · unfold Scheduler.restReport
    dsimp only
    rw [hn']
    refine ⟨map_range_key fun i hi => ?_, map_range_key fun i hi => ?_,
      map_range_key fun i hi => ?_, map_range_key fun i hi => ?_, map_range_key fun i hi => rfl⟩
    · have h := congrArg Aggregate.mcs (hown i hi)
      rw [← h]
      unfold getMcs
      rw [hreads.mcs]
      rfl
    · have h := congrArg Aggregate.q (hown i hi)
      rw [← h]
      unfold getQ
      rw [hreads.q]
      rfl
    · have h := congrArg Aggregate.g (hown i hi)
      rw [← h]
      unfold getG
      rw [hreads.g]
      rfl
    · have h := congrArg Aggregate.gfbr (hown i hi)
      rw [← h]
      unfold getGfbr
      rw [hreads.gfbr]
      rfl

end Ns3DrlInterface

/-- Every UE of `K` is updated once, with the sample `s`. -/
def updateOnce (s : UeSample) (K : List ℤ) : List ItfOp := K.map fun k => .updateState k s {} 1 1

theorem updatedKeys_updateOnce (s : UeSample) (K : List ℤ) :
    updatedKeys (updateOnce s K) = K.toFinset := by
  unfold updatedKeys updateOnce
  congr 1
  rw [List.filterMap_map]
  exact List.filterMap_some

theorem samplesOf_updateOnce (s : UeSample) {k : ℤ} : ∀ {K : List ℤ}, K.Nodup → k ∈ K →
    samplesOf k (updateOnce s K) = [s]
  | [], _, h => by cases h
  | k' :: K, hn, h => by
      rw [List.nodup_cons] at hn
      unfold samplesOf updateOnce
      rw [List.map_cons, List.filterMap_cons]
      by_cases hk : k' = k
      · have hnone : samplesOf k (updateOnce s K) = [] := by
          by_contra hne
          have hmem := mem_updatedKeys.mpr hne
          rw [updatedKeys_updateOnce, List.mem_toFinset] at hmem
          exact hn.1 (hk ▸ hmem)
        simp only [ItfOp.sampleOf, if_pos hk]
        exact congrArg _ hnone
      · have hmem : k ∈ K := (List.mem_cons.mp h).resolve_left fun e => hk e.symm
        simp only [ItfOp.sampleOf, if_neg hk]
        exact samplesOf_updateOnce s hn.2 hmem

/-- **The reported set.** The reward and the report are about exactly the UEs updated since the
last reset, whatever the updates of these UEs were, exactly if these are the first ones. -/
theorem reportsExactly_iff (S : Scheduler) (now : ℚ) (K : Finset ℤ) :
    (∀ (itf : Ns3DrlInterface) (l : List ItfOp), updatedKeys l = K →
      (Runs.exec ItfOp.apply itf.reset l).ReportsExactly S now K l) ↔ K = firstKeys K.card := by
  constructor
  · intro h
    by_contra hne
    obtain ⟨i, hi, hnot⟩ := exists_notMem_of_ne hne
    have hkeys : updatedKeys (updateOnce ⟨28, 0, 0, 0⟩ K.toList) = K := by
      rw [updatedKeys_updateOnce, toList_toFinset]
    obtain ⟨ids, _, hids, hmcs, _⟩ := (h {} _ hkeys).arrays
    have hzero : (Runs.exec ItfOp.apply ({} : Ns3DrlInterface).reset
        (updateOnce ⟨28, 0, 0, 0⟩ K.toList)).getMcs i = 0 := by
      have hagg := Ns3DrlInterface.aggregateAt_exec ({} : Ns3DrlInterface).reset i
        (updateOnce ⟨28, 0, 0, 0⟩ K.toList)
      have hnone : samplesOf (i : ℤ) (updateOnce ⟨28, 0, 0, 0⟩ K.toList) = [] := by
        by_contra hs
        exact hnot (hkeys ▸ mem_updatedKeys.mpr hs)
      rw [hnone] at hagg
      exact congrArg Aggregate.mcs hagg
    have hrep : (Runs.exec ItfOp.apply ({} : Ns3DrlInterface).reset
        (updateOnce ⟨28, 0, 0, 0⟩ K.toList)).reported = K := by
      rw [Ns3DrlInterface.reported_exec, hkeys, Ns3DrlInterface.reported_reset, empty_union]
    generalize Runs.exec ItfOp.apply ({} : Ns3DrlInterface).reset
      (updateOnce ⟨28, 0, 0, 0⟩ K.toList) = itf at hmcs hzero hrep
    have hmem : 0 ∈ (S.restReport now itf.calculateReward).mcs := by
      refine List.mem_map.mpr ⟨i, List.mem_range.mpr ?_, ?_⟩
      · rw [Ns3DrlInterface.getUEsNumber_eq_card, Ns3DrlInterface.reported_calculateReward, hrep]
        exact hi
      · unfold Ns3DrlInterface.getMcs at hzero ⊢
        rw [itf.calculateReward_eq.1.mcs, hzero]
        decide +kernel
    rw [hmcs] at hmem
    obtain ⟨k, hk, he⟩ := List.mem_map.mp hmem
    have hkK : k ∈ K.toList := by
      rw [mem_toList, ← hids]
      exact List.mem_toFinset.mpr hk
    rw [samplesOf_updateOnce _ K.nodup_toList hkK] at he
    revert he
    decide +kernel
  · intro h itf l hl
    rw [h] at hl ⊢
    exact Ns3DrlInterface.reportsExactly_of_first hl itf

/-- Only the UE with RNTI 2 is updated: the report is about the UE with RNTI 1. -/
theorem not_reportsExactly_second :
    ¬ (Runs.exec ItfOp.apply ({} : Ns3DrlInterface).reset
        [.updateState 1 ⟨28, 0, 0, 0⟩ {} 1 1]).ReportsExactly (.wideband [true]) 0 {1}
      [.updateState 1 ⟨28, 0, 0, 0⟩ {} 1 1] := by
  rintro ⟨_, _, ids, hn, hids, hmcs, _⟩
  have hmem : ∀ k ∈ ids, k = 1 := by
    intro k hk
    exact Finset.mem_singleton.mp (hids ▸ List.mem_toFinset.mpr hk)
  have hreport : (Scheduler.restReport (.wideband [true]) 0
      (Runs.exec ItfOp.apply ({} : Ns3DrlInterface).reset
        [.updateState 1 ⟨28, 0, 0, 0⟩ {} 1 1]).calculateReward).mcs = [0] := by
    decide +kernel
  rw [hreport] at hmcs
  have h0 : 0 ∈ ids.map (fun k => discretize 22 25
      (Aggregate.ofSamples (samplesOf k [.updateState 1 ⟨28, 0, 0, 0⟩ {} 1 1])).mcs) := by
    rw [← hmcs]
    exact List.mem_singleton.mpr rfl
  obtain ⟨k, hk, he⟩ := List.mem_map.mp h0
  rw [hmem k hk] at he
  revert he
  decide +kernel

end Rbis
