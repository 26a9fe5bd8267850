import Rbis.Sched.UeInfo

/-! # The interface between the scheduler and the xApp

`Ns3DrlInterface` is the singleton that collects the per-UE state and metrics between two
requests.  Its maps are keyed by `rnti - 1`.  A read through `operator[]` inserts a default
entry, which is visible later (`touch`); `m_total_rbs` is not initialised by the constructor,
hence undefined until the first `updateMetricsRbs`.  The travelled distance, which no function
of the scheduler reads, is left out, and the obstacle test is a parameter of the request. -/

namespace Rbis

open Cxx

structure Vector3 where
  x : ℚ := 0
  y : ℚ := 0
  z : ℚ := 0
deriving DecidableEq

/-- `std::round`: to the nearest integer, halves away from zero. -/
def stdRound (q : ℚ) : ℤ := if 0 ≤ q then ⌊q + 1 / 2⌋ else -⌊-q + 1 / 2⌋

structure Ns3DrlInterface where
  mcs : UMap ℤ ℚ := .empty
  q : UMap ℤ ℚ := .empty
  g : UMap ℤ ℚ := .empty
  gfbr : UMap ℤ ℚ := .empty
  position : UMap ℤ Vector3 := .empty
  prevPosition : UMap ℤ Vector3 := .empty
  velocity : UMap ℤ Vector3 := .empty
  tLastUpdate : UMap ℤ ℚ := .empty
  count : UMap ℤ ℕ := .empty
  countReward : UMap ℤ ℕ := .empty
  thput : UMap ℤ ℚ := .empty
  rbs : UMap ℤ ℚ := .empty
  totalRbs : Dbl := .undef
  reward : Dbl := .fin 0
  rewardThput : Dbl := .fin 0

namespace Ns3DrlInterface

/-- `Reset`. -/
def reset (itf : Ns3DrlInterface) : Ns3DrlInterface :=
  { itf with
    mcs := .empty, q := .empty, count := .empty, prevPosition := .empty, velocity := .empty
    thput := itf.thput.mapValues fun _ => -1
    rbs := .empty, countReward := .empty, reward := .fin 0, rewardThput := .fin 0 }

/-- `GetUEsNumber`. -/
def getUEsNumber (itf : Ns3DrlInterface) : ℕ := itf.mcs.size

/-- The running mean `(m[rnti]*count + v)/(count + 1)`. -/
def runningMean (m : UMap ℤ ℚ) (rnti : ℤ) (count : ℕ) (v : ℚ) : ℚ :=
  (m.getD rnti 0 * count + v) / (count + 1)

/-- One coordinate of the velocity estimate. -/
def velocityOf (pos prev timeSlot elapsed : ℚ) : ℚ :=
  if stdRound ((pos - prev) / timeSlot) = 0 then 0 else stdRound ((pos - prev) / elapsed)

/-- `UpdateState`. -/
def updateState (itf : Ns3DrlInterface) (rnti : ℤ) (mcs q g gfbr : ℚ) (pos : Vector3)
    (timeSlot tLastUpdate : ℚ) : Ns3DrlInterface :=
  let count := itf.count.getD rnti 0
  let prev := itf.prevPosition.getD rnti pos
  let old := itf.velocity.getD rnti {}
  let last := itf.tLastUpdate.getD rnti 0
  let velocity : Vector3 :=
    if tLastUpdate = last then old
    else
      { x := velocityOf pos.x prev.x timeSlot (tLastUpdate - last)
        y := velocityOf pos.y prev.y timeSlot (tLastUpdate - last)
        z := velocityOf pos.z prev.z timeSlot (tLastUpdate - last) }
  { itf with
    mcs := itf.mcs.set rnti (stdRound (runningMean itf.mcs rnti count mcs))
    q := itf.q.set rnti (runningMean itf.q rnti count q)
    g := itf.g.set rnti (runningMean itf.g rnti count g)
    gfbr := itf.gfbr.set rnti (runningMean itf.gfbr rnti count gfbr)
    position := itf.position.set rnti pos
    prevPosition := itf.prevPosition.set rnti pos
    velocity := itf.velocity.set rnti
      { x := (old.x * count + velocity.x) / (count + 1)
        y := (old.y * count + velocity.y) / (count + 1)
        z := (old.z * count + velocity.z) / (count + 1) }
    count := itf.count.set rnti (count + 1)
    tLastUpdate := itf.tLastUpdate.set rnti tLastUpdate }

/-- `UpdateMetricsThput`. -/
def updateMetricsThput (itf : Ns3DrlInterface) (rnti : ℤ) (thput : ℚ) : Ns3DrlInterface :=
  { itf with thput := itf.thput.set rnti thput }

/-- `UpdateMetricsRbs`. -/
def updateMetricsRbs (itf : Ns3DrlInterface) (rnti : ℤ) (rbs totalRbs : ℚ) : Ns3DrlInterface :=
  { itf with
    rbs := itf.rbs.set rnti (itf.rbs.getD rnti 0 + rbs)
    totalRbs := .fin totalRbs
    countReward := itf.countReward.set rnti (itf.countReward.getD rnti 0 + 1) }

/-- The throughput term of one UE, with the entries its reads insert. -/
def rewardThputOf (acc : Ns3DrlInterface × ℚ) (i : ℕ) : Ns3DrlInterface × ℚ :=
  let itf := { acc.1 with gfbr := acc.1.gfbr.touch i 0 }
  let gfbr := itf.gfbr.getD i 0
  if gfbr = 0 then (itf, acc.2 + 1)
  else
    let itf := { itf with thput := itf.thput.touch i 0 }
    (itf, acc.2 + min 1 (1 - (gfbr - itf.thput.getD i 0) / gfbr))

/-- The resource blocks used by one UE, with the entry its read inserts. -/
def rbsUsedOf (acc : Ns3DrlInterface × ℚ) (i : ℕ) : Ns3DrlInterface × ℚ :=
  ({ acc.1 with rbs := acc.1.rbs.touch i 0 }, acc.2 + acc.1.rbs.getD i 0)

/-- `CalculateReward`. -/
def calculateReward (itf : Ns3DrlInterface) : Ns3DrlInterface :=
  let n := itf.getUEsNumber
  let r := (List.range n).foldl rewardThputOf (itf, 0)
  if n = 0 then { r.1 with reward := .undef, rewardThput := .undef }
  else if r.2 / n = 1 then
    let u := (List.range n).foldl rbsUsedOf (r.1, 0)
    let reward : Dbl :=
      match u.1.totalRbs with
      | .undef => .undef
      | .fin t =>
          if t = 0 then .undef
          else .fin (r.2 / n * (1 / 5) + 3 / 10 + (1 - u.2 / (t * 1000)) * (1 / 2))
    { u.1 with reward := reward, rewardThput := .fin (r.2 / n) }
  else { r.1 with reward := .fin (r.2 / n * (1 / 5)), rewardThput := .fin (r.2 / n) }

/-- `GetMcs`, `GetQ`, `GetG` and `GetGfbr`: lookups that insert nothing. -/
def getMcs (itf : Ns3DrlInterface) (rnti : ℤ) : ℚ := itf.mcs.getD rnti 0
def getQ (itf : Ns3DrlInterface) (rnti : ℤ) : ℚ := itf.q.getD rnti 0
def getG (itf : Ns3DrlInterface) (rnti : ℤ) : ℚ := itf.g.getD rnti 0
def getGfbr (itf : Ns3DrlInterface) (rnti : ℤ) : ℚ := itf.gfbr.getD rnti 0

/-! ### The UEs reported since the last reset -/

/-- The UEs with an entry in `m_mcs`. -/
def reported (itf : Ns3DrlInterface) : Finset ℤ := itf.mcs.keys

theorem getUEsNumber_eq_card (itf : Ns3DrlInterface) : itf.getUEsNumber = itf.reported.card := rfl

@[simp] theorem reported_reset (itf : Ns3DrlInterface) : itf.reset.reported = ∅ := rfl

@[simp] theorem reported_updateState (itf : Ns3DrlInterface) (rnti : ℤ) (mcs q g gfbr : ℚ)
    (pos : Vector3) (timeSlot t : ℚ) :
    (itf.updateState rnti mcs q g gfbr pos timeSlot t).reported = insert rnti itf.reported := rfl

/-! ### What the calculation of the reward writes -/

section Frame

variable {α : Type} {f : Ns3DrlInterface → α}

theorem rewardThputOf_frame
    (hf : ∀ itf gfbr thput, f { itf with gfbr := gfbr, thput := thput } = f itf)
    (acc : Ns3DrlInterface × ℚ) (i : ℕ) : f (rewardThputOf acc i).1 = f acc.1 := by
  unfold rewardThputOf
  dsimp only
  split
  · exact hf acc.1 _ acc.1.thput
  · exact hf acc.1 _ _

theorem foldl_frame {step : Ns3DrlInterface × ℚ → ℕ → Ns3DrlInterface × ℚ}
    (hstep : ∀ acc i, f (step acc i).1 = f acc.1) (l : List ℕ) (acc : Ns3DrlInterface × ℚ) :
    f (l.foldl step acc).1 = f acc.1 := by
  induction l generalizing acc with
  | nil => rfl
  | cons i l ih => rw [List.foldl_cons, ih, hstep]

/-- `CalculateReward` writes `m_gfbr`, `m_thput`, `m_rbs` and the two rewards, and nothing else. -/
theorem calculateReward_frame (hf : ∀ itf gfbr thput rbs reward rewardThput,
      f { itf with
        gfbr := gfbr, thput := thput, rbs := rbs, reward := reward, rewardThput := rewardThput } =
        f itf)
    (itf : Ns3DrlInterface) : f itf.calculateReward = f itf := by
  have h1 : f ((List.range itf.getUEsNumber).foldl rewardThputOf (itf, 0)).1 = f itf :=
    foldl_frame (rewardThputOf_frame fun itf _ _ => hf itf _ _ itf.rbs itf.reward itf.rewardThput)
      _ (itf, 0)
  have hrbs : ∀ acc i, f (rbsUsedOf acc i).1 = f acc.1 := fun acc i =>
    hf acc.1 acc.1.gfbr acc.1.thput (acc.1.rbs.touch i 0) acc.1.reward acc.1.rewardThput
  have hrewards : ∀ (itf : Ns3DrlInterface) (reward rewardThput : Dbl),
      f { itf with reward := reward, rewardThput := rewardThput } = f itf :=
    fun itf reward rewardThput => hf itf itf.gfbr itf.thput itf.rbs reward rewardThput
  unfold calculateReward
  dsimp only
  split
  · exact (hrewards _ _ _).trans h1
  · split
    · exact (hrewards _ _ _).trans ((foldl_frame hrbs _ _).trans h1)
    · exact (hrewards _ _ _).trans h1

end Frame

@[simp] theorem reported_calculateReward (itf : Ns3DrlInterface) :
    itf.calculateReward.reported = itf.reported :=
  calculateReward_frame (f := reported) (fun _ _ _ _ _ _ => rfl) itf

end Ns3DrlInterface

end Rbis
