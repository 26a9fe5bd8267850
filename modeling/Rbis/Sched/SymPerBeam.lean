import Mathlib.Algebra.Order.BigOperators.Group.List
import Rbis.Lib.Rounding
import Rbis.Sched.AssignDlRbg

/-! # The active UEs and the symbols of their beams

`ComputeActiveUe` collects the UEs with data and a free HARQ process by beam, and one of three
strategies distributes the symbols of the slot over the beams with active UEs: by load, in
turns, or by a proportional-fair metric; the first and the last compute with rounded quotients.
Each strategy comes with the divisors of its quotients (`SymPerBeamStrategy.divisors`); all of them
are non-zero for the maps of `ComputeActiveUe` (`divisor_ne_zero`). -/

namespace Rbis

open Cxx

/-! ### `ComputeActiveUe` -/

/-- An entry of `m_ueMap`, with the beam of the UE and its HARQ vector. -/
structure UeMapEntry where
  ue : UePtr
  beamId : BeamId
  harqUsedSize : ℕ
  harqMaxSize : ℕ

/-- `CanInsert`. -/
def UeMapEntry.canInsert (e : UeMapEntry) : Bool := decide (e.harqUsedSize < e.harqMaxSize)

/-- `GetTotalSize` of a logical channel group (`uint32_t`). -/
def lcgTotalSize (lcg : NrMacSchedulerLCG) : ℕ :=
  lcg.foldl (fun totalSize lc => (totalSize + lc.getTotalSize) % 2 ^ 32) 0

/-- `totBuffer` (`uint32_t`). -/
def UeInfo.totBuffer (ue : UeInfo) : ℕ :=
  ue.dlLCG.foldl (fun totBuffer lcg => (totBuffer + lcgTotalSize lcg) % 2 ^ 32) 0

/-- The insertion of a UE into the map of the beams. -/
def insertActive (beam : BeamId) (ue : UePtrAndBufferReq) : ActiveUeMap → ActiveUeMap
  | [] => [(beam, [ue])]
  | el :: activeUe =>
      if el.1 = beam then (el.1, el.2 ++ [ue]) :: activeUe
      else el :: insertActive beam ue activeUe

/-- `ComputeActiveUe`, for the UEs in the order `m_ueMap` yields them. -/
def computeActiveUe (ues : UePtr → UeInfo) (ueMap : List UeMapEntry) : ActiveUeMap :=
  ueMap.foldl (fun activeUe e =>
    if 0 < (ues e.ue).totBuffer ∧ e.canInsert = true then
      insertActive e.beamId (e.ue, (ues e.ue).totBuffer) activeUe
    else activeUe) []

/-- What the map says about its UEs: they have as many bytes as it says, and at least one. -/
def HasData (ues : UePtr → UeInfo) (activeUe : ActiveUeMap) : Prop :=
  ∀ el ∈ activeUe, ∀ ue ∈ el.2, ue.2 = (ues ue.1).totBuffer ∧ 0 < ue.2

theorem mem_insertActive {beam : BeamId} {ue : UePtrAndBufferReq} : ∀ {activeUe : ActiveUeMap}
    {el : BeamId × List UePtrAndBufferReq}, el ∈ insertActive beam ue activeUe →
    ∀ u ∈ el.2, u = ue ∨ ∃ el' ∈ activeUe, u ∈ el'.2
  | [], el, hel, u, hu => by
      obtain rfl := List.mem_singleton.mp hel
      exact Or.inl (List.mem_singleton.mp hu)
  | el' :: activeUe, el, hel, u, hu => by
      unfold insertActive at hel
      split at hel
      · rcases List.mem_cons.mp hel with rfl | hel
        · rcases List.mem_append.mp hu with hu | hu
          · exact Or.inr ⟨el', List.mem_cons_self, hu⟩
          · exact Or.inl (List.mem_singleton.mp hu)
        · exact Or.inr ⟨el, List.mem_cons_of_mem _ hel, hu⟩
      · rcases List.mem_cons.mp hel with rfl | hel
        · exact Or.inr ⟨el, List.mem_cons_self, hu⟩
        · rcases mem_insertActive hel u hu with rfl | ⟨el'', h, hu⟩
          · exact Or.inl rfl
          · exact Or.inr ⟨el'', List.mem_cons_of_mem _ h, hu⟩

theorem computeActiveUe_hasData (ues : UePtr → UeInfo) (ueMap : List UeMapEntry) :
    HasData ues (computeActiveUe ues ueMap) := by
  unfold computeActiveUe
  induction ueMap using List.reverseRecOn with
  | nil => exact fun el hel => absurd hel List.not_mem_nil
  | append_singleton l e ih =>
      rw [List.foldl_append, List.foldl_cons, List.foldl_nil]
      split
      · next hactive =>
          intro el hel u hu
          rcases mem_insertActive hel u hu with rfl | ⟨el', hel', hu'⟩
          · exact ⟨rfl, hactive.1⟩
          · exact ih el' hel' u hu'
      · exact ih

theorem foldl_add_eq_zero {α : Type} {size : α → ℕ} {l : List α} (h : ∀ a ∈ l, size a = 0) :
    l.foldl (fun total a => (total + size a) % 2 ^ 32) 0 = 0 := by
  induction l with
  | nil => rfl
  | cons a l ih =>
      rw [List.foldl_cons, h a List.mem_cons_self]
      exact ih fun b hb => h b (List.mem_cons_of_mem a hb)

theorem UeInfo.activeLCs_ne_nil {ue : UeInfo} (h : 0 < ue.totBuffer) : ue.activeLCs ≠ [] := by
  intro hnil
  have hlc : ∀ lcg ∈ ue.dlLCG, ∀ lc ∈ lcg, lc.getTotalSize = 0 := by
    intro lcg hlcg lc hlc
    by_contra hne
    have hmem : lc ∈ ue.activeLCs := List.mem_flatMap.mpr
      ⟨lcg, hlcg, List.mem_filter.mpr ⟨hlc, by simpa using Nat.pos_of_ne_zero hne⟩⟩
    rw [hnil] at hmem
    cases hmem
  have hlcg : ∀ lcg ∈ ue.dlLCG, lcgTotalSize lcg = 0 :=
    fun lcg hlcg => foldl_add_eq_zero (hlc lcg hlcg)
  have hzero : ue.totBuffer = 0 := foldl_add_eq_zero hlcg
  omega

/-! ### Load-based -/

namespace LoadBased

/-- `bufTotal`: a sum of integers below `2 ^ 53`, which is exact. -/
def bufTotal (activeDl : ActiveUeMap) : ℚ :=
  ((activeDl.flatMap Prod.snd).map fun ue => (ue.2 : ℚ)).sum

/-- `bufSizeBeam` (`uint32_t`). -/
def bufSizeBeam (ueVector : List UePtrAndBufferReq) : ℕ :=
  ueVector.foldl (fun bufSize ue => (bufSize + ue.2) % 2 ^ 32) 0

variable (fl : ℚ → ℚ)

/-- `symForBeam` (`uint32_t`); `fl` rounds the quotient `tmp`, and the product. -/
def symForBeam (symAvail : ℕ) (activeDl : ActiveUeMap) (ueVector : List UePtrAndBufferReq) : ℕ :=
  ⌊fl (bufSizeBeam ueVector * fl (symAvail / bufTotal activeDl))⌋.toNat % 2 ^ 32

/-- `symUsed` (`uint8_t`). -/
def symUsed (symAvail : ℕ) (activeDl : ActiveUeMap) : ℕ :=
  activeDl.foldl (fun used el => (used + symForBeam fl symAvail activeDl el.2) % 2 ^ 8) 0

/-- The first of the beams with the fewest symbols. -/
def minBeam (ret : BeamSymbolMap) (beams : List BeamId) : Option BeamId :=
  beams.foldl (fun min beam =>
    match min with
    | none => some beam
    | some b => if ret.getD beam 0 < ret.getD b 0 then some beam else some b) none

/-- A round of the redistribution. -/
def redistribute (beams : List BeamId) (ret : BeamSymbolMap) : BeamSymbolMap :=
  match minBeam ret beams with
  | none => ret
  | some b => ret.set b (ret.getD b 0 + 1)

/-- `NrMacSchedulerOfdmaSymbolPerBeamLB::GetSymPerBeam`; `order` is the order in which the result
yields its beams. -/
def getSymPerBeam (order : List BeamId → List BeamId) (symAvail : ℕ) (activeDl : ActiveUeMap) :
    BeamSymbolMap :=
  let ret := activeDl.foldl (fun ret el =>
    ret.set el.1 (symForBeam fl symAvail activeDl el.2)) .empty
  let symToRedistribute := symAvail - symUsed fl symAvail activeDl
  if symToRedistribute > 0 then
    (redistribute (order (activeDl.map Prod.fst)))^[symToRedistribute % 2 ^ 8] ret
  else ret

/-- The beam with a third of the bytes gets three symbols of twelve: the quotient is rounded down. -/
example : (getSymPerBeam roundDouble id 12 [(⟨0, 0⟩, [(0, 32)]), (⟨1, 0⟩, [(1, 32)]),
      (⟨2, 0⟩, [(2, 720)]), (⟨3, 0⟩, [(3, 392)])]).getD ⟨3, 0⟩ 0 = 3 := by
  decide +kernel

/-- One quotient `symAvail / bufTotal` for each beam. -/
def divisors (activeDl : ActiveUeMap) : List ℚ := activeDl.map fun _ => bufTotal activeDl

end LoadBased

/-! ### Round-robin -/

namespace RoundRobin

/-- New beams are added to the queue `m_rrBeams`; `m_rrBeamsSet` holds its elements. -/
def register (rrBeams : List BeamId) (activeDl : ActiveUeMap) : List BeamId :=
  activeDl.foldl (fun q el => if el.1 ∈ q then q else q ++ [el.1]) rrBeams

/-- The search for the first active beam of the queue, over at most `n` beams. -/
def serve (activeDl : ActiveUeMap) : ℕ → List BeamId × BeamSymbolMap → List BeamId × BeamSymbolMap
  | 0, s => s
  | _ + 1, ([], ret) => ([], ret)
  | n + 1, (b :: q, ret) =>
      if b ∈ activeDl.map Prod.fst then (q ++ [b], ret.set b (ret.getD b 0 + 1))
      else serve activeDl n (q ++ [b], ret)

/-- `NrMacSchedulerOfdmaSymbolPerBeamRR::GetSymPerBeam`, with the queue of the calls before. -/
def getSymPerBeam (rrBeams : List BeamId) (symAvail : ℕ) (activeDl : ActiveUeMap) :
    BeamSymbolMap :=
  ((fun s => serve activeDl s.1.length s)^[symAvail] (register rrBeams activeDl, .empty)).2

end RoundRobin

/-! ### Proportional-fair -/

/-- The statistics of a beam: what it got, what it would get now, and the symbols it got.  They
are `uint64_t`, sums of less than `2 ^ 32` rates of 32 bits. -/
structure BeamRates where
  past : ℕ
  current : ℕ
  count : ℕ
  past_pos : 0 < past
  count_pos : 0 < count

namespace ProportionalFair

def BeamRates.start : BeamRates := ⟨1, 1, 1, Nat.one_pos, Nat.one_pos⟩

/-- What the strategy reads of the AMC, the bandwidth and the UEs, and the rounding of its metric. -/
structure Rates where
  getPayloadSize : (mcs rank bwInRbgs : ℕ) → ℕ
  bwInRbgs : ℕ
  ues : UePtr → UeInfo
  fl : ℚ → ℚ

/-- The variables of the loop over the symbols. -/
structure LoopState where
  /-- `activeBeamsPrevAndCurrTBS`. -/
  beams : UMap BeamId BeamRates
  ueRemainingBuffer : UePtr → ℕ
  ret : BeamSymbolMap

/-- The statistics at the start of a call: new beams, and those with more than 200 symbols. -/
def startRates (activeDl : ActiveUeMap) (beams : UMap BeamId BeamRates) : UMap BeamId BeamRates :=
  activeDl.foldl (fun m el =>
    match m.get? el.1 with
    | none => m.set el.1 BeamRates.start
    | some r => if r.count > 200 then m.set el.1 BeamRates.start else m) beams

def start (activeDl : ActiveUeMap) (beams : UMap BeamId BeamRates) : LoopState where
  beams := startRates activeDl beams
  ueRemainingBuffer := (activeDl.flatMap Prod.snd).foldl (fun rem ue =>
    Function.update rem ue.1 ue.2) fun _ => 0
  ret := .empty

variable (R : Rates)

def LoopState.ratesOf (s : LoopState) (beam : BeamId) : BeamRates :=
  s.beams.getD beam BeamRates.start

/-- The UEs of a beam that are still to be served. -/
def LoopState.unserved (s : LoopState) (ueVector : List UePtrAndBufferReq) :
    List UePtrAndBufferReq :=
  ueVector.filter fun ue => 0 < s.ueRemainingBuffer ue.1

/-- `sumThr / activeUesInBeam`, as `uint64_t`. -/
def LoopState.meanRate (s : LoopState) (ueVector : List UePtrAndBufferReq) : ℕ :=
  ((s.unserved ueVector).map fun ue =>
      R.getPayloadSize (R.ues ue.1).dlMcs (R.ues ue.1).dlRank R.bwInRbgs).sum /
    (s.unserved ueVector).length

/-- `currBeamPFMetric`, for the current rate `current`. -/
def metric (r : BeamRates) (current : ℕ) : ℚ := R.fl (current / R.fl ((r.past : ℚ) / r.count))

/-- One beam in the search for the one with the best metric. -/
def rateBeam (acc : LoopState × BeamId × ℚ) (el : BeamId × List UePtrAndBufferReq) :
    LoopState × BeamId × ℚ :=
  if (acc.1.unserved el.2).length = 0 then acc
  else
    let current := acc.1.meanRate R el.2
    let r := acc.1.ratesOf el.1
    let s := { acc.1 with beams := acc.1.beams.set el.1 { r with current := current } }
    if metric R r current > acc.2.2 then (s, el.1, metric R r current) else (s, acc.2)

/-- The bytes of a symbol, taken from the buffers of the UEs. -/
def drain : List UePtrAndBufferReq → ℕ → (UePtr → ℕ) → UePtr → ℕ
  | [], _, rem => rem
  | ue :: l, bytesAllocated, rem =>
      if rem ue.1 < bytesAllocated then
        drain l (bytesAllocated - rem ue.1) (Function.update rem ue.1 0)
      else Function.update rem ue.1 (rem ue.1 - bytesAllocated)

/-- One round of the loop over the symbols. -/
def serveSymbol (activeDl : ActiveUeMap) (s : LoopState) : LoopState :=
  let best := activeDl.foldl (rateBeam R) (s, ⟨0, 0⟩, -1)
  if best.2.2 = -1 then best.1
  else
    let beam := best.2.1
    let s := best.1
    let r := s.ratesOf beam
    let ueVector := StdSort.insertionSort (fun a b => decide (a.2 < b.2))
      ((activeDl.find? fun el => el.1 = beam).elim [] Prod.snd)
    { beams := s.beams.set beam
        { past := r.past + r.current, current := r.current, count := r.count + 1
          past_pos := Nat.add_pos_left r.past_pos _, count_pos := Nat.succ_pos _ }
      ueRemainingBuffer := drain ueVector r.current s.ueRemainingBuffer
      ret := s.ret.set beam (s.ret.getD beam 0 + 1) }

/-- `NrMacSchedulerOfdmaSymbolPerBeamPF::GetSymPerBeam`, with the statistics of the calls
before. -/
def getSymPerBeam (beams : UMap BeamId BeamRates) (symAvail : ℕ) (activeDl : ActiveUeMap) :
    BeamSymbolMap :=
  ((serveSymbol R activeDl)^[symAvail] (start activeDl beams)).ret

/-- The divisors of a round: for each beam with a UE to serve the number of these UEs, and the
divisors of the metric.  The second of them before its rounding, which does not make a quotient of
two `uint64_t` zero. -/
def roundDivisors (activeDl : ActiveUeMap) (s : LoopState) : List ℚ :=
  activeDl.flatMap fun el =>
    if (s.unserved el.2).length = 0 then []
    else
      [((s.unserved el.2).length : ℚ), ((s.ratesOf el.1).count : ℚ),
        ((s.ratesOf el.1).past : ℚ) / (s.ratesOf el.1).count]

def divisors (beams : UMap BeamId BeamRates) (symAvail : ℕ) (activeDl : ActiveUeMap) : List ℚ :=
  (List.range symAvail).flatMap fun n =>
    roundDivisors activeDl ((serveSymbol R activeDl)^[n] (start activeDl beams))

end ProportionalFair

/-! ### The strategies -/

/-- `SymPerBeamType`, with the state of the object. -/
inductive SymPerBeamStrategy where
  | loadBased (fl : ℚ → ℚ) (order : List BeamId → List BeamId)
  | roundRobin (rrBeams : List BeamId)
  | proportionalFair (R : ProportionalFair.Rates) (beams : UMap BeamId BeamRates)

namespace SymPerBeamStrategy

/-- `m_symPerBeam->GetSymPerBeam`. -/
def getSymPerBeam : SymPerBeamStrategy → ℕ → ActiveUeMap → BeamSymbolMap
  | loadBased fl order => LoadBased.getSymPerBeam fl order
  | roundRobin rrBeams => RoundRobin.getSymPerBeam rrBeams
  | proportionalFair R beams => ProportionalFair.getSymPerBeam R beams

/-- The divisors of the quotients of a call. -/
def divisors : SymPerBeamStrategy → ℕ → ActiveUeMap → List ℚ
  | loadBased _ _, _, activeDl => LoadBased.divisors activeDl
  | roundRobin _, _, _ => []
  | proportionalFair R beams, symAvail, activeDl =>
      ProportionalFair.divisors R beams symAvail activeDl

theorem bufTotal_pos {activeDl : ActiveUeMap} {el : BeamId × List UePtrAndBufferReq}
    (hel : el ∈ activeDl) (hne : el.2 ≠ []) (hpos : ∀ el ∈ activeDl, ∀ ue ∈ el.2, 0 < ue.2) :
    0 < LoadBased.bufTotal activeDl := by
  obtain ⟨ue, hue⟩ := List.exists_mem_of_ne_nil _ hne
  have hmem : ue ∈ activeDl.flatMap Prod.snd := List.mem_flatMap.mpr ⟨el, hel, hue⟩
  refine List.sum_pos _ (fun q hq => ?_) fun hnil => ?_
  · obtain ⟨u, hu, rfl⟩ := List.mem_map.mp hq
    obtain ⟨el', hel', hu⟩ := List.mem_flatMap.mp hu
    exact_mod_cast hpos el' hel' u hu
  · rw [List.map_eq_nil_iff.mp hnil] at hmem
    cases hmem

theorem roundDivisor_ne_zero {activeDl : ActiveUeMap} {s : ProportionalFair.LoopState} {d : ℚ}
    (hd : d ∈ ProportionalFair.roundDivisors activeDl s) : d ≠ 0 := by
  obtain ⟨el, _, hd⟩ := List.mem_flatMap.mp hd
  split at hd
  · cases hd
  · next hunserved =>
      have hcount : ((s.ratesOf el.1).count : ℚ) ≠ 0 :=
        Nat.cast_ne_zero.mpr (s.ratesOf el.1).count_pos.ne'
      have hpast : ((s.ratesOf el.1).past : ℚ) ≠ 0 :=
        Nat.cast_ne_zero.mpr (s.ratesOf el.1).past_pos.ne'
      simp only [List.mem_cons, List.not_mem_nil, or_false] at hd
      rcases hd with rfl | rfl | rfl
      · exact Nat.cast_ne_zero.mpr hunserved
      · exact hcount
      · exact div_ne_zero hpast hcount

theorem divisor_ne_zero {strategy : SymPerBeamStrategy} {symAvail : ℕ} {activeDl : ActiveUeMap}
    (hne : ∀ el ∈ activeDl, el.2 ≠ []) (hpos : ∀ el ∈ activeDl, ∀ ue ∈ el.2, 0 < ue.2) {d : ℚ}
    (hd : d ∈ strategy.divisors symAvail activeDl) : d ≠ 0 := by
  cases strategy with
  | loadBased fl order =>
      obtain ⟨el, hel, rfl⟩ := List.mem_map.mp hd
      exact (bufTotal_pos hel (hne el hel) hpos).ne'
  | roundRobin rrBeams => cases hd
  | proportionalFair R beams =>
      obtain ⟨n, _, hd⟩ := List.mem_flatMap.mp hd
      exact roundDivisor_ne_zero hd

end SymPerBeamStrategy

end Rbis
