import Mathlib.Algebra.BigOperators.Group.List.Lemmas
import Mathlib.Logic.Function.Iterate
import Mathlib.Data.Rat.Floor
import Rbis.Lib.Rounding
import Rbis.Sched.DlSlot

/-! # The bytes of the logical channels

A transport block is distributed over the active logical channels of its UE: in equal parts
(`NrMacSchedulerLcRR`, and the uplink of `NrMacSchedulerLcQos`), or first to the channels with a
guaranteed bit rate (the downlink of `NrMacSchedulerLcQos`).  No more than the block is given out
(`bytes_le`).

`AssignedData` then takes the bytes from the queues of a channel.  It leaves no small rest in the
transmission queue: 10 bytes at least, in the uplink 12.  A queue that gets the same grant again and
again is empty in the end exactly if the grant, less the RLC header, reaches this floor or the whole
queue at once, or if it is smaller than the header (`drained_iff`). -/

namespace Rbis

open Cxx

/-- The LCGs of a UE, with their identifiers. -/
abbrev LcgMap := List (ℕ × NrMacSchedulerLCG)

/-- Subtraction in `uint32_t`. -/
def subUint32 (a b : ℕ) : ℕ := (a + 2 ^ 32 - b) % 2 ^ 32

/-! ### `NrMacSchedulerLCG` -/

/-- The bytes that stay in a transmission queue. -/
def rlcFloor : DciFormat → ℕ
  | .dl => 10
  | .ul => 12

/-- The RLC header of a PDU; more for SRB1. -/
def rlcOverhead (fmt : DciFormat) (lcId : ℕ) : ℕ := if lcId = 1 ∧ fmt = .dl then 4 else 2

/-- The channel after `AssignedData`: the status PDU is sent, or the retransmission queue, or as much
of the transmission queue as possible. -/
def NrMacSchedulerLC.assignedData (lc : NrMacSchedulerLC) (fmt : DciFormat) (size : ℕ) :
    NrMacSchedulerLC :=
  if 0 < lc.rlcStatusPduSize ∧ lc.rlcStatusPduSize ≤ size then { lc with rlcStatusPduSize := 0 }
  else if 0 < lc.rlcRetransmissionQueueSize ∧ lc.rlcRetransmissionQueueSize ≤ size then
    { lc with rlcRetransmissionQueueSize := 0 }
  else if 0 < lc.rlcTransmissionQueueSize then
    let sent := subUint32 size (rlcOverhead fmt lc.id)
    let left := if lc.rlcTransmissionQueueSize ≤ sent then 0 else lc.rlcTransmissionQueueSize - sent
    { lc with
      rlcTransmissionQueueSize := if 0 < left ∧ left < rlcFloor fmt then rlcFloor fmt else left }
  else lc

/-- `AssignedData`. -/
def NrMacSchedulerLCG.assignedData (lcg : NrMacSchedulerLCG) (fmt : DciFormat) (lcId size : ℕ) :
    Except Fault NrMacSchedulerLCG :=
  if lcg = [] then .error .assertion
  else if lcId ∈ lcg.map NrMacSchedulerLC.id then
    .ok (lcg.map fun lc => if lc.id = lcId then lc.assignedData fmt size else lc)
  else .error .outOfRange

/-! ### In equal parts -/

/-- The active channels, each with the identifier of its LCG. -/
def activeChannels (ueLCG : LcgMap) : List (ℕ × NrMacSchedulerLC) :=
  ueLCG.flatMap fun lcg => (getActiveLCs lcg.2).map fun lc => (lcg.1, lc)

/-- `NrMacSchedulerLcRR::AssignBytesToLC`, and `NrMacSchedulerLcQos::AssignBytesToUlLC`. -/
def assignBytesToLC (ueLCG : LcgMap) (tbs : ℕ) : List Assignation :=
  (activeChannels ueLCG).map fun c => ⟨c.1, c.2.id, tbs / (activeChannels ueLCG).length⟩

/-! ### By guaranteed bit rate -/

/-- What the QoS algorithm reads of a channel, whether its resource type is one of `QBT_GBR` and
`QBT_DGBR`, and of the slot; `fl` is the rounding of a `double`. -/
structure LcQos where
  hasGbrType : NrMacSchedulerLC → Bool
  slotPeriod : ℚ
  fl : ℚ → ℚ

namespace LcQos

variable (Q : LcQos)

/-- The channel has a guaranteed bit rate. -/
def isGbr (c : ℕ × NrMacSchedulerLC) : Bool :=
  Q.hasGbrType c.2 && decide (c.2.eRabGuaranteedBitrateDl ≠ 2 ^ 64 - 1)

/-- `sumErabGueanteedBitRate` (`uint64_t`). -/
def sumErabGuaranteedBitRate (gbrActiveLCs : List (ℕ × NrMacSchedulerLC)) : ℕ :=
  gbrActiveLCs.foldl (fun sum c => (sum + c.2.eRabGuaranteedBitrateDl / 8) % 2 ^ 64) 0

/-- The order of the two loops, over the LCGs and over the channels. -/
def inOrder (ueLCG : LcgMap) (l : List (ℕ × NrMacSchedulerLC)) : List (ℕ × NrMacSchedulerLC) :=
  ueLCG.flatMap fun lcg => l.filter fun c => c.1 = lcg.1

/-- The bytes that the rate of a channel allows in a slot, if it has as many. -/
def wanted (c : ℕ × NrMacSchedulerLC) : ℕ :=
  min (⌊Q.fl (Q.slotPeriod * Q.fl (c.2.eRabGuaranteedBitrateDl / 8 : ℕ))⌋.toNat % 2 ^ 32)
    c.2.getTotalSize

/-- One channel with a guaranteed bit rate: the list of the bytes, and what is left. -/
def assignGbr (s : List (ℕ × ℕ) × ℕ) (c : ℕ × NrMacSchedulerLC) : List (ℕ × ℕ) × ℕ :=
  let bytesAssigned := if s.2 ≤ Q.wanted c then s.2 else Q.wanted c
  (s.1 ++ [(c.2.id, bytesAssigned)], s.2 - bytesAssigned)

/-- Add to the bytes of the first entry of the channel, if there is one. -/
def addTo (lcId bytes : ℕ) : List (ℕ × ℕ) → Option (List (ℕ × ℕ))
  | [] => none
  | it :: rest =>
      if it.1 = lcId then some ((it.1, it.2 + bytes) :: rest)
      else (addTo lcId bytes rest).map (it :: ·)

/-- One of the active channels in the last loop; only those of LCG 1 are looked for. -/
def assignRest (bytesPerLc : ℕ) (s : List Assignation × List (ℕ × ℕ))
    (c : ℕ × NrMacSchedulerLC) : List Assignation × List (ℕ × ℕ) :=
  match if c.1 = 1 then addTo c.2.id bytesPerLc s.2 else none with
  | some gbr => (s.1, gbr)
  | none => (s.1 ++ [⟨c.1, c.2.id, bytesPerLc⟩], s.2)

/-- The channels with a guaranteed bit rate: the bytes by LC, and what is left of the block. -/
def assignGbrs (ueLCG : LcgMap) (tbs : ℕ) : List (ℕ × ℕ) × ℕ :=
  let gbr := (activeChannels ueLCG).filter Q.isGbr
  if 1 < gbr.length ∧ tbs ≤ sumErabGuaranteedBitRate gbr then
    if 0 < tbs then ((inOrder ueLCG gbr).map fun c => (c.2.id, tbs / gbr.length), 0) else ([], tbs)
  else (inOrder ueLCG gbr).foldl Q.assignGbr ([], tbs)

/-- `NrMacSchedulerLcQos::AssignBytesToDlLC`. -/
def assignBytesToDlLC (ueLCG : LcgMap) (tbs : ℕ) : List Assignation :=
  let g := Q.assignGbrs ueLCG tbs
  let rest := activeChannels ueLCG
  let s := if rest ≠ [] ∧ 0 < g.2 then
      (inOrder ueLCG rest).foldl (assignRest (g.2 / rest.length)) ([], g.1)
    else ([], g.1)
  s.1 ++ s.2.map fun it => ⟨1, it.1, it.2⟩

end LcQos

/-- `NrMacSchedulerLcAlgorithm`. -/
inductive LcAlgorithm where
  | rr
  | qos (Q : LcQos)

namespace LcAlgorithm

def assignBytesToDlLC : LcAlgorithm → LcgMap → ℕ → List Assignation
  | rr => assignBytesToLC
  | qos Q => Q.assignBytesToDlLC

def assignBytesToUlLC : LcAlgorithm → LcgMap → ℕ → List Assignation
  | rr => assignBytesToLC
  | qos _ => assignBytesToLC

end LcAlgorithm

/-! ### No more than the block -/

def bytesOf (l : List Assignation) : ℕ := (l.map Assignation.bytes).sum

theorem assignBytesToLC_le (ueLCG : LcgMap) (tbs : ℕ) :
    bytesOf (assignBytesToLC ueLCG tbs) ≤ tbs := by
  unfold bytesOf assignBytesToLC
  rw [List.map_map]
  have hconst : (Assignation.bytes ∘ fun c : ℕ × NrMacSchedulerLC =>
      (⟨c.1, c.2.id, tbs / (activeChannels ueLCG).length⟩ : Assignation)) =
      fun _ => tbs / (activeChannels ueLCG).length := rfl
  rw [hconst, List.map_const', List.sum_replicate_nat]
  exact Nat.mul_div_le _ _

/-- Sorting the elements by their keys is a permutation. -/
theorem flatMap_filter_perm {α : Type} (key : α → ℕ) : ∀ {ids : List ℕ} {l : List α}, ids.Nodup →
    (∀ a ∈ l, key a ∈ ids) → (ids.flatMap fun i => l.filter fun a => key a = i).Perm l
  | [], l, _, h => by
      have hnil : l = [] := List.eq_nil_iff_forall_not_mem.mpr fun a ha =>
        absurd (h a ha) List.not_mem_nil
      rw [hnil]
      rfl
  | i :: ids, l, hn, h => by
      obtain ⟨hi, hn⟩ := List.nodup_cons.mp hn
      have hothers : ids.flatMap (fun j => l.filter fun a => key a = j) =
          ids.flatMap fun j => (l.filter fun a => ¬ key a = i).filter fun a => key a = j := by
        refine List.flatMap_congr fun j hj => ?_
        rw [List.filter_filter]
        refine List.filter_congr fun a _ => ?_
        by_cases hij : key a = j
        · have hne : key a ≠ i := fun e => hi (e ▸ hij ▸ hj)
          simp [hij, hij ▸ hne]
        · simp [hij]
      have hrest := flatMap_filter_perm key (l := l.filter fun a => ¬ key a = i) hn fun a ha => by
        obtain ⟨ha, hne⟩ := List.mem_filter.mp ha
        exact (List.mem_cons.mp (h a ha)).resolve_left (of_decide_eq_true hne)
      rw [List.flatMap_cons, hothers]
      refine (hrest.append_left _).trans ?_
      have hsplit := List.filter_append_perm (fun a => decide (key a = i)) l
      simpa using hsplit

namespace LcQos

variable {Q : LcQos} {ueLCG : LcgMap} {tbs : ℕ}

def bytesByLc (l : List (ℕ × ℕ)) : ℕ := (l.map Prod.snd).sum

theorem inOrder_perm (hn : (ueLCG.map Prod.fst).Nodup) {l : List (ℕ × NrMacSchedulerLC)}
    (hl : ∀ c ∈ l, c ∈ activeChannels ueLCG) : (inOrder ueLCG l).Perm l := by
  have hids : ∀ c ∈ l, c.1 ∈ ueLCG.map Prod.fst := by
    intro c hc
    obtain ⟨lcg, hlcg, hc⟩ := List.mem_flatMap.mp (hl c hc)
    obtain ⟨lc, -, rfl⟩ := List.mem_map.mp hc
    exact List.mem_map_of_mem hlcg
  have hperm := flatMap_filter_perm Prod.fst hn hids
  rwa [List.flatMap_map] at hperm

theorem foldl_assignGbr {l : List (ℕ × NrMacSchedulerLC)} {s : List (ℕ × ℕ) × ℕ} :
    bytesByLc (l.foldl Q.assignGbr s).1 + (l.foldl Q.assignGbr s).2 = bytesByLc s.1 + s.2 := by
  induction l generalizing s with
  | nil => rfl
  | cons c l ih =>
      rw [List.foldl_cons, ih]
      unfold assignGbr bytesByLc
      dsimp only
      rw [List.map_append, List.sum_append]
      split
      · simp
      · simp only [List.map_cons, List.map_nil, List.sum_cons, List.sum_nil]
        omega

theorem assignGbrs_le (tbs : ℕ) (hn : (ueLCG.map Prod.fst).Nodup) :
    bytesByLc (Q.assignGbrs ueLCG tbs).1 + (Q.assignGbrs ueLCG tbs).2 ≤ tbs := by
  unfold assignGbrs
  dsimp only
  split
  · split
    · have hlen := (inOrder_perm hn (l := (activeChannels ueLCG).filter Q.isGbr)
        fun c hc => List.mem_of_mem_filter hc).length_eq
      unfold bytesByLc
      dsimp only
      rw [List.map_map]
      have hconst : (Prod.snd ∘ fun c : ℕ × NrMacSchedulerLC =>
          (c.2.id, tbs / ((activeChannels ueLCG).filter Q.isGbr).length)) =
          fun _ => tbs / ((activeChannels ueLCG).filter Q.isGbr).length := rfl
      rw [hconst, List.map_const', List.sum_replicate_nat, hlen, Nat.add_zero]
      exact Nat.mul_div_le _ _
    · exact (Nat.zero_add tbs).le
  · rw [foldl_assignGbr]
    exact (Nat.zero_add tbs).le

theorem addTo_bytes {lcId bytes : ℕ} : ∀ {l l' : List (ℕ × ℕ)}, addTo lcId bytes l = some l' →
    bytesByLc l' = bytesByLc l + bytes
  | [], l', h => by cases h
  | it :: rest, l', h => by
      unfold addTo at h
      split at h
      · cases h
        unfold bytesByLc
        simp only [List.map_cons, List.sum_cons]
        omega
      · obtain ⟨l'', h', rfl⟩ := Option.map_eq_some_iff.mp h
        have ih := addTo_bytes h'
        unfold bytesByLc at ih ⊢
        simp only [List.map_cons, List.sum_cons]
        omega

theorem foldl_assignRest {l : List (ℕ × NrMacSchedulerLC)} {bytesPerLc : ℕ}
    {s : List Assignation × List (ℕ × ℕ)} :
    bytesOf (l.foldl (assignRest bytesPerLc) s).1 +
        bytesByLc (l.foldl (assignRest bytesPerLc) s).2 =
      bytesOf s.1 + bytesByLc s.2 + l.length * bytesPerLc := by
  induction l generalizing s with
  | nil => simp
  | cons c l ih =>
      rw [List.foldl_cons, ih, List.length_cons, Nat.succ_mul]
      unfold assignRest
      split
      · next gbr hsome =>
          split at hsome
          · rw [addTo_bytes hsome]
            dsimp only
            omega
          · cases hsome
      · unfold bytesOf
        dsimp only
        simp only [List.map_append, List.map_cons, List.map_nil, List.sum_append, List.sum_cons,
          List.sum_nil]
        omega

theorem assignBytesToDlLC_le (hn : (ueLCG.map Prod.fst).Nodup) :
    bytesOf (Q.assignBytesToDlLC ueLCG tbs) ≤ tbs := by
  have hgbr := assignGbrs_le (Q := Q) tbs hn
  have hmap : ∀ l : List (ℕ × ℕ),
      bytesOf (l.map fun it => ⟨1, it.1, it.2⟩) = bytesByLc l := by
    intro l
    unfold bytesOf bytesByLc
    rw [List.map_map]
    rfl
  have hsplit : ∀ l l' : List Assignation, bytesOf (l ++ l') = bytesOf l + bytesOf l' := by
    intro l l'
    unfold bytesOf
    rw [List.map_append, List.sum_append]
  unfold assignBytesToDlLC
  dsimp only
  rw [hsplit, hmap]
  split
  · rw [foldl_assignRest, (inOrder_perm hn fun c hc => hc).length_eq]
    have hparts := Nat.mul_div_le (Q.assignGbrs ueLCG tbs).2 (activeChannels ueLCG).length
    have hnone : bytesOf [] = 0 := rfl
    dsimp only
    omega
  · have hnone : bytesOf [] = 0 := rfl
    dsimp only
    omega

end LcQos

/-! ### For active channels, and once -/

/-- The channel of an entry: its LCG, and its identifier. -/
def Assignation.channel (a : Assignation) : ℕ × ℕ := (a.lcg, a.lcId)

def channelOf (c : ℕ × NrMacSchedulerLC) : ℕ × ℕ := (c.1, c.2.id)

/-- The identifiers of the channels are distinct in each LCG, so that the channels are. -/
theorem channelOf_nodup {ueLCG : LcgMap} (hn : (ueLCG.map Prod.fst).Nodup)
    (hids : ∀ lcg ∈ ueLCG, ((getActiveLCs lcg.2).map NrMacSchedulerLC.id).Nodup) :
    ((activeChannels ueLCG).map channelOf).Nodup := by
  unfold activeChannels
  rw [List.map_flatMap, List.nodup_flatMap]
  have hmap : ∀ lcg : ℕ × NrMacSchedulerLCG,
      ((getActiveLCs lcg.2).map fun lc => (lcg.1, lc)).map channelOf =
        ((getActiveLCs lcg.2).map NrMacSchedulerLC.id).map fun i => (lcg.1, i) := by
    intro lcg
    rw [List.map_map, List.map_map]
    rfl
  constructor
  · intro lcg hlcg
    rw [hmap]
    exact (hids lcg hlcg).map fun i j h => congrArg Prod.snd h
  · refine (List.pairwise_map.mp hn).imp fun {lcg lcg'} hne => ?_
    intro k hk hk'
    dsimp only at hk hk'
    rw [hmap] at hk hk'
    obtain ⟨i, -, rfl⟩ := List.mem_map.mp hk
    obtain ⟨j, -, he⟩ := List.mem_map.mp hk'
    exact hne (congrArg Prod.fst he).symm

namespace LcQos

variable {Q : LcQos} {ueLCG : LcgMap} {tbs : ℕ}

theorem addTo_cases (lcId bytes : ℕ) : ∀ l : List (ℕ × ℕ),
    (lcId ∉ l.map Prod.fst ∧ addTo lcId bytes l = none) ∨
      (lcId ∈ l.map Prod.fst ∧ ∃ l', addTo lcId bytes l = some l' ∧ l'.map Prod.fst = l.map Prod.fst)
  | [] => .inl ⟨List.not_mem_nil, rfl⟩
  | it :: rest => by
      by_cases hit : it.1 = lcId
      · refine .inr ⟨?_, (it.1, it.2 + bytes) :: rest, by rw [addTo, if_pos hit], rfl⟩
        rw [List.map_cons, hit]
        exact List.mem_cons_self
      · have hmem : lcId ∈ (it :: rest).map Prod.fst ↔ lcId ∈ rest.map Prod.fst := by
          rw [List.map_cons, List.mem_cons]
          exact or_iff_right fun e => hit e.symm
        rw [addTo, if_neg hit, hmem]
        rcases addTo_cases lcId bytes rest with ⟨hnot, hnone⟩ | ⟨hmem, l', hsome, hids⟩
        · exact .inl ⟨hnot, by rw [hnone]; rfl⟩
        · exact .inr ⟨hmem, it :: l', by rw [hsome]; rfl, by rw [List.map_cons, List.map_cons, hids]⟩

/-- The last loop makes an entry for the channels that have none yet. -/
theorem foldl_assignRest_channels (bytesPerLc : ℕ) (l : List (ℕ × NrMacSchedulerLC))
    (s : List Assignation × List (ℕ × ℕ)) :
    (l.foldl (assignRest bytesPerLc) s).2.map Prod.fst = s.2.map Prod.fst ∧
      (l.foldl (assignRest bytesPerLc) s).1.map Assignation.channel =
        s.1.map Assignation.channel ++ (l.filter fun c =>
          ¬ (c.1 = 1 ∧ c.2.id ∈ s.2.map Prod.fst)).map channelOf := by
  induction l generalizing s with
  | nil => simp
  | cons c l ih =>
      obtain ⟨ih1, ih2⟩ := ih (assignRest bytesPerLc s c)
      rw [List.foldl_cons, ih1, ih2, List.filter_cons]
      have hround : (assignRest bytesPerLc s c).2.map Prod.fst = s.2.map Prod.fst ∧
          (assignRest bytesPerLc s c).1.map Assignation.channel =
            s.1.map Assignation.channel ++
              if c.1 = 1 ∧ c.2.id ∈ s.2.map Prod.fst then [] else [channelOf c] := by
        unfold assignRest
        by_cases h1 : c.1 = 1
        · rw [if_pos h1]
          rcases addTo_cases c.2.id bytesPerLc s.2 with ⟨hnot, hnone⟩ | ⟨hmem, l', hsome, hids⟩
          · rw [hnone, if_neg fun h => hnot h.2, List.map_append]
            exact ⟨rfl, rfl⟩
          · rw [hsome, if_pos ⟨h1, hmem⟩, List.append_nil]
            exact ⟨hids, rfl⟩
        · rw [if_neg h1, if_neg fun h => h1 h.1, List.map_append]
          exact ⟨rfl, rfl⟩
      rw [hround.1, hround.2]
      refine ⟨rfl, ?_⟩
      by_cases hc : c.1 = 1 ∧ c.2.id ∈ s.2.map Prod.fst
      · rw [if_pos hc, if_neg (by simpa using hc), List.append_nil]
      · rw [if_neg hc, if_pos (decide_eq_true hc), List.append_assoc]
        rfl

/-- Each channel with a guaranteed bit rate has one entry, or none has. -/
theorem assignGbrs_ids (Q : LcQos) (ueLCG : LcgMap) (tbs : ℕ) :
    ((Q.assignGbrs ueLCG tbs).1.map Prod.fst).Sublist
      ((inOrder ueLCG ((activeChannels ueLCG).filter Q.isGbr)).map fun c => c.2.id) := by
  have hfold : ∀ (l : List (ℕ × NrMacSchedulerLC)) (s : List (ℕ × ℕ) × ℕ),
      (l.foldl Q.assignGbr s).1.map Prod.fst = s.1.map Prod.fst ++ l.map fun c => c.2.id := by
    intro l
    induction l with
    | nil => exact fun s => (List.append_nil _).symm
    | cons c l ih =>
        intro s
        rw [List.foldl_cons, ih, List.map_cons, assignGbr, List.map_append, List.append_assoc]
        rfl
  unfold assignGbrs
  dsimp only
  split
  · split
    · rw [List.map_map]
      exact List.Sublist.refl _
    · exact List.nil_sublist _
  · rw [hfold]
    exact List.Sublist.refl _

theorem assignBytesToDlLC_channels (hn : (ueLCG.map Prod.fst).Nodup)
    (hids : ((activeChannels ueLCG).map channelOf).Nodup)
    (hgbr : ∀ c ∈ activeChannels ueLCG, Q.isGbr c = true → c.1 = 1) :
    ((Q.assignBytesToDlLC ueLCG tbs).map Assignation.channel).Nodup ∧
      ∀ a ∈ Q.assignBytesToDlLC ueLCG tbs,
        a.channel ∈ (activeChannels ueLCG).map channelOf := by
  have hgbrs := assignGbrs_ids Q ueLCG tbs
  set g := Q.assignGbrs ueLCG tbs
  have hperm := inOrder_perm hn (l := (activeChannels ueLCG).filter Q.isGbr)
    fun c hc => List.mem_of_mem_filter hc
  have hnodup : (g.1.map Prod.fst).Nodup := by
    refine hgbrs.nodup ?_
    rw [(hperm.map _).nodup_iff]
    have hpairs := (List.filter_sublist (p := Q.isGbr).map channelOf).nodup hids
    have hone : ((activeChannels ueLCG).filter Q.isGbr).map channelOf =
        (((activeChannels ueLCG).filter Q.isGbr).map fun c => c.2.id).map fun i => (1, i) := by
      rw [List.map_map]
      refine List.map_congr_left fun c hc => ?_
      obtain ⟨hc, hq⟩ := List.mem_filter.mp hc
      exact congrArg (·, c.2.id) (hgbr c hc hq)
    rw [hone] at hpairs
    exact hpairs.of_map _
  have hfirst : ∀ i ∈ g.1.map Prod.fst, (1, i) ∈ (activeChannels ueLCG).map channelOf := by
    intro i hi
    obtain ⟨c, hc, rfl⟩ := List.mem_map.mp (hgbrs.subset hi)
    obtain ⟨hc, hq⟩ := List.mem_filter.mp (hperm.mem_iff.mp hc)
    exact List.mem_map.mpr ⟨c, hc, by rw [channelOf, hgbr c hc hq]⟩
  have hpair : ∀ l : List (ℕ × ℕ), (l.map fun it => (⟨1, it.1, it.2⟩ : Assignation)).map
      Assignation.channel = (l.map Prod.fst).map fun i => (1, i) := by
    intro l
    rw [List.map_map, List.map_map]
    rfl
  have hones : ((g.1.map Prod.fst).map fun i => ((1 : ℕ), i)).Nodup :=
    hnodup.map fun i j h => congrArg Prod.snd h
  have hboth : ∀ a ∈ (g.1.map Prod.fst).map fun i => ((1 : ℕ), i),
      a ∈ (activeChannels ueLCG).map channelOf := by
    intro a ha
    obtain ⟨i, hi, rfl⟩ := List.mem_map.mp ha
    exact hfirst i hi
  suffices h : ((Q.assignBytesToDlLC ueLCG tbs).map Assignation.channel).Nodup ∧
      ∀ k ∈ (Q.assignBytesToDlLC ueLCG tbs).map Assignation.channel,
        k ∈ (activeChannels ueLCG).map channelOf from
    ⟨h.1, fun a ha => h.2 a.channel (List.mem_map_of_mem ha)⟩
  unfold assignBytesToDlLC
  dsimp only
  rw [List.map_append]
  split
  · obtain ⟨h1, h2⟩ := foldl_assignRest_channels (g.2 / (activeChannels ueLCG).length)
      (inOrder ueLCG (activeChannels ueLCG)) ([], g.1)
    have hall := inOrder_perm hn (l := activeChannels ueLCG) fun c hc => hc
    rw [hpair, h1, h2, List.map_nil, List.nil_append]
    constructor
    · refine List.nodup_append'.mpr ⟨?_, hones, fun k hk hk' => ?_⟩
      · have hkeys : ((inOrder ueLCG (activeChannels ueLCG)).map channelOf).Nodup := by
          rw [(hall.map _).nodup_iff]
          exact hids
        exact (List.filter_sublist.map _).nodup hkeys
      · obtain ⟨c, hc, rfl⟩ := List.mem_map.mp hk
        obtain ⟨i, hi, he⟩ := List.mem_map.mp hk'
        obtain ⟨h1, rfl⟩ := Prod.mk.inj he
        exact of_decide_eq_true (List.mem_filter.mp hc).2 ⟨h1.symm, hi⟩
    · intro k hk
      rcases List.mem_append.mp hk with hk | hk
      · obtain ⟨c, hc, rfl⟩ := List.mem_map.mp hk
        exact List.mem_map_of_mem (hall.mem_iff.mp (List.mem_of_mem_filter hc))
      · exact hboth k hk
  · rw [List.map_nil, List.nil_append, hpair]
    exact ⟨hones, hboth⟩

end LcQos

/-- A TCP bearer without a guaranteed bit rate and two voice bearers with one, all in LCG 1. -/
def threeBearers : LcgMap :=
  [(1, [⟨4, 500, 0, 0, 2 ^ 64 - 1⟩, ⟨5, 120, 0, 0, 64000⟩, ⟨6, 90, 0, 0, 64000⟩])]

/-- Slots of a millisecond. -/
def voice : LcQos where
  hasGbrType := fun lc => decide (4 < lc.id)
  slotPeriod := roundDouble (1 / 1000)
  fl := roundDouble

/-- **An entry is for an active channel, and no channel has two**, if every channel with a guaranteed
bit rate is in LCG 1. -/
theorem assigned_once (A : LcAlgorithm) (ueLCG : LcgMap) (hn : (ueLCG.map Prod.fst).Nodup)
    (hids : ∀ lcg ∈ ueLCG, ((getActiveLCs lcg.2).map NrMacSchedulerLC.id).Nodup)
    (hgbr : ∀ Q, A = .qos Q → ∀ c ∈ activeChannels ueLCG, Q.isGbr c = true → c.1 = 1) (tbs : ℕ) :
    ((A.assignBytesToDlLC ueLCG tbs).map Assignation.channel).Nodup ∧
      ∀ a ∈ A.assignBytesToDlLC ueLCG tbs,
        a.channel ∈ (activeChannels ueLCG).map channelOf := by
  have hchannels := channelOf_nodup hn hids
  cases A with
  | rr =>
      have hall : (assignBytesToLC ueLCG tbs).map Assignation.channel =
          (activeChannels ueLCG).map channelOf := by
        rw [assignBytesToLC, List.map_map]
        rfl
      refine ⟨?_, fun a ha => hall ▸ List.mem_map_of_mem ha⟩
      show ((assignBytesToLC ueLCG tbs).map Assignation.channel).Nodup
      rw [hall]
      exact hchannels
  | qos Q => exact LcQos.assignBytesToDlLC_channels hn hchannels (hgbr Q rfl)

theorem assigned_once_threeBearers :
    (((LcAlgorithm.qos voice).assignBytesToDlLC threeBearers 100).map Assignation.channel).Nodup ∧
      ∀ a ∈ (LcAlgorithm.qos voice).assignBytesToDlLC threeBearers 100,
        a.channel ∈ (activeChannels threeBearers).map channelOf :=
  assigned_once (.qos voice) threeBearers (by decide) (by decide)
    (fun Q hQ => by cases hQ; decide) 100

/-- **No more bytes than the transport block has**, in either direction, are given to the logical
channels. -/
theorem bytes_le (A : LcAlgorithm) (ueLCG : LcgMap) (hn : (ueLCG.map Prod.fst).Nodup) (tbs : ℕ) :
    bytesOf (A.assignBytesToDlLC ueLCG tbs) ≤ tbs ∧
      bytesOf (A.assignBytesToUlLC ueLCG tbs) ≤ tbs := by
  cases A with
  | rr => exact ⟨assignBytesToLC_le ueLCG tbs, assignBytesToLC_le ueLCG tbs⟩
  | qos Q => exact ⟨LcQos.assignBytesToDlLC_le hn, assignBytesToLC_le ueLCG tbs⟩

theorem bytes_le_threeBearers :
    bytesOf ((LcAlgorithm.qos voice).assignBytesToDlLC threeBearers 100) ≤ 100 ∧
      bytesOf ((LcAlgorithm.qos voice).assignBytesToUlLC threeBearers 100) ≤ 100 :=
  bytes_le (.qos voice) threeBearers (by decide) 100

/-! ### When a queue is empty in the end -/

section Drain

variable {fmt : DciFormat} {size : ℕ} {lc : NrMacSchedulerLC}

/-- The channel has no more to send than what is in its transmission queue. -/
structure OnlyNew (lc : NrMacSchedulerLC) : Prop where
  status : lc.rlcStatusPduSize = 0
  retx : lc.rlcRetransmissionQueueSize = 0

/-- **Step lemma.**  What one grant leaves of the transmission queue. -/
theorem OnlyNew.assignedData (h : OnlyNew lc) {sent : ℕ}
    (hsent : subUint32 size (rlcOverhead fmt lc.id) = sent) :
    OnlyNew (lc.assignedData fmt size) ∧ (lc.assignedData fmt size).id = lc.id ∧
      (lc.assignedData fmt size).rlcTransmissionQueueSize =
        if lc.rlcTransmissionQueueSize ≤ sent then 0
        else max (rlcFloor fmt) (lc.rlcTransmissionQueueSize - sent) := by
  obtain ⟨hstatus, hretx⟩ := h
  unfold NrMacSchedulerLC.assignedData
  rw [if_neg (by omega), if_neg (by omega), hsent]
  by_cases htx : 0 < lc.rlcTransmissionQueueSize
  · rw [if_pos htx]
    refine ⟨⟨hstatus, hretx⟩, rfl, ?_⟩
    dsimp only
    by_cases hle : lc.rlcTransmissionQueueSize ≤ sent
    · rw [if_pos hle, if_pos hle, if_neg (by omega)]
    · rw [if_neg hle, if_neg hle]
      split
      · omega
      · omega
  · rw [if_neg htx, if_pos (by omega)]
    exact ⟨⟨hstatus, hretx⟩, rfl, Nat.eq_zero_of_not_pos htx⟩

theorem drained_of_sent (h : OnlyNew lc) {sent : ℕ}
    (hsent : subUint32 size (rlcOverhead fmt lc.id) = sent) :
    (∃ n, ((fun lc : NrMacSchedulerLC => lc.assignedData fmt size)^[n] lc).rlcTransmissionQueueSize =
        0) ↔ rlcFloor fmt ≤ sent ∨ lc.rlcTransmissionQueueSize ≤ sent := by
  have hfloor : 0 < rlcFloor fmt := by
    cases fmt
    · decide
    · decide
  constructor
  · rintro ⟨n, hn⟩
    by_contra hnot
    rw [not_or, not_le, not_le] at hnot
    have hkeep : ∀ n, ∃ lc', (fun lc : NrMacSchedulerLC => lc.assignedData fmt size)^[n] lc = lc' ∧
        OnlyNew lc' ∧ lc'.id = lc.id ∧ sent < lc'.rlcTransmissionQueueSize := by
      intro n
      induction n with
      | zero => exact ⟨lc, rfl, h, rfl, hnot.2⟩
      | succ n ih =>
          obtain ⟨lc', hrun, hnew, hid, hlong⟩ := ih
          rw [Function.iterate_succ_apply', hrun]
          have hsent' : subUint32 size (rlcOverhead fmt lc'.id) = sent := by
            rw [hid]
            exact hsent
          obtain ⟨hnew', hid', hqueue⟩ := hnew.assignedData hsent'
          refine ⟨_, rfl, hnew', hid'.trans hid, ?_⟩
          rw [hqueue, if_neg (by omega)]
          omega
    obtain ⟨lc', hrun, -, -, hlong⟩ := hkeep n
    rw [hrun] at hn
    omega
  · intro hreach
    induction hq : lc.rlcTransmissionQueueSize using Nat.strong_induction_on generalizing lc with
    | _ q ih =>
        obtain ⟨hnew, hid, hqueue⟩ := h.assignedData hsent
        by_cases hle : lc.rlcTransmissionQueueSize ≤ sent
        · rw [if_pos hle] at hqueue
          exact ⟨1, hqueue⟩
        · rw [if_neg hle] at hqueue
          have hstep : rlcFloor fmt ≤ sent := hreach.resolve_right hle
          obtain ⟨n, hn⟩ := ih (lc.assignedData fmt size).rlcTransmissionQueueSize (by omega) hnew
            (by rw [hid]; exact hsent) (.inl hstep) rfl
          exact ⟨n + 1, hn⟩

theorem assignedData_id (lc : NrMacSchedulerLC) : (lc.assignedData fmt size).id = lc.id := by
  unfold NrMacSchedulerLC.assignedData
  split_ifs <;> rfl

theorem iterate_assignedData_id (lc : NrMacSchedulerLC) (n : ℕ) :
    ((fun lc : NrMacSchedulerLC => lc.assignedData fmt size)^[n] lc).id = lc.id := by
  induction n with
  | zero => rfl
  | succ n ih => rw [Function.iterate_succ_apply', assignedData_id, ih]

/-- **Run lemma.**  The grants of a channel do not fail, and leave the other channels as they are. -/
theorem assignedData_grants {lcg : NrMacSchedulerLCG} {lcId : ℕ}
    (h : lcId ∈ lcg.map NrMacSchedulerLC.id) (n : ℕ) :
    (List.replicate n size).foldlM (fun lcg size => lcg.assignedData fmt lcId size) lcg =
      .ok (lcg.map fun lc =>
        if lc.id = lcId then (fun lc : NrMacSchedulerLC => lc.assignedData fmt size)^[n] lc
        else lc) := by
  induction n generalizing lcg with
  | zero => simp [pure, Except.pure]
  | succ n ih =>
      have hne : lcg ≠ [] := by
        rintro rfl
        cases h
      set lcg' := lcg.map fun lc => if lc.id = lcId then lc.assignedData fmt size else lc with hlcg'
      have hstep : NrMacSchedulerLCG.assignedData lcg fmt lcId size = .ok lcg' := by
        rw [NrMacSchedulerLCG.assignedData, if_neg hne, if_pos h]
      have hids : lcg'.map NrMacSchedulerLC.id = lcg.map NrMacSchedulerLC.id := by
        rw [hlcg', List.map_map]
        refine List.map_congr_left fun lc _ => ?_
        simp only [Function.comp_apply]
        split
        · exact assignedData_id lc
        · rfl
      rw [List.replicate_succ, List.foldlM_cons, hstep]
      refine (ih (by rw [hids]; exact h)).trans (congrArg Except.ok ?_)
      rw [hlcg', List.map_map]
      refine List.map_congr_left fun lc _ => ?_
      simp only [Function.comp_apply]
      by_cases hlc : lc.id = lcId
      · rw [if_pos hlc, if_pos hlc, if_pos (by rw [assignedData_id]; exact hlc),
          Function.iterate_succ_apply]
      · rw [if_neg hlc, if_neg hlc, if_neg hlc]

/-- **A queue that gets the same grant in every slot is empty in the end** exactly if the grant has room
for the RLC header and the floor, or for the header and the whole queue at once, or not even for the
header: then the difference wraps around. -/
theorem drained_iff (fmt : DciFormat) (size : ℕ) (hlt : size < 2 ^ 32) (lcg : NrMacSchedulerLCG)
    (hids : (lcg.map NrMacSchedulerLC.id).Nodup) (lc : NrMacSchedulerLC) (hlc : lc ∈ lcg)
    (hnew : OnlyNew lc) :
    (∃ n lcg', (List.replicate n size).foldlM
        (fun lcg size => NrMacSchedulerLCG.assignedData lcg fmt lc.id size) lcg = .ok lcg' ∧
      ∃ lc' ∈ lcg', lc'.id = lc.id ∧ lc'.rlcTransmissionQueueSize = 0) ↔
      size < rlcOverhead fmt lc.id ∨ rlcOverhead fmt lc.id + rlcFloor fmt ≤ size ∨
        rlcOverhead fmt lc.id + lc.rlcTransmissionQueueSize ≤ size := by
  have hmem : lc.id ∈ lcg.map NrMacSchedulerLC.id := List.mem_map_of_mem hlc
  have hfloor : rlcFloor fmt ≤ 12 := by
    cases fmt
    · decide
    · decide
  have hoverhead : rlcOverhead fmt lc.id ≤ 4 := by
    unfold rlcOverhead
    split
    · decide
    · decide
  have hdrained := drained_of_sent hnew
    (rfl : subUint32 size (rlcOverhead fmt lc.id) = subUint32 size (rlcOverhead fmt lc.id))
  have hsent : (rlcFloor fmt ≤ subUint32 size (rlcOverhead fmt lc.id) ∨
      lc.rlcTransmissionQueueSize ≤ subUint32 size (rlcOverhead fmt lc.id)) ↔
      size < rlcOverhead fmt lc.id ∨ rlcOverhead fmt lc.id + rlcFloor fmt ≤ size ∨
        rlcOverhead fmt lc.id + lc.rlcTransmissionQueueSize ≤ size := by
    unfold subUint32
    omega
  rw [← hsent, ← hdrained]
  constructor
  · rintro ⟨n, lcg', hrun, lc', hlc', hid, hzero⟩
    rw [assignedData_grants hmem n] at hrun
    cases hrun
    obtain ⟨lc₀, hlc₀, rfl⟩ := List.mem_map.mp hlc'
    by_cases hsame : lc₀.id = lc.id
    · obtain rfl := List.inj_on_of_nodup_map hids hlc₀ hlc hsame
      rw [if_pos rfl] at hzero
      exact ⟨n, hzero⟩
    · rw [if_neg hsame] at hid
      exact absurd hid hsame
  · rintro ⟨n, hn⟩
    refine ⟨n, _, assignedData_grants hmem n, _, List.mem_map_of_mem hlc, ?_, ?_⟩
    · rw [if_pos rfl]
      exact iterate_assignedData_id lc n
    · rw [if_pos rfl]
      exact hn

/-- Twenty bytes to send. -/
def twentyBytes : NrMacSchedulerLC := ⟨4, 20, 0, 0, 0⟩

theorem drained_iff_twentyBytes :
    (¬ ∃ n lcg', (List.replicate n 13).foldlM
        (fun lcg size => NrMacSchedulerLCG.assignedData lcg .ul 4 size) [twentyBytes] = .ok lcg' ∧
      ∃ lc' ∈ lcg', lc'.id = 4 ∧ lc'.rlcTransmissionQueueSize = 0) ∧
    ∃ n lcg', (List.replicate n 1).foldlM
        (fun lcg size => NrMacSchedulerLCG.assignedData lcg .ul 4 size) [twentyBytes] = .ok lcg' ∧
      ∃ lc' ∈ lcg', lc'.id = 4 ∧ lc'.rlcTransmissionQueueSize = 0 :=
  ⟨(drained_iff .ul 13 (by decide) [twentyBytes] (by decide) twentyBytes
      List.mem_cons_self ⟨rfl, rfl⟩).not.mpr (by decide),
    (drained_iff .ul 1 (by decide) [twentyBytes] (by decide) twentyBytes
      List.mem_cons_self ⟨rfl, rfl⟩).mpr (by decide)⟩

end Drain

end Rbis
