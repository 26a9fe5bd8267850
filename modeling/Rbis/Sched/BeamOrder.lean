import Mathlib.Data.List.Rotate
import Rbis.Lib.Runs
import Rbis.Sched.HarqRetransmit

/-! # The order of the beams

`GetBeamOrderRR` keeps a queue of the beams that ever had a retransmission, `m_rrBeams`.  Every call
moves all its elements to its end, one after the other, so that the queue is as before
(`orderLoop_eq`): it holds the beams in the order of their first activity.  An active beam is written
at its position in the queue, into an array with as many places as beams are active.  So the calls
stay within the array exactly if no beam that has become active before an active one is inactive
(`inBounds`). -/

namespace Rbis

variable {active queue front rest : List BeamId}

/-- The active beams are at the front of the queue. -/
def InFront (active queue : List BeamId) : Prop := ∀ b ∈ queue.drop active.length, b ∉ active

instance (active queue : List BeamId) : Decidable (InFront active queue) :=
  inferInstanceAs (Decidable (∀ b ∈ queue.drop active.length, b ∉ active))

/-! ### One call -/

/-- The beams of the queue that are active, written at their positions. -/
def writeOrder (active : List BeamId) : ℕ → List BeamId → List (Option BeamId) →
    Except Fault (List (Option BeamId))
  | _, [], ret => .ok ret
  | i, beam :: rest, ret =>
      if beam ∈ active then
        if i < ret.length then writeOrder active (i + 1) rest (ret.set i (some beam))
        else .error .outOfRange
      else writeOrder active (i + 1) rest ret

theorem orderLoop_eq (active : List BeamId) :
    ∀ (front back : List BeamId) (i : ℕ) (ret : List (Option BeamId)),
    orderLoop active front.length i (front ++ back) ret =
      (writeOrder active i front ret).map (·, (front ++ back).rotate front.length)
  | [], back, _, _ => by
      rw [List.length_nil, List.rotate_zero]
      rfl
  | b :: front, back, i, ret => by
      have ih := fun ret => orderLoop_eq active front (back ++ [b]) (i + 1) ret
      rw [← List.append_assoc] at ih
      rw [List.length_cons, List.cons_append, List.rotate_cons_succ, writeOrder, orderLoop]
      split
      · split
        · exact ih _
        · rfl
      · exact ih _

theorem getBeamOrderRR_eq (rr active : List BeamId) :
    getBeamOrderRR rr active =
      (writeOrder active 0 (addBeams rr active) (List.replicate active.length none)).map
        (·, addBeams rr active) := by
  have h := orderLoop_eq active (addBeams rr active) [] 0 (List.replicate active.length none)
  rw [List.append_nil, List.rotate_length] at h
  exact h

theorem mem_addBeams {rr : List BeamId} {b : BeamId} :
    b ∈ addBeams rr active ↔ b ∈ rr ∨ b ∈ active := by
  rw [addBeams, List.mem_append, List.mem_filter, decide_eq_true_eq]
  constructor
  · rintro (h | h)
    · exact .inl h
    · exact .inr h.1
  · rintro (h | h)
    · exact .inl h
    · by_cases hr : b ∈ rr
      · exact .inl hr
      · exact .inr ⟨h, hr⟩

theorem writeOrder_inactive : ∀ {i : ℕ} {ret : List (Option BeamId)} {rest : List BeamId},
    (∀ b ∈ rest, b ∉ active) → writeOrder active i rest ret = .ok ret
  | _, _, [], _ => rfl
  | i, ret, b :: rest, h => by
      rw [writeOrder, if_neg (h b List.mem_cons_self)]
      exact writeOrder_inactive fun c hc => h c (List.mem_cons_of_mem b hc)

theorem writeOrder_active (hrest : ∀ b ∈ rest, b ∉ active) : ∀ (front : List BeamId)
    (written : List (Option BeamId)), (∀ b ∈ front, b ∈ active) →
    writeOrder active written.length (front ++ rest)
      (written ++ List.replicate front.length none) = .ok (written ++ front.map some)
  | [], written, _ => by
      rw [List.length_nil, List.replicate_zero, List.map_nil]
      exact writeOrder_inactive hrest
  | b :: front, written, h => by
      have hlt : written.length < (written ++ List.replicate (b :: front).length none).length := by
        simp
      have ih := writeOrder_active hrest front (written ++ [some b])
        fun c hc => h c (List.mem_cons_of_mem b hc)
      rw [List.length_append, List.length_singleton, List.append_assoc, List.append_assoc] at ih
      rw [List.cons_append, writeOrder, if_pos (h b List.mem_cons_self), if_pos hlt,
        List.length_cons, List.replicate_succ, List.set_append_right _ _ le_rfl, Nat.sub_self,
        List.set_cons_zero]
      exact ih

/-- An active beam behind the places is written out of range. -/
theorem writeOrder_error : ∀ {queue : List BeamId} {i : ℕ} {ret : List (Option BeamId)}
    {b : BeamId}, b ∈ queue.drop (ret.length - i) → b ∈ active →
    writeOrder active i queue ret = .error .outOfRange
  | [], _, _, _, hb, _ => by simp at hb
  | c :: queue, i, ret, b, hb, ha => by
      rw [writeOrder]
      by_cases hlt : i < ret.length
      · have hdrop : b ∈ queue.drop (ret.length - (i + 1)) := by
          rw [show ret.length - i = ret.length - (i + 1) + 1 by omega, List.drop_succ_cons] at hb
          exact hb
        split
        · refine writeOrder_error ?_ ha
          rw [List.length_set]
          exact hdrop
        · exact writeOrder_error hdrop ha
      · by_cases hc : c ∈ active
        · rw [if_pos hc, if_neg hlt]
        · rw [if_neg hc]
          refine writeOrder_error ?_ ha
          rw [show ret.length - i = 0 by omega, List.drop_zero] at hb
          rw [show ret.length - (i + 1) = 0 by omega, List.drop_zero]
          refine (List.mem_cons.mp hb).resolve_left ?_
          rintro rfl
          exact hc ha

theorem getBeamOrderRR_ok {rr : List BeamId} (ha : active.Nodup)
    (h : InFront active (addBeams rr active)) :
    getBeamOrderRR rr active =
      .ok (((addBeams rr active).take active.length).map some, addBeams rr active) := by
  have hsub : active ⊆ (addBeams rr active).take active.length := fun b hb => by
    have hmem : b ∈ addBeams rr active := mem_addBeams.mpr (.inr hb)
    rw [← List.take_append_drop active.length (addBeams rr active)] at hmem
    exact (List.mem_append.mp hmem).resolve_right fun hd => h b hd hb
  have hperm : active.Perm ((addBeams rr active).take active.length) :=
    (List.subperm_of_subset ha hsub).perm_of_length_le (List.length_take_le _ _)
  have hwrite := writeOrder_active h _ [] fun b hb => hperm.mem_iff.mpr hb
  rw [List.nil_append, List.nil_append, List.length_nil, List.take_append_drop,
    ← hperm.length_eq] at hwrite
  rw [getBeamOrderRR_eq, hwrite]
  rfl

theorem getBeamOrderRR_error {rr : List BeamId} (h : ¬ InFront active (addBeams rr active)) :
    getBeamOrderRR rr active = .error .outOfRange := by
  obtain ⟨b, hb, ha⟩ : ∃ b ∈ (addBeams rr active).drop active.length, b ∈ active := by
    by_contra hnone
    exact h fun b hb ha => hnone ⟨b, hb, ha⟩
  rw [getBeamOrderRR_eq, writeOrder_error (by simpa using hb) ha]
  rfl

/-! ### All calls -/

namespace BeamOrder

/-- The queue, and the orders that were returned. -/
abbrev Calls := List BeamId × List (List (Option BeamId))

def step (s : Calls) (active : List BeamId) : Except Fault Calls := do
  let r ← getBeamOrderRR s.1 active
  return (r.2, s.2 ++ [r.1])

/-- At each call, the active beams are the first of those that have become active so far. -/
abbrev InTurn : List BeamId → List (List BeamId) → Prop :=
  Runs.AllSteps addBeams fun queue active => InFront active (addBeams queue active)

/-- The first ones of the beams that have become active, as many as are active. -/
def orders : List BeamId → List (List BeamId) → List (List (Option BeamId))
  | _, [] => []
  | queue, active :: rest =>
      ((addBeams queue active).take active.length).map some :: orders (addBeams queue active) rest

theorem run_eq {actives : List (List BeamId)} (h : ∀ active ∈ actives, active.Nodup) :
    ∀ s : Calls, Runs.run step s actives =
      if InTurn s.1 actives then .ok (Runs.exec addBeams s.1 actives, s.2 ++ orders s.1 actives)
      else .error .outOfRange := by
  induction actives with
  | nil =>
      intro s
      rw [if_pos (show InTurn s.1 [] from trivial), orders, List.append_nil]
      rfl
  | cons active rest ih =>
      intro s
      have ih := ih fun b hb => h b (List.mem_cons_of_mem active hb)
      by_cases hfront : InFront active (addBeams s.1 active)
      · have hstep : step s active = .ok (addBeams s.1 active,
            s.2 ++ [((addBeams s.1 active).take active.length).map some]) := by
          rw [step, getBeamOrderRR_ok (h active List.mem_cons_self) hfront]
          rfl
        rw [Runs.run_cons_of_ok hstep, ih, List.append_assoc]
        refine if_congr ⟨fun hrest => ⟨hfront, hrest⟩, fun hturn => hturn.2⟩ rfl rfl
      · have hstep : step s active = .error .outOfRange := by
          rw [step, getBeamOrderRR_error hfront]
          rfl
        rw [Runs.run, hstep, if_neg fun hturn => hfront hturn.1]

/-- **The beams take no turns.** The calls stay within the array exactly if at each of them the
active beams are the first ones of those that have become active so far, in the order of their first
activity; and this is the order that every call returns. -/
theorem inBounds (actives : List (List BeamId)) (h : ∀ active ∈ actives, active.Nodup) :
    Runs.run step ([], []) actives =
      if InTurn [] actives then .ok (Runs.exec addBeams [] actives, orders [] actives)
      else .error .outOfRange :=
  run_eq h ([], [])

/-- Two beams, of which the second is active alone in the end. -/
def alone : List (List BeamId) := [[⟨1, 0⟩], [⟨2, 0⟩, ⟨1, 0⟩], [⟨2, 0⟩]]

/-- The last call writes out of range. -/
theorem inBounds_alone : Runs.run step ([], []) alone = .error .outOfRange :=
  (inBounds alone (by decide)).trans (if_neg (by decide))

end BeamOrder

end Rbis
