import Rbis.Rlc.UmReceive
import Rbis.Rlc.UmSegmentation

/-! # Reassembling refines joining frames

`ReassembleAndDeliver` has two reassembling states, four values of the framing info and two cases
for a loss.  All of them join the frame of the PDU to what is kept of an SDU
(`reassembleAndDeliver_join`); with a frame that follows the last one, the transition that the code
calls impossible is not taken. -/

namespace Rbis

open Cuts

/-- The segments of a data field are cut out by the length indicators. -/
theorem splitDataField_segments : ∀ {segs : List (List UInt8)}, segs ≠ [] →
    (∀ s ∈ segs.dropLast, s.length ≤ 2047) →
    UmReceiver.splitDataField (List.replicate (segs.length - 1) 1 ++ [0])
      (segs.dropLast.map fun s => UInt16.ofNat s.length) segs.flatten = .ok segs
  | [], hne, _ => absurd rfl hne
  | [x], _, _ => by simp [UmReceiver.splitDataField]
  | x :: y :: segs, _, hshort => by
      have hx : x.length ≤ 2047 := hshort x (by simp)
      have ih := splitDataField_segments (List.cons_ne_nil y segs) fun s hs =>
        hshort s (by rw [List.dropLast_cons_of_ne_nil (List.cons_ne_nil _ _)]
                     exact List.mem_cons_of_mem x hs)
      have hlen : (UInt16.ofNat x.length).toNat = x.length := by
        rw [UInt16.toNat_ofNat', Nat.mod_eq_of_lt (by omega)]
      have hbits : List.replicate ((x :: y :: segs).length - 1) 1 ++ [0] =
          1 :: (List.replicate ((y :: segs).length - 1) 1 ++ [0]) := by
        simp [List.replicate_succ]
      rw [hbits, List.dropLast_cons_of_ne_nil (List.cons_ne_nil y segs), List.map_cons,
        UmReceiver.splitDataField, if_neg (by omega)]
      simp only [hlen, List.flatten_cons]
      rw [if_neg (by rw [List.length_append]; omega), if_pos trivial, List.drop_left,
        List.take_left, ← List.flatten_cons, ih]
      rfl

namespace UmReceiver

/-- The part of an SDU that is kept for the next PDU. -/
def kept (s : UmReceiver) : Option (List UInt8) :=
  if s.reassemblingState = .waitingSiSf then s.keepS0 else none

/-- Between two PDUs no SDU is left in the list, and one is kept if the state says so. -/
structure Idle (s : UmReceiver) : Prop where
  sdusBuffer : s.sdusBuffer = []
  keepS0 : s.reassemblingState = .waitingSiSf → s.keepS0 ≠ none

theorem join_of_parts {k : Option (List UInt8)} {f : Frame UInt8} {l : List (List UInt8)}
    (h : parts k f = l.map some) :
    join k f = if f.endsInside then (l.getLast?, l.dropLast) else (none, l) := by
  rw [join, h, ← List.map_dropLast, filterMap_some, filterMap_some, List.getLast?_map]
  cases l.getLast? <;> rfl

theorem join_of_lost {k : Option (List UInt8)} {f : Frame UInt8} {l : List (List UInt8)}
    (h : parts k f = none :: l.map some) :
    join k f = if f.endsInside then (l.getLast?, l.dropLast) else (none, l) := by
  rw [join, h, filterMap_cons_none, filterMap_some]
  cases hl : l.getLast? with
  | none =>
      rw [List.getLast?_eq_none_iff.mp hl]
      rfl
  | some y =>
      have hne : l.map some ≠ [] := by
        rintro hnil
        rw [List.map_eq_nil_iff.mp hnil] at hl
        cases hl
      rw [List.dropLast_cons_of_ne_nil hne, filterMap_cons_none, ← List.map_dropLast,
        filterMap_some, List.getLast?_cons_of_ne_nil hne, List.getLast?_map, hl]
      rfl

/-! ### The transitions -/

variable {s : UmReceiver} {f : Frame UInt8} {x : List UInt8} {xs : List (List UInt8)}

theorem deliverAndKeepS0_eq {y : List UInt8} (h : s.sdusBuffer.getLast? = some y) :
    s.deliverAndKeepS0 = .ok { s with
      delivered := s.delivered ++ s.sdusBuffer.dropLast
      sdusBuffer := []
      keepS0 := some y } := by
  rw [deliverAndKeepS0, h]

theorem discardFirst_eq (h : s.sdusBuffer = x :: xs) :
    s.discardFirst = .ok { s with
      reassemblingState := if xs = [] then .waitingS0Full else .waitingSiSf
      delivered := s.delivered ++ xs.dropLast
      sdusBuffer := []
      keepS0 := if xs = [] then s.keepS0 else xs.getLast? } := by
  simp only [discardFirst, discardFront, h, List.length_cons, Fallible.ok_bind]
  cases xs with
  | nil => simp
  | cons y ys =>
      obtain ⟨z, hz⟩ : ∃ z, (y :: ys).getLast? = some z :=
        Option.ne_none_iff_exists'.mp (by simp)
      simp [deliverAndKeepS0, hz]

/-- What the transitions leave when `k` is kept and `d` is passed on. -/
def Joins (s t : UmReceiver) (r : Option (List UInt8) × List (List UInt8)) : Prop :=
  t.Idle ∧ t.kept = r.1 ∧ t = { s with
    reassemblingState := t.reassemblingState
    keepS0 := t.keepS0
    delivered := s.delivered ++ r.2
    sdusBuffer := [] }

theorem joins_all (s : UmReceiver) (k : Option (List UInt8)) (l : List (List UInt8)) :
    Joins s { s with
      reassemblingState := .waitingS0Full
      keepS0 := k
      delivered := s.delivered ++ l
      sdusBuffer := [] } (none, l) :=
  ⟨⟨rfl, fun h => by cases h⟩, rfl, rfl⟩

theorem joins_keep (s : UmReceiver) (y : List UInt8) (l : List (List UInt8)) :
    Joins s { s with
      reassemblingState := .waitingSiSf
      keepS0 := some y
      delivered := s.delivered ++ l
      sdusBuffer := [] } (some y, l) :=
  ⟨⟨rfl, fun _ => Option.some_ne_none y⟩, rfl, rfl⟩

/-- The framing info of a frame. -/
def framingInfoOf (f : Frame UInt8) : ℕ :=
  (if f.startsInside then 2 else 0) + (if f.endsInside then 1 else 0)

/-- The transitions when no part of an SDU is kept. -/
def reassembleFresh (s : UmReceiver) : ℕ → Except RlcFault UmReceiver
  | 0 => pure { s with reassemblingState := .waitingS0Full }.deliverAll
  | 1 => { s with reassemblingState := .waitingSiSf }.deliverAndKeepS0
  | 2 => do
      let t ← { s with reassemblingState := .waitingS0Full }.discardFront
      pure t.deliverAll
  | 3 => s.discardFirst
  | _ => pure s

theorem reassemble_eq_fresh {lost : Bool} (h : lost = true ∨ s.reassemblingState = .waitingS0Full) :
    ∀ {fi : ℕ}, fi < 4 → ∃ k, s.reassemble lost fi = { s with keepS0 := k }.reassembleFresh fi := by
  obtain ⟨_, _, _, _, _, _, st, k, _, _, _⟩ := s
  intro fi hfi
  obtain rfl | rfl | rfl | rfl : fi = 0 ∨ fi = 1 ∨ fi = 2 ∨ fi = 3 := by omega
  all_goals
    cases st with
    | waitingS0Full => cases lost <;> exact ⟨k, rfl⟩
    | waitingSiSf =>
        obtain rfl : lost = true := h.resolve_right (fun h => by cases h)
        exact ⟨none, rfl⟩

theorem framingInfoOf_lt (f : Frame UInt8) : framingInfoOf f < 4 := by
  unfold framingInfoOf
  split <;> split <;> omega

/-- Nothing is kept: the first segment is lost unless it starts an SDU. -/
theorem reassembleFresh_join (hsegs : f.segments = x :: xs) (k : Option (List UInt8)) :
    ∃ t, { s with sdusBuffer := f.segments, keepS0 := k }.reassembleFresh (framingInfoOf f) =
      .ok t ∧ Joins s t (join none f) := by
  obtain ⟨y, hy⟩ : ∃ y, (x :: xs).getLast? = some y :=
    Option.ne_none_iff_exists'.mp (by simp)
  cases hstart : f.startsInside with
  | false =>
      have hparts : parts none f = (x :: xs).map some := by
        rw [parts, hsegs, hstart]
        rfl
      rw [join_of_parts hparts, hsegs, framingInfoOf, hstart]
      cases f.endsInside with
      | false => exact ⟨_, rfl, joins_all s k (x :: xs)⟩
      | true =>
          refine ⟨_, deliverAndKeepS0_eq (s := { s with
            reassemblingState := .waitingSiSf
            keepS0 := k
            sdusBuffer := x :: xs }) hy, ?_⟩
          rw [if_pos rfl, hy]
          exact joins_keep s y _
  | true =>
      have hparts : parts none f = none :: xs.map some := by
        rw [parts, hsegs, hstart]
        rfl
      rw [join_of_lost hparts, hsegs, framingInfoOf, hstart]
      cases f.endsInside with
      | false => exact ⟨_, rfl, joins_all s k xs⟩
      | true =>
          refine ⟨_, discardFirst_eq (s := { s with
            keepS0 := k
            sdusBuffer := x :: xs }) rfl, ?_⟩
          rw [if_pos rfl]
          cases xs with
          | nil => exact joins_all s k []
          | cons z zs =>
              obtain ⟨w, hw⟩ : ∃ w, (z :: zs).getLast? = some w :=
                Option.ne_none_iff_exists'.mp (by simp)
              simp only [if_neg (List.cons_ne_nil z zs), hw]
              exact joins_keep s w _

/-- A part of an SDU is kept, and the frame follows it. -/
theorem reassemble_follows (hsegs : f.segments = x :: xs) (hstart : f.startsInside = true)
    (hst : s.reassemblingState = .waitingSiSf) {s0 : List UInt8} (hs0 : s.keepS0 = some s0) :
    ∃ t, { s with sdusBuffer := f.segments }.reassemble false (framingInfoOf f) = .ok t ∧
      Joins s t (join (some s0) f) := by
  have hparts : parts (some s0) f = ((s0 ++ x) :: xs).map some := by
    rw [parts, hsegs, hstart]
    rfl
  rw [join_of_parts hparts, hsegs, framingInfoOf, hstart]
  cases f.endsInside with
  | false =>
      refine ⟨_, ?_, joins_all s (some (s0 ++ x)) ((s0 ++ x) :: xs)⟩
      simp [reassemble, hst, addToS0, hs0, deliverS0, deliverAll]
  | true =>
      cases xs with
      | nil =>
          refine ⟨_, ?_, joins_keep s (s0 ++ x) []⟩
          simp [reassemble, hst, addToS0, hs0]
      | cons z zs =>
          obtain ⟨w, hw⟩ : ∃ w, (z :: zs).getLast? = some w :=
            Option.ne_none_iff_exists'.mp (by simp)
          rw [if_pos rfl, List.getLast?_cons_cons, hw]
          refine ⟨_, ?_, joins_keep s w _⟩
          simp [reassemble, hst, addToS0, hs0, deliverS0, deliverAndKeepS0, hw]

/-- The transitions join a frame, unless it starts with an SDU where it should follow one. -/
theorem reassemble_join (hidle : s.Idle) (hne : f.segments ≠ []) (lost : Bool)
    (hstart : lost = false → s.reassemblingState = .waitingSiSf → f.startsInside = true) :
    ∃ t, { s with sdusBuffer := f.segments }.reassemble lost (framingInfoOf f) = .ok t ∧
      Joins s t (join (if lost then none else s.kept) f) := by
  obtain ⟨x, xs, hsegs⟩ := List.exists_cons_of_ne_nil hne
  by_cases h : lost = true ∨ s.reassemblingState = .waitingS0Full
  · have hkept : (if lost then none else s.kept) = none := by
      rw [kept]
      rcases h with h | h <;> simp [h]
    obtain ⟨k, hk⟩ := reassemble_eq_fresh (s := { s with sdusBuffer := f.segments }) h
      (framingInfoOf_lt f)
    rw [hkept, hk]
    exact reassembleFresh_join hsegs k
  · obtain ⟨hlost, hst⟩ := not_or.mp h
    have hlost : lost = false := by simpa using hlost
    have hst : s.reassemblingState = .waitingSiSf := by
      cases hs : s.reassemblingState with
      | waitingS0Full => exact absurd hs hst
      | waitingSiSf => rfl
    obtain ⟨s0, hs0⟩ := Option.ne_none_iff_exists'.mp (hidle.keepS0 hst)
    have hkept : (if lost then none else s.kept) = some s0 := by simp [hlost, kept, hst, hs0]
    rw [hkept, hlost]
    exact reassemble_follows hsegs (hstart hlost hst) hst hs0

/-! ### PDUs in order -/

/-- Reassembling leaves the state variables and the timer alone. -/
structure SameVariables (s t : UmReceiver) : Prop where
  vrUr : t.vrUr = s.vrUr
  vrUx : t.vrUx = s.vrUx
  vrUh : t.vrUh = s.vrUh
  timerPending : t.timerPending = s.timerPending
  outOfOrderDelivery : t.outOfOrderDelivery = s.outOfOrderDelivery

/-- One PDU: its frame is joined to what is kept, which is given up if the PDU does not have the
expected sequence number. -/
theorem reassembleAndDeliver_join (hidle : s.Idle) {sn : ℕ} {p : List UInt8}
    (henc : Encodes sn f p) (hsn : sn < 1024)
    (hstart : sn = s.expectedSeqNumber.value → s.reassemblingState = .waitingSiSf →
      f.startsInside = true) :
    ∃ t, s.reassembleAndDeliver p = .ok t ∧ t.Idle ∧
      t.kept = (join (if sn = s.expectedSeqNumber.value then s.kept else none) f).1 ∧
      t.delivered = s.delivered ++
        (join (if sn = s.expectedSeqNumber.value then s.kept else none) f).2 ∧
      t.expectedSeqNumber.value = (sn + 1) % 1024 ∧ SameVariables s t ∧
      t.rxBuffer = s.rxBuffer := by
  have hsplit := splitDataField_segments henc.nonempty henc.short
  have hvalue : (SequenceNumber10.ofValue sn).value = sn := Nat.mod_eq_of_lt hsn
  obtain ⟨e, he⟩ : ∃ e : SequenceNumber10, e =
      if decide (sn ≠ s.expectedSeqNumber.value) = true then (SequenceNumber10.ofValue sn).add 1
      else s.expectedSeqNumber.increment := ⟨_, rfl⟩
  have hexpected : e.value = (sn + 1) % 1024 := by
    rw [he]
    split
    · exact SequenceNumber10.add_value rfl
    · next h =>
        rw [decide_eq_true_eq, not_not] at h
        exact SequenceNumber10.increment_value (h.symm.trans (Nat.mod_eq_of_lt hsn).symm)
  obtain ⟨t, ht, hjidle, hjkept, hjeq⟩ := reassemble_join (s := { s with expectedSeqNumber := e })
    ⟨hidle.sdusBuffer, hidle.keepS0⟩ henc.nonempty (decide (sn ≠ s.expectedSeqNumber.value))
    fun hlost => hstart (by simpa using hlost)
  have hk : (if decide (sn ≠ s.expectedSeqNumber.value) = true then none
      else kept { s with expectedSeqNumber := e }) =
        if sn = s.expectedSeqNumber.value then s.kept else none := by
    by_cases h : sn = s.expectedSeqNumber.value <;> simp [h, kept]
  rw [hk] at hjkept hjeq
  refine ⟨t, ?_, hjidle, hjkept, ?_, ?_, ?_, ?_⟩
  · rw [reassembleAndDeliver, henc.remove, Fallible.ok_bind]
    simp only [frameHeader, hsplit, hvalue, Fallible.ok_bind, hidle.sdusBuffer, List.nil_append]
    rw [← he]
    exact ht
  · rw [hjeq]
  · rw [hjeq]
    exact hexpected
  · rw [hjeq]
    exact ⟨rfl, rfl, rfl, rfl, rfl⟩
  · rw [hjeq]

end UmReceiver

section Frames

variable {xs : List (List UInt8)} {c : ℕ → Cut} {n : ℕ} {pdu : ℕ → List UInt8} {ks : List ℕ}

/-- The first `n` PDUs carry the SDUs `xs`, cut at the places `c`. -/
structure Sent (xs : List (List UInt8)) (c : ℕ → Cut) (n : ℕ) (pdu : ℕ → List UInt8) : Prop where
  zero : c 0 = ⟨0, 0⟩
  increasing : Increasing c n
  within : ∀ k ≤ n, (c k).Within xs
  encodes : ∀ k < n, Encodes (k % 1024) (frame xs (c k) (c (k + 1))) (pdu k)

/-- The receiver has reassembled the PDUs `ks`, and expects the PDU number `e`. -/
structure Reassembled (xs : List (List UInt8)) (c : ℕ → Cut) (ks : List ℕ) (e : ℕ)
    (s : UmReceiver) : Prop where
  idle : s.Idle
  expected : s.expectedSeqNumber.value = e % 1024
  collected : Collected xs c ks ⟨e, s.kept, s.delivered⟩

/-- **Step lemma.** Reassembling a PDU that was not passed over, at less than 1024 PDUs from the
expected one, is taking its frame. -/
theorem Reassembled.reassembleAndDeliver {s : UmReceiver} {e k : ℕ} (h : Reassembled xs c ks e s)
    (hsent : Sent xs c n pdu) (hek : e ≤ k) (hkn : k < n) (hnear : k < e + 1024) :
    ∃ t, s.reassembleAndDeliver (pdu k) = .ok t ∧ Reassembled xs c (ks ++ [k]) (k + 1) t ∧
      UmReceiver.SameVariables s t ∧ t.rxBuffer = s.rxBuffer := by
  have hiff : k % 1024 = s.expectedSeqNumber.value ↔ k = e := by
    rw [h.expected]
    omega
  have hstart : k % 1024 = s.expectedSeqNumber.value →
      s.reassemblingState = .waitingSiSf → (frame xs (c k) (c (k + 1))).startsInside = true := by
    intro hk hst
    have hkept := h.collected.kept
    have hne := h.idle.keepS0 hst
    dsimp only at hkept
    rw [UmReceiver.kept, if_pos hst] at hkept
    split at hkept
    · next h0 =>
        rw [hiff.mp hk]
        exact decide_eq_true h0.1
    · exact absurd hkept hne
  obtain ⟨t, h1, h2, h3, h4, h5, h6⟩ := UmReceiver.reassembleAndDeliver_join h.idle
    (hsent.encodes k hkn) (Nat.mod_lt k (by omega)) hstart
  simp only [hiff] at h3 h4
  refine ⟨t, h1, ⟨h2, ?_, ?_⟩, h6⟩
  · rw [h5]
    omega
  · have hnext := h.collected.receive hsent.increasing hek hkn
    rw [receive] at hnext
    rw [h3, h4]
    exact hnext

end Frames

end Rbis
