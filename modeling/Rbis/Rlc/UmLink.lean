import Mathlib.Data.Finset.Range
import Rbis.Lib.Runs
import Rbis.Rlc.UmWindow

/-! # Two RLC UM entities and the channel between them

SDUs come from the PDCP, opportunities from the MAC, and the channel hands over any PDU that was
sent, or none: it may lose, delay, reorder and duplicate PDUs.  t-Reordering may expire at any time
when it runs; out-of-order delivery is off, which is the default.  In every run in which no PDU
arrives from further away than the window, `delivered_exactly` says what reaches the PDCP of the
receiver, `delivered_inOrder` what does without a loss, and `flushed` that nothing waits for ever.
What the sender does (`notify_fits`, `sizes_agree`) does not depend on what arrives. -/

namespace Rbis

open Cuts

/-! ### More SDUs and more PDUs -/

section Extension

variable {xs ys : List (List UInt8)} {c c' : ℕ → Cut} {n n' : ℕ} {pdu pdu' : ℕ → List UInt8}

theorem frame_append {a b : Cut} (h : a.Before b) (hb : b.Within xs) :
    frame (xs ++ ys) a b = frame xs a b := by
  rw [frame, frame, segments_append h hb]

theorem Sent.append (h : Sent xs c n pdu) (hys : ∀ y ∈ ys, y ≠ []) : Sent (xs ++ ys) c n pdu where
  zero := h.zero
  increasing := h.increasing
  within := fun k hk => Cut.Within.append hys (h.within k hk)
  encodes := fun k hk => by
    rw [frame_append (h.increasing k hk) (h.within (k + 1) hk)]
    exact h.encodes k hk

/-- One more PDU. -/
theorem Sent.extend (h : Sent xs c n pdu) {b : Cut} (hc : ∀ k ≤ n, c' k = c k)
    (hb : c' (n + 1) = b) (hpdu : ∀ k < n, pdu' k = pdu k) (hbefore : (c n).Before b)
    (hwithin : b.Within xs) (henc : Encodes (n % 1024) (frame xs (c n) b) (pdu' n)) :
    Sent xs c' (n + 1) pdu' where
  zero := (hc 0 (Nat.zero_le n)).trans h.zero
  increasing := fun k hk => by
    obtain hkn | rfl := Nat.lt_succ_iff_lt_or_eq.mp hk
    · rw [hc k hkn.le, hc (k + 1) hkn]
      exact h.increasing k hkn
    · rw [hc k le_rfl, hb]
      exact hbefore
  within := fun k hk => by
    obtain hkn | rfl := Nat.le_succ_iff.mp hk
    · rw [hc k hkn]
      exact h.within k hkn
    · rw [hb]
      exact hwithin
  encodes := fun k hk => by
    obtain hkn | rfl := Nat.lt_succ_iff_lt_or_eq.mp hk
    · rw [hc k hkn.le, hc (k + 1) hkn, hpdu k hkn]
      exact h.encodes k hkn
    · rw [hc k le_rfl, hb]
      exact henc

/-- More SDUs and more PDUs do not concern the receiver. -/
theorem windowInv_mono {taken : Finset ℕ} {r h : ℕ} {s : UmReceiver}
    (hw : UmReceiver.WindowInv xs c n pdu taken r h s) (hsent : Sent xs c n pdu) (hn : n ≤ n')
    (hc : ∀ k ≤ n, c' k = c k) (hpdu : ∀ k < n, pdu' k = pdu k) :
    UmReceiver.WindowInv (xs ++ ys) c' n' pdu' taken r h s where
  settled := by
    have hrn := hw.le.trans hw.sent
    obtain ⟨ks, hre, hks⟩ := hw.settled.reassembled
    refine ⟨hw.settled.vrUr, fun e => (hw.settled.holds e).trans (exists_congr fun k => ?_), ks,
      ⟨hre.idle, hre.expected, hre.collected.mono (hsent.within r hrn) fun k hk =>
        hc k (le_trans hk hrn)⟩, hks⟩
    refine and_congr_right fun hk => ?_
    rw [hpdu k ((hw.lt k hk.1).trans_le hw.sent)]
  vrUh := hw.vrUh
  le := hw.le
  le_add := hw.le_add
  sent := hw.sent.trans hn
  lt := hw.lt
  last := hw.last
  pending := hw.pending
  timer := hw.timer
  inOrder := hw.inOrder

end Extension

/-! ### The link -/

structure UmLink where
  sender : UmSender
  receiver : UmReceiver := {}
  /-- The SDUs that the sender stored. -/
  accepted : List (List UInt8) := []
  /-- The PDUs passed to the MAC. -/
  sent : List (List UInt8) := []
  /-- The numbers of the PDUs that arrived at or above VR(UR). -/
  taken : Finset ℕ := ∅
  /-- One more than the highest number of a PDU that arrived. -/
  received : ℕ := 0

inductive UmLinkEvent where
  | transmitPdcpPdu (uid : ℕ) (p : List UInt8) (now : ℤ)
  | notifyTxOpportunity (bytes : ℕ)
  /-- The channel hands over the PDU with this number. -/
  | arrive (k : ℕ)
  | expireReorderingTimer
deriving DecidableEq

/-- The number of the PDU that arrives. -/
def UmLinkEvent.arrival : UmLinkEvent → Option ℕ
  | .arrive k => some k
  | _ => none

namespace UmLink

variable (l : UmLink)

/-- The number of the PDU that VR(UR) stands for. -/
def vrUrNumber : ℕ :=
  l.received - (l.receiver.vrUh.value + 1024 - l.receiver.vrUr.value) % 1024

def step : UmLinkEvent → Except RlcFault UmLink
  | .transmitPdcpPdu uid p now =>
      let r := l.sender.doTransmitPdcpPdu uid p now
      pure { l with sender := r.1, accepted := l.accepted ++ if r.2 then [p] else [] }
  | .notifyTxOpportunity bytes => do
      let (sender, pdu) ← l.sender.doNotifyTxOpportunity bytes
      pure { l with sender := sender, sent := l.sent ++ pdu.toList }
  | .arrive k =>
      match l.sent[k]? with
      | none => pure l
      | some p => do
          let receiver ← l.receiver.doReceivePdu p
          pure { l with
            receiver := receiver
            taken := if l.vrUrNumber ≤ k then insert k l.taken else l.taken
            received := max l.received (k + 1) }
  | .expireReorderingTimer =>
      if l.receiver.timerPending then do
        let receiver ← l.receiver.expireReorderingTimer
        pure { l with receiver := receiver }
      else pure l

/-- The SDUs of the PDCP have a header and are not empty; the length of an RLC header is a `uint16_t`,
which no header exceeds in an opportunity of fewer than 109226 bytes. -/
def Supplied : UmLinkEvent → Prop
  | .transmitPdcpPdu _ p _ => p ≠ []
  | .notifyTxOpportunity bytes => bytes < 109226
  | _ => True

instance : ∀ ev, Decidable (Supplied ev)
  | .transmitPdcpPdu _ p _ => inferInstanceAs (Decidable (p ≠ []))
  | .notifyTxOpportunity bytes => inferInstanceAs (Decidable (bytes < 109226))
  | .arrive _ => .isTrue trivial
  | .expireReorderingTimer => .isTrue trivial

/-- A PDU that arrives is less than 512 before VR(UH) and less than 512 behind VR(UR). -/
def InReach (ev : UmLinkEvent) : Prop :=
  Supplied ev ∧ ∀ k ∈ ev.arrival, l.received ≤ k + 512 ∧ k < l.vrUrNumber + 512

/-- The channel hands over the PDUs one after the other. -/
def InOrder (ev : UmLinkEvent) : Prop := Supplied ev ∧ ∀ k ∈ ev.arrival, k = l.received

instance (l : UmLink) (ev : UmLinkEvent) : Decidable (l.InReach ev) :=
  inferInstanceAs (Decidable
    (Supplied ev ∧ ∀ k ∈ ev.arrival, l.received ≤ k + 512 ∧ k < l.vrUrNumber + 512))

instance (l : UmLink) (ev : UmLinkEvent) : Decidable (l.InOrder ev) :=
  inferInstanceAs (Decidable (Supplied ev ∧ ∀ k ∈ ev.arrival, k = l.received))

/-! ### Runs -/

/-- The link before anything was sent.  The attribute `OutOfOfOrderDelivery` is off, its default. -/
def start (maxTxBufferSize : UInt32) : UmLink := { sender := { maxTxBufferSize := maxTxBufferSize } }

/-! ### The invariant -/

/-- The PDUs sent carry the accepted SDUs between the cuts `c`, and the buffer of the sender is what
follows. -/
structure SenderInv (l : UmLink) (c : ℕ → Cut) : Prop where
  nonempty : ∀ x ∈ l.accepted, x ≠ []
  sent : Sent l.accepted c l.sent.length (l.sent.getD · [])
  queued : Queued l.accepted (c l.sent.length) l.sender.txBuffer
  sequenceNumber : l.sender.sequenceNumber = l.sent.length % 1024

/-- And the receiver has its window from `r` on. -/
structure LinkInv (l : UmLink) (c : ℕ → Cut) (r : ℕ) : Prop extends SenderInv l c where
  window : UmReceiver.WindowInv l.accepted c l.sent.length (l.sent.getD · []) l.taken r l.received
    l.receiver

theorem linkInv_start (m : UInt32) : LinkInv (start m) (fun _ => ⟨0, 0⟩) 0 where
  nonempty := fun _ hx => absurd hx List.not_mem_nil
  sent := ⟨rfl, fun k hk => absurd hk (Nat.not_lt_zero k), fun _ _ => .inr ⟨rfl, rfl⟩,
    fun k hk => absurd hk (Nat.not_lt_zero k)⟩
  queued := rfl
  sequenceNumber := rfl
  window := UmReceiver.WindowInv.init rfl

variable {l} {c : ℕ → Cut} {r : ℕ}

theorem LinkInv.vrUrNumber_eq (h : LinkInv l c r) : l.vrUrNumber = r := by
  have h1 := h.window.vrUh
  have h2 := h.window.settled.vrUr
  have h3 := h.window.le
  have h4 := h.window.le_add
  unfold vrUrNumber
  omega

/-! ### Steps -/

theorem getD_append_left (pdu : List UInt8) {sent : List (List UInt8)} :
    ∀ k < sent.length, (sent ++ [pdu]).getD k [] = sent.getD k [] := by
  intro k hk
  rw [List.getD_eq_getElem?_getD, List.getElem?_append_left hk, List.getD_eq_getElem?_getD]

theorem SenderInv.transmit (h : SenderInv l c) (uid : ℕ) {p : List UInt8} (hp : p ≠ []) (now : ℤ) :
    ∃ l', l.step (.transmitPdcpPdu uid p now) = .ok l' ∧ SenderInv l' c := by
  refine ⟨_, rfl, ?_⟩
  unfold UmSender.doTransmitPdcpPdu
  split
  · have hys : ∀ y ∈ [p], y ≠ [] := fun y hy => List.mem_singleton.mp hy ▸ hp
    refine
      { nonempty := fun x hx => ?_
        sent := h.sent.append hys
        queued := h.queued.concat (h.sent.within _ le_rfl) uid p now
        sequenceNumber := h.sequenceNumber }
    rcases List.mem_append.mp hx with hx | hx
    · exact h.nonempty x hx
    · exact hys x hx
  · simp only [Bool.false_eq_true, if_false, List.append_nil]
    exact ⟨h.nonempty, h.sent, h.queued, h.sequenceNumber⟩

theorem LinkInv.transmit (h : LinkInv l c r) (uid : ℕ) {p : List UInt8} (hp : p ≠ []) (now : ℤ) :
    ∃ l', l.step (.transmitPdcpPdu uid p now) = .ok l' ∧ LinkInv l' c r := by
  obtain ⟨l', h1, h2⟩ := h.toSenderInv.transmit uid hp now
  cases h1
  exact ⟨_, rfl, h2, windowInv_mono h.window h.sent le_rfl (fun _ _ => rfl) fun _ _ => rfl⟩

/-- An opportunity is answered by a PDU that fits, unless it is too small or nothing waits. -/
theorem SenderInv.notify (h : SenderInv l c) {bytes : ℕ} (hbytes : bytes < 109226) :
    (bytes ≤ 2 ∨ l.sender.txBuffer = []) ∧ l.step (.notifyTxOpportunity bytes) = .ok l ∨
      ∃ s' pdu c', l.step (.notifyTxOpportunity bytes) =
          .ok { l with sender := s', sent := l.sent ++ [pdu] } ∧
        SenderInv { l with sender := s', sent := l.sent ++ [pdu] } c' ∧
        (∀ k ≤ l.sent.length, c' k = c k) ∧ 2 < pdu.length ∧ pdu.length ≤ bytes := by
  have hsn : l.sender.sequenceNumber < 1024 := by
    rw [h.sequenceNumber]
    exact Nat.mod_lt _ (by omega)
  rcases h.queued.notify (h.sent.within _ le_rfl) h.nonempty hsn hbytes with
    ⟨hnone, heq⟩ | ⟨b, s', pdu, heq, hbefore, hwithin, hqueued, hnext, henc, hlower, hupper⟩
  · refine .inl ⟨hnone, ?_⟩
    simp only [step, heq, Fallible.ok_bind, Option.toList_none, List.append_nil, Fallible.pure_eq]
  · set c' : ℕ → Cut := fun k => if k ≤ l.sent.length then c k else b with hc'
    have hc : ∀ k ≤ l.sent.length, c' k = c k := fun k hk => if_pos hk
    have hb : c' (l.sent.length + 1) = b := if_neg (by omega)
    have hlast : (l.sent ++ [pdu]).getD l.sent.length [] = pdu := by
      simp
    have hlength : (l.sent ++ [pdu]).length = l.sent.length + 1 := by simp
    have hsent : Sent l.accepted c' (l.sent ++ [pdu]).length ((l.sent ++ [pdu]).getD · []) := by
      rw [hlength]
      refine h.sent.extend hc hb (getD_append_left pdu) hbefore hwithin ?_
      rw [hlast, ← h.sequenceNumber]
      exact henc
    refine .inr ⟨s', pdu, c', ?_,
      { nonempty := h.nonempty, sent := hsent, queued := ?_, sequenceNumber := ?_ },
      hc, hlower, hupper⟩
    · simp only [step, heq, Fallible.ok_bind, Option.toList_some, Fallible.pure_eq]
    · dsimp only
      rw [hlength, hb]
      exact hqueued
    · dsimp only
      rw [hlength, hnext, h.sequenceNumber]
      omega

theorem LinkInv.notify (h : LinkInv l c r) {bytes : ℕ} (hbytes : bytes < 109226) :
    ∃ l' c', l.step (.notifyTxOpportunity bytes) = .ok l' ∧ LinkInv l' c' r := by
  rcases h.toSenderInv.notify hbytes with ⟨-, heq⟩ | ⟨s', pdu, c', heq, hinv, hc, -, -⟩
  · exact ⟨l, c, heq, h⟩
  · have hmono : UmReceiver.WindowInv (l.accepted ++ []) c' (l.sent ++ [pdu]).length _ _ _ _ _ :=
      windowInv_mono h.window h.sent (by rw [List.length_append]; exact Nat.le_add_right _ _) hc
        (getD_append_left pdu)
    rw [List.append_nil] at hmono
    exact ⟨_, c', heq, hinv, hmono⟩

theorem LinkInv.arrive (h : LinkInv l c r) {k : ℕ} (hreach : l.InReach (.arrive k)) :
    ∃ l' r', l.step (.arrive k) = .ok l' ∧ LinkInv l' c r' ∧ r ≤ r' ∧
      (k < l.sent.length → (k = r → r < r') ∧ l'.received = max l.received (k + 1) ∧
        l'.taken = if r ≤ k then insert k l.taken else l.taken) ∧
      (l.sent.length ≤ k → l' = l) := by
  obtain ⟨h1, h2⟩ := hreach.2 k rfl
  rw [h.vrUrNumber_eq] at h2
  by_cases hk : k < l.sent.length
  · have hget : l.sent[k]? = some (l.sent.getD k []) := by
      rw [List.getElem?_eq_getElem hk, List.getD_eq_getElem?_getD, List.getElem?_eq_getElem hk]
      rfl
    obtain ⟨t, r', hrec, hrr', hstep, hw⟩ := h.window.doReceivePdu h.sent hk
      ⟨h1, by have := h.window.le; omega⟩ h2
    refine ⟨{ l with
        receiver := t
        taken := if l.vrUrNumber ≤ k then insert k l.taken else l.taken
        received := max l.received (k + 1) }, r', ?_,
      ⟨⟨h.nonempty, h.sent, h.queued, h.sequenceNumber⟩, ?_⟩, hrr',
      fun _ => ⟨hstep, rfl, by rw [h.vrUrNumber_eq]⟩, fun hle => absurd hk (not_lt.mpr hle)⟩
    · simp only [step, hget, hrec, Fallible.ok_bind]
      rfl
    · rw [h.vrUrNumber_eq]
      exact hw
  · refine ⟨l, r, ?_, h, le_rfl, fun hlt => absurd hlt hk, fun _ => rfl⟩
    simp only [step, List.getElem?_eq_none (not_lt.mp hk)]
    rfl

theorem LinkInv.expire_of_timer (h : LinkInv l c r) {u : ℕ}
    (hu : UmReceiver.TimerInv l.taken r l.received u l.receiver) :
    ∃ l' r', l.step .expireReorderingTimer = .ok l' ∧ LinkInv l' c r' ∧ u ≤ r' ∧
      l' = { l with receiver := l'.receiver } ∧
      (r' < l.received → UmReceiver.TimerInv l.taken r' l.received l.received l'.receiver) := by
  obtain ⟨t, r', hexp, hur, hw, htimer⟩ := h.window.expireReorderingTimer h.sent hu
  refine ⟨{ l with receiver := t }, r', ?_,
    ⟨⟨h.nonempty, h.sent, h.queued, h.sequenceNumber⟩, hw⟩, hur, rfl, htimer⟩
  have hp : l.receiver.timerPending = true := by
    have h1 := hu.lt
    have h2 := hu.le
    rw [h.window.pending, decide_eq_true (by omega)]
  simp only [step, hp, if_true, hexp, Fallible.ok_bind, Fallible.pure_eq]

theorem LinkInv.expire_of_no_gap (h : LinkInv l c r) (hr : ¬ r < l.received) :
    l.step .expireReorderingTimer = .ok l := by
  have hp : l.receiver.timerPending = false := by
    rw [h.window.pending, decide_eq_false hr]
  simp only [step, hp, Bool.false_eq_true, if_false, Fallible.pure_eq]

/-- **Step lemma.** -/
theorem LinkInv.step (h : LinkInv l c r) {ev : UmLinkEvent} (hreach : l.InReach ev) :
    ∃ l' c' r', l.step ev = .ok l' ∧ LinkInv l' c' r' := by
  cases ev with
  | transmitPdcpPdu uid p now =>
      obtain ⟨l', h1, h2⟩ := h.transmit uid hreach.1 now
      exact ⟨l', c, r, h1, h2⟩
  | notifyTxOpportunity bytes =>
      obtain ⟨l', c', h1, h2⟩ := h.notify hreach.1
      exact ⟨l', c', r, h1, h2⟩
  | arrive k =>
      obtain ⟨l', r', h1, h2, -⟩ := h.arrive hreach
      exact ⟨l', c, r', h1, h2⟩
  | expireReorderingTimer =>
      by_cases hr : r < l.received
      · obtain ⟨u, hu⟩ := h.window.timer hr
        obtain ⟨l', r', h1, h2, -⟩ := h.expire_of_timer hu
        exact ⟨l', c, r', h1, h2⟩
      · exact ⟨l, c, r, h.expire_of_no_gap hr, h⟩

/-- **Run lemma.** No run with the PDUs in reach fails. -/
theorem linkInv_run (m : UInt32) {evs : List UmLinkEvent}
    (h : Runs.Allowed UmLink.step InReach (start m) evs) :
    ∃ l c r, Runs.run UmLink.step (start m) evs = .ok l ∧ LinkInv l c r := by
  obtain ⟨l, h1, c, r, h2⟩ := Runs.run_of_guard (fun l => ∃ c r, LinkInv l c r)
    (fun l ev ⟨c, r, hl⟩ hev => by
      obtain ⟨l', c', r', h1, h2⟩ := hl.step hev
      exact ⟨l', h1, c', r', h2⟩) ⟨_, 0, linkInv_start m⟩ h
  exact ⟨l, c, r, h1, h2⟩

/-! ### What is delivered -/

/-- **Delivery.** In every run with the PDUs in reach nothing fails, and the SDUs passed to the PDCP
are exactly the accepted SDUs below VR(UR) all of whose PDUs were taken, unchanged, in their order
and once each. -/
theorem delivered_exactly (m : UInt32) (evs : List UmLinkEvent)
    (h : Runs.Allowed UmLink.step InReach (start m) evs) :
    ∃ l c, Runs.run UmLink.step (start m) evs = .ok l ∧
      Sent l.accepted c l.sent.length (l.sent.getD · []) ∧
      l.receiver.delivered = ((List.range (c l.vrUrNumber).block).filter fun i =>
        ∀ k < l.vrUrNumber, Carries (c k) (c (k + 1)) i → k ∈ l.taken).map
          (blockAt l.accepted) ∧
      l.receiver.delivered.Sublist l.accepted := by
  obtain ⟨l, c, r, hexec, hl⟩ := linkInv_run m h
  obtain ⟨ks, hre, hks⟩ := hl.window.settled.reassembled
  refine ⟨l, c, hexec, hl.sent, ?_, hre.collected.sublist
    (hl.sent.within r (hl.window.le.trans hl.window.sent))⟩
  rw [hl.vrUrNumber_eq]
  refine hre.collected.delivered.trans (congrArg (List.map _) (List.filter_congr fun i _ => ?_))
  rw [decide_eq_decide]
  exact forall₂_congr fun k hk => imp_congr_right fun _ =>
    (hks k).trans (and_iff_left hk)

/-- Two SDUs in three PDUs, the last of which arrives first and twice. -/
def reordered : List UmLinkEvent :=
  [.transmitPdcpPdu 0 [1, 2, 3] 0, .transmitPdcpPdu 1 [4, 5, 6, 7] 0, .notifyTxOpportunity 4,
    .notifyTxOpportunity 8, .notifyTxOpportunity 4, .arrive 2, .arrive 0, .arrive 2, .arrive 1]

theorem delivered_exactly_reordered :
    ∃ l c, Runs.run UmLink.step (start 10240) reordered = .ok l ∧
      Sent l.accepted c l.sent.length (l.sent.getD · []) ∧
      l.receiver.delivered = ((List.range (c l.vrUrNumber).block).filter fun i =>
        ∀ k < l.vrUrNumber, Carries (c k) (c (k + 1)) i → k ∈ l.taken).map
          (blockAt l.accepted) ∧
      l.receiver.delivered.Sublist l.accepted :=
  delivered_exactly 10240 reordered (by decide +kernel)

/-- Every PDU that arrived was the next one. -/
structure Gapless (l : UmLink) (c : ℕ → Cut) : Prop where
  inv : LinkInv l c l.received
  taken : l.taken = Finset.range l.received

theorem Gapless.step (h : Gapless l c) {ev : UmLinkEvent} (horder : l.InOrder ev) :
    ∃ l' c', l.step ev = .ok l' ∧ Gapless l' c' := by
  cases ev with
  | transmitPdcpPdu uid p now =>
      obtain ⟨l', h1, h2⟩ := h.inv.transmit uid horder.1 now
      cases h1
      exact ⟨_, c, rfl, h2, h.taken⟩
  | notifyTxOpportunity bytes =>
      obtain ⟨l', c', h1, h2⟩ := h.inv.notify horder.1
      refine ⟨l', c', h1, ?_⟩
      obtain ⟨r, -, h3⟩ := Fallible.bind_eq_ok.mp h1
      cases h3
      exact ⟨h2, h.taken⟩
  | arrive k =>
      have hk : k = l.received := horder.2 k rfl
      obtain ⟨l', r', h1, h2, -, h3, h4⟩ := h.inv.arrive (k := k) ⟨trivial, fun j hj => by
        cases hj
        rw [h.inv.vrUrNumber_eq]
        omega⟩
      refine ⟨l', c, h1, ?_⟩
      by_cases hlt : k < l.sent.length
      · obtain ⟨h5, h6, h7⟩ := h3 hlt
        have hle := h2.window.le
        obtain rfl : r' = l'.received := by
          have := h5 hk
          omega
        refine ⟨h2, ?_⟩
        rw [h7, if_pos hk.ge, h6, max_eq_right (by omega), h.taken, hk, Finset.range_add_one]
      · rw [h4 (not_lt.mp hlt)]
        exact h
  | expireReorderingTimer => exact ⟨l, c, h.inv.expire_of_no_gap (lt_irrefl _), h⟩

/-- **Without a loss.** If the channel hands over the PDUs one after the other, what is delivered is
always a beginning of what was accepted, and all of it once the last PDU arrived. -/
theorem delivered_inOrder (m : UInt32) (evs : List UmLinkEvent)
    (h : Runs.Allowed UmLink.step InOrder (start m) evs) :
    ∃ l, Runs.run UmLink.step (start m) evs = .ok l ∧ l.receiver.delivered <+: l.accepted ∧
      (l.received = l.sent.length → l.sender.txBuffer = [] →
        l.receiver.delivered = l.accepted) := by
  obtain ⟨l, hexec, c, hl⟩ := Runs.run_of_guard (fun l => ∃ c, Gapless l c)
    (fun l ev ⟨c, hl⟩ hev => by
      obtain ⟨l', c', h1, h2⟩ := hl.step hev
      exact ⟨l', h1, c', h2⟩) ⟨_, linkInv_start m, rfl⟩ h
  obtain ⟨ks, hre, hks⟩ := hl.inv.window.settled.reassembled
  have hall : l.receiver.delivered = l.accepted.take (c l.received).block :=
    hre.collected.delivered_of_all (hl.inv.sent.within _ hl.inv.window.sent) fun k hk =>
      (hks k).mpr ⟨hl.taken ▸ Finset.mem_range.mpr hk, hk⟩
  refine ⟨l, hexec, hall ▸ List.take_prefix _ _, fun hn hempty => ?_⟩
  have hqueued := hl.inv.queued
  have hwithin := hl.inv.sent.within _ le_rfl
  rw [hempty] at hqueued
  rw [hall, hn]
  refine List.take_of_length_le ?_
  by_contra hlt
  rw [Queued, tagged_of_lt (not_le.mp hlt)] at hqueued
  cases hqueued

/-- Two SDUs in two PDUs. -/
def ordered : List UmLinkEvent :=
  [.transmitPdcpPdu 0 [1, 2, 3] 0, .transmitPdcpPdu 1 [4, 5, 6, 7] 0, .notifyTxOpportunity 4,
    .arrive 0, .notifyTxOpportunity 40, .arrive 1]

theorem delivered_inOrder_ordered :
    ∃ l, Runs.run UmLink.step (start 10240) ordered = .ok l ∧ l.receiver.delivered <+: l.accepted ∧
      (l.received = l.sent.length → l.sender.txBuffer = [] →
        l.receiver.delivered = l.accepted) :=
  delivered_inOrder 10240 ordered (by decide +kernel)

/-! ### What waits -/

theorem LinkInv.rxBuffer_of_no_gap (h : LinkInv l c r) (hr : r = l.received) :
    l.receiver.rxBuffer.entries = [] := by
  refine List.eq_nil_iff_forall_not_mem.mpr fun e he => ?_
  obtain ⟨k, ⟨hk, hrk⟩, -⟩ := (h.window.settled.holds e).mp he
  have := h.window.lt k hk
  omega

theorem LinkInv.expire_last (h : LinkInv l c r)
    (hu : r < l.received → UmReceiver.TimerInv l.taken r l.received l.received l.receiver) :
    ∃ l', l.step .expireReorderingTimer = .ok l' ∧ LinkInv l' c l.received ∧
      l'.received = l.received := by
  by_cases hr : r < l.received
  · obtain ⟨l', r', h1, h2, h3, h4, -⟩ := h.expire_of_timer (hu hr)
    have hle := h2.window.le
    have hreceived : l'.received = l.received := by rw [h4]
    obtain rfl : r' = l.received := by omega
    exact ⟨l', h1, h2, hreceived⟩
  · have hle := h.window.le
    obtain rfl : r = l.received := by omega
    exact ⟨l, h.expire_of_no_gap hr, h, rfl⟩

/-- **Nothing waits for ever.** In every state of a run with the PDUs in reach, t-Reordering runs
when a PDU is in the reception buffer; and when it expires twice, with no arrival in between,
everything that arrived was reassembled or given up, and the timer stands. -/
theorem flushed (m : UInt32) (evs : List UmLinkEvent)
    (h : Runs.Allowed UmLink.step InReach (start m) evs) :
    ∃ l l', Runs.run UmLink.step (start m) evs = .ok l ∧
      (l.receiver.rxBuffer.entries ≠ [] → l.receiver.timerPending = true) ∧
      Runs.run UmLink.step l [.expireReorderingTimer, .expireReorderingTimer] = .ok l' ∧
      l'.receiver.rxBuffer.entries = [] ∧ l'.receiver.timerPending = false ∧
      l'.vrUrNumber = l.received := by
  obtain ⟨l, c, r, hexec, hl⟩ := linkInv_run m h
  obtain ⟨l₁, r₁, h1, h2, h3, h4⟩ : ∃ l₁ r₁, l.step .expireReorderingTimer = .ok l₁ ∧
      LinkInv l₁ c r₁ ∧ l₁.received = l.received ∧ (r₁ < l₁.received →
        UmReceiver.TimerInv l₁.taken r₁ l₁.received l₁.received l₁.receiver) := by
    by_cases hr : r < l.received
    · obtain ⟨u, hu⟩ := hl.window.timer hr
      obtain ⟨l₁, r₁, h1, h2, -, h4, h5⟩ := hl.expire_of_timer hu
      have hreceived : l₁.received = l.received := by rw [h4]
      have htaken : l₁.taken = l.taken := by rw [h4]
      refine ⟨l₁, r₁, h1, h2, hreceived, ?_⟩
      rw [hreceived, htaken]
      exact h5
    · exact ⟨l, r, hl.expire_of_no_gap hr, hl, rfl, fun h => absurd h hr⟩
  obtain ⟨l₂, h5, h6, h7⟩ := h2.expire_last h4
  have hfull : l₁.received = l₂.received := h7.symm
  refine ⟨l, l₂, hexec, fun hne => ?_, ?_, h6.rxBuffer_of_no_gap hfull, ?_, ?_⟩
  · rw [hl.window.pending, decide_eq_true_eq]
    by_contra hr
    have hle := hl.window.le
    exact hne (hl.rxBuffer_of_no_gap (by omega))
  · simp only [Runs.run, h1, h5]
  · rw [h6.window.pending, decide_eq_false (by omega)]
  · rw [h6.vrUrNumber_eq, h3]

/-- The first of three PDUs is lost. -/
def lossy : List UmLinkEvent :=
  [.transmitPdcpPdu 0 [1, 2, 3] 0, .transmitPdcpPdu 1 [4, 5, 6, 7] 0, .notifyTxOpportunity 4,
    .notifyTxOpportunity 8, .notifyTxOpportunity 4, .arrive 2, .arrive 1]

theorem flushed_lossy :
    ∃ l l', Runs.run UmLink.step (start 10240) lossy = .ok l ∧
      (l.receiver.rxBuffer.entries ≠ [] → l.receiver.timerPending = true) ∧
      Runs.run UmLink.step l [.expireReorderingTimer, .expireReorderingTimer] = .ok l' ∧
      l'.receiver.rxBuffer.entries = [] ∧ l'.receiver.timerPending = false ∧
      l'.vrUrNumber = l.received :=
  flushed 10240 lossy (by decide +kernel)

/-! ### Opportunities -/

/-- What arrives does not concern the sender. -/
theorem SenderInv.step {l' : UmLink} (h : SenderInv l c) {ev : UmLinkEvent} (hev : Supplied ev)
    (hstep : l.step ev = .ok l') : ∃ c', SenderInv l' c' := by
  cases ev with
  | transmitPdcpPdu uid p now =>
      obtain ⟨l'', h1, h2⟩ := h.transmit uid hev now
      obtain rfl := Except.ok.inj (h1.symm.trans hstep)
      exact ⟨c, h2⟩
  | notifyTxOpportunity bytes =>
      rcases h.notify hev with ⟨-, heq⟩ | ⟨s', pdu, c', heq, hinv, -⟩
      · obtain rfl := Except.ok.inj (heq.symm.trans hstep)
        exact ⟨c, h⟩
      · obtain rfl := Except.ok.inj (heq.symm.trans hstep)
        exact ⟨c', hinv⟩
  | arrive k =>
      simp only [UmLink.step] at hstep
      split at hstep
      · cases hstep
        exact ⟨c, h⟩
      · obtain ⟨t, -, heq⟩ := Fallible.bind_eq_ok.mp hstep
        cases heq
        exact ⟨c, h.nonempty, h.sent, h.queued, h.sequenceNumber⟩
  | expireReorderingTimer =>
      simp only [UmLink.step] at hstep
      split at hstep
      · obtain ⟨t, -, heq⟩ := Fallible.bind_eq_ok.mp hstep
        cases heq
        exact ⟨c, h.nonempty, h.sent, h.queued, h.sequenceNumber⟩
      · cases hstep
        exact ⟨c, h⟩

/-- **PDUs fit.** In every state of a run, whatever arrives, an opportunity is answered by a PDU of at
most its bytes, with data in it, unless it is too small for a header or nothing waits. -/
theorem notify_fits (m : UInt32) (evs : List UmLinkEvent) (h : ∀ ev ∈ evs, Supplied ev) (l : UmLink)
    (hrun : Runs.run UmLink.step (start m) evs = .ok l) (bytes : ℕ) (hbytes : bytes < 109226) :
    ∃ l', l.step (.notifyTxOpportunity bytes) = .ok l' ∧
      ((bytes ≤ 2 ∨ l.sender.txBuffer = []) ∧ l' = l ∨
        ∃ pdu, l'.sent = l.sent ++ [pdu] ∧ 2 < pdu.length ∧ pdu.length ≤ bytes) := by
  obtain ⟨c, hl⟩ : ∃ c, SenderInv l c :=
    Runs.run_ok (fun l => ∃ c, SenderInv l c)
      (fun ev hev l l' ⟨c, hl⟩ hstep => hl.step (h ev hev) hstep)
      ⟨_, (linkInv_start m).toSenderInv⟩ hrun
  rcases hl.notify hbytes with ⟨hnone, heq⟩ | ⟨s', pdu, c', heq, -, -, hlower, hupper⟩
  · exact ⟨l, heq, .inl ⟨hnone, rfl⟩⟩
  · exact ⟨_, heq, .inr ⟨pdu, rfl, hlower, hupper⟩⟩

/-- The second SDU is still in the buffer, and part of it fits into six bytes. -/
theorem notify_fits_lossy :
    ∃ l l', Runs.run UmLink.step (start 10240) (lossy.take 3) = .ok l ∧
      l.step (.notifyTxOpportunity 6) = .ok l' ∧
      ((6 ≤ 2 ∨ l.sender.txBuffer = []) ∧ l' = l ∨
        ∃ pdu, l'.sent = l.sent ++ [pdu] ∧ 2 < pdu.length ∧ pdu.length ≤ 6) := by
  obtain ⟨l, hrun⟩ := Fallible.exists_of_isOk
    (show (Runs.run UmLink.step (start 10240) (lossy.take 3)).isOk = true by decide +kernel)
  obtain ⟨l', h1, h2⟩ := notify_fits 10240 (lossy.take 3) (by decide) l hrun 6 (by decide)
  exact ⟨l, l', hrun, h1, h2⟩

/-! ### The sizes of the transmitting side -/

/-- Sizes are `uint32_t`. -/
def Sized : UmLinkEvent → Prop
  | .transmitPdcpPdu _ p _ => p.length < 2 ^ 32
  | .notifyTxOpportunity bytes => bytes < 2 ^ 32
  | _ => True

instance : ∀ ev, Decidable (Sized ev)
  | .transmitPdcpPdu _ p _ => inferInstanceAs (Decidable (p.length < 2 ^ 32))
  | .notifyTxOpportunity bytes => inferInstanceAs (Decidable (bytes < 2 ^ 32))
  | .arrive _ => .isTrue trivial
  | .expireReorderingTimer => .isTrue trivial

/-- The PDU among the events of a call. -/
def pdusOf (evs : List UmEvent) : List (NrRlcHeader × List Packet) :=
  evs.filterMap fun
    | .transmitPdu header dataField => some (header, dataField)
    | _ => none

/-- The entity of the buffer sizes on the same events, with the PDUs it passed to the MAC. -/
def sizedStep (u : NrRlcUm × List (NrRlcHeader × List Packet)) :
    UmLinkEvent → NrRlcUm × List (NrRlcHeader × List Packet)
  | .transmitPdcpPdu uid p now =>
      let r := u.1.doTransmitPdcpPdu ⟨uid, UInt32.ofNat p.length⟩ now
      (r.1, u.2 ++ pdusOf r.2)
  | .notifyTxOpportunity bytes =>
      let r := u.1.doNotifyTxOpportunity (UInt32.ofNat bytes)
      (r.1, u.2 ++ pdusOf r.2)
  | _ => u

/-- The PDU has this header and segments of these sizes. -/
def Framed (pdu : List UInt8) (e : NrRlcHeader × List Packet) : Prop :=
  ∃ segs : List TxSdu, e.2 = segs.map (fun t => t.sized.pdu) ∧
    addHeader e.1 (segs.map TxSdu.bytes).flatten = .ok pdu

/-- The two entities hold the same SDUs and passed the same PDUs to the MAC. -/
structure Agree (l : UmLink) (u : NrRlcUm × List (NrRlcHeader × List Packet)) : Prop where
  mirrors : Mirrors l.sender u.1
  framed : List.Forall₂ Framed l.sent u.2

theorem pdusOf_transmit (u : NrRlcUm) (p : Packet) (now : ℤ) :
    pdusOf (u.doTransmitPdcpPdu p now).2 = [] := by
  unfold NrRlcUm.doTransmitPdcpPdu
  split
  · dsimp only
    split <;> rfl
  · rfl

theorem Agree.step {l' : UmLink} {u : NrRlcUm × List (NrRlcHeader × List Packet)} (h : Agree l u)
    {ev : UmLinkEvent} (hsized : Sized ev) (hstep : l.step ev = .ok l') :
    Agree l' (sizedStep u ev) := by
  cases ev with
  | transmitPdcpPdu uid p now =>
      cases hstep
      refine ⟨h.mirrors.transmit uid hsized now, ?_⟩
      dsimp only [sizedStep]
      rw [pdusOf_transmit, List.append_nil]
      exact h.framed
  | notifyTxOpportunity bytes =>
      obtain ⟨⟨s', out⟩, h1, h2⟩ := Fallible.bind_eq_ok.mp hstep
      cases h2
      have hbytes : (UInt32.ofNat bytes).toNat = bytes :=
        UInt32.toNat_ofNat_of_lt' hsized
      obtain ⟨k1, k2, k3⟩ := h.mirrors.notify (UInt32.ofNat bytes) (by rw [hbytes]; exact h1)
      refine ⟨k1, ?_⟩
      cases out with
      | none =>
          dsimp only [sizedStep]
          rw [k2 rfl, Option.toList_none]
          simpa [pdusOf] using h.framed
      | some pdu =>
          obtain ⟨header, segs, k4, k5⟩ := k3 pdu rfl
          dsimp only [sizedStep]
          rw [k4, Option.toList_some]
          exact List.rel_append h.framed (.cons ⟨segs, rfl, k5⟩ .nil)
  | arrive k =>
      simp only [UmLink.step] at hstep
      split at hstep
      · cases hstep
        exact h
      · obtain ⟨t, -, h2⟩ := Fallible.bind_eq_ok.mp hstep
        cases h2
        exact ⟨h.mirrors, h.framed⟩
  | expireReorderingTimer =>
      simp only [UmLink.step] at hstep
      split at hstep
      · obtain ⟨t, -, h2⟩ := Fallible.bind_eq_ok.mp hstep
        cases h2
        exact ⟨h.mirrors, h.framed⟩
      · cases hstep
        exact h

/-- **The sizes are enough.** In every run, whatever arrives, the entity of the buffer sizes holds the
SDUs of the sender without their bytes, and passed the same PDUs to the MAC. -/
theorem sizes_agree (m : UInt32) (u : NrRlcUm)
    (hu : Mirrors { maxTxBufferSize := m } u) (evs : List UmLinkEvent)
    (hsized : ∀ ev ∈ evs, Sized ev) (l : UmLink)
    (hrun : Runs.run UmLink.step (start m) evs = .ok l) :
    Agree l (Runs.exec sizedStep (u, []) evs) :=
  Runs.run_exec sizedStep Agree (fun ev hev _ _ _ hagree hstep => hagree.step (hsized ev hev) hstep)
    ⟨hu, .nil⟩ hrun

theorem sizes_agree_lossy :
    ∃ l, Runs.run UmLink.step (start 10240) lossy = .ok l ∧
      Agree l (Runs.exec sizedStep (⟨10240, false, 0, 100, 0, [], 0, false⟩, []) lossy) := by
  obtain ⟨l, hrun⟩ := Fallible.exists_of_isOk
    (show (Runs.run UmLink.step (start 10240) lossy).isOk = true by decide +kernel)
  exact ⟨l, hrun, sizes_agree 10240 _ ⟨rfl, rfl, rfl, rfl, fun t ht => absurd ht List.not_mem_nil⟩
    lossy (by decide +kernel) l hrun⟩

end UmLink

end Rbis
