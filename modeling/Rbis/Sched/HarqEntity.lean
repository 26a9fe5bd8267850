import Rbis.Lib.Runs
import Rbis.Sched.HarqHistory

/-! # The HARQ entity of a direction

What the uplink and the downlink share: the UEs come and go, a slot begins with the expired
processes and the feedback, goes on with the retransmissions, which each direction makes in its own
way, and ends with new data for UEs that have a free process and no retransmission in the slot.

The states of an entity meet `Inv`.  `Inv.transmissions` says what its journal looks like, and
`quiet_run` that a process which is neither sent nor put off is free in the end. -/

namespace Rbis

open Journal UeHarqMap

structure HarqEntity where
  ues : UeHarqMap
  /-- `m_dlHarqToRetransmit` or `m_ulHarqToRetransmit`. -/
  harqToRetransmit : List HarqInfo := []
  /-- The DCIs that were created, retransmissions and new data. -/
  log : List DciInfoElementTdma := []

inductive HarqEvent where
  | configUe (rnti : ℕ)
  | releaseUe (rnti : ℕ)
  /-- A slot: the feedback, the symbols for retransmissions, the symbol they begin at (downlink) or
  end before (uplink), and what `CreateDlDci` or `CreateUlDci` makes for every UE with data. -/
  | slot (feedback : List HarqInfo) (symAvail sym : ℕ) (newData : List VarTtiAllocInfo)

def HarqEvent.isSlot : HarqEvent → Bool
  | .slot .. => true
  | _ => false

/-- The UE that leaves. -/
def HarqEvent.released : HarqEvent → Option ℕ
  | .releaseUe rnti => some rnti
  | _ => none

namespace HarqEntity

variable (fmt : DciFormat) (C : HarqConfig) (s : HarqEntity)

/-- No UE is there. -/
def start : HarqEntity := { ues := ⟨[], fun _ => C.newVector, List.nodup_nil⟩ }

def configUe (rnti : ℕ) : HarqEntity := { s with ues := s.ues.configUe C rnti }

def releaseUe (rnti : ℕ) : Except Fault HarqEntity := do
  let ues ← s.ues.releaseUe rnti
  return { s with ues := ues }

/-- The feedback part of the two trigger requests; `drop` removes what is stale. -/
def processFeedback (drop : UeHarqMap → List HarqInfo → Except Fault (List HarqInfo))
    (feedback : List HarqInfo) : Except Fault (UeHarqMap × List HarqInfo) := do
  let ues ← s.ues.resetExpired C.numHarqProcess
  if feedback = [] ∧ s.harqToRetransmit = [] then return (ues, [])
  else
    let kept ← drop ues (s.harqToRetransmit ++ feedback)
    processHARQFeedbacks C.maxHarqReTx kept ues

/-- The new data that `ComputeActiveUe` and the loop behind the retransmissions let through: of UEs
with a free process and nothing else in the slot. -/
def active (ues : UeHarqMap) (allocs newData : List VarTtiAllocInfo) : List VarTtiAllocInfo :=
  newData.filter fun a => (ues.harq a.dci.rnti).canInsert ∧
    a.dci.rnti ∉ allocs.map fun b => b.dci.rnti

instance (bw : ℕ) (a : VarTtiAllocInfo) : Decidable (NewData fmt bw a) :=
  decidable_of_iff (a.dci.format = fmt ∧ a.dci.rbgBitmask.length = bw ∧ a.dci.ndi = 1 ∧ a.dci.rv = 0)
    ⟨fun ⟨h1, h2, h3, h4⟩ => ⟨h1, h2, h3, h4⟩, fun ⟨h1, h2, h3, h4⟩ => ⟨h1, h2, h3, h4⟩⟩

/-- None of the processes of the UE waits for a retransmission. -/
def Releasable (rnti : ℕ) : Prop :=
  rnti ∈ s.ues.rntis ∧ ∀ f ∈ s.harqToRetransmit, f.rnti ≠ rnti

instance (rnti : ℕ) : Decidable (s.Releasable rnti) :=
  inferInstanceAs (Decidable (rnti ∈ s.ues.rntis ∧ ∀ f ∈ s.harqToRetransmit, f.rnti ≠ rnti))

/-- The new data is of different UEs that are there. -/
def Offered (newData : List VarTtiAllocInfo) : Prop :=
  (newData.map fun a => a.dci.rnti).Nodup ∧
    ∀ a ∈ newData, NewData fmt C.bandwidth a ∧ a.dci.rnti ∈ s.ues.rntis

instance (newData : List VarTtiAllocInfo) : Decidable (s.Offered fmt C newData) :=
  inferInstanceAs (Decidable ((newData.map fun a => a.dci.rnti).Nodup ∧
    ∀ a ∈ newData, NewData fmt C.bandwidth a ∧ a.dci.rnti ∈ s.ues.rntis))

/-! ### The invariant -/

/-- The journal is in order, and the processes that wait for a retransmission are different ones. -/
structure Inv (s : HarqEntity) : Prop where
  trace : HarqTrace fmt C.bandwidth C.maxHarqReTx s.log s.ues
  nodup : (s.harqToRetransmit.map HarqInfo.key).Nodup
  known : ∀ f ∈ s.harqToRetransmit, s.ues.Known f.key

theorem inv_start : (start C).Inv fmt C where
  trace := ⟨fun _ hr => absurd hr List.not_mem_nil, sequential_nil,
    fun _ hd => absurd hd List.not_mem_nil, fun _ hk => absurd hk.1 List.not_mem_nil⟩
  nodup := List.nodup_nil
  known := fun _ hf => absurd hf List.not_mem_nil

variable {fmt C s}

/-- The UE of a process is still there, and the process as it was. -/
structure Keeps (k : ℕ × ℕ) (s t : HarqEntity) : Prop where
  known : t.ues.Known k
  process : t.ues.process k = s.ues.process k

theorem keeps_configUe {k : ℕ × ℕ} (hk : s.ues.Known k) (r : ℕ) : Keeps k s (s.configUe C r) := by
  obtain ⟨h1, h2⟩ := hk
  unfold HarqEntity.configUe UeHarqMap.configUe
  split
  · exact ⟨⟨h1, h2⟩, rfl⟩
  · next hr =>
      have hne : k.1 ≠ r := fun e => hr (e ▸ h1)
      have hsame : Function.update s.ues.harq r C.newVector k.1 = s.ues.harq k.1 :=
        Function.update_of_ne hne _ _
      refine ⟨⟨List.mem_cons_of_mem r h1, ?_⟩, ?_⟩
      · show k.2 ∈ (Function.update s.ues.harq r C.newVector k.1).ids
        rw [hsame]
        exact h2
      · exact congrArg (fun v => v.process k.2) hsame

theorem Inv.configUe (h : s.Inv fmt C) (r : ℕ) : (s.configUe C r).Inv fmt C :=
  ⟨h.trace.configUe C r, h.nodup, fun f hf => (keeps_configUe (h.known f hf) r).known⟩

theorem Inv.releaseUe (h : s.Inv fmt C) {r : ℕ} (hr : s.Releasable r) :
    ∃ t, s.releaseUe r = .ok t ∧ t.Inv fmt C ∧
      ∀ k, s.ues.Known k → r ≠ k.1 → Keeps k s t := by
  obtain ⟨m', h1, h2, h3⟩ := h.trace.releaseUe hr.1
  refine ⟨{ s with ues := m' }, ?_, ⟨h2, h.nodup, fun f hf => ?_⟩, fun k hk hne => ?_⟩
  · rw [HarqEntity.releaseUe, h1]
    rfl
  · exact (h3 f.key (hr.2 f hf)).1.mpr (h.known f hf)
  · obtain ⟨hknown, hprocess⟩ := h3 k hne.symm
    exact ⟨hknown.mpr hk, hprocess⟩

theorem Inv.block (h : s.Inv fmt C) {pre post : List DciInfoElementTdma} {d : DciInfoElementTdma}
    (hlog : s.log = pre ++ d :: post) :
    d.rv ≤ C.maxHarqReTx ∧ (d.ndi = if d.rv = 0 then 1 else 0) ∧
      ∃ before blk, history DciInfoElementTdma.key pre d.key = before ++ blk ∧
        blk.map DciInfoElementTdma.rv = List.range d.rv ∧ ∀ a ∈ blk, a.block = d.block := by
  obtain ⟨h1, h2⟩ := h.trace.numbered d (hlog ▸ List.mem_append_right pre List.mem_cons_self)
  have hseq := h.trace.sequential
  rw [hlog] at hseq
  exact ⟨h1, h2, hseq.block⟩

/-! ### A slot -/

/-- The process is free, or older by a slot. -/
def PassedOver (C : HarqConfig) (s : HarqEntity) (p : HarqProcess) (k : ℕ × ℕ) : Prop :=
  p.active = false ∨ (s.ues.process k).active = true ∧
    (s.ues.process k).timer < C.numHarqProcess ∧ p.timer = (s.ues.process k).timer + 1

/-- What the feedback part leaves: NACKs of different processes that may send again. -/
structure Fed (fmt : DciFormat) (C : HarqConfig) (s : HarqEntity) (m : UeHarqMap)
    (kept : List HarqInfo) : Prop where
  trace : HarqTrace fmt C.bandwidth C.maxHarqReTx s.log m
  shape : SameShape s.ues m
  nodup : (kept.map HarqInfo.key).Nodup
  nacked : ∀ f ∈ kept, m.Known f.key ∧ f.receivedOk = false ∧
    Nacked fmt C.bandwidth C.maxHarqReTx f.key (m.process f.key)
  passed : ∀ k, s.ues.Known k → PassedOver C s (m.process k) k

theorem Inv.processFeedback (h : s.Inv fmt C)
    (drop : UeHarqMap → List HarqInfo → Except Fault (List HarqInfo)) {feedback : List HarqInfo}
    (hfeedback : ∀ f ∈ feedback, s.ues.Known f.key)
    (hdrop : ∀ m, (∀ f ∈ s.harqToRetransmit ++ feedback, m.Known f.key) →
      ∃ l, drop m (s.harqToRetransmit ++ feedback) = .ok l ∧
        l.Sublist (s.harqToRetransmit ++ feedback) ∧ (l.map HarqInfo.key).Nodup ∧
        ∀ f ∈ l, (m.process f.key).active = true) :
    ∃ m kept, s.processFeedback C drop feedback = .ok (m, kept) ∧ Fed fmt C s m kept := by
  obtain ⟨m, h1, h2, h3, h4⟩ := h.trace.resetExpired C.lt
  rw [HarqEntity.processFeedback, h1, Fallible.ok_bind]
  by_cases hempty : feedback = [] ∧ s.harqToRetransmit = []
  · rw [if_pos hempty]
    exact ⟨m, [], rfl, h2, h3, List.nodup_nil, fun f hf => absurd hf List.not_mem_nil, h4⟩
  · rw [if_neg hempty]
    have hknown : ∀ f ∈ s.harqToRetransmit ++ feedback, m.Known f.key := by
      intro f hf
      rw [h3.known_iff]
      rcases List.mem_append.mp hf with hf | hf
      · exact h.known f hf
      · exact hfeedback f hf
    obtain ⟨l, l1, l2, l3, l4⟩ := hdrop m hknown
    rw [l1, Fallible.ok_bind]
    obtain ⟨m', kept, k1, k2, k3, k4, k5, k6⟩ := h2.processHARQFeedbacks C.maxHarqReTx_le l3
      fun f hf => ⟨hknown f (l2.subset hf), l4 f hf⟩
    refine ⟨m', kept, k1, k2, h3.trans k3, (k4.map HarqInfo.key).nodup l3, fun f hf => ?_,
      fun k hk => ?_⟩
    · exact ⟨k3.known_iff.mpr (hknown f (l2.subset (k4.subset hf))), k5 f hf⟩
    · rcases k6 k with heq | hfree | heq
      · rw [heq]
        exact h4 k hk
      · exact .inl hfree
      · rw [heq]
        exact h4 k hk

/-- What a slot does to a process: it is sent, put off, or passed over. -/
structure AfterSlot (fmt : DciFormat) (C : HarqConfig) (s t : HarqEntity) : Prop where
  inv : t.Inv fmt C
  shape : SameShape s.ues t.ues
  sent : ∃ sent, t.log = s.log ++ sent ∧ ∀ k, s.ues.Known k → (∃ d ∈ sent, d.key = k) ∨
    (∃ f ∈ t.harqToRetransmit, f.key = k) ∨ PassedOver C s (t.ues.process k) k

/-- The new data of a slot, behind retransmissions that handled every process. -/
theorem Inv.finish (allocs : List VarTtiAllocInfo) {m u : UeHarqMap} {kept put : List HarqInfo}
    {created newData : List VarTtiAllocInfo} (hm : Fed fmt C s m kept)
    (hu : HarqTrace fmt C.bandwidth C.maxHarqReTx (s.log ++ created.map VarTtiAllocInfo.dci) u)
    (hshape : SameShape m u) (hnodup : (put.map HarqInfo.key).Nodup)
    (hput : ∀ f ∈ put, m.Known f.key) (hhandled : ∀ k, Handled m u created put k)
    (hnew : s.Offered fmt C newData) :
    ∃ v created', insertAll (active u allocs newData) u = .ok (v, created') ∧
      AfterSlot fmt C s ⟨v, put, s.log ++ (created ++ created').map VarTtiAllocInfo.dci⟩ := by
  have hsu : SameShape s.ues u := hm.shape.trans hshape
  obtain ⟨v, created', n1, n2, n3, -, n5⟩ := hu.insertAll (l := active u allocs newData)
    (fun a ha => by
      obtain ⟨hmem, hfree⟩ := List.mem_filter.mp ha
      exact ⟨(hnew.2 a hmem).1, hsu.rntis ▸ (hnew.2 a hmem).2, (of_decide_eq_true hfree).1⟩)
    ((List.filter_sublist.map _).nodup hnew.1)
  rw [List.append_assoc, ← List.map_append] at n2
  refine ⟨v, created', n1, ⟨n2, hnodup, fun f hf => ?_⟩, hsu.trans n3, _, rfl, fun k hk => ?_⟩
  · rw [(hshape.trans n3).known_iff]
    exact hput f hf
  · rcases (hhandled k).trans (n5 k) with ⟨a, ha, hak⟩ | ⟨f, hf, hfk⟩ | hsame
    · exact .inl ⟨a.dci, List.mem_map_of_mem ha, hak⟩
    · exact .inr (.inl ⟨f, List.append_nil put ▸ hf, hfk⟩)
    · refine .inr (.inr ?_)
      rw [hsame]
      exact hm.passed k hk

/-! ### Quiet runs -/

section Quiet

variable {σ : Type} (entity : σ → HarqEntity) (step : σ → HarqEvent → Except Fault σ)
  (adm : σ → HarqEvent → Prop)

/-- A slot that neither sends the process nor puts it off, a configuration, or the release of another
UE. -/
def Quiet (k : ℕ × ℕ) (s : σ) (ev : HarqEvent) : Prop :=
  adm s ev ∧ ev.released ≠ some k.1 ∧ (ev.isSlot = true → ∀ t, step s ev = .ok t →
    (∀ d ∈ (entity t).log.drop (entity s).log.length, d.key ≠ k) ∧
      ∀ f ∈ (entity t).harqToRetransmit, f.key ≠ k)

instance [∀ s ev, Decidable (adm s ev)] (k : ℕ × ℕ) (s : σ) (ev : HarqEvent) :
    Decidable (Quiet entity step adm k s ev) :=
  inferInstanceAs (Decidable (adm s ev ∧ ev.released ≠ some k.1 ∧
    (ev.isSlot = true → ∀ t, step s ev = .ok t →
      (∀ d ∈ (entity t).log.drop (entity s).log.length, d.key ≠ k) ∧
        ∀ f ∈ (entity t).harqToRetransmit, f.key ≠ k)))

/-- What the events of an entity do in the states of `I`. -/
structure Rules (fmt : DciFormat) (C : HarqConfig) (I : σ → Prop) : Prop where
  slot : ∀ s feedback symAvail sym newData, I s → adm s (.slot feedback symAvail sym newData) →
    ∃ t, step s (.slot feedback symAvail sym newData) = .ok t ∧ I t ∧
      AfterSlot fmt C (entity s) (entity t)
  configUe : ∀ s r, I s → ∃ t, step s (.configUe r) = .ok t ∧ I t ∧
    ∀ k, (entity s).ues.Known k → Keeps k (entity s) (entity t)
  releaseUe : ∀ s r, I s → adm s (.releaseUe r) → ∃ t, step s (.releaseUe r) = .ok t ∧ I t ∧
    ∀ k, (entity s).ues.Known k → r ≠ k.1 → Keeps k (entity s) (entity t)

variable {entity step adm}

theorem Rules.step_inv {I : σ → Prop} (R : Rules entity step adm fmt C I) {s : σ} {ev : HarqEvent}
    (hs : I s) (ha : adm s ev) : ∃ t, step s ev = .ok t ∧ I t := by
  cases ev with
  | configUe r =>
      obtain ⟨t, h1, h2, -⟩ := R.configUe s r hs
      exact ⟨t, h1, h2⟩
  | releaseUe r =>
      obtain ⟨t, h1, h2, -⟩ := R.releaseUe s r hs ha
      exact ⟨t, h1, h2⟩
  | slot feedback symAvail sym newData =>
      obtain ⟨t, h1, h2, -⟩ := R.slot s feedback symAvail sym newData hs ha
      exact ⟨t, h1, h2⟩

/-- **Step lemma.**  A quiet event passes over the process, or leaves it as it was. -/
theorem Rules.quiet_step {I : σ → Prop} (R : Rules entity step adm fmt C I) {k : ℕ × ℕ} {s : σ}
    {ev : HarqEvent} (hs : I s) (hk : (entity s).ues.Known k) (hq : Quiet entity step adm k s ev) :
    ∃ t, step s ev = .ok t ∧ I t ∧ (entity t).ues.Known k ∧
      if ev.isSlot then PassedOver C (entity s) ((entity t).ues.process k) k
      else (entity t).ues.process k = (entity s).ues.process k := by
  obtain ⟨ha, hne, hquiet⟩ := hq
  cases ev with
  | configUe r =>
      obtain ⟨t, h1, h2, h3⟩ := R.configUe s r hs
      obtain ⟨h4, h5⟩ := h3 k hk
      exact ⟨t, h1, h2, h4, h5⟩
  | releaseUe r =>
      obtain ⟨t, h1, h2, h3⟩ := R.releaseUe s r hs ha
      obtain ⟨h4, h5⟩ := h3 k hk fun e => hne (congrArg some e)
      exact ⟨t, h1, h2, h4, h5⟩
  | slot feedback symAvail sym newData =>
      obtain ⟨t, h1, h2, h3, h4, sent, h5, h6⟩ := R.slot s feedback symAvail sym newData hs ha
      obtain ⟨hsent, hput⟩ := hquiet rfl t h1
      refine ⟨t, h1, h2, h4.known_iff.mpr hk, ?_⟩
      rcases h6 k hk with ⟨d, hd, hdk⟩ | ⟨f, hf, hfk⟩ | hpassed
      · refine absurd hdk (hsent d ?_)
        rw [h5, List.drop_left]
        exact hd
      · exact absurd hfk (hput f hf)
      · exact hpassed

/-- **Run lemma.**  Quiet slots pass over a process, until it is free. -/
theorem Rules.quiet_run {I : σ → Prop} (R : Rules entity step adm fmt C I) {k : ℕ × ℕ}
    {l : List HarqEvent} : ∀ {s : σ}, I s → (entity s).ues.Known k →
    Runs.Allowed step (Quiet entity step adm k) s l →
    ∃ t, Runs.run step s l = .ok t ∧ (((entity t).ues.process k).active = false ∨
      ((entity t).ues.process k).timer =
          ((entity s).ues.process k).timer + l.countP HarqEvent.isSlot ∧
        (0 < l.countP HarqEvent.isSlot → ((entity t).ues.process k).timer ≤ C.numHarqProcess) ∧
        ((entity s).ues.process k).active = true) := by
  induction l with
  | nil =>
      intro s _ _ _
      refine ⟨s, rfl, ?_⟩
      cases hactive : ((entity s).ues.process k).active with
      | false => exact .inl rfl
      | true => exact .inr ⟨rfl, fun h => absurd h (Nat.lt_irrefl 0), rfl⟩
  | cons ev l ih =>
      intro s hs hk ⟨hq, hrest⟩
      obtain ⟨t, h1, h2, h3, h4⟩ := R.quiet_step hs hk hq
      obtain ⟨u, k1, k2⟩ := ih h2 h3 (hrest t h1)
      refine ⟨u, (Runs.run_cons_of_ok h1).trans k1, ?_⟩
      rcases k2 with hfree | ⟨htimer, hle, hactive⟩
      · exact .inl hfree
      cases hslot : ev.isSlot with
      | false =>
          rw [hslot, if_neg Bool.false_ne_true] at h4
          rw [List.countP_cons_of_neg (by rw [hslot]; exact Bool.false_ne_true), ← h4]
          exact .inr ⟨htimer, hle, hactive⟩
      | true =>
          rw [hslot, if_pos rfl] at h4
          rw [List.countP_cons_of_pos hslot]
          rcases h4 with hfree | ⟨hactive', hlt, hnext⟩
          · rw [hfree] at hactive
            cases hactive
          · refine .inr ⟨by rw [htimer, hnext]; omega, fun _ => ?_, hactive'⟩
            rcases Nat.eq_zero_or_pos (l.countP HarqEvent.isSlot) with hzero | hpos
            · rw [htimer, hnext, hzero]
              omega
            · exact hle hpos

theorem Rules.free_of_quiet {I : σ → Prop} (R : Rules entity step adm fmt C I) {k : ℕ × ℕ}
    {l : List HarqEvent} {s : σ} (hs : I s) (hk : (entity s).ues.Known k)
    (hl : C.numHarqProcess < l.countP HarqEvent.isSlot)
    (hquiet : Runs.Allowed step (Quiet entity step adm k) s l) :
    ∃ t, Runs.run step s l = .ok t ∧ ((entity t).ues.process k).active = false := by
  obtain ⟨t, h1, h2⟩ := R.quiet_run hs hk hquiet
  refine ⟨t, h1, h2.resolve_right fun ⟨htimer, hle, _⟩ => ?_⟩
  have hlast := hle (by omega)
  omega

end Quiet

end HarqEntity

end Rbis
