import Rbis.Sched.HarqEntity

/-! # HARQ in the uplink

The HARQ side of `DoSchedUlTriggerReq`, slot after slot, with UEs that come and go; a UE with a
put-off retransmission is not released, for the next slot would look it up in `m_ueMap`.  The
feedback of a slot is about different processes, none of which waits for a retransmission; otherwise
it is any feedback.  In all such runs no assertion fails, the transmissions of a process are those of one
transport block after the other, each at most `maxHarqReTx + 1` times (`transmissions`), and a
process that is neither sent nor put off for `numHarqProcess + 1` slots is free (`freed`). -/

namespace Rbis

open Journal UeHarqMap

section Loop

variable {bw x : ℕ} {log : List DciInfoElementTdma}

/-! ### The loop -/

theorem assertActive_ok {m : UeHarqMap} {l : List HarqInfo}
    (h : ∀ f ∈ l, m.Known f.key ∧ (m.process f.key).active = true) : assertActive m l = .ok () := by
  induction l with
  | nil => rfl
  | cons f l ih =>
      obtain ⟨hknown, hactive⟩ := h f List.mem_cons_self
      rw [assertActive, find_eq hknown, Fallible.ok_bind, hactive]
      exact ih fun g hg => h g (List.mem_cons_of_mem f hg)

/-- One feedback: the process is sent if its symbols are left, and put off otherwise. -/
theorem retransmitUl_ok (hx : x ≤ 3) {f : HarqInfo} {s : UlHarqLoop}
    (h : HarqTrace .ul bw x log s.ues) (hk : s.ues.Known f.key) (hf : f.receivedOk = false)
    (hp : Nacked .ul bw x f.key (s.ues.process f.key)) :
    ∃ t created kept, retransmitUl f s = .ok t ∧
      HarqTrace .ul bw x (log ++ created.map VarTtiAllocInfo.dci) t.ues ∧ SameShape s.ues t.ues ∧
      t.slotAlloc.varTtiAllocInfo = created ++ s.slotAlloc.varTtiAllocInfo ∧
      t.ulHarqToRetransmit = s.ulHarqToRetransmit ++ kept ∧
      (created = [] ∧ kept = [f] ∨ created.length = 1 ∧ kept = []) ∧
      (∀ k ≠ f.key, t.ues.process k = s.ues.process k) ∧
      Handled s.ues t.ues created kept f.key := by
  obtain ⟨dci, hdci, hof, hrv⟩ := hp.dci
  have hothers : ∀ p : HarqProcess, ∀ k ≠ f.key, (s.ues.put f.key p).process k = s.ues.process k :=
    fun p k hne => (process_put f.key k p).trans (if_neg hne)
  simp only [retransmitUl, hf, Bool.false_eq_true, if_false, find_eq hk, Fallible.ok_bind,
    hp.status, ne_eq, not_true_eq_false, hdci, Fallible.pure_eq]
  by_cases hsym : dci.numSym ≤ s.symAvail
  · rw [if_pos hsym, if_neg (not_not_intro hof.format)]
    have hid : ({ dci.reTx (subUint8 s.sym dci.numSym) with harqProcess := f.harqProcessId } :
        DciInfoElementTdma) = dci.reTx (subUint8 s.sym dci.numSym) := by
      have : f.harqProcessId = dci.harqProcess := (congrArg Prod.snd hof.key).symm
      rw [this]
      rfl
    rw [hid]
    refine ⟨_, [⟨dci.reTx (subUint8 s.sym dci.numSym), []⟩], [], rfl,
      h.reTx hx hk hp hdci _, sameShape_put f.key _, rfl, (List.append_nil _).symm,
      .inr ⟨rfl, rfl⟩, hothers _, .inl ⟨_, List.mem_singleton_self _, ?_⟩⟩
    exact hof.key
  · rw [if_neg hsym]
    refine ⟨_, [], [f], rfl, ?_, sameShape_put f.key _, rfl, rfl, .inl ⟨rfl, rfl⟩, hothers _,
      .inr (.inl ⟨f, List.mem_singleton_self f, rfl⟩)⟩
    rw [List.map_nil, List.append_nil]
    exact h.restart hk hp

/-- **Step lemma** of the uplink retransmissions. -/
theorem scheduleUlHarq_ok (hx : x ≤ 3) : ∀ {l : List HarqInfo} {s : UlHarqLoop}
    {log : List DciInfoElementTdma}, HarqTrace .ul bw x log s.ues → (l.map HarqInfo.key).Nodup →
    (∀ f ∈ l, s.ues.Known f.key ∧ f.receivedOk = false ∧
      Nacked .ul bw x f.key (s.ues.process f.key)) →
    ∃ t created kept, scheduleUlHarq l s = .ok t ∧
      HarqTrace .ul bw x (log ++ created.map VarTtiAllocInfo.dci) t.ues ∧ SameShape s.ues t.ues ∧
      t.slotAlloc.varTtiAllocInfo = created.reverse ++ s.slotAlloc.varTtiAllocInfo ∧
      t.ulHarqToRetransmit = s.ulHarqToRetransmit ++ kept ∧ kept.Sublist l ∧
      ∀ k, Handled s.ues t.ues created kept k := by
  intro l
  induction l with
  | nil =>
      intro s log h _ _
      exact ⟨s, [], [], rfl, by simpa using h, SameShape.refl _, rfl, (List.append_nil _).symm,
        List.Sublist.refl _, fun k => .inr (.inr rfl)⟩
  | cons f l ih =>
      intro s log h hn hl
      rw [List.map_cons, List.nodup_cons] at hn
      rw [scheduleUlHarq]
      by_cases hsym : s.symAvail = 0
      · rw [if_pos hsym]
        exact ⟨s, [], [], rfl, by simpa using h, SameShape.refl _, rfl, (List.append_nil _).symm,
          List.nil_sublist _, fun k => .inr (.inr rfl)⟩
      rw [if_neg hsym]
      obtain ⟨hk, hf, hp⟩ := hl f List.mem_cons_self
      obtain ⟨u, created, kept, h1, h2, h3, h4, h5, h6, h7, h8⟩ := retransmitUl_ok hx h hk hf hp
      obtain ⟨t, created', kept', k1, k2, k3, k4, k5, k6, k7⟩ := ih h2 hn.2 fun g hg => by
        have hne : g.key ≠ f.key := fun e => hn.1 (e ▸ List.mem_map_of_mem hg)
        rw [h3.known_iff, h7 g.key hne]
        exact hl g (List.mem_cons_of_mem f hg)
      refine ⟨t, created ++ created', kept ++ kept', by rw [h1]; exact k1, ?_, h3.trans k3, ?_, ?_,
        ?_, fun k => ?_⟩
      · rw [List.map_append, ← List.append_assoc]
        exact k2
      · have hrev : created.reverse = created := by
          rcases h6 with ⟨rfl, -⟩ | ⟨hone, -⟩
          · rfl
          · obtain ⟨a, rfl⟩ := List.length_eq_one_iff.mp hone
            rfl
        rw [k4, h4, List.reverse_append, hrev, List.append_assoc]
      · rw [k5, h5, List.append_assoc]
      · rcases h6 with ⟨-, rfl⟩ | ⟨-, rfl⟩
        · exact k6.cons_cons f
        · exact k6.cons f
      · refine Handled.trans ?_ (k7 k)
        by_cases hkf : k = f.key
        · exact hkf ▸ h8
        · exact .inr (.inr (h7 k hkf))

theorem retransmitUl_symUsed {f : HarqInfo} {s t : UlHarqLoop} (h : retransmitUl f s = .ok t) :
    t.symUsed + t.symAvail ≤ s.symUsed + s.symAvail := by
  unfold retransmitUl at h
  split at h
  · cases h
  obtain ⟨p, -, h⟩ := Fallible.bind_eq_ok.mp h
  dsimp only at h
  split at h
  · cases h
  split at h
  · cases h
  · next dci _ =>
      split at h
      · split at h
        · cases h
        · cases h
          have hmod := Nat.mod_le (s.symUsed + dci.numSym) 256
          show (s.symUsed + dci.numSym) % 256 + (s.symAvail - dci.numSym) ≤ _
          omega
      · cases h
        exact le_rfl

theorem scheduleUlHarq_symUsed : ∀ {l : List HarqInfo} {s t : UlHarqLoop},
    scheduleUlHarq l s = .ok t → t.symUsed + t.symAvail ≤ s.symUsed + s.symAvail
  | [], s, t, h => by
      cases h
      exact le_rfl
  | f :: l, s, t, h => by
      rw [scheduleUlHarq] at h
      split at h
      · cases h
        exact le_rfl
      · obtain ⟨u, hround, hrest⟩ := Fallible.bind_eq_ok.mp h
        exact (scheduleUlHarq_symUsed hrest).trans (retransmitUl_symUsed hround)

end Loop

/-! ### The entity -/

namespace UlHarq

open HarqEntity

variable (C : HarqConfig) (s : HarqEntity)

/-- `DoSchedUlTriggerReq`, as far as HARQ goes. -/
def step : HarqEvent → Except Fault HarqEntity
  | .configUe rnti => .ok (s.configUe C rnti)
  | .releaseUe rnti => s.releaseUe rnti
  | .slot feedback symAvail sym newData => do
      let r ← s.processFeedback C dropInactive feedback
      assertActive r.1 r.2
      let t ← scheduleUlHarq r.2 ⟨r.1, [], symAvail, 0, sym, ⟨[], 0⟩⟩
      if symAvail < t.symUsed then throw .assertion
      let n ← insertAll (active t.ues t.slotAlloc.varTtiAllocInfo newData) t.ues
      return {
        ues := n.1
        harqToRetransmit := t.ulHarqToRetransmit
        log := s.log ++ (t.slotAlloc.varTtiAllocInfo.reverse ++ n.2).map VarTtiAllocInfo.dci }

/-- The feedback of a slot is about different processes of UEs that are there, and about none that
waits for its retransmission. -/
def Admissible : HarqEvent → Prop
  | .configUe _ => True
  | .releaseUe rnti => s.Releasable rnti
  | .slot feedback _ _ newData =>
      (feedback.map HarqInfo.key).Nodup ∧
        (∀ f ∈ feedback, s.ues.Known f.key ∧ f.key ∉ s.harqToRetransmit.map HarqInfo.key) ∧
        s.Offered .ul C newData

instance : ∀ ev, Decidable (Admissible C s ev)
  | .configUe _ => .isTrue trivial
  | .releaseUe rnti => inferInstanceAs (Decidable (s.Releasable rnti))
  | .slot feedback _ _ newData => inferInstanceAs (Decidable (
      (feedback.map HarqInfo.key).Nodup ∧
        (∀ f ∈ feedback, s.ues.Known f.key ∧ f.key ∉ s.harqToRetransmit.map HarqInfo.key) ∧
        s.Offered .ul C newData))

variable {C s}

theorem slot_ok (h : s.Inv .ul C) {feedback : List HarqInfo} {symAvail sym : ℕ}
    {newData : List VarTtiAllocInfo} (ha : Admissible C s (.slot feedback symAvail sym newData)) :
    ∃ t, step C s (.slot feedback symAvail sym newData) = .ok t ∧ t.Inv .ul C ∧
      AfterSlot .ul C s t := by
  obtain ⟨hnodup, hfeedback, hnew⟩ := ha
  have hdistinct : ((s.harqToRetransmit ++ feedback).map HarqInfo.key).Nodup := by
    rw [List.map_append]
    refine List.nodup_append'.mpr ⟨h.nodup, hnodup, fun k hk hk' => ?_⟩
    obtain ⟨f, hf, rfl⟩ := List.mem_map.mp hk'
    exact (hfeedback f hf).2 hk
  obtain ⟨m, kept, h1, hm⟩ := h.processFeedback dropInactive
    (fun f hf => (hfeedback f hf).1) fun m hknown =>
      ⟨_, dropInactive_eq hknown, List.filter_sublist,
        (List.filter_sublist.map HarqInfo.key).nodup hdistinct,
        fun f hf => (List.mem_filter.mp hf).2⟩
  obtain ⟨u, created, put, l1, l2, l3, l4, l5, l6, l7⟩ := scheduleUlHarq_ok
    C.maxHarqReTx_le (s := ⟨m, [], symAvail, 0, sym, ⟨[], 0⟩⟩) hm.trace hm.nodup hm.nacked
  rw [List.append_nil] at l4
  have hput : u.ulHarqToRetransmit = put := l5
  obtain ⟨v, created', n1, n2⟩ := Inv.finish u.slotAlloc.varTtiAllocInfo hm l2 l3
    ((l6.map HarqInfo.key).nodup hm.nodup) (fun f hf => (hm.nacked f (l6.subset hf)).1) l7 hnew
  have hactive : assertActive m kept = .ok () :=
    assertActive_ok fun f hf => ⟨(hm.nacked f hf).1, (hm.nacked f hf).2.2.active⟩
  refine ⟨_, ?_, n2.inv, n2⟩
  have hused := scheduleUlHarq_symUsed l1
  have hfit : ¬ symAvail < u.symUsed := by
    dsimp only at hused
    omega
  simp only [step, h1, Fallible.ok_bind, hactive, l1, if_neg hfit, Fallible.pure_eq, n1]
  rw [hput, l4, List.reverse_reverse]

/-- **Step lemma.** -/
theorem rules (C : HarqConfig) : Rules id (step C) (Admissible C) .ul C (Inv .ul C) where
  slot := fun _ _ _ _ _ hs ha => slot_ok hs ha
  configUe := fun _ r hs => ⟨_, rfl, hs.configUe r, fun _ hk => keeps_configUe hk r⟩
  releaseUe := fun _ _ hs ha => hs.releaseUe ha

/-- **Run lemma.** -/
theorem run_inv (C : HarqConfig) {evs : List HarqEvent}
    (h : Runs.Allowed (step C) (Admissible C) (start C) evs) :
    ∃ s, Runs.run (step C) (start C) evs = .ok s ∧ s.Inv .ul C :=
  Runs.run_of_guard (Inv .ul C) (fun _ _ hs ha => (rules C).step_inv hs ha) (inv_start .ul C) h

/-- **Transmissions.** No admissible run fails an assertion.  A DCI with the redundancy version `r`
comes, on its process, right behind the transmissions `0, …, r - 1` of the same transport block, and
`r` is at most `maxHarqReTx`; the new data indicator is set for the first transmission only. -/
theorem transmissions (C : HarqConfig) (evs : List HarqEvent)
    (h : Runs.Allowed (step C) (Admissible C) (start C) evs) :
    ∃ s, Runs.run (step C) (start C) evs = .ok s ∧
      ∀ pre d post, s.log = pre ++ d :: post →
        d.rv ≤ C.maxHarqReTx ∧ (d.ndi = if d.rv = 0 then 1 else 0) ∧
        ∃ before blk, history DciInfoElementTdma.key pre d.key = before ++ blk ∧
          blk.map DciInfoElementTdma.rv = List.range d.rv ∧ ∀ a ∈ blk, a.block = d.block := by
  obtain ⟨s, hrun, hs⟩ := run_inv C h
  exact ⟨s, hrun, fun _ _ _ hlog => hs.block hlog⟩

/-- Two processes for a UE, and a bandwidth of one RBG. -/
def twoProcesses : HarqConfig where
  numHarqProcess := 2
  lt := by decide
  ids := [1, 0]
  perm := by decide
  enableHarqReTx := true
  bandwidth := 1

/-- UE 7 has a transport block of four symbols. -/
def arrival : HarqEvent :=
  .slot [] 12 13 [⟨⟨7, .ul, 9, 4, 12, 1, 100, 1, 0, .data, 0, 1, 0, [true]⟩, []⟩]

/-- The block is lost twice; its second retransmission does not fit into the next slot. -/
def lossy : List HarqEvent :=
  [.configUe 7, arrival, .slot [⟨7, 1, false⟩] 12 13 [], .slot [⟨7, 1, false⟩] 2 13 [],
    .slot [] 12 13 [], .slot [⟨7, 1, true⟩] 12 13 [], .releaseUe 7]

theorem transmissions_lossy :
    ∃ s, Runs.run (step twoProcesses) (start twoProcesses) lossy = .ok s ∧
      ∀ pre d post, s.log = pre ++ d :: post →
        d.rv ≤ 3 ∧ (d.ndi = if d.rv = 0 then 1 else 0) ∧
        ∃ before blk, history DciInfoElementTdma.key pre d.key = before ++ blk ∧
          blk.map DciInfoElementTdma.rv = List.range d.rv ∧ ∀ a ∈ blk, a.block = d.block :=
  transmissions twoProcesses lossy (by decide +kernel)

/-- **Expiry.** A process that is neither sent nor put off for `numHarqProcess + 1` slots is free,
whatever feedback comes, and whatever other UEs come and go meanwhile. -/
theorem freed (C : HarqConfig) (evs l : List HarqEvent) (k : ℕ × ℕ)
    (h : Runs.Allowed (step C) (Admissible C) (start C) evs)
    (hl : C.numHarqProcess < l.countP HarqEvent.isSlot)
    (hquiet : ∀ s, Runs.run (step C) (start C) evs = .ok s →
      s.ues.Known k ∧ Runs.Allowed (step C) (Quiet id (step C) (Admissible C) k) s l) :
    ∃ s t, Runs.run (step C) (start C) evs = .ok s ∧ Runs.run (step C) s l = .ok t ∧
      (t.ues.process k).active = false := by
  obtain ⟨s, hrun, hs⟩ := run_inv C h
  obtain ⟨hk, hq⟩ := hquiet s hrun
  obtain ⟨t, h1, h2⟩ := (rules C).free_of_quiet hs hk hl hq
  exact ⟨s, t, hrun, h1, h2⟩

/-- No feedback comes, and UE 8 comes and goes. -/
def silent : List HarqEvent :=
  [.slot [] 12 13 [], .configUe 8, .slot [] 12 13 [], .releaseUe 8, .slot [] 12 13 []]

theorem freed_silent :
    ∃ s t, Runs.run (step twoProcesses) (start twoProcesses) [.configUe 7, arrival] = .ok s ∧
      Runs.run (step twoProcesses) s silent = .ok t ∧ (t.ues.process (7, 1)).active = false :=
  freed twoProcesses [.configUe 7, arrival] silent (7, 1) (by decide +kernel) (by decide)
    (by decide +kernel)

end UlHarq

end Rbis
