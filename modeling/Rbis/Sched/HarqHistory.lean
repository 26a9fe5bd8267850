import Rbis.Lib.Journal
import Rbis.Sched.HarqRetransmit

/-! # The transmissions of a HARQ process

The DCIs of a direction, in the order in which they are created, are a journal: its keys are the
HARQ processes, the rank of a transmission is its redundancy version, its content the transport
block.  `HarqTrace` says that the journal is sequential and that every active process carries the
last transmission under its key.  Expiry, feedback and postponement keep it, as they leave the
journal alone; a retransmission and new data append to it. -/

namespace Rbis

open Journal UeHarqMap

/-- What all the transmissions of a transport block share. -/
structure TransportBlock where
  tbSize : ℕ
  mcs : ℕ
  rank : ℕ
  numSym : ℕ
  rbgBitmask : List Bool
deriving DecidableEq

namespace DciInfoElementTdma

def key (d : DciInfoElementTdma) : ℕ × ℕ := (d.rnti, d.harqProcess)

def block (d : DciInfoElementTdma) : TransportBlock :=
  ⟨d.tbSize, d.mcs, d.rank, d.numSym, d.rbgBitmask⟩

end DciInfoElementTdma

/-- The DCI of an active process: it names the process, and is for one of the transmissions
`0, …, x`. -/
structure DciOfProcess (fmt : DciFormat) (bw x : ℕ) (k : ℕ × ℕ) (dci : DciInfoElementTdma) :
    Prop where
  key : dci.key = k
  format : dci.format = fmt
  rbgs : dci.rbgBitmask.length = bw
  rv_le : dci.rv ≤ x

/-- The process carries the last transmission under its key. -/
def Traced (fmt : DciFormat) (bw x : ℕ) (log : List DciInfoElementTdma) (k : ℕ × ℕ)
    (p : HarqProcess) : Prop :=
  p.active = true → ∃ dci d, p.dciElement = some dci ∧ DciOfProcess fmt bw x k dci ∧
    (history DciInfoElementTdma.key log k).getLast? = some d ∧ d.rv = dci.rv ∧ d.block = dci.block

/-- The journal `log` of the processes of `m`. -/
structure HarqTrace (fmt : DciFormat) (bw x : ℕ) (log : List DciInfoElementTdma) (m : UeHarqMap) :
    Prop where
  coherent : m.Coherent
  sequential : Sequential DciInfoElementTdma.key DciInfoElementTdma.rv DciInfoElementTdma.block log
  numbered : ∀ d ∈ log, d.rv ≤ x ∧ d.ndi = if d.rv = 0 then 1 else 0
  traced : ∀ k, m.Known k → Traced fmt bw x log k (m.process k)

section Trace

variable {fmt : DciFormat} {bw x : ℕ} {log : List DciInfoElementTdma} {m m' : UeHarqMap}
  {k : ℕ × ℕ} {p : HarqProcess}

theorem traced_of_inactive (h : p.active = false) : Traced fmt bw x log k p := fun h' => by
  rw [h] at h'
  cases h'

theorem Traced.congr (h : Traced fmt bw x log k p) {q : HarqProcess}
    (hdci : q.dciElement = p.dciElement) (hactive : q.active = p.active) :
    Traced fmt bw x log k q := fun hq => by
  rw [hdci]
  exact h (hactive ▸ hq)

theorem Traced.concat (h : Traced fmt bw x log k p) {d : DciInfoElementTdma} (hd : d.key ≠ k) :
    Traced fmt bw x (log ++ [d]) k p := fun hp => by
  rw [history_concat_of_ne hd]
  exact h hp

theorem HarqTrace.congr (h : HarqTrace fmt bw x log m) (hc : m'.Coherent) (hs : SameShape m m')
    (hp : ∀ k, m.Known k → Traced fmt bw x log k (m'.process k)) : HarqTrace fmt bw x log m' :=
  ⟨hc, h.sequential, h.numbered, fun k hk => hp k (hs.known_iff.mp hk)⟩

theorem HarqTrace.put (h : HarqTrace fmt bw x log m) (hk : m.Known k)
    (hactive : p.active = (m.process k).active)
    (hstatus : p.active = false ↔ p.status = .inactive) (hp : Traced fmt bw x log k p) :
    HarqTrace fmt bw x log (m.put k p) := by
  refine h.congr (h.coherent.put hk hactive hstatus) (sameShape_put k p) fun k' hk' => ?_
  rw [process_put]
  split
  · next heq => exact heq ▸ hp
  · exact h.traced k' hk'

/-- A process is sent again, or for the first time: its DCI goes to the end of the journal. -/
theorem HarqTrace.send (h : HarqTrace fmt bw x log m) (hc : m'.Coherent)
    {dci : DciInfoElementTdma} (hdci : DciOfProcess fmt bw x k dci)
    (hndi : dci.ndi = if dci.rv = 0 then 1 else 0)
    (hfollows : Follows DciInfoElementTdma.rv DciInfoElementTdma.block
      (history DciInfoElementTdma.key log k).getLast? dci)
    (hp : (m'.process k).dciElement = some dci)
    (hothers : ∀ k', m'.Known k' → k' ≠ k → m.Known k' ∧ m'.process k' = m.process k') :
    HarqTrace fmt bw x (log ++ [dci]) m' where
  coherent := hc
  sequential := h.sequential.concat (hdci.key.symm ▸ hfollows)
  numbered := fun d hd => by
    rcases List.mem_append.mp hd with hd | hd
    · exact h.numbered d hd
    · rw [List.mem_singleton.mp hd]
      exact ⟨hdci.rv_le, hndi⟩
  traced := fun k' hk' => by
    obtain rfl | hne := eq_or_ne k' k
    · refine fun _ => ⟨dci, dci, hp, hdci, ?_, rfl, rfl⟩
      have hlast : history DciInfoElementTdma.key (log ++ [dci]) dci.key =
          history DciInfoElementTdma.key log dci.key ++ [dci] := history_concat_self
      rw [hdci.key] at hlast
      rw [hlast, List.getLast?_concat]
    · obtain ⟨hk, heq⟩ := hothers k' hk' hne
      rw [heq]
      exact (h.traced k' hk).concat (hdci.key.trans_ne hne.symm)

/-! ### UEs that come and go -/

theorem HarqTrace.configUe (h : HarqTrace fmt bw x log m) (C : HarqConfig) (r : ℕ) :
    HarqTrace fmt bw x log (m.configUe C r) := by
  unfold UeHarqMap.configUe
  split
  · exact h
  · next hr =>
      have hharq : ∀ r', Function.update m.harq r C.newVector r' =
          if r' = r then C.newVector else m.harq r' := fun r' => Function.update_apply ..
      refine ⟨fun r' hr' => ?_, h.sequential, h.numbered, fun k hk => ?_⟩
      · show (Function.update m.harq r C.newVector r').Coherent
        rw [hharq]
        split
        · exact NrMacHarqVector.coherent_setMaxSize C.perm C.lt
        · next hne => exact h.coherent r' ((List.mem_cons.mp hr').resolve_left hne)
      · have hk' : k.2 ∈ (Function.update m.harq r C.newVector k.1).ids := hk.2
        rw [hharq] at hk'
        show Traced fmt bw x log k ((Function.update m.harq r C.newVector k.1).process k.2)
        rw [hharq]
        split
        · exact traced_of_inactive rfl
        · next hne =>
            rw [if_neg hne] at hk'
            exact h.traced k ⟨(List.mem_cons.mp hk.1).resolve_left hne, hk'⟩

theorem HarqTrace.releaseUe (h : HarqTrace fmt bw x log m) {r : ℕ} (hr : r ∈ m.rntis) :
    ∃ m', m.releaseUe r = .ok m' ∧ HarqTrace fmt bw x log m' ∧
      ∀ k, k.1 ≠ r → (m'.Known k ↔ m.Known k) ∧ m'.process k = m.process k := by
  refine ⟨{ m with rntis := m.rntis.erase r, nodup := m.nodup.erase r }, if_pos hr,
    ⟨fun r' hr' => h.coherent r' (List.mem_of_mem_erase hr'), h.sequential, h.numbered,
      fun k hk => h.traced k ⟨List.mem_of_mem_erase hk.1, hk.2⟩⟩,
    fun k hne => ⟨and_congr_left fun _ => List.mem_erase_of_ne hne, rfl⟩⟩

/-! ### Expiry and feedback -/

theorem HarqTrace.resetExpired (h : HarqTrace fmt bw x log m) {n : ℕ} (hn : n < 256) :
    ∃ m', m.resetExpired n = .ok m' ∧ HarqTrace fmt bw x log m' ∧ SameShape m m' ∧
      ∀ k, m.Known k → (m'.process k).active = false ∨ (m.process k).active = true ∧
        (m.process k).timer < n ∧ (m'.process k).timer = (m.process k).timer + 1 := by
  obtain ⟨m', h1, h2, h3, h4⟩ := h.coherent.resetExpired hn
  refine ⟨m', h1, h.congr h2 h3 fun k hk => ?_, h3, fun k hk => ?_⟩
  · rw [h4 k hk, HarqProcess.expire]
    split
    · exact h.traced k hk
    · split
      · exact (h.traced k hk).congr rfl rfl
      · exact traced_of_inactive rfl
  · have hstatus : (m.process k).active = false ↔ (m.process k).status = .inactive :=
      (h.coherent k.1 hk.1).status k.2 hk.2
    rw [h4 k hk, HarqProcess.expire]
    split
    · next hs => exact .inl (hstatus.mpr hs)
    · next hs =>
        split
        · next hlt => exact .inr ⟨Bool.not_eq_false _ ▸ mt hstatus.mp hs, hlt, rfl⟩
        · exact .inl rfl

/-- A process with a NACK that asks for a retransmission. -/
structure Nacked (fmt : DciFormat) (bw x : ℕ) (k : ℕ × ℕ) (p : HarqProcess) : Prop where
  active : p.active = true
  status : p.status = .receivedFeedback
  dci : ∃ dci, p.dciElement = some dci ∧ DciOfProcess fmt bw x k dci ∧ dci.rv < x

/-- What remains of the feedback for different active processes are the NACKs of processes that may
send again. -/
theorem HarqTrace.processHARQFeedbacks (h : HarqTrace fmt bw x log m) (hx : x ≤ 3)
    {l : List HarqInfo} (hn : (l.map HarqInfo.key).Nodup)
    (hl : ∀ f ∈ l, m.Known f.key ∧ (m.process f.key).active = true) :
    ∃ m' l', UeHarqMap.processHARQFeedbacks x l m = .ok (m', l') ∧ HarqTrace fmt bw x log m' ∧
      SameShape m m' ∧ l'.Sublist l ∧
      (∀ f ∈ l', f.receivedOk = false ∧ Nacked fmt bw x f.key (m'.process f.key)) ∧
      ∀ k, m'.process k = m.process k ∨ (m'.process k).active = false ∨
        m'.process k = nacked (m.process k) := by
  obtain ⟨m', h1, h2, h3, h4, h5⟩ := processHARQFeedbacks_ok x h.coherent hn fun f hf => by
    obtain ⟨hknown, hactive⟩ := hl f hf
    obtain ⟨dci, d, hdci, hof, -⟩ := h.traced f.key hknown hactive
    exact ⟨hknown, hactive, dci, hdci, by have := hof.rv_le; omega⟩
  refine ⟨m', _, h1, h.congr h2 h3 fun k hk => ?_, h3, List.filter_sublist, fun f hf => ?_,
    fun k => ?_⟩
  · by_cases hmem : k ∈ l.map HarqInfo.key
    · obtain ⟨f, hf, rfl⟩ := List.mem_map.mp hmem
      rw [h5 f hf]
      split
      · exact traced_of_inactive rfl
      · exact (h.traced f.key hk).congr rfl rfl
    · rw [h4 k hmem]
      exact h.traced k hk
  · obtain ⟨hf, hnot⟩ := List.mem_filter.mp hf
    obtain ⟨hknown, hactive⟩ := hl f hf
    obtain ⟨dci, d, hdci, hof, -⟩ := h.traced f.key hknown hactive
    have hdone : ¬ Done x f (m.process f.key) := of_decide_eq_true hnot
    obtain ⟨hok, hrv⟩ := not_or.mp hdone
    rw [hdci, Option.map_some, Option.some_inj] at hrv
    rw [h5 f hf, if_neg hdone]
    exact ⟨Bool.eq_false_iff.mpr hok, hactive, rfl, dci, hdci, hof,
      lt_of_le_of_ne hof.rv_le hrv⟩
  · by_cases hmem : k ∈ l.map HarqInfo.key
    · obtain ⟨f, hf, rfl⟩ := List.mem_map.mp hmem
      rw [h5 f hf]
      split
      · exact .inr (.inl rfl)
      · exact .inr (.inr rfl)
    · exact .inl (h4 k hmem)

/-! ### Retransmissions -/

theorem restart_status (h : p.active = true) :
    p.restart.active = false ↔ p.restart.status = .inactive :=
  iff_of_false (by rw [show p.restart.active = true from h]; exact Bool.noConfusion)
    HarqStatus.noConfusion

theorem HarqTrace.restart (h : HarqTrace fmt bw x log m) (hk : m.Known k)
    (hp : Nacked fmt bw x k (m.process k)) :
    HarqTrace fmt bw x log (m.put k (m.process k).restart) :=
  h.put hk rfl (restart_status hp.active) ((h.traced k hk).congr rfl rfl)

theorem HarqTrace.restart_moved (h : HarqTrace fmt bw x log m) (hk : m.Known k)
    (hp : Nacked fmt bw x k (m.process k)) {dci : DciInfoElementTdma}
    (hdci : (m.process k).dciElement = some dci) (sym : ℕ) :
    HarqTrace fmt bw x log
      (m.put k ((m.process k).restart.setDci { dci with symStart := sym })) := by
  refine h.put hk rfl (restart_status hp.active) fun hactive => ?_
  obtain ⟨dci', d, h1, h2, h3, h4, h5⟩ := h.traced k hk hactive
  obtain rfl : dci' = dci := Option.some_inj.mp (h1.symm.trans hdci)
  exact ⟨_, d, rfl, ⟨h2.key, h2.format, h2.rbgs, h2.rv_le⟩, h3, h4, h5⟩

/-- The process is sent again. -/
theorem HarqTrace.reTx (h : HarqTrace fmt bw x log m) (hx : x ≤ 3) (hk : m.Known k)
    (hp : Nacked fmt bw x k (m.process k)) {dci : DciInfoElementTdma}
    (hdci : (m.process k).dciElement = some dci) (sym : ℕ) :
    HarqTrace fmt bw x (log ++ [dci.reTx sym])
      (m.put k ((m.process k).restart.setDci (dci.reTx sym))) := by
  obtain ⟨dci', d, h1, h2, h3, h4, h5⟩ := h.traced k hk hp.active
  obtain rfl : dci' = dci := Option.some_inj.mp (h1.symm.trans hdci)
  obtain ⟨dci'', h6, -, h7⟩ := hp.dci
  obtain rfl : dci'' = dci' := Option.some_inj.mp (h6.symm.trans hdci)
  have hrv : (dci''.reTx sym).rv = dci''.rv + 1 := Nat.mod_eq_of_lt (by omega)
  have hof : DciOfProcess fmt bw x k (dci''.reTx sym) := ⟨h2.key, h2.format, h2.rbgs, hrv ▸ h7⟩
  have hcoh : (m.put k ((m.process k).restart.setDci (dci''.reTx sym))).Coherent :=
    h.coherent.put hk rfl (restart_status hp.active)
  refine h.send hcoh hof ?_ (.inr ⟨d, h3, by omega, h5.symm⟩) ?_ fun k' hk' hne => ?_
  · rw [hrv]
    rfl
  · rw [process_put, if_pos rfl]
    rfl
  · rw [process_put, if_neg hne]
    exact ⟨(sameShape_put k _).known_iff.mp hk', rfl⟩

/-! ### New data -/

/-- The allocation of new data, as `CreateDlDci` and `CreateUlDci` make it. -/
structure NewData (fmt : DciFormat) (bw : ℕ) (a : VarTtiAllocInfo) : Prop where
  format : a.dci.format = fmt
  rbgs : a.dci.rbgBitmask.length = bw
  ndi : a.dci.ndi = 1
  rv : a.dci.rv = 0

/-- New data for a UE with a free process. -/
theorem HarqTrace.insertNew (h : HarqTrace fmt bw x log m) {a : VarTtiAllocInfo}
    (ha : NewData fmt bw a) (hr : a.dci.rnti ∈ m.rntis)
    (hcan : (m.harq a.dci.rnti).canInsert = true) :
    ∃ m' id, m.insertNew a = .ok (m', ⟨{ a.dci with harqProcess := id }, a.rlcPduInfo⟩) ∧
      HarqTrace fmt bw x (log ++ [{ a.dci with harqProcess := id }]) m' ∧ SameShape m m' ∧
      (∀ r, r ≠ a.dci.rnti → m'.harq r = m.harq r) ∧
      ∀ k, k ≠ (a.dci.rnti, id) → m'.process k = m.process k := by
  have hv := h.coherent _ hr
  obtain ⟨hid, hfree⟩ := hv.firstAvailableId hcan
  obtain ⟨heq, hcoh⟩ := hv.insert_eq hcan (e := .new a.dci) rfl HarqStatus.noConfusion
  generalize hw : ({ (m.harq a.dci.rnti).put (m.harq a.dci.rnti).firstAvailableId (.new a.dci) with
    usedSize := (m.harq a.dci.rnti).usedSize + 1 } : NrMacHarqVector) = w at heq hcoh
  generalize (m.harq a.dci.rnti).firstAvailableId = id at *
  have hids : w.ids = (m.harq a.dci.rnti).ids := by
    rw [← hw]
    rfl
  have hmax : w.maxSize = (m.harq a.dci.rnti).maxSize := by
    rw [← hw]
    rfl
  have hproc : ∀ i, w.process i =
      if i = id then .new a.dci else (m.harq a.dci.rnti).process i := fun i => by
    rw [← hw]
    exact NrMacHarqVector.put_process ..
  have hself : w.process id = .new a.dci := (hproc id).trans (if_pos rfl)
  generalize hdci : ({ a.dci with harqProcess := id } : DciInfoElementTdma) = dci
  generalize hp : ({ (w.process id).setDci dci with rlcPduInfo := a.rlcPduInfo } :
    HarqProcess) = p
  have hactive : p.active = true := by
    rw [← hp, hself]
    rfl
  have hput : (w.put id p).Coherent := by
    refine hcoh.put (hids ▸ hid) ?_ (iff_of_false (by rw [hactive]; exact Bool.noConfusion) ?_)
    · rw [hactive, hself]
      rfl
    · rw [← hp, hself]
      exact HarqStatus.noConfusion
  have hshape : SameShape m (m.setVector a.dci.rnti (w.put id p)) :=
    sameShape_setVector hids hmax
  have hrv : dci.rv = 0 := by
    rw [← hdci]
    exact ha.rv
  have hothers : ∀ k, k ≠ (a.dci.rnti, id) →
      (m.setVector a.dci.rnti (w.put id p)).process k = m.process k := by
    intro k hne
    rw [process_setVector]
    split
    · next hr' =>
        have hi : k.2 ≠ id := fun hi => hne (Prod.ext hr' hi)
        rw [NrMacHarqVector.put_process, if_neg hi, hproc, if_neg hi, process, hr']
    · rfl
  refine ⟨m.setVector a.dci.rnti (w.put id p), id, ?_, ?_, hshape,
    fun r hne => (harq_setVector a.dci.rnti _ r).trans (if_neg hne), hothers⟩
  · rw [UeHarqMap.insertNew, if_neg (not_not_intro hr), hcan, heq, ← hp, ← hdci]
    rfl
  · have hof : DciOfProcess fmt bw x (a.dci.rnti, id) dci := by
      refine ⟨?_, ?_, ?_, hrv ▸ Nat.zero_le x⟩
      · rw [← hdci]
        rfl
      · rw [← hdci]
        exact ha.format
      · rw [← hdci]
        exact ha.rbgs
    have hndi : dci.ndi = if dci.rv = 0 then 1 else 0 := by
      rw [hrv, if_pos rfl, ← hdci]
      exact ha.ndi
    rw [hdci]
    refine h.send (h.coherent.setVector hput) hof hndi (.inl hrv) ?_
      fun k' hk' hne => ⟨hshape.known_iff.mp hk', hothers k' hne⟩
    rw [process_setVector, if_pos rfl, NrMacHarqVector.put_process, if_pos rfl, ← hp]
    rfl

/-- What happened to a process: it was sent, it was put off, or nothing. -/
def Handled (m m' : UeHarqMap) (created : List VarTtiAllocInfo) (kept : List HarqInfo)
    (k : ℕ × ℕ) : Prop :=
  (∃ a ∈ created, a.dci.key = k) ∨ (∃ f ∈ kept, f.key = k) ∨ m'.process k = m.process k

theorem Handled.trans {m'' : UeHarqMap} {created created' : List VarTtiAllocInfo}
    {kept kept' : List HarqInfo} (h : Handled m m' created kept k)
    (h' : Handled m' m'' created' kept' k) :
    Handled m m'' (created ++ created') (kept ++ kept') k := by
  rcases h' with ⟨a, ha, hk⟩ | ⟨f, hf, hk⟩ | hsame
  · exact .inl ⟨a, List.mem_append_right _ ha, hk⟩
  · exact .inr (.inl ⟨f, List.mem_append_right _ hf, hk⟩)
  rcases h with ⟨a, ha, hk⟩ | ⟨f, hf, hk⟩ | hsame'
  · exact .inl ⟨a, List.mem_append_left _ ha, hk⟩
  · exact .inr (.inl ⟨f, List.mem_append_left _ hf, hk⟩)
  · exact .inr (.inr (hsame.trans hsame'))

/-- All the new data of a slot, for different UEs. -/
theorem HarqTrace.insertAll : ∀ {l : List VarTtiAllocInfo} {m : UeHarqMap}
    {log : List DciInfoElementTdma}, HarqTrace fmt bw x log m →
    (∀ a ∈ l, NewData fmt bw a ∧ a.dci.rnti ∈ m.rntis ∧ (m.harq a.dci.rnti).canInsert = true) →
    (l.map fun a => a.dci.rnti).Nodup →
    ∃ m' created, UeHarqMap.insertAll l m = .ok (m', created) ∧
      HarqTrace fmt bw x (log ++ created.map VarTtiAllocInfo.dci) m' ∧ SameShape m m' ∧
      (created.map fun a => a.dci.rnti) = l.map (fun a => a.dci.rnti) ∧
      ∀ k, Handled m m' created [] k := by
  intro l
  induction l with
  | nil =>
      intro m log h _ _
      exact ⟨m, [], rfl, by simpa using h, SameShape.refl m, rfl, fun k => .inr (.inr rfl)⟩
  | cons a l ih =>
      intro m log h hl hn
      rw [List.map_cons, List.nodup_cons] at hn
      obtain ⟨ha, hr, hcan⟩ := hl a List.mem_cons_self
      obtain ⟨u, id, h1, h2, h3, h4, h5⟩ := h.insertNew ha hr hcan
      obtain ⟨m', created, k1, k2, k3, k4, k5⟩ := ih h2 (fun b hb => by
        have hne : b.dci.rnti ≠ a.dci.rnti := fun e => hn.1 (e ▸ List.mem_map_of_mem hb)
        obtain ⟨hb1, hb2, hb3⟩ := hl b (List.mem_cons_of_mem a hb)
        exact ⟨hb1, h3.rntis ▸ hb2, h4 _ hne ▸ hb3⟩) hn.2
      refine ⟨m', ⟨{ a.dci with harqProcess := id }, a.rlcPduInfo⟩ :: created, ?_, ?_,
        h3.trans k3, ?_, fun k => ?_⟩
      · rw [UeHarqMap.insertAll, h1, Fallible.ok_bind, k1]
        rfl
      · rw [List.map_cons, List.append_cons]
        exact k2
      · rw [List.map_cons, List.map_cons, k4]
      · rcases k5 k with ⟨b, hb, hbk⟩ | ⟨f, hf, -⟩ | hsame
        · exact .inl ⟨b, List.mem_cons_of_mem _ hb, hbk⟩
        · exact absurd hf List.not_mem_nil
        · by_cases hk : k = (a.dci.rnti, id)
          · exact .inl ⟨_, List.mem_cons_self, hk.symm⟩
          · exact .inr (.inr (hsame.trans (h5 k hk)))

end Trace

end Rbis
