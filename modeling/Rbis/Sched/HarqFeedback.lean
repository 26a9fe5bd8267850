import Rbis.Sched.HarqVector

/-! # HARQ feedback

At the beginning of a slot the scheduler resets the processes that waited for too long
(`ResetExpiredHARQ`), joins the feedback of the slot to the one that is left from earlier slots
(`MergeHARQ`), drops what belongs to processes that are no longer active, and goes through the rest
(`ProcessHARQFeedbacks`): an ACK, or the NACK of the last transmission, frees the process, another
NACK marks it for a retransmission.  The downlink also drops a second feedback for one process.

The UEs of `m_ueMap` have distinct RNTIs and are visited in the order that the map yields. -/

namespace Rbis

/-- What a UE, or the PHY in the uplink, says about a transport block. -/
structure HarqInfo where
  rnti : ℕ
  harqProcessId : ℕ
  /-- `IsReceivedOk`. -/
  receivedOk : Bool
deriving DecidableEq

/-- The process that the feedback is about. -/
def HarqInfo.key (f : HarqInfo) : ℕ × ℕ := (f.rnti, f.harqProcessId)

/-- `m_ueMap`, with the HARQ vectors of one direction. -/
structure UeHarqMap where
  rntis : List ℕ
  harq : ℕ → NrMacHarqVector
  nodup : rntis.Nodup

namespace UeHarqMap

variable (m : UeHarqMap)

def process (k : ℕ × ℕ) : HarqProcess := (m.harq k.1).process k.2

/-- The UE is there, and its vector has the process. -/
def Known (k : ℕ × ℕ) : Prop := k.1 ∈ m.rntis ∧ k.2 ∈ (m.harq k.1).ids

instance (k : ℕ × ℕ) : Decidable (m.Known k) :=
  inferInstanceAs (Decidable (k.1 ∈ m.rntis ∧ k.2 ∈ (m.harq k.1).ids))

/-- Overwrite the vector of a UE. -/
def setVector (rnti : ℕ) (v : NrMacHarqVector) : UeHarqMap :=
  { m with harq := Function.update m.harq rnti v }

/-- Overwrite a process. -/
def put (k : ℕ × ℕ) (p : HarqProcess) : UeHarqMap := m.setVector k.1 ((m.harq k.1).put k.2 p)

/-- `m_ueMap.find(rnti)->second->m_dlHarq.Find(id)->second`. -/
def find (k : ℕ × ℕ) : Except Fault HarqProcess :=
  if m.Known k then .ok (m.process k) else .error .invalidIterator

def erase (k : ℕ × ℕ) : Except Fault UeHarqMap := do
  let v ← (m.harq k.1).erase k.2
  return m.setVector k.1 v

/-! ### The processes of the map -/

/-- The same UEs and the same identifiers. -/
structure SameShape (m m' : UeHarqMap) : Prop where
  rntis : m'.rntis = m.rntis
  ids : ∀ r, (m'.harq r).ids = (m.harq r).ids
  maxSize : ∀ r, (m'.harq r).maxSize = (m.harq r).maxSize

theorem SameShape.refl : SameShape m m := ⟨rfl, fun _ => rfl, fun _ => rfl⟩

variable {m} {m' m'' : UeHarqMap}

theorem SameShape.trans (h : SameShape m m') (h' : SameShape m' m'') : SameShape m m'' :=
  ⟨h'.rntis.trans h.rntis, fun r => (h'.ids r).trans (h.ids r),
    fun r => (h'.maxSize r).trans (h.maxSize r)⟩

theorem SameShape.known_iff (h : SameShape m m') {k : ℕ × ℕ} : m'.Known k ↔ m.Known k := by
  rw [Known, Known, h.rntis, h.ids]

/-- Every vector is coherent. -/
def Coherent (m : UeHarqMap) : Prop := ∀ r ∈ m.rntis, (m.harq r).Coherent

@[simp] theorem harq_setVector (r : ℕ) (v : NrMacHarqVector) (r' : ℕ) :
    (m.setVector r v).harq r' = if r' = r then v else m.harq r' := Function.update_apply ..

theorem process_setVector (r : ℕ) (v : NrMacHarqVector) (k : ℕ × ℕ) :
    (m.setVector r v).process k = if k.1 = r then v.process k.2 else m.process k := by
  rw [process, harq_setVector]
  split
  · rfl
  · rfl

theorem sameShape_setVector {r : ℕ} {v : NrMacHarqVector} (hids : v.ids = (m.harq r).ids)
    (hmax : v.maxSize = (m.harq r).maxSize) : SameShape m (m.setVector r v) where
  rntis := rfl
  ids := fun r' => by
    rw [harq_setVector]
    split
    · next h => rw [h, hids]
    · rfl
  maxSize := fun r' => by
    rw [harq_setVector]
    split
    · next h => rw [h, hmax]
    · rfl

theorem Coherent.setVector (h : m.Coherent) {r : ℕ} {v : NrMacHarqVector} (hv : v.Coherent) :
    (m.setVector r v).Coherent := by
  intro r' hr'
  rw [harq_setVector]
  split
  · exact hv
  · exact h r' hr'

@[simp] theorem process_put (k k' : ℕ × ℕ) (p : HarqProcess) :
    (m.put k p).process k' = if k' = k then p else m.process k' := by
  rw [put, process_setVector, NrMacHarqVector.put_process]
  by_cases h1 : k'.1 = k.1
  · by_cases h2 : k'.2 = k.2
    · rw [if_pos h1, if_pos h2, if_pos (Prod.ext h1 h2)]
    · rw [if_pos h1, if_neg h2, if_neg fun h => h2 (congrArg Prod.snd h), process, h1]
  · rw [if_neg h1, if_neg fun h => h1 (congrArg Prod.fst h)]

theorem put_put (k : ℕ × ℕ) (p q : HarqProcess) : (m.put k p).put k q = m.put k q := by
  simp [put, setVector, NrMacHarqVector.put]

theorem sameShape_put (k : ℕ × ℕ) (p : HarqProcess) : SameShape m (m.put k p) :=
  sameShape_setVector rfl rfl

theorem Coherent.put (h : m.Coherent) {k : ℕ × ℕ} (hk : m.Known k) {p : HarqProcess}
    (hactive : p.active = (m.process k).active)
    (hstatus : p.active = false ↔ p.status = .inactive) : (m.put k p).Coherent :=
  h.setVector ((h k.1 hk.1).put hk.2 hactive hstatus)

theorem Coherent.erase (h : m.Coherent) {k : ℕ × ℕ} (hk : m.Known k)
    (hactive : (m.process k).active = true) :
    ∃ m', m.erase k = .ok m' ∧ m'.Coherent ∧ SameShape m m' ∧
      ∀ k', m'.process k' = if k' = k then {} else m.process k' := by
  obtain ⟨heq, hv⟩ := (h k.1 hk.1).erase_eq hk.2 hactive
  refine ⟨_, ?_, h.setVector hv, sameShape_setVector rfl rfl, fun k' => ?_⟩
  · rw [UeHarqMap.erase, heq]
    rfl
  · have hput := process_put (m := m) k k' {}
    rw [UeHarqMap.put, process_setVector] at hput
    rw [process_setVector]
    exact hput

/-! ### Expiry -/

end UeHarqMap

/-- The body of the loop of `ResetExpiredHARQ`. -/
def expireOne (numHarqProcess : ℕ) (v : NrMacHarqVector) (id : ℕ) : Except Fault NrMacHarqVector :=
  let p := v.process id
  if p.status = .inactive then .ok v
  else if p.timer < numHarqProcess then .ok (v.put id { p with timer := (p.timer + 1) % 256 })
  else v.erase id

/-- `ResetExpiredHARQ`. -/
def NrMacHarqVector.resetExpiredHARQ (numHarqProcess : ℕ) (v : NrMacHarqVector) :
    Except Fault NrMacHarqVector :=
  v.ids.foldlM (expireOne numHarqProcess) v

/-- The process one slot later. -/
def HarqProcess.expire (numHarqProcess : ℕ) (p : HarqProcess) : HarqProcess :=
  if p.status = .inactive then p
  else if p.timer < numHarqProcess then { p with timer := p.timer + 1 }
  else {}

/-- Every process ages by a slot, or is reset. -/
theorem NrMacHarqVector.Coherent.resetExpired {n : ℕ} (hn : n < 256) {v : NrMacHarqVector}
    (h : v.Coherent) : ∃ w, v.resetExpiredHARQ n = .ok w ∧ w.Coherent ∧ w.ids = v.ids ∧
      w.maxSize = v.maxSize ∧ ∀ id ∈ v.ids, w.process id = (v.process id).expire n := by
  have hnodup : (v.ids.map id).Nodup := by
    rw [List.map_id]
    exact v.nodup_ids
  obtain ⟨w, h1, ⟨h2, h3, h4⟩, -, h5⟩ := Fallible.foldlM_each
    (f := expireOne n) (fun w => w.Coherent ∧ w.ids = v.ids ∧ w.maxSize = v.maxSize)
    NrMacHarqVector.process id (fun id _ => id ∈ v.ids) (fun _ p q => q = p.expire n)
    (fun i b ⟨hb, hids, hmax⟩ hi => by
      have hi' : i ∈ b.ids := hids ▸ hi
      unfold expireOne HarqProcess.expire
      dsimp only [id_eq]
      split
      · exact ⟨b, rfl, ⟨hb, hids, hmax⟩, fun _ _ => rfl, rfl⟩
      · next hstatus =>
          have hactive : (b.process i).active = true := by
            by_contra hne
            exact hstatus ((hb.status i hi').mp (Bool.eq_false_iff.mpr hne))
          split
          · next hlt =>
              refine ⟨_, rfl, ⟨hb.put hi' rfl (hb.status i hi'), hids, hmax⟩,
                fun k hk => by rw [put_process, if_neg hk], ?_⟩
              rw [put_process, if_pos rfl, Nat.mod_eq_of_lt (by omega)]
          · obtain ⟨heq, hcoh⟩ := hb.erase_eq hi' hactive
            refine ⟨_, heq, ⟨hcoh, hids, hmax⟩, fun k hk => ?_, ?_⟩
            · exact (put_process b i {} k).trans (if_neg hk)
            · exact (put_process b i {} i).trans (if_pos rfl))
    hnodup ⟨h, rfl, rfl⟩ (fun i hi => hi)
  exact ⟨w, h1, h2, h3, h4, h5⟩

namespace UeHarqMap

/-- The processes of all UEs. -/
def resetExpired (numHarqProcess : ℕ) (m : UeHarqMap) : Except Fault UeHarqMap :=
  m.rntis.foldlM (fun m rnti => do
    let v ← (m.harq rnti).resetExpiredHARQ numHarqProcess
    return m.setVector rnti v) m

variable {m : UeHarqMap}

theorem Coherent.resetExpired {n : ℕ} (hn : n < 256) (h : m.Coherent) :
    ∃ m', m.resetExpired n = .ok m' ∧ m'.Coherent ∧ SameShape m m' ∧
      ∀ k, m.Known k → m'.process k = (m.process k).expire n := by
  have hnodup : (m.rntis.map id).Nodup := by
    rw [List.map_id]
    exact m.nodup
  obtain ⟨m', h1, ⟨h2, h3⟩, -, h4⟩ := Fallible.foldlM_each
    (f := fun (m : UeHarqMap) rnti => do
      let v ← (m.harq rnti).resetExpiredHARQ n
      return m.setVector rnti v)
    (fun b => b.Coherent ∧ SameShape m b) UeHarqMap.harq id (fun r _ => r ∈ m.rntis)
    (fun _ v w => ∀ i ∈ v.ids, w.process i = (v.process i).expire n)
    (fun r b ⟨hb, hshape⟩ hr => by
      obtain ⟨w, k1, k2, k3, k4, k5⟩ := (hb r (hshape.rntis ▸ hr)).resetExpired hn
      refine ⟨b.setVector r w, ?_, ⟨hb.setVector k2, hshape.trans (sameShape_setVector k3 k4)⟩,
        fun r' hr' => (harq_setVector r w r').trans (if_neg hr'), ?_⟩
      · rw [k1]
        rfl
      · intro i hi
        rw [harq_setVector, id_eq, if_pos rfl]
        exact k5 i hi)
    hnodup ⟨h, SameShape.refl m⟩ (fun r hr => hr)
  exact ⟨m', h1, h2, h3, fun k hk => h4 k.1 hk.1 k.2 hk.2⟩

/-! ### UEs that come and go -/

end UeHarqMap

/-- What the HARQ side of the scheduler reads of its configuration. -/
structure HarqConfig where
  /-- `GetNumHarqProcess`, a `uint8_t`. -/
  numHarqProcess : ℕ
  lt : numHarqProcess < 256
  /-- The order in which a vector of processes is iterated. -/
  ids : List ℕ
  perm : ids.Perm (List.range numHarqProcess)
  enableHarqReTx : Bool
  /-- `GetBandwidthInRbg`. -/
  bandwidth : ℕ

namespace HarqConfig

variable (C : HarqConfig)

/-- The highest redundancy version. -/
def maxHarqReTx : ℕ := if C.enableHarqReTx then 3 else 0

/-- The vector of a new UE. -/
def newVector : NrMacHarqVector := .setMaxSize C.numHarqProcess C.ids C.perm C.lt

theorem maxHarqReTx_le : C.maxHarqReTx ≤ 3 := by
  unfold maxHarqReTx
  split <;> omega

end HarqConfig

namespace UeHarqMap

/-- `DoCschedUeConfigReq`: a UE that is not there gets a new vector. -/
def configUe (C : HarqConfig) (m : UeHarqMap) (rnti : ℕ) : UeHarqMap :=
  if h : rnti ∈ m.rntis then m
  else
    { rntis := rnti :: m.rntis
      harq := Function.update m.harq rnti C.newVector
      nodup := List.nodup_cons.mpr ⟨h, m.nodup⟩ }

/-- `DoCschedUeReleaseReq`. -/
def releaseUe (m : UeHarqMap) (rnti : ℕ) : Except Fault UeHarqMap :=
  if rnti ∈ m.rntis then
    .ok { m with rntis := m.rntis.erase rnti, nodup := m.nodup.erase rnti }
  else .error .assertion

/-! ### Stale feedback -/

variable (m : UeHarqMap)

/-- The feedback for processes that are active: the loop of `DoSchedUlTriggerReq`. -/
def dropInactive : List HarqInfo → Except Fault (List HarqInfo)
  | [] => .ok []
  | f :: rest => do
      let p ← m.find f.key
      let kept ← dropInactive rest
      return if p.active then f :: kept else kept

/-- The first feedback for every active process, `seen` apart: the loop of
`DoSchedDlTriggerReq`. -/
def dropStale : List HarqInfo → List (ℕ × ℕ) → Except Fault (List HarqInfo)
  | [], _ => .ok []
  | f :: rest, seen => do
      let p ← m.find f.key
      if !p.active then dropStale rest seen
      else if f.key ∈ seen then dropStale rest seen
      else do
        let kept ← dropStale rest (f.key :: seen)
        return f :: kept

variable {m}

theorem find_eq {k : ℕ × ℕ} (hk : m.Known k) : m.find k = .ok (m.process k) := if_pos hk

theorem dropInactive_eq {l : List HarqInfo} (h : ∀ f ∈ l, m.Known f.key) :
    m.dropInactive l = .ok (l.filter fun f => (m.process f.key).active) := by
  induction l with
  | nil => rfl
  | cons f l ih =>
      rw [dropInactive, find_eq (h f List.mem_cons_self),
        ih fun g hg => h g (List.mem_cons_of_mem f hg), List.filter_cons]
      rfl

/-- What `DoSchedDlTriggerReq` keeps are feedbacks for different active processes. -/
theorem dropStale_ok {l : List HarqInfo} (h : ∀ f ∈ l, m.Known f.key) :
    ∀ seen : List (ℕ × ℕ), ∃ kept, m.dropStale l seen = .ok kept ∧ kept.Sublist l ∧
      (kept.map HarqInfo.key).Nodup ∧
      ∀ f ∈ kept, (m.process f.key).active = true ∧ f.key ∉ seen := by
  induction l with
  | nil =>
      exact fun _ => ⟨[], rfl, List.Sublist.refl _, List.nodup_nil,
        fun f hf => absurd hf List.not_mem_nil⟩
  | cons f l ih =>
      intro seen
      have ih := ih fun g hg => h g (List.mem_cons_of_mem f hg)
      rw [dropStale, find_eq (h f List.mem_cons_self), Fallible.ok_bind]
      by_cases hactive : (m.process f.key).active = true
      · rw [hactive, Bool.not_true, if_neg Bool.false_ne_true]
        by_cases hseen : f.key ∈ seen
        · rw [if_pos hseen]
          obtain ⟨kept, h1, h2, h3, h4⟩ := ih seen
          exact ⟨kept, h1, h2.cons f, h3, h4⟩
        · rw [if_neg hseen]
          obtain ⟨kept, h1, h2, h3, h4⟩ := ih (f.key :: seen)
          refine ⟨f :: kept, by rw [h1]; rfl, h2.cons_cons f, ?_, ?_⟩
          · rw [List.map_cons, List.nodup_cons]
            refine ⟨fun hmem => ?_, h3⟩
            obtain ⟨g, hg, hkey⟩ := List.mem_map.mp hmem
            exact (h4 g hg).2 (hkey ▸ List.mem_cons_self)
          · intro g hg
            obtain rfl | hg := List.mem_cons.mp hg
            · exact ⟨hactive, hseen⟩
            · exact ⟨(h4 g hg).1, fun hmem => (h4 g hg).2 (List.mem_cons_of_mem _ hmem)⟩
      · rw [Bool.eq_false_iff.mpr hactive, Bool.not_false, if_pos rfl]
        obtain ⟨kept, h1, h2, h3, h4⟩ := ih seen
        exact ⟨kept, h1, h2.cons f, h3, h4⟩

/-! ### ACKs and NACKs -/

variable (m)

/-- The process after a NACK that asks for a retransmission. -/
def nacked (p : HarqProcess) : HarqProcess := { p with status := .receivedFeedback }

/-- `ProcessHARQFeedbacks`, with the feedbacks that remain. -/
def processHARQFeedbacks (maxHarqReTx : ℕ) :
    List HarqInfo → UeHarqMap → Except Fault (UeHarqMap × List HarqInfo)
  | [], m => .ok (m, [])
  | f :: rest, m => do
      let p ← m.find f.key
      if !p.active then throw .assertion
      match p.dciElement with
      | none => throw .assertion
      | some dci =>
          if 4 ≤ dci.rv then throw .assertion
          if f.receivedOk ∨ dci.rv = maxHarqReTx then
            let m ← m.erase f.key
            processHARQFeedbacks maxHarqReTx rest m
          else do
            let r ← processHARQFeedbacks maxHarqReTx rest
              (m.put f.key (nacked p))
            return (r.1, f :: r.2)

variable {m}

/-- The process needs no retransmission. -/
def Done (maxHarqReTx : ℕ) (f : HarqInfo) (p : HarqProcess) : Prop :=
  f.receivedOk = true ∨ p.dciElement.map DciInfoElementTdma.rv = some maxHarqReTx

instance (maxHarqReTx : ℕ) (f : HarqInfo) (p : HarqProcess) : Decidable (Done maxHarqReTx f p) :=
  inferInstanceAs (Decidable
    (f.receivedOk = true ∨ p.dciElement.map DciInfoElementTdma.rv = some maxHarqReTx))

/-- The process carries a transport block. -/
def Loaded (p : HarqProcess) : Prop :=
  p.active = true ∧ ∃ dci, p.dciElement = some dci ∧ dci.rv < 4

/-- Feedback for different processes that are active: it frees or marks its own. -/
theorem processHARQFeedbacks_ok (x : ℕ) {l : List HarqInfo} :
    ∀ {m : UeHarqMap}, m.Coherent → (l.map HarqInfo.key).Nodup →
      (∀ f ∈ l, m.Known f.key ∧ Loaded (m.process f.key)) →
      ∃ m', processHARQFeedbacks x l m =
          .ok (m', l.filter fun f => ¬ Done x f (m.process f.key)) ∧
        m'.Coherent ∧ SameShape m m' ∧
        (∀ k ∉ l.map HarqInfo.key, m'.process k = m.process k) ∧
        ∀ f ∈ l, m'.process f.key = if Done x f (m.process f.key) then {}
          else nacked (m.process f.key) := by
  induction l with
  | nil =>
      exact fun {m} h _ _ => ⟨m, rfl, h, SameShape.refl m, fun _ _ => rfl,
        fun f hf => absurd hf List.not_mem_nil⟩
  | cons f l ih =>
      intro m h hn hl
      rw [List.map_cons, List.nodup_cons] at hn
      obtain ⟨hknown, hactive, dci, hdci, hrv⟩ := hl f List.mem_cons_self
      have hne : ∀ g ∈ l, g.key ≠ f.key := fun g hg e => hn.1 (e ▸ List.mem_map_of_mem hg)
      have hdone : Done x f (m.process f.key) ↔ f.receivedOk = true ∨ dci.rv = x := by
        rw [Done, hdci, Option.map_some, Option.some_inj]
      have rest : ∀ {b : UeHarqMap} {p : HarqProcess}, b.Coherent → SameShape m b →
          (∀ k, b.process k = if k = f.key then p else m.process k) →
          ∃ m', processHARQFeedbacks x l b =
              .ok (m', l.filter fun g => ¬ Done x g (m.process g.key)) ∧
            m'.Coherent ∧ SameShape m m' ∧ m'.process f.key = p ∧
            (∀ k ∉ l.map HarqInfo.key, k ≠ f.key → m'.process k = m.process k) ∧
            ∀ g ∈ l, m'.process g.key = if Done x g (m.process g.key) then {}
              else nacked (m.process g.key) := by
        intro b p hb hshape hproc
        have hsame : ∀ g ∈ l, b.process g.key = m.process g.key := fun g hg =>
          (hproc g.key).trans (if_neg (hne g hg))
        obtain ⟨m', h1, h2, h3, h4, h5⟩ := ih hb hn.2 fun g hg => by
          rw [hshape.known_iff, hsame g hg]
          exact hl g (List.mem_cons_of_mem f hg)
        refine ⟨m', ?_, h2, hshape.trans h3, ?_, fun k hk hkf => ?_, fun g hg => ?_⟩
        · rw [h1]
          refine congrArg (fun r => Except.ok (m', r)) (List.filter_congr fun g hg => ?_)
          rw [hsame g hg]
        · rw [h4 f.key hn.1, hproc, if_pos rfl]
        · rw [h4 k hk, hproc, if_neg hkf]
        · rw [h5 g hg, hsame g hg]
      rw [processHARQFeedbacks, find_eq hknown, Fallible.ok_bind, hactive, hdci, Bool.not_true,
        if_neg Bool.false_ne_true, List.filter_cons]
      dsimp only
      rw [if_neg (not_le.mpr hrv)]
      by_cases hd : f.receivedOk = true ∨ dci.rv = x
      · rw [if_pos hd, if_neg (by simp [hdone.mpr hd])]
        obtain ⟨b, h1, h2, h3, h4⟩ := h.erase hknown hactive
        obtain ⟨m', k1, k2, k3, k4, k5, k6⟩ := rest h2 h3 h4
        refine ⟨m', ?_, k2, k3, fun k hk => ?_, fun g hg => ?_⟩
        · simp only [Fallible.ok_bind, h1, k1]
        · obtain ⟨hkf, hk⟩ := not_or.mp (mt List.mem_cons.mpr hk)
          exact k5 k hk hkf
        · obtain rfl | hg := List.mem_cons.mp hg
          · rw [k4, if_pos (hdone.mpr hd)]
          · exact k6 g hg
      · rw [if_neg hd, if_pos (by simp [mt hdone.mp hd])]
        obtain ⟨m', k1, k2, k3, k4, k5, k6⟩ := rest
          (h.put hknown (p := nacked (m.process f.key)) rfl
            (iff_of_false (by simp [nacked, hactive]) HarqStatus.noConfusion))
          (sameShape_put f.key _) (fun k => process_put f.key k _)
        refine ⟨m', ?_, k2, k3, fun k hk => ?_, fun g hg => ?_⟩
        · simp only [Fallible.pure_eq, Fallible.ok_bind, k1]
        · obtain ⟨hkf, hk⟩ := not_or.mp (mt List.mem_cons.mpr hk)
          exact k5 k hk hkf
        · obtain rfl | hg := List.mem_cons.mp hg
          · rw [k4, if_neg (mt hdone.mp hd)]
          · exact k6 g hg

end UeHarqMap

end Rbis
