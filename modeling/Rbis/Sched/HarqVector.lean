import Mathlib.Data.List.Range
import Rbis.Lib.Fallible
import Rbis.Sched.DlSlot

/-! # The HARQ processes of a UE

`NrMacHarqVector` keeps the HARQ processes of a UE in an `unordered_map` from their identifiers,
and counts the active ones in `m_usedSize`.  The map gets all its identifiers when the UE is
created; the order in which it yields them is left open.

A vector is `Coherent` if the count is right and the status of a process says whether it is active.
On such a vector `Insert` finds a free process whenever `CanInsert` holds (`insert_eq`), and `Erase`
of an active process passes its assertion (`erase_eq`). -/

namespace Rbis

inductive HarqStatus where
  | inactive
  | waitingFeedback
  /-- A NACK came. -/
  | receivedFeedback
deriving DecidableEq

structure HarqProcess where
  active : Bool := false
  status : HarqStatus := .inactive
  timer : ℕ := 0
  dciElement : Option DciInfoElementTdma := none
  rlcPduInfo : List RlcPduInfo := []

structure NrMacHarqVector where
  maxSize : ℕ
  usedSize : ℕ
  /-- The identifiers in the order of iteration. -/
  ids : List ℕ
  process : ℕ → HarqProcess
  perm : ids.Perm (List.range maxSize)
  /-- `m_maxSize` is a `uint8_t`. -/
  lt : maxSize < 256

namespace NrMacHarqVector

/-- `SetMaxSize` of a new vector. -/
def setMaxSize (size : ℕ) (ids : List ℕ) (perm : ids.Perm (List.range size)) (lt : size < 256) :
    NrMacHarqVector :=
  ⟨size, 0, ids, fun _ => {}, perm, lt⟩

variable (v : NrMacHarqVector)

/-- `Get` and `at`. -/
def get (id : ℕ) : Except Fault HarqProcess :=
  if id ∈ v.ids then .ok (v.process id) else .error .outOfRange

/-- Overwrite a process. -/
def put (id : ℕ) (p : HarqProcess) : NrMacHarqVector :=
  { v with process := Function.update v.process id p }

/-- The number of active processes, which `Erase` counts for its assertion. -/
def activeCount : ℕ := v.ids.countP fun id => (v.process id).active

def firstAvailableId : ℕ := (v.ids.find? fun id => !(v.process id).active).getD 255

def canInsert : Bool := decide (v.usedSize < v.maxSize)

/-- `Erase`. -/
def erase (id : ℕ) : Except Fault NrMacHarqVector :=
  if id ∈ v.ids then
    let v := { v.put id {} with usedSize := (v.usedSize + 255) % 256 }
    if v.activeCount = v.usedSize then .ok v else .error .assertion
  else .error .outOfRange

/-- `Insert`, with the identifier of the process unless the vector is full. -/
def insert (element : HarqProcess) : Except Fault (Option ℕ × NrMacHarqVector) :=
  if v.maxSize ≤ v.usedSize then .ok (none, v)
  else if element.active = false then .error .assertion
  else if v.firstAvailableId = 255 then .ok (none, v)
  else do
    let p ← v.get v.firstAvailableId
    if p.active then throw .assertion
    let w := v.put v.firstAvailableId element
    if (w.process v.firstAvailableId).active = false then throw .assertion
    if w.firstAvailableId = v.firstAvailableId then throw .assertion
    return (some v.firstAvailableId, { w with usedSize := (v.usedSize + 1) % 256 })

/-! ### The count of the active processes -/

@[simp] theorem put_ids (id : ℕ) (p : HarqProcess) : (v.put id p).ids = v.ids := rfl

@[simp] theorem put_usedSize (id : ℕ) (p : HarqProcess) : (v.put id p).usedSize = v.usedSize := rfl

@[simp] theorem put_process (id : ℕ) (p : HarqProcess) (i : ℕ) :
    (v.put id p).process i = if i = id then p else v.process i := Function.update_apply ..

theorem mem_ids {id : ℕ} : id ∈ v.ids ↔ id < v.maxSize := by
  rw [v.perm.mem_iff, List.mem_range]

theorem nodup_ids : v.ids.Nodup := v.perm.nodup_iff.mpr List.nodup_range

theorem length_ids : v.ids.length = v.maxSize := by
  rw [v.perm.length_eq, List.length_range]

theorem activeCount_le : v.activeCount ≤ v.maxSize := by
  rw [← v.length_ids]
  exact List.countP_le_length

theorem activeCount_put {id : ℕ} (hid : id ∈ v.ids) (p : HarqProcess) :
    (v.put id p).activeCount + (v.process id).active.toNat = v.activeCount + p.active.toNat := by
  have hperm := List.perm_cons_erase hid
  have hothers : (v.ids.erase id).countP (fun i => ((v.put id p).process i).active) =
      (v.ids.erase id).countP fun i => (v.process i).active := by
    refine List.countP_congr fun i hi => ?_
    rw [put_process, if_neg (v.nodup_ids.mem_erase_iff.mp hi).1]
  rw [activeCount, activeCount, put_ids, hperm.countP_eq, hperm.countP_eq, List.countP_cons,
    List.countP_cons, hothers, put_process, if_pos rfl]
  cases p.active <;> cases (v.process id).active <;> simp

/-! ### Coherent vectors -/

/-- The count is right, and the status of a process says whether it is active. -/
structure Coherent (v : NrMacHarqVector) : Prop where
  used : v.usedSize = v.activeCount
  status : ∀ id ∈ v.ids, (v.process id).active = false ↔ (v.process id).status = .inactive

theorem coherent_setMaxSize {size : ℕ} {ids : List ℕ} (perm : ids.Perm (List.range size))
    (lt : size < 256) : (setMaxSize size ids perm lt).Coherent where
  used := (List.countP_eq_zero.mpr fun _ _ => Bool.false_ne_true).symm
  status := fun _ _ => iff_of_true rfl rfl

variable {v}

theorem Coherent.put (h : v.Coherent) {id : ℕ} (hid : id ∈ v.ids) {p : HarqProcess}
    (hactive : p.active = (v.process id).active)
    (hstatus : p.active = false ↔ p.status = .inactive) : (v.put id p).Coherent where
  used := by
    have hcount := v.activeCount_put hid p
    rw [hactive] at hcount
    rw [put_usedSize, h.used]
    exact (Nat.add_right_cancel hcount).symm
  status := fun i hi => by
    rw [put_process]
    split
    · exact hstatus
    · exact h.status i hi

theorem Coherent.erase_eq (h : v.Coherent) {id : ℕ} (hid : id ∈ v.ids)
    (hactive : (v.process id).active = true) :
    v.erase id = .ok { v.put id {} with usedSize := v.usedSize - 1 } ∧
      NrMacHarqVector.Coherent { v.put id {} with usedSize := v.usedSize - 1 } := by
  have hcount := v.activeCount_put hid {}
  rw [hactive, Bool.toNat_true, Bool.toNat_false, Nat.add_zero, ← h.used] at hcount
  have hle := v.activeCount_le
  have hlt := v.lt
  rw [← h.used] at hle
  have hwrap : (v.usedSize + 255) % 256 = v.usedSize - 1 := by omega
  have hused : (v.put id {}).activeCount = v.usedSize - 1 := by omega
  refine ⟨?_, hused.symm, fun i hi => ?_⟩
  · rw [erase, if_pos hid, hwrap]
    exact if_pos hused
  · show ((v.put id {}).process i).active = false ↔ ((v.put id {}).process i).status = .inactive
    rw [put_process]
    split
    · exact iff_of_true rfl rfl
    · exact h.status i hi

theorem Coherent.exists_inactive (h : v.Coherent) (hcan : v.canInsert = true) :
    ∃ id ∈ v.ids, (v.process id).active = false := by
  have hlt : v.usedSize < v.maxSize := of_decide_eq_true hcan
  by_contra hnone
  have hall : v.activeCount = v.ids.length := by
    refine List.countP_eq_length.mpr fun id hid => ?_
    by_contra hne
    exact hnone ⟨id, hid, Bool.eq_false_iff.mpr hne⟩
  rw [v.length_ids, ← h.used] at hall
  omega

theorem Coherent.firstAvailableId (h : v.Coherent) (hcan : v.canInsert = true) :
    v.firstAvailableId ∈ v.ids ∧ (v.process v.firstAvailableId).active = false := by
  obtain ⟨id, hid, hinactive⟩ := h.exists_inactive hcan
  obtain ⟨i, hi⟩ : ∃ i, (v.ids.find? fun id => !(v.process id).active) = some i :=
    Option.isSome_iff_exists.mp (List.find?_isSome.mpr ⟨id, hid, by rw [hinactive]; rfl⟩)
  have hfirst : v.firstAvailableId = i := by
    rw [NrMacHarqVector.firstAvailableId, hi, Option.getD_some]
  rw [hfirst]
  exact ⟨List.mem_of_find?_eq_some hi, by simpa using List.find?_some hi⟩

/-- `Insert` into a vector that is not full. -/
theorem Coherent.insert_eq (h : v.Coherent) (hcan : v.canInsert = true) {e : HarqProcess}
    (hactive : e.active = true) (hstatus : e.status ≠ .inactive) :
    v.insert e = .ok (some v.firstAvailableId,
        { v.put v.firstAvailableId e with usedSize := v.usedSize + 1 }) ∧
      NrMacHarqVector.Coherent
        { v.put v.firstAvailableId e with usedSize := v.usedSize + 1 } := by
  obtain ⟨hid, hfree⟩ := h.firstAvailableId hcan
  have hlt : v.usedSize < v.maxSize := of_decide_eq_true hcan
  have hmax := v.lt
  have hid' := v.mem_ids.mp hid
  have hget : v.get v.firstAvailableId = .ok (v.process v.firstAvailableId) := if_pos hid
  have hnew : ((v.put v.firstAvailableId e).process v.firstAvailableId).active = true := by
    rw [put_process, if_pos rfl, hactive]
  have hnext : (v.put v.firstAvailableId e).firstAvailableId ≠ v.firstAvailableId := by
    intro heq
    have hsome := List.find?_some (p := fun id =>
      !((v.put v.firstAvailableId e).process id).active) (l := v.ids)
      (a := v.firstAvailableId) (by
        rw [NrMacHarqVector.firstAvailableId, put_ids] at heq
        cases hf : v.ids.find? fun id =>
            !((v.put v.firstAvailableId e).process id).active with
        | none =>
            rw [hf, Option.getD_none] at heq
            omega
        | some i => rw [← heq, hf, Option.getD_some])
    rw [hnew] at hsome
    cases hsome
  have hcount := v.activeCount_put hid e
  rw [hactive, hfree, Bool.toNat_true, Bool.toNat_false, Nat.add_zero, ← h.used] at hcount
  refine ⟨?_, hcount.symm, fun i hi => ?_⟩
  · have hwrap : (v.usedSize + 1) % 256 = v.usedSize + 1 := by omega
    rw [insert, if_neg (by omega), if_neg (by rw [hactive]; exact Bool.noConfusion),
      if_neg (by omega), hget, Fallible.ok_bind, hwrap]
    simp [hfree, hactive, hnext]
  · show ((v.put _ e).process i).active = false ↔ ((v.put _ e).process i).status = _
    rw [put_process]
    split
    · exact iff_of_false (by rw [hactive]; exact Bool.noConfusion) hstatus
    · exact h.status i hi

end NrMacHarqVector

end Rbis
