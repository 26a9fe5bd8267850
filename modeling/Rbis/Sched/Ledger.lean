import Rbis.Lib.Sharing
import Rbis.Sched.AllocSpec
import Rbis.Sched.AssignDlRbg

/-! # The books of a beam

`Ledger` says how the RBGs of a beam are distributed while the allocation loop runs: every
UE `p` of the vector holds the RBGs `runs p`, as blocks of `beamSym` entries of its `m_dlRBG`,
and the remaining RBGs, the RBGs held and the RBGs `lost` make up the usable ones.  An RBG is
lost only on a beam without symbols, where it is taken from the remaining set but leaves no
entry in `m_dlRBG` to give it back from.

Each operation of the loop keeps the ledger: an attempt (`Ledger.same`, `Ledger.grant`), a
sort (`Ledger.perm`) and a reaping round (`Ledger.reap`).  So the deallocations never fail
and refreshing the metrics of the other UEs changes nothing. -/

namespace Rbis

open Cxx Fallible Sharing

structure Ledger (S : Scheduler) (beamSym : ℕ) (runs : UePtr → List ℕ) (lost : List ℕ)
    (ueVector : List UePtrAndBufferReq) (a : Alloc) : Prop where
  nodup : (ueVector.map Prod.fst).Nodup
  metric : ∀ ue ∈ ueVector, S.MetricOk (a.ues ue.1)
  dlRBG : ∀ ue ∈ ueVector, (a.ues ue.1).dlRBG = blocks beamSym (runs ue.1)
  dlSym : ∀ ue ∈ ueVector, (a.ues ue.1).dlSym.length = (blocks beamSym (runs ue.1)).length
  partition : (a.remainingRbgSet ++ (lost ++ (ueVector.map Prod.fst).flatMap runs)).Perm
    S.usableRbgs
  rbg : a.assignedResources.rbg = lost.length + ((ueVector.map Prod.fst).flatMap runs).length
  available : a.availableRbgs.length = S.dlBitmask.length
  conserved : 0 < beamSym → lost = []

namespace Scheduler

theorem usableRbgs_nodup (S : Scheduler) : S.usableRbgs.Nodup := List.nodup_range.filter _

theorem lt_of_mem_usableRbgs {S : Scheduler} {r : ℕ} (h : r ∈ S.usableRbgs) :
    r < S.dlBitmask.length := List.mem_range.mp (List.mem_filter.mp h).1

theorem length_usableRbgs (S : Scheduler) : S.usableRbgs.length ≤ S.dlBitmask.length :=
  (List.length_filter_le _ _).trans List.length_range.le

end Scheduler

namespace Ledger

variable {S : Scheduler} {beamSym : ℕ} {runs : UePtr → List ℕ} {lost : List ℕ}
  {ueVector ueVector' : List UePtrAndBufferReq} {a b : Alloc}

theorem length_remaining (h : Ledger S beamSym runs lost ueVector a) :
    a.remainingRbgSet.length ≤ S.dlBitmask.length := by
  have := h.partition.length_eq
  have := S.length_usableRbgs
  simp only [List.length_append] at *
  omega

theorem lt_of_mem_runs (h : Ledger S beamSym runs lost ueVector a) {ue : UePtrAndBufferReq}
    (hue : ue ∈ ueVector) {r : ℕ} (hr : r ∈ runs ue.1) : r < a.availableRbgs.length := by
  rw [h.available]
  refine S.lt_of_mem_usableRbgs (h.partition.mem_iff.mp ?_)
  refine List.mem_append_right _ (List.mem_append_right _ ?_)
  exact List.mem_flatMap.mpr ⟨ue.1, List.mem_map_of_mem hue, hr⟩

theorem ne_of_mem {u ue : UePtrAndBufferReq} (h : Ledger S beamSym runs lost (ueVector ++ [u]) a)
    (hue : ue ∈ ueVector) : ue.1 ≠ u.1 := by
  have hn := h.nodup
  rw [List.map_append, List.nodup_append] at hn
  exact hn.2.2 ue.1 (List.mem_map_of_mem hue) u.1 (by simp)

theorem same (h : Ledger S beamSym runs lost ueVector a) (hs : a.Same b) :
    Ledger S beamSym runs lost ueVector b where
  nodup := h.nodup
  metric := fun ue hue => by rw [hs.ues]; exact h.metric ue hue
  dlRBG := fun ue hue => by rw [hs.ues]; exact h.dlRBG ue hue
  dlSym := fun ue hue => by rw [hs.ues]; exact h.dlSym ue hue
  partition := by rw [hs.remaining]; exact h.partition
  rbg := hs.rbg.trans h.rbg
  available := hs.available.trans h.available
  conserved := h.conserved

theorem perm (h : Ledger S beamSym runs lost ueVector a) (hp : ueVector'.Perm ueVector) :
    Ledger S beamSym runs lost ueVector' a := by
  have hf := (hp.map Prod.fst).flatMap_right runs
  exact {
    nodup := (hp.map Prod.fst).nodup_iff.mpr h.nodup
    metric := fun ue hue => h.metric ue (hp.mem_iff.mp hue)
    dlRBG := fun ue hue => h.dlRBG ue (hp.mem_iff.mp hue)
    dlSym := fun ue hue => h.dlSym ue (hp.mem_iff.mp hue)
    partition := ((hf.append_left _).append_left _).trans h.partition
    rbg := by rw [hf.length_eq]; exact h.rbg
    available := h.available
    conserved := h.conserved }

/-- A grant moves an RBG from the remaining set to the UE. -/
theorem grant (h : Ledger S beamSym runs lost ueVector a) {ue : UePtrAndBufferReq}
    (hue : ue ∈ ueVector) {r tb : ℕ} (hg : Alloc.Granted S ue.1 beamSym r tb a b) :
    Ledger S beamSym (Function.update runs ue.1 (runs ue.1 ++ [r])) lost ueVector b := by
  obtain ⟨rest, h1, h2⟩ := exists_rest_of_mem runs h.nodup (List.mem_map_of_mem hue)
  have h2 := h2 (runs ue.1 ++ [r])
  have hcases : ∀ u ∈ ueVector, u.1 = ue.1 ∨ u.1 ≠ ue.1 := fun u _ => eq_or_ne u.1 ue.1
  refine ⟨h.nodup, fun u hu => ?_, fun u hu => ?_, fun u hu => ?_, ?_, ?_, ?_, h.conserved⟩
  · rw [hg.ues]
    obtain e | e := hcases u hu
    · rw [e, Function.update_self]
      exact hg.metric
    · rw [Function.update_of_ne e]
      exact h.metric u hu
  · rw [hg.ues]
    obtain e | e := hcases u hu
    · rw [e, Function.update_self, Function.update_self, blocks_concat, ← h.dlRBG ue hue]
      rfl
    · rw [Function.update_of_ne e, Function.update_of_ne e]
      exact h.dlRBG u hu
  · rw [hg.ues]
    obtain e | e := hcases u hu
    · rw [e, Function.update_self, Function.update_self, blocks_concat, List.length_append,
        ← h.dlSym ue hue]
      simp [UeInfo.extended]
    · rw [Function.update_of_ne e, Function.update_of_ne e]
      exact h.dlSym u hu
  · refine List.perm_iff_count.mpr fun x => ?_
    have e1 := h1.count_eq x
    have e2 := h2.count_eq x
    have e3 := h.partition.count_eq x
    have e4 := (List.perm_cons_erase hg.mem).count_eq x
    rw [hg.remaining]
    simp only [List.count_append, List.count_cons, List.count_nil] at e1 e2 e3 e4 ⊢
    omega
  · have e1 := h1.length_eq
    have e2 := h2.length_eq
    rw [hg.rbg, h.rbg]
    simp only [List.length_append, List.length_cons, List.length_nil] at e1 e2 ⊢
    omega
  · exact hg.available.trans h.available

theorem refresh (h : Ledger S beamSym runs lost ueVector a) (p : Alloc → UePtrAndBufferReq → Prop)
    [∀ a ue, Decidable (p a ue)] {l : List UePtrAndBufferReq} (hl : ∀ ue ∈ l, ue ∈ ueVector) :
    l.foldlM (fun a ue => if p a ue then S.assignedDlResources ue.1 a else .ok a) a = .ok a := by
  refine foldlM_fixed fun ue hue => ?_
  split
  · exact Scheduler.assignedDlResources_self (h.metric ue (hl ue hue))
  · rfl

/-- What a reaping round does to the heap and the remaining set. -/
structure Reaped (p : UePtr) (a b : Alloc) : Prop where
  ues : b.ues = Function.update a.ues p ((a.ues p).withAlloc [] [] 0)
  remaining : b.remainingRbgSet = [] ↔ a.remainingRbgSet = [] ∧ (a.ues p).dlRBG = []

theorem dlTbSize_of_nil {u : UeInfo} (hm : S.MetricOk u) (hu : u.dlRBG = []) : u.dlTbSize = 0 := by
  unfold Scheduler.MetricOk at hm
  rw [UeInfo.tbSizeNow_of_nil _ _ _ hu] at hm
  exact (Except.ok.inj hm).symm

/-- Dropping the last UE of the vector from the ledger, its RBGs going to `rem` or to `lost'`. -/
theorem drop_last {u : UePtrAndBufferReq} {lost' : List ℕ}
    (h : Ledger S beamSym runs lost (ueVector ++ [u]) a)
    (hues : b.ues = Function.update a.ues u.1 ((a.ues u.1).withAlloc [] [] 0))
    (hpart : (b.remainingRbgSet ++ lost').Perm (a.remainingRbgSet ++ (lost ++ runs u.1)))
    (hrbg : b.assignedResources.rbg + (lost.length + (runs u.1).length) =
      a.assignedResources.rbg + lost'.length)
    (hav : b.availableRbgs.length = a.availableRbgs.length)
    (hcons : 0 < beamSym → lost' = []) : Ledger S beamSym runs lost' ueVector b := by
  have hback : ∀ ue ∈ ueVector, b.ues ue.1 = a.ues ue.1 := by
    intro ue hue
    rw [hues, Function.update_of_ne (h.ne_of_mem hue)]
  have hmem : ∀ ue ∈ ueVector, ue ∈ ueVector ++ [u] := fun ue hue => List.mem_append_left _ hue
  refine ⟨?_, fun ue hue => ?_, fun ue hue => ?_, fun ue hue => ?_, ?_, ?_, ?_, hcons⟩
  · have hn := h.nodup
    rw [List.map_append] at hn
    exact hn.sublist (List.sublist_append_left _ _)
  · rw [hback ue hue]
    exact h.metric ue (hmem ue hue)
  · rw [hback ue hue]
    exact h.dlRBG ue (hmem ue hue)
  · rw [hback ue hue]
    exact h.dlSym ue (hmem ue hue)
  · refine List.perm_iff_count.mpr fun x => ?_
    have e1 := h.partition.count_eq x
    have e2 := hpart.count_eq x
    simp only [List.map_append, List.map_cons, List.map_nil, List.flatMap_append,
      List.flatMap_cons, List.flatMap_nil, List.append_nil, List.count_append] at e1 e2 ⊢
    omega
  · have e1 := h.rbg
    simp only [List.map_append, List.map_cons, List.map_nil, List.flatMap_append,
      List.flatMap_cons, List.flatMap_nil, List.append_nil, List.length_append] at e1
    omega
  · exact hav.trans h.available

/-- Releasing the RBGs of the last UE and refreshing its metric. -/
theorem release_last {u : UePtrAndBufferReq}
    (h : Ledger S beamSym runs lost (ueVector ++ [u]) a) :
    ∃ b c lost', releaseRbgs u.1 beamSym emplace (a.ues u.1).dlRBG.length a = .ok b ∧
      S.assignedDlResources u.1 b = .ok c ∧ Reaped u.1 a c ∧
      Ledger S beamSym runs lost' ueVector c := by
  have hu : u ∈ ueVector ++ [u] := List.mem_append_right _ (List.mem_singleton.mpr rfl)
  obtain hb | hb := Nat.eq_zero_or_pos beamSym
  · subst hb
    have hnil : (a.ues u.1).dlRBG = [] := (h.dlRBG u hu).trans (blocks_zero _)
    have hsym : (a.ues u.1).dlSym = [] := by
      have := h.dlSym u hu
      rw [blocks_zero] at this
      exact List.length_eq_zero_iff.mp this
    have hid : a.ues = Function.update a.ues u.1 ((a.ues u.1).withAlloc [] [] 0) := by
      have e := UeInfo.withAlloc_self (a.ues u.1)
      rw [hnil, hsym, dlTbSize_of_nil (h.metric u hu) hnil] at e
      rw [e, Function.update_eq_self]
    refine ⟨a, a, lost ++ runs u.1, ?_, Scheduler.assignedDlResources_self (h.metric u hu),
      ⟨hid, by simp [hnil]⟩, ?_⟩
    · rw [hnil]
      simp [releaseRbgs, hnil]
    · refine h.drop_last hid (List.Perm.refl _) ?_ rfl (fun h0 => absurd h0 (by omega))
      rw [List.length_append]
  · have hlost := h.conserved hb
    have hrbg := h.rbg
    have hpart := h.partition
    simp only [List.map_append, List.map_cons, List.map_nil, List.flatMap_append,
      List.flatMap_cons, List.flatMap_nil, List.append_nil, List.length_append] at hrbg hpart
    obtain ⟨b, hrel, hb'⟩ := releaseRbgs_blocks (p := u.1) hb emplace (runs u.1)
      (a.ues u.1).dlRBG.length a (by rw [h.dlRBG u hu]; exact length_le_blocks hb _)
      (h.dlRBG u hu) (h.dlSym u hu) (by omega) (fun r hr => h.lt_of_mem_runs hu hr)
    have hub : b.ues u.1 = (a.ues u.1).withAlloc [] [] (a.ues u.1).dlTbSize := by
      rw [hb'.ues, Function.update_self]
    have htb : (b.ues u.1).tbSizeNow S.dlAmc S.numRbPerRbg = .ok 0 := by
      rw [hub]
      exact UeInfo.tbSizeNow_of_nil _ _ _ rfl
    have hnd : (runs u.1 ++ a.remainingRbgSet).Nodup := by
      have hn := hpart.nodup_iff.mpr S.usableRbgs_nodup
      refine List.nodup_iff_count_le_one.mpr fun x => ?_
      have hx := List.nodup_iff_count_le_one.mp hn x
      simp only [List.count_append] at hx ⊢
      omega
    have hrem : b.remainingRbgSet.Perm (runs u.1 ++ a.remainingRbgSet) := by
      rw [hb'.remaining]
      exact foldr_emplace_perm hnd
    have hues : (b.setUe u.1 ((b.ues u.1).withAlloc (b.ues u.1).dlRBG (b.ues u.1).dlSym 0)).ues =
        Function.update a.ues u.1 ((a.ues u.1).withAlloc [] [] 0) := by
      simp [Alloc.setUe, hb'.ues]
    refine ⟨b, _, [], hrel, Scheduler.assignedDlResources_eq htb, ⟨hues, ?_⟩,
      h.drop_last hues ?_ ?_ hb'.available (fun _ => rfl)⟩
    · show b.remainingRbgSet = [] ↔ _
      rw [← List.length_eq_zero_iff, hrem.length_eq, h.dlRBG u hu, blocks_eq_nil hb]
      simp only [List.length_append, Nat.add_eq_zero_iff, List.length_eq_zero_iff]
      exact and_comm
    · show (b.remainingRbgSet ++ []).Perm _
      rw [List.append_nil, hlost]
      exact hrem.trans List.perm_append_comm
    · show b.assignedResources.rbg + _ = _
      rw [hb'.rbg, hlost]
      simp only [List.length_nil]
      omega

/-- **A reaping round** of the last UE does not fail and keeps the ledger. -/
theorem reap {u : UePtrAndBufferReq} (h : Ledger S beamSym runs lost (ueVector ++ [u]) a) :
    ∃ b c lost', releaseRbgs u.1 beamSym emplace (a.ues u.1).dlRBG.length a = .ok b ∧
      S.assignedDlResources u.1 b = .ok c ∧
      (ueVector ++ [u]).foldlM (fun a uev => S.assignedDlResources uev.1 a) c = .ok c ∧
      Reaped u.1 a c ∧ Ledger S beamSym runs lost' ueVector c := by
  obtain ⟨b, c, lost', hrel, hass, hr, hl⟩ := h.release_last
  refine ⟨b, c, lost', hrel, hass, ?_, hr, hl⟩
  refine foldlM_fixed fun ue hue => Scheduler.assignedDlResources_self ?_
  obtain hue | hue := List.mem_append.mp hue
  · exact hl.metric ue hue
  · rw [List.mem_singleton.mp hue, hr.ues, Function.update_self]
    exact UeInfo.tbSizeNow_of_nil _ _ _ rfl

end Ledger

end Rbis
