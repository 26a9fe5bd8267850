import Rbis.Lib.Fallible
import Rbis.Lib.FirstCome
import Rbis.Sched.AssignUlRbg

/-! # Fairness of the uplink

`CompareUeWeightsUl` is documented to put the UE with fewer RBGs first, but it compares the
RBGs themselves, the lowest one of each UE: after everyone has got one RBG the order of the UEs
does not change any more, and the loop hands out RBGs as `FirstCome.give` does
(`InLine.step`). -/

namespace Rbis

open Cxx Fallible

namespace UlUeInfo

/-! ### The order of the UEs -/

/-- The first RBG of a UE that has one. -/
def firstRbg (ue : UlUeInfo) : ℕ := ue.ulRBG.headD 0

variable {l r : UlUeInfo}

theorem compareUeWeightsUl_of_nil (hr : r.ulRBG = []) : compareUeWeightsUl l r = false := by
  simp [compareUeWeightsUl, hr]

theorem compareUeWeightsUl_nil (hl : l.ulRBG = []) (hr : r.ulRBG ≠ []) :
    compareUeWeightsUl l r = true := by
  obtain ⟨b, bs, hb⟩ := List.exists_cons_of_ne_nil hr
  simp [compareUeWeightsUl, hl, hb]

theorem compareUeWeightsUl_of_firstRbg (hl : l.ulRBG ≠ []) (hr : r.ulRBG ≠ [])
    (h : l.firstRbg < r.firstRbg) :
    compareUeWeightsUl l r = true ∧ compareUeWeightsUl r l = false := by
  obtain ⟨a, as, ha⟩ := List.exists_cons_of_ne_nil hl
  obtain ⟨b, bs, hb⟩ := List.exists_cons_of_ne_nil hr
  simp only [firstRbg, ha, hb, List.headD_cons] at h
  simp only [compareUeWeightsUl, ha, hb, List.cons_lt_cons_iff]
  exact ⟨decide_eq_true (Or.inl h), decide_eq_false (by omega)⟩

end UlUeInfo

namespace UlScheduler

variable (S : UlScheduler)

/-! ### The RBGs of a UE -/

/-- The transport block of `k` RBGs. -/
def tbSize (ue : UlUeInfo) (beamSym k : ℕ) : ℕ :=
  if k = 0 then 0 else S.ulAmc.calculateTbSize ue.ulMcs ue.ulRank (k * beamSym * S.numRbPerRbg)

/-- With `k` RBGs the UE has enough resources to transmit. -/
def enough (ues : UePtr → UlUeInfo) (beamSym : ℕ) (ue : UePtrAndBufferReq) (k : ℕ) : Bool :=
  decide (S.tbSize (ues ue.1) beamSym k ≥ max ue.2 12)

/-- The UE started as `start` and holds `k` RBGs, all of them below the RBGs `rest`. -/
structure Holds (beamSym : ℕ) (rest : List ℕ) (start ue : UlUeInfo) (k : ℕ) : Prop where
  mcs : ue.ulMcs = start.ulMcs
  rank : ue.ulRank = start.ulRank
  card : ue.rbgs.card = k
  length : ue.ulRBG.length = k * beamSym
  tbSize : ue.ulTbSize = S.tbSize start beamSym k
  below : ∀ r ∈ ue.ulRBG, ∀ r' ∈ rest, r < r'

variable {S} {beamSym k r : ℕ} {rest : List ℕ} {start ue : UlUeInfo}

theorem holds_clean (hrbg : ue.ulRBG = []) (htb : ue.ulTbSize = 0) :
    S.Holds beamSym rest ue ue 0 where
  mcs := rfl
  rank := rfl
  card := by simp [UlUeInfo.rbgs, hrbg]
  length := by simp [hrbg]
  tbSize := htb
  below := by simp [hrbg]

namespace Holds

theorem tail (h : S.Holds beamSym (r :: rest) start ue k) : S.Holds beamSym rest start ue k :=
  { h with below := fun a ha b hb => h.below a ha b (List.mem_cons_of_mem r hb) }

theorem ulRBG_eq_nil (h : S.Holds beamSym rest start ue 0) : ue.ulRBG = [] := by
  rw [← List.length_eq_zero_iff, h.length, Nat.zero_mul]

theorem ulRBG_ne_nil (h : S.Holds beamSym rest start ue k) (hsym : 0 < beamSym) (hk : 0 < k) :
    ue.ulRBG ≠ [] := by
  rw [← List.length_pos_iff, h.length]
  exact Nat.mul_pos hk hsym

theorem firstRbg_lt (h : S.Holds beamSym (r :: rest) start ue k) (hne : ue.ulRBG ≠ []) :
    ue.firstRbg < r := by
  obtain ⟨a, as, ha⟩ := List.exists_cons_of_ne_nil hne
  refine h.below _ ?_ r List.mem_cons_self
  simp [UlUeInfo.firstRbg, ha]

theorem satisfied (h : S.Holds beamSym rest start ue k) (buf : ℕ) :
    ue.satisfied buf = decide (S.tbSize start beamSym k ≥ max buf 12) := by
  rw [UlUeInfo.satisfied, h.tbSize]

/-- The lowest remaining RBG. -/
theorem withRbg (h : S.Holds beamSym (r :: rest) start ue k) (hsym : 0 < beamSym)
    (hrest : ∀ r' ∈ rest, r < r') : S.Holds beamSym rest start (S.withRbg beamSym r ue) (k + 1) := by
  have hnew : r ∉ ue.ulRBG := fun hr => lt_irrefl r (h.below r hr r List.mem_cons_self)
  have hlen : (ue.ulRBG ++ List.replicate beamSym r).length = (k + 1) * beamSym := by
    rw [List.length_append, h.length, List.length_replicate, Nat.succ_mul]
  have hne : ue.ulRBG ++ List.replicate beamSym r ≠ [] := by
    rw [← List.length_pos_iff, hlen]
    exact Nat.mul_pos k.succ_pos hsym
  constructor
  · exact h.mcs
  · exact h.rank
  · show (ue.ulRBG ++ List.replicate beamSym r).toFinset.card = k + 1
    rw [List.toFinset_append, List.toFinset_replicate_of_ne_zero hsym.ne', Finset.union_comm,
      ← Finset.insert_eq, Finset.card_insert_of_notMem (by simpa using hnew)]
    exact congrArg (· + 1) h.card
  · exact hlen
  · show (if (ue.ulRBG ++ List.replicate beamSym r).isEmpty then 0
      else S.ulAmc.calculateTbSize ue.ulMcs ue.ulRank
        ((ue.ulRBG ++ List.replicate beamSym r).length * S.numRbPerRbg)) = _
    rw [if_neg (by simpa using hne), hlen, h.mcs, h.rank]
    rfl
  · intro a ha b hb
    rcases List.mem_append.mp ha with ha | ha
    · exact h.below a ha b (List.mem_cons_of_mem r hb)
    · rw [List.eq_of_mem_replicate ha]
      exact hrest b hb

end Holds

theorem firstRbg_withRbg (h : ue.ulRBG ≠ []) : (S.withRbg beamSym r ue).firstRbg = ue.firstRbg := by
  obtain ⟨a, as, ha⟩ := List.exists_cons_of_ne_nil h
  simp [UlUeInfo.firstRbg, withRbg, UlUeInfo.updateUlMetric, ha]

theorem firstRbg_withRbg_nil (h : ue.ulRBG = []) (hsym : 0 < beamSym) :
    (S.withRbg beamSym r ue).firstRbg = r := by
  obtain ⟨n, rfl⟩ := Nat.exists_eq_succ_of_ne_zero hsym.ne'
  simp [UlUeInfo.firstRbg, withRbg, UlUeInfo.updateUlMetric, h, List.replicate_succ]

theorem ne_of_nodup {α β : Type} {f : α → β} {l₁ l₂ : List α} {y : α}
    (h : ((l₁ ++ y :: l₂).map f).Nodup) : ∀ x ∈ l₁ ++ l₂, f x ≠ f y := by
  rw [List.map_append, List.map_cons, List.nodup_middle, ← List.map_append, List.nodup_cons] at h
  intro x hx he
  exact h.1 (he ▸ List.mem_map_of_mem hx)

theorem holds_assign {start ues : UePtr → UlUeInfo} {l₁ l₂ : List (UePtrAndBufferReq × ℕ)}
    {a : UePtrAndBufferReq} (hsym : 0 < beamSym) (hrest : ∀ r' ∈ rest, r < r')
    (hn : ((l₁ ++ (a, k) :: l₂).map fun x => x.1.1).Nodup)
    (h : ∀ x ∈ l₁ ++ (a, k) :: l₂, S.Holds beamSym (r :: rest) (start x.1.1) (ues x.1.1) x.2) :
    ∀ x ∈ l₁ ++ (a, k + 1) :: l₂, S.Holds beamSym rest (start x.1.1)
      (Function.update ues a.1 (S.withRbg beamSym r (ues a.1)) x.1.1) x.2 := by
  have hothers := ne_of_nodup hn
  intro x hx
  rcases List.mem_cons.mp (List.perm_middle.mem_iff.mp hx) with rfl | hx
  · rw [Function.update_self]
    exact (h (a, k) (List.mem_append_cons_self)).withRbg hsym hrest
  · rw [Function.update_of_ne (hothers x hx)]
    exact (h x (List.perm_middle.mem_iff.mpr (List.mem_cons_of_mem _ hx))).tail

/-! ### The line of the UEs -/

variable (S) in
/-- The UEs `us` of a beam stand in line: the ones that hold RBGs, with their number, and the ones
that wait for their first. -/
structure InLine (beamSym : ℕ) (start : UePtr → UlUeInfo) (us : List UePtrAndBufferReq)
    (rest : List ℕ) (ues : UePtr → UlUeInfo)
    (line : List (UePtrAndBufferReq × ℕ) × List UePtrAndBufferReq) : Prop where
  members : (FirstCome.units line).map Prod.fst = us
  holds : ∀ x ∈ FirstCome.units line, S.Holds beamSym rest (start x.1.1) (ues x.1.1) x.2
  served : ∀ x ∈ line.1, 0 < x.2
  order : (line.1.map Prod.fst).Pairwise fun a b => (ues a.1).firstRbg < (ues b.1).firstRbg

namespace InLine

variable {us : List UePtrAndBufferReq} {start ues : UePtr → UlUeInfo}
  {line : List (UePtrAndBufferReq × ℕ) × List UePtrAndBufferReq}

theorem nodup (h : S.InLine beamSym start us rest ues line) (hn : (us.map Prod.fst).Nodup) :
    ((FirstCome.units line).map fun x => x.1.1).Nodup := by
  rw [← h.members, List.map_map] at hn
  exact hn

theorem satisfied_eq (h : S.InLine beamSym start us rest ues line) {x : UePtrAndBufferReq × ℕ}
    (hx : x ∈ FirstCome.units line) :
    (ues x.1.1).satisfied x.1.2 = S.enough start beamSym x.1 x.2 :=
  (h.holds x hx).satisfied x.1.2

theorem waiting_ulRBG (h : S.InLine beamSym start us rest ues line) :
    ∀ a ∈ line.2, (ues a.1).ulRBG = [] := by
  intro a ha
  have hmem : (a, 0) ∈ FirstCome.units line :=
    List.mem_append_right _ (List.mem_map.mpr ⟨a, ha, rfl⟩)
  exact (h.holds _ hmem).ulRBG_eq_nil

theorem served_ulRBG (h : S.InLine beamSym start us rest ues line) (hsym : 0 < beamSym) :
    ∀ a ∈ line.1.map Prod.fst, (ues a.1).ulRBG ≠ [] := by
  intro a ha
  obtain ⟨x, hx, rfl⟩ := List.mem_map.mp ha
  exact (h.holds x (List.mem_append_left _ hx)).ulRBG_ne_nil hsym (h.served x hx)

theorem pairwise (h : S.InLine beamSym start us rest ues line) (hsym : 0 < beamSym) :
    (line.2 ++ line.1.map Prod.fst).Pairwise fun a b =>
      UlUeInfo.compareUeWeightsUl (ues b.1) (ues a.1) = false := by
  refine List.pairwise_append.mpr ⟨?_, ?_, fun a ha b _ => ?_⟩
  · exact List.pairwise_of_forall_mem_list fun a ha b _ =>
      UlUeInfo.compareUeWeightsUl_of_nil (h.waiting_ulRBG a ha)
  · exact h.order.imp_of_mem fun ha hb hlt =>
      (UlUeInfo.compareUeWeightsUl_of_firstRbg (h.served_ulRBG hsym _ ha)
        (h.served_ulRBG hsym _ hb) hlt).2
  · exact UlUeInfo.compareUeWeightsUl_of_nil (h.waiting_ulRBG a ha)

theorem precedes_last {served : List (UePtrAndBufferReq × ℕ)} {a : UePtrAndBufferReq}
    {waiting : List UePtrAndBufferReq}
    (h : S.InLine beamSym start us rest ues (served ++ [(a, 1)], waiting)) (hsym : 0 < beamSym) :
    ∀ b ∈ waiting ++ served.map Prod.fst,
      UlUeInfo.compareUeWeightsUl (ues b.1) (ues a.1) = true := by
  have hmap : (served ++ [(a, 1)]).map Prod.fst = served.map Prod.fst ++ [a] := List.map_append
  have hne := h.served_ulRBG hsym
  have horder := h.order
  rw [hmap] at hne horder
  have ha := hne a (List.mem_append_cons_self)
  intro b hb
  rcases List.mem_append.mp hb with hb | hb
  · exact UlUeInfo.compareUeWeightsUl_nil (h.waiting_ulRBG b hb) ha
  · have hlt := (List.pairwise_append.mp horder).2.2 b hb a List.mem_cons_self
    exact (UlUeInfo.compareUeWeightsUl_of_firstRbg (hne b (List.mem_append_left _ hb)) ha hlt).1

theorem sortUeVector_eq {s : UlBeamState} (h : S.InLine beamSym start us rest s.ues line)
    (hsym : 0 < beamSym) (hs : s.ueVector = line.2 ++ line.1.map Prod.fst) :
    s.sortUeVector = line.2 ++ line.1.map Prod.fst := by
  unfold UlBeamState.sortUeVector
  rw [hs]
  exact StdSort.insertionSort_of_pairwise (h.pairwise hsym)

theorem sortUeVector_eq_last {s : UlBeamState} {served : List (UePtrAndBufferReq × ℕ)}
    {a : UePtrAndBufferReq} {waiting : List UePtrAndBufferReq}
    (h : S.InLine beamSym start us rest s.ues (served ++ [(a, 1)], waiting)) (hsym : 0 < beamSym)
    (hs : s.ueVector = a :: (waiting ++ served.map Prod.fst)) :
    s.sortUeVector = waiting ++ (served ++ [(a, 1)]).map Prod.fst := by
  have hmap : (served ++ [(a, 1)]).map Prod.fst = served.map Prod.fst ++ [a] := List.map_append
  have hp := h.pairwise hsym
  rw [hmap, ← List.append_assoc] at hp
  unfold UlBeamState.sortUeVector
  rw [hs, StdSort.insertionSort, StdSort.insertionSort_of_pairwise (List.pairwise_append.mp hp).1,
    StdSort.insertBy_of_forall (h.precedes_last hsym), hmap, List.append_assoc]

/-- A UE that waits gets its first RBG, and goes to the end of the line. -/
theorem first {served : List (UePtrAndBufferReq × ℕ)} {a : UePtrAndBufferReq}
    {waiting : List UePtrAndBufferReq} (hsym : 0 < beamSym) (hrest : ∀ r' ∈ rest, r < r')
    (hn : (us.map Prod.fst).Nodup)
    (h : S.InLine beamSym start us (r :: rest) ues (served, a :: waiting)) :
    S.InLine beamSym start us rest (Function.update ues a.1 (S.withRbg beamSym r (ues a.1)))
      (served ++ [(a, 1)], waiting) := by
  have hunits : FirstCome.units (served, a :: waiting) =
      served ++ (a, 0) :: waiting.map fun b => (b, 0) := rfl
  have hunits' : FirstCome.units (served ++ [(a, 1)], waiting) =
      served ++ (a, 1) :: waiting.map fun b => (b, 0) := by simp [FirstCome.units]
  have hmembers := h.members
  have hnodup := h.nodup hn
  have hholds := h.holds
  rw [hunits] at hmembers hnodup hholds
  have hothers := ne_of_nodup hnodup
  constructor
  · rw [hunits', ← hmembers]
    simp
  · rw [hunits']
    exact holds_assign hsym hrest hnodup hholds
  · intro x hx
    rcases List.mem_append.mp hx with hx | hx
    · exact h.served x hx
    · rw [List.mem_singleton.mp hx]
      exact Nat.one_pos
  · have hkeep : ∀ b ∈ served.map Prod.fst, Function.update ues a.1
        (S.withRbg beamSym r (ues a.1)) b.1 = ues b.1 := by
      intro b hb
      obtain ⟨x, hx, rfl⟩ := List.mem_map.mp hb
      exact Function.update_of_ne (hothers x (List.mem_append_left _ hx)) _ _
    show ((served ++ [(a, 1)]).map Prod.fst).Pairwise _
    rw [List.map_append, List.pairwise_append]
    refine ⟨?_, List.pairwise_singleton _ _, fun b hb c hc => ?_⟩
    · refine h.order.imp_of_mem fun ha hb hlt => ?_
      rw [hkeep _ ha, hkeep _ hb]
      exact hlt
    · rw [List.mem_singleton.mp hc, hkeep b hb, Function.update_self,
        firstRbg_withRbg_nil (h.waiting_ulRBG a List.mem_cons_self) hsym]
      have hne := h.served_ulRBG hsym b hb
      obtain ⟨x, hx, rfl⟩ := List.mem_map.mp hb
      exact (h.holds x (List.mem_append_left _ hx)).firstRbg_lt hne

/-- A UE in line gets a further RBG, and keeps its place. -/
theorem further {pre post : List (UePtrAndBufferReq × ℕ)} {a : UePtrAndBufferReq}
    (hsym : 0 < beamSym) (hrest : ∀ r' ∈ rest, r < r') (hn : (us.map Prod.fst).Nodup)
    (h : S.InLine beamSym start us (r :: rest) ues (pre ++ (a, k) :: post, [])) :
    S.InLine beamSym start us rest (Function.update ues a.1 (S.withRbg beamSym r (ues a.1)))
      (pre ++ (a, k + 1) :: post, []) := by
  have hunits : ∀ n, FirstCome.units (pre ++ (a, n) :: post, ([] : List UePtrAndBufferReq)) =
      pre ++ (a, n) :: post := fun n => List.append_nil _
  have hmembers := h.members
  have hnodup := h.nodup hn
  have hholds := h.holds
  rw [hunits] at hmembers hnodup hholds
  have hmap : (pre ++ (a, k + 1) :: post).map Prod.fst = (pre ++ (a, k) :: post).map Prod.fst := by
    simp
  constructor
  · rw [hunits, ← hmembers]
    exact hmap
  · rw [hunits]
    exact holds_assign hsym hrest hnodup hholds
  · intro x hx
    rcases List.mem_cons.mp (List.perm_middle.mem_iff.mp hx) with rfl | hx
    · exact k.succ_pos
    · exact h.served x (List.perm_middle.mem_iff.mpr (List.mem_cons_of_mem _ hx))
  · have hkeep : ∀ b ∈ (pre ++ (a, k) :: post).map Prod.fst, (Function.update ues a.1
        (S.withRbg beamSym r (ues a.1)) b.1).firstRbg = (ues b.1).firstRbg := by
      intro b hb
      rcases eq_or_ne b.1 a.1 with he | hne
      · rw [he, Function.update_self, ← he]
        exact firstRbg_withRbg (h.served_ulRBG hsym b hb)
      · rw [Function.update_of_ne hne]
    show ((pre ++ (a, k + 1) :: post).map Prod.fst).Pairwise _
    rw [hmap]
    refine h.order.imp_of_mem fun ha hb hlt => ?_
    rw [hkeep _ ha, hkeep _ hb]
    exact hlt

theorem rest_nil (h : S.InLine beamSym start us rest ues line) :
    S.InLine beamSym start us [] ues line where
  members := h.members
  holds := fun x hx => { h.holds x hx with below := fun _ _ _ hr => absurd hr List.not_mem_nil }
  served := h.served
  order := h.order

end InLine

/-! ### The loop -/

variable {us : List UePtrAndBufferReq} {start : UePtr → UlUeInfo} {s : UlBeamState}
  {line : List (UePtrAndBufferReq × ℕ) × List UePtrAndBufferReq}

variable (S) in
/-- The UEs stand in line, and the sort of `ueVector` puts the ones that wait first. -/
structure LoopInv (beamSym : ℕ) (start : UePtr → UlUeInfo) (us : List UePtrAndBufferReq)
    (rest : List ℕ) (s : UlBeamState)
    (line : List (UePtrAndBufferReq × ℕ) × List UePtrAndBufferReq) : Prop where
  inLine : S.InLine beamSym start us rest s.ues line
  sorted : s.sortUeVector = line.2 ++ line.1.map Prod.fst

namespace LoopInv

theorem serve_waiting {served : List (UePtrAndBufferReq × ℕ)} {a : UePtrAndBufferReq}
    {waiting : List UePtrAndBufferReq} (hsym : 0 < beamSym) (hrest : ∀ r' ∈ rest, r < r')
    (hn : (us.map Prod.fst).Nodup)
    (h : S.LoopInv beamSym start us (r :: rest) s (served, a :: waiting)) :
    (s.sortUeVector.find? fun ue => !(s.ues ue.1).satisfied ue.2) = some a ∧
      S.LoopInv beamSym start us rest
        (S.assignRbg beamSym r a.1 { s with ueVector := s.sortUeVector })
        (served ++ [(a, 1)], waiting) := by
  have hnew := h.inLine.first hsym hrest hn
  have hmem : (a, 0) ∈ FirstCome.units (served, a :: waiting) := List.mem_append_cons_self
  have hsat : (s.ues a.1).satisfied a.2 = false := by
    rw [h.inLine.satisfied_eq hmem]
    simp [enough, tbSize]
  refine ⟨?_, hnew, hnew.sortUeVector_eq_last hsym h.sorted⟩
  rw [h.sorted]
  exact List.find?_cons_of_pos (by simp [hsat])

/-- A round when everyone has an RBG, and somebody has not enough. -/
theorem serve_further {pre post : List (UePtrAndBufferReq × ℕ)} {a : UePtrAndBufferReq}
    (hsym : 0 < beamSym) (hrest : ∀ r' ∈ rest, r < r') (hn : (us.map Prod.fst).Nodup)
    (hpre : ∀ x ∈ pre, S.enough start beamSym x.1 x.2 = true)
    (ha : S.enough start beamSym a k = false)
    (h : S.LoopInv beamSym start us (r :: rest) s (pre ++ (a, k) :: post, [])) :
    (s.sortUeVector.find? fun ue => !(s.ues ue.1).satisfied ue.2) = some a ∧
      S.LoopInv beamSym start us rest
        (S.assignRbg beamSym r a.1 { s with ueVector := s.sortUeVector })
        (pre ++ (a, k + 1) :: post, []) := by
  have hnew := h.inLine.further hsym hrest hn
  have hsat : ∀ x ∈ pre ++ (a, k) :: post,
      (s.ues x.1.1).satisfied x.1.2 = S.enough start beamSym x.1 x.2 :=
    fun x hx => h.inLine.satisfied_eq (List.mem_append_left _ hx)
  refine ⟨?_, hnew, hnew.sortUeVector_eq hsym ?_⟩
  · rw [h.sorted, List.find?_eq_some_iff_append]
    refine ⟨?_, pre.map Prod.fst, post.map Prod.fst, by simp, fun b hb => ?_⟩
    · rw [hsat (a, k) List.mem_append_cons_self, ha]
      rfl
    · obtain ⟨x, hx, rfl⟩ := List.mem_map.mp hb
      simp [hsat x (List.mem_append_left _ hx), hpre x hx]
  · show s.sortUeVector = _
    rw [h.sorted]
    simp

theorem find?_eq_none {served : List (UePtrAndBufferReq × ℕ)}
    (hall : ∀ x ∈ served, S.enough start beamSym x.1 x.2 = true)
    (h : S.LoopInv beamSym start us rest s (served, [])) :
    (s.sortUeVector.find? fun ue => !(s.ues ue.1).satisfied ue.2) = none := by
  rw [h.sorted, List.find?_eq_none]
  intro a ha
  obtain ⟨x, hx, rfl⟩ := List.mem_map.mp ha
  simp [h.inLine.satisfied_eq (List.mem_append_left _ hx), hall x hx]

/-- **Step lemma.** A round of the loop finds no UE to serve, and there is nobody to give a unit
to, or it does what `FirstCome.give` does. -/
theorem step (hsym : 0 < beamSym) (hrest : ∀ r' ∈ rest, r < r') (hn : (us.map Prod.fst).Nodup)
    (h : S.LoopInv beamSym start us (r :: rest) s line) :
    ((s.sortUeVector.find? fun ue => !(s.ues ue.1).satisfied ue.2) = none ∧
      FirstCome.give (S.enough start beamSym) line = line) ∨
    ∃ ue, (s.sortUeVector.find? fun ue => !(s.ues ue.1).satisfied ue.2) = some ue ∧
      S.LoopInv beamSym start us rest
        (S.assignRbg beamSym r ue.1 { s with ueVector := s.sortUeVector })
        (FirstCome.give (S.enough start beamSym) line) := by
  obtain ⟨served, waiting⟩ := line
  cases waiting with
  | cons a waiting => exact Or.inr ⟨a, h.serve_waiting hsym hrest hn⟩
  | nil =>
      rcases FirstCome.enough_or_first (S.enough start beamSym) served with
        hall | ⟨pre, a, k, post, rfl, hpre, ha⟩
      · left
        refine ⟨h.find?_eq_none hall, ?_⟩
        rw [FirstCome.give, FirstCome.more_eq_self hall]
      · right
        rw [FirstCome.give, FirstCome.more_append hpre ha]
        exact ⟨a, h.serve_further hsym hrest hn hpre ha⟩

/-- **Run lemma.** The loop gives every UE of the beam what `FirstCome.give` gives it. -/
theorem run (hsym : 0 < beamSym) (hn : (us.map Prod.fst).Nodup)
    (hrest : rest.Pairwise (· < ·)) (h : S.LoopInv beamSym start us rest s line) :
    S.InLine beamSym start us [] (S.ulLoop beamSym rest s).ues
      ((FirstCome.give (S.enough start beamSym))^[rest.length] line) := by
  induction rest generalizing s line with
  | nil => exact h.inLine
  | cons r rest ih =>
      obtain ⟨hr, hrest⟩ := List.pairwise_cons.mp hrest
      unfold ulLoop
      rcases h.step hsym hr hn with ⟨hfind, hgive⟩ | ⟨ue, hfind, hnew⟩
      · simp only [hfind]
        rw [Function.iterate_fixed hgive]
        exact h.inLine.rest_nil
      · simp only [hfind]
        exact ih hrest hnew

end LoopInv

theorem ulLoop_others {p : UePtr} (hp : p ∉ s.ueVector.map Prod.fst) :
    (S.ulLoop beamSym rest s).ues p = s.ues p := by
  induction rest generalizing s with
  | nil => rfl
  | cons r rest ih =>
      have hperm : s.sortUeVector.Perm s.ueVector := StdSort.insertionSort_perm _ _
      have hp' : p ∉ s.sortUeVector.map Prod.fst := fun hin => hp ((hperm.map _).mem_iff.mp hin)
      unfold ulLoop
      cases hfind : s.sortUeVector.find? fun ue => !(s.ues ue.1).satisfied ue.2 with
      | none => simp only [hfind]
      | some ue =>
          have hne : p ≠ ue.1 := by
            rintro rfl
            exact hp' (List.mem_map_of_mem (List.mem_of_find?_eq_some hfind))
          simp only [hfind]
          rw [ih hp']
          exact Function.update_of_ne hne _ _

theorem usableUlRbgs_pairwise : S.usableUlRbgs.Pairwise (· < ·) := List.pairwise_lt_range.filter _

end UlScheduler

/-! ### Fairness -/

/-- The UEs `us` that are not satisfied differ by at most one RBG. -/
def UlFair (us : List UePtrAndBufferReq) (ues : UePtr → UlUeInfo) : Prop :=
  ∀ a ∈ us, ∀ b ∈ us, (ues a.1).satisfied a.2 = false → (ues b.1).satisfied b.2 = false →
    (ues a.1).rbgs.card ≤ (ues b.1).rbgs.card + 1

theorem UlFair.congr {us : List UePtrAndBufferReq} {ues ues' : UePtr → UlUeInfo}
    (h : ∀ ue ∈ us, ues ue.1 = ues' ue.1) : UlFair us ues ↔ UlFair us ues' := by
  refine forall₂_congr fun a ha => forall₂_congr fun b hb => ?_
  rw [h a ha, h b hb]

namespace UlScheduler

variable (S : UlScheduler) (i : UlSlotStart)

/-- The symbols of a beam. -/
def symbols (beam : BeamId) : ℕ := (S.getSymPerBeam i.symAvail i.activeUl).getD beam 0

/-- After a call of `AssignULRBG` the distribution in every beam with symbols is fair, as it was
after the loop of the beam: the loops of the other beams leave its UEs. -/
def FairBeams : Prop :=
  ∀ ues symPerBeam, S.assignULRBG i.ues i.symAvail i.activeUl = .ok (ues, symPerBeam) →
    ∀ el ∈ i.activeUl, 0 < symPerBeam.getD el.1 0 → UlFair el.2 ues

variable {S i}

/-- In line, fairness is evenness of the units. -/
theorem InLine.ulFair_iff {beamSym : ℕ} {start ues : UePtr → UlUeInfo}
    {us : List UePtrAndBufferReq} {rest : List ℕ}
    {line : List (UePtrAndBufferReq × ℕ) × List UePtrAndBufferReq}
    (h : S.InLine beamSym start us rest ues line) :
    UlFair us ues ↔ FirstCome.Even (S.enough start beamSym) (FirstCome.units line) := by
  have hx : ∀ x ∈ FirstCome.units line, (ues x.1.1).rbgs.card = x.2 := fun x hx => (h.holds x hx).card
  rw [← h.members]
  constructor
  · intro hfair x hx' y hy' hx0 hy0
    rw [← h.satisfied_eq hx'] at hx0
    rw [← h.satisfied_eq hy'] at hy0
    have := hfair x.1 (List.mem_map_of_mem hx') y.1 (List.mem_map_of_mem hy') hx0 hy0
    rwa [hx x hx', hx y hy'] at this
  · intro heven a ha b hb ha0 hb0
    obtain ⟨x, hx', rfl⟩ := List.mem_map.mp ha
    obtain ⟨y, hy', rfl⟩ := List.mem_map.mp hb
    rw [h.satisfied_eq hx'] at ha0
    rw [h.satisfied_eq hy'] at hb0
    rw [hx x hx', hx y hy']
    exact heven x hx' y hy' ha0 hb0

theorem assignUlBeam_eq_ok {symPerBeam : BeamSymbolMap} {ues after : UePtr → UlUeInfo}
    {el : BeamId × List UePtrAndBufferReq} :
    S.assignUlBeam symPerBeam ues el = .ok after ↔ S.usableUlRbgs ≠ [] ∧
      (S.ulLoop (symPerBeam.getD el.1 0) S.usableUlRbgs ⟨ues, el.2, ⟨0, 0⟩⟩).ues = after := by
  unfold assignUlBeam
  by_cases h : S.usableUlRbgs = []
  · rw [if_pos h]
    refine iff_of_false (fun hok => ?_) fun hok => hok.1 h
    cases hok
  · simp [h]

theorem assignUlBeams_others {symPerBeam : BeamSymbolMap} {l : ActiveUeMap}
    {ues ues' : UePtr → UlUeInfo} {p : UePtr}
    (hp : p ∉ l.flatMap fun el => el.2.map Prod.fst)
    (h : l.foldlM (S.assignUlBeam symPerBeam) ues = .ok ues') : ues' p = ues p := by
  have hround : ∀ el ∈ l, ∀ b c, b p = ues p → S.assignUlBeam symPerBeam b el = .ok c →
      c p = ues p := by
    intro el hel b c hb hc
    obtain ⟨_, rfl⟩ := assignUlBeam_eq_ok.mp hc
    rw [ulLoop_others fun hin => hp (List.mem_flatMap.mpr ⟨el, hel, hin⟩)]
    exact hb
  exact foldlM_ok (P := fun c => c p = ues p) hround rfl h

section beams

variable {pre post : ActiveUeMap} {el : BeamId × List UePtrAndBufferReq}
  {before after : UePtr → UlUeInfo}

theorem mem_oneBeam (hi : i.activeUl = pre ++ el :: post) :
    (el.2.map Prod.fst).Nodup ∧ ∀ ue ∈ el.2,
      (ue.1 ∉ pre.flatMap fun el => el.2.map Prod.fst) ∧
        ue.1 ∉ post.flatMap fun el => el.2.map Prod.fst := by
  have hn := i.nodup
  rw [hi, List.flatMap_append, List.nodup_append, List.flatMap_cons, List.nodup_append] at hn
  obtain ⟨-, ⟨hel, -, hpost⟩, hpre⟩ := hn
  refine ⟨hel, fun ue hue => ?_⟩
  have hmem : ue.1 ∈ el.2.map Prod.fst := List.mem_map_of_mem hue
  exact ⟨fun hin => hpre ue.1 hin ue.1 (List.mem_append_left _ hmem) rfl,
    fun hin => hpost ue.1 hmem ue.1 hin rfl⟩

theorem beforeUlBeam (hi : i.activeUl = pre ++ el :: post)
    (hpre : pre.foldlM (S.assignUlBeam (S.getSymPerBeam i.symAvail i.activeUl)) i.ues =
      .ok before) : ∀ ue ∈ el.2, before ue.1 = i.ues ue.1 := fun ue hue =>
  assignUlBeams_others ((mem_oneBeam hi).2 ue hue).1 hpre

/-- At the start of its loop the UEs of a beam wait in line. -/
theorem loopInv_start (hi : i.activeUl = pre ++ el :: post) (hsym : 0 < S.symbols i el.1)
    (hpre : pre.foldlM (S.assignUlBeam (S.getSymPerBeam i.symAvail i.activeUl)) i.ues =
      .ok before) (rest : List ℕ) :
    S.LoopInv (S.symbols i el.1) i.ues el.2 rest ⟨before, el.2, ⟨0, 0⟩⟩ ([], el.2) := by
  have hsame := beforeUlBeam hi hpre
  have hel : el ∈ i.activeUl := by
    rw [hi]
    exact List.mem_append_cons_self
  have hline : S.InLine (S.symbols i el.1) i.ues el.2 rest before ([], el.2) := by
    constructor
    · exact List.map_map.trans (List.map_id _)
    · intro x hx
      obtain ⟨ue, hue, rfl⟩ := List.mem_map.mp hx
      obtain ⟨hrbg, htb⟩ := i.clean el hel ue hue
      show S.Holds _ rest (i.ues ue.1) (before ue.1) 0
      rw [hsame ue hue]
      exact holds_clean hrbg htb
    · exact fun x hx => absurd hx List.not_mem_nil
    · exact List.Pairwise.nil
  exact ⟨hline, hline.sortUeVector_eq hsym (List.append_nil _).symm⟩

theorem ulFair_beam_iff (hi : i.activeUl = pre ++ el :: post) (hsym : 0 < S.symbols i el.1)
    (hpre : pre.foldlM (S.assignUlBeam (S.getSymPerBeam i.symAvail i.activeUl)) i.ues =
      .ok before)
    (hbeam : S.assignUlBeam (S.getSymPerBeam i.symAvail i.activeUl) before el = .ok after) :
    UlFair el.2 after ↔ FirstCome.EvenSplit (S.enough i.ues (S.symbols i el.1)) el.2
      (S.usableUlRbgs.length - el.2.length) := by
  obtain ⟨_, rfl⟩ := assignUlBeam_eq_ok.mp hbeam
  have hend := (loopInv_start hi hsym hpre S.usableUlRbgs).run hsym (mem_oneBeam hi).1
    usableUlRbgs_pairwise
  rw [← FirstCome.even_after_iff]
  exact hend.ulFair_iff

theorem assignULRBG_beam {ues : UePtr → UlUeInfo} {symPerBeam : BeamSymbolMap}
    (hi : i.activeUl = pre ++ el :: post)
    (h : S.assignULRBG i.ues i.symAvail i.activeUl = .ok (ues, symPerBeam)) :
    symPerBeam = S.getSymPerBeam i.symAvail i.activeUl ∧ ∃ before after,
      pre.foldlM (S.assignUlBeam (S.getSymPerBeam i.symAvail i.activeUl)) i.ues = .ok before ∧
      S.assignUlBeam (S.getSymPerBeam i.symAvail i.activeUl) before el = .ok after ∧
      ∀ ue ∈ el.2, ues ue.1 = after ue.1 := by
  obtain ⟨ues', hall, hret⟩ := bind_eq_ok.mp h
  cases hret
  rw [hi, List.foldlM_append, ← hi] at hall
  obtain ⟨before, hpre, hrest⟩ := bind_eq_ok.mp hall
  rw [List.foldlM_cons] at hrest
  obtain ⟨after, hbeam, hpost⟩ := bind_eq_ok.mp hrest
  exact ⟨rfl, before, after, hpre, hbeam, fun ue hue =>
    assignUlBeams_others ((mem_oneBeam hi).2 ue hue).2 hpost⟩

end beams

theorem exists_assignULRBG (h : S.usableUlRbgs ≠ []) :
    ∃ ues symPerBeam, S.assignULRBG i.ues i.symAvail i.activeUl = .ok (ues, symPerBeam) := by
  obtain ⟨ues, hues, _⟩ := foldlM_total
    (f := S.assignUlBeam (S.getSymPerBeam i.symAvail i.activeUl)) (P := fun _ => True)
    (l := i.activeUl) (b := i.ues)
    (fun el _ b _ => ⟨_, assignUlBeam_eq_ok.mpr ⟨h, rfl⟩, trivial⟩) trivial
  exact ⟨ues, _, bind_eq_ok.mpr ⟨ues, hues, rfl⟩⟩

/-- **Fairness of the uplink.** The beams with symbols end fair if and only if the RBGs of each
split evenly among its UEs, first come, first served. -/
theorem fairBeams_iff (S : UlScheduler) (i : UlSlotStart) :
    S.FairBeams i ↔ ∀ el ∈ i.activeUl, 0 < S.symbols i el.1 →
      FirstCome.EvenSplit (S.enough i.ues (S.symbols i el.1)) el.2
        (S.usableUlRbgs.length - el.2.length) := by
  have hcall : ∀ ues symPerBeam,
      S.assignULRBG i.ues i.symAvail i.activeUl = .ok (ues, symPerBeam) → ∀ el ∈ i.activeUl,
      0 < S.symbols i el.1 → (UlFair el.2 ues ↔
        FirstCome.EvenSplit (S.enough i.ues (S.symbols i el.1)) el.2
          (S.usableUlRbgs.length - el.2.length)) := by
    intro ues symPerBeam h el hel hsym
    obtain ⟨pre, post, hi⟩ := List.append_of_mem hel
    obtain ⟨_, before, after, hpre, hbeam, hsame⟩ := assignULRBG_beam hi h
    rw [UlFair.congr hsame]
    exact ulFair_beam_iff hi hsym hpre hbeam
  constructor
  · intro h el hel hsym
    by_cases hrbgs : S.usableUlRbgs = []
    · rw [hrbgs, List.length_nil, Nat.zero_sub]
      exact FirstCome.evenSplit_zero _
    · obtain ⟨ues, symPerBeam, hok⟩ := exists_assignULRBG (i := i) hrbgs
      obtain ⟨pre, post, hi⟩ := List.append_of_mem hel
      obtain ⟨rfl, _⟩ := assignULRBG_beam hi hok
      exact (hcall ues _ hok el hel hsym).mp (h ues _ hok el hel hsym)
  · intro h ues symPerBeam hok el hel hsym
    obtain ⟨pre, post, hi⟩ := List.append_of_mem hel
    obtain ⟨rfl, _⟩ := assignULRBG_beam hi hok
    exact (hcall ues _ hok el hel hsym).mpr (h el hel hsym)

/-- Four RBGs of one resource block, five bytes for a resource block and a symbol. -/
def fourRbgs : UlScheduler where
  toScheduler := Scheduler.wideband [true]
  ulAmc := ⟨fun _ _ nprb => 5 * nprb, fun _ => 0, fun _ => 0⟩
  ulBitmask := [true, true, true, true]

end UlScheduler

/-- One beam with two UEs, with 1000 bytes each. -/
def UlSlotStart.twoUes : UlSlotStart where
  ues := fun _ => {}
  symAvail := 12
  activeUl := [(⟨0, 0⟩, [(0, 1000), (1, 1000)])]
  nodup := by decide
  clean := fun _ _ _ _ => ⟨rfl, rfl⟩

/-- The first UE gets the RBGs 0, 2 and 3, the second one gets RBG 1. -/
theorem UlScheduler.not_fairBeams_fourRbgs : ¬ UlScheduler.fourRbgs.FairBeams .twoUes := by
  intro h
  have hfair := h _ _ rfl (⟨0, 0⟩, [(0, 1000), (1, 1000)]) List.mem_cons_self (by decide +kernel)
  have hle := hfair (0, 1000) (by decide) (1, 1000) (by decide) (by decide +kernel)
    (by decide +kernel)
  exact absurd hle (by decide +kernel)

end Rbis
