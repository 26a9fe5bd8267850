import Mathlib.Algebra.BigOperators.Ring.Finset
import Mathlib.Algebra.Order.BigOperators.Group.List
import Mathlib.Data.Nat.Cast.Order.Field
import Mathlib.Data.Rat.Floor
import Rbis.Lib.Turns
import Rbis.Sched.SymPerBeam

/-! # The symbols are shared out

What the strategies of `GetSymPerBeam` have in common: the beams get no more symbols than there are
(`symbols_shared`), and by load or in turns all of them.  The turns go on from one call to the next:
while the same beams are active, their totals differ by one symbol at most (`turns_fair`). -/

namespace Rbis

open Cxx

/-! ### The beams of the map -/

theorem insertActive_keys {beam : BeamId} {ue : UePtrAndBufferReq} {activeUe : ActiveUeMap} :
    (insertActive beam ue activeUe).map Prod.fst = if beam ∈ activeUe.map Prod.fst then
      activeUe.map Prod.fst else activeUe.map Prod.fst ++ [beam] := by
  induction activeUe with
  | nil => rfl
  | cons el activeUe ih =>
      rw [insertActive]
      by_cases h : el.1 = beam
      · rw [if_pos h, if_pos (by rw [List.map_cons, h]; exact List.mem_cons_self)]
        rfl
      · have hmem : beam ∈ (el :: activeUe).map Prod.fst ↔ beam ∈ activeUe.map Prod.fst := by
          rw [List.map_cons, List.mem_cons]
          exact or_iff_right fun e => h e.symm
        rw [if_neg h, List.map_cons, ih]
        simp only [hmem]
        split
        · rfl
        · rfl

theorem insertActive_ne_nil {beam : BeamId} {ue : UePtrAndBufferReq} {activeUe : ActiveUeMap}
    (h : ∀ el ∈ activeUe, el.2 ≠ []) : ∀ el ∈ insertActive beam ue activeUe, el.2 ≠ [] := by
  induction activeUe with
  | nil =>
      intro el hel
      rw [List.mem_singleton.mp hel]
      exact List.cons_ne_nil _ _
  | cons el' activeUe ih =>
      intro el hel
      unfold insertActive at hel
      split at hel
      · rcases List.mem_cons.mp hel with rfl | hel
        · exact List.append_ne_nil_of_right_ne_nil _ (List.cons_ne_nil _ _)
        · exact h el (List.mem_cons_of_mem _ hel)
      · rcases List.mem_cons.mp hel with rfl | hel
        · exact h el List.mem_cons_self
        · exact ih (fun el hel => h el (List.mem_cons_of_mem _ hel)) el hel

theorem foldl_mod_lt {α : Type} (size : α → ℕ) {l : List α} {m a : ℕ} (h : a < m) :
    l.foldl (fun total a => (total + size a) % m) a < m := by
  induction l generalizing a with
  | nil => exact h
  | cons b l ih => exact ih (Nat.mod_lt _ (Nat.zero_lt_of_lt h))

/-- The bytes of all the UEs. -/
def totalBytes (activeDl : ActiveUeMap) : ℕ := ((activeDl.flatMap Prod.snd).map Prod.snd).sum

theorem length_insertActive (beam : BeamId) (ue : UePtrAndBufferReq) (activeUe : ActiveUeMap) :
    ((insertActive beam ue activeUe).flatMap Prod.snd).length =
      (activeUe.flatMap Prod.snd).length + 1 := by
  induction activeUe with
  | nil => rfl
  | cons el activeUe ih =>
      unfold insertActive
      split
      · simp only [List.flatMap_cons, List.length_append, List.length_cons, List.length_nil]
        omega
      · rw [List.flatMap_cons, List.length_append, ih, List.flatMap_cons, List.length_append]
        omega

theorem length_computeActiveUe (ues : UePtr → UeInfo) (ueMap : List UeMapEntry) :
    ((computeActiveUe ues ueMap).flatMap Prod.snd).length ≤ ueMap.length := by
  unfold computeActiveUe
  induction ueMap using List.reverseRecOn with
  | nil => exact le_rfl
  | append_singleton l e ih =>
      rw [List.foldl_append, List.foldl_cons, List.foldl_nil, List.length_append,
        List.length_singleton]
      split
      · rw [length_insertActive]
        omega
      · omega

theorem totalBytes_le {ues : UePtr → UeInfo} {ueMap : List UeMapEntry} {activeDl : ActiveUeMap}
    (h : activeDl.Perm (computeActiveUe ues ueMap)) :
    totalBytes activeDl ≤ ueMap.length * 2 ^ 32 := by
  have hbuffer : ∀ n ∈ (activeDl.flatMap Prod.snd).map Prod.snd, n ≤ 2 ^ 32 := by
    intro n hn
    obtain ⟨ue, hue, rfl⟩ := List.mem_map.mp hn
    obtain ⟨el, hel, hue⟩ := List.mem_flatMap.mp hue
    rw [(computeActiveUe_hasData ues ueMap el (h.mem_iff.mp hel) ue hue).1]
    exact (foldl_mod_lt lcgTotalSize (by decide)).le
  have hlen := length_computeActiveUe ues ueMap
  rw [← (h.flatMap_right Prod.snd).length_eq, ← List.length_map Prod.snd] at hlen
  calc totalBytes activeDl
      ≤ ((activeDl.flatMap Prod.snd).map Prod.snd).length * 2 ^ 32 := List.sum_le_card_nsmul _ _ hbuffer
    _ ≤ ueMap.length * 2 ^ 32 := Nat.mul_le_mul_right _ hlen

theorem computeActiveUe_ne_nil (ues : UePtr → UeInfo) (ueMap : List UeMapEntry) :
    ∀ el ∈ computeActiveUe ues ueMap, el.2 ≠ [] := by
  unfold computeActiveUe
  induction ueMap using List.reverseRecOn with
  | nil => exact fun el hel => absurd hel List.not_mem_nil
  | append_singleton l e ih =>
      rw [List.foldl_append, List.foldl_cons, List.foldl_nil]
      split
      · exact insertActive_ne_nil ih
      · exact ih

theorem computeActiveUe_beams (ues : UePtr → UeInfo) (ueMap : List UeMapEntry) :
    ((computeActiveUe ues ueMap).map Prod.fst).Nodup := by
  unfold computeActiveUe
  induction ueMap using List.reverseRecOn with
  | nil => exact List.nodup_nil
  | append_singleton l e ih =>
      rw [List.foldl_append, List.foldl_cons, List.foldl_nil]
      split
      · rw [insertActive_keys]
        split
        · exact ih
        · next h => exact List.nodup_append'.mpr ⟨ih, List.nodup_singleton _, by simpa using h⟩
      · exact ih

/-! ### One more symbol for a beam -/

section Symbol

variable {ret : BeamSymbolMap} {activeDl : ActiveUeMap} {b : BeamId}

theorem symbolsOf_eq_sum : Scheduler.symbolsOf ret activeDl =
    ((activeDl.map Prod.fst).map fun b => ret.getD b 0).sum := by
  unfold Scheduler.symbolsOf
  rw [List.map_map]
  rfl

theorem symbolsOf_set (hn : (activeDl.map Prod.fst).Nodup) (hb : b ∈ activeDl.map Prod.fst) :
    Scheduler.symbolsOf (ret.set b (ret.getD b 0 + 1)) activeDl =
      Scheduler.symbolsOf ret activeDl + 1 := by
  rw [symbolsOf_eq_sum, symbolsOf_eq_sum]
  refine Turns.sum_map_succ hn hb ?_ fun a _ hne => ?_
  · rw [UMap.getD_set, if_pos rfl]
  · rw [UMap.getD_set, if_neg hne]

theorem symbolsOf_set_le (hn : (activeDl.map Prod.fst).Nodup) :
    Scheduler.symbolsOf (ret.set b (ret.getD b 0 + 1)) activeDl ≤
      Scheduler.symbolsOf ret activeDl + 1 := by
  by_cases hb : b ∈ activeDl.map Prod.fst
  · exact (symbolsOf_set hn hb).le
  · have hsame : Scheduler.symbolsOf (ret.set b (ret.getD b 0 + 1)) activeDl =
        Scheduler.symbolsOf ret activeDl := by
      rw [symbolsOf_eq_sum, symbolsOf_eq_sum]
      refine congrArg List.sum (List.map_congr_left fun a ha => ?_)
      rw [UMap.getD_set, if_neg (ne_of_mem_of_not_mem ha hb)]
    omega

theorem symbolsOf_empty : Scheduler.symbolsOf .empty activeDl = 0 :=
  List.sum_eq_zero fun m hm => by
    obtain ⟨el, -, rfl⟩ := List.mem_map.mp hm
    exact UMap.getD_empty el.1 0

end Symbol

/-! ### Load-based -/

namespace LoadBased

variable {fl : ℚ → ℚ} {symAvail : ℕ} {activeDl : ActiveUeMap}

theorem foldl_mod_le {α : Type} (size : α → ℕ) {l : List α} {m a : ℕ} :
    l.foldl (fun total a => (total + size a) % m) a ≤ a + (l.map size).sum := by
  induction l generalizing a with
  | nil => simp
  | cons b l ih =>
      rw [List.foldl_cons, List.map_cons, List.sum_cons]
      have h1 := Nat.mod_le (a + size b) m
      have h2 := ih (a := (a + size b) % m)
      omega

theorem foldl_mod_eq {α : Type} (size : α → ℕ) {l : List α} {m a : ℕ}
    (h : a + (l.map size).sum < m) :
    l.foldl (fun total a => (total + size a) % m) a = a + (l.map size).sum := by
  induction l generalizing a with
  | nil => simp
  | cons b l ih =>
      rw [List.map_cons, List.sum_cons] at h
      rw [List.foldl_cons, Nat.mod_eq_of_lt (by omega), ih (by omega), List.map_cons,
        List.sum_cons, Nat.add_assoc]

theorem bufTotal_eq (activeDl : ActiveUeMap) : bufTotal activeDl = totalBytes activeDl := by
  unfold bufTotal totalBytes
  rw [Nat.cast_list_sum, List.map_map]
  rfl

theorem sum_bufSizeBeam_le :
    ((activeDl.map fun el => (bufSizeBeam el.2 : ℚ)).sum) ≤ bufTotal activeDl := by
  induction activeDl with
  | nil => exact le_rfl
  | cons el l ih =>
      have hbeam : (bufSizeBeam el.2 : ℚ) ≤ (el.2.map fun ue => (ue.2 : ℚ)).sum := by
        have hle := foldl_mod_le Prod.snd (l := el.2) (m := 2 ^ 32) (a := 0)
        rw [Nat.zero_add] at hle
        have hcast : ((el.2.map Prod.snd).sum : ℚ) = (el.2.map fun ue => (ue.2 : ℚ)).sum := by
          rw [Nat.cast_list_sum, List.map_map]
          rfl
        rw [← hcast]
        exact_mod_cast hle
      rw [List.map_cons, List.sum_cons]
      unfold bufTotal at ih ⊢
      rw [List.flatMap_cons, List.map_append, List.sum_append]
      exact add_le_add hbeam ih

theorem bufSizeBeam_lt (ueVector : List UePtrAndBufferReq) : bufSizeBeam ueVector < 2 ^ 32 :=
  foldl_mod_lt Prod.snd (by decide)

/-- The parts are rounded down in the end, so that they fit: the two roundings of a part do not add
up to a symbol. -/
theorem sum_symForBeam_le (hfl : NearestDouble fl) {total : ℕ} (htotal : bufTotal activeDl = total)
    (hpos : 0 < total) (hlt : total < 2 ^ 64) (hsym : symAvail < 2 ^ 8) :
    (activeDl.map fun el => symForBeam fl symAvail activeDl el.2).sum ≤ symAvail := by
  set c : ℚ := (1 + 1 / 2 ^ 53) ^ 2 with hc
  have htotal0 : (0 : ℚ) < total := Nat.cast_pos.mpr hpos
  have hquot : (0 : ℚ) ≤ symAvail / total := div_nonneg (Nat.cast_nonneg _) htotal0.le
  have hpart : ∀ el : BeamId × List UePtrAndBufferReq,
      (symForBeam fl symAvail activeDl el.2 : ℚ) ≤
        (bufSizeBeam el.2 : ℚ) * (symAvail / total * c) := by
    intro el
    have hbeam := bufSizeBeam_lt el.2
    have hround := hfl.mul_div_le (a := symAvail) (b := bufSizeBeam el.2) hpos (by omega) hlt
      (by omega)
    have hnonneg : (0 : ℚ) ≤ (bufSizeBeam el.2 : ℚ) * (symAvail / total) * c := by positivity
    rw [← mul_assoc]
    refine le_trans ?_ (Nat.floor_le hnonneg)
    unfold symForBeam
    rw [htotal]
    have hfloor := Int.toNat_le_toNat (Int.floor_le_floor hround)
    exact_mod_cast (Nat.mod_le _ _).trans hfloor
  have hsum : ((activeDl.map fun el => symForBeam fl symAvail activeDl el.2).sum : ℚ) <
      (symAvail + 1 : ℕ) := by
    have hsym' : (symAvail : ℚ) ≤ 2 ^ 8 := by exact_mod_cast hsym.le
    calc ((activeDl.map fun el => symForBeam fl symAvail activeDl el.2).sum : ℚ)
        = (activeDl.map fun el => (symForBeam fl symAvail activeDl el.2 : ℚ)).sum := by
          rw [Nat.cast_list_sum, List.map_map]
          rfl
      _ ≤ (activeDl.map fun el => (bufSizeBeam el.2 : ℚ) * (symAvail / total * c)).sum :=
          List.sum_le_sum fun el _ => hpart el
      _ = (activeDl.map fun el => (bufSizeBeam el.2 : ℚ)).sum * (symAvail / total * c) :=
          List.sum_map_mul_right ..
      _ ≤ total * (symAvail / total * c) := by
          rw [← htotal] at hquot ⊢
          exact mul_le_mul_of_nonneg_right sum_bufSizeBeam_le (by positivity)
      _ = symAvail * c := by rw [← mul_assoc, mul_div_cancel₀ _ htotal0.ne']
      _ ≤ symAvail + 2 ^ 8 * (c - 1) := by
          have hc1 : 0 ≤ c - 1 := by norm_num [hc]
          have h := mul_le_mul_of_nonneg_right hsym' hc1
          linarith
      _ < (symAvail + 1 : ℕ) := by
          push_cast
          have hc2 : 2 ^ 8 * (c - 1) < 1 := by norm_num [hc]
          linarith
  exact Nat.le_of_lt_succ (by exact_mod_cast hsum)

theorem getD_foldl_set (size : List UePtrAndBufferReq → ℕ) :
    ∀ {l : ActiveUeMap} {ret : BeamSymbolMap}, (l.map Prod.fst).Nodup → ∀ el ∈ l,
      (l.foldl (fun ret el => ret.set el.1 (size el.2)) ret).getD el.1 0 = size el.2
  | el' :: l, ret, hn, el, hel => by
      obtain ⟨hnot, hn⟩ := List.nodup_cons.mp hn
      rw [List.foldl_cons]
      rcases List.mem_cons.mp hel with rfl | hel
      · have hkeep : ∀ (l : ActiveUeMap) (ret : BeamSymbolMap), el.1 ∉ l.map Prod.fst →
            (l.foldl (fun ret el => ret.set el.1 (size el.2)) ret).getD el.1 0 =
              ret.getD el.1 0 := by
          intro l
          induction l with
          | nil => exact fun _ _ => rfl
          | cons el' l ih =>
              intro ret h
              rw [List.map_cons, List.mem_cons, not_or] at h
              rw [List.foldl_cons, ih _ h.2, UMap.getD_set, if_neg h.1]
        rw [hkeep l _ hnot, UMap.getD_set, if_pos rfl]
      · exact getD_foldl_set size hn el hel

theorem symbolsOf_parts (hn : (activeDl.map Prod.fst).Nodup) :
    Scheduler.symbolsOf (activeDl.foldl (fun ret el =>
      ret.set el.1 (symForBeam fl symAvail activeDl el.2)) .empty) activeDl =
      (activeDl.map fun el => symForBeam fl symAvail activeDl el.2).sum :=
  congrArg List.sum (List.map_congr_left fun el hel =>
    getD_foldl_set (symForBeam fl symAvail activeDl) hn el hel)

theorem foldl_pick {f : Option BeamId → BeamId → Option BeamId}
    (hf : ∀ b c, f (some b) c = some c ∨ f (some b) c = some b) :
    ∀ (l : List BeamId) (b : BeamId), ∃ b' ∈ b :: l, l.foldl f (some b) = some b'
  | [], b => ⟨b, List.mem_cons_self, rfl⟩
  | c :: l, b => by
      rw [List.foldl_cons]
      rcases hf b c with h | h
      · rw [h]
        obtain ⟨b', hb', hl⟩ := foldl_pick hf l c
        exact ⟨b', List.mem_cons_of_mem b hb', hl⟩
      · rw [h]
        obtain ⟨b', hb', hl⟩ := foldl_pick hf l b
        refine ⟨b', ?_, hl⟩
        rcases List.mem_cons.mp hb' with rfl | hb'
        · exact List.mem_cons_self
        · exact List.mem_cons_of_mem b (List.mem_cons_of_mem c hb')

theorem minBeam_mem (ret : BeamSymbolMap) {beams : List BeamId} (h : beams ≠ []) :
    ∃ b ∈ beams, minBeam ret beams = some b := by
  cases beams with
  | nil => exact absurd rfl h
  | cons b l =>
      refine foldl_pick (fun b c => ?_) l b
      dsimp only
      split
      · exact .inl rfl
      · exact .inr rfl

theorem symbolsOf_redistribute {beams : List BeamId} (hperm : beams.Perm (activeDl.map Prod.fst))
    (hn : (activeDl.map Prod.fst).Nodup) (hne : activeDl ≠ []) (ret : BeamSymbolMap) (n : ℕ) :
    Scheduler.symbolsOf ((redistribute beams)^[n] ret) activeDl =
      Scheduler.symbolsOf ret activeDl + n := by
  induction n with
  | zero => rfl
  | succ n ih =>
      have hbeams : beams ≠ [] := by
        rintro rfl
        exact hne (List.map_eq_nil_iff.mp hperm.nil_eq.symm)
      obtain ⟨b, hb, hmin⟩ := minBeam_mem ((redistribute beams)^[n] ret) hbeams
      rw [Function.iterate_succ_apply', redistribute, hmin]
      dsimp only
      rw [symbolsOf_set hn (hperm.mem_iff.mp hb), ih, Nat.add_assoc]

theorem symbolsOf_getSymPerBeam {order : List BeamId → List BeamId} (hfl : NearestDouble fl)
    (horder : ∀ l, (order l).Perm l) (hn : (activeDl.map Prod.fst).Nodup) (hne : activeDl ≠ [])
    {total : ℕ} (htotal : bufTotal activeDl = total) (hpos : 0 < total) (hlt : total < 2 ^ 64)
    (hsym : symAvail < 2 ^ 8) :
    Scheduler.symbolsOf (getSymPerBeam fl order symAvail activeDl) activeDl = symAvail := by
  have hle := sum_symForBeam_le hfl htotal hpos hlt hsym
  have hused : symUsed fl symAvail activeDl =
      (activeDl.map fun el => symForBeam fl symAvail activeDl el.2).sum := by
    have h := foldl_mod_eq (fun el : BeamId × List UePtrAndBufferReq =>
      symForBeam fl symAvail activeDl el.2) (l := activeDl) (m := 2 ^ 8) (a := 0) (by omega)
    rw [Nat.zero_add] at h
    exact h
  unfold getSymPerBeam
  dsimp only
  split
  · rw [symbolsOf_redistribute (horder _) hn hne, symbolsOf_parts hn, hused,
      Nat.mod_eq_of_lt (by omega)]
    omega
  · rw [symbolsOf_parts hn]
    omega

end LoadBased

/-! ### Round-robin -/

namespace RoundRobin

variable {activeDl : ActiveUeMap} {q : List BeamId} {P : BeamId → Bool} {order : List BeamId}
  {m : ℕ}

/-- A call of `GetSymPerBeam`, with the queue it leaves. -/
def call (rrBeams : List BeamId) (symAvail : ℕ) (activeDl : ActiveUeMap) :
    List BeamId × BeamSymbolMap :=
  (fun s => serve activeDl s.1.length s)^[symAvail] (register rrBeams activeDl, .empty)

theorem serve_eq {b : BeamId} (hb : b ∈ activeDl.map Prod.fst) {ret : BeamSymbolMap} :
    ∀ {pre post : List BeamId} {n : ℕ}, (∀ c ∈ pre, c ∉ activeDl.map Prod.fst) → pre.length < n →
      serve activeDl n (pre ++ b :: post, ret) =
        (post ++ pre ++ [b], ret.set b (ret.getD b 0 + 1))
  | [], post, n + 1, _, _ => by
      rw [List.nil_append, serve, if_pos hb, List.append_nil]
  | c :: pre, post, n + 1, hpre, hn => by
      rw [List.length_cons] at hn
      rw [List.cons_append, serve, if_neg (hpre c List.mem_cons_self), List.append_assoc,
        List.cons_append, serve_eq hb (fun c hc => hpre c (List.mem_cons_of_mem _ hc)) (by omega),
        List.append_assoc post]
      rfl

/-- The beams of `P` had `m` turns, from the queue `order`. -/
structure Turned (P : BeamId → Bool) (order : List BeamId) (m : ℕ) (total : BeamId → ℕ)
    (q : List BeamId) : Prop where
  queue : q.filter P = order.rotate m
  total : ∀ b, P b = true → total b = Turns.served order m b

/-- **Step lemma.** A symbol goes to an active beam.  For beams that are active it is their next
turn, or none. -/
theorem Turned.serve {total : BeamId → ℕ} {ret : BeamSymbolMap}
    (h : Turned P order m (fun b => total b + ret.getD b 0) q)
    (hP : ∀ b, P b = true → b ∈ activeDl.map Prod.fst)
    (hex : ∃ b ∈ q, b ∈ activeDl.map Prod.fst) :
    ∃ b ∈ activeDl.map Prod.fst,
      (RoundRobin.serve activeDl q.length (q, ret)).1.Perm q ∧
      (RoundRobin.serve activeDl q.length (q, ret)).2 = ret.set b (ret.getD b 0 + 1) ∧
      Turned P order (if P b = true then m + 1 else m)
        (fun b => total b + (RoundRobin.serve activeDl q.length (q, ret)).2.getD b 0)
        (RoundRobin.serve activeDl q.length (q, ret)).1 := by
  obtain ⟨b, hfind⟩ : ∃ b, q.find? (fun c => c ∈ activeDl.map Prod.fst) = some b := by
    rw [← Option.isSome_iff_exists, List.find?_isSome]
    obtain ⟨b, hbq, hb⟩ := hex
    exact ⟨b, hbq, decide_eq_true hb⟩
  obtain ⟨hb, pre, post, rfl, hpre⟩ := List.find?_eq_some_iff_append.mp hfind
  simp only [decide_eq_true_eq, Bool.not_eq_true', decide_eq_false_iff_not] at hb hpre
  have hlen : pre.length < (pre ++ b :: post).length := by
    rw [List.length_append, List.length_cons]
    omega
  rw [serve_eq hb hpre hlen]
  have hpreP : pre.filter P = [] := List.filter_eq_nil_iff.mpr fun c hc hPc => hpre c hc (hP c hPc)
  have hqueue := h.queue
  rw [List.filter_append, hpreP, List.nil_append, List.filter_cons] at hqueue
  refine ⟨b, hb, ?_, rfl, ?_, fun c hc => ?_⟩
  · rw [List.append_assoc]
    exact (List.perm_append_comm_assoc post pre [b]).trans
      (List.Perm.append_left pre List.perm_append_comm)
  · dsimp only
    rw [List.filter_append, List.filter_append, hpreP, List.append_nil, List.filter_cons,
      List.filter_nil]
    by_cases hPb : P b = true
    · rw [if_pos hPb] at hqueue ⊢
      rw [if_pos hPb, ← List.rotate_rotate, ← hqueue, List.rotate_cons_succ, List.rotate_zero]
    · rw [if_neg hPb] at hqueue ⊢
      rw [if_neg hPb, List.append_nil, hqueue]
  · have htotal := h.total c hc
    dsimp only at htotal ⊢
    rw [UMap.getD_set]
    by_cases hPb : P b = true
    · rw [if_pos hPb] at hqueue ⊢
      rw [Turns.served_succ, ← hqueue, ← htotal, List.head?_cons]
      by_cases hcb : c = b
      · rw [if_pos hcb, if_pos (by rw [hcb]), hcb, Nat.add_assoc]
      · rw [if_neg hcb, if_neg fun e => hcb (Option.some_inj.mp e).symm, Nat.add_zero]
    · have hcb : c ≠ b := fun e => hPb (e ▸ hc)
      rw [if_neg hcb, if_neg hPb, htotal]

theorem register_append (rrBeams : List BeamId) (activeDl : ActiveUeMap) :
    ∃ new, register rrBeams activeDl = rrBeams ++ new ∧ ∀ b ∈ new, b ∉ rrBeams := by
  unfold register
  induction activeDl generalizing rrBeams with
  | nil => exact ⟨[], (List.append_nil _).symm, fun b hb => absurd hb List.not_mem_nil⟩
  | cons el l ih =>
      rw [List.foldl_cons]
      split
      · exact ih rrBeams
      · next hel =>
          obtain ⟨new, hnew, hnot⟩ := ih (rrBeams ++ [el.1])
          refine ⟨el.1 :: new, by rw [hnew, List.append_assoc]; rfl, fun b hb => ?_⟩
          rcases List.mem_cons.mp hb with rfl | hb
          · exact hel
          · exact fun h => hnot b hb (List.mem_append_left _ h)

theorem register_mem (rrBeams : List BeamId) {b : BeamId} (hb : b ∈ activeDl.map Prod.fst) :
    b ∈ register rrBeams activeDl := by
  obtain ⟨el, hel, rfl⟩ := List.mem_map.mp hb
  obtain ⟨pre, post, rfl⟩ := List.append_of_mem hel
  have hsplit : register rrBeams (pre ++ el :: post) =
      register (register rrBeams (pre ++ [el])) post := by
    unfold register
    rw [← List.foldl_append, List.append_assoc]
    rfl
  obtain ⟨new, hnew, -⟩ := register_append (register rrBeams (pre ++ [el])) post
  rw [hsplit, hnew]
  refine List.mem_append_left new ?_
  unfold register
  rw [List.foldl_append, List.foldl_cons, List.foldl_nil]
  split
  · assumption
  · exact List.mem_append_right _ List.mem_cons_self

theorem register_nodup {rrBeams : List BeamId} (hn : rrBeams.Nodup) :
    (register rrBeams activeDl).Nodup := by
  unfold register
  induction activeDl generalizing rrBeams with
  | nil => exact hn
  | cons el l ih =>
      rw [List.foldl_cons]
      split
      · exact ih hn
      · next hel => exact ih (List.nodup_append'.mpr ⟨hn, List.nodup_singleton _, by simpa using hel⟩)

theorem register_filter {rrBeams : List BeamId} (hP : ∀ b, P b = true → b ∈ rrBeams) :
    (register rrBeams activeDl).filter P = rrBeams.filter P := by
  obtain ⟨new, hnew, hnot⟩ := register_append rrBeams activeDl
  rw [hnew, List.filter_append, List.filter_eq_nil_iff.mpr fun b hb hPb => hnot b hb (hP b hPb),
    List.append_nil]

/-- **Run lemma.** The symbols of a call, for beams that are active in it. -/
theorem Turned.iterate {total : BeamId → ℕ} {rrBeams : List BeamId} (symAvail : ℕ)
    (hne : activeDl ≠ []) (h : Turned P order m total (register rrBeams activeDl))
    (hP : ∀ b, P b = true → b ∈ activeDl.map Prod.fst) :
    ∃ n ≤ symAvail, (call rrBeams symAvail activeDl).1.Perm (register rrBeams activeDl) ∧
      Turned P order (m + n)
        (fun b => total b + (call rrBeams symAvail activeDl).2.getD b 0)
        (call rrBeams symAvail activeDl).1 ∧
      ((∀ b ∈ activeDl.map Prod.fst, P b = true) → n = symAvail) := by
  unfold call
  induction symAvail with
  | zero => exact ⟨0, le_rfl, List.Perm.refl _, h, fun _ => rfl⟩
  | succ symAvail ih =>
      rw [Function.iterate_succ_apply']
      obtain ⟨n, hn, hperm, hturned, hall⟩ := ih
      set s := (fun s => RoundRobin.serve activeDl s.1.length s)^[symAvail]
        (register rrBeams activeDl, .empty)
      obtain ⟨el, hel⟩ := List.exists_mem_of_ne_nil _ hne
      have hmem : el.1 ∈ activeDl.map Prod.fst := List.mem_map_of_mem hel
      obtain ⟨b, hb, hperm', -, hturned'⟩ := hturned.serve hP
        ⟨el.1, hperm.mem_iff.mpr (register_mem rrBeams hmem), hmem⟩
      refine ⟨if P b = true then n + 1 else n, ?_, hperm'.trans hperm, ?_, fun hall' => ?_⟩
      · split
        · omega
        · omega
      · split
        · next hPb =>
            rw [if_pos hPb] at hturned'
            exact hturned'
        · next hPb =>
            rw [if_neg hPb] at hturned'
            exact hturned'
      · rw [if_pos (hall' b hb), hall hall']

/-- A slot's call: its symbols, and its active UEs. -/
structure Call where
  symAvail : ℕ
  active : ActiveUeMap

/-- The results of calls one after another: downlink and uplink slots share the queue. -/
def calls : List BeamId → List Call → List BeamSymbolMap
  | _, [] => []
  | q, c :: cs => (call q c.symAvail c.active).2 :: calls (call q c.symAvail c.active).1 cs

def totalOf (rets : List BeamSymbolMap) (b : BeamId) : ℕ := (rets.map fun ret => ret.getD b 0).sum

/-- **Run lemma.** The symbols of calls, for beams of the queue that are active in all of them. -/
theorem Turned.calls {cs : List Call} {total : BeamId → ℕ} (hne : ∃ b, P b = true)
    (hP : ∀ c ∈ cs, ∀ b, P b = true → b ∈ c.active.map Prod.fst)
    (hq : ∀ b, P b = true → b ∈ q) (h : Turned P order m total q) :
    ∃ n, ∀ b, P b = true →
      total b + totalOf (RoundRobin.calls q cs) b = Turns.served order n b := by
  induction cs generalizing q m total with
  | nil => exact ⟨m, h.total⟩
  | cons c cs ih =>
      have hactive := hP c List.mem_cons_self
      have hc : c.active ≠ [] := by
        obtain ⟨b, hb⟩ := hne
        exact fun e => absurd (hactive b hb) (by rw [e]; exact List.not_mem_nil)
      have hregister : Turned P order m total (register q c.active) :=
        ⟨(register_filter hq).trans h.queue, h.total⟩
      obtain ⟨n, -, hperm, hturned, -⟩ := hregister.iterate c.symAvail hc hactive
      obtain ⟨n', hn'⟩ := ih (fun c hc => hP c (List.mem_cons_of_mem _ hc))
        (fun b hb => hperm.mem_iff.mpr (register_mem q (hactive b hb))) hturned
      refine ⟨n', fun b hb => ?_⟩
      rw [← hn' b hb, RoundRobin.calls, totalOf, List.map_cons, List.sum_cons, Nat.add_assoc]
      rfl

theorem register_of_subset {rrBeams : List BeamId} (h : ∀ el ∈ activeDl, el.1 ∈ rrBeams) :
    register rrBeams activeDl = rrBeams := by
  unfold register
  induction activeDl with
  | nil => rfl
  | cons el l ih =>
      rw [List.foldl_cons, if_pos (h el List.mem_cons_self)]
      exact ih fun el hel => h el (List.mem_cons_of_mem _ hel)

theorem calls_register (q : List BeamId) (c : Call) (cs : List Call) :
    calls (register q c.active) (c :: cs) = calls q (c :: cs) := by
  have hsame : register (register q c.active) c.active = register q c.active :=
    register_of_subset fun el hel => register_mem q (List.mem_map_of_mem hel)
  rw [calls, calls, call, call, hsame]

/-- **Two beams that are active in every slot get their symbols in turns**: whatever the other
beams do, their totals differ by one symbol at most. -/
theorem turns_fair {rrBeams : List BeamId} (hn : rrBeams.Nodup) (cs : List Call) (a b : BeamId)
    (ha : ∀ c ∈ cs, a ∈ c.active.map Prod.fst) (hb : ∀ c ∈ cs, b ∈ c.active.map Prod.fst) :
    totalOf (calls rrBeams cs) a ≤ totalOf (calls rrBeams cs) b + 1 := by
  cases cs with
  | nil => exact Nat.zero_le _
  | cons c cs =>
      set P : BeamId → Bool := fun d => d = a ∨ d = b
      have hP : ∀ c' ∈ c :: cs, ∀ d, P d = true → d ∈ c'.active.map Prod.fst := by
        intro c' hc' d hd
        rcases of_decide_eq_true hd with rfl | rfl
        · exact ha c' hc'
        · exact hb c' hc'
      have hmem : ∀ d, P d = true → d ∈ register rrBeams c.active := fun d hd =>
        register_mem rrBeams (hP c List.mem_cons_self d hd)
      set order := (register rrBeams c.active).filter P
      have horder : order.Nodup := (register_nodup hn).filter _
      have hstart : Turned P order 0 (fun _ => 0) (register rrBeams c.active) :=
        ⟨(List.rotate_zero order).symm, fun _ _ => Turns.served_zero.symm⟩
      obtain ⟨n, hserved⟩ := hstart.calls ⟨a, decide_eq_true (.inl rfl)⟩ hP hmem
      rw [calls_register] at hserved
      have hrounds : ∀ d, P d = true → ∃ e ≤ 1,
          totalOf (calls rrBeams (c :: cs)) d = n / order.length + e := by
        intro d hd
        obtain ⟨j, hj⟩ := List.getElem?_of_mem (List.mem_filter.mpr ⟨hmem d hd, hd⟩)
        refine ⟨if j < n % order.length then 1 else 0, by split <;> omega, ?_⟩
        rw [← Turns.served_of_getElem? horder hj, ← hserved d hd, Nat.zero_add]
      obtain ⟨e, he, hta⟩ := hrounds a (decide_eq_true (.inl rfl))
      obtain ⟨e', -, htb⟩ := hrounds b (decide_eq_true (.inr rfl))
      omega

/-- Three beams: the third is active in every other slot. -/
def threeBeams : List Call :=
  [⟨7, [(⟨0, 0⟩, [(0, 9)]), (⟨1, 0⟩, [(1, 9)]), (⟨2, 0⟩, [(2, 9)])]⟩,
    ⟨4, [(⟨1, 0⟩, [(1, 9)]), (⟨0, 0⟩, [(0, 9)])]⟩,
    ⟨6, [(⟨0, 0⟩, [(0, 9)]), (⟨1, 0⟩, [(1, 9)]), (⟨2, 0⟩, [(2, 9)])]⟩]

theorem turns_fair_threeBeams :
    totalOf (calls [] threeBeams) ⟨1, 0⟩ ≤ totalOf (calls [] threeBeams) ⟨0, 0⟩ + 1 :=
  turns_fair List.nodup_nil threeBeams ⟨1, 0⟩ ⟨0, 0⟩ (by decide +kernel) (by decide +kernel)

/-- The turns of the active beams are all the symbols. -/
theorem symbolsOf_getSymPerBeam {rrBeams : List BeamId} (hn : rrBeams.Nodup)
    (hkeys : (activeDl.map Prod.fst).Nodup) (hne : activeDl ≠ []) (symAvail : ℕ) :
    Scheduler.symbolsOf (getSymPerBeam rrBeams symAvail activeDl) activeDl = symAvail := by
  set P : BeamId → Bool := fun b => b ∈ activeDl.map Prod.fst
  set order := (register rrBeams activeDl).filter P
  have hstart : Turned P order 0 (fun _ => 0) (register rrBeams activeDl) :=
    ⟨(List.rotate_zero order).symm, fun _ _ => Turns.served_zero.symm⟩
  obtain ⟨n, -, -, hturned, hall⟩ :=
    hstart.iterate symAvail hne fun b hb => of_decide_eq_true hb
  rw [Nat.zero_add, hall fun b hb => decide_eq_true hb] at hturned
  have horder : order.Nodup := (register_nodup hn).filter _
  have hmem : ∀ b, b ∈ order ↔ b ∈ activeDl.map Prod.fst := fun b => by
    rw [List.mem_filter, decide_eq_true_eq]
    exact ⟨And.right, fun hb => ⟨register_mem rrBeams hb, hb⟩⟩
  have hnil : order ≠ [] := by
    obtain ⟨el, hel⟩ := List.exists_mem_of_ne_nil _ hne
    exact List.ne_nil_of_mem ((hmem el.1).mpr (List.mem_map_of_mem hel))
  have hperm : order.Perm (activeDl.map Prod.fst) :=
    (List.perm_ext_iff_of_nodup horder hkeys).mpr hmem
  calc Scheduler.symbolsOf (getSymPerBeam rrBeams symAvail activeDl) activeDl
      = ((activeDl.map Prod.fst).map (Turns.served order symAvail)).sum := by
        rw [symbolsOf_eq_sum]
        refine congrArg List.sum (List.map_congr_left fun b hb => ?_)
        have htotal := hturned.total b (decide_eq_true hb)
        rw [Nat.zero_add] at htotal
        exact htotal
    _ = (order.map (Turns.served order symAvail)).sum := (hperm.map _).sum_eq.symm
    _ = symAvail := Turns.sum_served horder hnil symAvail

end RoundRobin

/-! ### Proportional-fair -/

namespace ProportionalFair

variable {R : Rates} {activeDl : ActiveUeMap}

theorem foldl_rateBeam_ret (l : ActiveUeMap) (acc : LoopState × BeamId × ℚ) :
    (l.foldl (rateBeam R) acc).1.ret = acc.1.ret := by
  induction l generalizing acc with
  | nil => rfl
  | cons el l ih =>
      rw [List.foldl_cons, ih]
      unfold rateBeam
      split
      · rfl
      · dsimp only
        split
        · rfl
        · rfl

theorem symbolsOf_serveSymbol (hn : (activeDl.map Prod.fst).Nodup) (s : LoopState) :
    Scheduler.symbolsOf (serveSymbol R activeDl s).ret activeDl ≤
      Scheduler.symbolsOf s.ret activeDl + 1 := by
  have hbest := foldl_rateBeam_ret (R := R) activeDl (s, ⟨0, 0⟩, -1)
  dsimp only at hbest
  unfold serveSymbol
  dsimp only
  split
  · rw [hbest]
    exact Nat.le_succ _
  · dsimp only
    rw [hbest]
    exact symbolsOf_set_le hn

theorem symbolsOf_getSymPerBeam (beams : UMap BeamId BeamRates) (symAvail : ℕ)
    (hn : (activeDl.map Prod.fst).Nodup) :
    Scheduler.symbolsOf (getSymPerBeam R beams symAvail activeDl) activeDl ≤ symAvail := by
  unfold getSymPerBeam
  induction symAvail with
  | zero => exact symbolsOf_empty.le
  | succ symAvail ih =>
      rw [Function.iterate_succ_apply']
      exact (symbolsOf_serveSymbol hn _).trans (Nat.succ_le_succ ih)

end ProportionalFair

/-! ### Every strategy -/

namespace SymPerBeamStrategy

/-- The load-based strategy computes with `double` values, and its order is an order of the beams; the
queue of the round-robin strategy has a beam once. -/
def WellFormed : SymPerBeamStrategy → Prop
  | loadBased fl order => NearestDouble fl ∧ ∀ l, (order l).Perm l
  | roundRobin rrBeams => rrBeams.Nodup
  | proportionalFair _ _ => True

/-- The strategy gives out every symbol. -/
def GivesAll : SymPerBeamStrategy → Prop
  | loadBased _ _ | roundRobin _ => True
  | proportionalFair _ _ => False

/-- **The beams get no more symbols than there are**, and by load or in turns all of them. -/
theorem symbols_shared (strategy : SymPerBeamStrategy) (hstrategy : strategy.WellFormed)
    (ues : UePtr → UeInfo) (ueMap : List UeMapEntry) (hues : ueMap.length ≤ 2 ^ 16)
    (activeDl : ActiveUeMap) (hactive : activeDl.Perm (computeActiveUe ues ueMap))
    (hne : activeDl ≠ []) (symAvail : ℕ) (hlt : symAvail < 2 ^ 8) :
    Scheduler.symbolsOf (strategy.getSymPerBeam symAvail activeDl) activeDl ≤ symAvail ∧
      (strategy.GivesAll →
        Scheduler.symbolsOf (strategy.getSymPerBeam symAvail activeDl) activeDl = symAvail) := by
  have hn : (activeDl.map Prod.fst).Nodup :=
    (hactive.map Prod.fst).nodup_iff.mpr (computeActiveUe_beams ues ueMap)
  cases strategy with
  | loadBased fl order =>
      obtain ⟨hfl, horder⟩ := hstrategy
      obtain ⟨el, hel⟩ := List.exists_mem_of_ne_nil _ hne
      have hpos : 0 < LoadBased.bufTotal activeDl :=
        bufTotal_pos hel (computeActiveUe_ne_nil ues ueMap el (hactive.mem_iff.mp hel))
          fun el hel ue hue =>
            (computeActiveUe_hasData ues ueMap el (hactive.mem_iff.mp hel) ue hue).2
      have htotal := LoadBased.bufTotal_eq activeDl
      rw [htotal, Nat.cast_pos] at hpos
      have hbytes := totalBytes_le hactive
      have h := LoadBased.symbolsOf_getSymPerBeam hfl horder hn hne htotal hpos (by omega) hlt
      exact ⟨h.le, fun _ => h⟩
  | roundRobin rrBeams =>
      have h := RoundRobin.symbolsOf_getSymPerBeam hstrategy hn hne symAvail
      exact ⟨h.le, fun _ => h⟩
  | proportionalFair R beams =>
      exact ⟨ProportionalFair.symbolsOf_getSymPerBeam beams symAvail hn, False.elim⟩

/-- By load, a beam with two UEs and one with a UE: of seven symbols they get four and three. -/
theorem symbols_shared_byLoad :
    Scheduler.symbolsOf (SymPerBeamStrategy.getSymPerBeam (.loadBased roundDouble id) 7
      [(⟨0, 0⟩, [(0, 100), (2, 100)]), (⟨1, 0⟩, [(1, 100)])])
      [(⟨0, 0⟩, [(0, 100), (2, 100)]), (⟨1, 0⟩, [(1, 100)])] = 7 :=
  (symbols_shared (.loadBased roundDouble id) ⟨nearestDouble_roundDouble, fun l => List.Perm.refl l⟩
    (World.fresh {} fun _ => 0).ues
    [⟨0, ⟨0, 0⟩, 0, 16⟩, ⟨1, ⟨1, 0⟩, 0, 16⟩, ⟨2, ⟨0, 0⟩, 0, 16⟩] (by decide)
    [(⟨0, 0⟩, [(0, 100), (2, 100)]), (⟨1, 0⟩, [(1, 100)])]
    (by decide +kernel) (by decide) 7 (by decide)).2 trivial

end SymPerBeamStrategy

end Rbis
